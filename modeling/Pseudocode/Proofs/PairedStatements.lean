import Pseudocode.Proofs.Pairing
import Pseudocode.Proofs.Progress

/-! # Reading statements side by side

Between statements the two sources may differ in more than the end of a line: the tokens before the
next statements need not correspond, and the source on the left may be at its end. A `BlockPairing`
tells what holds there. Blocks then correspond as well, for the parsers of statements see the places
between lines through `skipLineEnds` only. -/

namespace Pseudocode

namespace Cursor

/-- The place after the end of the line, or this one at the end of the input. -/
def afterLine (c : Cursor) : Cursor :=
  if c.here.lexeme = .endOfLine then c.next else c

def skipped (c : Cursor) : Cursor :=
  skipLineEnds c.last c.here c.rest

end Cursor

theorem Expr.literalType?_moved (f : Position → Position) (e : Expr) :
    (e.moved f).literalType? = e.literalType? := by
  cases e with
  | unary op operand span =>
    cases op with
    | negate =>
      rw [Expr.moved, literalType?, literalType?]
      exact literalType?_moved f operand
    | _ => simp only [Expr.moved, literalType?]
  | _ => simp only [Expr.moved, literalType?]

theorem Expr.span_moved_of_literal (f : Position → Position) {e : Expr} {type : String}
    (literal : e.literalType? = some type) : e.span.moved f = (e.moved f).span := by
  cases e with
  | hole => cases literal
  | _ => simp only [Expr.moved, Expr.span, Ident.moved]

theorem skipLineEnds_run {c : Cursor} : Parser.skipLineEnds.run c = .ok ((), c.skipped) := rfl

namespace Pairing

/-- The cursors are at the same token, and their lines go on in the same way. -/
structure Starts (S : Pairing) (c c' : Cursor) : Prop where
  stands : S.Stands c c'
  inner : c.here.lexeme.endsLine = false
  lastOfLine : (Cursor.lastOfLine c'.here c'.rest).lexeme = (Cursor.lastOfLine c.here c.rest).lexeme

theorem Starts.advance {S : Pairing} {c c' : Cursor} (starts : S.Starts c c') :
    S.Agrees S.Same S.line Parser.advance c Parser.advance c' :=
  starts.stands.advance starts.inner

end Pairing

structure BlockPairing extends Pairing where
  /-- The cursors are between corresponding statements. -/
  gap : Cursor → Cursor → Prop
  /-- The source on the left has no further statement. -/
  stopped : Cursor → Cursor → Prop
  line_gap : ∀ {c c'}, line c c' → gap c c'
  leave : ∀ {c c'}, line c c' → c.here.lexeme.endsLine = true → gap c.afterLine c'.afterLine
  skip : ∀ {c c'}, gap c c' →
    toPairing.Starts c.skipped c'.skipped ∨ stopped c.skipped c'.skipped
  stopped_left : ∀ {c c'}, stopped c c' → c.here.isEnd = true
  /-- The source on the right is at its end too, or failures on the left do not matter. -/
  stopped_right : ∀ {c c'}, stopped c c' →
    (c'.here.isEnd = true ∧ ∀ cause, tolerates ⟨c.here.start, cause, c.here.isEnd⟩
      (some ⟨c'.here.start, cause, c'.here.isEnd⟩)) ∨
    ∀ cause r, tolerates ⟨c.here.start, cause, c.here.isEnd⟩ r

namespace BlockPairing

variable {S : BlockPairing} {c c' d d' : Cursor}

variable (S) in
abbrev Alike (s s' : Stmt) : Prop :=
  s.moved S.left = s'.moved S.right

variable (S) in
abbrev AllAlike (body body' : List Stmt) : Prop :=
  Stmt.allMoved S.left body = Stmt.allMoved S.right body'

open Pairing

/-! ## Ends of statements -/

section

variable (line : S.line c c')

include line

theorem endOfStatement :
    S.Agrees (fun _ _ => True) S.gap Parser.endOfStatement c Parser.endOfStatement c' := by
  have stands := line_stands line
  refine .after Parser.peekLexeme_run Parser.peekLexeme_run ?_
  cases inner : c.here.lexeme.endsLine with
  | false =>
    rw [lexeme_eq (stands.same inner)]
    split
    case h_1 isHere => simp [isHere, Lexeme.endsLine] at inner
    case h_2 isHere => simp [isHere, Lexeme.endsLine] at inner
    case h_3 => exact stands.failWanting _
  | true =>
    have inner' : c'.here.lexeme.endsLine = true := by
      rcases stands.here with same | ends
      · rw [lexeme_eq same]
        exact inner
      · exact S.ends_right ends
    have gap := S.leave line inner
    unfold Cursor.afterLine at gap
    rcases Lexeme.endsLine_iff.mp inner with isLeft | isLeft <;>
      rcases Lexeme.endsLine_iff.mp inner' with isRight | isRight <;>
      simp only [isLeft, isRight, if_true, if_false, reduceCtorEq] at gap ⊢ <;>
      exact .ok trivial gap

theorem finish {start start' : Token} (starts : S.Same start start')
    {statement statement' : Span → Stmt}
    (alike : ∀ s s', s.moved S.left = s'.moved S.right → S.Alike (statement s) (statement' s')) :
    S.Agrees S.Alike S.gap (Parser.finish start statement) c
      (Parser.finish start' statement') c' := by
  refine (spanFrom line (start_eq starts)).bind fun span d span' d' spans line => ?_
  refine (endOfStatement line).bind fun _ d _ d' _ gap => ?_
  exact .pure (alike span span' spans) gap

/-! ## Parts of statements -/

theorem typeName : S.Agrees S.toPairing.Alike S.line Parser.typeName c Parser.typeName c' := by
  refine (line_stands line).identifier.map fun name name' names => ?_
  simp only [Pairing.Alike, Expr.moved, names]

theorem constantType :
    S.Agrees (fun t t' => t.map (Expr.moved S.left) = t'.map (Expr.moved S.right)) S.line
      Parser.constantType c Parser.constantType c' := by
  refine (optionalSymbol line .colon).bind fun given d given' d' same line => ?_
  cases same
  split
  · refine (typeName line).map fun type type' types => ?_
    simp only [Option.map_some, types]
  · exact .pure rfl line

theorem loopStep :
    S.Agrees (fun t t' => t.map (Expr.moved S.left) = t'.map (Expr.moved S.right)) S.line
      Parser.loopStep c Parser.loopStep c' := by
  have stands := line_stands line
  refine stands.atKeyword .step ?_
  split
  case isTrue there =>
    have inner : c.here.lexeme.endsLine = false := by simp_all [Lexeme.endsLine]
    refine (stands.advance inner).bind fun _ d _ d' _ line => ?_
    refine (expression line).map fun e e' alike => ?_
    simp only [Option.map_some, alike]
  case isFalse => exact .pure rfl line

theorem parameter (byRef : Bool) :
    S.Agrees (fun p p' => p.moved S.left = p'.moved S.right) S.line (Parser.parameter byRef) c
      (Parser.parameter byRef) c' := by
  have stands := line_stands line
  have markers :
      Parser.Marker.ofLexeme? c'.here.lexeme = Parser.Marker.ofLexeme? c.here.lexeme := by
    rcases stands.here with same | ends
    · rw [lexeme_eq same]
    · rcases ends_lexemes ends with ⟨isLeft | isLeft, isRight | isRight⟩ <;>
        rw [isLeft, isRight] <;> rfl
  have rest {d d' : Cursor} (line : S.line d d') (marker : Option Bool) :
      S.Agrees (fun p p' => p.moved S.left = p'.moved S.right) S.line
        (do
          let name ← Parser.identifier
          let _ ← Parser.symbol .colon
          let declared ← Parser.typeName
          return (⟨name, declared, marker.getD byRef, ← Parser.spanFrom c.here⟩ : Param)) d
        (do
          let name ← Parser.identifier
          let _ ← Parser.symbol .colon
          let declared ← Parser.typeName
          return (⟨name, declared, marker.getD byRef, ← Parser.spanFrom c'.here⟩ : Param)) d' := by
    refine (line_stands line).identifier.bind fun name d name' d' names line => ?_
    refine ((line_stands line).symbol .colon).bind fun _ d _ d' _ line => ?_
    refine (typeName line).bind fun type d type' d' types line => ?_
    refine (spanFrom line stands.start).bind fun span d span' d' spans line => ?_
    exact .pure (by simp only [Param.moved, names, types, spans]) line
  refine .after Parser.peek_run Parser.peek_run ?_
  dsimp only
  rw [markers]
  split
  case isTrue marks =>
    exact (stands.advance (Parser.Marker.endsLine marks)).bind fun _ _ _ _ _ line => rest line _
  case isFalse => exact rest line _

omit line in
theorem moreParameters (n n' : Nat) (line : S.line c c') (byRef : Bool) :
    S.Agrees (fun ps ps' => ps.map (Param.moved S.left) = ps'.map (Param.moved S.right)) S.line
      (Parser.moreParameters n byRef) c (Parser.moreParameters n' byRef) c' := by
  induction n generalizing n' c c' byRef with
  | zero => exact tooDeep_left
  | succ n ih =>
  cases n' with
  | zero => exact tooDeep_right
  | succ n' =>
    rw [Parser.moreParameters, Parser.moreParameters]
    refine (parameter line byRef).bind fun param d param' d' params line => ?_
    refine (optionalSymbol line .comma).bind fun more d more' d' same line => ?_
    cases same
    have byRefs : param'.byRef = param.byRef := (congrArg Param.byRef params).symm
    split
    · rw [byRefs]
      refine (ih n' line param.byRef).bind fun rest d rest' d' rests line => ?_
      exact .pure (by simp only [List.map_cons, params, rests]) line
    · refine ((line_stands line).symbol .rightParen).bind fun _ d _ d' _ line => ?_
      exact .pure (by simp only [List.map_cons, List.map_nil, params]) line

theorem parameters :
    S.Agrees (fun ps ps' => ps.map (Param.moved S.left) = ps'.map (Param.moved S.right)) S.line
      Parser.parameters c Parser.parameters c' := by
  refine (optionalSymbol line .leftParen).bind fun given d given' d' same line => ?_
  cases same
  split
  · refine (optionalSymbol line .rightParen).bind fun none d none' d' same line => ?_
    cases same
    split
    · exact .pure rfl line
    · exact .after Parser.get_run Parser.get_run (moreParameters _ _ line false)
  · exact .pure rfl line

end

/-! ## Simple statements -/

section Statements

variable (starts : S.toPairing.Starts c c')

include starts

theorem assignment : S.Agrees S.Alike S.gap Parser.assignment c Parser.assignment c' := by
  have same := starts.stands.same starts.inner
  refine .after Parser.peek_run Parser.peek_run ?_
  refine starts.stands.identifier.bind fun target d target' d' targets line => ?_
  have names : target'.name = target.name := (congrArg Ident.name targets).symm
  have stands := line_stands line
  refine stands.atSymbol .assign ?_
  split
  case isTrue there =>
    have inner : d.here.lexeme.endsLine = false := by simp_all [Lexeme.endsLine]
    refine (stands.advance inner).bind fun _ d _ d' _ line => ?_
    refine (expression line).bind fun value d value' d' values line => ?_
    refine finish line same fun s s' spans => ?_
    simp only [Alike, Stmt.moved, targets, values, spans]
  case isFalse =>
    rw [names]
    exact stands.failWanting _

theorem declaration : S.Agrees S.Alike S.gap Parser.declaration c Parser.declaration c' := by
  refine starts.advance.bind fun start d start' d' same line => ?_
  refine (line_stands line).identifier.bind fun name d name' d' names line => ?_
  refine ((line_stands line).symbol .colon).bind fun _ d _ d' _ line => ?_
  refine (typeName line).bind fun type d type' d' types line => ?_
  refine finish line same fun s s' spans => ?_
  simp only [Alike, Stmt.moved, names, types, spans]

theorem constantDeclaration :
    S.Agrees S.Alike S.gap Parser.constantDeclaration c Parser.constantDeclaration c' := by
  refine starts.advance.bind fun start d start' d' same line => ?_
  refine (line_stands line).identifier.bind fun name d name' d' names line => ?_
  refine (constantType line).bind fun written d written' d' types line => ?_
  have stands := line_stands line
  refine stands.atSymbol .equal (stands.atSymbol .assign ?_)
  split
  case isTrue => exact stands.failWanting _
  case isFalse signed =>
    have inner : d.here.lexeme.endsLine = false := by
      cases isHere : d.here.lexeme <;> simp_all [Lexeme.endsLine]
    refine (stands.advance inner).bind fun _ d _ d' _ line => ?_
    have valueStarts := S.here line
    refine .after Parser.peek_run Parser.peek_run ?_
    refine (expression line).bind fun value e value' e' values line => ?_
    cases written with
    | some type =>
      cases written' with
      | none => cases types
      | some type' =>
        refine finish line same fun s s' spans => ?_
        simp only [Option.map_some, Option.some.injEq] at types
        simp only [Alike, Stmt.moved, names, types, values, spans]
    | none =>
      cases written' with
      | some type' => cases types
      | none =>
        have implied : value'.literalType? = value.literalType? := by
          rw [← Expr.literalType?_moved S.right, ← values, Expr.literalType?_moved]
        dsimp only
        rw [implied]
        split
        case h_1 type isLiteral =>
          have spans := Expr.span_moved_of_literal S.left isLiteral
          have spans' := Expr.span_moved_of_literal S.right (implied.trans isLiteral)
          have types : Ident.moved S.left ⟨type, value.span⟩ =
              Ident.moved S.right ⟨type, value'.span⟩ := by
            simp only [Ident.moved, spans, spans', values]
          refine finish line same fun s s' outer => ?_
          simp only [Alike, Stmt.moved, Expr.moved, names, types, values, outer]
        case h_2 =>
          have same : name'.name = name.name := (congrArg Ident.name names).symm
          rw [same]
          rcases valueStarts with same | ends
          · exact .error (S.same _ same)
          · exact .error (S.different _ _ ends)

theorem outputStatement :
    S.Agrees S.Alike S.gap Parser.outputStatement c Parser.outputStatement c' := by
  refine starts.advance.bind fun start d start' d' same line => ?_
  refine (expression line).bind fun value d value' d' values line => ?_
  refine finish line same fun s s' spans => ?_
  simp only [Alike, Stmt.moved, values, spans]

theorem returnStatement :
    S.Agrees S.Alike S.gap Parser.returnStatement c Parser.returnStatement c' := by
  refine starts.advance.bind fun start d start' d' same line => ?_
  have stands := line_stands line
  refine .after Parser.peekLexeme_run Parser.peekLexeme_run ?_
  have bare : S.Agrees S.Alike S.gap (Parser.finish start (.returning none)) d
      (Parser.finish start' (.returning none)) d' := by
    refine finish line same fun s s' spans => ?_
    simp only [Alike, Stmt.moved, Option.map_none, spans]
  rcases stands.here with sameHere | ends
  · rw [lexeme_eq sameHere]
    split
    · exact bare
    · exact bare
    · refine (expression line).bind fun value d value' d' values line => ?_
      refine finish line same fun s s' spans => ?_
      simp only [Alike, Stmt.moved, Option.map_some, values, spans]
  · rcases ends_lexemes ends with ⟨isLeft | isLeft, isRight | isRight⟩ <;>
      rw [isLeft, isRight] <;> exact bare

theorem callStatement : S.Agrees S.Alike S.gap Parser.callStatement c Parser.callStatement c' := by
  refine starts.advance.bind fun start d start' d' same line => ?_
  refine (line_stands line).identifier.bind fun callee d callee' d' callees line => ?_
  refine (line_stands line).atSymbol .leftParen ?_
  split
  · refine (arguments line).bind fun given d given' d' givens line => ?_
    refine finish line same fun s s' spans => ?_
    simp only [Alike, Stmt.moved, Option.map_some, callees, givens, spans]
  · refine finish line same fun s s' spans => ?_
    simp only [Alike, Stmt.moved, Option.map_none, callees, spans]

end Statements

/-! ## Compound statements -/

/-- After line ends have been passed over, a keyword is wanted. -/
theorem keyword_of_skip (skipped : S.toPairing.Starts c c' ∨ S.stopped c c') (word : Keyword) :
    S.Agrees S.Same S.line (Parser.keyword word) c (Parser.keyword word) c' := by
  rcases skipped with starts | stopped
  · exact starts.stands.keyword word
  · have fails {d : Cursor} (isEnd : d.here.isEnd = true) : (Parser.keyword word).run d =
        .error ⟨d.here.start, .expected (.keyword word) .endOfInput, d.here.isEnd⟩ := by
      have isHere : d.here.lexeme = .endOfInput := of_decide_eq_true isEnd
      have another : decide (d.here.lexeme = .keyword word) = false := by simp [isHere]
      rw [Parser.keyword, StateT.run_bind, Parser.atKeyword_run, another, ← isHere]
      rfl
    unfold Agrees
    rw [fails (S.stopped_left stopped)]
    rcases S.stopped_right stopped with ⟨isEnd, tolerated⟩ | tolerated
    · rw [fails isEnd]
      exact .error (tolerated _)
    · exact .error (tolerated _ _)

section Compound

variable {block block' : Ending → Parser (List Stmt)} (starts : S.toPairing.Starts c c')
  (blocks : ∀ ending, ending.closers ≠ [] → ∀ d d', S.gap d d' →
    S.Agrees S.AllAlike S.toPairing.Starts (block ending) d (block' ending) d')

theorem closeFor {counter counter' : Ident}
    (counters : counter.moved S.left = counter'.moved S.right)
    (starts : S.toPairing.Starts c c') :
    S.Agrees (fun _ _ => True) S.line (Parser.closeFor counter) c
      (Parser.closeFor counter') c' := by
  have names : counter'.name = counter.name := (congrArg Ident.name counters).symm
  refine starts.stands.atKeyword .next ?_
  split
  · refine starts.advance.bind fun _ d _ d' _ line => ?_
    have stands := line_stands line
    refine .after Parser.peek_run Parser.peek_run ?_
    rw [names]
    rcases stands.here with same | ends
    · rw [lexeme_eq same]
      split
      case h_1 name isName =>
        have inner : d.here.lexeme.endsLine = false := by rw [isName]; rfl
        split
        · exact (stands.advance inner).bind fun _ _ _ _ _ line => .pure trivial line
        · exact stands.fail fun _ => rfl
      case h_2 => exact .pure trivial line
    · rcases ends_lexemes ends with ⟨isLeft | isLeft, isRight | isRight⟩ <;>
        rw [isLeft, isRight] <;> exact .pure trivial line
  · refine starts.advance.bind fun _ _ _ _ _ line => ?_
    exact .pure trivial line

include starts blocks

theorem ifStatement :
    S.Agrees S.Alike S.gap (Parser.ifStatement block) c (Parser.ifStatement block') c' := by
  refine starts.advance.bind fun start d start' d' same line => ?_
  refine (expression line).bind fun condition d condition' d' conditions line => ?_
  refine .after skipLineEnds_run skipLineEnds_run ?_
  refine (keyword_of_skip (S.skip (S.line_gap line)) .then_).bind fun _ d _ d' _ line => ?_
  refine (blocks (.words [.else_, .endIf]) nofun _ _ (S.line_gap line)).bind
    fun first d first' d' firsts starts => ?_
  refine starts.stands.atKeyword .else_ ?_
  split
  · refine starts.advance.bind fun _ d _ d' _ line => ?_
    refine (blocks (.words [.endIf]) nofun _ _ (S.line_gap line)).bind
      fun second d second' d' seconds starts => ?_
    refine (starts.stands.keyword .endIf).bind fun _ d _ d' _ line => ?_
    refine finish line same fun s s' spans => ?_
    simp only [Alike, Stmt.moved, conditions, firsts, seconds, spans]
  · refine (starts.stands.keyword .endIf).bind fun _ d _ d' _ line => ?_
    refine finish line same fun s s' spans => ?_
    simp only [Alike, Stmt.moved, conditions, firsts, spans]

theorem forStatement :
    S.Agrees S.Alike S.gap (Parser.forStatement block) c (Parser.forStatement block') c' := by
  refine starts.advance.bind fun start d start' d' same line => ?_
  refine (line_stands line).identifier.bind fun counter d counter' d' counters line => ?_
  refine ((line_stands line).symbol .assign).bind fun _ d _ d' _ line => ?_
  refine (expression line).bind fun first d first' d' firsts line => ?_
  refine ((line_stands line).keyword .to_).bind fun _ d _ d' _ line => ?_
  refine (expression line).bind fun last d last' d' lasts line => ?_
  refine (loopStep line).bind fun step d step' d' steps line => ?_
  refine (blocks (.words [.endFor, .next]) nofun _ _ (S.line_gap line)).bind
    fun body d body' d' bodies starts => ?_
  refine (closeFor counters starts).bind fun _ d _ d' _ line => ?_
  refine finish line same fun s s' spans => ?_
  simp only [Alike, Stmt.moved, counters, firsts, lasts, steps, bodies, spans]

theorem whileStatement :
    S.Agrees S.Alike S.gap (Parser.whileStatement block) c (Parser.whileStatement block') c' := by
  refine starts.advance.bind fun start d start' d' same line => ?_
  refine (expression line).bind fun condition d condition' d' conditions line => ?_
  have rest {d d' : Cursor} (line : S.line d d') :
      S.Agrees S.Alike S.gap
        (do
          let body ← block (.words [.endWhile])
          let _ ← Parser.advance
          Parser.finish start (.whileLoop condition body)) d
        (do
          let body ← block' (.words [.endWhile])
          let _ ← Parser.advance
          Parser.finish start' (.whileLoop condition' body)) d' := by
    refine (blocks (.words [.endWhile]) nofun _ _ (S.line_gap line)).bind
      fun body d body' d' bodies starts => ?_
    refine starts.advance.bind fun _ d _ d' _ line => ?_
    refine finish line same fun s s' spans => ?_
    simp only [Alike, Stmt.moved, conditions, bodies, spans]
  have stands := line_stands line
  refine stands.atKeyword .do_ ?_
  split
  case isTrue there =>
    have inner : d.here.lexeme.endsLine = false := by simp_all [Lexeme.endsLine]
    exact (stands.advance inner).bind fun _ _ _ _ _ line => rest line
  case isFalse => exact rest line

theorem doStatement :
    S.Agrees S.Alike S.gap (Parser.doStatement block) c (Parser.doStatement block') c' := by
  refine starts.advance.bind fun start d start' d' same line => ?_
  refine (blocks .condition nofun _ _ (S.line_gap line)).bind
    fun body d body' d' bodies starts => ?_
  refine starts.advance.bind fun _ d _ d' _ line => ?_
  refine (expression line).bind fun condition d condition' d' conditions line => ?_
  refine finish line same fun s s' spans => ?_
  simp only [Alike, Stmt.moved, conditions, bodies, spans]

theorem procedureStatement :
    S.Agrees S.Alike S.gap (Parser.procedureStatement block) c
      (Parser.procedureStatement block') c' := by
  refine starts.advance.bind fun start d start' d' same line => ?_
  refine (line_stands line).identifier.bind fun id d id' d' ids line => ?_
  refine (parameters line).bind fun params d params' d' alike line => ?_
  refine (blocks (.words [.endProcedure]) nofun _ _ (S.line_gap line)).bind
    fun body d body' d' bodies starts => ?_
  refine starts.advance.bind fun _ d _ d' _ line => ?_
  refine finish line same fun s s' spans => ?_
  simp only [Alike, Stmt.moved, ids, alike, bodies, spans]

theorem functionStatement :
    S.Agrees S.Alike S.gap (Parser.functionStatement block) c
      (Parser.functionStatement block') c' := by
  refine starts.advance.bind fun start d start' d' same line => ?_
  refine (line_stands line).identifier.bind fun id d id' d' ids line => ?_
  refine (parameters line).bind fun params d params' d' alike line => ?_
  refine ((line_stands line).keyword .returns).bind fun _ d _ d' _ line => ?_
  refine (typeName line).bind fun result d result' d' results line => ?_
  refine (blocks (.words [.endFunction]) nofun _ _ (S.line_gap line)).bind
    fun body d body' d' bodies starts => ?_
  refine starts.advance.bind fun _ d _ d' _ line => ?_
  refine finish line same fun s s' spans => ?_
  simp only [Alike, Stmt.moved, ids, alike, results, bodies, spans]

theorem statementWith :
    S.Agrees S.Alike S.gap (Parser.statementWith block) c (Parser.statementWith block') c' := by
  refine .after Parser.peek_run Parser.peek_run ?_
  rw [lexeme_eq (starts.stands.same starts.inner)]
  split
  · exact assignment starts
  · exact declaration starts
  · exact constantDeclaration starts
  · exact outputStatement starts
  · exact callStatement starts
  · exact returnStatement starts
  · exact ifStatement starts blocks
  · exact forStatement starts blocks
  · exact whileStatement starts blocks
  · exact doStatement starts blocks
  · exact procedureStatement starts blocks
  · exact functionStatement starts blocks
  · exact starts.stands.fail fun _ => rfl

end Compound

/-! ## Blocks -/

theorem reached_eq (starts : S.toPairing.Starts c c') (ending : Ending) :
    ending.reached c' = ending.reached c := by
  have lexeme := lexeme_eq (starts.stands.same starts.inner)
  cases ending with
  | input => rfl
  | words closers => simp only [Ending.reached, lexeme]
  | condition => simp only [Ending.reached, lexeme, starts.lastOfLine]

theorem isEnd_eq (starts : S.toPairing.Starts c c') :
    c.here.isEnd = false ∧ c'.here.isEnd = false := by
  have lexeme := lexeme_eq (starts.stands.same starts.inner)
  refine ⟨Token.isEnd_of_not_endsLine starts.inner, Token.isEnd_of_not_endsLine ?_⟩
  rw [lexeme]
  exact starts.inner

/-- A step of a block on both sides at the start of corresponding statements. -/
theorem block_starts {n n' : Nat} {ending : Ending} {post : Cursor → Cursor → Prop}
    (starts : S.toPairing.Starts c.skipped c'.skipped)
    (here : ending.reached c.skipped = true → post c.skipped c'.skipped)
    (blocks : ∀ ending, ending.closers ≠ [] → ∀ d d', S.gap d d' →
      S.Agrees S.AllAlike S.toPairing.Starts (Parser.block n ending) d (Parser.block n' ending) d')
    (rest : ∀ d d', S.gap d d' →
      S.Agrees S.AllAlike post (Parser.block n ending) d (Parser.block n' ending) d') :
    S.Agrees S.AllAlike post (Parser.block (n + 1) ending) c (Parser.block (n' + 1) ending) c' := by
  obtain ⟨notLeft, notRight⟩ := isEnd_eq starts
  rw [Parser.block, Parser.block]
  refine .after skipLineEnds_run skipLineEnds_run (.after Parser.get_run Parser.get_run ?_)
  simp only [notLeft, notRight, Bool.false_eq_true, if_false, reached_eq starts]
  split
  case isTrue reached => exact .pure rfl (here reached)
  case isFalse =>
    refine (statementWith starts blocks).bind fun first d first' d' firsts gap => ?_
    refine (rest d d' gap).bind fun others d others' d' both places => ?_
    exact .pure (by simp only [AllAlike, Stmt.allMoved, firsts, both]) places

theorem block (n n' : Nat) {ending : Ending} (closing : ending.closers ≠ []) (gap : S.gap c c') :
    S.Agrees S.AllAlike S.toPairing.Starts (Parser.block n ending) c
      (Parser.block n' ending) c' := by
  induction n generalizing n' ending c c' with
  | zero => exact tooDeep_left
  | succ n ih =>
  cases n' with
  | zero => exact tooDeep_right
  | succ n' =>
    have inner (e : Ending) (closing : e.closers ≠ []) (d d' : Cursor) (gap : S.gap d d') :
        S.Agrees S.AllAlike S.toPairing.Starts (Parser.block n e) d (Parser.block n' e) d' :=
      ih n' closing gap
    rcases S.skip gap with starts | stopped
    · exact block_starts starts (fun _ => starts) inner (inner ending closing)
    · have open_ : ending.closers.isEmpty = false := by
        cases closers : ending.closers with
        | nil => exact absurd closers closing
        | cons => rfl
      rw [Parser.block, Parser.block]
      refine .after skipLineEnds_run skipLineEnds_run (.after Parser.get_run Parser.get_run ?_)
      simp only [S.stopped_left stopped, open_, Bool.false_eq_true, if_true, if_false]
      rcases S.stopped_right stopped with ⟨isEnd, tolerated⟩ | tolerated
      · simp only [isEnd, if_true]
        exact .error (tolerated _)
      · exact .error (tolerated _ _)

/-- The statements of whole programs, if both end together. -/
theorem input (n n' : Nat) (together : ∀ c c', S.stopped c c' → c'.here.isEnd = true)
    (gap : S.gap c c') :
    S.Agrees S.AllAlike S.stopped (Parser.block n .input) c (Parser.block n' .input) c' := by
  induction n generalizing n' c c' with
  | zero => exact tooDeep_left
  | succ n ih =>
  cases n' with
  | zero => exact tooDeep_right
  | succ n' =>
    rcases S.skip gap with starts | stopped
    · exact block_starts starts nofun (fun _ closing _ _ => block n n' closing)
        fun _ _ => ih n'
    · rw [Parser.block, Parser.block]
      refine .after skipLineEnds_run skipLineEnds_run (.after Parser.get_run Parser.get_run ?_)
      simp only [S.stopped_left stopped, together _ _ stopped, Ending.closers, List.isEmpty_nil,
        if_true]
      exact .pure rfl stopped

end BlockPairing

end Pseudocode
