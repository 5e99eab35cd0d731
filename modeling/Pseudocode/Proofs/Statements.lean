import Pseudocode.Proofs.Concatenation
import Pseudocode.Proofs.Derivations

/-! # The grammar of statements

`Forms` is the grammar of statements over tokens, `Lines` tells how the statements of a block stand
on their lines. What the parser reads is formed by the grammar, and every statement spans the tokens
it is formed of. -/

namespace Pseudocode

open Program (spanOf)

def LineEnds (gap : List Token) : Prop :=
  ∀ t ∈ gap, t.lexeme = .endOfLine

/-- A block with this ending does not end where the tokens stand. -/
def Ending.Spares (ending : Ending) (ts : List Token) : Prop :=
  ∀ c ∈ Cursor.ofTokens? ts, ending.reached c = false

/-- The tokens `ts` are these statements on lines of their own. Where nothing has to close the
block, the last line needs no end. -/
inductive Lines (ending : Ending) : List (List Token) → List Token → Prop where
  | nil {gap} : LineEnds gap → Lines ending [] gap
  | last {gap part} : LineEnds gap → ending.Spares part → ending.closers = [] →
      Lines ending [part] (gap ++ part)
  | cons {gap part parts ts} {t : Token} : LineEnds gap → ending.Spares part →
      t.lexeme = .endOfLine → Lines ending parts ts →
      Lines ending (part :: parts) (gap ++ part ++ [t] ++ ts)

/-- A block with this ending is over at the cursor. -/
def Ending.Over (ending : Ending) (d : Cursor) : Prop :=
  (d.here.isEnd = true ∧ ending.closers = []) ∨ (d.here.isEnd = false ∧ ending.reached d = true)

/-- The tokens are a parameter, after one that is passed `byRef` or not. -/
inductive Takes (byRef : Bool) : List Token → Param → Prop where
  | marked {m t u v : Token} {marker name type} : Parser.Marker.ofLexeme? m.lexeme = some marker →
      t.lexeme = .identifier name → u.lexeme = .symbol .colon → v.lexeme = .identifier type →
      Takes byRef [m, t, u, v]
        ⟨⟨name, t.span⟩, .name ⟨type, v.span⟩, marker, spanOf [m, t, u, v]⟩
  | unmarked {t u v : Token} {name type} : t.lexeme = .identifier name →
      u.lexeme = .symbol .colon → v.lexeme = .identifier type →
      Takes byRef [t, u, v] ⟨⟨name, t.span⟩, .name ⟨type, v.span⟩, byRef, spanOf [t, u, v]⟩

def TakesAll : Bool → List (List Token × Param) → Prop
  | _, [] => True
  | byRef, part :: parts => Takes byRef part.1 part.2 ∧ TakesAll part.2.byRef parts

/-- The tokens are the parameters of a routine. -/
inductive TakesList : List Token → List Param → Prop where
  | none : TakesList [] []
  | listed {t u : Token} {ts} {parts : List (List Token × Param)} :
      t.lexeme = .symbol .leftParen → Separated (parts.map Prod.fst) ts → TakesAll false parts →
      u.lexeme = .symbol .rightParen → TakesList ([t] ++ ts ++ [u]) (parts.map Prod.snd)

inductive StepsBy : List Token → Option Expr → Prop where
  | none : StepsBy [] none
  | some {t : Token} {ts e} : t.lexeme = .keyword .step → Derives (.level .or) ts e →
      StepsBy ([t] ++ ts) (some e)

inductive ClosesFor (counter : String) : List Token → Prop where
  | endFor {t : Token} : t.lexeme = .keyword .endFor → ClosesFor counter [t]
  | next {t : Token} : t.lexeme = .keyword .next → ClosesFor counter [t]
  | named {t u : Token} : t.lexeme = .keyword .next → u.lexeme = .identifier counter →
      ClosesFor counter [t, u]

/-- The tokens `ts` stand between the condition of a loop and what follows, `DO` or nothing. -/
inductive OpensWhile (following : List Token) : List Token → Prop where
  | marked {t : Token} : t.lexeme = .keyword .do_ → OpensWhile following [t]
  | unmarked : (∀ t ∈ following.head?, t.lexeme ≠ .keyword .do_) → OpensWhile following []

/-- The tokens are a statement, which is this tree. -/
inductive Forms : List Token → Stmt → Prop where
  | declare {t u v w : Token} {name type} : t.lexeme = .keyword .declare →
      u.lexeme = .identifier name → v.lexeme = .symbol .colon → w.lexeme = .identifier type →
      Forms ([t] ++ [u] ++ [v] ++ [w])
        (.declare ⟨name, u.span⟩ (.name ⟨type, w.span⟩) (spanOf ([t] ++ [u] ++ [v] ++ [w])))
  | constant {t u v w x : Token} {name type ts value} : t.lexeme = .keyword .constant →
      u.lexeme = .identifier name → v.lexeme = .symbol .colon → w.lexeme = .identifier type →
      x.lexeme = .symbol .equal ∨ x.lexeme = .symbol .assign → Derives (.level .or) ts value →
      Forms ([t] ++ [u] ++ [v, w] ++ [x] ++ ts) (.constant ⟨name, u.span⟩ (.name ⟨type, w.span⟩)
        value (spanOf ([t] ++ [u] ++ [v, w] ++ [x] ++ ts)))
  | implied {t u x : Token} {name type ts value} : t.lexeme = .keyword .constant →
      u.lexeme = .identifier name → x.lexeme = .symbol .equal ∨ x.lexeme = .symbol .assign →
      Derives (.level .or) ts value → value.literalType? = some type →
      Forms ([t] ++ [u] ++ [x] ++ ts) (.constant ⟨name, u.span⟩ (.name ⟨type, value.span⟩)
        value (spanOf ([t] ++ [u] ++ [x] ++ ts)))
  | assign {t u : Token} {name ts value} : t.lexeme = .identifier name →
      u.lexeme = .symbol .assign → Derives (.level .or) ts value →
      Forms ([t] ++ [u] ++ ts) (.assign ⟨name, t.span⟩ value (spanOf ([t] ++ [u] ++ ts)))
  | output {t : Token} {ts value} : t.lexeme = .keyword .output → Derives (.level .or) ts value →
      Forms ([t] ++ ts) (.output value (spanOf ([t] ++ ts)))
  | call {t u : Token} {name} : t.lexeme = .keyword .call → u.lexeme = .identifier name →
      Forms ([t] ++ [u]) (.call ⟨name, u.span⟩ none (spanOf ([t] ++ [u])))
  | callWith {t u v w : Token} {name ts} {parts : List (List Token × Expr)} :
      t.lexeme = .keyword .call → u.lexeme = .identifier name → v.lexeme = .symbol .leftParen →
      Separated (parts.map Prod.fst) ts → (∀ part ∈ parts, Derives (.level .or) part.1 part.2) →
      w.lexeme = .symbol .rightParen →
      Forms ([t] ++ [u] ++ (v :: (ts ++ [w]))) (.call ⟨name, u.span⟩ (some (parts.map Prod.snd))
        (spanOf ([t] ++ [u] ++ (v :: (ts ++ [w])))))
  | returnNone {t : Token} : t.lexeme = .keyword .return_ →
      Forms [t] (.returning none (spanOf [t]))
  | returning {t : Token} {ts value} : t.lexeme = .keyword .return_ →
      Derives (.level .or) ts value →
      Forms ([t] ++ ts) (.returning (some value) (spanOf ([t] ++ ts)))
  | ifThen {t u v : Token} {ts gap us condition} {parts : List (List Token × Stmt)} :
      t.lexeme = .keyword .if_ → Derives (.level .or) ts condition → LineEnds gap →
      u.lexeme = .keyword .then_ → Lines (.words [.else_, .endIf]) (parts.map Prod.fst) us →
      (∀ part ∈ parts, Forms part.1 part.2) → v.lexeme = .keyword .endIf →
      Forms ([t] ++ ts ++ gap ++ [u] ++ us ++ [v]) (.ifThen condition (parts.map Prod.snd)
        (spanOf ([t] ++ ts ++ gap ++ [u] ++ us ++ [v])))
  | ifElse {t u v w : Token} {ts gap us vs condition} {parts more : List (List Token × Stmt)} :
      t.lexeme = .keyword .if_ → Derives (.level .or) ts condition → LineEnds gap →
      u.lexeme = .keyword .then_ → Lines (.words [.else_, .endIf]) (parts.map Prod.fst) us →
      (∀ part ∈ parts, Forms part.1 part.2) → v.lexeme = .keyword .else_ →
      Lines (.words [.endIf]) (more.map Prod.fst) vs → (∀ part ∈ more, Forms part.1 part.2) →
      w.lexeme = .keyword .endIf →
      Forms ([t] ++ ts ++ gap ++ [u] ++ us ++ [v] ++ vs ++ [w])
        (.ifElse condition (parts.map Prod.snd) (more.map Prod.snd)
          (spanOf ([t] ++ ts ++ gap ++ [u] ++ us ++ [v] ++ vs ++ [w])))
  | forLoop {t u v w : Token} {name ts us vs ws closing first last step}
      {parts : List (List Token × Stmt)} : t.lexeme = .keyword .for_ →
      u.lexeme = .identifier name → v.lexeme = .symbol .assign → Derives (.level .or) ts first →
      w.lexeme = .keyword .to_ → Derives (.level .or) us last → StepsBy vs step →
      Lines (.words [.endFor, .next]) (parts.map Prod.fst) ws →
      (∀ part ∈ parts, Forms part.1 part.2) → ClosesFor name closing →
      Forms ([t] ++ [u] ++ [v] ++ ts ++ [w] ++ us ++ vs ++ ws ++ closing)
        (.forLoop ⟨name, u.span⟩ first last step (parts.map Prod.snd)
          (spanOf ([t] ++ [u] ++ [v] ++ ts ++ [w] ++ us ++ vs ++ ws ++ closing)))
  | whileLoop {t v : Token} {ts opening us condition} {parts : List (List Token × Stmt)} :
      t.lexeme = .keyword .while_ → Derives (.level .or) ts condition →
      OpensWhile (us ++ [v]) opening → Lines (.words [.endWhile]) (parts.map Prod.fst) us →
      (∀ part ∈ parts, Forms part.1 part.2) → v.lexeme = .keyword .endWhile →
      Forms ([t] ++ ts ++ opening ++ us ++ [v]) (.whileLoop condition (parts.map Prod.snd)
        (spanOf ([t] ++ ts ++ opening ++ us ++ [v])))
  | doWhile {t u : Token} {us ts condition} {parts : List (List Token × Stmt)} :
      t.lexeme = .keyword .do_ → Lines .condition (parts.map Prod.fst) us →
      (∀ part ∈ parts, Forms part.1 part.2) → u.lexeme = .keyword .while_ →
      Derives (.level .or) ts condition →
      Forms ([t] ++ us ++ [u] ++ ts) (.doWhile (parts.map Prod.snd) condition
        (spanOf ([t] ++ us ++ [u] ++ ts)))
  | procedure {t u v : Token} {name ts params us} {parts : List (List Token × Stmt)} :
      t.lexeme = .keyword .procedure → u.lexeme = .identifier name → TakesList ts params →
      Lines (.words [.endProcedure]) (parts.map Prod.fst) us →
      (∀ part ∈ parts, Forms part.1 part.2) → v.lexeme = .keyword .endProcedure →
      Forms ([t] ++ [u] ++ ts ++ us ++ [v]) (.procedure ⟨name, u.span⟩ params (parts.map Prod.snd)
        (spanOf ([t] ++ [u] ++ ts ++ us ++ [v])))
  | function {t u v w x : Token} {name type ts params us} {parts : List (List Token × Stmt)} :
      t.lexeme = .keyword .function → u.lexeme = .identifier name → TakesList ts params →
      v.lexeme = .keyword .returns → w.lexeme = .identifier type →
      Lines (.words [.endFunction]) (parts.map Prod.fst) us →
      (∀ part ∈ parts, Forms part.1 part.2) → x.lexeme = .keyword .endFunction →
      Forms ([t] ++ [u] ++ ts ++ [v] ++ [w] ++ us ++ [x]) (.function ⟨name, u.span⟩ params
        (.name ⟨type, w.span⟩) (parts.map Prod.snd)
        (spanOf ([t] ++ [u] ++ ts ++ [v] ++ [w] ++ us ++ [x])))

theorem LineEnds.nil : LineEnds [] := by
  simp [LineEnds]

variable {ts : List Token} {ending : Ending} {c : Cursor}

theorem Forms.ne_nil {s : Stmt} (forms : Forms ts s) : ts ≠ [] := by
  cases forms <;> simp

/-! ## Lines -/

/-- The end of the line is the last thing that matters to what its last token is. -/
theorem Cursor.lastOfLine_append {u : Token} (endsLine : u.lexeme.endsLine = true) (last : Token)
    (ts rest : List Token) : lastOfLine last (ts ++ u :: rest) = lastOfLine last ts := by
  induction ts generalizing last with
  | nil =>
    have ends : u.lexeme = .endOfLine ∨ u.isEnd = true := by
      simpa [Token.isEnd] using Lexeme.endsLine_iff.mp endsLine
    simp [lastOfLine, ends]
  | cons t ts ih => simp only [List.cons_append, lastOfLine, ih]

theorem Cursor.lastOfLine_inner {last : Token} (inner : ∀ t ∈ ts, t.lexeme.endsLine = false) :
    lastOfLine last ts = ts.getLastD last := by
  induction ts generalizing last with
  | nil => rfl
  | cons t ts ih =>
    obtain ⟨first, rest⟩ := List.forall_mem_cons.mp inner
    have notLine : t.lexeme ≠ .endOfLine := Lexeme.ne_endOfLine first
    rw [lastOfLine, List.getLastD_cons, ← ih rest]
    simp [notLine, Token.isEnd_of_not_endsLine first]

/-- Whether a block ends at a statement is told by the statement's own tokens. -/
theorem Ending.spares_iff {d : Cursor} (walks : c.Walks ts d) (some : ts ≠ [])
    (endsLine : d.here.lexeme.endsLine = true) : ending.Spares ts ↔ ending.reached c = false := by
  obtain ⟨t, ts, rfl⟩ := List.exists_cons_of_ne_nil some
  obtain ⟨rfl, rest⟩ := List.cons.inj walks.tokens
  have last : Cursor.lastOfLine c.here c.rest = Cursor.lastOfLine c.here ts := by
    rw [rest]
    exact Cursor.lastOfLine_append endsLine c.here ts d.rest
  simp only [Spares, Cursor.ofTokens?, Option.mem_some_iff, forall_eq']
  cases ending with
  | input | words => rfl
  | condition => simp only [reached, last]

theorem Lines.ne_nil {part : List Token} {parts : List (List Token)}
    (lines : Lines ending (part :: parts) ts) (some : part ≠ []) : ts ≠ [] := by
  cases lines <;> simp_all

theorem Lines.eq_nil_of_tokens {parts : List (List Token × Stmt)}
    (lines : Lines ending (parts.map Prod.fst) []) (each : ∀ part ∈ parts, Forms part.1 part.2) :
    parts = [] := by
  cases parts with
  | nil => rfl
  | cons part parts => exact absurd rfl (lines.ne_nil (each part List.mem_cons_self).ne_nil)

theorem Cursor.Closed.walks_of_isEnd {d : Cursor} (closed : c.Closed) (isEnd : c.here.isEnd = true)
    (walks : c.Walks ts d) : ts = [] ∧ d = c := by
  cases ts with
  | nil => exact ⟨rfl, walks.symm⟩
  | cons t ts =>
    obtain ⟨body, stop, all, -, notEnd⟩ := closed
    cases body with
    | nil =>
      obtain ⟨-, none⟩ := List.cons.inj all
      exact absurd none walks.2.1
    | cons u body =>
      obtain ⟨rfl, -⟩ := List.cons.inj all
      simp [notEnd c.here List.mem_cons_self] at isEnd

theorem Cursor.Closed.tokens_of_isEnd (closed : c.Closed) (isEnd : c.here.isEnd = true) :
    c.tokens = [c.here] := by
  cases isRest : c.rest with
  | nil => rw [Cursor.tokens, isRest]
  | cons t rest =>
    have walks : c.Walks [c.here] c.next := ⟨rfl, by simp [isRest], rfl⟩
    cases (closed.walks_of_isEnd isEnd walks).1

theorem Cursor.Walks.head {d : Cursor} (walks : c.Walks ts d) :
    (ts ++ [d.here]).head? = some c.here := by
  cases ts with
  | nil => rw [Cursor.walks_nil.mp walks]; rfl
  | cons t ts => rw [walks.here]; rfl

namespace Ending.Over

variable {d : Cursor} {word other : Keyword}

theorem ne_endOfLine {ending : Ending} (isOver : ending.Over d) : d.here.lexeme ≠ .endOfLine := by
  intro isLine
  rcases isOver with ⟨isEnd, -⟩ | ⟨-, reached⟩
  · simp [Token.isEnd, isLine] at isEnd
  · cases ending <;> simp [Ending.reached, isLine] at reached

theorem isEnd_of_closers {ending : Ending} (isOver : ending.Over d) (none : ending.closers = []) :
    d.here.isEnd = true := by
  rcases isOver with ⟨isEnd, -⟩ | ⟨-, reached⟩
  · exact isEnd
  · cases ending <;> simp_all [Ending.reached, Ending.closers]

theorem closer (isOver : (words [word]).Over d) : d.here.lexeme = .keyword word := by
  rcases isOver with ⟨-, none⟩ | ⟨-, reached⟩
  · cases none
  · simpa [Ending.reached] using reached

theorem closer_of_pair (isOver : (words [word, other]).Over d) :
    d.here.lexeme = .keyword word ∨ d.here.lexeme = .keyword other := by
  rcases isOver with ⟨-, none⟩ | ⟨-, reached⟩
  · cases none
  · simpa [Ending.reached] using reached

theorem while_of_condition (isOver : condition.Over d) : d.here.lexeme = .keyword .while_ := by
  rcases isOver with ⟨-, none⟩ | ⟨-, reached⟩
  · cases none
  · simp only [Ending.reached, Bool.and_eq_true, decide_eq_true_eq] at reached
    exact reached.1

end Ending.Over

/-! ## What is read is formed -/

namespace Parser

variable {α β : Type} {c d : Cursor} {p : Parser α} {k : α → Parser β} {done : List Token}
  {told : List Token → β → Cursor → Prop}

theorem Delivers.after {mid : List Token → α → Cursor → Prop} (closed : c.Closed)
    (walk : c.Walks done d) (first : Delivers p d mid)
    (second : ∀ ts a e, c.Walks (done ++ ts) e → e.Closed → mid ts a e →
      Delivers (k a) e fun us b e' => told (done ++ ts ++ us) b e') :
    Delivers (p >>= k) d fun us b e => told (done ++ us) b e := by
  apply first.bind
  intro ts a e walks holds
  have walk := walk.trans walks
  apply (second ts a e walk (closed.walks walk) holds).mono
  intro us b e' told
  rwa [List.append_assoc] at told

theorem Delivers.starting {k : Token → Parser β} {word : Keyword} (closed : c.Closed)
    (isWord : c.here.lexeme = .keyword word)
    (second : c.Walks [c.here] c.next → c.next.Closed →
      Delivers (k c.here) c.next fun us b e => told ([c.here] ++ us) b e) :
    Delivers (advance >>= k) c told :=
  have inner : c.here.isEnd = false := by simp [Token.isEnd, isWord]
  .advancing closed inner fun closed' => second (closed.walks_next inner) closed'

theorem Delivers.over {k : Token → Parser β} {word : Keyword} (closed : c.Closed)
    (walk : c.Walks done d) (isWord : d.here.lexeme = .keyword word)
    (second : c.Walks (done ++ [d.here]) d.next → d.next.Closed →
      Delivers (k d.here) d.next fun us b e => told (done ++ [d.here] ++ us) b e) :
    Delivers (advance >>= k) d fun us b e => told (done ++ us) b e := by
  have inner : d.here.isEnd = false := by simp [Token.isEnd, isWord]
  apply Delivers.after closed walk (advance_delivers (closed.walks walk) inner)
  rintro _ _ _ walk closed' ⟨rfl, rfl, rfl⟩
  exact second walk closed'

theorem Delivers.naming {k : Token → Ident → Parser β} {word : Keyword} (closed : c.Closed)
    (isWord : c.here.lexeme = .keyword word)
    (second : ∀ u name d, c.Walks ([c.here] ++ [u]) d → d.Closed → u.lexeme = .identifier name →
      Delivers (k c.here ⟨name, u.span⟩) d fun us b e => told ([c.here] ++ [u] ++ us) b e) :
    Delivers (advance >>= fun t => identifier >>= k t) c told := by
  apply Delivers.starting closed isWord
  intro walk closed'
  apply Delivers.after closed walk (identifier_delivers closed')
  rintro _ ⟨name, _⟩ d walk closed' ⟨u, rfl, isName, rfl⟩
  exact second u name d walk closed' isName

theorem typeName_delivers (closed : c.Closed) :
    Delivers typeName c fun ts e _ =>
      ∃ t name, ts = [t] ∧ t.lexeme = .identifier name ∧ e = .name ⟨name, t.span⟩ := by
  unfold typeName
  rw [map_eq_pure_bind]
  apply (identifier_delivers closed).bind
  rintro _ ⟨name, span⟩ d - ⟨t, rfl, isName, rfl⟩
  exact .pure ⟨t, name, rfl, isName, rfl⟩

/-- What tells a statement: its tokens, and the end of its line. -/
def TellsStmt (us : List Token) (s : Stmt) (d : Cursor) : Prop :=
  ∃ ts, Forms ts s ∧ ((∃ t : Token, t.lexeme = .endOfLine ∧ us = ts ++ [t]) ∨
    (d.here.isEnd = true ∧ us = ts))

theorem finish_delivers {statement : Span → Stmt} (closed : c.Closed) (walk : c.Walks done d)
    (forms : Forms done (statement (spanOf done))) :
    Delivers (finish c.here statement) d fun us s e => TellsStmt (done ++ us) s e := by
  apply Delivers.looking (spanFrom_run _)
  rw [← walk.spanOf forms.ne_nil, endOfStatement, bind_assoc]
  apply Delivers.looking peekLexeme_run
  split
  case h_1 isLine =>
    rw [bind_assoc]
    apply Delivers.advancing (closed.walks walk) (by simp [Token.isEnd, isLine])
    intro _
    exact .pure ⟨done, forms, .inl ⟨d.here, isLine, rfl⟩⟩
  case h_2 isEnd => exact .pure ⟨done, forms, .inr ⟨by simp [Token.isEnd, isEnd], by simp⟩⟩
  case h_3 => exact failWanting_delivers _

section Statements

variable (closed : c.Closed)

include closed

theorem declaration_delivers (isHere : c.here.lexeme = .keyword .declare) :
    Delivers declaration c TellsStmt := by
  apply Delivers.naming closed isHere
  intro u name d walk closed' isName
  apply Delivers.after closed walk (symbol_delivers closed' .colon)
  rintro _ v d walk closed' ⟨rfl, isColon⟩
  apply Delivers.after closed walk (typeName_delivers closed')
  rintro _ _ d walk - ⟨w, type, rfl, isType, rfl⟩
  exact finish_delivers closed walk (.declare isHere isName isColon isType)

theorem constantType_delivers :
    Delivers constantType c fun ts written _ => (ts = [] ∧ written = none) ∨
      ∃ v w : Token, ∃ type, ts = [v, w] ∧ v.lexeme = .symbol .colon ∧
        w.lexeme = .identifier type ∧ written = some (.name ⟨type, w.span⟩) := by
  apply (optionalSymbol_delivers closed .colon).bind
  intro _ _ d walk told
  cases told with
  | @given v _ isColon =>
    rw [if_pos rfl, map_eq_pure_bind]
    apply (typeName_delivers (closed.walks walk)).bind
    rintro _ _ d' - ⟨w, type, rfl, isType, rfl⟩
    exact .pure (.inr ⟨v, w, type, rfl, isColon, isType, rfl⟩)
  | missing => exact .pure (.inl ⟨rfl, rfl⟩)

theorem constantDeclaration_delivers (isHere : c.here.lexeme = .keyword .constant) :
    Delivers constantDeclaration c TellsStmt := by
  apply Delivers.naming closed isHere
  intro u name d walk closed' isName
  apply Delivers.after closed walk (constantType_delivers closed')
  intro ts written d walk closed' told
  apply Delivers.looking (atSymbol_run .equal)
  apply Delivers.looking (atSymbol_run .assign)
  split
  case isTrue => exact failWanting_delivers _
  case isFalse there =>
    have isSign : d.here.lexeme = .symbol .equal ∨ d.here.lexeme = .symbol .assign := by
      by_contra other
      simp_all
    have inner : d.here.isEnd = false := by
      rcases isSign with isSign | isSign <;> simp [Token.isEnd, isSign]
    apply Delivers.after closed walk (advance_delivers closed' inner)
    rintro _ _ _ walk closed' ⟨rfl, rfl, rfl⟩
    apply Delivers.looking peek_run
    apply Delivers.after closed walk (expression_delivers closed')
    rintro us value d' walk - ⟨derives, -⟩
    rcases told with ⟨rfl, rfl⟩ | ⟨v, w, type, rfl, isColon, isType, rfl⟩
    · dsimp only
      split
      case h_1 type isLiteral =>
        exact finish_delivers closed walk (.implied isHere isName isSign derives isLiteral)
      case h_2 => exact fail_delivers ..
    · exact finish_delivers closed walk (.constant isHere isName isColon isType isSign derives)

theorem assignment_delivers : Delivers assignment c TellsStmt := by
  apply Delivers.looking peek_run
  apply (identifier_delivers closed).bind
  rintro _ ⟨name, _⟩ d walk ⟨t, rfl, isName, rfl⟩
  have closed' := closed.walks walk
  apply Delivers.looking (atSymbol_run .assign)
  split
  case isTrue there =>
    have isAssign : d.here.lexeme = .symbol .assign := of_decide_eq_true there
    apply Delivers.after closed walk (advance_delivers closed' (by simp [Token.isEnd, isAssign]))
    rintro _ _ _ walk closed' ⟨rfl, rfl, rfl⟩
    apply Delivers.after closed walk (expression_delivers closed')
    rintro us value d' walk - ⟨derives, -⟩
    exact finish_delivers closed walk (.assign isName isAssign derives)
  case isFalse => exact failWanting_delivers _

theorem outputStatement_delivers (isHere : c.here.lexeme = .keyword .output) :
    Delivers outputStatement c TellsStmt := by
  apply Delivers.starting closed isHere
  intro walk closed'
  apply Delivers.after closed walk (expression_delivers closed')
  rintro us value d walk - ⟨derives, -⟩
  exact finish_delivers closed walk (.output isHere derives)

theorem arguments_delivers :
    Delivers arguments c fun us es _ => ∃ (parts : List (List Token × Expr)) (t : Token)
      (ts : List Token) (u : Token), us = t :: (ts ++ [u]) ∧ t.lexeme = .symbol .leftParen ∧
        Separated (parts.map Prod.fst) ts ∧ (∀ part ∈ parts, Derives (.level .or) part.1 part.2) ∧
        u.lexeme = .symbol .rightParen ∧ es = parts.map Prod.snd :=
  Delivers.looking get_run (argumentExprs_delivers closed)

theorem callStatement_delivers (isHere : c.here.lexeme = .keyword .call) :
    Delivers callStatement c TellsStmt := by
  apply Delivers.naming closed isHere
  intro u name d walk closed' isName
  apply Delivers.looking (atSymbol_run .leftParen)
  split
  · apply Delivers.after closed walk (arguments_delivers closed')
    rintro _ _ d walk - ⟨parts, v, ts, w, rfl, isLeft, separated, each, isRight, rfl⟩
    exact finish_delivers closed walk (.callWith isHere isName isLeft separated each isRight)
  · exact finish_delivers closed walk (.call isHere isName)

theorem returnStatement_delivers (isHere : c.here.lexeme = .keyword .return_) :
    Delivers returnStatement c TellsStmt := by
  apply Delivers.starting closed isHere
  intro walk closed'
  apply Delivers.looking peekLexeme_run
  split
  · exact finish_delivers closed walk (.returnNone isHere)
  · exact finish_delivers closed walk (.returnNone isHere)
  · apply Delivers.after closed walk (expression_delivers closed')
    rintro us value d walk - ⟨derives, -⟩
    exact finish_delivers closed walk (.returning isHere derives)

theorem parameter_delivers (byRef : Bool) :
    Delivers (parameter byRef) c fun ts param _ => Takes byRef ts param := by
  have written {d : Cursor} {done : List Token} (walk : c.Walks done d) (marker : Option Bool) :
      Delivers (do
        let name ← identifier
        let _ ← symbol .colon
        let declared ← typeName
        return (⟨name, declared, marker.getD byRef, ← spanFrom c.here⟩ : Param)) d
      fun us param _ => ∃ t u v : Token, ∃ name type, us = [t, u, v] ∧
        t.lexeme = .identifier name ∧ u.lexeme = .symbol .colon ∧ v.lexeme = .identifier type ∧
        param = ⟨⟨name, t.span⟩, .name ⟨type, v.span⟩, marker.getD byRef, spanOf (done ++ us)⟩ := by
    apply (identifier_delivers (closed.walks walk)).bind
    rintro _ ⟨name, _⟩ d walk' ⟨t, rfl, isName, rfl⟩
    have walk := walk.trans walk'
    apply (symbol_delivers (closed.walks walk) .colon).bind
    rintro _ u d walk' ⟨rfl, isColon⟩
    have walk := walk.trans walk'
    apply (typeName_delivers (closed.walks walk)).bind
    rintro _ _ d walk' ⟨v, type, rfl, isType, rfl⟩
    have walk := walk.trans walk'
    apply Delivers.looking (spanFrom_run _)
    rw [← walk.spanOf (by simp)]
    exact .pure ⟨t, u, v, name, type, rfl, isName, isColon, isType, by simp⟩
  apply Delivers.looking peek_run
  dsimp only
  split
  case isTrue marks =>
    obtain ⟨marker, isMarker⟩ := Option.isSome_iff_exists.mp marks
    have inner := Token.isEnd_of_not_endsLine (Marker.endsLine marks)
    apply Delivers.advancing closed inner
    intro _
    apply (written (closed.walks_next inner) _).mono
    rintro _ _ d ⟨t, u, v, name, type, rfl, isName, isColon, isType, rfl⟩
    rw [isMarker]
    exact .marked isMarker isName isColon isType
  case isFalse other =>
    apply (written (Cursor.walks_nil.mpr rfl) _).mono
    rintro _ _ d ⟨t, u, v, name, type, rfl, isName, isColon, isType, rfl⟩
    rw [Option.not_isSome_iff_eq_none.mp other]
    exact .unmarked isName isColon isType

theorem moreParameters_delivers (n : Nat) (byRef : Bool) :
    Delivers (moreParameters n byRef) c fun us params _ =>
      ∃ (parts : List (List Token × Param)) (ts : List Token) (u : Token), us = ts ++ [u] ∧
        parts ≠ [] ∧ Separated (parts.map Prod.fst) ts ∧ TakesAll byRef parts ∧
        u.lexeme = .symbol .rightParen ∧ params = parts.map Prod.snd := by
  induction n generalizing c byRef with
  | zero => exact tooDeep_delivers
  | succ n ih =>
    rw [moreParameters]
    apply (parameter_delivers closed byRef).bind
    intro ts param d walk takes
    have closed' := closed.walks walk
    apply (optionalSymbol_delivers closed' .comma).bind
    intro _ _ d' walk' told
    cases told with
    | @given t _ isComma =>
      apply (ih (closed'.walks walk') param.byRef).bind
      rintro _ _ d'' - ⟨parts, us, u, rfl, some, separated, takesAll, isRight, rfl⟩
      refine .pure ⟨(ts, param) :: parts, ts ++ t :: us, u, by simp, by simp, ?_,
        ⟨takes, takesAll⟩, isRight, rfl⟩
      cases parts with
      | nil => exact absurd rfl some
      | cons part parts => exact .cons isComma separated
    | missing =>
      apply (symbol_delivers (closed'.walks walk') .rightParen).bind
      rintro _ u d'' - ⟨rfl, isRight⟩
      exact .pure ⟨[(ts, param)], ts, u, by simp, by simp, .one, ⟨takes, trivial⟩, isRight, rfl⟩

theorem parameters_delivers : Delivers parameters c fun ts params d =>
    TakesList ts params ∧ (ts = [] → d.here.lexeme ≠ .symbol .leftParen) := by
  apply (optionalSymbol_delivers closed .leftParen).bind
  intro _ _ d walk told
  cases told with
  | missing other => exact .pure ⟨.none, fun _ => other⟩
  | @given t _ isLeft =>
    have closed' := closed.walks walk
    apply (optionalSymbol_delivers closed' .rightParen).bind
    intro _ _ d' walk' told
    cases told with
    | given isRight =>
      have empty : TakesList _ (List.map Prod.snd []) :=
        .listed isLeft .nil trivial isRight
      exact .pure ⟨empty, nofun⟩
    | missing =>
      apply Delivers.looking get_run
      apply (moreParameters_delivers (closed'.walks walk') _ false).mono
      rintro _ _ _ ⟨parts, ts, u, rfl, -, separated, takesAll, isRight, rfl⟩
      have listed := TakesList.listed isLeft separated takesAll isRight
      exact ⟨by simpa using listed, nofun⟩

theorem loopStep_delivers : Delivers loopStep c fun ts step _ => StepsBy ts step := by
  apply Delivers.looking (atKeyword_run .step)
  split
  case isTrue there =>
    have isStep : c.here.lexeme = .keyword .step := of_decide_eq_true there
    apply Delivers.starting closed isStep
    intro _ closed'
    rw [map_eq_pure_bind]
    apply (expression_delivers closed').bind
    rintro ts e d - ⟨derives, -⟩
    have steps := StepsBy.some isStep derives
    exact .pure (by simpa using steps)
  case isFalse => exact .pure .none

theorem closeFor_delivers {counter : Ident}
    (isHere : c.here.lexeme = .keyword .endFor ∨ c.here.lexeme = .keyword .next) :
    Delivers (closeFor counter) c fun ts _ _ => ClosesFor counter.name ts := by
  have inner : c.here.isEnd = false := by
    rcases isHere with isHere | isHere <;> simp [Token.isEnd, isHere]
  apply Delivers.looking (atKeyword_run .next)
  split
  case isTrue there =>
    have isNext : c.here.lexeme = .keyword .next := of_decide_eq_true there
    apply Delivers.advancing closed inner
    intro closed'
    apply Delivers.looking peek_run
    split
    case h_1 name isName =>
      split
      case isTrue same =>
        apply Delivers.advancing closed' (by simp [Token.isEnd, isName])
        intro _
        exact .pure (.named isNext (same ▸ isName))
      case isFalse => exact fail_delivers ..
    case h_2 => exact .pure (.next isNext)
  case isFalse other =>
    apply Delivers.advancing closed inner
    intro _
    exact .pure (.endFor (isHere.resolve_right (by simpa using other)))

end Statements

/-! ### Statements that hold blocks -/

/-- What tells the statements of a block, and that the block is over. -/
def TellsBlock (ending : Ending) (us : List Token) (body : List Stmt) (d : Cursor) : Prop :=
  ∃ parts : List (List Token × Stmt), Lines ending (parts.map Prod.fst) us ∧
    (∀ part ∈ parts, Forms part.1 part.2) ∧ body = parts.map Prod.snd ∧ ending.Over d

section Blocks

variable {block : Ending → Parser (List Stmt)} (closed : c.Closed)
  (blocks : ∀ ending d, d.Closed → Delivers (block ending) d (TellsBlock ending))

include closed

theorem skipLineEnds_delivers :
    Delivers skipLineEnds c fun gap _ d => LineEnds gap ∧ d.here.lexeme ≠ .endOfLine := by
  have skipped (rest : List Token) : ∀ c : Cursor, c.rest = rest → c.Closed →
      ∃ gap, c.Walks gap c.skipped ∧ LineEnds gap ∧ c.skipped.here.lexeme ≠ .endOfLine := by
    induction rest with
    | nil =>
      rintro ⟨last, here, _⟩ rfl ⟨body, stop, all, isEnd, -⟩
      refine ⟨[], rfl, .nil, ?_⟩
      have isStop : here = stop := by
        have last := congrArg List.getLast? all
        simpa [Cursor.tokens] using last
      subst isStop
      intro isLine
      simp only [Cursor.skipped, Cursor.skipLineEnds] at isLine
      simp [Token.isEnd, isLine] at isEnd
    | cons t rest ih =>
      intro c isRest closed
      by_cases isLine : c.here.lexeme = .endOfLine
      · have inner : c.here.isEnd = false := by simp [Token.isEnd, isLine]
        have next : c.next.rest = rest := by simp [Cursor.next, isRest]
        obtain ⟨gap, walks, lineEnds, other⟩ := ih c.next next (closed.next inner)
        rw [Cursor.skipped_next c isLine] at walks other
        refine ⟨c.here :: gap, ⟨rfl, by simp [isRest], walks⟩, ?_, other⟩
        exact List.forall_mem_cons.mpr ⟨isLine, lineEnds⟩
      · rw [Cursor.skipped_self isLine]
        exact ⟨[], rfl, .nil, isLine⟩
  exact skipped c.rest c rfl closed

include blocks

theorem ifStatement_delivers (isHere : c.here.lexeme = .keyword .if_) :
    Delivers (ifStatement block) c TellsStmt := by
  apply Delivers.starting closed isHere
  intro walk closed'
  apply Delivers.after closed walk (expression_delivers closed')
  rintro ts condition d walk closed' ⟨derives, -⟩
  apply Delivers.after closed walk (skipLineEnds_delivers closed')
  rintro gap _ d walk closed' ⟨lineEnds, -⟩
  apply Delivers.after closed walk (keyword_delivers closed' .then_)
  rintro _ u d walk closed' ⟨rfl, isThen⟩
  apply Delivers.after closed walk (blocks _ d closed')
  rintro us _ d walk closed' ⟨parts, lines, each, rfl, -⟩
  apply Delivers.looking (atKeyword_run .else_)
  split
  case isTrue there =>
    have isElse : d.here.lexeme = .keyword .else_ := of_decide_eq_true there
    apply Delivers.over closed walk isElse
    intro walk closed'
    apply Delivers.after closed walk (blocks _ _ closed')
    rintro vs _ d' walk closed' ⟨more, lines', each', rfl, -⟩
    apply Delivers.after closed walk (keyword_delivers closed' .endIf)
    rintro _ w d' walk - ⟨rfl, isEndIf⟩
    exact finish_delivers closed walk
      (.ifElse isHere derives lineEnds isThen lines each isElse lines' each' isEndIf)
  case isFalse =>
    apply Delivers.after closed walk (keyword_delivers closed' .endIf)
    rintro _ v d' walk - ⟨rfl, isEndIf⟩
    exact finish_delivers closed walk (.ifThen isHere derives lineEnds isThen lines each isEndIf)

theorem forStatement_delivers (isHere : c.here.lexeme = .keyword .for_) :
    Delivers (forStatement block) c TellsStmt := by
  apply Delivers.naming closed isHere
  intro u name d walk closed' isName
  apply Delivers.after closed walk (symbol_delivers closed' .assign)
  rintro _ v d walk closed' ⟨rfl, isAssign⟩
  apply Delivers.after closed walk (expression_delivers closed')
  rintro ts first d walk closed' ⟨derives, -⟩
  apply Delivers.after closed walk (keyword_delivers closed' .to_)
  rintro _ w d walk closed' ⟨rfl, isTo⟩
  apply Delivers.after closed walk (expression_delivers closed')
  rintro us last d walk closed' ⟨derives', -⟩
  apply Delivers.after closed walk (loopStep_delivers closed')
  intro vs step d walk closed' steps
  apply Delivers.after closed walk (blocks _ d closed')
  rintro ws _ d walk closed' ⟨parts, lines, each, rfl, isOver⟩
  apply Delivers.after closed walk (closeFor_delivers closed' isOver.closer_of_pair)
  intro closing _ d walk _ closes
  exact finish_delivers closed walk
    (.forLoop isHere isName isAssign derives isTo derives' steps lines each closes)

theorem whileStatement_delivers (isHere : c.here.lexeme = .keyword .while_) :
    Delivers (whileStatement block) c TellsStmt := by
  apply Delivers.starting closed isHere
  intro walk closed'
  apply Delivers.after closed walk (expression_delivers closed')
  rintro ts condition d walk closed' ⟨derives, -⟩
  have rest {d : Cursor} {opening : List Token} (walk : c.Walks ([c.here] ++ ts ++ opening) d)
      (opens : ∀ us e, d.Walks us e → OpensWhile (us ++ [e.here]) opening) :
      Delivers (do
        let body ← block (.words [.endWhile])
        let _ ← advance
        finish c.here (.whileLoop condition body)) d
      fun us s e => TellsStmt ([c.here] ++ ts ++ opening ++ us) s e := by
    apply (blocks _ d (closed.walks walk)).bind
    rintro us _ e walk' ⟨parts, lines, each, rfl, isOver⟩
    have walk := walk.trans walk'
    have isCloser : e.here.lexeme = .keyword .endWhile := isOver.closer
    have opens := opens us e walk'
    simp only [← List.append_assoc]
    apply Delivers.over closed walk isCloser
    intro walk _
    exact finish_delivers closed walk (.whileLoop isHere derives opens lines each isCloser)
  apply Delivers.looking (atKeyword_run .do_)
  split
  case isTrue there =>
    have isDo : d.here.lexeme = .keyword .do_ := of_decide_eq_true there
    apply Delivers.over closed walk isDo
    intro walk _
    exact rest walk fun _ _ _ => .marked isDo
  case isFalse other =>
    have walk : c.Walks ([c.here] ++ ts ++ []) d := by rwa [List.append_nil]
    have told := rest walk fun us e walk' => by
      apply OpensWhile.unmarked
      rw [walk'.head]
      simpa using other
    simpa using told

theorem doStatement_delivers (isHere : c.here.lexeme = .keyword .do_) :
    Delivers (doStatement block) c TellsStmt := by
  apply Delivers.starting closed isHere
  intro walk closed'
  apply Delivers.after closed walk (blocks _ _ closed')
  rintro us _ d walk closed' ⟨parts, lines, each, rfl, isOver⟩
  have isWhile : d.here.lexeme = .keyword .while_ := isOver.while_of_condition
  apply Delivers.over closed walk isWhile
  intro walk closed'
  apply Delivers.after closed walk (expression_delivers closed')
  rintro ts condition d' walk - ⟨derives, -⟩
  exact finish_delivers closed walk (.doWhile isHere lines each isWhile derives)

theorem procedureStatement_delivers (isHere : c.here.lexeme = .keyword .procedure) :
    Delivers (procedureStatement block) c TellsStmt := by
  apply Delivers.naming closed isHere
  intro u name d walk closed' isName
  apply Delivers.after closed walk (parameters_delivers closed')
  rintro ts params d walk closed' ⟨takes, -⟩
  apply Delivers.after closed walk (blocks _ d closed')
  rintro us _ d walk closed' ⟨parts, lines, each, rfl, isOver⟩
  have isCloser : d.here.lexeme = .keyword .endProcedure := isOver.closer
  apply Delivers.over closed walk isCloser
  intro walk _
  exact finish_delivers closed walk (.procedure isHere isName takes lines each isCloser)

theorem functionStatement_delivers (isHere : c.here.lexeme = .keyword .function) :
    Delivers (functionStatement block) c TellsStmt := by
  apply Delivers.naming closed isHere
  intro u name d walk closed' isName
  apply Delivers.after closed walk (parameters_delivers closed')
  rintro ts params d walk closed' ⟨takes, -⟩
  apply Delivers.after closed walk (keyword_delivers closed' .returns)
  rintro _ v d walk closed' ⟨rfl, isReturns⟩
  apply Delivers.after closed walk (typeName_delivers closed')
  rintro _ _ d walk closed' ⟨w, type, rfl, isType, rfl⟩
  apply Delivers.after closed walk (blocks _ d closed')
  rintro us _ d walk closed' ⟨parts, lines, each, rfl, isOver⟩
  have isCloser : d.here.lexeme = .keyword .endFunction := isOver.closer
  apply Delivers.over closed walk isCloser
  intro walk _
  exact finish_delivers closed walk
    (.function isHere isName takes isReturns isType lines each isCloser)

theorem statementWith_delivers : Delivers (statementWith block) c TellsStmt := by
  apply Delivers.looking peek_run
  split
  case h_1 => exact assignment_delivers closed
  case h_2 isHere => exact declaration_delivers closed isHere
  case h_3 isHere => exact constantDeclaration_delivers closed isHere
  case h_4 isHere => exact outputStatement_delivers closed isHere
  case h_5 isHere => exact callStatement_delivers closed isHere
  case h_6 isHere => exact returnStatement_delivers closed isHere
  case h_7 isHere => exact ifStatement_delivers closed blocks isHere
  case h_8 isHere => exact forStatement_delivers closed blocks isHere
  case h_9 isHere => exact whileStatement_delivers closed blocks isHere
  case h_10 isHere => exact doStatement_delivers closed blocks isHere
  case h_11 isHere => exact procedureStatement_delivers closed blocks isHere
  case h_12 isHere => exact functionStatement_delivers closed blocks isHere
  case h_13 => exact fail_delivers ..

end Blocks

theorem block_delivers (n : Nat) (ending : Ending) (closed : c.Closed) :
    Delivers (block n ending) c (TellsBlock ending) := by
  induction n generalizing c ending with
  | zero => exact tooDeep_delivers
  | succ n ih =>
    rw [block]
    apply (skipLineEnds_delivers closed).bind
    rintro gap _ d walk ⟨lineEnds, other⟩
    have closed' := closed.walks walk
    apply Delivers.looking get_run
    split
    case isTrue isEnd =>
      split
      case isTrue none =>
        refine .pure ⟨[], ?_, by simp, rfl, .inl ⟨isEnd, List.isEmpty_iff.mp none⟩⟩
        simpa using Lines.nil lineEnds
      case isFalse => exact fail_delivers ..
    case isFalse notEnd =>
      split
      case isTrue reached =>
        refine .pure ⟨[], ?_, by simp, rfl, .inr ⟨by simpa using notEnd, reached⟩⟩
        simpa using Lines.nil lineEnds
      case isFalse notReached =>
        apply (statementWith_delivers closed' fun ending d closed => ih ending closed).bind
        rintro us s d' walk' ⟨ts, forms, closes⟩
        have closed'' := closed'.walks walk'
        have notReached : ending.reached d = false := by simpa using notReached
        apply (ih ending closed'').bind
        rintro vs _ e walk'' ⟨parts, lines, each, rfl, isOver⟩
        refine .pure ⟨(ts, s) :: parts, ?_, List.forall_mem_cons.mpr ⟨forms, each⟩, rfl, isOver⟩
        rw [List.append_nil, List.map_cons]
        rcases closes with ⟨t, isLine, rfl⟩ | ⟨isEnd, rfl⟩
        · obtain ⟨m, inside, rfl, -⟩ := Cursor.walks_append.mp walk'
          have endsLine : m.here.lexeme.endsLine = true := by rw [isLine]; rfl
          have spares := (Ending.spares_iff inside forms.ne_nil endsLine).mpr notReached
          simpa using Lines.cons lineEnds spares isLine lines
        · obtain ⟨rfl, rfl⟩ := closed''.walks_of_isEnd isEnd walk''
          have spares := (Ending.spares_iff walk' forms.ne_nil (Lexeme.endsLine_iff.mpr
            (.inr (of_decide_eq_true isEnd)))).mpr notReached
          have none : ending.closers = [] := by
            rcases isOver with ⟨-, none⟩ | ⟨notEnd, -⟩
            · exact none
            · simp [isEnd] at notEnd
          rw [lines.eq_nil_of_tokens each]
          simpa using Lines.last lineEnds spares none

end Parser

end Pseudocode
