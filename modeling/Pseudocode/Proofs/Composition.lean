import Pseudocode.Proofs.Statements

/-! # What is formed is read

The parser of statements, started where the tokens of a statement stand, reads this statement and
stops at the end of its line. With what `Statements` tells of the parser, a program is read exactly
from the tokens that compose it. -/

namespace Pseudocode

open Program (spanOf)

/-! ## Where expressions and headers end -/

namespace Lexeme

def startsStmt : Lexeme → Bool
  | identifier _ => true
  | keyword .declare | keyword .constant | keyword .output | keyword .call => true
  | keyword .return_ | keyword .if_ | keyword .for_ | keyword .while_ | keyword .do_ => true
  | keyword .procedure | keyword .function => true
  | _ => false

def closesBlock : Lexeme → Bool
  | keyword .else_ | keyword .endIf | keyword .endFor | keyword .next | keyword .endWhile => true
  | keyword .endProcedure | keyword .endFunction => true
  | _ => false

/-- Whether an expression in front of the lexeme is over. -/
def Stops (l : Lexeme) : Prop :=
  l.isInfix = false ∧ l ≠ .symbol .leftParen

/-- What may stand behind the header of a block: the block itself, or what closes it. -/
def Follows (l : Lexeme) : Prop :=
  l = .endOfLine ∨ l.startsStmt = true ∨ l.closesBlock = true

variable {l : Lexeme}

theorem stops_of_endsLine (endsLine : l.endsLine = true) : l.Stops := by
  rcases endsLine_iff.mp endsLine with rfl | rfl <;> exact ⟨rfl, nofun⟩

theorem Follows.stops (follows : l.Follows) : l.Stops := by
  unfold Follows at follows
  cases l with
  | keyword word => cases word <;> simp_all [Stops, startsStmt, closesBlock, isInfix]
  | _ => simp_all [Stops, startsStmt, closesBlock, isInfix]

theorem Follows.ne_step (follows : l.Follows) : l ≠ .keyword .step := by
  rintro rfl
  simp [Follows, startsStmt, closesBlock] at follows

end Lexeme

variable {ts : List Token} {c d : Cursor}

theorem Forms.head_starts {s : Stmt} (forms : Forms ts s) :
    ∀ t ∈ ts.head?, t.lexeme.startsStmt = true := by
  cases forms <;> simp_all [Lexeme.startsStmt]

theorem Takes.head_ne {byRef : Bool} {param : Param} (takes : Takes byRef ts param) :
    ∃ t rest, ts = t :: rest ∧ t.lexeme ≠ .symbol .rightParen := by
  cases takes with
  | marked isMarker =>
    refine ⟨_, _, rfl, fun isRight => ?_⟩
    simp [isRight, Parser.Marker.ofLexeme?] at isMarker
  | unmarked isName => exact ⟨_, _, rfl, by simp [isName]⟩

/-- The first token of a block ends a line or starts a statement. -/
theorem Lines.head {ending : Ending} {parts : List (List Token)} {us : List Token}
    (lines : Lines ending parts us) (some : ∀ part ∈ parts, part ≠ []) :
    ∀ t ∈ us.head?, t.lexeme = .endOfLine ∨ ∃ part ∈ parts, t ∈ part.head? := by
  have first {gap part : List Token} (lineEnds : LineEnds gap) (some : part ≠ [])
      (rest : List Token) : ∀ t ∈ (gap ++ (part ++ rest)).head?,
      t.lexeme = .endOfLine ∨ t ∈ part.head? := by
    intro t isHead
    cases gap with
    | nil =>
      obtain ⟨u, us, rfl⟩ := List.exists_cons_of_ne_nil some
      exact .inr isHead
    | cons u gap =>
      obtain rfl : u = t := by simpa using isHead
      exact .inl (lineEnds u List.mem_cons_self)
  intro t isHead
  cases lines with
  | nil lineEnds => exact .inl (lineEnds t (List.mem_of_mem_head? isHead))
  | @last gap part lineEnds =>
    refine (first lineEnds (some part (by simp)) [] t (by simpa using isHead)).imp_right ?_
    exact fun isHead => ⟨part, by simp, isHead⟩
  | @cons gap part parts ts u lineEnds =>
    have heads := first lineEnds (some part (by simp)) ([u] ++ ts) t (by simpa using isHead)
    refine heads.imp_right ?_
    exact fun isHead => ⟨part, by simp, isHead⟩

theorem LineEnds.stops {gap : List Token} (lineEnds : LineEnds gap) (walks : c.Walks gap d)
    (stops : d.here.lexeme.Stops) : c.here.lexeme.Stops := by
  cases gap with
  | nil => rwa [Cursor.walks_nil.mp walks]
  | cons t gap =>
    rw [walks.here, lineEnds t List.mem_cons_self]
    exact ⟨rfl, nofun⟩

theorem StepsBy.stops {step : Option Expr} (steps : StepsBy ts step) (walks : c.Walks ts d)
    (follows : d.here.lexeme.Follows) : c.here.lexeme.Stops := by
  cases steps with
  | none =>
    rw [Cursor.walks_nil.mp walks]
    exact follows.stops
  | some isStep =>
    rw [walks.here, isStep]
    exact ⟨rfl, nofun⟩

theorem Ending.Over.of_words {closers : List Keyword} {word : Keyword}
    (isWord : d.here.lexeme = .keyword word) (member : word ∈ closers) :
    (Ending.words closers).Over d := by
  refine .inr ⟨by simp [Token.isEnd, isWord], ?_⟩
  simp only [Ending.reached, List.any_eq_true, decide_eq_true_eq]
  exact ⟨word, member, isWord⟩

/-- A loop over a counter is over where something closes it. -/
theorem ClosesFor.isOver {counter : String} (closes : ClosesFor counter ts) (walks : c.Walks ts d) :
    (Ending.words [.endFor, .next]).Over c ∧ c.here.lexeme.closesBlock = true := by
  cases closes with
  | endFor isWord =>
    exact ⟨.of_words (walks.here ▸ isWord) (by simp), by rw [walks.here, isWord]; rfl⟩
  | next isWord | named isWord =>
    exact ⟨.of_words (walks.here ▸ isWord) (by simp), by rw [walks.here, isWord]; rfl⟩

/-- A line that starts with `WHILE` and ends with an expression closes a loop. -/
theorem Ending.Over.of_condition {t : Token} {e : Expr} (isWhile : t.lexeme = .keyword .while_)
    (derives : Derives (.level .or) ts e) (walks : c.Walks (t :: ts) d)
    (endsLine : d.here.lexeme.endsLine = true) : Ending.condition.Over c := by
  have isHere := walks.here
  obtain ⟨-, rest⟩ := List.cons.inj walks.tokens
  have last : Cursor.lastOfLine c.here c.rest = ts.getLastD c.here := by
    rw [rest, ← Cursor.lastOfLine_inner derives.inner]
    exact Cursor.lastOfLine_append endsLine c.here ts d.rest
  obtain ⟨us, u, rfl⟩ := (List.eq_nil_or_concat ts).resolve_left derives.ne_nil
  have closes := derives.getLast_closes u (by simp)
  have notDo : u.lexeme ≠ .keyword .do_ := by
    intro isDo
    simp [isDo, Lexeme.closesExpr] at closes
  refine .inr ⟨by simp [Token.isEnd, isHere, isWhile], ?_⟩
  rw [Ending.reached, last, isHere]
  simp [isWhile, notDo]

theorem Lines.follows {ending : Ending} {parts : List (List Token × Stmt)} {us : List Token}
    (lines : Lines ending (parts.map Prod.fst) us) (each : ∀ part ∈ parts, Forms part.1 part.2)
    (walks : c.Walks us d) (closes : d.here.lexeme.closesBlock = true) : c.here.lexeme.Follows := by
  cases us with
  | nil =>
    rw [Cursor.walks_nil.mp walks]
    exact .inr (.inr closes)
  | cons t us =>
    have some : ∀ ts ∈ parts.map Prod.fst, ts ≠ [] := by
      simpa using fun ts s member => (each (ts, s) member).ne_nil
    rw [walks.here]
    rcases lines.head some t rfl with isLine | ⟨_, member, isHead⟩
    · exact .inl isLine
    · obtain ⟨part, isPart, rfl⟩ := List.mem_map.mp member
      exact .inr (.inl ((each part isPart).head_starts t isHead))

namespace Parser

variable {α β : Type} {c d : Cursor} {n : Nat}

theorem Reaches.expression {ts : List Token} {e : Expr} (derives : Derives (.level .or) ts e)
    (walks : c.Walks ts d) (stops : d.here.lexeme.Stops) : Reaches expression c e d :=
  expression_reaches derives walks stops.1 stops.2

theorem endOfStatement_reaches (endsLine : c.here.lexeme.endsLine = true) :
    Reaches endOfStatement c () c.afterLine := by
  apply Reaches.looking peekLexeme_run
  unfold Cursor.afterLine
  rcases Lexeme.endsLine_iff.mp endsLine with isHere | isHere
  · simp only [isHere, if_true]
    exact .advancing (.pure ..)
  · simp only [isHere, reduceCtorEq, if_false]
    exact .pure ..

theorem finish_reaches (start : Token) (statement : Span → Stmt)
    (endsLine : c.here.lexeme.endsLine = true) :
    Reaches (finish start statement) c (statement ⟨start.start, c.last.stop⟩) c.afterLine := by
  apply Reaches.looking (spanFrom_run _)
  exact (endOfStatement_reaches endsLine).bind (.pure ..)

variable {gap : List Token}

theorem skipLineEnds_reaches (lineEnds : LineEnds gap) (walks : c.Walks gap d)
    (other : d.here.lexeme ≠ .endOfLine) : Reaches skipLineEnds c () d := by
  apply Reaches.of_run
  rw [skipLineEnds_run]
  congr
  induction gap generalizing c with
  | nil =>
    rw [Cursor.walks_nil.mp walks]
    exact Cursor.skipped_self other
  | cons t gap ih =>
    obtain ⟨rfl, -, walks⟩ := walks
    obtain ⟨isLine, lineEnds⟩ := List.forall_mem_cons.mp lineEnds
    rw [← Cursor.skipped_next c isLine]
    exact ih lineEnds walks

/-- The parser of statements, started at some tokens, reads the statement that they form. -/
def StmtComplete (ts : List Token) (s : Stmt) : Prop :=
  ∀ c d n, c.Walks ts d → d.here.lexeme.endsLine = true →
    Reaches (statementWith (block n)) c s d.afterLine

/-- The tokens are read as the statement that has their span. -/
abbrev CompleteAt (ts : List Token) (statement : Span → Stmt) : Prop :=
  StmtComplete ts (statement (spanOf ts))

variable {ending : Ending}

/-- A block ends where it is over. -/
theorem block_ends (lineEnds : LineEnds gap) (walks : c.Walks gap d) (isOver : ending.Over d) :
    ∀ n, Reaches (block n ending) c [] d := by
  refine Reaches.bounded rfl fun n => ?_
  rw [block]
  apply (skipLineEnds_reaches lineEnds walks isOver.ne_endOfLine).bind
  apply Reaches.looking get_run
  rcases isOver with ⟨isEnd, none⟩ | ⟨notEnd, reached⟩
  · simp only [isEnd, none, List.isEmpty_nil, if_true]
    exact .pure ..
  · simp only [notEnd, reached, Bool.false_eq_true, if_true, if_false]
    exact .pure ..

/-- A block goes on with a statement that its ending spares. -/
theorem block_goes_on {part : List Token} {s : Stmt} {body : List Stmt} {m m' : Cursor}
    (lineEnds : LineEnds gap) (walks : c.Walks gap m) (forms : Forms part s)
    (complete : StmtComplete part s) (inside : m.Walks part m')
    (endsLine : m'.here.lexeme.endsLine = true) (spares : ending.Spares part)
    (rest : ∀ n, Reaches (block n ending) m'.afterLine body d) :
    ∀ n, Reaches (block n ending) c (s :: body) d := by
  refine Reaches.bounded rfl fun n => ?_
  obtain ⟨t, part, rfl⟩ := List.exists_cons_of_ne_nil forms.ne_nil
  have starts : m.here.lexeme.startsStmt = true := by
    rw [inside.here]
    exact forms.head_starts t rfl
  have notEnd : m.here.isEnd = false := by
    apply decide_eq_false
    intro isEnd
    simp [isEnd, Lexeme.startsStmt] at starts
  have notReached := (Ending.spares_iff inside forms.ne_nil endsLine).mp spares
  rw [block]
  apply (skipLineEnds_reaches lineEnds walks _).bind
  · apply Reaches.looking get_run
    simp only [notEnd, notReached, Bool.false_eq_true, if_false]
    exact (complete m m' n inside endsLine).bind ((rest n).bind (.pure ..))
  · intro isLine
    simp [isLine, Lexeme.startsStmt] at starts

theorem block_reaches {parts : List (List Token × Stmt)} {ts : List Token}
    (lines : Lines ending (parts.map Prod.fst) ts) (each : ∀ part ∈ parts, Forms part.1 part.2)
    (complete : ∀ part ∈ parts, StmtComplete part.1 part.2) (walks : c.Walks ts d)
    (isOver : ending.Over d) : Reaches (block n ending) c (parts.map Prod.snd) d := by
  induction parts generalizing ts c n with
  | nil =>
    cases lines with
    | nil lineEnds => exact block_ends lineEnds walks isOver n
  | cons part parts ih =>
    obtain ⟨forms, each⟩ := List.forall_mem_cons.mp each
    obtain ⟨reads, complete⟩ := List.forall_mem_cons.mp complete
    rw [List.map_cons] at lines
    generalize isRest : parts.map Prod.fst = rest at lines
    cases lines with
    | last lineEnds spares none =>
      obtain rfl : parts = [] := List.map_eq_nil_iff.mp isRest
      obtain ⟨m, before, inside⟩ := Cursor.walks_append.mp walks
      have isEnd := isOver.isEnd_of_closers none
      have stays : d.afterLine = d := if_neg isOver.ne_endOfLine
      apply block_goes_on lineEnds before forms reads inside _ spares
      · intro n
        rw [stays]
        exact block_ends .nil (Cursor.walks_nil.mpr rfl) isOver n
      · exact Lexeme.endsLine_iff.mpr (.inr (of_decide_eq_true isEnd))
    | cons lineEnds spares isLine lines =>
      subst isRest
      simp only [Cursor.walks_append] at walks
      obtain ⟨m'', ⟨m', ⟨m, before, inside⟩, rfl, -, rfl⟩, behind⟩ := walks
      have next : m'.afterLine = m'.next := if_pos isLine
      apply block_goes_on lineEnds before forms reads inside _ spares
      · intro n
        rw [next]
        exact ih lines each complete behind
      · rw [isLine]; rfl

/-! ### The parts of statements -/

section Parts

variable {t u v w : Token} {name type : String} {ts us : List Token} {e : Expr}

theorem typeName_reaches (isType : c.here.lexeme = .identifier type) :
    Reaches typeName c (.name ⟨type, c.here.span⟩) c.next :=
  (identifier_reaches isType).map _

theorem constantType_reaches (isColon : c.here.lexeme = .symbol .colon)
    (isType : c.next.here.lexeme = .identifier type) :
    Reaches constantType c (some (.name ⟨type, c.next.here.span⟩)) c.next.next :=
  (optionalSymbol_reaches isColon).bind ((typeName_reaches isType).map some)

theorem constantType_stays (other : c.here.lexeme ≠ .symbol .colon) :
    Reaches constantType c none c :=
  (optionalSymbol_stays other).bind (.pure ..)

theorem loopStep_reaches {step : Option Expr} (steps : StepsBy ts step) (walks : c.Walks ts d)
    (follows : d.here.lexeme.Follows) : Reaches loopStep c step d := by
  apply Reaches.looking (atKeyword_run .step)
  cases steps with
  | none =>
    obtain rfl := Cursor.walks_nil.mp walks
    simp only [follows.ne_step, decide_false, Bool.false_eq_true, if_false]
    exact .pure ..
  | some isStep derives =>
    obtain ⟨rfl, -, walks⟩ := walks
    simp only [isStep, decide_true, if_true]
    exact .advancing ((Reaches.expression derives walks follows.stops).map some)

theorem closeFor_reaches {counter : Ident} (closes : ClosesFor counter.name ts)
    (walks : c.Walks ts d) (endsLine : d.here.lexeme.endsLine = true) :
    Reaches (closeFor counter) c () d := by
  apply Reaches.looking (atKeyword_run .next)
  cases closes with
  | endFor isEndFor =>
    obtain ⟨rfl, -, rfl⟩ := walks
    simp only [isEndFor, Lexeme.keyword.injEq, reduceCtorEq, decide_false, Bool.false_eq_true,
      if_false]
    exact .advancing (.pure ..)
  | next isNext =>
    obtain ⟨rfl, -, rfl⟩ := walks
    simp only [isNext, decide_true, if_true]
    apply Reaches.advancing
    apply Reaches.looking peek_run
    rcases Lexeme.endsLine_iff.mp endsLine with isHere | isHere <;>
      simp only [isHere] <;> exact .pure ..
  | named isNext isName =>
    obtain ⟨rfl, -, rfl, -, rfl⟩ := walks
    simp only [isNext, decide_true, if_true]
    apply Reaches.advancing
    apply Reaches.looking peek_run
    simp only [isName, if_true]
    exact .advancing (.pure ..)

theorem parameter_reaches {byRef : Bool} {param : Param} (takes : Takes byRef ts param)
    (walks : c.Walks ts d) : Reaches (parameter byRef) c param d := by
  apply Reaches.looking peek_run
  have span := walks.spanOf
  cases takes with
  | marked isMarker isName isColon isType =>
    rw [span (by simp)]
    obtain ⟨rfl, -, rfl, -, rfl, -, rfl, -, rfl⟩ := walks
    simp only [isMarker, Option.isSome_some, if_true, Option.getD_some]
    apply Reaches.advancing
    apply (identifier_reaches isName).bind
    apply (symbol_reaches isColon).bind
    apply (typeName_reaches isType).bind
    exact .looking (spanFrom_run _) (.pure ..)
  | unmarked isName isColon isType =>
    rw [span (by simp)]
    obtain ⟨rfl, -, rfl, -, rfl, -, rfl⟩ := walks
    have notMarker : Marker.ofLexeme? c.here.lexeme = none := by rw [isName]; rfl
    simp only [notMarker, Option.isSome_none, Bool.false_eq_true, if_false, Option.getD_none]
    apply (identifier_reaches isName).bind
    apply (symbol_reaches isColon).bind
    apply (typeName_reaches isType).bind
    exact .looking (spanFrom_run _) (.pure ..)

variable {parts : List (List Token × Param)}

theorem moreParameters_reaches {byRef : Bool} (some : parts ≠ [])
    (separated : Separated (parts.map Prod.fst) ts) (takes : TakesAll byRef parts)
    (isRight : u.lexeme = .symbol .rightParen) (walks : c.Walks (ts ++ [u]) d) (n : Nat) :
    Reaches (moreParameters n byRef) c (parts.map Prod.snd) d := by
  induction parts generalizing ts c n byRef with
  | nil => exact absurd rfl some
  | cons part parts ih =>
    obtain ⟨first, rest⟩ := takes
    revert n
    refine Reaches.bounded rfl fun n => ?_
    rw [moreParameters]
    cases parts with
    | nil =>
      cases separated
      obtain ⟨m, inside, rfl, -, rfl⟩ := Cursor.walks_append.mp walks
      apply (parameter_reaches first inside).bind
      apply (optionalSymbol_stays (by simp [isRight])).bind
      exact (symbol_reaches isRight).bind (.pure ..)
    | cons part' parts =>
      cases separated with
      | @cons _ _ _ vs t isComma separated =>
        rw [List.append_assoc] at walks
        obtain ⟨m, inside, rfl, -, behind⟩ := Cursor.walks_append.mp walks
        apply (parameter_reaches first inside).bind
        apply (optionalSymbol_reaches isComma).bind
        exact (ih (by simp) separated rest behind n).bind (.pure ..)

theorem listed_reaches (isLeft : t.lexeme = .symbol .leftParen)
    (separated : Separated (parts.map Prod.fst) ts) (takes : TakesAll false parts)
    (isRight : u.lexeme = .symbol .rightParen) (walks : c.Walks ([t] ++ ts ++ [u]) d) :
    Reaches parameters c (parts.map Prod.snd) d := by
  rw [List.append_assoc] at walks
  obtain ⟨rfl, -, walks⟩ := walks
  apply (optionalSymbol_reaches isLeft).bind
  cases parts with
  | nil =>
    cases separated
    obtain ⟨rfl, -, rfl⟩ := walks
    exact (optionalSymbol_reaches isRight).bind (.pure ..)
  | cons part parts =>
    obtain ⟨u', rest, isPart, notRight⟩ := takes.1.head_ne
    have here : c.next.here = u' := by
      have head := separated.head?_eq (by simp [isPart])
      rw [isPart] at head
      obtain ⟨more, rfl⟩ := List.head?_eq_some_iff.mp head
      exact walks.here
    apply (optionalSymbol_stays (by rwa [here])).bind
    apply Reaches.looking get_run
    exact moreParameters_reaches (by simp) separated takes isRight walks _

theorem parameters_reaches {params : List Param} (takes : TakesList ts params)
    (walks : c.Walks ts d) (other : d.here.lexeme ≠ .symbol .leftParen) :
    Reaches parameters c params d := by
  cases takes with
  | none =>
    obtain rfl := Cursor.walks_nil.mp walks
    exact (optionalSymbol_stays other).bind (.pure ..)
  | listed isLeft separated takes isRight =>
    exact listed_reaches isLeft separated takes isRight walks

end Parts

/-! ### Statements -/

namespace StmtComplete

variable {t u v w x : Token} {name type : String} {ts us vs ws gap : List Token} {e : Expr}
  {parts more : List (List Token × Stmt)}

theorem declare (isHere : t.lexeme = .keyword .declare) (isName : u.lexeme = .identifier name)
    (isColon : v.lexeme = .symbol .colon) (isType : w.lexeme = .identifier type) :
    CompleteAt ([t] ++ [u] ++ [v] ++ [w]) (.declare ⟨name, u.span⟩ (.name ⟨type, w.span⟩)) := by
  intro c d n walks endsLine
  rw [walks.spanOf (by simp)]
  simp only [Cursor.walks_append] at walks
  obtain ⟨_, ⟨_, ⟨_, ⟨rfl, -, rfl⟩, rfl, -, rfl⟩, rfl, -, rfl⟩, rfl, -, rfl⟩ := walks
  apply Reaches.looking peek_run
  simp only [isHere]
  apply Reaches.advancing
  apply (identifier_reaches isName).bind
  apply (symbol_reaches isColon).bind
  apply (typeName_reaches isType).bind
  exact finish_reaches _ _ endsLine

theorem constant (isHere : t.lexeme = .keyword .constant) (isName : u.lexeme = .identifier name)
    (isColon : v.lexeme = .symbol .colon) (isType : w.lexeme = .identifier type)
    (isSign : x.lexeme = .symbol .equal ∨ x.lexeme = .symbol .assign)
    (derives : Derives (.level .or) ts e) :
    CompleteAt ([t] ++ [u] ++ [v, w] ++ [x] ++ ts)
      (.constant ⟨name, u.span⟩ (.name ⟨type, w.span⟩) e) := by
  intro c d n walks endsLine
  rw [walks.spanOf (by simp)]
  simp only [Cursor.walks_append] at walks
  obtain ⟨_, ⟨_, ⟨_, ⟨_, ⟨rfl, -, rfl⟩, rfl, -, rfl⟩, rfl, -, rfl, -, rfl⟩, rfl, -, rfl⟩, value⟩ :=
    walks
  apply Reaches.looking peek_run
  simp only [isHere]
  apply Reaches.advancing
  apply (identifier_reaches isName).bind
  apply (constantType_reaches isColon isType).bind
  apply Reaches.looking (atSymbol_run .equal)
  apply Reaches.looking (atSymbol_run .assign)
  rw [if_neg (by rcases isSign with isSign | isSign <;> simp [isSign])]
  apply Reaches.advancing
  apply Reaches.looking peek_run
  apply (Reaches.expression derives value (Lexeme.stops_of_endsLine endsLine)).bind
  exact finish_reaches _ _ endsLine

theorem implied (isHere : t.lexeme = .keyword .constant) (isName : u.lexeme = .identifier name)
    (isSign : x.lexeme = .symbol .equal ∨ x.lexeme = .symbol .assign)
    (derives : Derives (.level .or) ts e) (isLiteral : e.literalType? = some type) :
    CompleteAt ([t] ++ [u] ++ [x] ++ ts) (.constant ⟨name, u.span⟩ (.name ⟨type, e.span⟩) e) := by
  intro c d n walks endsLine
  rw [walks.spanOf (by simp)]
  simp only [Cursor.walks_append] at walks
  obtain ⟨_, ⟨_, ⟨_, ⟨rfl, -, rfl⟩, rfl, -, rfl⟩, rfl, -, rfl⟩, value⟩ := walks
  apply Reaches.looking peek_run
  simp only [isHere]
  apply Reaches.advancing
  apply (identifier_reaches isName).bind
  apply (constantType_stays (by rcases isSign with isSign | isSign <;> simp [isSign])).bind
  apply Reaches.looking (atSymbol_run .equal)
  apply Reaches.looking (atSymbol_run .assign)
  rw [if_neg (by rcases isSign with isSign | isSign <;> simp [isSign])]
  apply Reaches.advancing
  apply Reaches.looking peek_run
  apply (Reaches.expression derives value (Lexeme.stops_of_endsLine endsLine)).bind
  simp only [isLiteral]
  exact finish_reaches _ _ endsLine

theorem assign (isName : t.lexeme = .identifier name) (isAssign : u.lexeme = .symbol .assign)
    (derives : Derives (.level .or) ts e) :
    CompleteAt ([t] ++ [u] ++ ts) (.assign ⟨name, t.span⟩ e) := by
  intro c d n walks endsLine
  rw [walks.spanOf (by simp)]
  simp only [Cursor.walks_append] at walks
  obtain ⟨_, ⟨_, ⟨rfl, -, rfl⟩, rfl, -, rfl⟩, value⟩ := walks
  apply Reaches.looking peek_run
  simp only [isName]
  apply Reaches.looking peek_run
  apply (identifier_reaches isName).bind
  apply Reaches.looking (atSymbol_run .assign)
  simp only [isAssign, decide_true, if_true]
  apply Reaches.advancing
  apply (Reaches.expression derives value (Lexeme.stops_of_endsLine endsLine)).bind
  exact finish_reaches _ _ endsLine

theorem output (isHere : t.lexeme = .keyword .output) (derives : Derives (.level .or) ts e) :
    CompleteAt ([t] ++ ts) (.output e) := by
  intro c d n walks endsLine
  rw [walks.spanOf (by simp)]
  obtain ⟨rfl, -, value⟩ := walks
  apply Reaches.looking peek_run
  simp only [isHere]
  apply Reaches.advancing
  apply (Reaches.expression derives value (Lexeme.stops_of_endsLine endsLine)).bind
  exact finish_reaches _ _ endsLine

theorem call (isHere : t.lexeme = .keyword .call) (isName : u.lexeme = .identifier name) :
    CompleteAt ([t] ++ [u]) (.call ⟨name, u.span⟩ none) := by
  intro c d n walks endsLine
  rw [walks.spanOf (by simp)]
  obtain ⟨rfl, -, rfl, -, rfl⟩ := walks
  have stops := Lexeme.stops_of_endsLine endsLine
  apply Reaches.looking peek_run
  simp only [isHere]
  apply Reaches.advancing
  apply (identifier_reaches isName).bind
  apply Reaches.looking (atSymbol_run .leftParen)
  simp only [stops.2, decide_false, Bool.false_eq_true, if_false]
  exact finish_reaches _ _ endsLine

theorem callWith {parts : List (List Token × Expr)} (isHere : t.lexeme = .keyword .call)
    (isName : u.lexeme = .identifier name) (isLeft : v.lexeme = .symbol .leftParen)
    (separated : Separated (parts.map Prod.fst) ts)
    (each : ∀ part ∈ parts, Derives (.level .or) part.1 part.2)
    (isRight : w.lexeme = .symbol .rightParen) :
    CompleteAt ([t] ++ [u] ++ (v :: (ts ++ [w])))
      (.call ⟨name, u.span⟩ (some (parts.map Prod.snd))) := by
  intro c d n walks endsLine
  rw [walks.spanOf (by simp)]
  obtain ⟨_, names, list⟩ := Cursor.walks_append.mp walks
  obtain ⟨rfl, -, rfl, -, rfl⟩ := names
  have here : c.next.next.here.lexeme = .symbol .leftParen := list.here ▸ isLeft
  have complete := fun part member => (each part member).complete
  have given : Reaches arguments c.next.next (parts.map Prod.snd) d :=
    .looking get_run (argumentExprs_reaches isLeft separated each complete isRight list _)
  apply Reaches.looking peek_run
  simp only [isHere]
  apply Reaches.advancing
  apply (identifier_reaches isName).bind
  apply Reaches.looking (atSymbol_run .leftParen)
  simp only [here, decide_true, if_true]
  exact given.bind (finish_reaches _ _ endsLine)

theorem returnNone (isHere : t.lexeme = .keyword .return_) :
    CompleteAt [t] (.returning none) := by
  intro c d n walks endsLine
  rw [walks.spanOf (by simp)]
  obtain ⟨rfl, -, rfl⟩ := walks
  apply Reaches.looking peek_run
  simp only [isHere]
  apply Reaches.advancing
  apply Reaches.looking peekLexeme_run
  rcases Lexeme.endsLine_iff.mp endsLine with isEnd | isEnd <;> simp only [isEnd] <;>
    exact finish_reaches _ _ endsLine

theorem returning (isHere : t.lexeme = .keyword .return_) (derives : Derives (.level .or) ts e) :
    CompleteAt ([t] ++ ts) (.returning (some e)) := by
  intro c d n walks endsLine
  rw [walks.spanOf (by simp)]
  obtain ⟨rfl, -, value⟩ := walks
  have inner : c.next.here.lexeme.endsLine = false := by
    obtain ⟨t, ts, rfl⟩ := List.exists_cons_of_ne_nil derives.ne_nil
    rw [value.here]
    exact derives.inner t List.mem_cons_self
  apply Reaches.looking peek_run
  simp only [isHere]
  apply Reaches.advancing
  apply Reaches.looking peekLexeme_run
  split
  case h_1 isLine => simp [isLine, Lexeme.endsLine] at inner
  case h_2 isEnd => simp [isEnd, Lexeme.endsLine] at inner
  case h_3 =>
    apply (Reaches.expression derives value (Lexeme.stops_of_endsLine endsLine)).bind
    exact finish_reaches _ _ endsLine

/-! In statements that hold blocks, the statements of the blocks are known to be read. -/

variable (each : ∀ part ∈ parts, Forms part.1 part.2)
  (complete : ∀ part ∈ parts, StmtComplete part.1 part.2)

include each complete

theorem ifThen (isHere : t.lexeme = .keyword .if_) (derives : Derives (.level .or) ts e)
    (lineEnds : LineEnds gap) (isThen : u.lexeme = .keyword .then_)
    (lines : Lines (.words [.else_, .endIf]) (parts.map Prod.fst) us)
    (isEndIf : v.lexeme = .keyword .endIf) :
    CompleteAt ([t] ++ ts ++ gap ++ [u] ++ us ++ [v]) (.ifThen e (parts.map Prod.snd)) := by
  intro c d n walks endsLine
  rw [walks.spanOf (by simp)]
  simp only [Cursor.walks_append] at walks
  obtain ⟨_, ⟨_, ⟨_, ⟨_, ⟨_, ⟨rfl, -, rfl⟩, cond⟩, skip⟩, rfl, -, rfl⟩, body⟩, rfl, -, rfl⟩ := walks
  have stops := lineEnds.stops skip (by rw [isThen]; exact ⟨rfl, nofun⟩)
  apply Reaches.looking peek_run
  simp only [isHere]
  apply Reaches.advancing
  apply (Reaches.expression derives cond stops).bind
  apply (skipLineEnds_reaches lineEnds skip (by simp [isThen])).bind
  apply (keyword_reaches isThen).bind
  apply (block_reaches lines each complete body (.of_words isEndIf (by simp))).bind
  apply Reaches.looking (atKeyword_run .else_)
  rw [if_neg (by simp [isEndIf])]
  apply (keyword_reaches isEndIf).bind
  exact finish_reaches _ _ endsLine

theorem ifElse (isHere : t.lexeme = .keyword .if_) (derives : Derives (.level .or) ts e)
    (lineEnds : LineEnds gap) (isThen : u.lexeme = .keyword .then_)
    (lines : Lines (.words [.else_, .endIf]) (parts.map Prod.fst) us)
    (isElse : v.lexeme = .keyword .else_)
    (lines' : Lines (.words [.endIf]) (more.map Prod.fst) vs)
    (each' : ∀ part ∈ more, Forms part.1 part.2)
    (complete' : ∀ part ∈ more, StmtComplete part.1 part.2)
    (isEndIf : w.lexeme = .keyword .endIf) :
    CompleteAt ([t] ++ ts ++ gap ++ [u] ++ us ++ [v] ++ vs ++ [w])
      (.ifElse e (parts.map Prod.snd) (more.map Prod.snd)) := by
  intro c d n walks endsLine
  rw [walks.spanOf (by simp)]
  simp only [Cursor.walks_append] at walks
  obtain ⟨_, ⟨_, ⟨_, ⟨_, ⟨_, ⟨_, ⟨_, ⟨rfl, -, rfl⟩, cond⟩, skip⟩, rfl, -, rfl⟩, body⟩, rfl, -, rfl⟩,
    body'⟩, rfl, -, rfl⟩ := walks
  have stops := lineEnds.stops skip (by rw [isThen]; exact ⟨rfl, nofun⟩)
  apply Reaches.looking peek_run
  simp only [isHere]
  apply Reaches.advancing
  apply (Reaches.expression derives cond stops).bind
  apply (skipLineEnds_reaches lineEnds skip (by simp [isThen])).bind
  apply (keyword_reaches isThen).bind
  apply (block_reaches lines each complete body (.of_words isElse (by simp))).bind
  apply Reaches.looking (atKeyword_run .else_)
  rw [if_pos (by simp [isElse])]
  apply Reaches.advancing
  apply (block_reaches lines' each' complete' body' (.of_words isEndIf (by simp))).bind
  apply (keyword_reaches isEndIf).bind
  exact finish_reaches _ _ endsLine

theorem forLoop {first last : Expr} {step : Option Expr} {closing : List Token}
    (isHere : t.lexeme = .keyword .for_) (isName : u.lexeme = .identifier name)
    (isAssign : v.lexeme = .symbol .assign) (derives : Derives (.level .or) ts first)
    (isTo : w.lexeme = .keyword .to_) (derives' : Derives (.level .or) us last)
    (steps : StepsBy vs step) (lines : Lines (.words [.endFor, .next]) (parts.map Prod.fst) ws)
    (closes : ClosesFor name closing) :
    CompleteAt ([t] ++ [u] ++ [v] ++ ts ++ [w] ++ us ++ vs ++ ws ++ closing)
      (.forLoop ⟨name, u.span⟩ first last step (parts.map Prod.snd)) := by
  intro c d n walks endsLine
  rw [walks.spanOf (by simp)]
  simp only [Cursor.walks_append] at walks
  obtain ⟨_, ⟨_, ⟨_, ⟨_, ⟨_, ⟨_, ⟨_, ⟨_, ⟨rfl, -, rfl⟩, rfl, -, rfl⟩, rfl, -, rfl⟩, from_⟩, rfl, -,
    rfl⟩, upTo⟩, by_⟩, body⟩, close⟩ := walks
  obtain ⟨isOver, isCloser⟩ := closes.isOver close
  have follows := lines.follows each body isCloser
  apply Reaches.looking peek_run
  simp only [isHere]
  apply Reaches.advancing
  apply (identifier_reaches isName).bind
  apply (symbol_reaches isAssign).bind
  apply (Reaches.expression derives from_ (by rw [isTo]; exact ⟨rfl, nofun⟩)).bind
  apply (keyword_reaches isTo).bind
  apply (Reaches.expression derives' upTo (steps.stops by_ follows)).bind
  apply (loopStep_reaches steps by_ follows).bind
  apply (block_reaches lines each complete body isOver).bind
  apply (closeFor_reaches closes close endsLine).bind
  exact finish_reaches _ _ endsLine

theorem whileLoop {opening : List Token} (isHere : t.lexeme = .keyword .while_)
    (derives : Derives (.level .or) ts e) (opens : OpensWhile (us ++ [v]) opening)
    (lines : Lines (.words [.endWhile]) (parts.map Prod.fst) us)
    (isEndWhile : v.lexeme = .keyword .endWhile) :
    CompleteAt ([t] ++ ts ++ opening ++ us ++ [v]) (.whileLoop e (parts.map Prod.snd)) := by
  intro c d n walks endsLine
  rw [walks.spanOf (by simp)]
  simp only [Cursor.walks_append] at walks
  obtain ⟨m, ⟨_, ⟨_, ⟨_, ⟨rfl, -, rfl⟩, cond⟩, mark⟩, body⟩, rfl, -, rfl⟩ := walks
  have closes : m.here.lexeme.closesBlock = true := by rw [isEndWhile]; rfl
  have rest {b : Cursor} (body : b.Walks us m) : Reaches (do
      let body ← block n (.words [.endWhile])
      let _ ← advance
      finish c.here (.whileLoop e body)) b
      (.whileLoop e (parts.map Prod.snd) ⟨c.here.start, m.next.last.stop⟩) m.next.afterLine := by
    apply (block_reaches lines each complete body (.of_words isEndWhile (by simp))).bind
    exact .advancing (finish_reaches _ _ endsLine)
  apply Reaches.looking peek_run
  simp only [isHere]
  apply Reaches.advancing
  cases opens with
  | marked isDo =>
    obtain ⟨rfl, -, rfl⟩ := mark
    apply (Reaches.expression derives cond (by rw [isDo]; exact ⟨rfl, nofun⟩)).bind
    apply Reaches.looking (atKeyword_run .do_)
    rw [if_pos (by simp [isDo])]
    exact .advancing (rest body)
  | unmarked notDo =>
    obtain rfl := Cursor.walks_nil.mp mark
    rw [body.head] at notDo
    apply (Reaches.expression derives cond (lines.follows each body closes).stops).bind
    apply Reaches.looking (atKeyword_run .do_)
    rw [if_neg (by simpa using notDo)]
    exact rest body

theorem doWhile (isHere : t.lexeme = .keyword .do_)
    (lines : Lines .condition (parts.map Prod.fst) us) (isWhile : u.lexeme = .keyword .while_)
    (derives : Derives (.level .or) ts e) :
    CompleteAt ([t] ++ us ++ [u] ++ ts) (.doWhile (parts.map Prod.snd) e) := by
  intro c d n walks endsLine
  rw [walks.spanOf (by simp)]
  simp only [Cursor.walks_append] at walks
  obtain ⟨_, ⟨m, ⟨_, ⟨rfl, -, rfl⟩, body⟩, here, more, rfl⟩, cond⟩ := walks
  have isOver : Ending.condition.Over m := .of_condition isWhile derives ⟨here, more, cond⟩ endsLine
  apply Reaches.looking peek_run
  simp only [isHere]
  apply Reaches.advancing
  apply (block_reaches lines each complete body isOver).bind
  apply Reaches.advancing
  apply (Reaches.expression derives cond (Lexeme.stops_of_endsLine endsLine)).bind
  exact finish_reaches _ _ endsLine

theorem procedure {params : List Param} (isHere : t.lexeme = .keyword .procedure)
    (isName : u.lexeme = .identifier name) (takes : TakesList ts params)
    (lines : Lines (.words [.endProcedure]) (parts.map Prod.fst) us)
    (isCloser : v.lexeme = .keyword .endProcedure) :
    CompleteAt ([t] ++ [u] ++ ts ++ us ++ [v])
      (.procedure ⟨name, u.span⟩ params (parts.map Prod.snd)) := by
  intro c d n walks endsLine
  rw [walks.spanOf (by simp)]
  simp only [Cursor.walks_append] at walks
  obtain ⟨m, ⟨_, ⟨_, ⟨_, ⟨rfl, -, rfl⟩, rfl, -, rfl⟩, list⟩, body⟩, rfl, -, rfl⟩ := walks
  have closes : m.here.lexeme.closesBlock = true := by rw [isCloser]; rfl
  apply Reaches.looking peek_run
  simp only [isHere]
  apply Reaches.advancing
  apply (identifier_reaches isName).bind
  apply (parameters_reaches takes list (lines.follows each body closes).stops.2).bind
  apply (block_reaches lines each complete body (.of_words isCloser (by simp))).bind
  exact .advancing (finish_reaches _ _ endsLine)

theorem function {params : List Param} (isHere : t.lexeme = .keyword .function)
    (isName : u.lexeme = .identifier name) (takes : TakesList ts params)
    (isReturns : v.lexeme = .keyword .returns) (isType : w.lexeme = .identifier type)
    (lines : Lines (.words [.endFunction]) (parts.map Prod.fst) us)
    (isCloser : x.lexeme = .keyword .endFunction) :
    CompleteAt ([t] ++ [u] ++ ts ++ [v] ++ [w] ++ us ++ [x])
      (.function ⟨name, u.span⟩ params (.name ⟨type, w.span⟩) (parts.map Prod.snd)) := by
  intro c d n walks endsLine
  rw [walks.spanOf (by simp)]
  simp only [Cursor.walks_append] at walks
  obtain ⟨_, ⟨_, ⟨_, ⟨_, ⟨_, ⟨_, ⟨rfl, -, rfl⟩, rfl, -, rfl⟩, list⟩, rfl, -, rfl⟩, rfl, -, rfl⟩,
    body⟩, rfl, -, rfl⟩ := walks
  apply Reaches.looking peek_run
  simp only [isHere]
  apply Reaches.advancing
  apply (identifier_reaches isName).bind
  apply (parameters_reaches takes list (by simp [isReturns])).bind
  apply (keyword_reaches isReturns).bind
  apply (typeName_reaches isType).bind
  apply (block_reaches lines each complete body (.of_words isCloser (by simp))).bind
  exact .advancing (finish_reaches _ _ endsLine)

end StmtComplete

end Parser

theorem Forms.complete {s : Stmt} (forms : Forms ts s) : Parser.StmtComplete ts s := by
  induction forms with
  | declare isHere isName isColon isType => exact .declare isHere isName isColon isType
  | constant isHere isName isColon isType isSign derives =>
    exact .constant isHere isName isColon isType isSign derives
  | implied isHere isName isSign derives isLiteral =>
    exact .implied isHere isName isSign derives isLiteral
  | assign isName isAssign derives => exact .assign isName isAssign derives
  | output isHere derives => exact .output isHere derives
  | call isHere isName => exact .call isHere isName
  | callWith isHere isName isLeft separated each isRight =>
    exact .callWith isHere isName isLeft separated each isRight
  | returnNone isHere => exact .returnNone isHere
  | returning isHere derives => exact .returning isHere derives
  | ifThen isHere derives lineEnds isThen lines each isEndIf ih =>
    exact .ifThen each ih isHere derives lineEnds isThen lines isEndIf
  | ifElse isHere derives lineEnds isThen lines each isElse lines' each' isEndIf ih ih' =>
    exact .ifElse each ih isHere derives lineEnds isThen lines isElse lines' each' ih' isEndIf
  | forLoop isHere isName isAssign derives isTo derives' steps lines each closes ih =>
    exact .forLoop each ih isHere isName isAssign derives isTo derives' steps lines closes
  | whileLoop isHere derives opens lines each isEndWhile ih =>
    exact .whileLoop each ih isHere derives opens lines isEndWhile
  | doWhile isHere lines each isWhile derives ih =>
    exact .doWhile each ih isHere lines isWhile derives
  | procedure isHere isName takes lines each isCloser ih =>
    exact .procedure each ih isHere isName takes lines isCloser
  | function isHere isName takes isReturns isType lines each isCloser ih =>
    exact .function each ih isHere isName takes isReturns isType lines isCloser

/-! ## Programs -/

/-- The tokens in front of the end of the input are a program with this body. -/
def Composes (ts : List Token) (body : List Stmt) : Prop :=
  ∃ parts : List (List Token × Stmt), Lines .input (parts.map Prod.fst) ts ∧
    (∀ part ∈ parts, Forms part.1 part.2) ∧ body = parts.map Prod.snd

namespace Program

variable {ts : List Token} {stop : Token}

/-- A program is read exactly from the tokens that compose it. -/
theorem ofTokens_iff_composes (isEnd : stop.isEnd = true) (notEnd : ∀ t ∈ ts, t.isEnd = false)
    {body : List Stmt} :
    (ofTokens (ts ++ [stop])).map Program.body = .ok body ↔ Composes ts body := by
  obtain ⟨c, start⟩ : ∃ c, Cursor.ofTokens? (ts ++ [stop]) = some c := by
    cases ts <;> exact ⟨_, rfl⟩
  have tokens : c.tokens = ts ++ [stop] := by
    cases ts <;> cases start <;> rfl
  have closed : c.Closed := closed_start start rfl isEnd notEnd
  rw [ofTokens_body start]
  constructor
  · intro read
    cases ran : (Parser.block (c.rest.length + 2) .input).run c with
    | error e => simp [ran, Except.map] at read
    | ok result =>
      obtain ⟨result, d⟩ := result
      obtain rfl : result = body := by simpa [ran, Except.map] using read
      obtain ⟨us, walks, parts, lines, each, rfl, isOver⟩ :=
        (Parser.block_delivers _ .input closed).ok ran
      have atEnd := isOver.isEnd_of_closers rfl
      have behind : us ++ d.tokens = ts ++ [stop] := walks.tokens.symm.trans tokens
      rw [(closed.walks walks).tokens_of_isEnd atEnd] at behind
      obtain ⟨rfl, -⟩ := List.append_inj' behind rfl
      exact ⟨parts, lines, each, rfl⟩
  · rintro ⟨parts, lines, each, rfl⟩
    obtain ⟨d, walks⟩ := Cursor.exists_walks tokens (by simp)
    have behind : ts ++ d.tokens = ts ++ [stop] := walks.tokens.symm.trans tokens
    have here : d.here = stop := (List.cons.inj (List.append_cancel_left behind)).1
    have isOver : Ending.input.Over d := .inl ⟨by rw [here]; exact isEnd, rfl⟩
    have complete := fun part member => (each part member).complete
    have reaches := Parser.block_reaches (n := c.rest.length + 2) lines each complete walks isOver
    rw [reaches.run (shallow closed)]
    rfl

/-- A program that was read is composed of the tokens of its source. -/
theorem ofText_composes {source : List Char} {p : Program} (parsed : ofText source = .ok p) :
    ∃ (ts : List Token) (stop : Token), Token.scan source = .ok (ts ++ [stop]) ∧
      stop.isEnd = true ∧ (∀ t ∈ ts, t.isEnd = false) ∧ Composes ts p.body := by
  cases scanned : Token.scan source with
  | error e =>
    rw [ofText, scanned] at parsed
    cases parsed
  | ok tokens =>
    obtain ⟨ts, isTokens, notEnd⟩ := Token.scanFrom_closed scanned
    generalize isStop : Token.mk .endOfInput _ _ = stop at isTokens
    have isEnd : stop.isEnd = true := by rw [← isStop]; rfl
    rw [ofText, scanned, isTokens] at parsed
    refine ⟨ts, stop, congrArg _ isTokens, isEnd, notEnd, ?_⟩
    exact (ofTokens_iff_composes isEnd notEnd).mp (congrArg (Except.map Program.body) parsed)

end Program

end Pseudocode
