import Pseudocode.Proofs.Completion
import Pseudocode.Proofs.Ranges
import Pseudocode.Proofs.Rendering

/-! # Writing and reading again

What `Program.rendered` writes is scanned to the lexemes that were written, so reading it gives the
program back. The other way round, whatever is read can be written, but for its real literals. -/

namespace Pseudocode

/-! ## What is written is scanned -/

namespace Lexeme

/-- The lexeme is spelled as it is written, in front of a blank or a line end. -/
def Legible (l : Lexeme) : Prop :=
  ∃ c cs, l.written = c :: cs ∧
    ∀ later : List Char, (∀ x ∈ later.head?, x = ' ' ∨ x = '\n') → l.Spelled c cs later

@[simp] theorem written_endOfLine : endOfLine.written = ['\n'] := rfl

theorem stops_blank {p : Char → Bool} {later : List Char}
    (blank : ∀ x ∈ later.head?, x = ' ' ∨ x = '\n')
    (space : p ' ' = false) (newline : p '\n' = false) : ∀ x ∈ later.head?, p x = false := by
  intro x isHead
  rcases blank x isHead with rfl | rfl
  · exact space
  · exact newline

theorem Legible.name {name : String} (isName : Pseudocode.isName name = true) :
    (identifier name).Legible := by
  unfold Pseudocode.isName at isName
  split at isName
  case h_1 => cases isName
  case h_2 c cs spells =>
    simp only [Bool.and_eq_true, List.all_eq_true, Option.isNone_iff_eq_none] at isName
    obtain ⟨⟨starts, each⟩, notKeyword⟩ := isName
    refine ⟨c, cs, spells, fun later blank => ?_⟩
    have isWord : identifier name = .ofWord (c :: cs) := by
      rw [ofWord, ← spells, String.ofList_toList, notKeyword]
    rw [isWord]
    exact .word starts each (stops_blank blank (by decide) (by decide))

@[simp] theorem Legible.keyword (word : Keyword) : (keyword word).Legible := by
  obtain ⟨c, cs, spells, spelled⟩ := word.exists_spelled
  exact ⟨c, cs, spells, fun _ blank =>
    spelled _ (stops_blank blank (by decide +kernel) (by decide +kernel))⟩

@[simp] theorem Legible.symbol (s : Symbol) : (symbol s).Legible := by
  have short : (∃ c, s.spelling.toList = [c]) ∨ ∃ c x, s.spelling.toList = [c, x] := by
    cases s <;> first | exact .inl ⟨_, rfl⟩ | exact .inr ⟨_, _, rfl⟩
  rcases short with ⟨c, spells⟩ | ⟨c, x, spells⟩
  · refine ⟨c, [], spells, fun later blank => .sign spells fun x isHead => ?_⟩
    rcases blank x isHead with rfl | rfl <;> simp
  · exact ⟨c, [x], spells, fun _ _ => .signs spells⟩

@[simp] theorem Legible.endOfLine : endOfLine.Legible :=
  ⟨'\n', [], rfl, fun _ _ => .newline⟩

theorem Legible.string {body : String} (quotable : isQuotable '"' body = true) :
    (string body).Legible := by
  refine ⟨'"', body.toList ++ ['"'], rfl, fun later _ => ?_⟩
  have spelled :
      (Lexeme.string (String.ofList body.toList)).Spelled '"' (body.toList ++ ['"']) later :=
    .string (by simpa [isQuotable] using quotable)
  rwa [String.ofList_toList] at spelled

theorem Legible.char {body : String} (quotable : isQuotable '\'' body = true) :
    (char body).Legible := by
  refine ⟨'\'', body.toList ++ ['\''], rfl, fun later _ => ?_⟩
  have spelled :
      (Lexeme.char (String.ofList body.toList)).Spelled '\'' (body.toList ++ ['\'']) later :=
    .char (by simpa [isQuotable] using quotable)
  rwa [String.ofList_toList] at spelled

theorem isDigit_ascii {c : Char} (isDigit : c.isDigit = true) :
    isWordStart c = false ∧ Text.isDigit c = true := by
  have low := Literal.digit_low isDigit
  have notLetter : c.isAlpha = false := by
    have range := Char.isDigit_iff_toNat.mp isDigit
    change (decide ('A'.val ≤ c.val ∧ c.val ≤ 'Z'.val) ||
      (decide ('a'.val ≤ c.val) && decide (c.val ≤ 'z'.val))) = false
    simp [UInt32.le_iff_toNat_le] at range ⊢
    omega
  have notUnderscore : c ≠ '_' := by
    rintro rfl
    cases isDigit
  simp [isWordStart, Text.isLetter, Text.isDigit, low, notLetter, notUnderscore, isDigit]

theorem Legible.integer {digits : String} (some : digits.toList ≠ [])
    (each : ∀ c ∈ digits.toList, c.isDigit = true) : (integer digits).Legible := by
  obtain ⟨c, cs, isDigits⟩ := List.exists_cons_of_ne_nil some
  rw [isDigits] at each
  obtain ⟨first, others⟩ := List.forall_mem_cons.mp each
  refine ⟨c, cs, isDigits, fun later blank => ?_⟩
  have stops := stops_blank (p := Text.isDigit) blank (by decide) (by decide)
  have digit : ∀ x ∈ cs, Text.isDigit x = true :=
    fun x member => (isDigit_ascii (others x member)).2
  have spelled := Spelled.integer (isDigit_ascii first).1 (isDigit_ascii first).2 digit stops
    (fun d tail point => absurd (blank '.' (by simp [point])) (by decide))
    (startsWithDate_digits digit fun x isHead => ⟨stops x isHead, by
      rintro rfl
      exact absurd (blank '/' isHead) (by decide)⟩)
  rwa [← isDigits, String.ofList_toList] at spelled

theorem Legible.number (n : Nat) : (Lexeme.integer (toString n)).Legible := by
  rw [Nat.toString_eq_ofList_toDigits]
  apply Legible.integer <;> rw [String.toList_ofList]
  · exact Nat.toDigits_ne_nil
  · exact Literal.toDigits_isDigit n

theorem Legible.date {d : Date} (fits : d.fitsDigits = true) : (date d.shown).Legible := by
  obtain ⟨ds, ms, ys, shown, isDay, isMonth, isYear⟩ := Literal.shown_digits fits
  have digit {width n : Nat} {digits : List Char} (isDigits : Literal.Digits width n digits) :
      ∀ x ∈ digits, Text.isDigit x = true :=
    fun x member => (isDigit_ascii (isDigits.each x member)).2
  match ds, ms, ys, isDay, isMonth, isYear, isDay.length, isMonth.length, isYear.length with
  | [d₁, d₂], [m₁, m₂], [y₁, y₂, y₃, y₄], isDay, isMonth, isYear, _, _, _ =>
    rw [shown]
    refine ⟨d₁, [d₂, '/', m₁, m₂, '/', y₁, y₂, y₃, y₄], String.toList_ofList,
      fun later blank => ?_⟩
    have days := digit isDay
    have months := digit isMonth
    have years := digit isYear
    have stops := stops_blank (p := Text.isDigit) blank (by decide) (by decide)
    refine .date (isDigit_ascii (isDay.each d₁ (by simp))).1 ?_ rfl
    rw [startsWithDate_nine rfl]
    cases later <;> simp_all [startsWithDate]

end Lexeme

namespace Token

theorem scans_ofLexemes {ls : List Lexeme} (legible : ∀ l ∈ ls, l.Legible) :
    Scans (Text.ofLexemes ls) ls := by
  induction ls with
  | nil => exact .nil
  | cons l ls ih =>
    obtain ⟨first, others⟩ := List.forall_mem_cons.mp legible
    obtain ⟨c, cs, written, spelled⟩ := first
    cases ls with
    | nil =>
      have scans := Scans.lexeme (spelled [] (by simp)) .nil
      rw [Text.ofLexemes, written]
      simpa using scans
    | cons more rest =>
      have scans := ih others
      rw [Text.ofLexemes, written]
      split
      case isTrue line =>
        rcases line with rfl | rfl
        · obtain ⟨rfl, rfl⟩ : '\n' = c ∧ [] = cs := by simpa using written
          exact .lexeme .newline scans
        · have blank :
              ∀ x ∈ (Text.ofLexemes (.endOfLine :: rest)).head?, x = ' ' ∨ x = '\n' := by
            cases rest <;> simp [Text.ofLexemes]
          have scans := Scans.lexeme (spelled _ blank) scans
          simpa using scans
      case isFalse =>
        have scans := Scans.lexeme (spelled _ (by simp)) scans.space
        simpa using scans

end Token

/-! ## What is printable is legible -/

namespace Lexeme

def AllLegible (ls : List Lexeme) : Prop :=
  ∀ l ∈ ls, l.Legible

@[simp] theorem allLegible_nil : AllLegible [] := by
  simp [AllLegible]

@[simp] theorem allLegible_cons {l : Lexeme} {ls : List Lexeme} :
    AllLegible (l :: ls) ↔ l.Legible ∧ AllLegible ls :=
  List.forall_mem_cons

@[simp] theorem allLegible_append {ls more : List Lexeme} :
    AllLegible (ls ++ more) ↔ AllLegible ls ∧ AllLegible more :=
  List.forall_mem_append

theorem AllLegible.separated {parts : List (List Lexeme)} (each : ∀ ls ∈ parts, AllLegible ls) :
    AllLegible (Lexeme.separated parts) := by
  induction parts with
  | nil => exact allLegible_nil
  | cons ls rest ih =>
    obtain ⟨first, others⟩ := List.forall_mem_cons.mp each
    cases rest with
    | nil => exact first
    | cons more rest => simp [Lexeme.separated, first, ih others]

theorem AllLegible.parenthesised {ls : List Lexeme} (legible : AllLegible ls) :
    AllLegible (Lexeme.parenthesised ls) := by
  simp [Lexeme.parenthesised, legible]

end Lexeme

open Lexeme (AllLegible)

namespace Expr

theorem legible_operand {e : Expr} (legible : AllLegible e.lexemes) :
    AllLegible (operandOf e.isCompound e.lexemes) := by
  rw [operandOf]
  split
  · exact legible.parenthesised
  · exact legible

theorem legible_separated {es : List Expr} (legible : ∀ e ∈ es, AllLegible e.lexemes) :
    AllLegible (Lexeme.separated (allLexemes es)) := by
  rw [allLexemes_eq]
  exact .separated (List.forall_mem_map.mpr legible)

theorem legible_integer (n : Int64) (span : Span) : AllLegible (integer n span).lexemes := by
  rw [lexemes]
  split
  · have digits : (.integer leastMagnitude : Lexeme).Legible :=
      .integer (by decide +kernel) (List.all_eq_true.mp (by decide +kernel))
    simp [digits]
  · exact List.forall_mem_singleton.mpr (.number _)

mutual

theorem legible (e : Expr) (printable : e.isPrintable false = true) : AllLegible e.lexemes := by
  obtain ⟨own, each⟩ := isPrintable_iff.mp printable
  cases e with
  | hole | real => cases own
  | name id => exact List.forall_mem_singleton.mpr (.name own)
  | integer n span => exact legible_integer n span
  | string value => exact List.forall_mem_singleton.mpr (.string own)
  | char text => exact List.forall_mem_singleton.mpr (.char own)
  | boolean value => exact List.forall_mem_singleton.mpr (.keyword _)
  | date value => exact List.forall_mem_singleton.mpr (.date own)
  | unary op operand =>
    have inner := legible_operand (legible operand (each operand (by simp [children])))
    cases op with
    | unknown => cases own
    | _ => simp [lexemes, UnaryOp.lexeme, inner]
  | binary op left right =>
    have onLeft := legible_operand (legible left (each left (by simp [children])))
    have onRight := legible_operand (legible right (each right (by simp [children])))
    cases op with
    | unknown => cases own
    | _ => simp [lexemes, BinaryOp.lexeme, onLeft, onRight]
  | call callee arguments =>
    have legible := allLegible arguments fun e member => each e (by simp [children, member])
    have isName := (isPrintable_iff.mp (each (.name callee) (by simp [children]))).1
    have listed := (legible_separated legible).parenthesised
    simp [lexemes, Lexeme.Legible.name isName, listed]

theorem allLegible (es : List Expr) (printable : ∀ e ∈ es, e.isPrintable false = true) :
    ∀ e ∈ es, AllLegible e.lexemes := by
  cases es with
  | nil => simp
  | cons e rest =>
    obtain ⟨first, others⟩ := List.forall_mem_cons.mp printable
    exact List.forall_mem_cons.mpr ⟨legible e first, allLegible rest others⟩

end

end Expr

theorem Param.legible {p : Param} (printable : p.isPrintable false = true) :
    AllLegible p.lexemes := by
  obtain ⟨-, isName, declared⟩ := isPrintable_iff.mp printable
  simp [lexemes, Lexeme.Legible.name isName, p.declared.legible declared]

theorem Param.allLegible {params : List Param}
    (printable : ∀ p ∈ params, p.isPrintable false = true) :
    AllLegible (allLexemes params) := by
  rw [allLexemes]
  split
  · exact Lexeme.allLegible_nil
  · exact .parenthesised (.separated (List.forall_mem_map.mpr fun p member =>
      legible (printable p member)))

namespace Stmt

mutual

theorem legible (s : Stmt) (printable : s.isPrintable false = true) : AllLegible s.lexemes := by
  obtain ⟨-, exprs, params, blocks⟩ := isPrintable_iff.mp printable
  have each (e : Expr) (member : e ∈ s.exprs) : AllLegible e.lexemes := e.legible (exprs e member)
  have name (id : Ident) (member : .name id ∈ s.exprs) : (Lexeme.identifier id.name).Legible :=
    each (.name id) member _ List.mem_cons_self
  cases s with
  | declare id declared =>
    simp [lexemes, name id (by simp [Stmt.exprs]), each declared (by simp [Stmt.exprs])]
  | constant id declared value =>
    simp [lexemes, name id (by simp [Stmt.exprs]), each declared (by simp [Stmt.exprs]),
      each value (by simp [Stmt.exprs])]
  | assign id value =>
    simp [lexemes, name id (by simp [Stmt.exprs]), each value (by simp [Stmt.exprs])]
  | output value => simp [lexemes, each value (by simp [Stmt.exprs])]
  | call id arguments =>
    cases arguments with
    | none => simp [lexemes, name id (by simp [Stmt.exprs])]
    | some arguments =>
      have listed := Expr.legible_separated fun e (member : e ∈ arguments) =>
        each e (by simp [Stmt.exprs, member])
      simp [lexemes, name id (by simp [Stmt.exprs]), listed.parenthesised]
  | returning value =>
    cases value with
    | none => simp [lexemes]
    | some value => simp [lexemes, each value (by simp [Stmt.exprs])]
  | ifThen condition body =>
    have block := legible_lines body (blocks body (by simp [Stmt.blocks]))
    simp [lexemes, each condition (by simp [Stmt.exprs]), block]
  | ifElse condition body more =>
    have block := legible_lines body (blocks body (by simp [Stmt.blocks]))
    have others := legible_lines more (blocks more (by simp [Stmt.blocks]))
    simp [lexemes, each condition (by simp [Stmt.exprs]), block, others]
  | forLoop id first last step body =>
    have block := legible_lines body (blocks body (by simp [Stmt.blocks]))
    have starts := each first (by simp [Stmt.exprs])
    have ends := each last (by simp [Stmt.exprs])
    cases step with
    | none => simp [lexemes, name id (by simp [Stmt.exprs]), starts, ends, block]
    | some step =>
      have steps := each step (by simp [Stmt.exprs])
      simp [lexemes, name id (by simp [Stmt.exprs]), starts, ends, steps, block]
  | whileLoop condition body | doWhile body condition =>
    have block := legible_lines body (blocks body (by simp [Stmt.blocks]))
    simp [lexemes, each condition (by simp [Stmt.exprs]), block]
  | procedure id ps body =>
    have block := legible_lines body (blocks body (by simp [Stmt.blocks]))
    have listed : AllLegible (Param.allLexemes ps) := Param.allLegible params
    simp [lexemes, name id (by simp [Stmt.exprs]), listed, block]
  | function id ps result body =>
    have block := legible_lines body (blocks body (by simp [Stmt.blocks]))
    have listed : AllLegible (Param.allLexemes ps) := Param.allLegible params
    simp [lexemes, name id (by simp [Stmt.exprs]), listed, each result (by simp [Stmt.exprs]),
      block]

theorem legible_lines (body : List Stmt) (printable : ∀ s ∈ body, s.isPrintable false = true) :
    AllLegible (lines body) := by
  cases body with
  | nil => simp [lines]
  | cons s rest =>
    obtain ⟨first, others⟩ := List.forall_mem_cons.mp printable
    simp [lines, legible s first, legible_lines rest others]

end

end Stmt

namespace Program

/-- What is read, but for its spans, is told by what the tokens say. -/
theorem ofTokens_unplaced {tokens : List Token} {stop : Token} {body : List Stmt}
    (isEnd : stop.isEnd = true) (notEnd : ∀ t ∈ tokens, t.isEnd = false) :
    ((ofTokens (tokens ++ [stop])).map Program.body).map (List.map Stmt.unplaced) = .ok body ↔
      Composes (Lexeme.tokens (tokens.map Token.lexeme)) body := by
  have same : (tokens ++ [stop]).map (Token.moved .nowhere) =
      Lexeme.tokens (tokens.map Token.lexeme) ++ [stop.moved .nowhere] := by
    rw [List.map_append, Lexeme.tokens, List.map_map]
    rfl
  have notEnd' : ∀ t ∈ Lexeme.tokens (tokens.map Token.lexeme), t.isEnd = false := by
    rw [Lexeme.tokens, List.map_map]
    exact List.forall_mem_map.mpr notEnd
  have isEnd' : (stop.moved .nowhere).isEnd = true := isEnd
  rw [← ofTokens_iff_composes isEnd' notEnd', ← same]
  cases isTokens : tokens ++ [stop] with
  | nil => simp at isTokens
  | cons t rest =>
    rw [ofTokens_moved .nowhere ⟨tokens, stop, isTokens.symm, isEnd, notEnd⟩]
    cases ofTokens (t :: rest) with
    | error e => simp [Except.map, Except.mapError]
    | ok p => rfl

theorem ofText_scanned {text : List Char} {tokens : List Token} {stop : Token} {body : List Stmt}
    (scanned : Token.scan text = .ok (tokens ++ [stop]))
    (composes : Composes (Lexeme.tokens (tokens.map Token.lexeme)) body) :
    ∃ p, ofText text = .ok p ∧ p.body.map Stmt.unplaced = body := by
  obtain ⟨tokens', all, notEnd⟩ := Token.scanFrom_closed scanned
  obtain ⟨rfl, isStop⟩ := List.append_singleton_inj.mp all
  have isEnd : stop.isEnd = true := by rw [isStop]; rfl
  have read := (ofTokens_unplaced isEnd notEnd).mpr composes
  have same : ofText text = ofTokens (tokens ++ [stop]) := by
    rw [ofText, scanned]
    rfl
  rw [same]
  cases isProgram : ofTokens (tokens ++ [stop]) with
  | error e => simp [isProgram, Except.map] at read
  | ok p =>
    rw [isProgram] at read
    exact ⟨p, rfl, Except.ok.inj read⟩

/-- A program that is written can be read again. -/
theorem ofBytes_rendered {p : Program} (printable : p.isPrintable false = true) :
    ∃ q, ofBytes p.rendered = .ok q ∧ q.body.map Stmt.unplaced = p.body.map Stmt.unplaced := by
  have legible : AllLegible (Stmt.lines p.body) := by
    refine Stmt.legible_lines p.body fun s member => ?_
    rw [isPrintable, nodes_eq, List.all_flatMap, List.all_eq_true] at printable
    exact printable s member
  obtain ⟨tokens, stop, scanned, same, -⟩ := Token.scans_ofLexemes legible .first
  have composes := composes printable
  rw [← same] at composes
  rw [ofBytes, rendered, Text.decode_utf8]
  exact ofText_scanned scanned composes

end Program

/-! ## What is read is printable -/

/-- The lexeme is spelled somewhere. -/
def Lexeme.Found (l : Lexeme) : Prop :=
  ∃ c cs later, l.Spelled c cs later

namespace Lexeme.Found

theorem name {name : String} (found : (identifier name).Found) : isName name = true := by
  obtain ⟨c, cs, later, spelled⟩ := found
  generalize isLexeme : identifier name = l at spelled
  cases spelled with
  | word starts each =>
    unfold ofWord at isLexeme
    split at isLexeme
    case h_1 => cases isLexeme
    case h_2 notKeyword =>
      obtain rfl := Lexeme.identifier.inj isLexeme
      simp only [isName, String.toList_ofList, notKeyword, starts, Bool.true_and,
        Option.isNone_none, Bool.and_true]
      exact List.all_eq_true.mpr each
  | _ => cases isLexeme

theorem string {body : String} (found : (Lexeme.string body).Found) :
    isQuotable '"' body = true := by
  obtain ⟨c, cs, later, spelled⟩ := found
  generalize isLexeme : Lexeme.string body = l at spelled
  cases spelled with
  | string inner =>
    obtain rfl := Lexeme.string.inj isLexeme
    simpa [isQuotable] using inner
  | word => unfold ofWord at isLexeme; split at isLexeme <;> cases isLexeme
  | _ => cases isLexeme

theorem char {body : String} (found : (Lexeme.char body).Found) : isQuotable '\'' body = true := by
  obtain ⟨c, cs, later, spelled⟩ := found
  generalize isLexeme : Lexeme.char body = l at spelled
  cases spelled with
  | char inner =>
    obtain rfl := Lexeme.char.inj isLexeme
    simpa [isQuotable] using inner
  | word => unfold ofWord at isLexeme; split at isLexeme <;> cases isLexeme
  | _ => cases isLexeme

end Lexeme.Found

/-- Every token but the end of the input is spelled in the text. -/
theorem Token.scanFrom_found {pos : Position} {cs : List Char} {tokens : List Token}
    (scanned : scanFrom pos cs = .ok tokens) :
    ∀ t ∈ tokens, t.isEnd = false → t.lexeme.Found := by
  replace scanned := scanFrom_scanned scanned
  induction scanned with
  | stop => simp [isEnd]
  | layout _ _ ih => exact ih
  | lexeme spelled _ ih =>
    refine List.forall_mem_cons.mpr ⟨fun _ => ?_, ih⟩
    unfold ofLexeme
    split <;> exact ⟨_, _, _, spelled⟩

theorem Literal.IsInteger.nonneg {digits : String} {n : Int64} (isInteger : IsInteger digits n) :
    0 ≤ n := by
  obtain ⟨k, -, same⟩ := isInteger
  rw [Int64.le_iff_toInt_le, same]
  exact Int.natCast_nonneg k

theorem isName_literalType {e : Expr} {type : String} (isType : e.literalType? = some type) :
    isName type = true := by
  fun_induction Expr.literalType? e with
  | case7 operand span ih => exact ih isType
  | case8 => cases isType
  | _ => cases isType; decide +kernel

/-- An expression of found lexemes is printable itself. -/
theorem Derives.isPrintable {k : Category} {ts : List Token} {e : Expr} (derives : Derives k ts e)
    (found : ∀ t ∈ ts, t.lexeme.Found) : (TreeNode.expr e).isPrintable true = true := by
  induction derives with
  | level _ ih | operand _ ih | primary _ ih => exact ih found
  | parens _ _ _ ih => exact ih fun t member => found t (by simp [member])
  | binary _ isOperator => exact isOperator.isKnown
  | integer _ isInteger => simp [TreeNode.isPrintable, isInteger.nonneg]
  | @string t body isHere => exact (isHere ▸ found t (by simp)).string
  | @char t body isHere => exact (isHere ▸ found t (by simp)).char
  | @name t name isHere => exact (isHere ▸ found t (by simp)).name
  | date _ isDate =>
    obtain rfl := Literal.isDate_iff.mp isDate
    exact Literal.date_fits _
  | _ => rfl

theorem TreeNode.Stands.isPrintable {n : TreeNode} {ts : List Token} (stands : n.Stands ts)
    (found : ∀ t ∈ ts, t.lexeme.Found) : n.isPrintable true = true := by
  cases stands with
  | expr derives => exact derives.isPrintable found
  | implied _ _ isType => exact isName_literalType isType
  | param takes => cases takes <;> rfl
  | stmt forms => cases forms <;> rfl

namespace Program

/-- Whatever is read can be written, but for its real literals. -/
theorem ofBytes_isPrintable {source : List UInt8} {p : Program} (parsed : ofBytes source = .ok p) :
    p.isPrintable true = true := by
  obtain ⟨ts, stop, scanned, -, notEnd, composes⟩ := ofText_composes parsed
  refine List.all_eq_true.mpr fun n member => ?_
  obtain ⟨us, inside, stands⟩ := composes.within n member
  refine stands.isPrintable fun t isHere => ?_
  have isToken := inside.subset isHere
  exact Token.scanFrom_found scanned t (List.mem_append_left _ isToken) (notEnd t isToken)

/-- Reading undoes writing, and what is read can be written again but for its real literals. -/
theorem reading_undoes_writing :
    (∀ p : Program, p.isPrintable false = true →
      ∃ q, ofBytes p.rendered = .ok q ∧ q.body.map Stmt.unplaced = p.body.map Stmt.unplaced) ∧
    ∀ (source : List UInt8) (q : Program), ofBytes source = .ok q → q.isPrintable true = true :=
  ⟨fun _ printable => ofBytes_rendered printable, fun _ _ parsed => ofBytes_isPrintable parsed⟩

namespace Sample

/-- A procedure with a loop of each kind in another, a call with and one without parentheses, and
the least integer as an operand. -/
def nested : Program where
  span := .zero
  body :=
    let name (text : String) : Ident := ⟨text, .zero⟩
    let named (text : String) : Expr := .name (name text)
    let number (n : Int64) : Expr := .integer n .zero
    let least := Expr.binary .subtract (named "x") (number Int64.minValue) .zero
    let test := Expr.unary .not (.binary .lessEqual least (.date ⟨2024, 2, 31⟩ .zero) .zero) .zero
    let params : List Param :=
      [⟨name "x", named "INTEGER", true, .zero⟩, ⟨name "c", named "CHAR", false, .zero⟩]
    let inner := Stmt.whileLoop test [.call (name "p") (some []) .zero] .zero
    let outer := Stmt.doWhile [inner, .call (name "q") none .zero] (.boolean true .zero) .zero
    let branch := Stmt.ifElse (.char "\"" .zero) [] [outer] .zero
    [.procedure (name "p") params
      [.forLoop (name "i") (number 1) (number 9) (some (.unary .negate (number 2) .zero)) [branch]
        .zero] .zero]

end Sample

theorem reading_undoes_writing_nested : Sample.nested.isPrintable false = true ∧
    ∃ q, ofBytes Sample.nested.rendered = .ok q ∧
      q.body.map Stmt.unplaced = Sample.nested.body.map Stmt.unplaced ∧
      q.isPrintable true = true := by
  have printable : Sample.nested.isPrintable false = true := by decide +kernel
  obtain ⟨q, parsed, same⟩ := reading_undoes_writing.1 _ printable
  exact ⟨printable, q, parsed, same, reading_undoes_writing.2 _ q parsed⟩

end Program

end Pseudocode
