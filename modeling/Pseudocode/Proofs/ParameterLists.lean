import Pseudocode.Proofs.Rendering

/-! # Lists of parameters

A list of parameters is read wherever it is written, whatever follows it, and nowhere else. A marker
in front of a parameter counts for this parameter and for those after it, up to the next marker. -/

namespace Pseudocode

inductive PassingMark where
  | byRef | ref | byVal
  deriving Repr, DecidableEq

namespace PassingMark

def word : PassingMark → Keyword
  | byRef => .byRef
  | ref => .ref
  | byVal => .byVal

def asksRef : PassingMark → Bool
  | byRef | ref => true
  | byVal => false

theorem ofLexeme?_word (mark : PassingMark) :
    Parser.Marker.ofLexeme? (.keyword mark.word) = some mark.asksRef := by
  cases mark <;> rfl

theorem of_ofLexeme? {l : Lexeme} {byRef : Bool} (marks : Parser.Marker.ofLexeme? l = some byRef) :
    ∃ mark : PassingMark, l = .keyword mark.word := by
  unfold Parser.Marker.ofLexeme? at marks
  split at marks
  · exact ⟨.byRef, rfl⟩
  · exact ⟨.ref, rfl⟩
  · exact ⟨.byVal, rfl⟩
  · cases marks

end PassingMark

/-! ## Written parameters -/

structure WrittenParam where
  mark : Option PassingMark
  name : String
  type : String
  deriving Repr, DecidableEq

namespace WrittenParam

def lexemes (w : WrittenParam) : List Lexeme :=
  (w.mark.map fun mark => .keyword mark.word).toList ++
    [.identifier w.name, .symbol .colon, .identifier w.type]

def listed (ws : List WrittenParam) : List Lexeme :=
  Lexeme.parenthesised (Lexeme.separated (ws.map lexemes))

/-- The last marker up to the parameter number `i`. -/
def markAt? (ws : List WrittenParam) (i : Nat) : Option PassingMark :=
  ((ws.take (i + 1)).filterMap mark).getLast?

/-- What is read for a written parameter, after one that is passed `byRef` or not. -/
structure Gives (byRef : Bool) (w : WrittenParam) (p : Param) : Prop where
  name : p.name.name = w.name
  type : ∃ span, p.declared = .name ⟨w.type, span⟩
  passed : p.byRef = (w.mark.map PassingMark.asksRef).getD byRef

/-- What is read for the written parameters, each after the one before it. -/
inductive GivesAll : Bool → List WrittenParam → List Param → Prop where
  | nil {byRef} : GivesAll byRef [] []
  | cons {byRef w ws p ps} : Gives byRef w p → GivesAll p.byRef ws ps →
      GivesAll byRef (w :: ws) (p :: ps)

variable {byRef : Bool} {w : WrittenParam} {ws : List WrittenParam} {p : Param} {ps : List Param}

theorem GivesAll.length_eq (gives : GivesAll byRef ws ps) : ps.length = ws.length := by
  induction gives with
  | nil => rfl
  | cons _ _ ih => rw [List.length_cons, List.length_cons, ih]

/-- The last marker up to a parameter tells how it is passed. -/
theorem GivesAll.each (gives : GivesAll byRef ws ps) {i : Nat} (written : ws[i]? = some w)
    (found : ps[i]? = some p) :
    p.name.name = w.name ∧ (∃ span, p.declared = .name ⟨w.type, span⟩) ∧
      p.byRef = ((markAt? ws i).map PassingMark.asksRef).getD byRef := by
  induction gives generalizing i with
  | nil => cases found
  | @cons byRef v ws q ps first _ ih =>
    cases i with
    | zero =>
      cases written
      cases found
      refine ⟨first.name, first.type, first.passed.trans ?_⟩
      cases isMark : w.mark <;> simp [markAt?, isMark]
    | succ i =>
      obtain ⟨name, type, passed⟩ := ih written found
      have marks : markAt? (v :: ws) (i + 1) = (markAt? ws i).or v.mark := by
        unfold markAt?
        rw [List.take_succ_cons, List.filterMap_cons]
        cases v.mark with
        | none => simp
        | some mark => rw [List.getLast?_cons]; cases List.getLast? _ <;> rfl
      refine ⟨name, type, ?_⟩
      rw [marks, passed, first.passed]
      cases markAt? ws i <;> rfl

/-! ## Their tokens -/

variable {ts : List Token}

theorem takes (same : ts.map Token.lexeme = w.lexemes) (byRef : Bool) :
    ∃ p, Takes byRef ts p ∧ w.Gives byRef p := by
  obtain ⟨mark, name, type⟩ := w
  cases mark with
  | none =>
    obtain ⟨t, _, rfl, isName, same⟩ := List.map_eq_cons_iff.mp same
    obtain ⟨u, _, rfl, isColon, same⟩ := List.map_eq_cons_iff.mp same
    obtain ⟨v, rfl, isType⟩ := List.map_eq_singleton_iff.mp same
    exact ⟨_, .unmarked isName isColon isType, rfl, ⟨_, rfl⟩, rfl⟩
  | some mark =>
    obtain ⟨m, _, rfl, isMark, same⟩ := List.map_eq_cons_iff.mp same
    obtain ⟨t, _, rfl, isName, same⟩ := List.map_eq_cons_iff.mp same
    obtain ⟨u, _, rfl, isColon, same⟩ := List.map_eq_cons_iff.mp same
    obtain ⟨v, rfl, isType⟩ := List.map_eq_singleton_iff.mp same
    have marks : Parser.Marker.ofLexeme? m.lexeme = some mark.asksRef := by
      rw [isMark, mark.ofLexeme?_word]
    exact ⟨_, .marked marks isName isColon isType, rfl, ⟨_, rfl⟩, rfl⟩

theorem takesAll {parts : List (List Token)}
    (same : parts.map (List.map Token.lexeme) = ws.map lexemes) (byRef : Bool) :
    ∃ taken : List (List Token × Param), taken.map Prod.fst = parts ∧ TakesAll byRef taken ∧
      GivesAll byRef ws (taken.map Prod.snd) := by
  induction ws generalizing parts byRef with
  | nil =>
    obtain rfl := List.map_eq_nil_iff.mp same
    exact ⟨[], rfl, trivial, .nil⟩
  | cons w ws ih =>
    obtain ⟨ts, parts, rfl, first, later⟩ := List.map_eq_cons_iff.mp same
    obtain ⟨p, takes, gives⟩ := w.takes first byRef
    obtain ⟨taken, rfl, takesAll, all⟩ := ih later p.byRef
    exact ⟨(ts, p) :: taken, rfl, ⟨takes, takesAll⟩, .cons gives all⟩

theorem of_takes (takes : Takes byRef ts p) :
    ∃ w : WrittenParam, ts.map Token.lexeme = w.lexemes := by
  cases takes with
  | @marked _ _ _ _ _ name type isMarker isName isColon isType =>
    obtain ⟨mark, isMark⟩ := PassingMark.of_ofLexeme? isMarker
    exact ⟨⟨some mark, name, type⟩, by simp [lexemes, isMark, isName, isColon, isType]⟩
  | @unmarked _ _ _ name type isName isColon isType =>
    exact ⟨⟨none, name, type⟩, by simp [lexemes, isName, isColon, isType]⟩

theorem of_takesAll {taken : List (List Token × Param)} (takes : TakesAll byRef taken) :
    ∃ ws : List WrittenParam, (taken.map Prod.fst).map (List.map Token.lexeme) = ws.map lexemes := by
  induction taken generalizing byRef with
  | nil => exact ⟨[], rfl⟩
  | cons part taken ih =>
    obtain ⟨w, first⟩ := of_takes takes.1
    obtain ⟨ws, later⟩ := ih takes.2
    exact ⟨w :: ws, congrArg₂ List.cons first later⟩

end WrittenParam

theorem Separated.map_lexeme {parts : List (List Token)} {ts : List Token}
    (separated : Separated parts ts) :
    ts.map Token.lexeme = Lexeme.separated (parts.map (List.map Token.lexeme)) := by
  induction separated with
  | nil => rfl
  | one => rfl
  | cons isComma _ ih => simpa [Lexeme.separated, isComma] using ih

theorem Lexeme.separated_split {ls : List (List Lexeme)} {ts : List Token}
    (same : ts.map Token.lexeme = separated ls) :
    ∃ parts, Separated parts ts ∧ parts.map (List.map Token.lexeme) = ls := by
  fun_induction separated ls generalizing ts with
  | case1 =>
    obtain rfl := List.map_eq_nil_iff.mp same
    exact ⟨[], .nil, rfl⟩
  | case2 ls => exact ⟨[ts], .one, congrArg (fun ls => [ls]) same⟩
  | case3 ls more rest ih =>
    obtain ⟨us, _, rfl, first, same⟩ := List.map_eq_append_iff.mp same
    obtain ⟨t, vs, rfl, isComma, later⟩ := List.map_eq_cons_iff.mp same
    obtain ⟨parts, separated, all⟩ := ih later
    obtain ⟨part, parts, rfl, -⟩ := List.map_eq_cons_iff.mp all
    exact ⟨us :: part :: parts, .cons isComma separated, congrArg₂ List.cons first all⟩

namespace Parser

open WrittenParam

variable {c : Cursor}

/-- A list of parameters is read exactly where one is written, and it is all that is read. There is one
parameter for each that is written, with its name and its type, and it is passed by reference if the
last marker up to it asks for that. -/
theorem parameters_sticky (closed : c.Closed) (isLeft : c.here.lexeme = .symbol .leftParen) :
    (∀ ws ts d, ts.map Token.lexeme = listed ws → c.Walks ts d → ∃ ps,
      parameters.run c = .ok (ps, d) ∧ ps.length = ws.length ∧
      ∀ i w p, ws[i]? = some w → ps[i]? = some p →
        p.name.name = w.name ∧ (∃ span, p.declared = .name ⟨w.type, span⟩) ∧
          (p.byRef = true ↔ ∃ mark ∈ markAt? ws i, mark = .byRef ∨ mark = .ref)) ∧
    ∀ ps d, parameters.run c = .ok (ps, d) →
      ∃ ws ts, ts.map Token.lexeme = listed ws ∧ c.Walks ts d := by
  constructor
  · intro ws ts d same walks
    obtain ⟨_, us, rfl, opened, closes⟩ := List.map_eq_append_iff.mp same
    obtain ⟨_, inner, rfl, isOpened, isInner⟩ := List.map_eq_append_iff.mp opened
    obtain ⟨t, rfl, isLeft⟩ := List.map_eq_singleton_iff.mp isOpened
    obtain ⟨u, rfl, isRight⟩ := List.map_eq_singleton_iff.mp closes
    obtain ⟨parts, separated, all⟩ := Lexeme.separated_split isInner
    obtain ⟨taken, rfl, takes, gives⟩ := takesAll all false
    have reaches := listed_reaches isLeft separated takes isRight walks
    refine ⟨_, reaches.run fun error failed => ?_, gives.length_eq, fun i w p written found => ?_⟩
    · have reads := parameters_reads closed
      unfold Reads Yields at reads
      rw [failed] at reads
      exact reads.1
    · obtain ⟨name, type, passed⟩ := gives.each written found
      refine ⟨name, type, ?_⟩
      rw [passed]
      cases markAt? ws i with
      | none => simp
      | some mark => cases mark <;> simp [PassingMark.asksRef]
  · intro ps d ran
    obtain ⟨ts, walks, takes, other⟩ := (parameters_delivers closed).ok ran
    cases takes with
    | none => exact absurd (walks ▸ isLeft) (other rfl)
    | listed isLeft separated takes isRight =>
      obtain ⟨ws, all⟩ := of_takesAll takes
      refine ⟨ws, _, ?_, walks⟩
      simp [listed, Lexeme.parenthesised, ← all, separated.map_lexeme, isLeft, isRight]

/-- `(a : REAL, REF b : REAL, c : REAL, BYVAL d : REAL, e : REAL)` and what comes after it. -/
theorem parameters_sticky_mixed :
    let ws : List WrittenParam := [⟨none, "a", "REAL"⟩, ⟨some .ref, "b", "REAL"⟩,
      ⟨none, "c", "REAL"⟩, ⟨some .byVal, "d", "REAL"⟩, ⟨none, "e", "REAL"⟩]
    let token (l : Lexeme) : Token := ⟨l, .first, .first⟩
    let c : Cursor := ⟨token .endOfLine, token (.symbol .leftParen),
      ((listed ws).tail ++ [Lexeme.endOfLine, Lexeme.endOfInput]).map token⟩
    c.Closed ∧ c.here.lexeme = .symbol .leftParen ∧
      ∃ ps d, parameters.run c = .ok (ps, d) ∧ ps.length = 5 ∧
        ∀ i p, ps[i]? = some p → (p.byRef = true ↔ i = 1 ∨ i = 2) := by
  intro ws token c
  have closed : c.Closed :=
    ⟨(listed ws).map token ++ [token .endOfLine], token .endOfInput, rfl, rfl, by decide⟩
  have all : c.tokens = (listed ws).map token ++ [token .endOfLine, token .endOfInput] := rfl
  obtain ⟨d, walks⟩ := Cursor.exists_walks all (by simp)
  obtain ⟨ps, ran, length, each⟩ := (parameters_sticky closed rfl).1 ws _ d rfl walks
  have marks : ∀ i, i < 5 →
      ((∃ mark ∈ markAt? ws i, mark = .byRef ∨ mark = .ref) ↔ i = 1 ∨ i = 2) := by decide
  refine ⟨closed, rfl, ps, d, ran, length, fun i p found => ?_⟩
  have inside : i < ws.length := length ▸ (List.getElem?_eq_some_iff.mp found).1
  obtain ⟨-, -, passed⟩ := each i ws[i] p (List.getElem?_eq_getElem inside) found
  exact passed.trans (marks i inside)

end Parser

end Pseudocode
