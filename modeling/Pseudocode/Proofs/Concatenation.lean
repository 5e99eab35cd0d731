import Pseudocode.Proofs.Encoding
import Pseudocode.Proofs.PairedStatements
import Pseudocode.Proofs.Scanning

/-! # Sources one after the other

When a source is continued after its last line, the parser goes on as it did before until it meets
the place where the source used to end. There it has read whole statements, or else it complained
about the end of the input. -/

namespace Pseudocode

theorem Lexeme.ne_endOfLine {l : Lexeme} (inner : l.endsLine = false) : l ≠ .endOfLine := by
  rintro rfl
  cases inner

theorem Cursor.skipped_skipped (c : Cursor) : c.skipped.skipped = c.skipped := by
  obtain ⟨last, here, rest⟩ := c
  unfold skipped
  induction rest generalizing last here with
  | nil => rfl
  | cons t rest ih =>
    rw [skipLineEnds]
    split
    case isTrue => exact ih here t
    case isFalse other =>
      dsimp only
      rw [skipLineEnds, if_neg other]

theorem Cursor.skipped_next (c : Cursor) (isLine : c.here.lexeme = .endOfLine) :
    c.next.skipped = c.skipped := by
  obtain ⟨last, here, rest⟩ := c
  cases rest with
  | nil => rfl
  | cons t rest => exact (if_pos isLine).symm

theorem Cursor.skipped_self {c : Cursor} (other : c.here.lexeme ≠ .endOfLine) : c.skipped = c := by
  obtain ⟨last, here, rest⟩ := c
  cases rest with
  | nil => rfl
  | cons t rest => exact if_neg other

namespace BlockPairing

variable {S : BlockPairing} {c c' d d' : Cursor}

variable (S) in
/-- The program on the right begins with the statements of the program on the left and goes on where
that one has stopped, or there are failures that go together. -/
inductive Resumes : Except SyntaxError (List Stmt × Cursor) →
    Except SyntaxError (List Stmt × Cursor) → Prop where
  | ok {body body' stop d d' n} : S.AllAlike body body' → S.stopped d d' →
      Resumes (.ok (body, stop))
        (((Parser.block n .input).run d').map fun more => (body' ++ more.1, more.2))
  | error {e r} : S.tolerates e (failure? r) → Resumes (.error e) r
  | deepLeft {e r} : e.cause = .nestedTooDeep → Resumes (.error e) r
  | deepRight {e r} : e.cause = .nestedTooDeep → Resumes r (.error e)

theorem block_skipped (n : Nat) (ending : Ending) (c : Cursor) :
    (Parser.block (n + 1) ending).run c.skipped = (Parser.block (n + 1) ending).run c := by
  rw [Parser.block, StateT.run_bind, StateT.run_bind, skipLineEnds_run, skipLineEnds_run,
    c.skipped_skipped]

theorem input_run_of_isEnd {n : Nat} (isEnd : c.skipped.here.isEnd = true) :
    (Parser.block (n + 1) .input).run c = .ok ([], c.skipped) := by
  rw [Parser.block, StateT.run_bind, skipLineEnds_run]
  change StateT.run (if c.skipped.here.isEnd = true then _ else _) c.skipped = _
  rw [if_pos isEnd]
  rfl

/-- At the start of a statement a block is that statement and the rest. -/
theorem block_run {n : Nat} {ending : Ending} (more : c.skipped.here.isEnd = false)
    (goes : ending.reached c.skipped = false) : (Parser.block (n + 1) ending).run c =
      (Parser.statementWith (Parser.block n)).run c.skipped >>= fun first =>
        ((Parser.block n ending).run first.2).map fun rest => (first.1 :: rest.1, rest.2) := by
  rw [Parser.block, StateT.run_bind, skipLineEnds_run]
  change StateT.run (if c.skipped.here.isEnd = true then _ else _) c.skipped = _
  simp only [more, goes, Bool.false_eq_true, if_false]
  rw [StateT.run_bind]
  refine congrArg _ (funext fun first => ?_)
  rw [StateT.run_bind]
  cases (Parser.block n ending).run first.2 <;> rfl

theorem Resumes.cons {x y : Except SyntaxError (List Stmt × Cursor)} (rest : S.Resumes x y)
    {first first' : Stmt} (firsts : S.Alike first first') :
    S.Resumes (x.map fun rest => (first :: rest.1, rest.2))
      (y.map fun rest => (first' :: rest.1, rest.2)) := by
  cases rest with
  | deepLeft deep => exact .deepLeft deep
  | deepRight deep => exact .deepRight deep
  | error tolerated =>
    refine .error ?_
    cases y <;> exact tolerated
  | @ok body body' stop d d' m bodies stopped =>
    have alike : S.AllAlike (first :: body) (first' :: body') := by
      simp only [AllAlike, Stmt.allMoved, firsts, bodies]
    have longer : S.Resumes (.ok (first :: body, stop)) (((Parser.block m .input).run d').map
        fun more => (first' :: body' ++ more.1, more.2)) := .ok alike stopped
    cases ran : (Parser.block m .input).run d' <;> rw [ran] at longer <;> exact longer

theorem resumes (n n' : Nat) (gap : S.gap c c') :
    S.Resumes ((Parser.block n .input).run c) ((Parser.block n' .input).run c') := by
  induction n generalizing n' c c' with
  | zero => exact .deepLeft rfl
  | succ n ih =>
  cases n' with
  | zero => exact .deepRight rfl
  | succ n' =>
    rcases S.skip gap with starts | stopped
    · obtain ⟨more, more'⟩ := isEnd_eq starts
      rw [block_run more rfl, block_run more' rfl]
      have statement := statementWith starts fun _ closing _ _ => block n n' closing
      unfold Pairing.Agrees at statement
      generalize (Parser.statementWith (Parser.block n)).run c.skipped = x at statement ⊢
      generalize (Parser.statementWith (Parser.block n')).run c'.skipped = y at statement ⊢
      cases statement with
      | ok firsts gap => exact (ih n' gap).cons firsts
      | deepLeft deep => exact .deepLeft deep
      | deepRight deep => exact .deepRight deep
      | error tolerated =>
        cases y with
        | ok result => exact .error (S.absorbs _ tolerated)
        | error e => exact .error tolerated
    · have goes : (Parser.block (n' + 1) .input).run c' =
          ((Parser.block (n' + 1) .input).run c'.skipped).map fun more =>
            ([] ++ more.1, more.2) := by
        rw [block_skipped]
        cases (Parser.block (n' + 1) .input).run c' <;> rfl
      rw [input_run_of_isEnd (S.stopped_left stopped), goes]
      exact .ok rfl stopped

end BlockPairing

/-! ## Where one source ends and goes on in the other -/

/-- The last token of a source, and what stands in its place when the source goes on: perhaps the end
of a line, and the tokens of the following lines. -/
structure Junction where
  stop : Token
  mark : Option Token
  first : Token
  rest : List Token
  isEnd : stop.isEnd = true
  isMark : ∀ t, mark = some t → t.lexeme = .endOfLine ∧ t.start = stop.start

namespace Junction

variable (J : Junction)

def tail : List Token :=
  J.mark.toList ++ J.first :: J.rest

/-- The line of the last token ends where the source goes on. -/
def LineEnded (body : List Token) : Prop :=
  J.mark.isSome = true ∨ ∃ t, body.getLast? = some t ∧ t.lexeme = .endOfLine

/-- The cursors are at the same token, or where the source ends. -/
inductive Line : Cursor → Cursor → Prop where
  | same {last t body} : (∀ u ∈ t :: body, Token.isEnd u = false) → J.LineEnded (t :: body) →
      Line ⟨last, t, body ++ [J.stop]⟩ ⟨last, t, body ++ J.tail⟩
  | ends {last t} : J.mark = some t →
      Line ⟨last, J.stop, []⟩ ⟨last, t, J.first :: J.rest⟩

/-- The same, or the line has been left. What was read before does not matter then. -/
inductive Gap : Cursor → Cursor → Prop where
  | line {c c'} : Line J c c' → Gap c c'
  | ends {last last' t} : J.mark = some t →
      Gap ⟨last, J.stop, []⟩ ⟨last', t, J.first :: J.rest⟩
  | crossed {last last'} : Gap ⟨last, J.stop, []⟩ ⟨last', J.first, J.rest⟩

/-- The source is at its end, and the other one is at its next statement. -/
inductive Stopped : Cursor → Cursor → Prop where
  | intro {last last'} : Stopped ⟨last, J.stop, []⟩ (Cursor.skipped ⟨last', J.first, J.rest⟩)

variable {J} {c c' : Cursor}

theorem LineEnded.tail {t : Token} {body : List Token} (lineEnded : J.LineEnded (t :: body))
    (inner : t.lexeme ≠ .endOfLine) : J.LineEnded body := by
  rcases lineEnded with some | ⟨u, last, isMark⟩
  · exact .inl some
  · cases body with
    | nil =>
      cases last
      exact absurd isMark inner
    | cons v body => exact .inr ⟨u, last, isMark⟩

theorem stop_endsLine (J : Junction) : J.stop.lexeme.endsLine = true := by
  have isEnd : J.stop.lexeme = .endOfInput := of_decide_eq_true J.isEnd
  rw [isEnd]
  rfl

theorem mark_endsLine {t : Token} (isMark : J.mark = some t) : t.lexeme.endsLine = true := by
  rw [(J.isMark t isMark).1]
  rfl

theorem Line.next (line : J.Line c c') (inner : c.here.lexeme.endsLine = false) :
    J.Line c.next c'.next := by
  cases line with
  | @same last t body notEnd lineEnded =>
    have lineEnded := lineEnded.tail (Lexeme.ne_endOfLine inner)
    cases body with
    | nil =>
      rcases lineEnded with some | ⟨u, last, -⟩
      · obtain ⟨u, isMark⟩ := Option.isSome_iff_exists.mp some
        unfold Junction.tail
        rw [isMark]
        exact .ends isMark
      · cases last
    | cons u body => exact .same (fun v member => notEnd v (.tail _ member)) lineEnded
  | ends =>
    rw [J.stop_endsLine] at inner
    cases inner

/-- The lines end with the same token. -/
theorem lastOfLine_eq {body : List Token} (lineEnded : J.LineEnded body) (last : Token)
    (notEnd : ∀ t ∈ body, t.isEnd = false) :
    Cursor.lastOfLine last (body ++ J.tail) = Cursor.lastOfLine last (body ++ [J.stop]) := by
  induction body generalizing last with
  | nil =>
    rcases lineEnded with some | ⟨t, last, -⟩
    · obtain ⟨t, isMark⟩ := Option.isSome_iff_exists.mp some
      simp [tail, isMark, Cursor.lastOfLine, (J.isMark t isMark).1, J.isEnd]
    · cases last
  | cons t body ih =>
    have inner := notEnd t List.mem_cons_self
    by_cases isMark : t.lexeme = .endOfLine
    · simp [Cursor.lastOfLine, isMark]
    · simp only [List.cons_append, Cursor.lastOfLine, isMark, inner, decide_false, Bool.or_self,
        Bool.false_eq_true, if_false]
      exact ih (lineEnded.tail isMark) t fun u member => notEnd u (.tail _ member)

def pairing (J : Junction) : Pairing where
  left := id
  right := id
  line := J.Line
  ends t t' := t = J.stop ∧ J.mark = some t'
  tolerates e r := e.incomplete = true ∨ r = some e
  here line := by
    cases line with
    | same => exact .inl rfl
    | ends isMark => exact .inr ⟨rfl, isMark⟩
  last line := by cases line <;> rfl
  next := Line.next
  ends_left ends := ends.1 ▸ J.stop_endsLine
  ends_right ends := mark_endsLine ends.2
  ends_start ends := by
    rw [ends.1]
    exact ((J.isMark _ ends.2).2).symm
  same {t t'} cause same := by
    obtain rfl : t = t' := same
    exact .inr rfl
  different cause cause' ends := .inl (ends.1 ▸ J.isEnd)
  absorbs r tolerated := .inl (tolerated.resolve_right nofun)

theorem endOfLine_of_inner {t : Token} (endsLine : t.lexeme.endsLine = true)
    (inner : t.isEnd = false) : t.lexeme = .endOfLine := by
  refine (Lexeme.endsLine_iff.mp endsLine).resolve_right fun isEnd => ?_
  rw [Token.isEnd, isEnd] at inner
  cases inner

theorem Line.leave (line : J.Line c c') (endsLine : c.here.lexeme.endsLine = true) :
    J.Gap c.afterLine c'.afterLine := by
  cases line with
  | ends isMark =>
    have isEnd : J.stop.lexeme = .endOfInput := of_decide_eq_true J.isEnd
    simp only [Cursor.afterLine, isEnd, (J.isMark _ isMark).1, reduceCtorEq, if_false, if_true]
    exact .crossed
  | @same last t body notEnd lineEnded =>
    have isLine : t.lexeme = .endOfLine :=
      endOfLine_of_inner endsLine (notEnd t List.mem_cons_self)
    simp only [Cursor.afterLine, isLine, if_true]
    cases body with
    | cons u body =>
      have lineEnded : J.LineEnded (u :: body) := lineEnded
      exact .line (.same (fun v member => notEnd v (.tail _ member)) lineEnded)
    | nil =>
      cases isMark : J.mark with
      | none =>
        simp only [tail, isMark, Option.toList_none, List.nil_append]
        exact .crossed
      | some u =>
        simp only [tail, isMark, Option.toList_some]
        exact .line (.ends isMark)

theorem Line.starts (line : J.Line c c') (inner : c.here.lexeme.endsLine = false) :
    J.pairing.Starts c c' := by
  refine ⟨Pairing.line_stands (S := J.pairing) line, inner, ?_⟩
  cases line with
  | @same last t body notEnd lineEnded =>
    have lineEnded := lineEnded.tail (Lexeme.ne_endOfLine inner)
    dsimp only
    rw [lastOfLine_eq lineEnded t fun u member => notEnd u (.tail _ member)]
  | ends =>
    rw [J.stop_endsLine] at inner
    cases inner

theorem Gap.skip (gap : J.Gap c c') :
    J.pairing.Starts c.skipped c'.skipped ∨ J.Stopped c.skipped c'.skipped := by
  induction left : c.rest generalizing c c' with
  | nil =>
    have ended {last last' t : Token} (isMark : J.mark = some t) :
        J.Stopped (Cursor.skipped ⟨last, J.stop, []⟩)
          (Cursor.skipped ⟨last', t, J.first :: J.rest⟩) := by
      rw [← Cursor.skipped_next ⟨last', t, J.first :: J.rest⟩ (J.isMark t isMark).1]
      exact .intro
    cases gap with
    | crossed => exact .inr .intro
    | ends isMark => exact .inr (ended isMark)
    | line line =>
      cases line with
      | same => simp at left
      | ends isMark => exact .inr (ended isMark)
  | cons u rest ih =>
    cases gap with
    | crossed | ends => cases left
    | line line =>
      cases endsLine : c.here.lexeme.endsLine with
      | false =>
        have starts := line.starts endsLine
        have same := Pairing.lexeme_eq (starts.stands.same endsLine)
        have other := Lexeme.ne_endOfLine endsLine
        rw [Cursor.skipped_self other, Cursor.skipped_self (same ▸ other)]
        exact .inl starts
      | true =>
        have gap := line.leave endsLine
        cases line with
        | ends => cases left
        | @same last t body notEnd lineEnded =>
          have isLine : t.lexeme = .endOfLine :=
            endOfLine_of_inner endsLine (notEnd t List.mem_cons_self)
          simp only [Cursor.afterLine, isLine, if_true] at gap
          rw [← Cursor.skipped_next ⟨last, t, body ++ [J.stop]⟩ isLine,
            ← Cursor.skipped_next ⟨last, t, body ++ J.tail⟩ isLine]
          refine ih gap ?_
          dsimp only at left
          simp only [Cursor.next, left]

/-- Reading a source and one that goes on after it. -/
def blocks (J : Junction) : BlockPairing where
  toPairing := J.pairing
  gap := J.Gap
  stopped := J.Stopped
  line_gap := .line
  leave := Line.leave
  skip := Gap.skip
  stopped_left stopped := by
    cases stopped
    exact J.isEnd
  stopped_right stopped := by
    cases stopped
    exact .inr fun _ _ => .inl J.isEnd

end Junction

/-! ## The same source at another place -/

namespace Cursor

variable (f : Position → Position)

def moved (c : Cursor) : Cursor :=
  ⟨c.last.moved f, c.here.moved f, c.rest.map (Token.moved f)⟩

/-- The tokens from the second cursor on are those from the first one on, moved. -/
structure Follows (c c' : Cursor) : Prop where
  closed : c.Closed
  here : c'.here = c.here.moved f
  rest : c'.rest = c.rest.map (Token.moved f)

variable {f} {c c' : Cursor}

theorem lastOfLine_moved (last : Token) (rest : List Token) :
    lastOfLine (last.moved f) (rest.map (Token.moved f)) = (lastOfLine last rest).moved f := by
  induction rest generalizing last with
  | nil => rfl
  | cons t rest ih =>
    change (if (decide (t.lexeme = .endOfLine) || t.isEnd) = true then last.moved f
      else lastOfLine (t.moved f) (rest.map (Token.moved f))) = Token.moved f
        (if (decide (t.lexeme = .endOfLine) || t.isEnd) = true then last else lastOfLine t rest)
    rw [ih t, apply_ite (Token.moved f)]

theorem Follows.next (follows : Follows f c c') (inner : c.here.isEnd = false) :
    c'.next = c.next.moved f := by
  have more := follows.closed.rest_ne_nil inner
  obtain ⟨last, here, rest⟩ := c
  obtain ⟨last', here', rest'⟩ := c'
  obtain ⟨-, rfl, rfl⟩ := follows
  cases rest with
  | nil => exact absurd rfl more
  | cons t rest => rfl

theorem Closed.next (closed : c.Closed) (inner : c.here.isEnd = false) : c.next.Closed := by
  have all := closed.tokens_next inner
  exact closed.of_append (show c.tokens = [c.here] ++ c.next.tokens from all)

theorem Follows.of_next (follows : Follows f c c') (inner : c.here.isEnd = false) :
    Follows f c.next c'.next := by
  rw [follows.next inner]
  exact ⟨follows.closed.next inner, rfl, rfl⟩

theorem Closed.moved_next (closed : c.Closed) (inner : c.here.isEnd = false) :
    c.next.Closed ∧ (c.moved f).next = c.next.moved f :=
  ⟨closed.next inner, Follows.next ⟨closed, rfl, rfl⟩ inner⟩

theorem Closed.moved (f : Position → Position) (closed : c.Closed) : (c.moved f).Closed := by
  obtain ⟨body, stop, all, isEnd, notEnd⟩ := closed
  refine ⟨body.map (Token.moved f), stop.moved f, ?_, isEnd, by simpa using notEnd⟩
  have all := congrArg (List.map (Token.moved f)) all
  rwa [List.map_append] at all

end Cursor

/-- Reading a source at two places. -/
def Pairing.moved (f : Position → Position) : Pairing where
  left := f
  right := id
  line c c' := c.Closed ∧ c' = c.moved f
  ends _ _ := False
  tolerates e r := r = some (e.moved f)
  here line := .inl (by rw [line.2]; rfl)
  last line := by rw [line.2]; rfl
  next {c c'} line inner := by
    obtain ⟨closed, rfl⟩ := line
    exact closed.moved_next (Token.isEnd_of_not_endsLine inner)
  ends_left ends := ends.elim
  ends_right ends := ends.elim
  ends_start ends := ends.elim
  same {t t'} cause same := by
    obtain rfl : t.moved f = t' := same
    rfl
  different _ _ ends := ends.elim
  absorbs _ tolerated := nomatch tolerated

namespace Cursor

variable {f : Position → Position} {c c' : Cursor}

theorem Follows.starts (follows : Follows f c c') (inner : c.here.lexeme.endsLine = false) :
    (Pairing.moved f).Starts c c' where
  stands := {
    here := .inl follows.here.symm
    next := fun inner =>
      have notEnd := Token.isEnd_of_not_endsLine inner
      ⟨follows.closed.next notEnd, follows.next notEnd⟩ }
  inner := inner
  lastOfLine := by rw [follows.here, follows.rest, lastOfLine_moved, Token.lexeme_moved]

theorem Follows.skip (follows : Follows f c c') :
    (Pairing.moved f).Starts c.skipped c'.skipped ∨
      c.skipped.here.isEnd = true ∧ c'.skipped.here = c.skipped.here.moved f := by
  have lexeme : c'.here.lexeme = c.here.lexeme := by rw [follows.here, Token.lexeme_moved]
  induction rest : c.rest generalizing c c' with
  | nil =>
    have isEnd := follows.closed.isEnd_of_rest rest
    have other : c.here.lexeme ≠ .endOfLine := by simp_all [Token.isEnd]
    rw [skipped_self other, skipped_self (lexeme ▸ other)]
    exact .inr ⟨isEnd, follows.here⟩
  | cons t rest ih =>
    by_cases isLine : c.here.lexeme = .endOfLine
    · have notEnd : c.here.isEnd = false := by simp [Token.isEnd, isLine]
      have next := follows.next notEnd
      rw [← skipped_next c isLine, ← skipped_next c' (lexeme ▸ isLine)]
      refine ih (follows.of_next notEnd) ?_ (by rw [Cursor.next, rest])
      rw [next]
      rfl
    · rw [skipped_self isLine, skipped_self (lexeme ▸ isLine)]
      cases endsLine : c.here.lexeme.endsLine with
      | false => exact .inl (follows.starts endsLine)
      | true =>
        have isEnd := (Lexeme.endsLine_iff.mp endsLine).resolve_left isLine
        exact .inr ⟨decide_eq_true isEnd, follows.here⟩

end Cursor

def BlockPairing.moved (f : Position → Position) : BlockPairing where
  toPairing := .moved f
  gap := Cursor.Follows f
  stopped c c' := c.here.isEnd = true ∧ c'.here = c.here.moved f
  line_gap line := ⟨line.1, by rw [line.2]; rfl, by rw [line.2]; rfl⟩
  leave {c c'} line endsLine := by
    obtain ⟨closed, rfl⟩ := line
    have follows : Cursor.Follows f c (c.moved f) := ⟨closed, rfl, rfl⟩
    unfold Cursor.afterLine
    by_cases isLine : c.here.lexeme = .endOfLine
    · rw [if_pos isLine, if_pos (show (c.moved f).here.lexeme = .endOfLine from isLine)]
      exact follows.of_next (by simp [Token.isEnd, isLine])
    · rw [if_neg isLine, if_neg (show (c.moved f).here.lexeme ≠ .endOfLine from isLine)]
      exact follows
  skip := Cursor.Follows.skip
  stopped_left stopped := stopped.1
  stopped_right {c c'} stopped := by
    refine .inl ⟨by rw [stopped.2]; exact stopped.1, fun cause => ?_⟩
    rw [stopped.2]
    rfl

/-! ## Programs -/

/-- What programs at other places are read as does not depend on the bounds. -/
theorem Parser.input_moved {f : Position → Position} {c c' : Cursor} (n n' : Nat)
    (follows : Cursor.Follows f c c')
    (shallow : ∀ e, (block n .input).run c = .error e → e.cause ≠ .nestedTooDeep)
    (shallow' : ∀ e, (block n' .input).run c' = .error e → e.cause ≠ .nestedTooDeep) :
    ((block n' .input).run c').map Prod.fst =
      ((((block n .input).run c).map Prod.fst).map (List.map (Stmt.moved f))).mapError
        (SyntaxError.moved f) := by
  have agree := BlockPairing.input (S := .moved f) n n'
    (fun _ _ stopped => by rw [stopped.2]; exact stopped.1) follows
  unfold Pairing.Agrees at agree
  generalize (block n .input).run c = x at *
  generalize (block n' .input).run c' = y at *
  cases agree with
  | ok alike =>
    change Stmt.allMoved f _ = Stmt.allMoved id _ at alike
    rw [Stmt.allMoved_id, Stmt.allMoved_eq] at alike
    simp only [Except.map, Except.mapError, alike]
  | @error e r tolerated =>
    cases y with
    | ok => cases tolerated
    | error e' =>
      cases tolerated
      rfl
  | deepLeft deep => exact absurd deep (shallow _ rfl)
  | deepRight deep => exact absurd deep (shallow' _ rfl)

namespace Junction

variable {J : Junction} {c c' : Cursor} {n n' : Nat}

/-- A source that was read up to its end is read up to there when it goes on. -/
theorem goes_on (gap : J.Gap c c') {body : List Stmt} {stop : Cursor}
    (ran : (Parser.block n .input).run c = .ok (body, stop))
    (shallow : ∀ e, (Parser.block n' .input).run c' = .error e → e.cause ≠ .nestedTooDeep) :
    ∃ m last, (Parser.block n' .input).run c' =
      ((Parser.block m .input).run ⟨last, J.first, J.rest⟩).map fun more =>
        (body ++ more.1, more.2) := by
  have resumes := BlockPairing.resumes (S := J.blocks) n n' gap
  rw [ran] at resumes
  generalize ran' : (Parser.block n' .input).run c' = y at *
  cases resumes with
  | deepRight deep => exact absurd deep (shallow _ rfl)
  | @ok _ body' _ d d' m alike stopped =>
    change Stmt.allMoved id body = Stmt.allMoved id body' at alike
    rw [Stmt.allMoved_id, Stmt.allMoved_id] at alike
    subst alike
    cases stopped with
    | @intro last last' =>
      refine ⟨m, last', ?_⟩
      cases m with
      | zero => exact absurd rfl (shallow _ rfl)
      | succ m => rw [BlockPairing.block_skipped]

/-- A complaint that is not about the end of the source stays when the source goes on. -/
theorem keeps_error (gap : J.Gap c c') {e : SyntaxError}
    (failed : (Parser.block n .input).run c = .error e) (complete : e.incomplete = false)
    (shallow : e.cause ≠ .nestedTooDeep)
    (shallow' : ∀ e, (Parser.block n' .input).run c' = .error e → e.cause ≠ .nestedTooDeep) :
    (Parser.block n' .input).run c' = .error e := by
  have resumes := BlockPairing.resumes (S := J.blocks) n n' gap
  rw [failed] at resumes
  generalize (Parser.block n' .input).run c' = y at *
  cases resumes with
  | deepLeft deep => exact absurd deep shallow
  | deepRight deep => exact absurd deep (shallow' _ rfl)
  | error tolerated =>
    rcases tolerated with incomplete | same
    · rw [complete] at incomplete
      cases incomplete
    · cases y with
      | ok => cases same
      | error e' =>
        cases same
        rfl

theorem gap_start {body : List Token} (lineEnded : J.LineEnded body)
    (notEnd : ∀ t ∈ body, t.isEnd = false) :
    ∃ c c', Cursor.ofTokens? (body ++ [J.stop]) = some c ∧
      Cursor.ofTokens? (body ++ J.tail) = some c' ∧ J.Gap c c' := by
  cases body with
  | nil =>
    rcases lineEnded with some | ⟨t, last, -⟩
    · obtain ⟨t, isMark⟩ := Option.isSome_iff_exists.mp some
      refine ⟨⟨J.stop, J.stop, []⟩, ⟨t, t, J.first :: J.rest⟩, rfl, ?_, .ends isMark⟩
      simp [tail, isMark, Cursor.ofTokens?]
    · cases last
  | cons t body => exact ⟨_, _, rfl, rfl, .line (.same notEnd lineEnded)⟩

end Junction

namespace Program

open Position

variable {body : List Token}

variable {c : Cursor} {tokens : List Token}

/-- The bound of a program is large enough. -/
theorem shallow (closed : c.Closed) (e : SyntaxError)
    (failed : (Parser.block (c.rest.length + 2) .input).run c = .error e) :
    e.cause ≠ .nestedTooDeep := by
  have proceeds := Parser.programBody_proceeds closed
  unfold Parser.Proceeds Parser.Yields at proceeds
  rw [show Parser.programBody.run c = .error e from failed] at proceeds
  exact proceeds.1

theorem ofTokens_eq (start : Cursor.ofTokens? tokens = some c) :
    ofTokens tokens = ((Parser.block (c.rest.length + 2) .input).run c).map fun r =>
      ⟨r.1, spanOf tokens⟩ := by
  unfold ofTokens
  rw [start]
  rfl

theorem ofTokens_body (start : Cursor.ofTokens? tokens = some c) :
    (ofTokens tokens).map Program.body =
      ((Parser.block (c.rest.length + 2) .input).run c).map Prod.fst := by
  rw [ofTokens_eq start]
  cases (Parser.block (c.rest.length + 2) .input).run c <;> rfl

theorem mapError_moved_id (x : Except SyntaxError (List Stmt)) :
    (x.map (List.map (Stmt.moved id))).mapError (SyntaxError.moved id) = x := by
  cases x with
  | ok body => simp [Except.map, Except.mapError, funext Stmt.moved_id]
  | error e => rfl

theorem closed_start (start : Cursor.ofTokens? tokens = some c) {stop : Token}
    (all : tokens = body ++ [stop]) (isEnd : stop.isEnd = true)
    (notEnd : ∀ t ∈ body, t.isEnd = false) : c.Closed := by
  cases tokens with
  | nil => cases start
  | cons t tokens =>
    cases start
    exact ⟨body, stop, all, isEnd, notEnd⟩

section Junction

variable {J : Junction} (lineEnded : J.LineEnded body) (notEnd : ∀ t ∈ body, t.isEnd = false)
  (closed : (Cursor.mk J.first J.first J.rest).Closed)

include closed notEnd in
theorem closed_tail {c : Cursor} (start : Cursor.ofTokens? (body ++ J.tail) = some c) :
    c.Closed := by
  obtain ⟨more, stop, all, isEnd, inner⟩ := closed
  have joined : body ++ J.tail = (body ++ (J.mark.toList ++ more)) ++ [stop] := by
    change J.first :: J.rest = more ++ [stop] at all
    simp only [Junction.tail, all, List.append_assoc]
  refine closed_start start joined isEnd fun t member => ?_
  rcases List.mem_append.mp member with member | member
  · exact notEnd t member
  rcases List.mem_append.mp member with member | member
  · have isLine := (J.isMark t (Option.mem_toList.mp member)).1
    simp [Token.isEnd, isLine]
  · exact inner t member

include lineEnded notEnd closed

theorem ofTokens_junction {a : Program} (parsed : ofTokens (body ++ [J.stop]) = .ok a) :
    (ofTokens (body ++ J.tail)).map Program.body =
      ((ofTokens (J.first :: J.rest)).map Program.body).map (a.body ++ ·) := by
  obtain ⟨c, c', start, start', gap⟩ := Junction.gap_start lineEnded notEnd
  have shallow' := shallow (closed_tail notEnd closed start')
  rw [ofTokens_eq start] at parsed
  obtain ⟨result, ran, rfl⟩ := Token.of_map_ok parsed
  obtain ⟨m, last, goes⟩ := Junction.goes_on gap ran shallow'
  have follows : Cursor.Follows id ⟨J.first, J.first, J.rest⟩ ⟨last, J.first, J.rest⟩ :=
    ⟨closed, rfl, by simp [funext Token.moved_id]⟩
  have enough := shallow closed
  have enough' (e : SyntaxError)
      (failed : (Parser.block m .input).run ⟨last, J.first, J.rest⟩ = .error e) :
      e.cause ≠ .nestedTooDeep := by
    refine shallow' e ?_
    rw [goes, failed]
    rfl
  have same := Parser.input_moved _ m follows enough enough'
  have startTail : Cursor.ofTokens? (J.first :: J.rest) = some ⟨J.first, J.first, J.rest⟩ := rfl
  rw [mapError_moved_id, ← ofTokens_body startTail] at same
  rw [ofTokens_body start', goes]
  rw [← same]
  cases (Parser.block m .input).run ⟨last, J.first, J.rest⟩ <;> rfl

theorem ofTokens_junction_error {e : SyntaxError} (failed : ofTokens (body ++ [J.stop]) = .error e)
    (complete : e.incomplete = false) : ofTokens (body ++ J.tail) = .error e := by
  obtain ⟨c, c', start, start', gap⟩ := Junction.gap_start lineEnded notEnd
  have shallow' := shallow (closed_tail notEnd closed start')
  have closed' := closed_start start rfl J.isEnd notEnd
  rw [ofTokens_eq start] at failed
  have ran := Token.of_map_error failed
  rw [ofTokens_eq start', Junction.keeps_error gap ran complete (shallow closed' _ ran) shallow']
  rfl

end Junction

theorem ofTokens_moved (f : Position → Position) {t : Token} {rest : List Token}
    (closed : (Cursor.mk t t rest).Closed) :
    (ofTokens ((t :: rest).map (Token.moved f))).map Program.body =
      (((ofTokens (t :: rest)).map Program.body).map (List.map (Stmt.moved f))).mapError
        (SyntaxError.moved f) := by
  have follows : Cursor.Follows f ⟨t, t, rest⟩ (Cursor.moved f ⟨t, t, rest⟩) := ⟨closed, rfl, rfl⟩
  have enough := shallow closed
  have enough' := shallow (closed.moved f)
  have same := Parser.input_moved _ _ follows enough enough'
  have start : Cursor.ofTokens? (t :: rest) = some ⟨t, t, rest⟩ := rfl
  have start' : Cursor.ofTokens? ((t :: rest).map (Token.moved f)) =
    some (Cursor.moved f ⟨t, t, rest⟩) := rfl
  rwa [← ofTokens_body start, ← ofTokens_body start'] at same

end Program

/-! ## Texts -/

theorem Token.scan_closed {cs : List Char} {tokens : List Token} (scanned : scan cs = .ok tokens) :
    ∃ t rest, tokens = t :: rest ∧ (Cursor.mk t t rest).Closed := by
  obtain ⟨body, rfl, notEnd⟩ := scanFrom_closed scanned
  cases body with
  | nil => exact ⟨_, [], rfl, [], _, rfl, rfl, notEnd⟩
  | cons t body => exact ⟨t, _, rfl, t :: body, _, rfl, rfl, notEnd⟩

/-- The tokens of a text, continued by those of another text after a line feed. -/
theorem Token.scan_line {cs : List Char} {tokens : List Token} (scanned : scan cs = .ok tokens)
    (ds : List Char) :
    scan (cs ++ '\n' :: ds) =
      (((scan ds).map (List.map (moved (.down (1 + cs.count '\n'))))).mapError
        (SyntaxError.moved (.down (1 + cs.count '\n')))).map
          (tokens.dropLast ++ lineEnd (Position.first.after cs) :: ·) := by
  unfold scan at scanned ⊢
  rw [scanFrom_line, scanned, Position.next_newline, ← scanFrom_down]
  rfl

namespace Program

open Position

/-- The place where a text that ends at `p` is continued after a line feed. -/
def junction (p : Position) (t : Token) (rest : List Token) : Junction where
  stop := ⟨.endOfInput, p, p⟩
  mark := some (.lineEnd p)
  first := t
  rest := rest
  isEnd := rfl
  isMark := by
    rintro t ⟨⟩
    exact ⟨rfl, rfl⟩

/-- A text that is a program, continued by another text after a line feed. -/
theorem ofText_line_of_ok {cs : List Char} {a : Program} (parsed : ofText cs = .ok a)
    (ds : List Char) :
    (ofText (cs ++ '\n' :: ds)).map body =
      ((ofText ds).map fun b =>
        a.body ++ b.body.map (Stmt.moved (down (1 + cs.count '\n')))).mapError
          (SyntaxError.moved (down (1 + cs.count '\n'))) := by
  unfold ofText at parsed ⊢
  cases scanned : Token.scan cs with
  | error e =>
    rw [scanned] at parsed
    cases parsed
  | ok tokens =>
    rw [scanned] at parsed
    rw [Token.scan_line scanned]
    obtain ⟨before, rfl, notEnd⟩ := Token.scanFrom_closed scanned
    rw [List.dropLast_concat]
    cases later : Token.scan ds with
    | error e => rfl
    | ok tokens =>
      obtain ⟨t, rest, rfl, closed⟩ := Token.scan_closed later
      have joined := ofTokens_junction (J := junction (first.after cs) _ _) (.inl rfl) notEnd
        (closed.moved (down (1 + cs.count '\n'))) parsed
      have moved := ofTokens_moved (down (1 + cs.count '\n')) closed
      refine joined.trans ((congrArg (Except.map (a.body ++ ·)) moved).trans ?_)
      change _ = ((ofTokens (t :: rest)).map _).mapError _
      cases ofTokens (t :: rest) <;> rfl

/-- What cannot be cut into tokens stays so whatever follows. -/
theorem ofText_line_of_scan {cs : List Char} {e : SyntaxError} (scanned : Token.scan cs = .error e)
    (ds : List Char) : ofText (cs ++ '\n' :: ds) = .error e := by
  unfold ofText Token.scan at *
  rw [Token.scanFrom_line, scanned]
  rfl

/-- A text that is no program, with an error that is not about its end. -/
theorem ofText_line_of_error {cs : List Char} {e : SyntaxError} (failed : ofText cs = .error e)
    (complete : e.incomplete = false) (ds : List Char) :
    ∃ e', ofText (cs ++ '\n' :: ds) = .error e' := by
  cases scanned : Token.scan cs with
  | error e => exact ⟨e, ofText_line_of_scan scanned ds⟩
  | ok tokens =>
    unfold ofText at failed ⊢
    rw [scanned] at failed
    rw [Token.scan_line scanned]
    obtain ⟨before, rfl, notEnd⟩ := Token.scanFrom_closed scanned
    rw [List.dropLast_concat]
    cases later : Token.scan ds with
    | error e => exact ⟨_, rfl⟩
    | ok tokens =>
      obtain ⟨t, rest, rfl, closed⟩ := Token.scan_closed later
      exact ⟨e, ofTokens_junction_error (J := junction (first.after cs) _ _) (.inl rfl) notEnd
        (closed.moved (down (1 + cs.count '\n'))) failed complete⟩

/-- Reading a source line by line gives the statements of its lines, in order and further down, and a
source whose error is not about its end cannot be completed by further lines. -/
theorem ofBytes_line (as bs : List UInt8) :
    (∀ a, ofBytes as = .ok a →
      (∀ b, ofBytes bs = .ok b → ∃ p, ofBytes (as ++ 10 :: bs) = .ok p ∧
        p.body = a.body ++ b.body.map (Stmt.moved (down (1 + as.count 10)))) ∧
      ∀ e, ofBytes bs = .error e →
        ofBytes (as ++ 10 :: bs) = .error (e.moved (down (1 + as.count 10)))) ∧
    ∀ e p, ofBytes as = .error e → ofBytes (as ++ 10 :: bs) = .ok p → e.incomplete = true := by
  unfold ofBytes
  rw [Text.decode_line, ← Text.count_decode]
  refine ⟨fun a parsed => ?_, fun e p failed parsed => ?_⟩
  · have both := ofText_line_of_ok parsed (Text.decode bs)
    generalize ofText (Text.decode as ++ '\n' :: Text.decode bs) = joined at both ⊢
    refine ⟨fun b parsed' => ?_, fun e failed => ?_⟩
    · rw [parsed'] at both
      cases joined with
      | error => cases both
      | ok p => exact ⟨p, rfl, Except.ok.inj both⟩
    · rw [failed] at both
      cases joined with
      | error =>
        cases both
        rfl
      | ok => cases both
  · by_contra complete
    obtain ⟨e', failed'⟩ :=
      ofText_line_of_error failed (Bool.eq_false_iff.mpr complete) (Text.decode bs)
    rw [parsed] at failed'
    cases failed'

def Sample.opening : List UInt8 := [68, 79]

def Sample.inner : List UInt8 := [79, 85, 84, 80, 85, 84, 32, 49]

def Sample.closing : List UInt8 := [87, 72, 73, 76, 69, 32, 48, 61, 49]

theorem exists_ok {x : Except SyntaxError Program} (isOk : x.isOk = true) : ∃ p, x = .ok p := by
  cases x with
  | ok p => exact ⟨p, rfl⟩
  | error e => cases isOk

/-- Two outputs are a program, and a loop that was begun is completed by its last line. -/
theorem ofBytes_line_sample :
    (∃ a p, ofBytes Sample.inner = .ok a ∧ ofBytes (Sample.inner ++ 10 :: Sample.inner) = .ok p ∧
      p.body = a.body ++ a.body.map (Stmt.moved (down 1))) ∧
    ∃ e p, ofBytes Sample.opening = .error e ∧
      ofBytes (Sample.opening ++ 10 :: Sample.closing) = .ok p ∧ e.incomplete = true := by
  constructor
  · obtain ⟨a, parsed⟩ := exists_ok (show (ofBytes Sample.inner).isOk = true by decide +kernel)
    obtain ⟨p, joined, both⟩ := ((ofBytes_line Sample.inner Sample.inner).1 a parsed).1 a parsed
    exact ⟨a, p, parsed, joined, both⟩
  · obtain ⟨p, parsed⟩ := exists_ok
      (show (ofBytes (Sample.opening ++ 10 :: Sample.closing)).isOk = true by decide +kernel)
    cases failed : ofBytes Sample.opening with
    | ok a =>
      have failed' : (ofBytes Sample.opening).isOk = false := by decide +kernel
      rw [failed] at failed'
      cases failed'
    | error e =>
      exact ⟨e, p, rfl, parsed, (ofBytes_line Sample.opening Sample.closing).2 e p failed parsed⟩

end Program

end Pseudocode
