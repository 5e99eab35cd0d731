import Pseudocode.Proofs.Reading

/-! # Parsers always move on

A statement takes at least one token, and a block takes its statements one after the other. So the
bound on nested blocks, which exceeds the number of tokens, is never reached either. What a parser
complains about is always one of the tokens from where it started on. -/

namespace Pseudocode

namespace Cursor

/-- The cursor `d` is at the place of `c` or later. -/
def Since (c d : Cursor) : Prop :=
  d.tokens <:+ c.tokens

def Past (c d : Cursor) : Prop :=
  c.Since d ∧ d.tokens.length < c.tokens.length

/-- The error is about one of the tokens from the cursor on. -/
def Blames (c : Cursor) (e : SyntaxError) : Prop :=
  e.cause ≠ .nestedTooDeep ∧ ∃ t ∈ c.tokens, e.position = t.start ∧ e.incomplete = t.isEnd

variable {c d e : Cursor}

theorem Since.refl (c : Cursor) : c.Since c := List.suffix_rfl

theorem Since.trans (first : c.Since d) (second : d.Since e) : c.Since e :=
  List.IsSuffix.trans second first

theorem Past.trans_since (first : c.Past d) (second : d.Since e) : c.Past e :=
  ⟨first.1.trans second, Nat.lt_of_le_of_lt second.length_le first.2⟩

theorem Along.since (along : c.Along d) : c.Since d := by
  obtain ⟨passed, here, -⟩ := along
  exact ⟨passed, here.symm⟩

theorem Ahead.past (ahead : c.Ahead d) : c.Past d := by
  refine ⟨ahead.along.since, ?_⟩
  obtain ⟨passed, some, here, -⟩ := ahead
  rw [here, List.length_append]
  have := List.length_pos_iff.mpr some
  omega

theorem Closed.since (closed : c.Closed) (since : c.Since d) : d.Closed := by
  obtain ⟨passed, here⟩ := since
  exact closed.of_append here.symm

theorem Since.blames (since : c.Since d) {error : SyntaxError} (blames : d.Blames error) :
    c.Blames error := by
  obtain ⟨cause, t, member, same⟩ := blames
  exact ⟨cause, t, since.mem member, same⟩

theorem Reports.blames {error : SyntaxError} (reports : c.Reports error) : c.Blames error := by
  obtain ⟨cause, t, ⟨passed, later, here, -⟩, same⟩ := reports
  exact ⟨cause, t, by simp [here], same⟩

theorem since_next (c : Cursor) : c.Since c.next := by
  obtain ⟨last, here, rest⟩ := c
  cases rest with
  | nil => exact .refl _
  | cons t rest => exact List.suffix_cons here (t :: rest)

theorem since_skipLineEnds (last here : Token) (rest : List Token) :
    Since ⟨last, here, rest⟩ (skipLineEnds last here rest) := by
  induction rest generalizing last here with
  | nil => exact .refl _
  | cons t rest ih =>
    unfold skipLineEnds
    split
    · exact .trans (since_next ⟨last, here, t :: rest⟩) (ih here t)
    · exact .refl _

theorem Closed.width_le (closed : c.Closed) : c.width ≤ c.rest.length := by
  obtain ⟨body, stop, all, isEnd, -⟩ := closed
  have ends : stop.lexeme = .endOfInput := of_decide_eq_true isEnd
  have length : c.rest.length = body.length := by
    have := congrArg List.length all
    simpa [tokens] using this
  rw [width, all, length, List.takeWhile_append]
  split
  · simp [ends, Lexeme.endsLine]
  · exact (List.takeWhile_prefix _).length_le

end Cursor

namespace Parser

variable {α β : Type} {c d : Cursor} {p : Parser α} {k : α → Parser β}

/-! ## The parts of statements that stay on a line -/

theorem Consumes.map (consumes : Consumes p c) (f : α → β) : Consumes (f <$> p) c := by
  rw [map_eq_pure_bind]
  exact consumes.bind fun _ _ _ => .pure ..

section

variable (closed : c.Closed)

include closed

theorem typeName_consumes : Consumes typeName c :=
  (identifier_consumes closed).map Expr.name

theorem constantType_reads : Reads constantType c := by
  refine (optionalSymbol_reads closed .colon).bind fun given d along => ?_
  split
  · exact ((typeName_consumes (closed.along along)).map some).reads
  · exact .pure ..

theorem loopStep_reads : Reads loopStep c := by
  refine .looking (atKeyword_run .step) ?_
  split
  case isTrue there =>
    have inner : c.here.lexeme.endsLine = false := by simp_all [Lexeme.endsLine]
    refine ((advance_consumes closed inner).bind fun _ d ahead => ?_).reads
    exact ((expression_consumes (closed.along ahead.along)).map some).reads
  case isFalse => exact .pure ..

omit closed in
theorem Marker.endsLine {l : Lexeme} (marks : (Marker.ofLexeme? l).isSome = true) :
    l.endsLine = false := by
  cases l with
  | endOfInput | endOfLine => cases marks
  | _ => rfl

theorem parameter_consumes (byRef : Bool) : Consumes (parameter byRef) c := by
  have rest (start : Token) (marker : Option Bool) {d : Cursor} (closed : d.Closed) :
      Consumes (do
        let name ← identifier
        let _ ← symbol .colon
        let declared ← typeName
        return (⟨name, declared, marker.getD byRef, ← spanFrom start⟩ : Param)) d := by
    refine (identifier_consumes closed).bind fun _ d ahead => ?_
    have closed := closed.along ahead.along
    refine (symbol_consumes closed .colon).reads.bind fun _ d along => ?_
    refine (typeName_consumes (closed.along along)).reads.bind fun _ d _ => ?_
    exact .looking (spanFrom_run start) (.pure ..)
  refine .looking peek_run ?_
  dsimp only
  split
  case isTrue marks =>
    refine (advance_consumes closed (Marker.endsLine marks)).bind fun _ d ahead => ?_
    exact (rest c.here _ (closed.along ahead.along)).reads
  case isFalse => exact rest c.here _ closed

theorem moreParameters_consumes {n : Nat} (enough : c.width < n) (byRef : Bool) :
    Consumes (moreParameters n byRef) c := by
  induction n generalizing c byRef with
  | zero => omega
  | succ n ih =>
    rw [moreParameters]
    refine (parameter_consumes closed byRef).bind fun param d ahead => ?_
    have closed' := closed.along ahead.along
    refine (optionalSymbol_reads closed' .comma).bind fun more e along => ?_
    have closed'' := closed'.along along
    split
    · have narrower := ahead.width_lt
      have narrower' := along.width_le
      exact (ih closed'' (by omega) param.byRef).reads.bind fun _ _ _ => .pure ..
    · exact (symbol_consumes closed'' .rightParen).reads.bind fun _ _ _ => .pure ..

theorem parameters_reads : Reads parameters c := by
  refine (optionalSymbol_reads closed .leftParen).bind fun given d along => ?_
  have closed' := closed.along along
  split
  · refine (optionalSymbol_reads closed' .rightParen).bind fun none e along => ?_
    have closed'' := closed'.along along
    split
    · exact .pure ..
    · have enough := closed''.width_le
      refine .looking get_run ?_
      exact (moreParameters_consumes closed'' (by omega) false).reads
  · exact .pure ..

end

/-! ## Statements and blocks -/

/-- The parser does not move back, and what it complains about is not behind it. -/
def Proceeds (p : Parser α) (c : Cursor) : Prop :=
  Yields p c (fun _ d => c.Since d) c.Blames

/-- The parser moves on, and what it complains about is not behind it. -/
def Progresses (p : Parser α) (c : Cursor) : Prop :=
  Yields p c (fun _ d => c.Past d) c.Blames

theorem Progresses.proceeds (progresses : Progresses p c) : Proceeds p c :=
  progresses.mono (fun _ _ past => past.1) fun _ blames => blames

theorem Reads.proceeds (reads : Reads p c) : Proceeds p c :=
  reads.mono (fun _ _ along => along.since) fun _ reports => reports.blames

theorem Consumes.progresses (consumes : Consumes p c) : Progresses p c :=
  consumes.mono (fun _ _ ahead => ahead.past) fun _ reports => reports.blames

theorem Proceeds.bind (first : Proceeds p c) (second : ∀ a d, c.Since d → Proceeds (k a) d) :
    Proceeds (p >>= k) c :=
  Yields.bind first fun a d since =>
    (second a d since).mono (fun _ _ => since.trans) fun _ => since.blames

theorem Progresses.bind (first : Progresses p c) (second : ∀ a d, c.Past d → Proceeds (k a) d) :
    Progresses (p >>= k) c :=
  Yields.bind first fun a d past =>
    (second a d past).mono (fun _ _ => past.trans_since) fun _ => past.1.blames

theorem Proceeds.beyond (first : Proceeds p d) (past : c.Past d)
    (second : ∀ a e, c.Past e → Proceeds (k a) e) : Proceeds (p >>= k) d :=
  first.bind fun a e since => second a e (past.trans_since since)

theorem Reads.beyond (first : Reads p d) (past : c.Past d)
    (second : ∀ a e, c.Past e → Proceeds (k a) e) : Proceeds (p >>= k) d :=
  first.proceeds.beyond past second

theorem Proceeds.pure (a : α) (c : Cursor) : Proceeds (pure a) c := .refl c

theorem Proceeds.looking {a : α} (ran : p.run c = .ok (a, c)) (second : Proceeds (k a) c) :
    Proceeds (p >>= k) c :=
  Yields.after ran second

theorem Progresses.looking {a : α} (ran : p.run c = .ok (a, c)) (second : Progresses (k a) c) :
    Progresses (p >>= k) c :=
  Yields.after ran second

theorem fail_progresses {cause : SyntaxError.Cause} (honest : cause ≠ .nestedTooDeep) :
    Progresses (fail c.here cause : Parser α) c :=
  ⟨honest, c.here, List.mem_cons_self, rfl, rfl⟩

theorem fail_proceeds {cause : SyntaxError.Cause} (honest : cause ≠ .nestedTooDeep) :
    Proceeds (fail c.here cause : Parser α) c :=
  (fail_progresses honest).proceeds

theorem advance_proceeds (c : Cursor) : Proceeds advance c := Cursor.since_next c

theorem skipLineEnds_proceeds (c : Cursor) : Proceeds skipLineEnds c :=
  Cursor.since_skipLineEnds c.last c.here c.rest

/-! A statement on one line ends with the line. -/

/-- The parser goes on to the end of its line at most. What it complains about is on the line. -/
def Leaves (p : Parser α) (c : Cursor) : Prop :=
  Yields p c (fun _ d => c.Since d) c.Reports

/-- The parser moves on to the end of its line at most. What it complains about is on the line. -/
def Passes (p : Parser α) (c : Cursor) : Prop :=
  Yields p c (fun _ d => c.Past d) c.Reports

theorem Leaves.proceeds (leaves : Leaves p c) : Proceeds p c :=
  leaves.mono (fun _ _ since => since) fun _ reports => reports.blames

theorem Passes.progresses (passes : Passes p c) : Progresses p c :=
  passes.mono (fun _ _ past => past) fun _ reports => reports.blames

theorem Reads.leaves (reads : Reads p c) : Leaves p c :=
  reads.mono (fun _ _ along => along.since) fun _ reports => reports

theorem Reads.before (first : Reads p c) (second : ∀ a d, c.Along d → Leaves (k a) d) :
    Leaves (p >>= k) c :=
  Yields.bind first fun a d along =>
    (second a d along).mono (fun _ _ => along.since.trans) fun _ => along.reports

theorem Consumes.before (first : Consumes p c) (second : ∀ a d, c.Ahead d → Leaves (k a) d) :
    Passes (p >>= k) c :=
  Yields.bind first fun a d ahead =>
    (second a d ahead).mono (fun _ _ => ahead.past.trans_since) fun _ => ahead.along.reports

theorem Leaves.looking {a : α} (ran : p.run c = .ok (a, c)) (second : Leaves (k a) c) :
    Leaves (p >>= k) c :=
  Yields.after ran second

theorem finish_leaves (start : Token) (statement : Span → Stmt) (c : Cursor) :
    Leaves (finish start statement) c := by
  refine .looking (spanFrom_run start) ?_
  have ends : Leaves endOfStatement c := by
    refine .looking peekLexeme_run ?_
    split
    · exact Cursor.since_next c
    · exact .refl c
    · exact (failWanting_consumes .endOfLine).reads.leaves
  exact Yields.bind ends fun _ _ since => since

theorem finish_proceeds (start : Token) (statement : Span → Stmt) (c : Cursor) :
    Proceeds (finish start statement) c :=
  (finish_leaves start statement c).proceeds

section Statements

variable (closed : c.Closed) (inner : c.here.lexeme.endsLine = false)

include closed

theorem assignment_passes : Passes assignment c := by
  refine Yields.after peek_run ?_
  refine (identifier_consumes closed).before fun target d ahead => ?_
  have closed := closed.along ahead.along
  refine .looking (atSymbol_run .assign) ?_
  split
  case isTrue there =>
    have inner : d.here.lexeme.endsLine = false := by simp_all [Lexeme.endsLine]
    refine (advance_consumes closed inner).reads.before fun _ d along => ?_
    refine (expression_consumes (closed.along along)).reads.before fun _ d _ => ?_
    exact finish_leaves _ _ d
  case isFalse => exact (failWanting_consumes _).reads.leaves

include inner

theorem advance_progresses : Progresses advance c :=
  (advance_consumes closed inner).progresses

theorem declaration_passes : Passes declaration c := by
  refine (advance_consumes closed inner).before fun start d ahead => ?_
  have closed := closed.along ahead.along
  refine (identifier_consumes closed).reads.before fun name d along => ?_
  have closed := closed.along along
  refine (symbol_consumes closed .colon).reads.before fun _ d along => ?_
  refine (typeName_consumes (closed.along along)).reads.before fun declared d _ => ?_
  exact finish_leaves _ _ d

theorem constantDeclaration_passes : Passes constantDeclaration c := by
  refine (advance_consumes closed inner).before fun start d ahead => ?_
  have closed := closed.along ahead.along
  refine (identifier_consumes closed).reads.before fun name d along => ?_
  have closed := closed.along along
  refine (constantType_reads closed).before fun written d along => ?_
  have closed := closed.along along
  refine .looking (atSymbol_run .equal) (.looking (atSymbol_run .assign) ?_)
  split
  case isTrue => exact (failWanting_consumes _).reads.leaves
  case isFalse signed =>
    have inner : d.here.lexeme.endsLine = false := by
      cases isHere : d.here.lexeme <;> simp_all [Lexeme.endsLine]
    refine (advance_consumes closed inner).reads.before fun _ d along => ?_
    -- An untyped constant is refused at its value, which has been moved over by then.
    refine .looking peek_run ?_
    refine Yields.bind (expression_consumes (closed.along along)).reads fun value e along => ?_
    have finishes (statement : Span → Stmt) :
        Yields (finish start statement) e (fun _ d' => d.Since d') d.Reports :=
      (finish_leaves start statement e).mono (fun _ _ => along.since.trans) fun _ => along.reports
    cases written with
    | some declared => exact finishes _
    | none =>
      dsimp only
      split
      · exact finishes _
      · exact ⟨(fun same => by cases same), d.here, .here d, rfl, rfl⟩

theorem outputStatement_passes : Passes outputStatement c := by
  refine (advance_consumes closed inner).before fun start d ahead => ?_
  refine (expression_consumes (closed.along ahead.along)).reads.before fun value d _ => ?_
  exact finish_leaves _ _ d

theorem callStatement_passes : Passes callStatement c := by
  refine (advance_consumes closed inner).before fun start d ahead => ?_
  have closed := closed.along ahead.along
  refine (identifier_consumes closed).reads.before fun callee d along => ?_
  refine .looking (atSymbol_run .leftParen) ?_
  split
  · refine (arguments_consumes (closed.along along)).reads.before fun given d _ => ?_
    exact finish_leaves _ _ d
  · exact finish_leaves _ _ d

theorem returnStatement_passes : Passes returnStatement c := by
  refine (advance_consumes closed inner).before fun start d ahead => ?_
  refine .looking peekLexeme_run ?_
  split
  · exact finish_leaves _ _ d
  · exact finish_leaves _ _ d
  · refine (expression_consumes (closed.along ahead.along)).reads.before fun value d _ => ?_
    exact finish_leaves _ _ d

/-! Inner blocks start later than the statements that hold them. -/

variable {block : Ending → Parser (List Stmt)}
  (blocks : ∀ ending d, c.Past d → Proceeds (block ending) d)

include blocks

theorem ifStatement_progresses : Progresses (ifStatement block) c := by
  refine (advance_progresses closed inner).bind fun start d past => ?_
  refine (expression_consumes (closed.since past.1)).reads.beyond past fun condition d past => ?_
  refine (skipLineEnds_proceeds d).beyond past fun _ d past => ?_
  refine (keyword_consumes (closed.since past.1) .then_).reads.beyond past fun _ d past => ?_
  refine (blocks _ d past).beyond past fun consequent d past => ?_
  refine .looking (atKeyword_run .else_) ?_
  split
  · refine (advance_proceeds d).beyond past fun _ d past => ?_
    refine (blocks _ d past).beyond past fun alternate d past => ?_
    refine (keyword_consumes (closed.since past.1) .endIf).reads.proceeds.bind fun _ d _ => ?_
    exact finish_proceeds _ _ d
  · refine (keyword_consumes (closed.since past.1) .endIf).reads.proceeds.bind fun _ d _ => ?_
    exact finish_proceeds _ _ d

omit closed inner blocks in
theorem closeFor_proceeds (counter : Ident) : Proceeds (closeFor counter) c := by
  refine .looking (atKeyword_run .next) ?_
  split
  · refine (advance_proceeds c).bind fun _ d _ => ?_
    refine .looking peek_run ?_
    split
    · split
      · exact (advance_proceeds d).bind fun _ _ _ => .pure ..
      · exact fail_proceeds nofun
    · exact .pure ..
  · exact (advance_proceeds c).bind fun _ _ _ => .pure ..

theorem forStatement_progresses : Progresses (forStatement block) c := by
  refine (advance_progresses closed inner).bind fun start d past => ?_
  refine (identifier_consumes (closed.since past.1)).reads.beyond past fun counter d past => ?_
  refine (symbol_consumes (closed.since past.1) .assign).reads.beyond past fun _ d past => ?_
  refine (expression_consumes (closed.since past.1)).reads.beyond past fun first d past => ?_
  refine (keyword_consumes (closed.since past.1) .to_).reads.beyond past fun _ d past => ?_
  refine (expression_consumes (closed.since past.1)).reads.beyond past fun last d past => ?_
  refine (loopStep_reads (closed.since past.1)).proceeds.bind fun step d since => ?_
  refine (blocks _ d (past.trans_since since)).bind fun body d _ => ?_
  exact (closeFor_proceeds counter).bind fun _ d _ => finish_proceeds _ _ d

theorem whileStatement_progresses : Progresses (whileStatement block) c := by
  refine (advance_progresses closed inner).bind fun start d past => ?_
  refine (expression_consumes (closed.since past.1)).reads.beyond past fun condition d past => ?_
  have rest (d : Cursor) (past : c.Past d) :
      Proceeds (do
        let body ← block (.words [.endWhile])
        let _ ← advance
        finish start (.whileLoop condition body)) d := by
    refine (blocks _ d past).bind fun body d _ => ?_
    exact (advance_proceeds d).bind fun _ d _ => finish_proceeds _ _ d
  refine .looking (atKeyword_run .do_) ?_
  split
  · exact (advance_proceeds d).bind fun _ d since => rest d (past.trans_since since)
  · exact rest d past

theorem doStatement_progresses : Progresses (doStatement block) c := by
  refine (advance_progresses closed inner).bind fun start d past => ?_
  refine (blocks _ d past).beyond past fun body d past => ?_
  refine (advance_proceeds d).beyond past fun _ d past => ?_
  refine (expression_consumes (closed.since past.1)).reads.proceeds.bind fun condition d _ => ?_
  exact finish_proceeds _ _ d

theorem procedureStatement_progresses : Progresses (procedureStatement block) c := by
  refine (advance_progresses closed inner).bind fun start d past => ?_
  refine (identifier_consumes (closed.since past.1)).reads.beyond past fun id d past => ?_
  refine (parameters_reads (closed.since past.1)).proceeds.bind fun params d since => ?_
  refine (blocks _ d (past.trans_since since)).bind fun body d _ => ?_
  exact (advance_proceeds d).bind fun _ d _ => finish_proceeds _ _ d

theorem functionStatement_progresses : Progresses (functionStatement block) c := by
  refine (advance_progresses closed inner).bind fun start d past => ?_
  refine (identifier_consumes (closed.since past.1)).reads.beyond past fun id d past => ?_
  refine (parameters_reads (closed.since past.1)).beyond past fun params d past => ?_
  refine (keyword_consumes (closed.since past.1) .returns).reads.beyond past fun _ d past => ?_
  refine (typeName_consumes (closed.since past.1)).reads.proceeds.bind fun result d since => ?_
  refine (blocks _ d (past.trans_since since)).bind fun body d _ => ?_
  exact (advance_proceeds d).bind fun _ d _ => finish_proceeds _ _ d

omit inner in
theorem statementWith_progresses : Progresses (statementWith block) c := by
  refine .looking peek_run ?_
  have starts {l : Lexeme} (isHere : c.here.lexeme = l) (isInner : l.endsLine = false) :
      c.here.lexeme.endsLine = false := by
    rw [isHere]
    exact isInner
  split
  case h_1 name isHere => exact (assignment_passes closed).progresses
  case h_2 isHere => exact (declaration_passes closed (starts isHere rfl)).progresses
  case h_3 isHere => exact (constantDeclaration_passes closed (starts isHere rfl)).progresses
  case h_4 isHere => exact (outputStatement_passes closed (starts isHere rfl)).progresses
  case h_5 isHere => exact (callStatement_passes closed (starts isHere rfl)).progresses
  case h_6 isHere => exact (returnStatement_passes closed (starts isHere rfl)).progresses
  case h_7 isHere => exact ifStatement_progresses closed (starts isHere rfl) blocks
  case h_8 isHere => exact forStatement_progresses closed (starts isHere rfl) blocks
  case h_9 isHere => exact whileStatement_progresses closed (starts isHere rfl) blocks
  case h_10 isHere => exact doStatement_progresses closed (starts isHere rfl) blocks
  case h_11 isHere => exact procedureStatement_progresses closed (starts isHere rfl) blocks
  case h_12 isHere => exact functionStatement_progresses closed (starts isHere rfl) blocks
  case h_13 => exact fail_progresses nofun

end Statements

/-- More than one call for each token is enough. -/
theorem block_proceeds {n : Nat} (closed : c.Closed) (enough : c.tokens.length < n)
    (ending : Ending) : Proceeds (block n ending) c := by
  induction n generalizing c ending with
  | zero => omega
  | succ n ih =>
    rw [block]
    refine (skipLineEnds_proceeds c).bind fun _ d since => ?_
    have closed := closed.since since
    have fewer := since.length_le
    refine .looking get_run ?_
    split
    · split
      · exact .pure ..
      · exact fail_proceeds nofun
    · split
      · exact .pure ..
      · have inner : ∀ ending e, d.Past e → Proceeds (block n ending) e := fun ending e past =>
          ih (closed.since past.1) (by have := past.2; omega) ending
        refine ((statementWith_progresses closed inner).bind fun _ e past => ?_).proceeds
        exact (inner ending e past).bind fun _ _ _ => .pure ..

theorem programBody_proceeds (closed : c.Closed) : Proceeds programBody c := by
  refine .looking get_run (block_proceeds closed ?_ .input)
  simp [Cursor.tokens]

end Parser

end Pseudocode
