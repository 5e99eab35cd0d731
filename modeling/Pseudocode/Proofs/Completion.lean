import Pseudocode.Proofs.Composition

/-! # Sources that further lines complete

A source whose last line is ended can be completed when the parser complains about the end of the
input: lines that close the open statements, from the innermost on, make it a program. -/

namespace Pseudocode

namespace Cursor

/-- Before the end of the input there is the end of a line, or nothing. -/
def Whole (c : Cursor) : Prop :=
  ∃ body stop, c.tokens = body ++ [stop] ∧ stop.isEnd = true ∧ (∀ t ∈ body, t.isEnd = false) ∧
    ∀ t, body.getLast? = some t → t.lexeme = .endOfLine

/-- The cursor is on a line that is ended. -/
structure Lined (c : Cursor) : Prop where
  whole : c.Whole
  inner : c.here.isEnd = false

variable {c d : Cursor}

theorem Whole.closed (whole : c.Whole) : c.Closed := by
  obtain ⟨body, stop, all, isEnd, notEnd, -⟩ := whole
  exact ⟨body, stop, all, isEnd, notEnd⟩

theorem Whole.since (whole : c.Whole) (since : c.Since d) : d.Whole := by
  obtain ⟨body', stop', all', isEnd', notEnd'⟩ := whole.closed.since since
  obtain ⟨body, stop, all, -, -, lineEnded⟩ := whole
  obtain ⟨passed, both⟩ := since
  refine ⟨body', stop', all', isEnd', notEnd', fun t last => lineEnded t ?_⟩
  rw [all, all', ← List.append_assoc] at both
  obtain ⟨rfl, -⟩ := List.append_inj' both rfl
  rw [List.getLast?_append, last, Option.some_or]

theorem Lined.closed (lined : c.Lined) : c.Closed := lined.whole.closed

/-- The end of the input is not on the line. -/
theorem Lined.along (lined : c.Lined) (along : c.Along d) : d.Lined := by
  have whole := lined.whole.since along.since
  refine ⟨whole, ?_⟩
  obtain ⟨body, stop, all, isEnd, -, lineEnded⟩ := lined.whole
  obtain ⟨body', stop', all', -, notEnd', -⟩ := whole
  obtain ⟨passed, both, inner⟩ := along
  cases body' with
  | cons t body' =>
    have here : d.here = t := (List.cons.inj all').1
    exact here ▸ notEnd' t List.mem_cons_self
  | nil =>
    -- All that has been passed is the lines before the end, but no line has been left.
    rw [all, all', List.nil_append] at both
    obtain ⟨rfl, -⟩ := List.append_inj' both rfl
    cases last : body.getLast? with
    | none =>
      rw [List.getLast?_eq_none_iff.mp last] at all
      have here : c.here = stop := (List.cons.inj all).1
      have inner := lined.inner
      rw [here, isEnd] at inner
      cases inner
    | some t =>
      have notLine := inner t (List.mem_of_getLast? last)
      rw [lineEnded t last] at notLine
      cases notLine

theorem Lined.onLine (lined : c.Lined) {t : Token} (onLine : c.OnLine t) : t.isEnd = false := by
  obtain ⟨passed, later, all, inner⟩ := onLine
  have along : c.Along ⟨t, t, later⟩ := ⟨passed, all, inner⟩
  exact (lined.along along).inner

theorem Lined.reports (lined : c.Lined) {e : SyntaxError} (reports : c.Reports e) :
    e.incomplete = false := by
  obtain ⟨-, t, onLine, -, incomplete⟩ := reports
  rw [incomplete, lined.onLine onLine]

end Cursor

/-- Where a source is at its end, the other one goes on with what comes after it. -/
theorem Junction.Gap.skip_of_isEnd {J : Junction} {c c' : Cursor} (gap : J.Gap c c')
    (isEnd : c.skipped.here.isEnd = true) :
    ∃ last, c'.skipped = Cursor.skipped ⟨last, J.first, J.rest⟩ := by
  rcases gap.skip with starts | stopped
  · rw [Token.isEnd_of_not_endsLine starts.inner] at isEnd
    cases isEnd
  · generalize c.skipped = x at stopped
    generalize c'.skipped = y at stopped
    cases stopped with
    | @intro last last' => exact ⟨last', rfl⟩

theorem Junction.Gap.starts {J : Junction} {c c' : Cursor} (gap : J.Gap c c')
    (inner : c.skipped.here.isEnd = false) : J.pairing.Starts c.skipped c'.skipped := by
  rcases gap.skip with starts | stopped
  · exact starts
  · have ended := J.blocks.stopped_left stopped
    rw [inner] at ended
    cases ended

namespace Parser

variable {α β : Type} {c d : Cursor} {p : Parser α} {k : α → Parser β}

/-! ## Parsers that do not see the end of the input -/

/-- The parser does not complain about the end of the input. -/
def Spares (p : Parser α) (c : Cursor) : Prop :=
  Yields p c (fun _ _ => True) fun e => e.incomplete = false

variable {a : α}

theorem Spares.looking (ran : p.run c = .ok (a, d)) (second : Spares (k a) d) :
    Spares (p >>= k) c :=
  Yields.after ran second

theorem finish_spares (start : Token) (statement : Span → Stmt) (c : Cursor) :
    Spares (finish start statement) c := by
  refine .looking (spanFrom_run start) ?_
  have ends : Spares endOfStatement c := by
    refine .looking peekLexeme_run ?_
    split
    case h_1 => exact trivial
    case h_2 => exact trivial
    case h_3 notLine notEnd =>
      change c.here.isEnd = false
      exact decide_eq_false notEnd
  exact Yields.bind ends fun _ _ _ => trivial

theorem Passes.spares (passes : Passes p c) (lined : c.Lined) : Spares p c :=
  passes.mono (fun _ _ _ => trivial) fun _ reports => lined.reports reports

theorem closeFor_spares (counter : Ident) (start : Token) (statement : Span → Stmt) (c : Cursor) :
    Spares (closeFor counter >>= fun _ => finish start statement) c := by
  have closes : Spares (closeFor counter) c := by
    refine .looking (atKeyword_run .next) ?_
    split
    · refine .looking advance_run (.looking peek_run ?_)
      split
      case h_1 name isName =>
        split
        · exact trivial
        · change Token.isEnd _ = false
          rw [Token.isEnd, isName]
          rfl
      case h_2 => exact trivial
    · exact trivial
  exact Yields.bind closes fun _ _ _ => finish_spares ..

/-! ## Parsers that go on to these tokens -/

def spelled (lines : List (List Keyword)) : List Lexeme :=
  lines.flatMap fun words => words.map .keyword ++ [.endOfLine]

/-- The parser stops before these tokens, unless the bound on it is too small. -/
def Finishes (q : Parser α) (c : Cursor) (tail : List Token) : Prop :=
  Yields q c (fun _ d => d.tokens = tail) fun e => e.cause = .nestedTooDeep

/-- A block ends before these tokens at once. -/
structure EndsAt (ending : Ending) (tail : List Token) : Prop where
  some : tail ≠ []
  finishes : ∀ c n, c.tokens = tail → Finishes (block n ending) c tail

/-- If the parser complains about the end of the input, then there are lines after which the parsers
on the right succeed. -/
def Completes (R : Junction → Cursor → Cursor → Prop) (ready : List Token → Prop) (p : Parser α)
    (c : Cursor) (q : Nat → Parser α) : Prop :=
  ∀ e, p.run c = .error e → e.incomplete = true → ∃ lines, ∀ J : Junction, J.mark = none →
    ∀ closing tail, closing.map Token.lexeme = spelled lines →
      J.first :: J.rest = closing ++ tail → ready tail →
        ∀ c' n, R J c c' → Finishes (q n) c' tail

variable {R : Junction → Cursor → Cursor → Prop} {ready : List Token → Prop} {q : Parser α}
  {l : Nat → α → Parser β} {c' : Cursor} {tail mid : List Token} {m : α → Parser β}

theorem Finishes.bind (first : Finishes q c' mid)
    (second : ∀ a d, d.tokens = mid → Finishes (m a) d tail) : Finishes (q >>= m) c' tail :=
  Yields.bind first second

theorem Finishes.after (ran : q.run c = .ok (a, d)) (second : Finishes (m a) d tail) :
    Finishes (q >>= m) c tail :=
  Yields.after ran second

theorem Reaches.finishes (reaches : Reaches q c a d) (here : d.tokens = tail) :
    Finishes q c tail := by
  unfold Finishes Yields
  rcases reaches with ran | ⟨error, failed, deep⟩
  · rw [ran]
    exact here
  · rw [failed]
    exact deep

/-- The parser on the right does what the one on the left has done. -/
theorem Finishes.of_agrees {S : Pairing} {rel : α → α → Prop} {post : Cursor → Cursor → Prop}
    (agrees : S.Agrees rel post p c q c') (ran : p.run c = .ok (a, d))
    (second : ∀ b d', rel a b → post d d' → Finishes (m b) d' tail) :
    Finishes (q >>= m) c' tail := by
  unfold Pairing.Agrees at agrees
  unfold Finishes Yields
  rw [ran] at agrees
  rw [StateT.run_bind]
  revert agrees
  generalize q.run c' = y
  intro agrees
  cases agrees with
  | ok related places => exact second _ _ related places
  | deepRight deep => exact deep

theorem Completes.of_spares {q : Nat → Parser α} (spares : Spares p c) :
    Completes R ready p c q := by
  intro e failed incomplete
  unfold Spares Yields at spares
  rw [failed] at spares
  rw [spares] at incomplete
  cases incomplete

variable {rel : Junction → α → α → Prop}

theorem Completes.reading (reads : Reads p c) (lined : c.Lined)
    (agrees : ∀ J c', R J c c' → J.pairing.Agrees (rel J) J.Line p c p c')
    (exact : ∀ J a b, rel J a b → a = b)
    (next : ∀ a d, p.run c = .ok (a, d) → c.Along d → d.Lined →
      Completes Junction.Line ready (k a) d fun n => l n a) :
    Completes R ready (p >>= k) c fun n => p >>= l n := by
  intro e failed incomplete
  unfold Reads Yields at reads
  rw [StateT.run_bind] at failed
  cases ran : p.run c with
  | error e' =>
    rw [ran] at reads failed
    cases failed
    rw [lined.reports reads] at incomplete
    cases incomplete
  | ok result =>
    rw [ran] at reads failed
    have lined := lined.along reads
    obtain ⟨lines, completes⟩ := next result.1 result.2 ran reads lined e failed incomplete
    refine ⟨lines, fun J noMark closing tail spells all isReady c' n related => ?_⟩
    refine .of_agrees (agrees J c' related) ran fun b d' same line => ?_
    rw [← exact _ _ _ same]
    exact completes J noMark closing tail spells all isReady d' n line

theorem Completes.looking (ran : p.run c = .ok (a, c))
    (same : ∀ J c', J.mark = none → R J c c' → p.run c' = .ok (a, c'))
    (next : Completes R ready (k a) c fun n => l n a) :
    Completes R ready (p >>= k) c fun n => p >>= l n := by
  intro e failed incomplete
  rw [StateT.run_bind, ran] at failed
  obtain ⟨lines, completes⟩ := next e failed incomplete
  refine ⟨lines, fun J noMark closing tail spells all isReady c' n related => ?_⟩
  exact .after (same J c' noMark related)
    (completes J noMark closing tail spells all isReady c' n related)

/-! The parts of a statement that stay on its line, after the cursor `o` that it starts from. -/

theorem Completes.onLine {o : Cursor} (past : o.Past c) (lined : c.Lined) (reads : Reads p c)
    (agrees : ∀ J c', Junction.Line J c c' → J.pairing.Agrees (rel J) J.Line p c p c')
    (exact : ∀ J a b, rel J a b → a = b)
    (next : ∀ a d, o.Past d → d.Lined → Completes Junction.Line ready (k a) d fun n => l n a) :
    Completes Junction.Line ready (p >>= k) c fun n => p >>= l n :=
  .reading reads lined agrees exact fun a d _ along lined =>
    next a d (past.trans_since along.since) lined

theorem Completes.expression {o : Cursor} (past : o.Past c) (lined : c.Lined)
    {k : Expr → Parser β} {l : Nat → Expr → Parser β}
    (next : ∀ a d, o.Past d → d.Lined → Completes Junction.Line ready (k a) d fun n => l n a) :
    Completes Junction.Line ready (expression >>= k) c fun n => expression >>= l n :=
  .onLine past lined (expression_consumes lined.closed).reads
    (fun _ _ line => Pairing.expression line) (fun _ _ _ => Expr.eq_of_moved_id) next

/-! ## Closing lines -/

theorem spelled_append (lines more : List (List Keyword)) :
    spelled (lines ++ more) = spelled lines ++ spelled more :=
  List.flatMap_append

variable {t : Token} {word : Keyword} {ending : Ending} {n : Nat}

theorem advance_tokens {rest : List Token} (all : c.tokens = t :: rest) (some : rest ≠ []) :
    c.here = t ∧ c.next.tokens = rest := by
  obtain ⟨last, here, later⟩ := c
  obtain ⟨rfl, rfl⟩ := List.cons.inj all
  cases later with
  | nil => exact absurd rfl some
  | cons u later => exact ⟨rfl, rfl⟩

theorem finish_finishes (start : Token) (statement : Span → Stmt) (all : c.tokens = t :: tail)
    (isLine : t.lexeme = .endOfLine) (some : tail ≠ []) :
    Finishes (finish start statement) c tail := by
  obtain ⟨rfl, next⟩ := advance_tokens all some
  refine (finish_reaches start statement (by rw [isLine]; rfl)).finishes ?_
  rwa [Cursor.afterLine, if_pos isLine]

theorem keyword_finishes {m : Token → Parser β} (all : c.tokens = t :: mid)
    (isWord : t.lexeme = .keyword word) (some : mid ≠ [])
    (second : ∀ a d, d.tokens = mid → Finishes (m a) d tail) :
    Finishes (keyword word >>= m) c tail := by
  obtain ⟨rfl, next⟩ := advance_tokens all some
  exact ((keyword_reaches isWord).finishes next).bind second

theorem closing_pair {closing : List Token} (spells : closing.map Token.lexeme = spelled [[word]]) :
    ∃ t u, closing = [t, u] ∧ t.lexeme = .keyword word ∧ u.lexeme = .endOfLine := by
  obtain ⟨t, rest, rfl, isWord, spells⟩ := List.map_eq_cons_iff.mp spells
  obtain ⟨u, rest, rfl, isLine, spells⟩ := List.map_eq_cons_iff.mp spells
  obtain rfl := List.map_eq_nil_iff.mp spells
  exact ⟨t, u, rfl, isWord, isLine⟩

/-- A block ends before the tokens that end it. -/
theorem EndsAt.of_over (ends : ∀ last, ending.Over ⟨last, t, tail⟩) : EndsAt ending (t :: tail) := by
  refine ⟨nofun, fun c n all => ?_⟩
  obtain ⟨last, here, rest⟩ := c
  obtain ⟨rfl, rfl⟩ := List.cons.inj all
  exact (block_ends .nil (Cursor.walks_nil.mpr rfl) (ends last) _).finishes rfl

theorem endsAt_words {closers : List Keyword} (member : word ∈ closers)
    (isWord : t.lexeme = .keyword word) : EndsAt (.words closers) (t :: tail) :=
  .of_over fun _ => .of_words isWord member

/-- An inner block comes first, and a line of keywords closes the statement. -/
theorem Completes.block (words : List Keyword) {k : List Stmt → Parser β}
    {l : Nat → List Stmt → Parser β} (unclosed : ending.closers ≠ [])
    (inner : Completes Junction.Gap (EndsAt ending) (block n ending) c (block · ending))
    (lands : ∀ body d, (Parser.block n ending).run c = .ok (body, d) →
      c.Since d ∧ d.Lined ∧ d.here.lexeme.endsLine = false)
    (ends : ∀ closing tail, closing.map Token.lexeme = spelled [words] → tail ≠ [] →
      EndsAt ending (closing ++ tail))
    (close : ∀ n body d closing tail, closing.map Token.lexeme = spelled [words] → tail ≠ [] →
      d.tokens = closing ++ tail → Finishes (l n body) d tail)
    (next : ∀ body d, c.Since d → d.Lined → d.here.lexeme.endsLine = false →
      Completes (fun J => J.pairing.Starts) (· ≠ []) (k body) d fun n => l n body) :
    Completes Junction.Line (· ≠ []) (Parser.block n ending >>= k) c
      fun n => Parser.block n ending >>= l n := by
  intro e failed incomplete
  rw [StateT.run_bind] at failed
  cases ran : (Parser.block n ending).run c with
  | error e' =>
    rw [ran] at failed
    cases failed
    obtain ⟨lines, completes⟩ := inner e ran incomplete
    refine ⟨lines ++ [words], fun J noMark closing tail spells all some c' n line => ?_⟩
    rw [spelled_append] at spells
    obtain ⟨first, second, rfl, spells, spells'⟩ := List.map_eq_append_iff.mp spells
    rw [List.append_assoc] at all
    have finishes := completes J noMark first _ spells all (ends second tail spells' some) c' n
      (.line line)
    exact finishes.bind fun body d here => close n body d second tail spells' some here
  | ok result =>
    rw [ran] at failed
    obtain ⟨since, lined, notLine⟩ := lands _ _ ran
    obtain ⟨lines, completes⟩ := next result.1 result.2 since lined notLine e failed incomplete
    refine ⟨lines, fun J noMark closing tail spells all some c' n' line => ?_⟩
    have agrees := BlockPairing.block (S := J.blocks) n n' unclosed (.line line)
    refine .of_agrees agrees ran fun body d' same starts => ?_
    have same : Stmt.allMoved id result.1 = Stmt.allMoved id body := same
    rw [Stmt.allMoved_id, Stmt.allMoved_id] at same
    rw [← same]
    exact completes J noMark closing tail spells all some d' n' starts

variable {l : Nat → Token → Parser β} {k : Token → Parser β}

theorem Completes.advancing (lined : c.Lined) (inner : c.here.lexeme.endsLine = false)
    (next : ∀ start d, c.Past d → d.Lined →
      Completes Junction.Line ready (k start) d fun n => l n start) :
    Completes (fun J => J.pairing.Starts) ready (advance >>= k) c fun n => advance >>= l n := by
  refine .reading (advance_consumes lined.closed inner).reads lined
    (fun J c' starts => starts.stands.advance inner) (fun _ _ _ same => same) ?_
  intro start d ran _ lined'
  cases ran
  exact next _ _ (lined.closed.ahead_next inner).past lined'

/-- A keyword that may stand on a later line comes first. -/
theorem Completes.skipping (word : Keyword) (words : List Keyword) (lined : c.Lined)
    (close : ∀ n t d closing tail, closing.map Token.lexeme = spelled [words] → tail ≠ [] →
      d.tokens = closing ++ tail → Finishes (l n t) d tail)
    (next : ∀ t d, c.Since d → d.Lined → Completes Junction.Line (· ≠ []) (k t) d fun n => l n t) :
    Completes Junction.Line (· ≠ []) (skipLineEnds >>= fun _ => keyword word >>= k) c
      fun n => skipLineEnds >>= fun _ => keyword word >>= l n := by
  intro e failed incomplete
  rw [StateT.run_bind, skipLineEnds_run] at failed
  have since : c.Since c.skipped := Cursor.since_skipLineEnds ..
  cases isEnd : c.skipped.here.isEnd with
  | true =>
    refine ⟨[word :: words], fun J noMark closing tail spells all some c' n line => ?_⟩
    obtain ⟨t, more, rfl, isWord, spells'⟩ := List.map_eq_cons_iff.mp spells
    obtain ⟨rfl, rest⟩ := List.cons.inj all
    obtain ⟨last, here⟩ := Junction.Gap.skip_of_isEnd (.line line) isEnd
    have inner : J.first.lexeme.endsLine = false := by rw [isWord]; rfl
    have stays : Cursor.skipped ⟨last, J.first, J.rest⟩ = ⟨last, J.first, J.rest⟩ :=
      Cursor.skipped_self (Lexeme.ne_endOfLine inner)
    refine .after skipLineEnds_run ?_
    rw [here, stays]
    refine keyword_finishes (congrArg (J.first :: ·) rest) isWord ?_ fun t d here => ?_
    · simp [some]
    · exact close n t d more tail spells' some here
  | false =>
    have lined' : c.skipped.Lined := ⟨lined.whole.since since, isEnd⟩
    have step : Completes (fun J => J.pairing.Starts) (· ≠ []) (keyword word >>= k) c.skipped
        fun n => keyword word >>= l n :=
      .reading (keyword_consumes lined'.closed word).reads lined'
        (fun J c' starts => starts.stands.keyword word) (fun _ _ _ same => same)
        fun t d _ along lined => next t d (since.trans along.since) lined
    obtain ⟨lines, completes⟩ := step e failed incomplete
    refine ⟨lines, fun J noMark closing tail spells all some c' n line => ?_⟩
    refine .after skipLineEnds_run ?_
    exact completes J noMark closing tail spells all some _ n (Junction.Gap.starts (.line line) isEnd)

/-- The shortest condition is one of the literals. -/
theorem expression_true {t u : Token} (all : c.tokens = t :: u :: tail)
    (isTrue : t.lexeme = .keyword .true_) (isLine : u.lexeme = .endOfLine) :
    Finishes expression c (u :: tail) := by
  obtain ⟨rfl, next⟩ := advance_tokens all (by simp)
  have here : c.next.here = u := (List.cons.inj next).1
  have derives : Derives (.level .or) [c.here] _ := .whole_of_unary (.primary (.true_ isTrue)) .or
  refine (expression_reaches derives ⟨rfl, ?_, rfl⟩ ?_ ?_).finishes next
  · simp [(List.cons.inj all).2]
  · rw [here, isLine]
    rfl
  · simp [here, isLine]

/-! ## Compound statements -/

theorem endsAt_pair {closers : List Keyword} (member : word ∈ closers) (closing tail : List Token)
    (spells : closing.map Token.lexeme = spelled [[word]]) (_ : tail ≠ []) :
    EndsAt (.words closers) (closing ++ tail) := by
  obtain ⟨t, u, rfl, isWord, -⟩ := closing_pair spells
  exact endsAt_words member isWord

theorem advance_closes {start : Token} {statement : Span → Stmt} {closing : List Token}
    (spells : closing.map Token.lexeme = spelled [[word]]) (some : tail ≠ [])
    (all : c.tokens = closing ++ tail) :
    Finishes (advance >>= fun _ => finish start statement) c tail := by
  obtain ⟨t, u, rfl, -, isLine⟩ := closing_pair spells
  obtain ⟨-, next⟩ := advance_tokens all (by simp)
  exact .after advance_run (finish_finishes start statement next isLine some)

section Compound

variable {n : Nat} (lined : c.Lined) (inner : c.here.lexeme.endsLine = false)
  (blocks : ∀ ending, ending.closers ≠ [] → ∀ d, c.Past d → d.Whole →
    Completes Junction.Gap (EndsAt ending) (block n ending) d (block · ending) ∧
    ∀ body e, (block n ending).run d = .ok (body, e) →
      d.Since e ∧ e.Lined ∧ e.here.lexeme.endsLine = false)

include blocks

/-- A block and the word that closes it come last. -/
theorem body_completes {d : Cursor} {start : Token} {statement : List Stmt → Span → Stmt}
    (word : Keyword) (past : c.Past d) (lined : d.Lined) :
    Completes Junction.Line (· ≠ [])
      (do
        let body ← block n (.words [word])
        let _ ← advance
        finish start (statement body)) d
      (fun n => do
        let body ← block n (.words [word])
        let _ ← advance
        finish start (statement body)) := by
  obtain ⟨completes, lands⟩ := blocks (.words [word]) nofun d past lined.whole
  refine .block [word] nofun completes lands (endsAt_pair List.mem_cons_self)
    (fun _ _ _ _ _ => advance_closes) fun body d _ _ _ => ?_
  exact .of_spares (.looking advance_run (finish_spares ..))

include lined inner

theorem procedureStatement_completes :
    Completes (fun J => J.pairing.Starts) (· ≠ []) (procedureStatement (block n)) c
      fun n => procedureStatement (block n) := by
  refine .advancing lined inner fun start d past lined => ?_
  refine .onLine past lined (identifier_consumes lined.closed).reads
    (fun J c' line => (Pairing.line_stands line).identifier) (fun _ _ _ same => same)
    fun id d past lined => ?_
  refine .onLine past lined (parameters_reads lined.closed)
    (fun J c' line => BlockPairing.parameters (S := J.blocks) line)
    (fun _ _ _ => Param.eq_of_allMoved_id) fun params d past lined => ?_
  exact body_completes blocks .endProcedure past lined

theorem functionStatement_completes :
    Completes (fun J => J.pairing.Starts) (· ≠ []) (functionStatement (block n)) c
      fun n => functionStatement (block n) := by
  refine .advancing lined inner fun start d past lined => ?_
  refine .onLine past lined (identifier_consumes lined.closed).reads
    (fun J c' line => (Pairing.line_stands line).identifier) (fun _ _ _ same => same)
    fun id d past lined => ?_
  refine .onLine past lined (parameters_reads lined.closed)
    (fun J c' line => BlockPairing.parameters (S := J.blocks) line)
    (fun _ _ _ => Param.eq_of_allMoved_id) fun params d past lined => ?_
  refine .onLine past lined (keyword_consumes lined.closed .returns).reads
    (fun J c' line => (Pairing.line_stands line).keyword .returns) (fun _ _ _ same => same)
    fun _ d past lined => ?_
  refine .onLine past lined (typeName_consumes lined.closed).reads
    (fun J c' line => BlockPairing.typeName (S := J.blocks) line)
    (fun _ _ _ => Expr.eq_of_moved_id) fun result d past lined => ?_
  exact body_completes blocks .endFunction past lined

theorem forStatement_completes :
    Completes (fun J => J.pairing.Starts) (· ≠ []) (forStatement (block n)) c
      fun n => forStatement (block n) := by
  refine .advancing lined inner fun start d past lined => ?_
  refine .onLine past lined (identifier_consumes lined.closed).reads
    (fun J c' line => (Pairing.line_stands line).identifier) (fun _ _ _ same => same)
    fun counter d past lined => ?_
  refine .onLine past lined (symbol_consumes lined.closed .assign).reads
    (fun J c' line => (Pairing.line_stands line).symbol .assign) (fun _ _ _ same => same)
    fun _ d past lined => ?_
  refine .expression past lined fun first d past lined => ?_
  refine .onLine past lined (keyword_consumes lined.closed .to_).reads
    (fun J c' line => (Pairing.line_stands line).keyword .to_) (fun _ _ _ same => same)
    fun _ d past lined => ?_
  refine .expression past lined fun last d past lined => ?_
  refine .onLine past lined (loopStep_reads lined.closed)
    (fun J c' line => BlockPairing.loopStep (S := J.blocks) line)
    (fun _ _ _ => Expr.eq_of_map_moved_id) fun step d past lined => ?_
  obtain ⟨completes, lands⟩ := blocks (.words [.endFor, .next]) nofun d past lined.whole
  refine .block [.endFor] nofun completes lands (endsAt_pair List.mem_cons_self) ?_
    fun body d _ _ _ => .of_spares (closeFor_spares ..)
  intro n body d closing tail spells some all
  obtain ⟨t, u, rfl, isWord, isLine⟩ := closing_pair spells
  obtain ⟨rfl, next⟩ := advance_tokens all (by simp)
  have closes : (closeFor counter).run d = .ok ((), d.next) := by
    rw [closeFor, StateT.run_bind, atKeyword_run, isWord]
    rfl
  exact .after closes (finish_finishes _ _ next isLine some)

theorem whileStatement_completes :
    Completes (fun J => J.pairing.Starts) (· ≠ []) (whileStatement (block n)) c
      fun n => whileStatement (block n) := by
  refine .advancing lined inner fun start d past lined => ?_
  refine .expression past lined fun condition d past lined => ?_
  refine .looking (atKeyword_run .do_) (fun J c' _ line => ?_) ?_
  · rw [atKeyword_run, (Pairing.line_stands (S := J.pairing) line).decide_eq rfl]
  split
  case isTrue there =>
    have inner : d.here.lexeme.endsLine = false := by simp_all [Lexeme.endsLine]
    exact .onLine past lined (advance_consumes lined.closed inner).reads
      (fun J c' line => (Pairing.line_stands line).advance inner) (fun _ _ _ same => same)
      fun _ d => body_completes blocks .endWhile
  case isFalse => exact body_completes blocks .endWhile past lined

theorem doStatement_completes :
    Completes (fun J => J.pairing.Starts) (· ≠ []) (doStatement (block n)) c
      fun n => doStatement (block n) := by
  refine .advancing lined inner fun start d past lined => ?_
  obtain ⟨completes, lands⟩ := blocks .condition nofun d past lined.whole
  have closing_three {closing : List Token}
      (spells : closing.map Token.lexeme = spelled [[.while_, .true_]]) :
      ∃ t u v, closing = [t, u, v] ∧ t.lexeme = .keyword .while_ ∧ u.lexeme = .keyword .true_ ∧
        v.lexeme = .endOfLine := by
    obtain ⟨t, rest, rfl, isWord, spells⟩ := List.map_eq_cons_iff.mp spells
    obtain ⟨u, v, rfl, isTrue, isLine⟩ := closing_pair spells
    exact ⟨t, u, v, rfl, isWord, isTrue, isLine⟩
  refine .block [.while_, .true_] nofun completes lands ?_ ?_ fun body d _ lined inner => ?_
  · intro closing tail spells _
    obtain ⟨t, u, v, rfl, isWhile, isTrue, isLine⟩ := closing_three spells
    refine .of_over fun last => .inr ⟨by simp [Token.isEnd, isWhile], ?_⟩
    simp [Ending.reached, isWhile, isTrue, isLine, Cursor.lastOfLine, Token.isEnd]
  · intro n body d closing tail spells some all
    obtain ⟨t, u, v, rfl, isWhile, isTrue, isLine⟩ := closing_three spells
    obtain ⟨-, next⟩ := advance_tokens all (by simp)
    refine .after advance_run ((expression_true next isTrue isLine).bind fun condition e here => ?_)
    exact finish_finishes _ _ here isLine some
  · refine .of_spares (Passes.spares ?_ lined)
    refine (advance_consumes lined.closed inner).before fun _ d ahead => ?_
    have closed := lined.closed.along ahead.along
    exact (expression_consumes closed).reads.before fun _ _ _ => finish_leaves ..

theorem ifStatement_completes :
    Completes (fun J => J.pairing.Starts) (· ≠ []) (ifStatement (block n)) c
      fun n => ifStatement (block n) := by
  refine .advancing lined inner fun start d past lined => ?_
  refine .expression past lined fun condition d past lined => ?_
  have isCloser : Keyword.endIf ∈ [Keyword.else_, Keyword.endIf] := by simp
  have close {statement : Span → Stmt} {d : Cursor} {closing tail : List Token}
      (spells : closing.map Token.lexeme = spelled [[.endIf]]) (some : tail ≠ [])
      (all : d.tokens = closing ++ tail) :
      Finishes (keyword .endIf >>= fun _ => finish start statement) d tail := by
    obtain ⟨t, u, rfl, isWord, isLine⟩ := closing_pair spells
    exact keyword_finishes all isWord (by simp) fun _ e here =>
      finish_finishes _ _ here isLine some
  have spares {statement : Span → Stmt} {d : Cursor} (lined : d.Lined) :
      Spares (keyword .endIf >>= fun _ => finish start statement) d :=
    ((keyword_consumes lined.closed .endIf).before fun _ _ _ => finish_leaves ..).spares lined
  -- What follows the first block, when the statement is closed right there.
  have close' {n : Nat} {consequent : List Stmt} {d : Cursor} {closing tail : List Token}
      (spells : closing.map Token.lexeme = spelled [[.endIf]]) (some : tail ≠ [])
      (all : d.tokens = closing ++ tail) :
      Finishes (do
        if ← atKeyword .else_ then
          let _ ← advance
          let alternate ← block n (.words [.endIf])
          let _ ← keyword .endIf
          finish start (.ifElse condition consequent alternate)
        else
          let _ ← keyword .endIf
          finish start (.ifThen condition consequent)) d tail := by
    obtain ⟨t, u, rfl, isWord, -⟩ := closing_pair spells
    obtain ⟨rfl, -⟩ := advance_tokens all (by simp)
    refine .after (atKeyword_run .else_) ?_
    simp only [isWord, Lexeme.keyword.injEq, reduceCtorEq, decide_false, Bool.false_eq_true,
      if_false]
    exact close spells some all
  refine .skipping .then_ [.endIf] lined ?_ fun t d since lined => ?_
  · intro n t d closing tail spells some all
    have ends := endsAt_pair isCloser closing tail spells some
    exact (ends.finishes d n all).bind fun consequent e here => close' spells some here
  have past := past.trans_since since
  obtain ⟨completes, lands⟩ := blocks (.words [.else_, .endIf]) nofun d past lined.whole
  refine .block [.endIf] nofun completes lands (endsAt_pair isCloser) ?_
    fun consequent d since lined inner => ?_
  · exact fun _ _ _ _ _ => close'
  have past := past.trans_since since
  refine .looking (atKeyword_run .else_) (fun J c' _ starts => ?_) ?_
  · rw [atKeyword_run, starts.stands.decide_eq rfl]
  split
  · refine .advancing lined inner fun _ d later lined => ?_
    have past := past.trans_since later.1
    obtain ⟨completes, lands⟩ := blocks (.words [.endIf]) nofun d past lined.whole
    refine .block [.endIf] nofun completes lands (endsAt_pair List.mem_cons_self)
      (fun _ _ _ _ _ => close) fun alternate d _ lined _ => ?_
    exact .of_spares (spares lined)
  · exact .of_spares (spares lined)

omit inner in
theorem statementWith_completes :
    Completes (fun J => J.pairing.Starts) (· ≠ []) (statementWith (block n)) c
      fun n => statementWith (block n) := by
  refine .looking peek_run (fun J c' _ starts => ?_) ?_
  · have same : c.here = c'.here := starts.stands.same starts.inner
    rw [peek_run, ← same]
  have starts {l : Lexeme} (isHere : c.here.lexeme = l) (isInner : l.endsLine = false) :
      c.here.lexeme.endsLine = false := by
    rw [isHere]
    exact isInner
  have simple {p : Parser Stmt} {q : Nat → Parser Stmt} (passes : Passes p c) :
      Completes (fun J => J.pairing.Starts) (· ≠ []) p c q :=
    .of_spares (passes.spares lined)
  split
  case h_1 name isHere => exact simple (assignment_passes lined.closed)
  case h_2 isHere => exact simple (declaration_passes lined.closed (starts isHere rfl))
  case h_3 isHere => exact simple (constantDeclaration_passes lined.closed (starts isHere rfl))
  case h_4 isHere => exact simple (outputStatement_passes lined.closed (starts isHere rfl))
  case h_5 isHere => exact simple (callStatement_passes lined.closed (starts isHere rfl))
  case h_6 isHere => exact simple (returnStatement_passes lined.closed (starts isHere rfl))
  case h_7 isHere => exact ifStatement_completes lined (starts isHere rfl) blocks
  case h_8 isHere => exact forStatement_completes lined (starts isHere rfl) blocks
  case h_9 isHere => exact whileStatement_completes lined (starts isHere rfl) blocks
  case h_10 isHere => exact doStatement_completes lined (starts isHere rfl) blocks
  case h_11 isHere => exact procedureStatement_completes lined (starts isHere rfl) blocks
  case h_12 isHere => exact functionStatement_completes lined (starts isHere rfl) blocks
  case h_13 => exact .of_spares lined.inner

end Compound

theorem block_lands (unclosed : ending.closers ≠ []) (whole : c.Whole)
    (enough : c.tokens.length < n) {body : List Stmt}
    (ran : (block n ending).run c = .ok (body, d)) :
    c.Since d ∧ d.Lined ∧ d.here.lexeme.endsLine = false := by
  have proceeds := block_proceeds whole.closed enough ending
  unfold Proceeds Yields at proceeds
  rw [ran] at proceeds
  have follows : Cursor.Follows id c c := ⟨whole.closed, rfl, by simp [funext Token.moved_id]⟩
  have agrees := BlockPairing.block (S := .moved id) n n unclosed follows
  unfold Pairing.Agrees at agrees
  rw [ran] at agrees
  cases agrees with
  | ok _ starts =>
    have inner := Token.isEnd_of_not_endsLine starts.inner
    exact ⟨proceeds, ⟨whole.since proceeds, inner⟩, starts.inner⟩

/-- At the start of a statement a block goes on with it, on both sides. -/
theorem block_finishes {J : Junction} {m : Nat} (gap : J.Gap c c')
    (inner : c.skipped.here.isEnd = false) (goes : ending.reached c.skipped = false)
    (finishes : J.pairing.Starts c.skipped c'.skipped → ∀ m, Finishes (do
      let statement ← statementWith (block m)
      let rest ← block m ending
      return statement :: rest) c'.skipped tail) :
    Finishes (block m ending) c' tail := by
  cases m with
  | zero => exact rfl
  | succ m =>
    have starts := gap.starts inner
    have notEnd := (BlockPairing.isEnd_eq (S := J.blocks) starts).2
    have goes' := (BlockPairing.reached_eq (S := J.blocks) starts ending).trans goes
    rw [block]
    refine .after skipLineEnds_run (.after get_run ?_)
    simp only [notEnd, goes', Bool.false_eq_true, if_false]
    exact finishes starts m

/-- A block whose input ends between two statements needs no line of its own. -/
theorem block_completes_of_isEnd (isEnd : c.skipped.here.isEnd = true) :
    Completes Junction.Gap (EndsAt ending) (block n ending) c (block · ending) := by
  intro e failed incomplete
  refine ⟨[], fun J noMark closing tail spells all ready c' n gap => ?_⟩
  obtain rfl := List.map_eq_nil_iff.mp spells
  obtain ⟨last, here⟩ := gap.skip_of_isEnd isEnd
  cases n with
  | zero => exact rfl
  | succ n =>
    have finishes := ready.finishes ⟨last, J.first, J.rest⟩ (n + 1) all
    unfold Finishes Yields at finishes ⊢
    rw [← BlockPairing.block_skipped, here, BlockPairing.block_skipped]
    exact finishes

/-- The statement is not completed, or it is complete and one of the next ones is not. -/
theorem block_completes_of_statement (inner : c.skipped.here.isEnd = false)
    (goes : ending.reached c.skipped = false)
    (first : Completes (fun J => J.pairing.Starts) (· ≠ []) (statementWith (block n)) c.skipped
      fun n => statementWith (block n))
    (next : ∀ statement d, (statementWith (block n)).run c.skipped = .ok (statement, d) →
      Completes Junction.Gap (EndsAt ending) (block n ending) d (block · ending)) :
    Completes Junction.Gap (EndsAt ending) (block (n + 1) ending) c (block · ending) := by
  intro e failed incomplete
  rw [BlockPairing.block_run inner goes] at failed
  cases ran : (statementWith (block n)).run c.skipped with
  | error e' =>
    rw [ran] at failed
    cases failed
    obtain ⟨lines, completes⟩ := first e ran incomplete
    refine ⟨lines, fun J noMark closing tail spells all ready c' m gap => ?_⟩
    refine block_finishes gap inner goes fun starts m => ?_
    refine (completes J noMark closing tail spells all ready.some _ m starts).bind ?_
    intro statement d here
    exact (ready.finishes d m here).bind fun rest e here => here
  | ok result =>
    rw [ran] at failed
    have failed : (block n ending).run result.2 = .error e := Token.of_map_error failed
    obtain ⟨lines, completes⟩ := next result.1 result.2 ran e failed incomplete
    refine ⟨lines, fun J noMark closing tail spells all ready c' m gap => ?_⟩
    refine block_finishes gap inner goes fun starts m => ?_
    have agrees := BlockPairing.statementWith (S := J.blocks) starts
      fun _ closing _ _ => BlockPairing.block n m closing
    refine .of_agrees agrees ran fun statement d' _ gap => ?_
    refine (completes J noMark closing tail spells all ready d' m gap).bind ?_
    exact fun rest e here => here

theorem block_completes (whole : c.Whole) (enough : c.tokens.length < n) :
    Completes Junction.Gap (EndsAt ending) (block n ending) c (block · ending) := by
  induction n generalizing c ending with
  | zero => omega
  | succ n ih =>
  have since : c.Since c.skipped := Cursor.since_skipLineEnds ..
  have fewer := since.length_le
  have shorter {d : Cursor} (past : c.skipped.Past d) : d.tokens.length < n := by
    have := past.2
    omega
  cases isEnd : c.skipped.here.isEnd with
  | true => exact block_completes_of_isEnd isEnd
  | false =>
  have lined : c.skipped.Lined := ⟨whole.since since, isEnd⟩
  cases reached : ending.reached c.skipped with
  | true =>
    intro e failed
    rw [block, StateT.run_bind, skipLineEnds_run] at failed
    change StateT.run (if c.skipped.here.isEnd = true then _ else _) c.skipped = _ at failed
    rw [isEnd, reached] at failed
    cases failed
  | false =>
    refine block_completes_of_statement isEnd reached (statementWith_completes lined ?_) ?_
    · intro ending unclosed d past whole
      exact ⟨ih whole (shorter past), fun _ _ => block_lands unclosed whole (shorter past)⟩
    · intro statement d ran
      have inner (ending : Ending) (d : Cursor) (past : c.skipped.Past d) :
          Proceeds (block n ending) d :=
        block_proceeds (lined.closed.since past.1) (shorter past) ending
      have progresses := statementWith_progresses lined.closed inner
      unfold Progresses Yields at progresses
      rw [ran] at progresses
      exact ih (lined.whole.since progresses.1) (shorter progresses)

end Parser

/-! ## Lines of keywords -/

def Text.ofLines (lines : List (List Keyword)) : List Char :=
  lines.flatMap fun words => (words.flatMap fun word => word.spelling.toList ++ [' ']) ++ ['\n']

namespace Keyword

theorem ofSpelling?_spelling (word : Keyword) : ofSpelling? word.spelling = some word := by
  cases word <;> decide +kernel

theorem spelling_ne_nil (word : Keyword) : word.spelling.toList ≠ [] := by
  cases word <;> decide +kernel

/-- A keyword is spelled as it is written, in front of what is no part of a word. -/
theorem exists_spelled (word : Keyword) : ∃ c cs, word.spelling.toList = c :: cs ∧
    ∀ later : List Char, (∀ x ∈ later.head?, isWordPart x = false) →
      (Lexeme.keyword word).Spelled c cs later := by
  -- The check runs over the word: deciding the statement itself could go through every character.
  have letters : (word.spelling.toList.all isWordStart) = true := by
    cases word <;> decide +kernel
  obtain ⟨c, cs, spells⟩ := List.exists_cons_of_ne_nil word.spelling_ne_nil
  simp only [spells, List.all_cons, Bool.and_eq_true, List.all_eq_true] at letters
  refine ⟨c, cs, spells, fun later stops => ?_⟩
  have isWord : Lexeme.keyword word = .ofWord (c :: cs) := by
    rw [Lexeme.ofWord, ← spells, String.ofList_toList, word.ofSpelling?_spelling]
  rw [isWord]
  refine .word letters.1 (fun x member => ?_) stops
  have starts := letters.2 x member
  simp only [isWordStart, isWordPart, Bool.or_eq_true] at starts ⊢
  exact starts.imp_left .inl

end Keyword

namespace Token

/-- Wherever the text stands, its tokens say this. -/
def Scans (cs : List Char) (lexemes : List Lexeme) : Prop :=
  ∀ pos, ∃ tokens stop, scanFrom pos cs = .ok (tokens ++ [stop]) ∧
    tokens.map Token.lexeme = lexemes ∧ stop.isEnd = true

variable {later : List Char} {lexemes : List Lexeme}

theorem Scans.nil : Scans [] [] := by
  intro pos
  rw [scanFrom]
  exact ⟨[], _, rfl, rfl, rfl⟩

theorem Scans.space (rest : Scans later lexemes) : Scans (' ' :: later) lexemes := by
  intro pos
  rw [scanFrom]
  exact rest (pos.next ' ')

theorem Scans.lexeme {l : Lexeme} {c : Char} {cs : List Char} (spelled : l.Spelled c cs later)
    (rest : Scans later lexemes) : Scans (c :: (cs ++ later)) (l :: lexemes) := by
  intro pos
  obtain ⟨tokens, stop, scanned, same, isEnd⟩ := rest (pos.after (c :: cs))
  refine ⟨ofLexeme l pos (pos.after (c :: cs)) :: tokens, stop, ?_, ?_, isEnd⟩
  · rw [scanFrom, Piece.ofText_spelled spelled]
    simp only [List.take_left', List.drop_left', scanned]
    rfl
  · rw [List.map_cons, same, ofLexeme]
    split <;> rfl

theorem Scans.keyword (rest : Scans later lexemes) (word : Keyword) :
    Scans (word.spelling.toList ++ ' ' :: later) (.keyword word :: lexemes) := by
  obtain ⟨c, cs, spells, spelled⟩ := word.exists_spelled
  rw [spells]
  refine .lexeme (spelled _ fun x isHead => ?_) rest.space
  cases isHead
  decide +kernel

theorem scans_ofLines (lines : List (List Keyword)) :
    Scans (Text.ofLines lines) (Parser.spelled lines) := by
  induction lines with
  | nil => exact .nil
  | cons words lines ih =>
    have line : Scans ('\n' :: Text.ofLines lines) (.endOfLine :: Parser.spelled lines) :=
      .lexeme .newline ih
    have all (words : List Keyword) :
        Scans ((words.flatMap fun word => word.spelling.toList ++ [' ']) ++
            '\n' :: Text.ofLines lines)
          (words.map .keyword ++ .endOfLine :: Parser.spelled lines) := by
      induction words with
      | nil => exact line
      | cons word words ih =>
        have := ih.keyword word
        simpa using this
    simpa [Text.ofLines, Parser.spelled] using all words

end Token

/-! ## Programs -/

namespace Token

theorem scanFrom_complete {pos : Position} {cs : List Char} {e : SyntaxError}
    (failed : scanFrom pos cs = .error e) : e.incomplete = false := by
  fun_induction scanFrom pos cs with
  | case1 => cases failed
  | case2 =>
    cases failed
    rfl
  | case3 pos c rest more isPiece ih => exact ih failed
  | case4 pos c rest l more isPiece stop =>
    rename_i ih
    exact ih (of_map_error failed)

/-- The tokens of a text, ended by a line feed and continued. -/
theorem scan_newline {cs : List Char} {tokens : List Token} (scanned : scan cs = .ok tokens) :
    ∃ body stop, scan (cs ++ ['\n']) = .ok (body ++ [stop]) ∧ stop.isEnd = true ∧
      (∀ t ∈ body, t.isEnd = false) ∧ (∃ t, body.getLast? = some t ∧ t.lexeme = .endOfLine) ∧
      ∀ ds, scan (cs ++ '\n' :: ds) =
        (((scan ds).map (List.map (moved (.down (1 + cs.count '\n'))))).mapError
          (SyntaxError.moved (.down (1 + cs.count '\n')))).map (body ++ ·) := by
  obtain ⟨before, rfl, notEnd⟩ := scanFrom_closed scanned
  refine ⟨before ++ [lineEnd (Position.first.after cs)],
    ⟨.endOfInput, Position.first.down (1 + cs.count '\n'), Position.first.down (1 + cs.count '\n')⟩,
    ?_, rfl, ?_, ⟨_, List.getLast?_concat, rfl⟩, fun ds => ?_⟩
  · rw [scan_line scanned, List.dropLast_concat, scan, scanFrom, List.append_assoc]
    rfl
  · intro t member
    rcases List.mem_append.mp member with member | member
    · exact notEnd t member
    · rw [List.mem_singleton.mp member]
      rfl
  · rw [scan_line scanned, List.dropLast_concat]
    simp only [List.append_assoc, List.singleton_append]

end Token

namespace Program

open Position

def resumption (stop t : Token) (rest : List Token) (isEnd : stop.isEnd = true) : Junction where
  stop := stop
  mark := none
  first := t
  rest := rest
  isEnd := isEnd
  isMark := nofun

variable {e : SyntaxError}

/-- A text, ended by a line feed, that is no program, with an error that is not about its end. -/
theorem ofText_newline_of_error {cs : List Char} (failed : ofText (cs ++ ['\n']) = .error e)
    (complete : e.incomplete = false) (ds : List Char) :
    ∃ e', ofText (cs ++ '\n' :: ds) = .error e' := by
  cases scanned : Token.scan cs with
  | error e => exact ⟨e, ofText_line_of_scan scanned ds⟩
  | ok tokens =>
    unfold ofText at failed ⊢
    obtain ⟨body, stop, scanned', isEnd, notEnd, lineEnded, goes⟩ := Token.scan_newline scanned
    rw [scanned'] at failed
    rw [goes]
    cases later : Token.scan ds with
    | error e => exact ⟨_, rfl⟩
    | ok tokens =>
      obtain ⟨t, rest, rfl, closed⟩ := Token.scan_closed later
      exact ⟨e, ofTokens_junction_error (J := resumption stop _ _ isEnd) (.inr lineEnded) notEnd
        (closed.moved (down (1 + cs.count '\n'))) failed complete⟩

/-- Tokens that end with a line, whose error is about the end of the input. -/
theorem ofTokens_completes {body : List Token} {stop : Token} (isEnd : stop.isEnd = true)
    (notEnd : ∀ t ∈ body, t.isEnd = false)
    (lineEnded : ∃ t, body.getLast? = some t ∧ t.lexeme = .endOfLine)
    (failed : ofTokens (body ++ [stop]) = .error e) (incomplete : e.incomplete = true) :
    ∃ lines, ∀ t rest closing stop', t :: rest = closing ++ [stop'] →
      closing.map Token.lexeme = Parser.spelled lines → stop'.isEnd = true →
      (Cursor.mk t t rest).Closed → ∃ p, ofTokens (body ++ t :: rest) = .ok p := by
  have gap (t : Token) (rest : List Token) :
      ∃ c c', Cursor.ofTokens? (body ++ [stop]) = some c ∧
        Cursor.ofTokens? (body ++ t :: rest) = some c' ∧ (resumption stop t rest isEnd).Gap c c' :=
    Junction.gap_start (J := resumption stop t rest isEnd) (.inr lineEnded) notEnd
  obtain ⟨c, -, start, -, -⟩ := gap stop []
  have whole : c.Whole := by
    obtain ⟨u, last, isLine⟩ := lineEnded
    cases body with
    | nil => cases last
    | cons b body =>
      cases start
      refine ⟨b :: body, stop, rfl, isEnd, notEnd, fun t same => ?_⟩
      rw [last] at same
      cases same
      exact isLine
  rw [ofTokens_eq start] at failed
  have enough : c.tokens.length < c.rest.length + 2 := by simp [Cursor.tokens]
  obtain ⟨lines, completes⟩ :=
    Parser.block_completes whole enough e (Token.of_map_error failed) incomplete
  refine ⟨lines, fun t rest closing stop' all spells isEnd' closed => ?_⟩
  obtain ⟨d, c', same, start', gap⟩ := gap t rest
  obtain rfl : c = d := Option.some.inj (start.symm.trans same)
  have finishes := completes _ rfl closing [stop'] spells all
    (.of_over fun _ => .inl ⟨isEnd', rfl⟩) c' (c'.rest.length + 2) gap
  have enough' := shallow (closed_tail (J := resumption stop t rest isEnd) notEnd closed start')
  unfold Parser.Finishes Parser.Yields at finishes
  have parsed := ofTokens_eq start'
  cases ran : (Parser.block (c'.rest.length + 2) .input).run c' with
  | ok result =>
    rw [ran] at parsed
    exact ⟨_, parsed⟩
  | error e' =>
    rw [ran] at finishes
    exact absurd finishes (enough' e' ran)

/-- A text, ended by a line feed, whose error is about its end. -/
theorem ofText_newline_completes {cs : List Char} (failed : ofText (cs ++ ['\n']) = .error e)
    (incomplete : e.incomplete = true) :
    ∃ lines p, ofText (cs ++ '\n' :: Text.ofLines lines) = .ok p := by
  unfold ofText at failed ⊢
  cases scanned : Token.scan cs with
  | error e' =>
    unfold Token.scan at scanned failed
    rw [Token.scanFrom_line, scanned] at failed
    cases failed
    rw [Token.scanFrom_complete scanned] at incomplete
    cases incomplete
  | ok tokens =>
    obtain ⟨body, stop, scanned', isEnd, notEnd, lineEnded, goes⟩ := Token.scan_newline scanned
    rw [scanned'] at failed
    obtain ⟨lines, completes⟩ := ofTokens_completes isEnd notEnd lineEnded failed incomplete
    obtain ⟨closing, stop', later, spells, isEnd'⟩ := Token.scans_ofLines lines first
    obtain ⟨t, rest, all, closed⟩ := Token.scan_closed later
    refine ⟨lines, ?_⟩
    have scans : Token.scan (Text.ofLines lines) = .ok (t :: rest) := later.trans (congrArg _ all)
    rw [goes, scans]
    have moved := congrArg (List.map (Token.moved (down (1 + cs.count '\n')))) all
    rw [List.map_append] at moved
    refine completes _ _ _ _ moved.symm ?_ isEnd' (closed.moved _)
    rw [List.map_map]
    exact spells

theorem ofBytes_newline_of_error {source : List UInt8}
    (failed : ofBytes (source ++ [10]) = .error e) (complete : e.incomplete = false)
    (more : List UInt8) : ∃ e', ofBytes (source ++ 10 :: more) = .error e' := by
  unfold ofBytes at *
  rw [Text.decode_line] at *
  exact ofText_newline_of_error failed complete (Text.decode more)

/-- Exactly those sources can be completed by further lines that are programs after a line feed, or
whose error after a line feed is about the end of the input. -/
theorem completable_iff (source : List UInt8) :
    (∃ more p, ofBytes (source ++ 10 :: more) = .ok p) ↔
      ∀ e, ofBytes (source ++ [10]) = .error e → e.incomplete = true := by
  constructor
  · rintro ⟨more, p, parsed⟩ e failed
    by_contra complete
    obtain ⟨e', failed'⟩ := ofBytes_newline_of_error failed (Bool.eq_false_iff.mpr complete) more
    rw [parsed] at failed'
    cases failed'
  · intro incomplete
    cases ran : ofBytes (source ++ [10]) with
    | ok p => exact ⟨[], p, ran⟩
    | error e =>
      have incomplete := incomplete e ran
      unfold ofBytes at *
      rw [Text.decode_line] at ran
      obtain ⟨lines, p, parsed⟩ := ofText_newline_completes ran incomplete
      refine ⟨Text.utf8 (Text.ofLines lines), p, ?_⟩
      rw [Text.decode_line, Text.decode_utf8]
      exact parsed

def Sample.undeclared : List UInt8 := [68, 69, 67, 76, 65, 82, 69, 32, 120]

theorem exists_error {x : Except SyntaxError Program} {isIncomplete : Bool}
    (flag : (failure? x).map SyntaxError.incomplete = some isIncomplete) :
    ∃ e, x = .error e ∧ e.incomplete = isIncomplete := by
  cases x with
  | ok p => cases flag
  | error e => exact ⟨e, rfl, Option.some.inj flag⟩

/-- An error about the end of the input does not mean that further lines help: the colon after the
name has to stand on the same line. -/
theorem incomplete_not_completable :
    ¬ ∀ source e, ofBytes source = .error e → e.incomplete = true →
      ∃ more p, ofBytes (source ++ 10 :: more) = .ok p := by
  intro completable
  obtain ⟨e, failed, incomplete⟩ := exists_error (show
    (failure? (ofBytes Sample.undeclared)).map SyntaxError.incomplete = some true by decide +kernel)
  obtain ⟨e', failed', complete⟩ := exists_error (show
    (failure? (ofBytes (Sample.undeclared ++ [10]))).map SyntaxError.incomplete = some false by
      decide +kernel)
  obtain ⟨more, p, parsed⟩ := completable Sample.undeclared e failed incomplete
  obtain ⟨e'', failed''⟩ := ofBytes_newline_of_error failed' complete more
  rw [parsed] at failed''
  cases failed''

end Program

end Pseudocode
