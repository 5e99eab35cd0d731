import Pseudocode.Proofs.Progress

/-! # Tokens that a parser moves over

A parser that succeeds moves over some tokens, and what it gives is told by them. `Delivers` relates
what a parser gives to the tokens it has moved over; `Reaches` says that a parser, started where
some tokens stand, gives one thing and stops behind them, unless the bound on its recursion is too
small. -/

namespace Pseudocode

open Program (spanOf)

namespace Cursor

/-- Moving over the tokens `ts` leads from one cursor to another. -/
def Walks (c : Cursor) : List Token → Cursor → Prop
  | [], d => c = d
  | t :: ts, d => c.here = t ∧ c.rest ≠ [] ∧ c.next.Walks ts d

variable {c d d' e : Cursor} {t : Token} {ts us : List Token}

@[simp] theorem walks_nil : c.Walks [] d ↔ c = d := Iff.rfl

theorem walks_cons : c.Walks (t :: ts) d ↔ c.here = t ∧ c.rest ≠ [] ∧ c.next.Walks ts d := Iff.rfl

theorem walks_append : c.Walks (ts ++ us) e ↔ ∃ d, c.Walks ts d ∧ d.Walks us e := by
  induction ts generalizing c with
  | nil => simp
  | cons t ts ih => simp only [List.cons_append, walks_cons, ih]; grind

theorem Walks.trans (first : c.Walks ts d) (second : d.Walks us e) : c.Walks (ts ++ us) e :=
  walks_append.mpr ⟨d, first, second⟩

theorem Walks.unique (walks : c.Walks ts d) (walks' : c.Walks ts d') : d = d' := by
  induction ts generalizing c with
  | nil => exact walks.symm.trans walks'
  | cons t ts ih => exact ih walks.2.2 walks'.2.2

theorem next_tokens (more : c.rest ≠ []) : c.next.tokens = c.rest ∧ c.next.last = c.here := by
  obtain ⟨last, here, rest⟩ := c
  cases rest with
  | nil => exact absurd rfl more
  | cons u rest => exact ⟨rfl, rfl⟩

theorem Walks.tokens (walks : c.Walks ts d) : c.tokens = ts ++ d.tokens := by
  induction ts generalizing c with
  | nil => rw [walks_nil.mp walks, List.nil_append]
  | cons t ts ih =>
    obtain ⟨rfl, more, walks⟩ := walks
    rw [List.cons_append, ← ih walks, (next_tokens more).1]
    rfl

theorem Walks.last (walks : c.Walks ts d) : d.last = ts.getLastD c.last := by
  induction ts generalizing c with
  | nil => rw [walks_nil.mp walks, List.getLastD_nil]
  | cons t ts ih =>
    obtain ⟨rfl, more, walks⟩ := walks
    rw [ih walks, (next_tokens more).2, List.getLastD_cons]

theorem Walks.here (walks : c.Walks (t :: ts) d) : c.here = t := walks.1

theorem exists_walks (here : c.tokens = ts ++ us) (more : us ≠ []) : ∃ d, c.Walks ts d := by
  induction ts generalizing c with
  | nil => exact ⟨c, rfl⟩
  | cons t ts ih =>
    obtain ⟨same, rest⟩ := List.cons.inj here
    have inner : c.rest ≠ [] := by simp [rest, more]
    obtain ⟨d, walks⟩ := ih ((next_tokens inner).1.trans rest)
    exact ⟨d, same, inner, walks⟩

theorem Closed.walks (closed : c.Closed) (walks : c.Walks ts d) : d.Closed :=
  closed.of_append walks.tokens

theorem Closed.walks_next (closed : c.Closed) (inner : c.here.isEnd = false) :
    c.Walks [c.here] c.next :=
  ⟨rfl, closed.rest_ne_nil inner, rfl⟩

theorem Walks.spanOf (walks : c.Walks ts d) (some : ts ≠ []) :
    spanOf ts = ⟨c.here.start, d.last.stop⟩ := by
  cases ts with
  | nil => exact absurd rfl some
  | cons t ts =>
    have here : c.here = t := walks.here
    have last := walks.last
    rw [List.getLastD_cons] at last
    rw [here, last, Program.spanOf, List.head?_cons, List.getLast?_cons]
    simp [List.getLastD_eq_getLast?]

end Cursor

namespace Parser

variable {α β : Type} {c d e : Cursor} {p : Parser α} {k : α → Parser β}

/-! ## What the tokens tell -/

/-- What the parser gives, and where it stops, is told by the tokens it has moved over. -/
def Delivers (p : Parser α) (c : Cursor) (told : List Token → α → Cursor → Prop) : Prop :=
  Yields p c (fun a d => ∃ ts, c.Walks ts d ∧ told ts a d) fun _ => True

variable {mid told' : List Token → α → Cursor → Prop} {told : List Token → β → Cursor → Prop}

theorem Delivers.ok (delivers : Delivers p c mid) {a : α} (ran : p.run c = .ok (a, d)) :
    ∃ ts, c.Walks ts d ∧ mid ts a d := by
  unfold Delivers Yields at delivers
  rwa [ran] at delivers

theorem Delivers.mono (delivers : Delivers p c mid) (weaker : ∀ ts a d, mid ts a d → told' ts a d) :
    Delivers p c told' :=
  Yields.mono delivers (fun a d ⟨ts, walks, holds⟩ => ⟨ts, walks, weaker ts a d holds⟩)
    fun _ _ => trivial

theorem Delivers.bind (first : Delivers p c mid) (second : ∀ ts a d, c.Walks ts d → mid ts a d →
    Delivers (k a) d fun us b e => told (ts ++ us) b e) : Delivers (p >>= k) c told := by
  apply Yields.bind first
  rintro a d ⟨ts, walks, holds⟩
  apply Yields.mono (second ts a d walks holds) _ fun _ _ => trivial
  rintro b e ⟨us, walks', holds'⟩
  exact ⟨ts ++ us, walks.trans walks', holds'⟩

theorem Delivers.pure {a : α} (holds : mid [] a c) : Delivers (pure a) c mid :=
  ⟨[], rfl, holds⟩

theorem Delivers.looking {a : α} (ran : p.run c = .ok (a, c)) (second : Delivers (k a) c told) :
    Delivers (p >>= k) c told :=
  Yields.after ran second

theorem fail_delivers (t : Token) (cause : SyntaxError.Cause) : Delivers (fail t cause) c mid :=
  trivial

theorem failWanting_delivers (wanted : Wanted) : Delivers (failWanting wanted) c mid :=
  trivial

theorem tooDeep_delivers : Delivers tooDeep c mid := trivial

theorem advance_delivers (closed : c.Closed) (inner : c.here.isEnd = false) :
    Delivers advance c fun ts t d => ts = [t] ∧ t = c.here ∧ d = c.next :=
  ⟨[c.here], closed.walks_next inner, rfl, rfl, rfl⟩

theorem Delivers.advancing {k : Token → Parser β} (closed : c.Closed)
    (inner : c.here.isEnd = false)
    (second : c.next.Closed → Delivers (k c.here) c.next fun us b e => told (c.here :: us) b e) :
    Delivers (advance >>= k) c told := by
  apply (advance_delivers closed inner).bind
  rintro ts t d walks ⟨rfl, rfl, rfl⟩
  exact second (closed.walks walks)

theorem keyword_delivers (closed : c.Closed) (word : Keyword) :
    Delivers (keyword word) c fun ts t _ => ts = [t] ∧ t.lexeme = .keyword word := by
  apply Delivers.looking (atKeyword_run word)
  split
  case isTrue there =>
    have isWord : c.here.lexeme = .keyword word := of_decide_eq_true there
    apply (advance_delivers closed (by simp [Token.isEnd, isWord])).mono
    rintro ts t d ⟨rfl, rfl, -⟩
    exact ⟨rfl, isWord⟩
  case isFalse => exact failWanting_delivers _

theorem symbol_delivers (closed : c.Closed) (sign : Symbol) :
    Delivers (symbol sign) c fun ts t _ => ts = [t] ∧ t.lexeme = .symbol sign := by
  apply Delivers.looking (atSymbol_run sign)
  split
  case isTrue there =>
    have isSign : c.here.lexeme = .symbol sign := of_decide_eq_true there
    apply (advance_delivers closed (by simp [Token.isEnd, isSign])).mono
    rintro ts t d ⟨rfl, rfl, -⟩
    exact ⟨rfl, isSign⟩
  case isFalse => exact failWanting_delivers _

/-- What tells that a symbol was there, or was not. -/
inductive Optional (sign : Symbol) : List Token → Bool → Cursor → Prop where
  | given {t : Token} {d : Cursor} : t.lexeme = .symbol sign → Optional sign [t] true d
  | missing {d : Cursor} : d.here.lexeme ≠ .symbol sign → Optional sign [] false d

theorem optionalSymbol_delivers (closed : c.Closed) (sign : Symbol) :
    Delivers (optionalSymbol sign) c (Optional sign) := by
  apply Delivers.looking (atSymbol_run sign)
  split
  case isTrue there =>
    have isSign : c.here.lexeme = .symbol sign := of_decide_eq_true there
    apply Delivers.advancing closed (by simp [Token.isEnd, isSign])
    intro _
    exact .pure (.given isSign)
  case isFalse other => exact .pure (.missing (by simpa using other))

theorem identifier_delivers (closed : c.Closed) :
    Delivers identifier c fun ts id _ =>
      ∃ t, ts = [t] ∧ t.lexeme = .identifier id.name ∧ id.span = t.span := by
  apply Delivers.looking peek_run
  split
  case h_1 name isName =>
    apply Delivers.advancing closed (by simp [Token.isEnd, isName])
    intro _
    exact .pure ⟨c.here, rfl, isName, rfl⟩
  case h_2 => exact failWanting_delivers _

/-! ## What stands where some tokens do -/

/-- The parser gives `a` and stops at `d`, unless the bound on the recursion is too small. -/
def Reaches (p : Parser α) (c : Cursor) (a : α) (d : Cursor) : Prop :=
  p.run c = .ok (a, d) ∨ ∃ error, p.run c = .error error ∧ error.cause = .nestedTooDeep

variable {a : α} {b : β}

theorem Reaches.of_run (ran : p.run c = .ok (a, d)) : Reaches p c a d := .inl ran

theorem Reaches.bind (first : Reaches p c a d) (second : Reaches (k a) d b e) :
    Reaches (p >>= k) c b e := by
  unfold Reaches at *
  rw [StateT.run_bind]
  rcases first with ran | ⟨error, failed, deep⟩
  · rw [ran]
    exact second
  · rw [failed]
    exact .inr ⟨error, rfl, deep⟩

theorem Reaches.pure (a : α) (c : Cursor) : Reaches (pure a) c a c := .inl rfl

theorem tooDeep_reaches : Reaches tooDeep c a d := .inr ⟨_, rfl, rfl⟩

/-- What is said of a parser with a bound need not be shown for the bound zero. -/
theorem Reaches.bounded {p : Nat → Parser α} (zero : p 0 = tooDeep)
    (succ : ∀ n, Reaches (p (n + 1)) c a d) : ∀ n, Reaches (p n) c a d
  | 0 => zero ▸ tooDeep_reaches
  | n + 1 => succ n

/-- A parser that never complains about its bound runs as it should. -/
theorem Reaches.run (reaches : Reaches p c a d)
    (shallow : ∀ error, p.run c = .error error → error.cause ≠ .nestedTooDeep) :
    p.run c = .ok (a, d) := by
  rcases reaches with ran | ⟨error, failed, deep⟩
  · exact ran
  · exact absurd deep (shallow error failed)

theorem Reaches.looking (ran : p.run c = .ok (a, c)) (second : Reaches (k a) c b e) :
    Reaches (p >>= k) c b e :=
  (Reaches.of_run ran).bind second

theorem Reaches.advancing {k : Token → Parser β} (second : Reaches (k c.here) c.next b e) :
    Reaches (advance >>= k) c b e :=
  (Reaches.of_run advance_run).bind second

theorem Reaches.map (reaches : Reaches p c a d) (f : α → β) : Reaches (f <$> p) c (f a) d := by
  rw [map_eq_pure_bind]
  exact reaches.bind (.pure _ _)

theorem keyword_reaches {word : Keyword} (isWord : c.here.lexeme = .keyword word) :
    Reaches (keyword word) c c.here c.next := by
  apply Reaches.looking (atKeyword_run word)
  rw [decide_eq_true isWord]
  exact .of_run advance_run

variable {sign : Symbol}

theorem symbol_reaches (isSign : c.here.lexeme = .symbol sign) :
    Reaches (symbol sign) c c.here c.next := by
  apply Reaches.looking (atSymbol_run sign)
  rw [decide_eq_true isSign]
  exact .of_run advance_run

theorem optionalSymbol_reaches (isSign : c.here.lexeme = .symbol sign) :
    Reaches (optionalSymbol sign) c true c.next := by
  apply Reaches.looking (atSymbol_run sign)
  rw [decide_eq_true isSign]
  exact .of_run rfl

theorem optionalSymbol_stays (other : c.here.lexeme ≠ .symbol sign) :
    Reaches (optionalSymbol sign) c false c := by
  apply Reaches.looking (atSymbol_run sign)
  rw [decide_eq_false other]
  exact .of_run rfl

theorem identifier_reaches {name : String} (isName : c.here.lexeme = .identifier name) :
    Reaches identifier c ⟨name, c.here.span⟩ c.next := by
  apply Reaches.looking peek_run
  rw [isName]
  exact .of_run rfl

end Parser

end Pseudocode
