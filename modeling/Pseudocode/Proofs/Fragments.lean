import Pseudocode.Proofs.Roundtrip

/-! # Spans and the text they cut out

Tokens stand in the source one after another, so the span of a node starts before it ends, holds the
spans of its children, and lies before the spans of the statements that follow in the same body. The
text a span cuts out is scanned to the tokens of the node, and reading it alone gives the node back.
-/

namespace Pseudocode

open Program (spanOf)

/-! ## Places in order -/

namespace Position

instance : LT Position :=
  ⟨fun p q => p.line < q.line ∨ p.line = q.line ∧ p.column < q.column⟩

instance : LE Position :=
  ⟨fun p q => p.line < q.line ∨ p.line = q.line ∧ p.column ≤ q.column⟩

theorem lt_iff {p q : Position} :
    p < q ↔ p.line < q.line ∨ p.line = q.line ∧ p.column < q.column := Iff.rfl

theorem le_iff {p q : Position} :
    p ≤ q ↔ p.line < q.line ∨ p.line = q.line ∧ p.column ≤ q.column := Iff.rfl

instance (p q : Position) : Decidable (p < q) :=
  decidable_of_iff _ lt_iff.symm

instance (p q : Position) : Decidable (p ≤ q) :=
  decidable_of_iff _ le_iff.symm

variable {p q r : Position}

theorem le_refl (p : Position) : p ≤ p := by
  rw [le_iff]
  omega

theorem le_of_lt (lt : p < q) : p ≤ q := by
  rw [lt_iff] at lt
  rw [le_iff]
  omega

theorem le_trans (le : p ≤ q) (le' : q ≤ r) : p ≤ r := by
  rw [le_iff] at *
  omega

theorem lt_of_lt_of_le (lt : p < q) (le : q ≤ r) : p < r := by
  rw [lt_iff] at *
  rw [le_iff] at le
  omega

theorem le_of_not_lt (notLt : ¬ p < q) : q ≤ p := by
  rw [lt_iff] at notLt
  rw [le_iff]
  omega

theorem not_le_of_lt (lt : p < q) : ¬ q ≤ p := by
  rw [lt_iff] at lt
  rw [le_iff]
  omega

theorem lt_next (p : Position) (c : Char) : p < p.next c := by
  unfold next
  split <;> rw [lt_iff] <;> simp

theorem le_after (p : Position) (cs : List Char) : p ≤ p.after cs := by
  induction cs generalizing p with
  | nil => exact le_refl p
  | cons c cs ih => exact le_trans (le_of_lt (lt_next p c)) (ih (p.next c))

theorem lt_after_cons (p : Position) (c : Char) (cs : List Char) : p < p.after (c :: cs) :=
  lt_of_lt_of_le (lt_next p c) (le_after (p.next c) cs)

end Position

/-! ## The text between two places -/

/-- The characters from the start of the span to its end, of a text that stands at `pos`. -/
def Text.cutFrom (span : Span) (pos : Position) : List Char → List Char
  | [] => []
  | c :: rest =>
    if span.start ≤ pos ∧ pos < span.stop then c :: cutFrom span (pos.next c) rest
    else cutFrom span (pos.next c) rest

def Text.cut (span : Span) (text : List Char) : List Char :=
  cutFrom span .first text

namespace Text

variable {span : Span} {pos : Position}

theorem cutFrom_behind {cs : List Char} (behind : span.stop ≤ pos) : cutFrom span pos cs = [] := by
  induction cs generalizing pos with
  | nil => rfl
  | cons c cs ih =>
    have : ¬ pos < span.stop := fun lt => Position.not_le_of_lt lt behind
    rw [cutFrom, if_neg (fun inside => this inside.2)]
    exact ih (Position.le_trans behind (Position.le_of_lt (pos.lt_next c)))

/-- What a span cuts out is a part of the text. -/
theorem cutFrom_within (span : Span) (pos : Position) (cs : List Char) :
    cutFrom span pos cs <:+: cs := by
  have begun {pos : Position} {cs : List Char} (started : span.start ≤ pos) :
      cutFrom span pos cs <+: cs := by
    induction cs generalizing pos with
    | nil => exact List.prefix_refl _
    | cons c cs ih =>
      by_cases inside : pos < span.stop
      · rw [cutFrom, if_pos ⟨started, inside⟩, List.prefix_cons_inj]
        exact ih (Position.le_trans started (Position.le_of_lt (pos.lt_next c)))
      · rw [cutFrom_behind (Position.le_of_not_lt inside)]
        exact List.nil_prefix
  induction cs generalizing pos with
  | nil => exact List.infix_refl _
  | cons c cs ih =>
    by_cases started : span.start ≤ pos
    · exact (begun started).isInfix
    · rw [cutFrom, if_neg (fun inside => started inside.1)]
      exact (ih (pos.next c)).trans (List.suffix_cons c cs).isInfix

theorem cutFrom_inside {mid post : List Char} (started : span.start ≤ pos)
    (stops : span.stop = pos.after mid) : cutFrom span pos (mid ++ post) = mid := by
  induction mid generalizing pos with
  | nil => exact cutFrom_behind (stops ▸ Position.le_refl pos)
  | cons c mid ih =>
    have inside : pos < span.stop := stops ▸ pos.lt_after_cons c mid
    rw [List.cons_append, cutFrom, if_pos ⟨started, inside⟩]
    rw [ih (Position.le_trans started (Position.le_of_lt (pos.lt_next c))) stops]

theorem cutFrom_append {pre mid post : List Char} (starts : span.start = pos.after pre)
    (stops : span.stop = pos.after (pre ++ mid)) : cutFrom span pos (pre ++ mid ++ post) = mid := by
  induction pre generalizing pos with
  | nil => exact cutFrom_inside (starts ▸ Position.le_refl pos) stops
  | cons c pre ih =>
    have before : ¬ span.start ≤ pos := Position.not_le_of_lt (starts ▸ pos.lt_after_cons c pre)
    rw [List.cons_append, List.cons_append, cutFrom, if_neg (fun inside => before inside.1)]
    exact ih starts stops

end Text

/-! ## Tokens in order -/

namespace Token

def Ordered (ts : List Token) : Prop :=
  (∀ t ∈ ts, t.start < t.stop) ∧ ts.Pairwise fun t u => t.stop ≤ u.start

variable {ts us : List Token} {cs later : List Char}

theorem Ordered.part (ordered : Ordered us) (inside : ts <:+: us) : Ordered ts :=
  ⟨fun t member => ordered.1 t (inside.subset member), ordered.2.sublist inside.sublist⟩

theorem start_ofLexeme (l : Lexeme) (start stop : Position) :
    (ofLexeme l start stop).start = start := by
  unfold ofLexeme
  split <;> rfl

theorem lexeme_ofLexeme (l : Lexeme) (start stop : Position) :
    (ofLexeme l start stop).lexeme = l := by
  unfold ofLexeme
  split <;> rfl

variable {pos : Position} {c : Char}

theorem spelled_endOfLine (spelled : Lexeme.endOfLine.Spelled c cs later) : c = '\n' ∧ cs = [] := by
  generalize isLine : Lexeme.endOfLine = l at spelled
  cases spelled with
  | newline => exact ⟨rfl, rfl⟩
  | word => unfold Lexeme.ofWord at isLine; split at isLine <;> cases isLine
  | _ => cases isLine

/-- The token of a lexeme starts where it is spelled and ends before what follows. -/
theorem ofLexeme_range {l : Lexeme} (spelled : l.Spelled c cs later) (pos : Position) :
    let t := ofLexeme l pos (pos.after (c :: cs))
    t.start < t.stop ∧ t.stop ≤ pos.after (c :: cs) := by
  unfold ofLexeme
  split
  case isTrue isLine =>
    obtain ⟨rfl, rfl⟩ := spelled_endOfLine (isLine ▸ spelled)
    simp [Position.lt_iff, Position.le_iff, Position.after, Position.next]
  case isFalse => exact ⟨pos.lt_after_cons c cs, Position.le_refl _⟩

theorem scanFrom_ordered {tokens : List Token} (scanned : scanFrom pos cs = .ok tokens) :
    (∀ t ∈ tokens, pos ≤ t.start) ∧ (∀ t ∈ tokens, t.isEnd = false → t.start < t.stop) ∧
      tokens.Pairwise fun t u => t.stop ≤ u.start := by
  replace scanned := scanFrom_scanned scanned
  induction scanned with
  | stop => simp [isEnd, Position.le_refl]
  | @layout pos _ _ _ _ _ _ ih =>
    obtain ⟨later, ranges, ordered⟩ := ih
    exact ⟨fun t member => Position.le_trans (pos.le_after _) (later t member), ranges, ordered⟩
  | @lexeme pos _ _ _ _ _ spelled _ ih =>
    obtain ⟨later, ranges, ordered⟩ := ih
    obtain ⟨range, before⟩ := ofLexeme_range spelled pos
    refine ⟨List.forall_mem_cons.mpr ⟨?_, fun t member => ?_⟩,
      List.forall_mem_cons.mpr ⟨fun _ => range, ranges⟩,
      List.pairwise_cons.mpr ⟨fun u member => ?_, ordered⟩⟩
    · rw [start_ofLexeme]
      exact Position.le_refl pos
    · exact Position.le_trans (pos.le_after _) (later t member)
    · exact Position.le_trans before (later u member)

/-! ## Cutting at tokens -/

/-- The text in front of a token, and the tokens from there on. -/
theorem Scanned.drop {u : Token} (scanned : Scanned pos cs (ts ++ u :: us)) :
    ∃ pre rest, cs = pre ++ rest ∧ u.start = pos.after pre ∧
      Scanned (pos.after pre) rest (u :: us) := by
  generalize isTokens : ts ++ u :: us = tokens at scanned
  -- Where the token is further on, so is it for the text that has one more piece in front.
  have further {pos : Position} {piece later : List Char}
      (found : ∃ pre rest, later = pre ++ rest ∧ u.start = (pos.after piece).after pre ∧
        Scanned ((pos.after piece).after pre) rest (u :: us)) :
      ∃ pre rest, piece ++ later = pre ++ rest ∧ u.start = pos.after pre ∧
        Scanned (pos.after pre) rest (u :: us) := by
    obtain ⟨pre, rest, rfl, start, scanned⟩ := found
    rw [← Position.after_append] at start scanned
    exact ⟨piece ++ pre, rest, (List.append_assoc ..).symm, start, scanned⟩
  induction scanned generalizing ts with
  | stop =>
    cases ts with
    | nil =>
      obtain ⟨rfl, rfl⟩ := List.cons.inj isTokens
      exact ⟨[], [], rfl, rfl, .stop⟩
    | cons => simp at isTokens
  | layout _ _ ih => exact further (ih isTokens)
  | lexeme spelled scanned ih =>
    cases ts with
    | nil =>
      obtain ⟨rfl, rfl⟩ := List.cons.inj isTokens
      exact ⟨[], _, rfl, start_ofLexeme .., .lexeme spelled scanned⟩
    | cons t ts => exact further (ih (List.cons.inj isTokens).2)

theorem Scans.layout {ds : List Char} {lexemes : List Lexeme}
    (isPiece : Piece.ofText c (ds ++ later) = .ok (.layout ds.length))
    (rest : Scans later lexemes) : Scans (c :: (ds ++ later)) lexemes := by
  intro pos
  rw [scanFrom, isPiece]
  simp only [List.drop_left', List.take_left']
  exact rest _

/-- The text up to the end of a token, which is scanned to the tokens in it. -/
theorem Scanned.keep (scanned : Scanned pos cs (ts ++ us)) (some : ts ≠ [])
    (notEnd : ∀ t ∈ ts, t.isEnd = false) (notLine : ∀ t ∈ ts.getLast?, t.lexeme ≠ .endOfLine) :
    ∃ mid post, cs = mid ++ post ∧ mid ≠ [] ∧ Text.Apart mid post ∧
      (∀ t ∈ ts.getLast?, t.stop = pos.after mid) ∧ Scans mid (ts.map Token.lexeme) := by
  generalize isTokens : ts ++ us = tokens at scanned
  induction scanned generalizing ts with
  | stop =>
    cases ts with
    | nil => exact absurd rfl some
    | cons t ts =>
      obtain ⟨rfl, -⟩ := List.cons.inj isTokens
      cases notEnd _ List.mem_cons_self
  | @layout pos c ds _ _ isPiece _ ih =>
    obtain ⟨mid, post, rfl, inner, apart, stops, scans⟩ := ih some notEnd notLine isTokens
    refine ⟨c :: ds ++ mid, post, by simp, by simp, apart.prepend inner, ?_, ?_⟩
    · intro t isLast
      rw [stops t isLast, Position.after_append]
    · rw [← List.append_assoc] at isPiece
      exact .layout (Piece.ofText_layout_cut isPiece (by simp)) scans
  | @lexeme pos l c ds later _ spelled _ ih =>
    cases ts with
    | nil => exact absurd rfl some
    | cons t ts =>
      obtain ⟨rfl, isTail⟩ := List.cons.inj isTokens
      cases ts with
      | nil =>
        have apart := spelled.apart
        have alone : l.Spelled c ds [] := spelled.cut (by rwa [List.append_nil])
        refine ⟨c :: ds, later, rfl, by simp, apart, ?_, ?_⟩
        · intro t isLast
          have other := notLine t isLast
          obtain rfl : ofLexeme l pos _ = t := by simpa using isLast
          rw [lexeme_ofLexeme] at other
          rw [ofLexeme, if_neg other]
        · have scans := Scans.lexeme alone .nil
          simpa [lexeme_ofLexeme] using scans
      | cons u ts =>
        rw [List.getLast?_cons_cons] at notLine ⊢
        obtain ⟨mid, post, rfl, inner, apart, stops, scans⟩ :=
          ih (by simp) (fun t member => notEnd t (.tail _ member)) notLine isTail
        have apart' : Text.Apart (c :: ds ++ mid) post := apart.prepend inner
        refine ⟨c :: ds ++ mid, post, by simp, by simp, apart', fun t isLast => ?_, ?_⟩
        · rw [stops t isLast, Position.after_append]
        · have all := Scans.lexeme (spelled.cut apart') scans
          simpa [lexeme_ofLexeme] using all

/-- The first and the last token give the span. -/
theorem spanOf_ends (some : ts ≠ []) :
    ∃ t u, t ∈ ts.head? ∧ u ∈ ts.getLast? ∧ spanOf ts = ⟨t.start, u.stop⟩ := by
  have isLast := List.getLast?_eq_some_getLast some
  have isFirst := List.head?_eq_some_head some
  refine ⟨_, _, isFirst, isLast, ?_⟩
  rw [spanOf, isFirst, isLast]

/-- The span of some tokens cuts out a text that is scanned to them. -/
theorem scan_cut {text : List Char} {stop : Token} (scanned : scan text = .ok (ts ++ [stop]))
    (notEnd : ∀ t ∈ ts, t.isEnd = false) (inside : us <:+: ts) (some : us ≠ [])
    (notLine : ∀ t ∈ us.getLast?, t.lexeme ≠ .endOfLine) :
    Scans (Text.cut (spanOf us) text) (us.map Token.lexeme) := by
  obtain ⟨u, us, rfl⟩ := List.exists_cons_of_ne_nil some
  obtain ⟨before, after, rfl⟩ := inside
  have all : before ++ (u :: us) ++ after ++ [stop] = before ++ u :: (us ++ (after ++ [stop])) := by
    simp
  rw [all] at scanned
  obtain ⟨pre, rest, rfl, starts, scanned⟩ := (scanFrom_scanned scanned).drop
  rw [← List.cons_append] at scanned
  obtain ⟨mid, post, rfl, -, -, stops, scans⟩ :=
    scanned.keep some
      (fun t member => notEnd t (List.mem_append_left _ (List.mem_append_right _ member))) notLine
  obtain ⟨first, last, isFirst, isLast, isSpan⟩ := spanOf_ends some
  obtain rfl : u = first := Option.some.inj isFirst
  have isCut : Text.cut (spanOf (u :: us)) (pre ++ (mid ++ post)) = mid := by
    rw [Text.cut, isSpan, ← List.append_assoc]
    refine Text.cutFrom_append starts ?_
    rw [Position.after_append]
    exact stops last isLast
  rw [isCut]
  exact scans

namespace Ordered

variable {ts us : List Token}

/-- The span of ordered tokens holds each of them. -/
theorem spanOf_holds (ordered : Ordered ts) {t : Token} (member : t ∈ ts) :
    (spanOf ts).start ≤ t.start ∧ t.stop ≤ (spanOf ts).stop := by
  obtain ⟨ranges, before⟩ := ordered
  obtain ⟨u, last, isFirst, isLast, isSpan⟩ := spanOf_ends (List.ne_nil_of_mem member)
  rw [isSpan]
  constructor
  · obtain ⟨us, rfl⟩ := List.head?_eq_some_iff.mp isFirst
    rcases List.mem_cons.mp member with rfl | member'
    · exact Position.le_refl _
    · have le := (List.pairwise_cons.mp before).1 t member'
      exact Position.le_trans (Position.le_of_lt (ranges u List.mem_cons_self)) le
  · obtain ⟨front, isAll⟩ := List.getLast?_eq_some_iff.mp isLast
    rw [isAll] at before member ranges
    rcases List.mem_append.mp member with member' | member'
    · have le := (List.pairwise_append.mp before).2.2 t member' last (by simp)
      exact Position.le_trans le (Position.le_of_lt (ranges last (by simp)))
    · rw [List.mem_singleton.mp member']
      exact Position.le_refl _

theorem spanOf_lt (ordered : Ordered ts) (some : ts ≠ []) :
    (spanOf ts).start < (spanOf ts).stop := by
  obtain ⟨t, us, rfl⟩ := List.exists_cons_of_ne_nil some
  exact Position.lt_of_lt_of_le (ordered.1 t List.mem_cons_self)
    (ordered.spanOf_holds List.mem_cons_self).2

theorem spanOf_within (ordered : Ordered ts) (inside : us <:+: ts) (some : us ≠ []) :
    (spanOf ts).start ≤ (spanOf us).start ∧ (spanOf us).stop ≤ (spanOf ts).stop := by
  obtain ⟨t, u, isFirst, isLast, isSpan⟩ := spanOf_ends some
  have first := inside.subset (List.mem_of_head? isFirst)
  have last := inside.subset (List.mem_of_getLast? isLast)
  rw [isSpan]
  exact ⟨(ordered.spanOf_holds first).1, (ordered.spanOf_holds last).2⟩

theorem lines_pairwise {ending : Ending} {parts : List (List Token)} (lines : Lines ending parts ts)
    (ordered : Ordered ts) (some : ∀ part ∈ parts, part ≠ []) :
    parts.Pairwise fun part part' => (spanOf part).stop ≤ (spanOf part').start := by
  induction lines with
  | nil => exact .nil
  | last => exact List.pairwise_singleton _ _
  | @cons gap part parts ts t _ _ _ lines ih =>
    obtain ⟨first, others⟩ := List.forall_mem_cons.mp some
    have rest : ts <:+: gap ++ part ++ [t] ++ ts := ⟨gap ++ part ++ [t], [], by simp⟩
    refine List.pairwise_cons.mpr ⟨fun part' member => ?_, ih (ordered.part rest) others⟩
    obtain ⟨_, u, -, isLast, isSpan⟩ := spanOf_ends first
    obtain ⟨u', _, isFirst, -, isSpan'⟩ := spanOf_ends (others part' member)
    have isEarlier := List.mem_of_getLast? isLast
    have isLater := (lines.within part' member).subset (List.mem_of_head? isFirst)
    rw [isSpan, isSpan']
    exact (List.pairwise_append.mp ordered.2).2.2 u (by simp [isEarlier]) u' isLater

end Ordered

end Token

/-! ## Reading a fragment -/

variable {ts : List Token}

/-- A node does not end with the end of a line. -/
theorem TreeNode.Stands.getLast_ne {n : TreeNode} (stands : n.Stands ts) :
    ∀ t ∈ ts.getLast?, t.lexeme ≠ .endOfLine := by
  have expression {k : Category} {us : List Token} {e : Expr} (derives : Derives k us e)
      (before : List Token) : ∀ t ∈ (before ++ us).getLast?, t.lexeme ≠ .endOfLine := by
    intro t isLast
    rw [List.getLast?_append_of_ne_nil _ derives.ne_nil] at isLast
    exact Lexeme.ne_endOfLine (derives.inner t (List.mem_of_getLast? isLast))
  have single {u : Token} (other : u.lexeme ≠ .endOfLine) (before : List Token) :
      ∀ t ∈ (before ++ [u]).getLast?, t.lexeme ≠ .endOfLine := by
    simpa using other
  cases stands with
  | expr derives | implied derives => exact expression derives []
  | param takes => cases takes <;> simp_all
  | stmt forms =>
    cases forms with
    | declare _ _ _ isType => exact single (by simp [isType]) _
    | constant _ _ _ _ _ derives | implied _ _ _ derives | assign _ _ derives | output _ derives
    | returning _ derives | doWhile _ _ _ _ derives => exact expression derives _
    | call _ isName => exact single (by simp [isName]) _
    | @callWith t u v w name ts parts _ _ _ _ _ isRight =>
      have last := single (u := w) (by simp [isRight]) ([t] ++ [u] ++ v :: ts)
      rwa [List.append_assoc] at last
    | returnNone isWord => simp [isWord]
    | ifThen _ _ _ _ _ _ isWord | ifElse _ _ _ _ _ _ _ _ _ isWord | whileLoop _ _ _ _ _ isWord
    | procedure _ _ _ _ _ isWord | function _ _ _ _ _ _ _ isWord =>
      exact single (by simp [isWord]) _
    | forLoop _ _ _ _ _ _ _ _ _ closes =>
      cases closes with
      | endFor isWord | next isWord => exact single (by simp [isWord]) _
      | @named x y _ isName =>
        intro t isLast
        rw [List.getLast?_append_of_ne_nil _ (List.cons_ne_nil x [y])] at isLast
        obtain rfl : y = t := by simpa using isLast
        simp [isName]

/-- What tokens compose, they compose wherever they stand. -/
theorem Composes.unplaced {body : List Stmt} (composes : Composes ts body)
    (notEnd : ∀ t ∈ ts, t.isEnd = false) :
    Composes (Lexeme.tokens (ts.map Token.lexeme)) (body.map Stmt.unplaced) := by
  have isEnd : (⟨.endOfInput, .first, .first⟩ : Token).isEnd = true := rfl
  have read := (Program.ofTokens_iff_composes isEnd notEnd).mpr composes
  rw [← Program.ofTokens_unplaced isEnd notEnd, read]
  rfl

theorem Forms.composes {s : Stmt} (forms : Forms ts s) : Composes ts [s] := by
  refine ⟨[(ts, s)], ?_, by simpa using forms, rfl⟩
  have line : Lines .input [ts] ([] ++ ts) := .last .nil (fun _ _ => rfl) rfl
  exact line

namespace Program

/-- A text that is scanned to the tokens of a statement is read as the statement. -/
theorem ofText_fragment {text : List Char} {ts : List Token} {s : Stmt}
    (scans : Token.Scans text (ts.map Token.lexeme)) (notEnd : ∀ t ∈ ts, t.isEnd = false)
    (forms : Forms ts s) : ∃ p, ofText text = .ok p ∧ p.body.map Stmt.unplaced = [s.unplaced] := by
  obtain ⟨tokens, stop, scanned, same, -⟩ := scans .first
  refine ofText_scanned scanned ?_
  rw [same]
  exact forms.composes.unplaced notEnd

/-- The bytes are a part of the source, which spells the text that the span cuts out. -/
def Fragment (source : List UInt8) (span : Span) (fragment : List UInt8) : Prop :=
  fragment <:+: source ∧ Text.decode fragment = Text.cut span (Text.decode source)

theorem exists_fragment (source : List UInt8) (span : Span) :
    ∃ fragment, Fragment source span fragment := by
  obtain ⟨before, after, whole⟩ := Text.cutFrom_within span .first (Text.decode source)
  rw [List.append_assoc] at whole
  obtain ⟨as, rest, rfl, -, isRest⟩ := Text.decode_split whole.symm
  obtain ⟨fragment, bs, rfl, isCut, -⟩ := Text.decode_split isRest
  exact ⟨fragment, ⟨as, bs, by simp⟩, isCut⟩

/-- The part of the source that the span cuts out is read as the statement, after the bytes in front
of it. -/
def Rereads (source : List UInt8) (span : Span) (front : List UInt8) (s : Stmt) : Prop :=
  (∃ fragment, Fragment source span fragment) ∧
    ∀ fragment, Fragment source span fragment →
      ∃ p, ofBytes (front ++ fragment) = .ok p ∧ p.body.map Stmt.unplaced = [s.unplaced]

/-- The word that an expression needs to stand on its own. -/
def lead : List UInt8 :=
  Text.utf8 "OUTPUT ".toList

theorem decode_lead (fragment : List UInt8) :
    Text.decode (lead ++ fragment) = "OUTPUT ".toList ++ Text.decode fragment :=
  Text.decode_utf8_append _ fragment

/-- The type of an untyped constant, which has the place of its value. -/
def Synthesised (p : Program) (e : Expr) : Prop :=
  ∃ name value span, .stmt (.constant name e value span) ∈ p.nodes ∧ e.span = value.span

def bodies (p : Program) : List (List Stmt) :=
  p.body :: p.nodes.flatMap fun
    | .stmt s => s.blocks
    | _ => []

section Read

variable {text : List Char} {p : Program} {ts : List Token} {stop : Token}

/-- Every expression of a program is derived from the tokens it spans, but for synthesised types. -/
theorem core_or_synthesised (composes : Composes ts p.body) :
    ∀ e, .expr e ∈ p.nodes → Derives.Core ts e ∨ p.Synthesised e := by
  have hereditary : TreeNode.Hereditary fun n => n ∈ p.nodes ∧ n.Within ts ∧
      ∀ e, n = .expr e → Derives.Core ts e ∨ p.Synthesised e := by
    rintro n ⟨isNode, ⟨us, inside, stands⟩, -⟩ child isChild
    refine ⟨mem_nodes_of_child isNode isChild,
      (stands.children_within child isChild).mono inside, ?_⟩
    rintro e rfl
    cases stands with
    | expr derives =>
      obtain ⟨e', member, same⟩ := List.mem_map.mp isChild
      obtain rfl := TreeNode.expr.inj same
      exact .inl ((derives.children_core e' member).mono inside)
    | implied => simp [TreeNode.children, Expr.children] at isChild
    | param takes =>
      cases takes with
      | marked _ isName _ isType | unmarked isName _ isType =>
        simp only [TreeNode.children, List.mem_cons, List.not_mem_nil, or_false,
          TreeNode.expr.injEq] at isChild
        rcases isChild with rfl | rfl
        · exact .inl ((Derives.core_name isName (by simp)).mono inside)
        · exact .inl ((Derives.core_name isType (by simp)).mono inside)
    | @stmt s _ forms =>
      have member : e ∈ s.exprs := by simpa [TreeNode.children] using isChild
      rcases forms.exprs_core e member with core | ⟨name, value, span, type, rfl, rfl, -, -⟩
      · exact .inl (core.mono inside)
      · exact .inr ⟨name, value, span, isNode, rfl⟩
  have all := p.forall_nodes hereditary fun s member =>
    ⟨mem_nodes member, composes.fills.within s member, fun _ same => by cases same⟩
  exact fun e isNode => (all _ isNode).2.2 e rfl

theorem fills_pairwise {us : List Token} {body : List Stmt} (fills : Fills us body)
    (ordered : Token.Ordered us) : body.Pairwise fun s s' => s.span.stop ≤ s'.span.start := by
  obtain ⟨ending, parts, lines, each, rfl⟩ := fills
  have some : ∀ part ∈ parts.map Prod.fst, part ≠ [] :=
    List.forall_mem_map.mpr fun part member => (each part member).ne_nil
  have apart := List.pairwise_map.mp (Token.Ordered.lines_pairwise lines ordered some)
  refine List.pairwise_map.mpr (apart.imp_of_mem fun {part part'} member member' before => ?_)
  have spans : part.2.span = spanOf part.1 := (TreeNode.Stands.stmt (each part member)).spans
  have spans' : part'.2.span = spanOf part'.1 := (TreeNode.Stands.stmt (each part' member')).spans
  rw [spans, spans']
  exact before

section

variable (scanned : Token.scan text = .ok (ts ++ [stop])) (notEnd : ∀ t ∈ ts, t.isEnd = false)

include scanned notEnd

theorem ordered_of_scan : Token.Ordered ts ∧ ∀ t ∈ ts, Position.first ≤ t.start := by
  obtain ⟨started, ranges, ordered⟩ := Token.scanFrom_ordered scanned
  refine ⟨⟨fun t member => ?_, (List.pairwise_append.mp ordered).1⟩, fun t member => ?_⟩
  · exact ranges t (List.mem_append_left _ member) (notEnd t member)
  · exact started t (List.mem_append_left _ member)

/-- An expression is read again from the text its span cuts out, as what is to be output. -/
theorem ofText_cut_expr {e : Expr} (core : Derives.Core ts e) :
    ∃ q, ofText ("OUTPUT ".toList ++ Text.cut e.span text) = .ok q ∧
      q.body.map Stmt.unplaced = [.output e.unplaced .zero] := by
  obtain ⟨us, inside, derives, spans⟩ := core
  have stands : (TreeNode.expr e).Stands us := .expr derives spans
  have scans := Token.scan_cut scanned notEnd inside stands.ne_nil stands.getLast_ne
  have word : (Lexeme.token (.keyword .output)).lexeme = .keyword .output := rfl
  have forms := Forms.output word derives
  rw [← spans] at scans
  refine ofText_fragment (scans.keyword .output) ?_ forms
  refine List.forall_mem_cons.mpr ⟨rfl, fun t member => notEnd t (inside.subset member)⟩

variable (composes : Composes ts p.body)

include composes

/-- Every node has a place, which holds the places of its children. -/
theorem node_spans {n : TreeNode} (isNode : n ∈ p.nodes) :
    n.span ≠ .zero ∧ n.span.start < n.span.stop ∧
      ∀ child ∈ n.children, n.span.start ≤ child.span.start ∧ child.span.stop ≤ n.span.stop := by
  obtain ⟨ordered, started⟩ := ordered_of_scan scanned notEnd
  obtain ⟨us, inside, stands⟩ := composes.within n isNode
  rw [stands.spans]
  refine ⟨fun isZero => ?_, (ordered.part inside).spanOf_lt stands.ne_nil, fun child isChild => ?_⟩
  · obtain ⟨t, u, isFirst, -, isSpan⟩ := Token.spanOf_ends stands.ne_nil
    have later := started t (inside.subset (List.mem_of_head? isFirst))
    have start : t.start = ⟨0, 0⟩ := congrArg Span.start (isSpan.symm.trans isZero)
    rw [start] at later
    exact absurd later (by decide)
  · obtain ⟨vs, inside', stands'⟩ := stands.children_within child isChild
    rw [stands'.spans]
    exact (ordered.part inside).spanOf_within inside' stands'.ne_nil

/-- The statements of a body stand one after another. -/
theorem bodies_pairwise :
    ∀ body ∈ p.bodies, body.Pairwise fun s s' => s.span.stop ≤ s'.span.start := by
  obtain ⟨ordered, -⟩ := ordered_of_scan scanned notEnd
  refine List.forall_mem_cons.mpr ⟨fills_pairwise composes.fills ordered, fun body member => ?_⟩
  obtain ⟨n, isNode, isBlock⟩ := List.mem_flatMap.mp member
  obtain ⟨us, inside, stands⟩ := composes.within n isNode
  cases stands with
  | stmt forms =>
    obtain ⟨vs, inside', fills⟩ := forms.blocks_within body isBlock
    exact fills_pairwise fills (ordered.part (inside'.trans inside))
  | _ => cases isBlock

/-- A statement is read again from the text its span cuts out. -/
theorem ofText_cut_stmt {s : Stmt} (isNode : .stmt s ∈ p.nodes) :
    ∃ q, ofText (Text.cut s.span text) = .ok q ∧ q.body.map Stmt.unplaced = [s.unplaced] := by
  obtain ⟨us, inside, stands⟩ := composes.within _ isNode
  have scans := Token.scan_cut scanned notEnd inside stands.ne_nil stands.getLast_ne
  rw [← stands.spans] at scans
  cases stands with
  | stmt forms =>
    exact ofText_fragment scans (fun t member => notEnd t (inside.subset member)) forms

end

/-- Spans are faithful: every node has a place, the places of its children lie inside, the
statements of a body stand one after another, and the text that the span of a statement or an
expression cuts out is read as just that, wherever it stands. -/
theorem spans_faithful {source : List UInt8} {p : Program} (parsed : ofBytes source = .ok p) :
    (∀ n ∈ p.nodes, n.span ≠ .zero ∧ n.span.start < n.span.stop ∧
      ∀ child ∈ n.children, n.span.start ≤ child.span.start ∧ child.span.stop ≤ n.span.stop) ∧
    (∀ body ∈ p.bodies, body.Pairwise fun s s' => s.span.stop ≤ s'.span.start) ∧
    (∀ s, .stmt s ∈ p.nodes → Rereads source s.span [] s) ∧
    ∀ e, .expr e ∈ p.nodes → ¬ p.Synthesised e → Rereads source e.span lead (.output e .zero) := by
  obtain ⟨ts, stop, scanned, -, notEnd, composes⟩ := ofText_composes parsed
  refine ⟨fun n isNode => node_spans scanned notEnd composes isNode,
    bodies_pairwise scanned notEnd composes, fun s isNode => ⟨exists_fragment _ _, ?_⟩,
    fun e isNode notType => ⟨exists_fragment _ _, ?_⟩⟩
  · rintro fragment ⟨-, isCut⟩
    rw [List.nil_append, ofBytes, isCut]
    exact ofText_cut_stmt scanned notEnd composes isNode
  · rintro fragment ⟨-, isCut⟩
    have core := (core_or_synthesised composes e isNode).resolve_right notType
    rw [ofBytes, decode_lead, isCut]
    exact ofText_cut_expr scanned notEnd core

end Read

/-- An untyped constant, a comment, parentheses, a date in front of a division and the least
integer. -/
def Sample.spanned : List UInt8 :=
  Text.utf8 ("CONSTANT k = -1 // one\nIF (k < 1) THEN\n" ++
    "OUTPUT 01/02/2024/(-9223372036854775808)\nENDIF").toList

theorem spans_faithful_spanned : ∃ p, ofBytes Sample.spanned = .ok p ∧ p.body.length = 2 ∧
    (p.body.Pairwise fun s s' => s.span.stop ≤ s'.span.start) ∧
    ∀ s ∈ p.body, s.span ≠ .zero ∧ s.span.start < s.span.stop ∧
      Rereads Sample.spanned s.span [] s := by
  have read : ((ofBytes Sample.spanned).map fun p => p.body.length).toOption = some 2 := by
    decide +kernel
  cases parsed : ofBytes Sample.spanned with
  | error e => simp [parsed, Except.map, Except.toOption] at read
  | ok p =>
    obtain ⟨spans, bodies, statements, -⟩ := spans_faithful parsed
    refine ⟨p, rfl, ?_, bodies p.body List.mem_cons_self, fun s member => ?_⟩
    · simpa [parsed, Except.map, Except.toOption] using read
    · have isNode : .stmt s ∈ p.nodes := mem_nodes member
      exact ⟨(spans _ isNode).1, (spans _ isNode).2.1, statements s isNode⟩

end Program

end Pseudocode
