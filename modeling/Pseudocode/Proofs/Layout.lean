import Mathlib.Data.List.DropRight
import Pseudocode.Proofs.Completion
import Pseudocode.Proofs.Statements
import Pseudocode.Proofs.Unplaced

/-! # Layout

A program is read from its lines, and it does not matter how many line ends stand between two of
them, before the first or after the last one, nor what is passed over inside a line. Two sources
that say the same apart from that are the same program at other places, or neither is a program. So
it makes no difference how many line feeds end a line, or whether a carriage return stands before
them. -/

namespace Pseudocode

/-! ## Lexemes without superfluous line ends -/

theorem rdropWhile_cons {α : Type} (p : α → Bool) (a : α) (l : List α) :
    (a :: l).rdropWhile p =
      if p a = true ∧ l.rdropWhile p = [] then [] else a :: l.rdropWhile p := by
  unfold List.rdropWhile
  rw [List.reverse_cons, List.dropWhile_append]
  by_cases none : l.reverse.dropWhile p = []
  · cases holds : p a <;> simp [none, holds]
  · simp [none]

namespace Lexeme

def isLineEnd (l : Lexeme) : Bool :=
  l = .endOfLine

/-- Of line ends that follow each other one is left. -/
def collapsed : List Lexeme → List Lexeme
  | [] => []
  | l :: rest =>
    if l = .endOfLine ∧ rest.head? = some .endOfLine then collapsed rest else l :: collapsed rest

/-- The same, and at the end none is left. -/
def settled (ls : List Lexeme) : List Lexeme :=
  (collapsed ls).rdropWhile isLineEnd

/-- The same, and at the start none is left either. -/
def condensed (ls : List Lexeme) : List Lexeme :=
  (settled ls).dropWhile isLineEnd

variable {l : Lexeme} {ls rest : List Lexeme}

theorem isLineEnd_of_ne (other : l ≠ .endOfLine) : l.isLineEnd = false :=
  decide_eq_false other

theorem head?_collapsed (ls : List Lexeme) : (collapsed ls).head? = ls.head? := by
  induction ls with
  | nil => rfl
  | cons l rest ih =>
    rw [collapsed]
    split
    case isTrue run =>
      rw [ih, run.1, run.2]
      rfl
    case isFalse => rfl

theorem settled_cons (other : l ≠ .endOfLine) : settled (l :: rest) = l :: settled rest := by
  unfold settled
  rw [collapsed, if_neg fun run => other run.1, rdropWhile_cons, isLineEnd_of_ne other]
  simp

/-- A line end in front makes no difference once those in front are dropped. -/
theorem condensed_endOfLine : condensed (.endOfLine :: rest) = condensed rest := by
  unfold condensed settled
  rw [collapsed]
  split
  case isTrue => rfl
  case isFalse =>
    rw [rdropWhile_cons]
    split
    case isTrue none => rw [none.2]
    case isFalse => exact List.dropWhile_cons_of_pos rfl

theorem head?_settled (head : (settled ls).head? = some l) : ls.head? = some l := by
  obtain ⟨dropped, whole⟩ := List.rdropWhile_prefix isLineEnd (collapsed ls)
  rw [← head?_collapsed, ← whole, List.head?_append]
  exact congrArg (Option.or · dropped.head?) head

theorem settled_dropWhile (ls : List Lexeme) :
    settled (ls.dropWhile isLineEnd) = condensed ls := by
  induction ls with
  | nil => rfl
  | cons l rest ih =>
    by_cases isLine : l = .endOfLine
    · subst isLine
      rw [condensed_endOfLine, ← ih]
      rfl
    · have stays := isLineEnd_of_ne isLine
      rw [List.dropWhile_cons_of_neg (by simp [stays]), condensed, settled_cons isLine,
        List.dropWhile_cons_of_neg (by simp [stays])]

theorem collapsed_append (xs ys : List Lexeme) :
    collapsed (xs ++ .endOfLine :: .endOfLine :: ys) = collapsed (xs ++ .endOfLine :: ys) := by
  induction xs with
  | nil => exact if_pos ⟨rfl, rfl⟩
  | cons l xs ih =>
    have heads : (xs ++ .endOfLine :: .endOfLine :: ys).head? =
        (xs ++ .endOfLine :: ys).head? := by
      cases xs <;> rfl
    rw [List.cons_append, collapsed, ih, heads, List.cons_append, collapsed]

end Lexeme

/-! ## Cursors with the same lexemes in front -/

namespace Cursor

/-- What the cursor has in front of it, up to the end of the input. -/
def lexemes (c : Cursor) : List Lexeme :=
  c.tokens.dropLast.map Token.lexeme

/-- The cursors have the same in front of them when it is looked at in this way. On a line that is
`settled`, for there a line end in front tells that the line is over; between lines, where it tells
nothing, it is `condensed`. -/
structure Matches (view : List Lexeme → List Lexeme) (c c' : Cursor) : Prop where
  closed : c.Closed
  closed' : c'.Closed
  same : view c.lexemes = view c'.lexemes

variable {c c' : Cursor} {view : List Lexeme → List Lexeme}

section

variable (closed : c.Closed)

include closed

theorem Closed.lexemes_of_isEnd (isEnd : c.here.isEnd = true) : c.lexemes = [] := by
  rw [lexemes, closed.tokens_of_isEnd isEnd]
  rfl

theorem Closed.lexemes_next (inner : c.here.isEnd = false) :
    c.lexemes = c.here.lexeme :: c.next.lexemes := by
  rw [lexemes, closed.tokens_next inner, List.dropLast_cons_of_ne_nil (by simp [tokens])]
  rfl

theorem Closed.head?_lexemes {l : Lexeme} (head : c.lexemes.head? = some l) :
    c.here.lexeme = l := by
  cases isEnd : c.here.isEnd with
  | true =>
    rw [closed.lexemes_of_isEnd isEnd] at head
    cases head
  | false =>
    rw [closed.lexemes_next isEnd] at head
    exact Option.some.inj head

theorem Closed.skipped :
    c.skipped.Closed ∧ c.skipped.lexemes = c.lexemes.dropWhile Lexeme.isLineEnd ∧
      c.skipped.here.lexeme ≠ .endOfLine := by
  induction left : c.rest generalizing c with
  | nil =>
    have isEnd := closed.isEnd_of_rest left
    have other : c.here.lexeme ≠ .endOfLine := by simp_all [Token.isEnd]
    rw [skipped_self other, closed.lexemes_of_isEnd isEnd]
    exact ⟨closed, rfl, other⟩
  | cons t rest ih =>
    by_cases isLine : c.here.lexeme = .endOfLine
    · have notEnd : c.here.isEnd = false := by simp [Token.isEnd, isLine]
      rw [← skipped_next c isLine, closed.lexemes_next notEnd, isLine]
      exact ih (closed.next notEnd) (by rw [Cursor.next, left])
    · rw [skipped_self isLine]
      refine ⟨closed, ?_, isLine⟩
      cases isEnd : c.here.isEnd with
      | true => rw [closed.lexemes_of_isEnd isEnd]; rfl
      | false =>
        rw [closed.lexemes_next isEnd, List.dropWhile_cons_of_neg]
        simp [Lexeme.isLineEnd_of_ne isLine]

theorem Closed.isEnd_skipped (endsLine : c.skipped.here.lexeme.endsLine = true) :
    c.skipped.here.isEnd = true :=
  decide_eq_true ((Lexeme.endsLine_iff.mp endsLine).resolve_left closed.skipped.2.2)

/-- Leaving a line makes no difference between lines. -/
theorem Closed.afterLine :
    c.afterLine.Closed ∧ Lexeme.condensed c.afterLine.lexemes = Lexeme.condensed c.lexemes := by
  unfold Cursor.afterLine
  split
  case isTrue isLine =>
    have notEnd : c.here.isEnd = false := by simp [Token.isEnd, isLine]
    rw [closed.lexemes_next notEnd, isLine, Lexeme.condensed_endOfLine]
    exact ⟨closed.next notEnd, rfl⟩
  case isFalse => exact ⟨closed, rfl⟩

end

theorem lastOfLine_cons (last t : Token) (rest : List Token) :
    lastOfLine last (t :: rest) = if t.lexeme.endsLine then last else lastOfLine t rest := by
  have same : (decide (t.lexeme = .endOfLine) || t.isEnd) = t.lexeme.endsLine := by
    unfold Token.isEnd
    cases t.lexeme <;> rfl
  rw [lastOfLine, same]

namespace Matches

open Lexeme (settled condensed)

theorem symm (both : Matches view c c') : Matches view c' c :=
  ⟨both.closed', both.closed, both.same.symm⟩

section

variable (both : Matches settled c c')

include both

theorem here (inner : c.here.lexeme.endsLine = false) : c'.here.lexeme = c.here.lexeme := by
  have notEnd := Token.isEnd_of_not_endsLine inner
  have same := both.same
  rw [both.closed.lexemes_next notEnd, Lexeme.settled_cons (Lexeme.ne_endOfLine inner)] at same
  exact both.closed'.head?_lexemes (Lexeme.head?_settled (by rw [← same]; rfl))

theorem endsLine (endsLine : c.here.lexeme.endsLine = true) : c'.here.lexeme.endsLine = true := by
  by_contra inner
  have inner := Bool.eq_false_iff.mpr inner
  rw [both.symm.here inner, inner] at endsLine
  cases endsLine

theorem next (inner : c.here.lexeme.endsLine = false) : Matches settled c.next c'.next := by
  have lexeme := both.here inner
  have inner' : c'.here.lexeme.endsLine = false := by rw [lexeme, inner]
  have notEnd := Token.isEnd_of_not_endsLine inner
  have notEnd' := Token.isEnd_of_not_endsLine inner'
  have same := both.same
  rw [both.closed.lexemes_next notEnd, both.closed'.lexemes_next notEnd',
    Lexeme.settled_cons (Lexeme.ne_endOfLine inner),
    Lexeme.settled_cons (Lexeme.ne_endOfLine inner')] at same
  exact ⟨both.closed.next notEnd, both.closed'.next notEnd', (List.cons.inj same).2⟩

theorem between : Matches condensed c c' :=
  ⟨both.closed, both.closed', congrArg (List.dropWhile Lexeme.isLineEnd) both.same⟩

theorem lastOfLine (inner : c.here.lexeme.endsLine = false) :
    (Cursor.lastOfLine c'.here c'.rest).lexeme = (Cursor.lastOfLine c.here c.rest).lexeme := by
  induction left : c.rest generalizing c c' with
  | nil => exact absurd left (both.closed.rest_ne_nil (Token.isEnd_of_not_endsLine inner))
  | cons t rest ih =>
    have lexeme := both.here inner
    have nexts := both.next inner
    have inner' : c'.here.lexeme.endsLine = false := by rw [lexeme, inner]
    rw [← left, both.closed.rest_next (Token.isEnd_of_not_endsLine inner),
      both.closed'.rest_next (Token.isEnd_of_not_endsLine inner'), tokens, tokens,
      lastOfLine_cons, lastOfLine_cons]
    cases endsLine : c.next.here.lexeme.endsLine with
    | true =>
      rw [if_pos (nexts.endsLine endsLine)]
      exact lexeme
    | false =>
      have further : c.next.rest = rest := by rw [Cursor.next, left]
      rw [nexts.here endsLine, endsLine, further]
      exact ih nexts endsLine further

end

/-- Between lines the cursors are brought to the same place. -/
theorem skipped (both : Matches condensed c c') : Matches settled c.skipped c'.skipped := by
  obtain ⟨closed, lexemes, -⟩ := both.closed.skipped
  obtain ⟨closed', lexemes', -⟩ := both.closed'.skipped
  refine ⟨closed, closed', ?_⟩
  rw [lexemes, lexemes', Lexeme.settled_dropWhile, Lexeme.settled_dropWhile, both.same]

theorem afterLine (both : Matches condensed c c') :
    Matches condensed c.afterLine c'.afterLine := by
  have left := both.closed.afterLine
  have right := both.closed'.afterLine
  exact ⟨left.1, right.1, by rw [left.2, right.2, both.same]⟩

end Matches

end Cursor

/-! ## Reading sources with different layout -/

/-- Reading lines that say the same. All places are looked at as one. -/
def Pairing.layout : Pairing where
  left := .nowhere
  right := .nowhere
  line := Cursor.Matches Lexeme.settled
  ends t t' := t.lexeme.endsLine = true ∧ t'.lexeme.endsLine = true
  tolerates _ r := r.isSome = true
  here {c c'} line := by
    cases endsLine : c.here.lexeme.endsLine with
    | true => exact .inr ⟨rfl, line.endsLine endsLine⟩
    | false =>
      refine .inl ?_
      rw [Token.moved, Token.moved, line.here endsLine]
      rfl
  last _ := rfl
  next := Cursor.Matches.next
  ends_left ends := ends.1
  ends_right ends := ends.2
  ends_start _ := rfl
  same _ _ := rfl
  different _ _ _ := rfl
  absorbs _ tolerated := by cases tolerated

def BlockPairing.layout : BlockPairing where
  toPairing := .layout
  gap := Cursor.Matches Lexeme.condensed
  stopped c c' := c.here.isEnd = true ∧ c'.here.isEnd = true
  line_gap := Cursor.Matches.between
  leave line _ := line.between.afterLine
  skip {c c'} gap := by
    have line := gap.skipped
    cases endsLine : c.skipped.here.lexeme.endsLine with
    | false =>
      exact .inl ⟨Pairing.line_stands (S := .layout) line, endsLine, line.lastOfLine endsLine⟩
    | true =>
      exact .inr ⟨gap.closed.isEnd_skipped endsLine,
        gap.closed'.isEnd_skipped (line.endsLine endsLine)⟩
  stopped_left stopped := stopped.1
  stopped_right stopped := .inl ⟨stopped.2, fun _ => rfl⟩

namespace Program

/-- There are two programs that differ in the places of their parts at most, or there is none. -/
inductive Alike : Except SyntaxError Program → Except SyntaxError Program → Prop where
  | ok {p q : Program} : p.body.map Stmt.unplaced = q.body.map Stmt.unplaced →
      Alike (.ok p) (.ok q)
  | error {e e' : SyntaxError} : Alike (.error e) (.error e')

/-- Tokens that say the same are the same program. -/
theorem ofTokens_alike {t t' : Token} {rest rest' : List Token}
    (both : Cursor.Matches Lexeme.condensed ⟨t, t, rest⟩ ⟨t', t', rest'⟩) :
    Alike (ofTokens (t :: rest)) (ofTokens (t' :: rest')) := by
  have enough := shallow both.closed
  have enough' := shallow both.closed'
  have agree := BlockPairing.input (S := .layout) (rest.length + 2) (rest'.length + 2)
    (fun _ _ stopped => stopped.2) both
  unfold Pairing.Agrees at agree
  rw [ofTokens_eq (c := ⟨t, t, rest⟩) rfl, ofTokens_eq (c := ⟨t', t', rest'⟩) rfl]
  dsimp only at *
  generalize (Parser.block (rest.length + 2) .input).run _ = x at *
  generalize (Parser.block (rest'.length + 2) .input).run _ = y at *
  cases agree with
  | ok alike =>
    refine .ok ?_
    rw [← Stmt.allMoved_eq, ← Stmt.allMoved_eq]
    exact alike
  | @error e r tolerated =>
    cases y with
    | ok => cases tolerated
    | error e' => exact .error
  | deepLeft deep => exact absurd deep (enough _ rfl)
  | deepRight deep => exact absurd deep (enough' _ rfl)

end Program

/-! ## Texts -/

theorem Symbol.spelling_injective {s s' : Symbol} (same : s.spelling = s'.spelling) : s = s' := by
  cases s <;> cases s' <;> simp [spelling] at same ⊢

theorem Keyword.spelling_injective {w w' : Keyword} (same : w.spelling = w'.spelling) : w = w' := by
  have found := congrArg ofSpelling? same
  rw [ofSpelling?_spelling, ofSpelling?_spelling] at found
  exact Option.some.inj found

namespace Lexeme

theorem kind_symbol (s : Symbol) :
    (symbol s).kind = .punctuation ∨ (symbol s).kind = .operator :=
  ite_eq_or_eq ..

/-- Lexemes of one kind with one text are the same. -/
theorem parts_injective : Function.Injective fun l : Lexeme => (l.kind, l.text) := by
  intro l m same
  obtain ⟨kinds, texts⟩ := Prod.mk.inj same
  cases l with
  | symbol s =>
    cases m with
    | symbol s' => rw [Symbol.spelling_injective texts]
    | _ => rcases kind_symbol s with isKind | isKind <;> cases isKind.symm.trans kinds
  | keyword w =>
    cases m with
    | symbol s => rcases kind_symbol s with isKind | isKind <;> cases kinds.trans isKind
    | keyword w' => rw [Keyword.spelling_injective texts]
    | _ => cases kinds
  | _ =>
    cases m with
    | symbol s => rcases kind_symbol s with isKind | isKind <;> cases kinds.trans isKind
    | _ => cases kinds <;> simp_all [text]

end Lexeme

namespace Token

/-- The kinds and the texts of the tokens in front of the end of the input, with one line end in
place of several and with none at the start and at the end. -/
def outline (tokens : List Token) : List (TokenKind × String) :=
  (Lexeme.condensed (tokens.dropLast.map Token.lexeme)).map fun l => (l.kind, l.text)

def outline? (source : List UInt8) : Option (List (TokenKind × String)) :=
  (scan (Text.decode source)).toOption.map outline

def lexemes? (cs : List Char) : Option (List Lexeme) :=
  ((scan cs).map List.dropLast).toOption.map (List.map Token.lexeme)

theorem lexemes?_of_ok {cs : List Char} {tokens : List Token} (scanned : scan cs = .ok tokens) :
    lexemes? cs = some (tokens.dropLast.map Token.lexeme) := by
  rw [lexemes?, scanned]
  rfl

theorem lexemes?_of_error {cs : List Char} {e : SyntaxError} (failed : scan cs = .error e) :
    lexemes? cs = none := by
  rw [lexemes?, failed]
  rfl

theorem lexemes?_line (cs ds : List Char) :
    lexemes? (cs ++ '\n' :: ds) =
      (lexemes? cs).bind fun xs => (lexemes? ds).map fun ys => xs ++ .endOfLine :: ys := by
  cases scanned : scan cs with
  | error e =>
    have failed : scan (cs ++ '\n' :: ds) = .error e := by
      rw [scan, scanFrom_line, show scanFrom .first cs = _ from scanned]
      rfl
    rw [lexemes?_of_error scanned, lexemes?_of_error failed]
    rfl
  | ok tokens =>
    cases scanned' : scan ds with
    | error e =>
      rw [lexemes?_of_ok scanned, lexemes?_of_error scanned',
        lexemes?_of_error ((scan_line scanned ds).trans (by rw [scanned']; rfl))]
      rfl
    | ok later =>
      obtain ⟨body, rfl, -⟩ := scanFrom_closed scanned'
      rw [lexemes?_of_ok scanned, lexemes?_of_ok scanned',
        lexemes?_of_ok ((scan_line scanned ds).trans (by rw [scanned']; rfl))]
      -- The end of the input is the last token on both sides.
      rw [List.dropLast_concat, List.map_append, List.map_singleton]
      dsimp only
      rw [← List.cons_append, ← List.append_assoc, List.dropLast_concat, List.map_append,
        List.map_cons, List.map_map]
      rfl

theorem lexemes?_nil : lexemes? [] = some [] := by
  have scanned : scan [] = .ok [⟨.endOfInput, .first, .first⟩] := by rw [scan, scanFrom]
  exact lexemes?_of_ok scanned

theorem lexemes?_return (cs : List Char) : lexemes? (cs ++ ['\r']) = lexemes? cs := by
  rw [lexemes?, scan, scanFrom_return]
  rfl

end Token

namespace Text

/-- The source with every line feed written in another way. -/
def relined (mark source : List UInt8) : List UInt8 :=
  source.flatMap fun b => if b = 10 then mark else [b]

/-- What a source says, with one line end in place of several, if it has tokens. -/
def said (source : List UInt8) : Option (List Lexeme) :=
  (Token.lexemes? (decode source)).map Lexeme.collapsed

theorem outline?_eq (source : List UInt8) :
    Token.outline? source = (said source).map fun ls =>
      ((ls.rdropWhile Lexeme.isLineEnd).dropWhile Lexeme.isLineEnd).map fun l =>
        (l.kind, l.text) := by
  unfold Token.outline? said Token.lexemes?
  cases Token.scan (decode source) <;> rfl

theorem said_line (as bs : List UInt8) :
    said (as ++ 10 :: bs) = (Token.lexemes? (decode as)).bind fun xs =>
      (Token.lexemes? (decode bs)).map fun ys => Lexeme.collapsed (xs ++ .endOfLine :: ys) := by
  rw [said, decode_line, Token.lexemes?_line, Option.map_bind]
  refine congrArg _ (funext fun xs => ?_)
  exact Option.map_map ..

/-- Wherever a line ends with a line feed, it may end with this as well. -/
def EndsLine (mark : List UInt8) : Prop :=
  ∀ as bs, said (as ++ (mark ++ bs)) = said (as ++ 10 :: bs)

theorem endsLine_double : EndsLine [10, 10] := by
  intro as bs
  have second : decode (10 :: bs) = [] ++ '\n' :: decode bs := decode_line [] bs
  change said (as ++ 10 :: 10 :: bs) = _
  rw [said_line, said_line, second, Token.lexemes?_line, Token.lexemes?_nil]
  refine congrArg _ (funext fun xs => ?_)
  cases Token.lexemes? (decode bs) with
  | none => rfl
  | some ys => exact congrArg some (Lexeme.collapsed_append xs ys)

theorem endsLine_return : EndsLine [13, 10] := by
  intro as bs
  have first : as ++ ([13, 10] ++ bs) = (as ++ [13]) ++ 10 :: bs := List.append_cons ..
  have marked : decode (as ++ [13]) = decode as ++ ['\r'] := decode_append (by decide) as []
  rw [first, said_line, said_line, marked, Token.lexemes?_return]

/-- What a source says stays when its line feeds are written in another way, one after the other. -/
theorem EndsLine.said_relined {mark : List UInt8} (ends : EndsLine mark) (as source : List UInt8) :
    said (as ++ relined mark source) = said (as ++ source) := by
  induction source generalizing as with
  | nil => rfl
  | cons b source ih =>
    rw [List.append_cons as b source, ← ih, ← List.append_cons, relined, List.flatMap_cons]
    by_cases isLine : b = 10
    · rw [if_pos isLine, isLine]
      exact ends as (relined mark source)
    · rw [if_neg isLine]
      rfl

end Text

namespace Program

theorem ofBytes_alike {s t : List UInt8} (same : Token.outline? s = Token.outline? t) :
    Alike (ofBytes s) (ofBytes t) := by
  unfold Token.outline? at same
  unfold ofBytes ofText
  cases scanned : Token.scan (Text.decode s) with
  | error e =>
    cases scanned' : Token.scan (Text.decode t) with
    | error e' => exact .error
    | ok tokens' =>
      rw [scanned, scanned'] at same
      cases same
  | ok tokens =>
    cases scanned' : Token.scan (Text.decode t) with
    | error e' =>
      rw [scanned, scanned'] at same
      cases same
    | ok tokens' =>
      rw [scanned, scanned'] at same
      obtain ⟨u, rest, rfl, closed⟩ := Token.scan_closed scanned
      obtain ⟨u', rest', rfl, closed'⟩ := Token.scan_closed scanned'
      refine ofTokens_alike ⟨closed, closed', ?_⟩
      have pairs := Option.some.inj same
      exact List.map_injective_iff.mpr Lexeme.parts_injective pairs

theorem relined_alike {mark : List UInt8} (ends : Text.EndsLine mark) (source : List UInt8) :
    Alike (ofBytes source) (ofBytes (Text.relined mark source)) := by
  refine ofBytes_alike ?_
  rw [Text.outline?_eq, Text.outline?_eq]
  exact congrArg _ (ends.said_relined [] source).symm

/-- Sources with the same tokens, apart from superfluous line ends, are the same program or none.
In particular it makes no difference to write every line feed twice, or a carriage return before
it. -/
theorem layout_irrelevant :
    (∀ s t, Token.outline? s = Token.outline? t → Alike (ofBytes s) (ofBytes t)) ∧
    (∀ s, Alike (ofBytes s) (ofBytes (Text.relined [10, 10] s))) ∧
    ∀ s, Alike (ofBytes s) (ofBytes (Text.relined [13, 10] s)) :=
  ⟨fun _ _ => ofBytes_alike, relined_alike Text.endsLine_double,
    relined_alike Text.endsLine_return⟩

/-- Two outputs with empty lines around them, and with one line end between them. -/
theorem layout_irrelevant_sample :
    Token.outline? ([10, 10] ++ Sample.inner ++ [32, 13, 10, 9, 10] ++ Sample.inner ++ [10]) =
      Token.outline? (Sample.inner ++ 10 :: Sample.inner) ∧
    (ofBytes (Sample.inner ++ 10 :: Sample.inner)).isOk = true ∧
    Alike (ofBytes ([10, 10] ++ Sample.inner ++ [32, 13, 10, 9, 10] ++ Sample.inner ++ [10]))
      (ofBytes (Sample.inner ++ 10 :: Sample.inner)) :=
  have same : Token.outline?
      ([10, 10] ++ Sample.inner ++ [32, 13, 10, 9, 10] ++ Sample.inner ++ [10]) =
        Token.outline? (Sample.inner ++ 10 :: Sample.inner) := by decide +kernel
  ⟨same, by decide +kernel, layout_irrelevant.1 _ _ same⟩

end Program

end Pseudocode
