import Pseudocode.Proofs.Statements
import Pseudocode.Proofs.Tiling

/-! # Reading moves on

Whatever the bytes of a source are, reading it is a walk over its tokens. The parsers stand on one of
them at any time, they move towards the end of the input and not beyond it, and what they report is
at a character of the source or at its end. -/

namespace Pseudocode

/-! ## Reports of the lexer -/

theorem Piece.ofText_ne_tooDeep {c : Char} {rest : List Char} {cause : SyntaxError.Cause}
    (failed : ofText c rest = .error cause) : cause ≠ .nestedTooDeep := by
  unfold ofText quoted at failed
  split_ifs at failed
  split at failed <;> grind

namespace Token

variable {pos : Position} {cs : List Char} {e : SyntaxError} {tokens : List Token}

/-- The lexer stops in front of a character. -/
theorem scanFrom_error (failed : scanFrom pos cs = .error e) :
    e.cause ≠ .nestedTooDeep ∧
      ∃ passed later, cs = passed ++ later ∧ later ≠ [] ∧ e.position = pos.after passed := by
  have further {pos : Position} {c : Char} {rest : List Char} {more : Nat}
      (found : ∃ passed later, rest.drop more = passed ++ later ∧ later ≠ [] ∧
        e.position = (pos.after (c :: rest.take more)).after passed) :
      ∃ passed later, c :: rest = passed ++ later ∧ later ≠ [] ∧ e.position = pos.after passed := by
    obtain ⟨passed, later, same, some, isPlace⟩ := found
    refine ⟨c :: rest.take more ++ passed, later, ?_, some, by rw [isPlace, Position.after_append]⟩
    rw [List.append_assoc, ← same, List.cons_append, List.take_append_drop]
  fun_induction scanFrom pos cs with
  | case1 => cases failed
  | case2 pos c rest cause isError =>
    cases failed
    exact ⟨Piece.ofText_ne_tooDeep isError, [], c :: rest, rfl, by simp, rfl⟩
  | case3 pos c rest more isPiece ih => exact (ih failed).imp_right further
  | case4 pos c rest l more isPiece stop =>
    rename_i ih
    exact (ih (of_map_error failed)).imp_right further

theorem scan_error (failed : scan cs = .error e) :
    e.cause ≠ .nestedTooDeep ∧ ∃ n < cs.length, e.position = Text.place cs n := by
  obtain ⟨honest, passed, later, rfl, some, isPlace⟩ := scanFrom_error failed
  refine ⟨honest, passed.length, ?_, ?_⟩
  · simpa [List.length_pos_iff] using some
  · rw [place_append, isPlace]

/-- Tokens start at characters of their text, or at its end. -/
theorem start_of_scan (scanned : scan cs = .ok tokens) {t : Token} (member : t ∈ tokens) :
    ∃ n ≤ cs.length, t.start = Text.place cs n := by
  obtain ⟨tiles, rfl, laid⟩ := @Tiles.laid _ _ _ (scanFrom_tiles scanned) [] rfl
  obtain ⟨tile, isTile, rfl⟩ := List.mem_map.mp member
  have covers := laid.covers tile isTile
  have order := covers.order
  have within := covers.within
  exact ⟨tile.first, by rw [List.nil_append] at within; omega, covers.start⟩

end Token

/-! ## Positions of the parser -/

namespace Cursor

variable {tokens body : List Token} {stop : Token} {i : Nat} {inside : i < tokens.length}

theorem closed_nth (isTokens : tokens = body ++ [stop]) (isEnd : stop.isEnd = true)
    (inner : ∀ t ∈ body, t.isEnd = false) : (nth tokens i inside).Closed := by
  refine ⟨body.drop i, stop, ?_, isEnd, fun t member => inner t (List.mem_of_mem_drop member)⟩
  have le : i ≤ body.length := by
    rw [isTokens, List.length_append, List.length_singleton] at inside
    omega
  rw [tokens_nth, isTokens, List.drop_append_of_le_length le]

theorem lastOfLine_mem (last : Token) (rest : List Token) : lastOfLine last rest ∈ last :: rest := by
  induction rest generalizing last with
  | nil => exact List.mem_singleton_self _
  | cons t rest ih =>
    unfold lastOfLine
    split
    · exact List.mem_cons_self
    · exact List.mem_cons_of_mem _ (ih t)

end Cursor

namespace Parser

variable {α : Type} {p : Parser α} {tokens : List Token} {i least : Nat}
  {inside : i < tokens.length}

/-- Started at the token number `i`, the parser stops at a token that is at least so many tokens
later, or it reports one of the tokens from number `i` on. It never runs out of its bound. -/
structure Advances (least : Nat) (p : Parser α) (tokens : List Token) (i : Nat)
    (inside : i < tokens.length) : Prop where
  stops : ∀ a d, p.run (.nth tokens i inside) = .ok (a, d) →
    ∃ j, ∃ inside' : j < tokens.length, i + least ≤ j ∧ d = .nth tokens j inside'
  reports : ∀ e, p.run (.nth tokens i inside) = .error e →
    e.cause ≠ .nestedTooDeep ∧ ∃ t ∈ tokens.drop i, e.position = t.start ∧ e.incomplete = t.isEnd

variable {told : List Token → α → Cursor → Prop}

theorem Advances.of_walks (delivers : Delivers p (.nth tokens i inside) told)
    (yields : Yields p (.nth tokens i inside)
      (fun _ d => d.tokens.length + least ≤ (Cursor.nth tokens i inside).tokens.length)
      (Cursor.nth tokens i inside).Blames) : Advances least p tokens i inside where
  stops a d ran := by
    obtain ⟨ts, walks, -⟩ := delivers.ok ran
    obtain ⟨inside', isNth, -⟩ := walks.eq_nth inside
    unfold Yields at yields
    rw [ran, walks.tokens, List.length_append] at yields
    exact ⟨i + ts.length, inside', by omega, isNth⟩
  reports e failed := by
    unfold Yields at yields
    rw [failed] at yields
    obtain ⟨honest, t, member, same⟩ := yields
    rw [Cursor.tokens_nth] at member
    exact ⟨honest, t, member, same⟩

theorem Proceeds.advances (proceeds : Proceeds p (.nth tokens i inside))
    (delivers : Delivers p (.nth tokens i inside) told) : Advances 0 p tokens i inside :=
  .of_walks delivers (proceeds.mono (fun _ _ since => since.length_le) fun _ blames => blames)

theorem Progresses.advances (progresses : Progresses p (.nth tokens i inside))
    (delivers : Delivers p (.nth tokens i inside) told) : Advances 1 p tokens i inside :=
  .of_walks delivers (progresses.mono (fun _ _ past => past.2) fun _ blames => blames)

theorem advance_advances : Advances 0 advance tokens i inside where
  stops a d ran := by
    cases ran
    by_cases more : i + 1 < tokens.length
    · exact ⟨i + 1, more, Nat.le_succ i, Cursor.nth_next more⟩
    · refine ⟨i, inside, Nat.le_refl i, ?_⟩
      simp only [Cursor.nth, Cursor.next, List.drop_eq_nil_of_le (Nat.le_of_not_lt more)]
  reports e failed := by cases failed

end Parser

namespace Program

theorem ofTokens_blames {tokens body : List Token} {stop : Token} {e : SyntaxError}
    (isTokens : tokens = body ++ [stop]) (isEnd : stop.isEnd = true)
    (inner : ∀ t ∈ body, t.isEnd = false) (failed : ofTokens tokens = .error e) :
    e.cause ≠ .nestedTooDeep ∧ ∃ t ∈ tokens, e.position = t.start ∧ e.incomplete = t.isEnd := by
  cases tokens with
  | nil => simp at isTokens
  | cons t rest =>
    have proceeds := Parser.programBody_proceeds (c := ⟨t, t, rest⟩) ⟨body, stop, isTokens, isEnd, inner⟩
    unfold Parser.Proceeds Parser.Yields at proceeds
    rw [Token.of_map_error (show (Parser.programBody.run ⟨t, t, rest⟩).map _ = .error e from failed)]
      at proceeds
    exact proceeds

/-- Reading is total and moves on. The lexer and the parser give an answer for every source, without
running out of a bound on their recursion, and an error is at a character of the source or at its
end. The parser starts at the first token. It stands on a token of the source at any time, the token
before it and those it looks ahead at are among them too, it never moves back or beyond the end of
the input, and it takes a token at least for each expression and for each statement. The bound on
the nesting of blocks may be any that leaves one for each token. -/
theorem reading_advances (source : List UInt8) :
    let text := Text.decode source
    (∀ e, Token.scan text = .error e → ∃ n < text.length, e.position = Text.place text n) ∧
    (∀ e, ofBytes source = .error e →
      e.cause ≠ .nestedTooDeep ∧ ∃ n ≤ text.length, e.position = Text.place text n) ∧
    ∀ tokens, Token.scan text = .ok tokens →
      (∃ body stop, tokens = body ++ [stop] ∧ stop.isEnd = true ∧ ∀ t ∈ body, t.isEnd = false) ∧
      (∃ inside, Cursor.ofTokens? tokens = some (.nth tokens 0 inside)) ∧
      ∀ i (inside : i < tokens.length),
        Cursor.lastOfLine tokens[i] (tokens.drop (i + 1)) ∈ tokens.drop i ∧
        Parser.Advances 0 Parser.advance tokens i inside ∧
        Parser.Advances 0 Parser.skipLineEnds tokens i inside ∧
        Parser.Advances 1 Parser.expression tokens i inside ∧
        ∀ n, tokens.length ≤ i + n →
          Parser.Advances 1 (Parser.statementWith (Parser.block n)) tokens i inside ∧
          ∀ ending, Parser.Advances 0 (Parser.block (n + 1) ending) tokens i inside := by
  intro text
  have closing {tokens : List Token} (scanned : Token.scan text = .ok tokens) :
      ∃ body stop, tokens = body ++ [stop] ∧ stop.isEnd = true ∧ ∀ t ∈ body, t.isEnd = false := by
    obtain ⟨body, isTokens, inner⟩ := Token.scanFrom_closed scanned
    exact ⟨body, _, isTokens, rfl, inner⟩
  refine ⟨fun e failed => (Token.scan_error failed).2, fun e failed => ?_, fun tokens scanned => ?_⟩
  · change (Token.scan text >>= ofTokens) = .error e at failed
    cases scanned : Token.scan text with
    | error e' =>
      rw [scanned] at failed
      cases failed
      obtain ⟨honest, n, lt, isPlace⟩ := Token.scan_error scanned
      exact ⟨honest, n, Nat.le_of_lt lt, isPlace⟩
    | ok tokens =>
      rw [scanned] at failed
      obtain ⟨body, stop, isTokens, isEnd, inner⟩ := closing scanned
      obtain ⟨honest, t, member, isStart, -⟩ := ofTokens_blames isTokens isEnd inner failed
      rw [isStart]
      exact ⟨honest, Token.start_of_scan scanned member⟩
  · obtain ⟨body, stop, isTokens, isEnd, inner⟩ := closing scanned
    have closed {i : Nat} (inside : i < tokens.length) : (Cursor.nth tokens i inside).Closed :=
      Cursor.closed_nth isTokens isEnd inner
    refine ⟨closing scanned, ?_, fun i inside => ⟨?_, Parser.advance_advances, ?_, ?_, ?_⟩⟩
    · cases tokens with
      | nil => simp at isTokens
      | cons t rest => exact ⟨Nat.succ_pos _, rfl⟩
    · rw [← List.getElem_cons_drop inside]
      exact Cursor.lastOfLine_mem _ _
    · exact (Parser.skipLineEnds_proceeds _).advances (Parser.skipLineEnds_delivers (closed inside))
    · exact (Parser.expression_consumes (closed inside)).progresses.advances
        (Parser.expression_delivers (closed inside))
    · intro n enough
      have left : (Cursor.nth tokens i inside).tokens.length ≤ n := by
        rw [Cursor.tokens_nth, List.length_drop]
        omega
      have blocks (ending : Ending) (e : Cursor) (past : (Cursor.nth tokens i inside).Past e) :
          Parser.Proceeds (Parser.block n ending) e :=
        Parser.block_proceeds ((closed inside).since past.1) (Nat.lt_of_lt_of_le past.2 left) ending
      refine ⟨(Parser.statementWith_progresses (closed inside) blocks).advances
        (Parser.statementWith_delivers (closed inside) fun ending d closed =>
          Parser.block_delivers n ending closed), fun ending => ?_⟩
      exact (Parser.block_proceeds (closed inside) (Nat.lt_succ_of_le left) ending).advances
        (Parser.block_delivers (n + 1) ending (closed inside))

end Program

end Pseudocode
