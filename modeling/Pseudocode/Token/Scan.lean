import Pseudocode.SyntaxError
import Pseudocode.Text.Classes
import Pseudocode.Text.Letter

/-! # From text to tokens

`Token.scan` cuts a text into tokens. At each place `piece` decides, from the first character on,
what stands there and how many characters it takes; spaces, tabs, carriage returns and `//` comments
are passed over. -/

namespace Pseudocode

def isWordStart (c : Char) : Bool :=
  Text.isLetter c || c = '_'

def isWordPart (c : Char) : Bool :=
  Text.isLetter c || Text.isDigit c || c = '_'

/-- Whether the text starts with a date `dd/mm/yyyy` that no further digit follows. -/
def startsWithDate : List Char → Bool
  | d₁ :: d₂ :: s₁ :: m₁ :: m₂ :: s₂ :: y₁ :: y₂ :: y₃ :: y₄ :: rest =>
    [d₁, d₂, m₁, m₂, y₁, y₂, y₃, y₄].all Text.isDigit && s₁ = '/' && s₂ = '/' &&
      !(rest.head?.any Text.isDigit)
  | _ => false

/-- What stands at one place of a text, and how many characters it takes beyond its first. -/
inductive Piece where
  /-- Something that is passed over. -/
  | layout (more : Nat)
  | lexeme (l : Lexeme) (more : Nat)
  deriving Repr, DecidableEq

namespace Piece

/-- The keyword or identifier spelled by `cs`, which is `more + 1` characters long. -/
def word (cs : List Char) : Piece :=
  let spelling := String.ofList cs
  match Keyword.ofSpelling? spelling with
  | some keyword => .lexeme (.keyword keyword) (cs.length - 1)
  | none => .lexeme (.identifier spelling) (cs.length - 1)

/-- The date, real or integer that starts with the digit `c`. -/
def number (c : Char) (rest : List Char) : Piece :=
  if startsWithDate (c :: rest) then .lexeme (.date (String.ofList (c :: rest.take 9))) 9
  else
    let whole := rest.takeWhile Text.isDigit
    match rest.dropWhile Text.isDigit with
    | '.' :: d :: tail =>
      if Text.isDigit d then
        let fraction := d :: tail.takeWhile Text.isDigit
        .lexeme (.real (String.ofList (c :: whole ++ '.' :: fraction)))
          (whole.length + 1 + fraction.length)
      else .lexeme (.integer (String.ofList (c :: whole))) whole.length
    | _ => .lexeme (.integer (String.ofList (c :: whole))) whole.length

/-- The literal between `quote` and the next one on the same line; `rest` is what follows the
opening quote. -/
def quoted (quote : Char) (kind : TokenKind) (literal : String → Lexeme) (rest : List Char) :
    Except SyntaxError.Cause Piece :=
  let body := rest.takeWhile fun c => c ≠ quote && c ≠ '\n'
  if (rest.drop body.length).head? = some quote then
    .ok (.lexeme (literal (String.ofList body)) (body.length + 1))
  else .error (.unterminated kind)

/-- What the character `c` and the characters after it start with. -/
def ofText (c : Char) (rest : List Char) : Except SyntaxError.Cause Piece :=
  if c = ' ' ∨ c = '\t' ∨ c = '\r' then .ok (.layout 0)
  else if c = '\n' then .ok (.lexeme .endOfLine 0)
  else if c = '/' ∧ rest.head? = some '/' then .ok (.layout (rest.takeWhile (· ≠ '\n')).length)
  else if isWordStart c then .ok (word (c :: rest.takeWhile isWordPart))
  else if Text.isDigit c then .ok (number c rest)
  else match c with
    | '"' => quoted '"' .string .string rest
    | '\'' => quoted '\'' .char .char rest
    | '←' => .ok (.lexeme (.symbol .assign) 0)
    | '<' =>
      match rest.head? with
      | some '-' => .ok (.lexeme (.symbol .assign) 1)
      | some '=' => .ok (.lexeme (.symbol .lessEqual) 1)
      | some '>' => .ok (.lexeme (.symbol .notEqual) 1)
      | _ => .ok (.lexeme (.symbol .less) 0)
    | '>' =>
      match rest.head? with
      | some '=' => .ok (.lexeme (.symbol .greaterEqual) 1)
      | _ => .ok (.lexeme (.symbol .greater) 0)
    | '=' => .ok (.lexeme (.symbol .equal) 0)
    | '+' => .ok (.lexeme (.symbol .plus) 0)
    | '-' => .ok (.lexeme (.symbol .minus) 0)
    | '*' => .ok (.lexeme (.symbol .times) 0)
    | '/' => .ok (.lexeme (.symbol .divide) 0)
    | '&' => .ok (.lexeme (.symbol .join) 0)
    | '(' => .ok (.lexeme (.symbol .leftParen) 0)
    | ')' => .ok (.lexeme (.symbol .rightParen) 0)
    | ',' => .ok (.lexeme (.symbol .comma) 0)
    | ':' => .ok (.lexeme (.symbol .colon) 0)
    | _ => .error (.unexpectedCharacter c)

end Piece

namespace Token

/-- The token of a lexeme read from `start` to `stop`. The end of a line takes one column of its own
line. -/
def ofLexeme (l : Lexeme) (start stop : Position) : Token :=
  if l = .endOfLine then ⟨l, start, ⟨start.line, start.column + 1⟩⟩ else ⟨l, start, stop⟩

/-- The tokens of the characters that stand from `pos` on. -/
def scanFrom (pos : Position) : List Char → Except SyntaxError (List Token)
  | [] => .ok [⟨.endOfInput, pos, pos⟩]
  | c :: rest =>
    match Piece.ofText c rest with
    | .error cause => .error ⟨pos, cause, false⟩
    | .ok (.layout more) => scanFrom (pos.after (c :: rest.take more)) (rest.drop more)
    | .ok (.lexeme l more) =>
      let stop := pos.after (c :: rest.take more)
      (scanFrom stop (rest.drop more)).map (ofLexeme l pos stop :: ·)
termination_by cs => cs.length
decreasing_by all_goals (simp only [List.length_cons, List.length_drop]; omega)

/-- The tokens of a text. The last one is the end of the input, and no other is. -/
def scan (source : List Char) : Except SyntaxError (List Token) :=
  scanFrom .first source

end Token

end Pseudocode
