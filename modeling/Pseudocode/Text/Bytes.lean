/-! # Text from bytes

Source files are UTF-8. A byte that is not part of a well-formed sequence reads as the replacement
character U+FFFD, one for each such byte, so every byte string is some text. -/

namespace Pseudocode.Text

/-- What a byte that belongs to no well-formed sequence reads as. -/
def replacement : Char := '�'

def isContinuation (b : UInt8) : Bool :=
  0x80 ≤ b && b ≤ 0xBF

/-- Whether the second byte `b` may follow the first byte `a`. This shuts out overlong forms,
surrogates and what lies beyond U+10FFFF. -/
def mayFollow (a b : UInt8) : Bool :=
  if a = 0xE0 then 0xA0 ≤ b && b ≤ 0xBF
  else if a = 0xED then 0x80 ≤ b && b ≤ 0x9F
  else if a = 0xF0 then 0x90 ≤ b && b ≤ 0xBF
  else if a = 0xF4 then 0x80 ≤ b && b ≤ 0x8F
  else isContinuation b

def payload (b : UInt8) : Nat :=
  b.toNat % 64

def decode : List UInt8 → List Char
  | [] => []
  | a :: rest =>
    if a < 0x80 then Char.ofNat a.toNat :: decode rest
    else if 0xC2 ≤ a && a ≤ 0xDF then
      match rest with
      | b :: rest' =>
        if isContinuation b then Char.ofNat (a.toNat % 32 * 64 + payload b) :: decode rest'
        else replacement :: decode (b :: rest')
      | [] => [replacement]
    else if 0xE0 ≤ a && a ≤ 0xEF then
      match rest with
      | b :: c :: rest' =>
        if mayFollow a b && isContinuation c then
          Char.ofNat ((a.toNat % 16 * 64 + payload b) * 64 + payload c) :: decode rest'
        else replacement :: decode (b :: c :: rest')
      | short => replacement :: decode short
    else if 0xF0 ≤ a && a ≤ 0xF4 then
      match rest with
      | b :: c :: d :: rest' =>
        if mayFollow a b && isContinuation c && isContinuation d then
          Char.ofNat (((a.toNat % 8 * 64 + payload b) * 64 + payload c) * 64 + payload d)
            :: decode rest'
        else replacement :: decode (b :: c :: d :: rest')
      | short => replacement :: decode short
    else replacement :: decode rest

def wellFormed (bytes : List UInt8) : Bool :=
  (String.ofList (decode bytes)).toUTF8.toList = bytes

end Pseudocode.Text
