import Pseudocode.FileTree

/-! # Repositories

A repository holds commits, and each commit is a tree of files. Commits go by their hashes; a revision
is any other way to name one, such as a tag, a branch or the front of a hash. -/

namespace Pseudocode

namespace Commit

def isHexDigit (c : Char) : Bool :=
  c.isDigit || ('a' ≤ c && c ≤ 'f') || ('A' ≤ c && c ≤ 'F')

/-- Whether the text is the full name of a commit. -/
def isHash (text : String) : Bool :=
  text.toList.length = 40 && text.toList.all isHexDigit

end Commit

structure Commit where
  hash : String
  valid : Commit.isHash hash = true
  deriving Repr, DecidableEq

/-- A repository that has been cloned. -/
structure Repository where
  /-- The commit that a revision names. -/
  resolve : String → Except String Commit
  /-- What the working copy of a commit holds. -/
  entries : Commit → Except String (List (String × FileTree))

end Pseudocode
