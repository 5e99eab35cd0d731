/-! # Files

What may go wrong with files, told in the words of the operating system. -/

namespace Pseudocode

inductive FileKind where
  | file
  | directory
  deriving Repr, DecidableEq

inductive FileError where
  | missing
  | notDirectory
  | isDirectory
  | taken
  | nameTooLong
  | invalidArgument
  | other (text : String)
  deriving Repr, DecidableEq

def FileError.message : FileError → String
  | missing => "no such file or directory"
  | notDirectory => "not a directory"
  | isDirectory => "is a directory"
  | taken => "file exists"
  | nameTooLong => "file name too long"
  | invalidArgument => "invalid argument"
  | other text => text

/-- An operation that failed, and the path it was about. -/
structure FileFault where
  operation : String
  path : String
  error : FileError
  deriving Repr, DecidableEq

def FileFault.message (f : FileFault) : String :=
  f.operation ++ " " ++ f.path ++ ": " ++ f.error.message

end Pseudocode
