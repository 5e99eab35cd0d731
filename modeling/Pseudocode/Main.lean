import Pseudocode.Command
import Std.Time.Zoned

/-! # The command line

Runs a command on the machine it is started on. -/

namespace Pseudocode.Main

/-- Actions on the machine. The bytes are those of a line of input that was read but not handed out. -/
abbrev Live := ReaderT (IO.Ref (List UInt8)) IO

/-- The error with this number, which may be given as a negative one. -/
def errorOfCode (code : UInt32) (details : String) : FileError :=
  let code := if code < 0x80000000 then code else 0 - code
  if code = 2 then .missing
  else if code = 17 then .taken
  else if code = 20 then .notDirectory
  else if code = 21 then .isDirectory
  else if code = 22 then .invalidArgument
  else if code = 36 then .nameTooLong
  else .other details

def errorOf : IO.Error → FileError
  | .noFileOrDirectory _ _ _ => .missing
  | .alreadyExists _ _ _ => .taken
  | .inappropriateType _ code details | .invalidArgument _ code details
  | .permissionDenied _ code details | .noSuchThing _ code details
  | .resourceExhausted _ code details => errorOfCode code details
  | e => .other e.toString

def attempt {α : Type} (action : IO α) : Live (Except FileError α) := do
  try return .ok (← action)
  catch e => return .error (errorOf e)

def kindOf (path : String) : IO FileKind := do
  let data ← (System.mkFilePath [path]).metadata
  return if data.type == .dir then .directory else .file

def readFile (path : String) : Live (Except FileFault (List UInt8)) := do
  match ← attempt (IO.FS.readBinFile path) with
  | .ok bytes => return .ok bytes.toList
  | .error .isDirectory => return .error ⟨"read", path, .isDirectory⟩
  | .error e => return .error ⟨"open", path, e⟩

/-- The entries of a directory in increasing order of their names. -/
def entries (path : String) : IO (List (String × FileKind)) := do
  let found ← (System.mkFilePath [path]).readDir
  let all ← found.toList.mapM fun entry => do
    let kind := if ← entry.path.isDir then FileKind.directory else .file
    return (entry.fileName, kind)
  return all.mergeSort fun a b => a.1 ≤ b.1

def nextLine : Live (Option Lines.Piece) := fun buffer => do
  if (← buffer.get).isEmpty then
    buffer.set (← (← IO.getStdin).getLine).toUTF8.toList
  match ← buffer.get with
  | [] => return none
  | bytes =>
    let (piece, rest) := Lines.next bytes
    buffer.set rest
    return some piece

/-- A path that is free for a directory, which ends in a random number. -/
def unused (path front : String) : Live (Except FileFault String) := do
  let name := ((Path.ofText path).join (front ++ toString (← IO.rand 0 4294967295))).shown
  match ← attempt (do IO.FS.createDir name; IO.FS.removeDir name) with
  | .ok _ => return .ok name
  | .error e => return .error ⟨"mkdir", name, e⟩

def noClones : String := "repositories cannot be cloned"

def clock : IO String := do
  let now ← Std.Time.PlainTime.now
  return LogLine.clockShown now.hour.val.toNat now.minute.val.toNat

instance : Host Live where
  directory := return Path.ofText (← IO.currentDir).toString
  environment name := IO.getEnv name
  kindOf path := attempt (kindOf path)
  read := readFile
  entries path := attempt (entries path)
  makeDirectory path := attempt (IO.FS.createDir path)
  write path bytes := discard (attempt (IO.FS.writeBinFile path ⟨bytes.toArray⟩))
  unused := unused
  rename old new := attempt (IO.FS.rename old new)
  remove path := discard (attempt (IO.FS.removeDirAll path))
  clone _ _ := return .error noClones
  checkOut _ _ _ := return .error noClones
  nextLine := nextLine
  print text := do
    let output ← IO.getStdout
    output.putStr text
    output.flush
  complain text := do (← IO.getStderr).putStr text
  clock := clock

def fuel : Nat := 1000000000000000000

end Pseudocode.Main

def main (args : List String) : IO UInt32 := do
  let buffer ← IO.mkRef []
  let code ← (Pseudocode.Command.run Pseudocode.Main.fuel args : Pseudocode.Main.Live Nat).run buffer
  return code.toUInt32
