import Pseudocode.Text.Numeral
import Pseudocode.Text.Quoted

/-! # Flags

Flags come first on a command line. One dash or two dashes make no difference, and the value of a flag
stands behind an equals sign or is the next argument. Two dashes alone end the flags. -/

namespace Pseudocode

inductive Flag where
  | coreTypes
  | logLevel
  | maxDepth
  deriving Repr, DecidableEq

namespace Flag

def name : Flag → String
  | coreTypes => "core-types"
  | logLevel => "log-level"
  | maxDepth => "max-depth"

def kind : Flag → String
  | coreTypes | logLevel => "string"
  | maxDepth => "int"

def purpose : Flag → String
  | coreTypes => "comma separated optional built-ins to enable"
  | logLevel => "log level (trace, debug, info, warn, error)"
  | maxDepth => "maximum nested procedure/function calls"

/-- All flags in increasing order of their names. -/
def all : List Flag := [coreTypes, logLevel, maxDepth]

def ofName? (name : String) : Option Flag :=
  all.find? (·.name = name)

end Flag

structure Flags where
  coreTypes : Option String := none
  logLevel : Option String := none
  maxDepth : Option Int := none
  deriving Repr, DecidableEq

namespace Flags

inductive Flaw where
  | help
  | badSyntax (argument : String)
  | undefined (name : String)
  | noValue (name : String)
  | badValue (value name : String) (flaw : Numeral.Flaw)
  deriving Repr, DecidableEq

def Flaw.message : Flaw → String
  | help => "flag: help requested"
  | badSyntax argument => "bad flag syntax: " ++ argument
  | undefined name => "flag provided but not defined: -" ++ name
  | noValue name => "flag needs an argument: -" ++ name
  | badValue value name flaw =>
    let reason := match flaw with
      | .malformed => "parse error"
      | .outOfRange => "value out of range"
    "invalid value " ++ Text.quoted value ++ " for flag -" ++ name ++ ": " ++ reason

def usage (command : String) : String :=
  "Usage of " ++ command ++ ":\n" ++ String.join (Flag.all.map fun flag =>
    "  -" ++ flag.name ++ " " ++ flag.kind ++ "\n    \t" ++ flag.purpose ++ "\n")

/-- What a flaw makes a command say. -/
def Flaw.report (command : String) : Flaw → String
  | help => usage command
  | flaw => flaw.message ++ "\n" ++ usage command

/-- Notes the value of a flag. The last value of a flag counts. -/
def set (flags : Flags) (flag : Flag) (value : String) : Except Flaw Flags :=
  match flag with
  | .coreTypes => .ok { flags with coreTypes := some value }
  | .logLevel => .ok { flags with logLevel := some value }
  | .maxDepth =>
    match Numeral.spaced value with
    | .ok n => .ok { flags with maxDepth := some n }
    | .error flaw => .error (.badValue value flag.name flaw)

inductive Shape where
  /-- No flag. -/
  | other
  /-- The end of the flags. -/
  | stop
  | malformed
  | flag (name : String) (value : Option String)
  deriving Repr, DecidableEq

/-- The name of a flag, and its value if one is attached. The name has at least one character. -/
def shapeOf (body : List Char) : Shape :=
  match body with
  | [] => .malformed
  | first :: rest =>
    if first = '-' ∨ first = '=' then .malformed
    else
      let name := String.ofList (first :: rest.takeWhile (· ≠ '='))
      match rest.dropWhile (· ≠ '=') with
      | [] => .flag name none
      | _ :: value => .flag name (some (String.ofList value))

def shape (argument : String) : Shape :=
  match argument.toList with
  | ['-', '-'] => .stop
  | '-' :: '-' :: body => shapeOf body
  | '-' :: c :: rest => shapeOf (c :: rest)
  | _ => .other

/-- Reads flags from the left. What comes back with them are the arguments behind them. -/
def read (flags : Flags) : List String → Except Flaw (Flags × List String)
  | [] => .ok (flags, [])
  | argument :: rest =>
    match shape argument with
    | .other => .ok (flags, argument :: rest)
    | .stop => .ok (flags, rest)
    | .malformed => .error (.badSyntax argument)
    | .flag name value =>
      match Flag.ofName? name with
      | none => .error (if name = "help" ∨ name = "h" then .help else .undefined name)
      | some flag =>
        match value, rest with
        | some value, rest => (flags.set flag value).bind fun flags => flags.read rest
        | none, value :: rest => (flags.set flag value).bind fun flags => flags.read rest
        | none, [] => .error (.noValue name)

end Flags

end Pseudocode
