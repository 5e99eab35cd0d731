import Pseudocode.File
import Pseudocode.Log.Level
import Pseudocode.Path
import Pseudocode.Session

/-! # Manifests

A manifest names a project and says how its programs run: where the entry program is, which optional
types are enabled, how deep calls may nest and how much is logged. -/

namespace Pseudocode

/-- A repository and the one revision of it that is used. -/
structure GitSource where
  url : String := ""
  rev : String := ""
  tag : String := ""
  branch : String := ""
  /-- The entry program below the root of the repository. -/
  path : String := ""
  deriving Repr, DecidableEq

/-- Where the entry program comes from if it is not next to the manifest. -/
structure Source where
  git : Option GitSource := none
  deriving Repr, DecidableEq

structure Manifest where
  /-- Where the manifest itself is. -/
  path : String := ""
  name : String := ""
  entry : String := ""
  /-- The optional types to enable. -/
  types : List String := []
  /-- Whether the manifest chooses the optional types at all. -/
  typesGiven : Bool := false
  /-- How many calls may be open at once; 0 leaves that open. -/
  maxDepth : Int := 0
  /-- The log level; an empty text leaves it open. -/
  logLevel : String := ""
  source : Option Source := none
  deriving Repr, DecidableEq

namespace Manifest

def fileName : String := "pseudo.yml"

def defaultEntry : String := "main.pseudo"

inductive Issue where
  | noName
  | notOptional (type : String)
  | depthNegative (n : Int)
  | depthTooLarge (n : Int)
  | logLevel (flaw : LogLevel.Flaw)
  | noGit
  | noUrl
  | notOnePin
  | absoluteSourcePath
  | absoluteEntry
  deriving Repr, DecidableEq

def optionalNames : List String :=
  Builtins.optionalKinds.map Kind.name

def Issue.message : Issue → String
  | noName => "name must be provided"
  | notOptional type =>
    "types: " ++ Text.quoted type ++ " is not an optional built-in (want one of "
      ++ ", ".intercalate optionalNames ++ ")"
  | depthNegative n => s!"max_call_depth must be positive, got {n}"
  | depthTooLarge n =>
    let limit := Options.deepest
    s!"max_call_depth may not exceed {limit}, got {n}"
  | logLevel flaw => "log_level: " ++ flaw.message
  | noGit => "source must specify git"
  | noUrl => "source.git.url must be provided"
  | notOnePin => "source.git must specify exactly one of rev, tag, or branch"
  | absoluteSourcePath => "source.git.path must be relative to the repository root"
  | absoluteEntry => "entry must be relative to the manifest directory"

def issueIf (bad : Bool) (issue : Issue) : List Issue :=
  if bad then [issue] else []

def logLevelIssues (readLevel : LogLevel.Reader) (text : String) : List Issue :=
  if text = "" then []
  else match readLevel text with
    | .ok _ => []
    | .error flaw => [.logLevel flaw]

def sourceIssues : Source → List Issue
  | ⟨none⟩ => [.noGit]
  | ⟨some git⟩ =>
    issueIf (git.url = "") .noUrl
      ++ issueIf (([git.rev, git.tag, git.branch].filter (· ≠ "")).length ≠ 1) .notOnePin
      ++ issueIf (Path.isAbsolute git.path) .absoluteSourcePath

/-- All that is wrong with a manifest. -/
def issues (readLevel : LogLevel.Reader) (m : Manifest) : List Issue :=
  issueIf (m.name = "") .noName
    ++ (m.types.filter (· ∉ optionalNames)).map .notOptional
    ++ issueIf (m.maxDepth < 0) (.depthNegative m.maxDepth)
    ++ issueIf (Options.deepest < m.maxDepth) (.depthTooLarge m.maxDepth)
    ++ logLevelIssues readLevel m.logLevel
    ++ (match m.source with
      | some source => sourceIssues source
      | none => issueIf (Path.isAbsolute m.entry) .absoluteEntry)

def enabledTypes (m : Manifest) : Option (List String) :=
  if m.typesGiven then some m.types else none

def entryPath (m : Manifest) : Path :=
  (Path.directoryOf m.path).join (if m.entry = "" then defaultEntry else m.entry)

inductive Fault where
  | emptyPath
  | unopened (fault : FileFault)
  | empty (path : String)
  | unreadable (path reason : String)
  | invalid (issues : List Issue)
  deriving Repr, DecidableEq

def Fault.message : Fault → String
  | emptyPath => "manifest: empty path"
  | unopened fault => s!"manifest: open {fault.path}: {fault.message}"
  | empty path => s!"manifest: {path} is empty"
  | unreadable path reason => s!"manifest: parse {path}: {reason}"
  | invalid issues =>
    "manifest validation failed:" ++ String.join (issues.map fun issue => "\n- " ++ issue.message)

end Manifest

end Pseudocode
