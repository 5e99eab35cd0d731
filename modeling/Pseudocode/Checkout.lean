import Pseudocode.Host
import Pseudocode.Manifest
import Pseudocode.Text.Classes

/-! # Checkouts

Programs that come from a repository are kept in a cache: one directory for each repository, and in
it one for each revision that was fetched. The revision is part of the name, so a commit that is
already there is found again without asking the repository. -/

namespace Pseudocode

/-- A revision of a repository in the cache. -/
structure Checkout where
  directory : Path
  commit : String
  version : String
  /-- The entry program. -/
  entry : Path
  deriving Repr, DecidableEq

namespace Checkout

inductive Fault where
  | noCache
  | noUrl
  | noPin
  | unwritable (fault : FileFault)
  | notCloned (url reason : String)
  | unresolved (descriptor reason : String)
  | notCheckedOut (descriptor reason : String)
  deriving Repr, DecidableEq

def Fault.message : Fault → String
  | noCache => "git fetcher unavailable"
  | noUrl => "git source: url required"
  | noPin => "git sources require rev, tag, or branch"
  | unwritable fault => fault.message
  | notCloned url reason => s!"git clone {url}: {reason}"
  | unresolved descriptor reason => s!"resolve revision {descriptor}: {reason}"
  | notCheckedOut descriptor reason => s!"git checkout {descriptor}: {reason}"

/-- Whether a character may stand in the name of a directory. -/
def isPlain (c : Char) : Bool :=
  c.isAlphanum || c = '.' || c = '-' || c = '_'

/-- The name of the directory for a text. -/
def segment (text : String) : String :=
  match Text.trimChars text.toList with
  | [] => "head"
  | cs => String.ofList (cs.map fun c => if isPlain c then c else '_')

/-- The name of a version: what was asked for, and the commit that it meant. -/
def pinned (descriptor commit : String) : String :=
  let descriptor := Text.trim descriptor
  let commit := Text.trim commit
  if commit = "" then descriptor
  else if descriptor = "" ∨ descriptor = commit then commit
  else descriptor ++ "@" ++ commit

/-- What is asked for: its full name in a repository, and its name in the source. -/
def revision? (source : GitSource) : Option (String × String) :=
  let rev := Text.trim source.rev
  let tag := Text.trim source.tag
  let branch := Text.trim source.branch
  if rev ≠ "" then some (rev, rev)
  else if tag ≠ "" then some ("refs/tags/" ++ tag, tag)
  else if branch ≠ "" then some ("refs/remotes/origin/" ++ branch, branch)
  else none

/-- The commit that a directory holds for the revision `rev`, if it does. -/
def commitIn? (rev name : String) : Option String :=
  if name = segment rev ∧ Commit.isHash rev then some rev
  else
    let front := (segment rev ++ "_").toList
    let commit := name.toList.drop front.length
    if front.isPrefixOf name.toList ∧ Commit.isHash (String.ofList commit)
        ∧ rev.toList.isPrefixOf commit then
      some (String.ofList commit)
    else none

/-- The version and the commit of the first directory that holds the revision. -/
def cached? (rev : String) (entries : List (String × FileKind)) : Option (String × String) :=
  entries.findSome? fun (name, kind) =>
    if kind = .directory then (commitIn? rev name).map fun commit => (pinned rev commit, commit)
    else none

def repository (cache url : String) : Path :=
  ((Path.ofText cache).join "src").join (segment url)

def ofVersion (repository : Path) (source : GitSource) (version commit : String) : Checkout :=
  let directory := repository.join (segment version)
  let entry := if source.path = "" then Manifest.defaultEntry else source.path
  { directory, commit, version, entry := directory.join entry }

def reused (url rev commit : String) : LogLine :=
  ⟨.debug, "reusing checkout", [("commit", commit), ("rev", rev), ("url", url)]⟩

def cloning (url revision : String) : LogLine :=
  ⟨.debug, "cloning", [("revision", revision), ("url", url)]⟩

/-- What the name of the directory starts with into which a repository is cloned at first. -/
def draftName : String := "git-fetch-"

variable {m : Type → Type} [Monad m] [Host m]

/-- Ends with a result once the clone that is not needed any more is gone. -/
def dropping {α : Type} (draft : String) (result : α) : m α := do
  Host.remove draft
  return result

/-- Keeps the commit that a revision names in the directory of its version. The clone itself becomes
that directory, unless there is one already. -/
def keep (place : Path) (draft : String) (clone : Repository) (revision descriptor : String) :
    m (Except Fault (String × Commit)) := do
  match clone.resolve revision with
  | .error reason => dropping draft (.error (.unresolved descriptor reason))
  | .ok commit =>
    let version := pinned descriptor commit.hash
    let target := (place.join (segment version)).shown
    match ← Host.kindOf target with
    | .ok _ => dropping draft (.ok (version, commit))
    | .error _ =>
      match ← Host.checkOut draft clone commit with
      | .error reason => dropping draft (.error (.notCheckedOut descriptor reason))
      | .ok _ =>
        match ← Host.rename draft target with
        | .error e => dropping draft (.error (.unwritable ⟨"rename", draft ++ " " ++ target, e⟩))
        | .ok _ => return .ok (version, commit)

/-- Clones a repository for the sake of a revision, which is kept. -/
def store (level : LogLevel) (place : Path) (url revision descriptor : String) :
    m (Except Fault (String × Commit)) := do
  match ← Host.unused place.shown draftName with
  | .error fault => return .error (.unwritable fault)
  | .ok draft =>
    Host.log level (cloning url revision)
    match ← Host.clone url draft with
    | .error reason => dropping draft (.error (.notCloned url reason))
    | .ok clone => keep place draft clone revision descriptor

/-- The checkout of a source in a cache. Only a revision by itself is looked for there: what tags and
branches mean may change. -/
def fetch (cache : String) (level : LogLevel) (source : Option GitSource) :
    m (Except Fault Checkout) := do
  if cache = "" then return .error .noCache
  let source := source.getD {}
  let url := Text.trim source.url
  if url = "" then return .error .noUrl
  let place := repository cache url
  match ← Host.makeDirectories place with
  | .error fault => return .error (.unwritable fault)
  | .ok _ =>
    match revision? source with
    | none => return .error .noPin
    | some (revision, descriptor) =>
      let rev := Text.trim source.rev
      let entries ← Host.entries place.shown
      match if rev = "" then none else cached? rev (entries.toOption.getD []) with
      | some (version, commit) =>
        Host.log level (reused url rev commit)
        return .ok (ofVersion place source version commit)
      | none =>
        match ← store level place url revision descriptor with
        | .error fault => return .error fault
        | .ok (version, commit) => return .ok (ofVersion place source version commit.hash)

/-- The directory of the cache: the one that the environment names, or one in the home directory. -/
def defaultCache : m (Option String) := do
  let named := Text.trim ((← Host.environment "PSEUDO_HOME").getD "")
  if named ≠ "" then return some named
  match ← Host.environment "HOME" with
  | none | some "" => return none
  | some home => return some ((Path.ofText home).join ".pseudo").shown

def noHome : String := "resolve home directory: $HOME is not defined"

/-- The entry program of a manifest, which may have to be fetched. -/
def entryOf (cache : String) (level : LogLevel) (manifest : Manifest) :
    m (Except String String) := do
  match manifest.source.bind Source.git with
  | none => return .ok manifest.entryPath.shown
  | some git =>
    match ← fetch cache level (some git) with
    | .error fault => return .error s!"fetch {git.url}: {fault.message}"
    | .ok checkout => return .ok checkout.entry.shown

end Checkout

end Pseudocode
