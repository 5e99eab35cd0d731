import Pseudocode.Memory

/-! # Built-in types

INTEGER, REAL and BOOLEAN are always there. STRING, CHAR and DATE may be switched off: then their
names are unbound and their literals are refused. -/

namespace Pseudocode

/-- The built-in types that programs may use. -/
structure Builtins where
  /-- The optional ones among them, in the order they were asked for. -/
  optional : List Kind
  deriving Repr, DecidableEq

namespace Builtins

/-- The types that cannot be switched off. -/
def always : List Kind := [.integer, .real, .boolean]

/-- The types that can. -/
def optionalKinds : List Kind := [.string, .char, .date]

def optionalKind? (name : String) : Option Kind :=
  optionalKinds.find? (·.name = name)

/-- Adds the types to those already chosen, each of them once. -/
def choose (chosen : List Kind) : List String → Except Failure (List Kind)
  | [] => .ok chosen
  | name :: rest =>
    match optionalKind? name with
    | none => .error (.plain ("unknown optional type " ++ Text.quoted name))
    | some kind => choose (if kind ∈ chosen then chosen else chosen ++ [kind]) rest

/-- The built-in types with these optional ones; all of them if nothing is said. -/
def ofNames : Option (List String) → Except Failure Builtins
  | none => .ok ⟨optionalKinds⟩
  | some names => (choose [] names).map Builtins.mk

/-- The types in the order they are declared. -/
def kinds (b : Builtins) : List Kind :=
  always ++ b.optional

def enabled (b : Builtins) (kind : Kind) : Bool :=
  kind ∈ b.kinds

/-- Declares the types as constants of a scope. -/
def install (b : Builtins) (id : ScopeId) : Memory.Action Unit :=
  b.kinds.forM fun kind =>
    Memory.declareConstant id kind.name (.of .type) (.type (.of kind))

end Builtins

end Pseudocode
