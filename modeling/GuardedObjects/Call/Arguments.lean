import GuardedObjects.Value.Basic

/-!
# Arguments

The arguments of a call as the caller gives them, and as the callable finds them after binding.
-/

namespace GuardedObjects

structure Arguments where
  positional : List Value := []
  keywords : List (String × Value) := []
deriving Inhabited

def Arguments.isEmpty (a : Arguments) : Bool := a.positional.isEmpty && a.keywords.isEmpty

inductive ParamKind where
  | regular
  /-- Takes the positional arguments that are left over. -/
  | positionals
  /-- Takes the keyword arguments that are left over. -/
  | keywords
deriving DecidableEq, Repr

namespace ParamKind

def isCollector : ParamKind → Bool
  | .regular => false
  | .positionals | .keywords => true

def text : ParamKind → String
  | .regular => "regular"
  | .positionals => "*"
  | .keywords => "**"

end ParamKind

structure BoundArg where
  name : String
  kind : ParamKind
  value : Value

/-- One bound argument for each parameter, in the order of the parameters. -/
structure BoundArgs where
  entries : List BoundArg := []

namespace BoundArgs

instance : EmptyCollection BoundArgs := ⟨{}⟩

def find? (args : BoundArgs) (name : String) : Option Value :=
  (args.entries.find? fun a => a.name = name).map BoundArg.value

end BoundArgs

end GuardedObjects
