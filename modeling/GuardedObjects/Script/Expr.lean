import GuardedObjects.Value.Basic

/-!
# Scripts

The expressions that bodies are written in. A script is a list of expressions; they are evaluated
one after the other, and the last one gives the result.
-/

namespace GuardedObjects.Script

mutual

inductive Expr where
  | literal (v : Value)
  /-- An object from outside. Without a label it is a new one at each evaluation. -/
  | outside (label : Option Int) (lineage : List String)
  | assign (name : String) (e : Expr)
  | var (name : String)
  | block (es : List Expr)
  | list (es : List Expr)
  | tuple (es : List Expr)
  | set (es : List Expr)
  | dict (entries : List (Expr × Expr))
  /-- Takes the first branch if the condition is `true`, and the second if it is any other value. -/
  | cond (condition whenTrue otherwise : Expr)
  | equal (a b : Expr)
  | add (a b : Expr)
  | log (e : Expr)
  | raise (text : String)
  /-- A fault of `e` becomes a value. -/
  | attempt (e : Expr)
  | arg (name : String)
  | args
  | this
  | getMember (target : Expr) (member : String)
  | setMember (target : Expr) (member : String) (e : Expr)
  | callMember (target : Expr) (member : String) (args : CallArgs)
  | getThis (member : String)
  | setThis (member : String) (e : Expr)
  | callThis (member : String) (args : CallArgs)
  | callSuper (member : String) (args : CallArgs)
  | callStatic (owner member : String) (args : CallArgs)
  | callFunction (name : String) (args : CallArgs)
  | instantiate (owner : String) (args : CallArgs)
  | typeName (e : Expr)
  | isInstance (e : Expr) (cls : String)
  /-- Whether two values are one instance. -/
  | same (a b : Expr)
  | caller
  | isConstructorOf (cls : String)
  | receiver
  | access (owner member : String)

inductive CallArgs where
  | of (positional : List Expr) (keywords : List (String × Expr))

end

instance : Inhabited Expr := ⟨.block []⟩

end GuardedObjects.Script
