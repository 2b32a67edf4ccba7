import GuardedObjects.Declaration.Basic

/-!
# Resolving declarations

A declaration becomes a class or a callable once its types are read and its shape is in order. The
first thing that is wrong with it is reported: bad friends before attributes, attributes before
callables, and for each callable its body, its parameter list, its receiver, its parameters and its
result.
-/

namespace GuardedObjects

/-- What is wrong with a parameter in view of those in front of it. -/
def SignatureProblem.of? (earlier : List ParamDecl) (p : ParamDecl) : Option SignatureProblem :=
  if earlier.any fun q => q.name = p.name then some (.duplicateParameter p.name)
  else if earlier.any fun q => q.kind = .keywords then some (.afterKeywords p.name)
  else if p.kind = .positionals && earlier.any fun q => q.kind = .positionals then
    some .secondPositionals
  else none

def SignatureProblem.first? (params : List ParamDecl) : Option SignatureProblem :=
  go [] params
where
  go (earlier : List ParamDecl) : List ParamDecl → Option SignatureProblem
    | [] => none
    | p :: rest => (SignatureProblem.of? earlier p).or (go (p :: earlier) rest)

def DeclaredType.resolveOption (d : Option DeclaredType) (member : String) :
    Except DeclarationError (Option Ty) :=
  match d with
  | none => .ok none
  | some d => some <$> d.resolve member

def ParamDecl.resolve (p : ParamDecl) (callable : String) : Except DeclarationError Param := do
  let type ← DeclaredType.resolveOption p.type s!"{callable}.{p.name}"
  return { name := p.name, kind := p.kind, type, default := p.default }

def CallableDecl.resolve (d : CallableDecl) (owner : Option String) (name : String) :
    Except DeclarationError Callable := do
  let named : Callable := { name, owner, kind := d.kind, markers := d.markers, body := d.body }
  let qualified := named.qualifiedName
  if d.body.isNone && !d.markers.isAbstract then throw (.missingBody qualified)
  if let some problem := SignatureProblem.first? d.params then
    throw (.invalidSignature qualified problem)
  let receiverType ←
    DeclaredType.resolveOption d.receiverType s!"{qualified}.{d.kind.receiverName}"
  let params ← d.params.mapM fun p => p.resolve qualified
  let returns ← DeclaredType.resolveOption d.returns qualified
  return { named with receiverType, params, returns }

def FunctionDecl.resolve (d : FunctionDecl) : Except DeclarationError Callable :=
  CallableDecl.resolve { d.callable with kind := .function } none d.name

def ClassDecl.resolve (d : ClassDecl) (ancestors : List String) :
    Except DeclarationError ClassInfo := do
  if let friend :: _ := d.badFriends then throw (.invalidFriend d.name friend)
  let attributes ← d.types.traverse fun name type => type.resolve s!"{d.name}.{name}"
  let callables := d.members.filterMap fun _ m => m.callable?
  let methods ← callables.traverse fun name c => c.resolve (some d.name) name
  let values := d.members.filterMap fun _ m => m.value?
  return { name := d.name, bases := d.bases, ancestors, attributes, methods, values,
           declaredFriends := d.friends }

end GuardedObjects
