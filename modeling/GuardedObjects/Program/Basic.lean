import GuardedObjects.Registry

/-!
# Programs

A program is what a registry becomes when it is linked: every class has its friends, its own and
those of its bases, and every class that a type mentions is declared.
-/

namespace GuardedObjects

structure Program where
  config : Config := {}
  classes : ClassTable := ∅
  functions : List Callable := []
deriving Inhabited

namespace Program

def mode (p : Program) : Mode := p.config.mode

def function? (p : Program) (name : String) : Option Callable :=
  p.functions.find? fun f => f.name = name

end Program

/-- The arguments and the result of a callable are held against its declared types, except for the
hooks of attribute access. -/
def Callable.isChecked (c : Callable) (mode : Mode) : Bool :=
  mode = .enforced && !attributeHooks.contains c.name

/-- The declared types of a callable, each with the member that it belongs to: parameters in order
and then the result. -/
def Callable.typedMembers (c : Callable) : List (String × Ty) :=
  c.params.filterMap (fun p => p.type.map (s!"{c.qualifiedName}.{p.name}", ·)) ++
    c.returns.toList.map (c.qualifiedName, ·)

def ClassInfo.typedMembers (c : ClassInfo) : List (String × Ty) :=
  c.attributes.sorted.map (fun e => (s!"{c.name}.{e.1}", e.2)) ++
    c.methods.sorted.flatMap fun e => e.2.typedMembers

namespace Registry

/-- The declared types of all classes in the order of declaration, and of all functions by name. -/
def typedMembers (r : Registry) : List (String × Ty) :=
  let functions := r.functions.mergeSort fun f g => decide (f.name ≤ g.name)
  r.classes.classes.flatMap ClassInfo.typedMembers ++ functions.flatMap Callable.typedMembers

/-- The first declared type that mentions an undeclared class, and the first such class in it. -/
def unresolvedType? (r : Registry) : Option DeclarationError :=
  r.typedMembers.findSome? fun e =>
    (e.2.classNames.find? fun name => !r.classes.contains name).map (.unresolvedType e.1)

def hasFriend (r : Registry) : Friend → Bool
  | .function name => r.hasFunction name
  | .cls name => r.classes.contains name
  | .method owner name => (r.classes.find? owner).any fun c => (r.classes.method? c name).isSome

/-- The friends that a declared friend stands for. Where it is not strict, a bare name that does
not settle which of a class and a function it means stands for both. -/
def resolveFriend (r : Registry) (strict : Bool) (owner : String) :
    FriendRef → Except DeclarationError (List Friend)
  | .named name =>
    match r.classes.contains name, r.hasFunction name with
    | true, false => .ok [.cls name]
    | false, true => .ok [.function name]
    | true, true =>
      if strict then .error (.ambiguousFriend owner name) else .ok [.cls name, .function name]
    | false, false =>
      if strict then .error (.unresolvedFriend owner name) else .ok [.cls name, .function name]
  | .specified friend =>
    if strict && !r.hasFriend friend then .error (.unresolvedFriend owner friend.text)
    else .ok [friend]

def ownFriends (r : Registry) (strict : Bool) (c : ClassInfo) :
    Except DeclarationError (List Friend) :=
  List.flatten <$> c.declaredFriends.mapM (r.resolveFriend strict c.name)

/-- Adds a class with its friends to the classes linked so far, its bases among them. -/
def linkClass (r : Registry) (strict : Bool) (linked : ClassTable) (c : ClassInfo) :
    Except DeclarationError ClassTable := do
  let own ← r.ownFriends strict c
  let inherited := (linked.select c.bases).map ClassInfo.friends
  return linked.push { c with friends := inherited.foldl (· ∪ ·) (FriendSet.ofList own) }

def link (r : Registry) : Except DeclarationError Program := do
  let classes ← r.classes.classes.foldlM (r.linkClass r.config.isStrict) ∅
  if r.config.mode = .enforced then
    if let some violation := r.unresolvedType? then throw violation
  return { config := r.config, classes, functions := r.functions }

end Registry

end GuardedObjects
