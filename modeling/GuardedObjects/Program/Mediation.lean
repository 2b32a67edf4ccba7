import GuardedObjects.Program.Basic
import GuardedObjects.Value.Typing
import GuardedObjects.World

/-!
# Mediation

What a request of a frame comes to before any body runs: a value, or the invocation of a callable.
Reads and calls are authorised before anything is looked up, and writes before anything is stored.
-/

namespace GuardedObjects

/-- A computation on the world that may raise a fault. What it did to the world before a fault
stays. -/
abbrev Effect (α : Type) := ExceptT Fault (StateM World) α

namespace Effect

variable {α β : Type}

def read (f : World → Except Fault α) : Effect α := fun w => (f w, w)

theorem bind_apply (x : Effect α) (f : α → Effect β) (w : World) :
    (x >>= f) w =
      match x w with
      | (.error fault, w) => (.error fault, w)
      | (.ok a, w) => f a w := by
  show ExceptT.bindCont f (x w).1 (x w).2 = _
  rcases x w with ⟨_ | _, _⟩ <;> rfl

theorem liftExcept_apply (e : Except Fault α) (w : World) :
    (liftExcept e : Effect α) w = (e, w) := by
  cases e <;> rfl

theorem modifyGet_apply (f : World → α × World) (w : World) :
    (modifyGet f : Effect α) w = (.ok (f w).1, (f w).2) := rfl

end Effect

/-- Where the value of an answer comes from. -/
inductive Origin where
  /-- It is stored in the object under the key. -/
  | slot (key : SlotKey)
  /-- The class has it under the key for all its objects. -/
  | classValue (key : SlotKey)
  /-- It is the result of a cached property that was computed before. -/
  | cache (property : Callable)
  /-- It tells what the request has done. -/
  | effect

/-- What becomes of the result of an invocation. -/
inductive Ending where
  | result
  /-- It is also kept as the value of a cached property. -/
  | cache (r : ObjectRef) (property : String)
  /-- The object takes its place. -/
  | object (r : ObjectRef)

structure Invocation where
  callable : Callable
  receiver : Receiver
  args : Arguments := {}
  ending : Ending := .result

inductive Answer where
  | value (origin : Origin) (v : Value)
  | invoke (invocation : Invocation)

namespace Program

def target (p : Program) (w : World) (v : Value) (member : String) :
    Except Fault (ObjectRef × ClassInfo) :=
  match v with
  | .object r =>
    match w.find? r, p.classes.find? r.className with
    | some _, some c => .ok (r, c)
    | _, _ => .error (.notAnObject member v.typeName)
  | _ => .error (.notAnObject member v.typeName)

def requireClass (p : Program) (name : String) : Except Fault ClassInfo :=
  match p.classes.find? name with
  | some c => .ok c
  | none => .error (.unknownClass name)

/-- The key under which a caller reads a member of the objects of a class. -/
def readKey (p : Program) (caller : Caller) (c : ClassInfo) (member : String) :
    Except Fault SlotKey :=
  (MemberSite.locate p.classes c member caller).authorizeRead p.mode c caller

/-- The key under which a caller writes a member of the objects of a class. -/
def writeKey (p : Program) (caller : Caller) (c : ClassInfo) (member : String) : SlotKey :=
  (MemberSite.locate p.classes c member caller).key none c.name

/-- The value of a property. A cached one is computed once for each object. -/
def readProperty (w : World) (r : ObjectRef) (m : Callable) : Answer :=
  if m.kind = .cachedProperty then
    match w.cached? r m.qualifiedName with
    | some v => .value (.cache m) v
    | none =>
      .invoke { callable := m, receiver := .object r, ending := .cache r m.qualifiedName }
  else .invoke { callable := m, receiver := .object r }

/-- Reads an attribute: what is stored in the object, or else a property, or else the value that
the class has for all its objects. -/
def getAttribute (p : Program) (w : World) (caller : Caller) (r : ObjectRef) (c : ClassInfo)
    (member : String) : Except Fault Answer := do
  let key ← p.readKey caller c member
  match w.slot? r key with
  | some v => return .value (.slot key) v
  | none =>
    match p.classes.methodAt? c key with
    | some m =>
      if m.kind.isProperty then return readProperty w r m
      else throw (.methodAsAttribute c.name member)
    | none =>
      match p.classes.valueAt? c key with
      | some v => return .value (.classValue key) v
      | none => throw (.undefinedMember c.name member)

/-- Whether a write is fixed for good, or why it is refused: only declared attributes are written,
const ones once and by a constructor of the object's class, and all with values of their type. -/
def authorizeWrite (p : Program) (o : Instance) (c : ClassInfo) (member : String)
    (key : SlotKey) (caller : Caller) (v : Value) : Except Fault Bool :=
  match p.mode with
  | .passthrough => .ok false
  | .enforced =>
    match p.classes.attributeAt? c key with
    | none => .error (.untypedAttribute c.name member)
    | some t =>
      if t.isConst && (o.fixed.contains key || !caller.isConstructorOf c.name) then
        .error (.constWrite c.name member)
      else if !t.admits v then
        .error (.typeMismatch (.attribute c.name member) t.unwrapConst v.typeName)
      else .ok t.isConst

def setAttribute (p : Program) (caller : Caller) (r : ObjectRef) (c : ClassInfo)
    (member : String) (v : Value) : Effect Answer := do
  let key := p.writeKey caller c member
  let fix ← Effect.read fun w =>
    match w.find? r with
    | some o => p.authorizeWrite o c member key caller v
    | none => .error (.notAnObject member r.className)
  modify (·.update r (·.store key v fix))
  return .value .effect .none

def callMethod (p : Program) (w : World) (caller : Caller) (r : ObjectRef) (c : ClassInfo)
    (member : String) (args : Arguments) : Except Fault Answer := do
  let key ← p.readKey caller c member
  match p.classes.methodAt? c key with
  | some m =>
    match m.kind with
    | .method => return .invoke { callable := m, receiver := .object r, args }
    | .classMethod => return .invoke { callable := m, receiver := .cls c.name, args }
    | .staticMethod | .function => return .invoke { callable := m, receiver := .none, args }
    | .property | .cachedProperty => throw (.notCallable c.name member)
  | none =>
    if (w.slot? r key).isSome || (p.classes.valueAt? c key).isSome then
      throw (.notCallable c.name member)
    else throw (.undefinedMember c.name member)

def callStatic (p : Program) (caller : Caller) (c : ClassInfo) (member : String)
    (args : Arguments) : Except Fault Answer := do
  let key ← p.readKey caller c member
  match p.classes.methodAt? c key with
  | some m =>
    match m.kind with
    | .staticMethod | .function => return .invoke { callable := m, receiver := .none, args }
    | .classMethod => return .invoke { callable := m, receiver := .cls c.name, args }
    | .method => throw (.noReceiver m.qualifiedName)
    | .property | .cachedProperty => throw (.notCallable c.name member)
  | none => throw (.undefinedMember c.name member)

/-- The classes behind `declaring` in the resolution order of `c`. -/
def classesAfter (p : Program) (c : ClassInfo) (declaring : String) : List ClassInfo :=
  ((p.classes.lineage c).dropWhile fun k => k.name ≠ declaring).drop 1

/-- Calls the next method of that name behind the class of the running callable. -/
def callSuper (p : Program) (caller : Caller) (receiver : Receiver) (member : String)
    (args : Arguments) : Except Fault Answer :=
  match caller.declaring?, receiver.className?.bind p.classes.find? with
  | some declaring, some c =>
    match ClassTable.firstOwner? (·.method? member) (p.classesAfter c declaring) with
    | none => .error (.undefinedMember declaring member)
    | some (owner, m) =>
      if Visibility.ofName member = .priv then .error (.accessDenied owner.name member)
      else
        match m.kind with
        | .staticMethod | .function => .ok (.invoke { callable := m, receiver := .none, args })
        | .classMethod => .ok (.invoke { callable := m, receiver := .cls c.name, args })
        | .method | .property | .cachedProperty =>
          .ok (.invoke { callable := m, receiver, args })
  | _, _ => .error (.noReceiver caller.text)

def callFunction (p : Program) (name : String) (args : Arguments) : Except Fault Answer :=
  match p.function? name with
  | some f => .ok (.invoke { callable := f, receiver := .none, args })
  | none => .error (.unknownFunction name)

/-- Makes an object, on which the constructor is to run. -/
def instantiate (p : Program) (owner : String) (args : Arguments) : Effect Answer := do
  let c ← liftExcept (p.requireClass owner)
  let r ← modifyGet (·.allocate c.order)
  match p.classes.method? c constructorName with
  | some constructor =>
    return .invoke { callable := constructor, receiver := .object r, args, ending := .object r }
  | none =>
    if args.isEmpty then return .value .effect (.object r)
    else throw (.binding s!"{c.name}.{constructorName}" .noConstructor)

/-- How a caller may use a member of a class: the rule that grants it, the key under that rule,
and what the member is located by. -/
def accessReport (p : Program) (caller : Caller) (c : ClassInfo) (member : String) : Value :=
  let site := MemberSite.locate p.classes c member caller
  let grant := site.grant? c caller
  let name? : Option String → Value
    | some name => .str name
    | none => .none
  .list [name? (grant.map Grant.text), .str (site.key grant c.name).text,
    .str site.visibility.text, name? site.lexicalOwner, .bool site.lexicalDeclares,
    name? site.declaringOwner]

/-- What a request comes to that is made in a frame. -/
def mediate (p : Program) (frame : Frame) : Request → Effect Answer
  | .get v member => Effect.read fun w => do
    let (r, c) ← p.target w v member
    p.getAttribute w frame.caller r c member
  | .set v member value => do
    let (r, c) ← Effect.read fun w => p.target w v member
    p.setAttribute frame.caller r c member value
  | .call v member args => Effect.read fun w => do
    let (r, c) ← p.target w v member
    p.callMethod w frame.caller r c member args
  | .getSelf member => Effect.read fun w => do
    let (r, c) ← p.target w (.object (← frame.this)) member
    p.getAttribute w frame.caller r c member
  | .setSelf member value => do
    let (r, c) ← Effect.read fun w => do p.target w (.object (← frame.this)) member
    p.setAttribute frame.caller r c member value
  | .callSelf member args =>
    match frame.receiver with
    | .cls name => Effect.read fun _ => do
      p.callStatic frame.caller (← p.requireClass name) member args
    | .none | .object _ => Effect.read fun w => do
      let (r, c) ← p.target w (.object (← frame.this)) member
      p.callMethod w frame.caller r c member args
  | .callSuper member args => Effect.read fun _ =>
    p.callSuper frame.caller frame.receiver member args
  | .callStatic owner member args => Effect.read fun _ => do
    p.callStatic frame.caller (← p.requireClass owner) member args
  | .callFunction name args => Effect.read fun _ => p.callFunction name args
  | .instantiate owner args => p.instantiate owner args
  | .access owner member => Effect.read fun _ =>
    match p.classes.find? owner with
    | some c => .ok (.value .effect (p.accessReport frame.caller c member))
    | none => .error (.raised "access: no such class")
  | .outside label lineage =>
    modifyGet fun w =>
      let (r, outside) := w.outside.meet label lineage
      (.value .effect (.object r), { w with outside })
  | .log v => do
    modify fun w => { w with log := w.log ++ [v] }
    return .value .effect v

end Program

end GuardedObjects
