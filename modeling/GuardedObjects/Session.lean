import GuardedObjects.Class.Report
import GuardedObjects.Lint
import GuardedObjects.Program.Run
import GuardedObjects.Script.Eval

/-!
# Sessions

A session takes declarations, links them to a program, and then runs scripts on it. The scripts of
one session share their variables and the world.
-/

namespace GuardedObjects

/-- How far a session has come. -/
inductive Stage where
  | declaring (registry : Registry)
  | running (program : Program)
  /-- The declarations could not be linked. -/
  | broken

structure Session where
  stage : Stage := .declaring {}
  world : World := ∅
  vars : Script.Vars := ∅

/-- Why a step of a session failed. -/
inductive SessionError where
  /-- The stage of the session does not allow the step. -/
  | unavailable
  | notAnObject
  /-- Invocations nest deeper than the session allows. -/
  | tooDeep
  | declaration (cause : DeclarationError)
  | fault (cause : Fault)

abbrev SessionM := ExceptT SessionError (StateM Session)

namespace Session

def depthLimit : Nat := 10000

def start (config : Config) : Session := { stage := .declaring { config } }

def registry : SessionM Registry := do
  match (← get).stage with
  | .declaring registry => return registry
  | .running _ | .broken => throw .unavailable

def program : SessionM Program := do
  match (← get).stage with
  | .running program => return program
  | .declaring _ | .broken => throw .unavailable

def mode : SessionM Mode := do
  match (← get).stage with
  | .declaring registry => return registry.config.mode
  | .running program => return program.config.mode
  | .broken => throw .unavailable

def classes : SessionM ClassTable := do
  match (← get).stage with
  | .declaring registry => return registry.classes
  | .running program => return program.classes
  | .broken => throw .unavailable

def ofDeclaration {α : Type} (r : Except DeclarationError α) : SessionM α :=
  liftExcept (r.mapError SessionError.declaration)

def declare (d : ClassDecl) : SessionM (List String) := do
  let (c, registry) ← ofDeclaration ((← registry).declare d)
  modify ({ · with stage := .declaring registry })
  return c.order

def declareFunction (d : FunctionDecl) : SessionM String := do
  let (f, registry) ← ofDeclaration ((← registry).declareFunction d)
  modify ({ · with stage := .declaring registry })
  return f.qualifiedName

/-- Lints a class. Bases that are not declared leave nothing to lint it with. -/
def lint (codes : List String) (d : ClassDecl) : SessionM ClassLint := do
  let registry ← registry
  if d.bases.all registry.classes.contains then ofDeclaration (registry.lint codes d)
  else throw .unavailable

/-- Links the declarations. If that fails, the session is broken. -/
def link : SessionM Config := do
  let registry ← registry
  match registry.link with
  | .ok program =>
    modify ({ · with stage := .running program })
    return program.config
  | .error e =>
    modify ({ · with stage := .broken })
    throw (.declaration e)

def function? (name : String) : SessionM (Option Callable) := do
  return (← program).function? name

def includesFriends? (one other : String) : SessionM (Option Bool) := do
  let classes := (← program).classes
  return do
    let a ← classes.find? one
    let b ← classes.find? other
    return a.friends.includes b.friends

def evaluate (frame : Frame) (e : Script.Expr) : SessionM Value := do
  let program ← program
  let s ← get
  match program.runAction depthLimit frame ((Script.eval frame e).run.run s.vars) s.world with
  | none => throw .tooDeep
  | some ((result, vars), world) =>
    set { s with vars, world }
    liftExcept (result.mapError SessionError.fault)

def contents (name : String) : SessionM (List (SlotKey × Value)) := do
  let _ ← program
  let s ← get
  match (s.vars.find? name).bind Value.object? |>.bind s.world.find? with
  | some o => return o.contents
  | none => throw .notAnObject

/-- Gives the values logged so far and starts a new log. -/
def takeLog : StateM Session (List Value) :=
  modifyGet fun s => (s.world.log, { s with world := { s.world with log := [] } })

end Session

end GuardedObjects
