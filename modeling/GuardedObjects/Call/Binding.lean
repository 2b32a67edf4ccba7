import GuardedObjects.Call.Callable

/-!
# Binding arguments

`bindArgs` gives every parameter its argument. Positional arguments go to the regular parameters
in front of the first collector, keyword arguments to the regular parameter of that name, what is
left over to the collectors, and parameters that got nothing take their default.
-/

namespace GuardedObjects

/-- A parameter and the argument that it was given so far. -/
structure ParamSlot where
  param : Param
  given : Option Value := none

namespace ParamSlot

def isFor (name : String) (s : ParamSlot) : Bool := s.param.kind = .regular && s.param.name = name

/-- The slots after the positional arguments, which end at the first collector. -/
def ofPositionals : List Param → List Value → List ParamSlot
  | [], _ => []
  | p :: ps, v :: vs =>
    if p.kind = .regular then ⟨p, some v⟩ :: ofPositionals ps vs
    else (p :: ps).map fun p => ⟨p, none⟩
  | p :: ps, [] => (p :: ps).map fun p => ⟨p, none⟩

/-- Gives `v` to the first slot of the regular parameter `name`. -/
def give (name : String) (v : Value) : List ParamSlot → List ParamSlot
  | [] => []
  | s :: slots => if s.isFor name then ⟨s.param, some v⟩ :: slots else s :: give name v slots

end ParamSlot

/-- How many positional arguments a parameter list takes one by one. -/
def positionalCapacity (params : List Param) : Nat :=
  (params.takeWhile fun p => p.kind = .regular).length

/-- The slots, and the keyword arguments that no regular parameter takes. -/
structure KeywordState where
  slots : List ParamSlot
  surplus : List (String × Value)

def KeywordState.pass (hasCollector : Bool) (st : KeywordState) (kw : String × Value) :
    Except BindingProblem KeywordState :=
  match st.slots.find? (ParamSlot.isFor kw.1) with
  | some ⟨_, some _⟩ => .error (.multipleValues kw.1)
  | some ⟨_, none⟩ => .ok { st with slots := ParamSlot.give kw.1 kw.2 st.slots }
  | none =>
    if hasCollector then
      if st.surplus.any fun e => e.1 = kw.1 then .error (.multipleValues kw.1)
      else .ok { st with surplus := st.surplus ++ [kw] }
    else .error (.unexpectedKeyword kw.1)

/-- The value of every slot. The first collector of each kind takes all that is left over. -/
def collectArgs : List ParamSlot → List Value → List (String × Value) →
    Except BindingProblem (List BoundArg)
  | [], _, _ => .ok []
  | ⟨p, given⟩ :: slots, values, keywords =>
    match p.kind with
    | .positionals => do
      return ⟨p.name, p.kind, .tuple values⟩ :: (← collectArgs slots [] keywords)
    | .keywords => do
      let entries := keywords.map fun e => (Value.str e.1, e.2)
      return ⟨p.name, p.kind, .dict entries⟩ :: (← collectArgs slots values [])
    | .regular =>
      match given.or p.default with
      | some v => do return ⟨p.name, p.kind, v⟩ :: (← collectArgs slots values keywords)
      | none => .error (.missing p.name)

def bindArgs (params : List Param) (args : Arguments) : Except BindingProblem BoundArgs := do
  let capacity := positionalCapacity params
  let hasCollector (kind : ParamKind) := params.any fun p => p.kind = kind
  if capacity < args.positional.length && !hasCollector .positionals then
    throw (.tooManyPositionals capacity)
  let start : KeywordState := ⟨ParamSlot.ofPositionals params args.positional, []⟩
  let st ← args.keywords.foldlM (KeywordState.pass (hasCollector .keywords)) start
  return ⟨← collectArgs st.slots (args.positional.drop capacity) st.surplus⟩

end GuardedObjects
