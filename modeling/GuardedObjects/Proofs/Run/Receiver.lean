import GuardedObjects.Proofs.Heap.Slots
import GuardedObjects.Proofs.Heap.Sound
import GuardedObjects.Proofs.Run.Activation

/-!
# Receivers

A body that runs on an object or on a class is that of a method of the exact class or of one of its
ancestors, whichever request has led to it, and its result is kept in an object only where it is the
value of a cached property of that object.
-/

namespace GuardedObjects

/-! ### Objects stay -/

theorem World.isSome_find?_update {w : World} {r r' : ObjectRef} {f : Instance → Instance}
    (hf : ∀ o, (f o).lineage = o.lineage) :
    ((w.update r f).find? r').isSome = (w.find? r').isSome := by
  rw [find?_update hf]
  split
  · rw [Option.isSome_map]
  · rfl

theorem World.isSome_find?_allocate {w : World} {lineage : List String} {r : ObjectRef}
    (h : (w.find? r).isSome = true) : ((w.allocate lineage).2.find? r).isSome = true := by
  rw [find?_allocate]
  split
  · rfl
  · exact h

theorem Invocation.isSome_find?_conclude {w : World} {r : ObjectRef} (i : Invocation) (v : Value) :
    ((i.conclude v w).2.find? r).isSome = (w.find? r).isSome := by
  unfold conclude
  split
  · rfl
  · exact World.isSome_find?_update fun _ => rfl
  · rfl

namespace Program

variable {p : Program} {frame : Frame} {q : Request} {w w' : World} {r : ObjectRef}

theorem isSome_find?_mediate {result : Except Fault Answer}
    (h : p.mediate frame q w = (result, w')) (hr : (w.find? r).isSome = true) :
    (w'.find? r).isSome = true := by
  cases mediated h with
  | kept hkept => simpa only [World.find?, hkept] using hr
  | @written _ c o member v fix =>
      rw [World.isSome_find?_update (f := (·.store _ v fix)) fun _ => rfl]
      exact hr
  | allocated => exact World.isSome_find?_allocate hr

theorem Step.isSome_find? {s t : RunState} {e : Event} (h : p.Step s e t)
    (hr : (s.world.find? r).isSome = true) : (t.world.find? r).isSome = true := by
  refine h.world (I := fun w => (w.find? r).isSome = true) isSome_find?_mediate ?_ hr
  intro w i v hw
  rw [i.isSome_find?_conclude]
  exact hw

/-! ### Invocations on receivers -/

/-- The callable is a method of the class of that name or of one of its ancestors. -/
def Offers (p : Program) (cls : String) (m : Callable) : Prop :=
  ∃ c k name, p.classes.find? cls = some c ∧ k ∈ p.classes.lineage c ∧ k.method? name = some m

/-- The callable is a method of the object's class or of one of its ancestors. -/
def HasMethod (p : Program) (r : ObjectRef) (m : Callable) : Prop :=
  ∃ c k name, p.classes.find? r.className = some c ∧ k ∈ p.classes.lineage c ∧
    k.method? name = some m

end Program

/-- The receiver has the method, and what keeps the result is the cached property itself. -/
structure Invocation.Placed (p : Program) (w : World) (i : Invocation) : Prop where
  offered : ∀ cls, i.receiver.className? = some cls → p.Offers cls i.callable
  cached : ∀ r property, i.ending = .cache r property → i.receiver = .object r ∧
    (w.find? r).isSome = true ∧ property = i.callable.qualifiedName ∧
    i.callable.kind = .cachedProperty

namespace Invocation.Placed

variable {p : Program} {w w' : World} {i : Invocation} {r : ObjectRef}

theorem receiver (h : i.Placed p w) (r : ObjectRef) (hr : i.receiver = .object r) :
    p.HasMethod r i.callable := h.offered r.className (by rw [hr]; rfl)

theorem mono (h : i.Placed p w)
    (hw : ∀ r, (w.find? r).isSome = true → (w'.find? r).isSome = true) : i.Placed p w' where
  offered := h.offered
  cached := by
    intro r property hending
    obtain ⟨hr, hfound, hrest⟩ := h.cached r property hending
    exact ⟨hr, hw r hfound, hrest⟩

theorem of_receiver {cls : String} (hr : i.receiver.className? = some cls)
    (hm : p.Offers cls i.callable) (hending : ∀ r property, i.ending ≠ .cache r property) :
    i.Placed p w where
  offered := by
    intro cls' hr'
    rw [hr] at hr'
    cases hr'
    exact hm
  cached := fun r property h => absurd h (hending r property)

theorem of_no_receiver (hr : i.receiver.className? = none)
    (hending : ∀ r property, i.ending ≠ .cache r property) : i.Placed p w where
  offered := by
    intro cls hr'
    rw [hr] at hr'
    cases hr'
  cached := fun r property h => absurd h (hending r property)

end Invocation.Placed

namespace Program

variable {p : Program} {frame : Frame} {q : Request} {w w' : World} {r : ObjectRef}
  {c : ClassInfo} {member : String} {args : Arguments} {i : Invocation}

/-- A method that a class offers belongs to a class of its resolution order. -/
theorem Linked.owner_of_offers (hp : p.Linked) {cls : String} {m : Callable}
    (h : p.Offers cls m) :
    ∃ c, p.classes.find? cls = some c ∧ ∃ k ∈ p.classes.lineage c, m.owner = some k.name := by
  obtain ⟨c, k, name, hc, hk, hm⟩ := h
  have hacc := hp.accepted_of_mem_lineage (ClassTable.find?_name hc) hk hm
  exact ⟨c, hc, k, hk, hacc.owner_eq⟩

theorem offers_of_methodAt? {key : SlotKey} {m : Callable} {cls : String}
    (hc : p.classes.find? cls = some c) (hm : p.classes.methodAt? c key = some m) :
    p.Offers cls m := by
  obtain ⟨k, hk, hm, -⟩ := ClassTable.method_of_methodAt? (ClassTable.find?_name hc) hm
  exact ⟨c, k, _, hc, hk, hm⟩

theorem placed_of_getAttribute (hc : p.classes.find? r.className = some c)
    (hr : (w.find? r).isSome = true)
    (h : p.getAttribute w frame.caller r c member = .ok (.invoke i)) : i.Placed p w := by
  obtain ⟨key, m, -, hm, -, hi⟩ := getAttribute_eq_invoke h
  have hoffers := offers_of_methodAt? hc hm
  obtain rfl | ⟨hkind, -, rfl⟩ := hi
  · exact .of_receiver rfl hoffers nofun
  · refine ⟨?_, ?_⟩
    · intro cls hr'
      cases hr'
      exact hoffers
    · intro r' property hending
      cases hending
      exact ⟨rfl, hr, rfl, hkind⟩

/-- A member is placed by a call if its class has it, and so has the class of what the call hands
on. -/
theorem placed_of_call {m : Callable} {cls : String} {handed : Receiver} (hcls : p.Offers cls m)
    (hhanded : ∀ cls, handed.className? = some cls → p.Offers cls m) :
    Invocation.Placed p w { callable := m, receiver := m.kind.receiver handed cls, args } where
  offered := by
    intro cls' hr
    simp only at hr
    cases hkind : m.kind with
    | method | property | cachedProperty =>
        rw [hkind] at hr
        exact hhanded cls' hr
    | classMethod =>
        rw [hkind] at hr
        cases hr
        exact hcls
    | staticMethod | function =>
        rw [hkind] at hr
        cases hr
  cached := nofun

theorem placed_of_callMethod (hc : p.classes.find? r.className = some c)
    (h : p.callMethod w frame.caller r c member args = .ok (.invoke i)) : i.Placed p w := by
  obtain ⟨key, m, -, hm, -, hi⟩ := callMethod_eq_ok h
  cases hi
  refine placed_of_call (offers_of_methodAt? (ClassTable.find?_name hc) hm) ?_
  rintro cls ⟨⟩
  exact offers_of_methodAt? hc hm

theorem placed_of_callStatic (hc : p.classes.find? c.name = some c)
    (h : p.callStatic frame.caller c member args = .ok (.invoke i)) : i.Placed p w := by
  obtain ⟨key, m, -, hm, -, hi⟩ := callStatic_eq_ok h
  cases hi
  exact placed_of_call (offers_of_methodAt? hc hm) nofun

theorem placed_of_callSuper
    (h : p.callSuper frame.caller frame.receiver member args = .ok (.invoke i)) :
    i.Placed p w := by
  obtain ⟨cls, c, k, m, hcls, hc, hk, hm, -, hi⟩ := callSuper_eq_ok h
  cases hi
  refine placed_of_call ⟨c, k, member, ClassTable.find?_name hc, hk, hm⟩ ?_
  intro cls' hcls'
  cases hcls.symm.trans hcls'
  exact ⟨c, k, member, hc, hk, hm⟩

theorem placed_of_mediate (h : p.mediate frame q w = (.ok (.invoke i), w')) :
    i.Placed p w' := by
  cases dispatched h with
  | get ht hg | getSelf _ ht hg =>
      obtain ⟨-, ho, hc⟩ := target_eq_ok ht
      exact placed_of_getAttribute hc (Option.isSome_iff_exists.mpr ho) hg
  | call ht hg | callSelf _ ht hg =>
      obtain ⟨-, -, hc⟩ := target_eq_ok ht
      exact placed_of_callMethod hc hg
  | callOwnClass _ hc hg | callStatic hc hg =>
      exact placed_of_callStatic (ClassTable.find?_name hc) hg
  | callSuper hg => exact placed_of_callSuper hg
  | callFunction _ hi =>
      subst hi
      exact .of_no_receiver rfl nofun
  | instantiate hc hm hi =>
      subst hi
      obtain ⟨k, hk, hmk⟩ := List.exists_of_findSome?_eq_some hm
      exact .of_receiver rfl ⟨_, k, _, ClassTable.find?_name hc, hk, hmk⟩ nofun

/-! ### Running bodies -/

def AllPlaced (p : Program) (s : RunState) : Prop :=
  ∀ a ∈ s.stack, a.invocation.Placed p s.world

theorem Step.allPlaced {s t : RunState} {e : Event} (hs : p.AllPlaced s) (h : p.Step s e t) :
    p.AllPlaced t := by
  have hkept {r : ObjectRef} := h.isSome_find? (r := r)
  -- No step removes an object, so what was true of an activation stays so.
  have hold {a : Activation} (ha : a ∈ s.stack) : a.invocation.Placed p t.world :=
    (hs a ha).mono fun _ => hkept
  cases h with
  | answer | refuse | reject => exact fun a ha => hold ha
  | start _ hq _ =>
      intro a ha
      rcases List.mem_cons.mp ha with rfl | ha
      · exact placed_of_mediate hq
      · exact hold ha
  | finish | fail => exact fun a ha => hold (List.mem_cons_of_mem _ ha)

theorem Run.allPlaced {es : List Event} {s : RunState} (h : p.Run {} es s) : p.AllPlaced s :=
  h.invariant Step.allPlaced (by simp [AllPlaced])

end Program

end GuardedObjects
