import GuardedObjects.Proofs.Run.Receiver

/-!
# Cached properties

What an object keeps for a cached property was the result of a property of that name that has run
on the object.
-/

namespace GuardedObjects

namespace World

variable {w w' : World} {r r' : ObjectRef} {o : Instance} {property property' : String}

theorem cached?_of_objects_eq (h : w'.objects = w.objects) :
    w'.cached? r property = w.cached? r property := by
  simp only [cached?, find?, h]

theorem cached?_store (w : World) (r r' : ObjectRef) (key : SlotKey) (v : Value) (fix : Bool)
    (property : String) :
    (w.update r (·.store key v fix)).cached? r' property = w.cached? r' property := by
  rw [cached?, find?_update (f := (·.store key v fix)) fun _ => rfl]
  split
  · rw [cached?]
    cases w.find? r' <;> rfl
  · rfl

theorem cached?_allocate (lineage : List String) :
    (w.allocate lineage).2.cached? r property = w.cached? r property := by
  rw [cached?, find?_allocate]
  split
  · rename_i hr
    simp [cached?, hr, find?_fst_allocate]
  · rfl

theorem cached?_cache (ho : w.find? r = some o) (v : Value) :
    (w.update r (·.cache property v)).cached? r' property' =
      if r' = r ∧ property' = property then some v else w.cached? r' property' := by
  rw [cached?, find?_update_of_find? (f := (·.cache property v)) (fun _ => rfl) ho]
  by_cases hr : r' = r
  · subst hr
    simp [cached?, ho, Instance.cache, Table.find?_insert]
  · rw [if_neg hr, if_neg fun h => hr h.1, cached?]

end World

namespace Program

variable {p : Program} {s t : RunState} {e : Event} {r : ObjectRef} {property : String} {v : Value}

theorem cached?_mediate {frame : Frame} {q : Request} {w w' : World}
    {result : Except Fault Answer} (h : p.mediate frame q w = (result, w')) :
    w'.cached? r property = w.cached? r property := by
  cases mediated h with
  | kept hkept => exact World.cached?_of_objects_eq hkept
  | written => exact World.cached?_store ..
  | allocated => exact World.cached?_allocate _

/-- What an object keeps for a property changes only when an evaluation of the property ends. -/
theorem Step.cached?_eq (h : p.Step s e t) (hs : p.AllPlaced s) (r : ObjectRef)
    (property : String) :
    t.world.cached? r property = s.world.cached? r property ∨
      ∃ a x, e = .ended a (.ok x) ∧ a ∈ s.stack ∧ a.invocation.ending = .cache r property ∧
        t.world.cached? r property = some x := by
  cases h with
  | answer _ hq | refuse _ hq | reject _ hq _ | start _ hq _ => exact .inl (cached?_mediate hq)
  | fail => exact .inl rfl
  | @finish w a stack u _ =>
      cases hending : a.invocation.ending with
      | result => exact .inl (by simp only [Invocation.conclude, hending])
      | object r' => exact .inl (by simp only [Invocation.conclude, hending])
      | cache r' property' =>
          obtain ⟨-, hfound, -⟩ := (hs a (by simp)).cached _ _ hending
          obtain ⟨o, ho⟩ := Option.isSome_iff_exists.mp hfound
          simp only [Invocation.conclude, hending, World.cached?_cache ho]
          by_cases heq : r = r' ∧ property = property'
          · obtain ⟨rfl, rfl⟩ := heq
            exact .inr ⟨a, u, rfl, by simp, hending, if_pos ⟨rfl, rfl⟩⟩
          · exact .inl (if_neg heq)

/-- The activation was that of a cached property of the object, under its qualified name. -/
structure Computes (p : Program) (r : ObjectRef) (property : String) (a : Activation) : Prop where
  receiver : a.frame.receiver = .object r
  method : p.HasMethod r a.callable
  kind : a.callable.kind = .cachedProperty
  name : a.callable.qualifiedName = property

theorem computes_of_ending {a : Activation} (hentered : a.Entered p) {w : World}
    (hplaced : a.invocation.Placed p w) (hending : a.invocation.ending = .cache r property) :
    p.Computes r property a := by
  obtain ⟨hr, -, hname, hkind⟩ := hplaced.cached _ _ hending
  exact ⟨hentered.receiver_eq.trans hr, hplaced.receiver r hr, hkind, hname.symm⟩

theorem Step.computes (h : p.Step s e t) (hentered : p.AllEntered s) (hs : p.AllPlaced s)
    (hv : t.world.cached? r property = some v) :
    s.world.cached? r property = some v ∨
      ∃ a, e = .ended a (.ok v) ∧ p.Computes r property a := by
  rcases h.cached?_eq hs r property with heq | ⟨a, x, rfl, ha, hending, hx⟩
  · exact .inl (heq.symm.trans hv)
  · cases hx.symm.trans hv
    exact .inr ⟨a, rfl, computes_of_ending (hentered a ha) (hs a ha) hending⟩

theorem Run.computes {es : List Event} (h : p.Run {} es s)
    (hv : s.world.cached? r property = some v) :
    ∃ a, .ended a (.ok v) ∈ es ∧ p.Computes r property a := by
  induction h with
  | nil =>
      have hnone : (∅ : World).cached? r property = none := by
        cases hr : r.id <;>
          simp [World.cached?, World.find?, hr, EmptyCollection.emptyCollection]
      rw [show (({} : RunState).world) = ∅ from rfl, hnone] at hv
      cases hv
  | @snoc es t u e hrun hst ih =>
      rcases hst.computes hrun.allEntered hrun.allPlaced hv with hv | ⟨a, rfl, ha⟩
      · obtain ⟨a, ha, hcomputes⟩ := ih hv
        exact ⟨a, List.mem_append_left _ ha, hcomputes⟩
      · exact ⟨a, List.mem_append_right _ (List.mem_singleton_self _), ha⟩

/-! ### Evaluations -/

section

variable {frame : Frame} {w w' : World} {c : ClassInfo} {member : String} {args : Arguments}
  {i : Invocation}

theorem uncached_of_getAttribute {r' : ObjectRef}
    (h : p.getAttribute w frame.caller r' c member = .ok (.invoke i))
    (hi : i.ending = .cache r property) : w.cached? r property = none := by
  obtain ⟨key, m, -, -, -, rfl | ⟨-, hnone, rfl⟩⟩ := getAttribute_eq_invoke h
  · cases hi
  · cases hi
    exact hnone

/-- A property is evaluated for an object only as long as the object keeps no value for it. -/
theorem uncached_of_mediate {q : Request} (h : p.mediate frame q w = (.ok (.invoke i), w'))
    (hi : i.ending = .cache r property) : w.cached? r property = none := by
  cases dispatched h with
  | get _ hg | getSelf _ _ hg => exact uncached_of_getAttribute hg hi
  | call _ hg | callSelf _ _ hg =>
      obtain ⟨_, _, -, -, -, heq⟩ := callMethod_eq_ok hg
      cases heq
      cases hi
  | callOwnClass _ _ hg | callStatic _ hg =>
      obtain ⟨_, _, -, -, -, heq⟩ := callStatic_eq_ok hg
      cases heq
      cases hi
  | callSuper hg =>
      obtain ⟨_, _, _, _, -, -, -, -, -, heq⟩ := callSuper_eq_ok hg
      cases heq
      cases hi
  | callFunction _ heq | instantiate _ _ heq =>
      subst heq
      cases hi

end

end Program

end GuardedObjects
