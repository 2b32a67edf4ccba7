import GuardedObjects.Proofs.Heap.Slots
import GuardedObjects.Proofs.Heap.Sound
import GuardedObjects.Proofs.Run.Activation

/-!
# Const attributes

A const slot is written once at most, by a constructor that runs on an object of the very class,
and keeps its value from then on.
-/

namespace GuardedObjects

/-- The running body is that of a constructor, on an object whose exact class is `cls`. -/
structure Activation.Constructs (p : Program) (a : Activation) (cls : String) : Prop where
  declared : ∃ c ∈ p.classes.classes, c.method? constructorName = some a.callable
  name_eq : a.callable.name = constructorName
  receiver_eq : a.frame.receiver.className? = some cls

namespace Program

variable {p : Program} {r : ObjectRef} {key : SlotKey} {c : ClassInfo} {ty : Ty}

theorem constructs_of_isConstructorOf (hp : p.Linked) {s : RunState} (hs : p.AllEntered s)
    {frame : Frame} (hframe : frame ∈ s.frames) {cls : String}
    (h : frame.caller.isConstructorOf cls = true) :
    ∃ a ∈ s.stack, a.frame = frame ∧ a.Constructs p cls := by
  rcases RunState.mem_frames_iff.mp hframe with rfl | rfl | ⟨a, ha, rfl⟩
  · cases h
  · cases h
  · refine ⟨a, ha, rfl, ?_⟩
    have hentered := hs a ha
    rw [hentered.caller_eq, Callable.caller] at h
    cases ho : a.callable.owner with
    | none =>
        rw [ho] at h
        cases h
    | some owner =>
        simp only [ho, Caller.isConstructorOf, Bool.and_eq_true, decide_eq_true_eq] at h
        obtain ⟨hname, hreceiver⟩ := h
        obtain ⟨A, hA, -, hm⟩ := hp.method_of_owner hentered.declared ho
        rw [hname] at hm
        exact ⟨⟨A, hA, hm⟩, hname, hreceiver⟩

section

variable (hmode : p.mode = .enforced) (hc : p.classes.find? r.className = some c)
  (hty : p.classes.attributeAt? c key = some ty) (hconst : ty.isConst = true)

include hmode hc hty hconst

theorem Wrote.of_const {frame : Frame} {q : Request} {w w' : World} {k : ClassInfo}
    {o : Instance} {v : Value} {fix : Bool} (h : p.Wrote r key frame q w w' k o v fix) :
    key ∉ o.fixed ∧ frame.caller.isConstructorOf c.name = true := by
  have hk := h.subject
  rw [hc] at hk
  cases hk
  obtain ⟨ty', hty', -, -, hfresh⟩ := authorizeWrite_eq_ok hmode h.authorized
  rw [hty] at hty'
  cases hty'
  exact hfresh hconst

omit hmode in
theorem fixed_of_slot? {w : World} (hw : w.Sound p) {v : Value} (hv : w.slot? r key = some v) :
    ∃ o, w.find? r = some o ∧ key ∈ o.fixed := by
  obtain ⟨o, ho, hv⟩ := Option.bind_eq_some_iff.mp hv
  obtain ⟨-, hs⟩ := hw.of_find? ho hc
  have hstored : (o.slots.find? key).isSome = true := by rw [hv]; rfl
  exact ⟨o, ho, (hs.fixed_iff key).mpr ⟨hstored, ty, hty, hconst⟩⟩

theorem Step.slotWritten?_ne {s t : RunState} {e : Event} (h : p.Step s e t)
    (hs : s.world.Sound p) {v : Value} (hv : s.world.slot? r key = some v) :
    p.slotWritten? e ≠ some (r, key) := by
  intro hw
  obtain ⟨frame, q, k, o, v', fix, -, -, hwrote⟩ := h.wrote hw
  obtain ⟨o', ho', hfixed⟩ := fixed_of_slot? hc hty hconst hs hv
  rw [hwrote.found] at ho'
  cases ho'
  exact (hwrote.of_const hmode hc hty hconst).1 hfixed

/-- A const slot is written as often as it holds a value. -/
theorem Run.count_slotWritten? {es : List Event} {s : RunState} (h : p.Run {} es s) :
    (es.filterMap p.slotWritten?).count (r, key) =
      if (s.world.slot? r key).isSome then 1 else 0 := by
  induction h with
  | nil => simp [World.slot?_empty]
  | @snoc es t u e hrun hst ih =>
      rw [List.filterMap_append, List.count_append, ih]
      by_cases hw : p.slotWritten? e = some (r, key)
      · -- What is stored is fixed, so a write that succeeds has found nothing stored.
        have hnone : t.world.slot? r key = none := by
          cases hv : t.world.slot? r key with
          | none => rfl
          | some v =>
              have hne := hst.slotWritten?_ne hmode hc hty hconst (hrun.sound hmode) hv
              exact absurd hw hne
        obtain ⟨_, _, _, o, v, fix, -, -, hwrote⟩ := hst.wrote hw
        have hsome : u.world.slot? r key = some v := by
          rw [hwrote.world, World.slot?_store hwrote.found, if_pos ⟨rfl, rfl⟩]
        simp [hnone, hsome, hw]
      · rw [hst.slot?_eq hw]
        have hzero : ([e].filterMap p.slotWritten?).count (r, key) = 0 := by
          rw [List.count_eq_zero]
          intro hmem
          obtain ⟨e', he', hw'⟩ := List.mem_filterMap.mp hmem
          rw [List.mem_singleton] at he'
          subst he'
          exact hw hw'
        rw [hzero, Nat.add_zero]

theorem Run.slot?_const {s u : RunState} {es : List Event} (h : p.Run s es u)
    (hs : s.world.Sound p) {v : Value} (hv : s.world.slot? r key = some v) :
    u.world.Sound p ∧ u.world.slot? r key = some v := by
  refine h.invariant (I := fun u => u.world.Sound p ∧ u.world.slot? r key = some v) ?_ ⟨hs, hv⟩
  rintro s e t ⟨hs, hv⟩ hst
  refine ⟨hst.sound hmode hs, ?_⟩
  rw [hst.slot?_eq (hst.slotWritten?_ne hmode hc hty hconst hs hv)]
  exact hv

theorem serve_of_fixed {w : World} (hw : w.Sound p) {v : Value} (hv : w.slot? r key = some v)
    (run : BodyRunner) {frame : Frame} {q : Request} (hq : q.written?.isSome = true)
    (hslot : p.slotOf? frame q = some (r, key)) :
    p.serve run frame q w = some (.error (.constWrite c.name key.name), w) := by
  obtain ⟨o, ho, hfixed⟩ := fixed_of_slot? hc hty hconst hw hv
  obtain ⟨hr, k, hs, hkey⟩ := slotOf?_eq_some_iff.mp hslot
  have hk := class_of_subject? hr hs
  rw [hc] at hk
  cases hk
  obtain ⟨⟨member, v'⟩, hwrites⟩ := Option.isSome_iff_exists.mp hq
  have hmember := member_eq_of_written? hwrites hs
  subst hmember
  have hrefused : p.authorizeWrite o c key.name key frame.caller v' =
      .error (.constWrite c.name key.name) := by
    simp only [authorizeWrite, hmode, hty]
    rw [if_pos]
    simp [hconst, hfixed]
  have hm := mediate_write hwrites hr hs ho
  simp only [setAttribute_apply, ho, ← hkey, hrefused] at hm
  simp only [serve, hm]

end

/-- Over any run of an enforced program a const attribute of an object is written once at most,
and then by a running constructor on an object of that class. At every moment it holds a value if
and only if it is fixed, and from the moment on at which it holds one it keeps that value and every
write to it is refused. -/
theorem Run.const_written_once (hp : p.Linked) (hmode : p.mode = .enforced) {es : List Event}
    {s : RunState} (h : p.Run {} es s) (hc : p.classes.find? r.className = some c)
    (hty : p.classes.AttributeOf c key ty) (hconst : ty.isConst = true) :
    (es.filterMap p.slotWritten?).count (r, key) ≤ 1 ∧
      (∀ e ∈ es, p.slotWritten? e = some (r, key) →
        ∃ before after u a q, es = before ++ e :: after ∧ p.Run {} before u ∧ a ∈ u.stack ∧
          e = .answered a.frame q .effect .none ∧ a.Constructs p c.name) ∧
      (∀ o, s.world.find? r = some o → ((o.slots.find? key).isSome = true ↔ key ∈ o.fixed)) ∧
      ∀ v, s.world.slot? r key = some v → ∀ fs u, p.Run s fs u →
        u.world.slot? r key = some v ∧
          ∀ run frame q, q.written?.isSome = true → p.slotOf? frame q = some (r, key) →
            p.serve run frame q u.world =
              some (.error (.constWrite c.name key.name), u.world) := by
  have hat := (ClassTable.attributeAt?_eq_some_iff (ClassTable.find?_name hc)).mpr hty
  refine ⟨?_, ?_, ?_, ?_⟩
  · rw [h.count_slotWritten? hmode hc hat hconst]
    split <;> omega
  · intro e he hw
    obtain ⟨before, after, u, t, hes, hrun, hst⟩ := h.split_of_mem he
    obtain ⟨frame, q, k, o, v, fix, hframe, rfl, hwrote⟩ := hst.wrote hw
    obtain ⟨-, hctor⟩ := hwrote.of_const hmode hc hat hconst
    obtain ⟨a, ha, rfl, hconstructs⟩ :=
      constructs_of_isConstructorOf hp hrun.allEntered hframe hctor
    exact ⟨before, after, u, a, q, hes, hrun, ha, rfl, hconstructs⟩
  · intro o ho
    obtain ⟨-, hs⟩ := (h.sound hmode).of_find? ho hc
    rw [hs.fixed_iff key]
    exact ⟨fun hv => ⟨hv, ty, hat, hconst⟩, fun hfixed => hfixed.1⟩
  · intro v hv fs u hrun
    obtain ⟨hu, hvu⟩ := hrun.slot?_const hmode hc hat hconst (h.sound hmode) hv
    refine ⟨hvu, ?_⟩
    intro run frame q hq hslot
    exact serve_of_fixed hmode hc hat hconst hu hvu run hq hslot

theorem Run.const_written_once_vault :
    ∃ es, vault.Run {} es ⟨vaultWorld, []⟩ ∧
      (es.filterMap vault.slotWritten?).count (vaultRef, .priv "Vault" "__code") ≤ 1 ∧
      ∀ fs u, vault.Run ⟨vaultWorld, []⟩ fs u →
        u.world.slot? vaultRef (.priv "Vault" "__code") = some (.int 7) := by
  obtain ⟨es, hrun⟩ := run_vault
  have hclass : (vault.classes.find? "Vault").bind (vault.classes.attributeAt? ·
      (.priv "Vault" "__code")) = some (.const (.primitive .int)) := by cbv
  obtain ⟨c, hc, hat⟩ := Option.bind_eq_some_iff.mp hclass
  have hty := (ClassTable.attributeAt?_eq_some_iff (ClassTable.find?_name hc)).mp hat
  have hslot : vaultWorld.slot? vaultRef (.priv "Vault" "__code") = some (.int 7) := by cbv
  obtain ⟨hcount, -, -, hkept⟩ :=
    Run.const_written_once (r := vaultRef) linked_vault mode_vault hrun hc hty rfl
  exact ⟨es, hrun, hcount, fun fs u hrun' => (hkept _ hslot fs u hrun').1⟩

end Program

end GuardedObjects
