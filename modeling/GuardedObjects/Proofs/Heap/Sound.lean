import GuardedObjects.Proofs.Class.Lineage
import GuardedObjects.Proofs.Mediation
import GuardedObjects.Proofs.Run.Execution

/-!
# The invariant of the heap

In every object each slot belongs to a declared attribute of the object's class and holds a value
of its type, and the fixed slots are exactly the const ones that hold a value. Every step of an
enforced program keeps this.
-/

namespace GuardedObjects

/-! ### Objects -/

/-- The slots of an object of class `c` are in order. -/
structure Instance.Sound (t : ClassTable) (c : ClassInfo) (o : Instance) : Prop where
  typed : ∀ key v, o.slots.find? key = some v →
    ∃ ty, t.attributeAt? c key = some ty ∧ ty.admits v = true
  fixed_iff : ∀ key, key ∈ o.fixed ↔
    (o.slots.find? key).isSome ∧ ∃ ty, t.attributeAt? c key = some ty ∧ ty.isConst = true

namespace Instance.Sound

variable {t : ClassTable} {c : ClassInfo} {o : Instance}

theorem fresh (lineage : List String) : Sound t c { lineage } where
  typed := by simp
  fixed_iff := by simp

theorem cache (h : o.Sound t c) (property : String) (v : Value) :
    (o.cache property v).Sound t c := ⟨h.typed, h.fixed_iff⟩

theorem store (h : o.Sound t c) {key : SlotKey} {ty : Ty} (hty : t.attributeAt? c key = some ty)
    {v : Value} (hv : ty.admits v = true) : (o.store key v ty.isConst).Sound t c where
  typed := by
    intro key' v' hv'
    simp only [Instance.store, Table.find?_insert] at hv'
    split at hv'
    · rename_i heq
      cases hv'
      exact ⟨ty, heq ▸ hty, hv⟩
    · exact h.typed key' v' hv'
  fixed_iff := by
    intro key'
    have hold := h.fixed_iff key'
    simp only [Instance.store, Table.find?_insert]
    by_cases heq : key' = key
    · subst heq
      rw [if_pos rfl]
      cases hconst : ty.isConst with
      | true => simp [hty, hconst]
      | false =>
          -- The only attribute under the key is not const, so the key was not fixed before.
          have hno : key' ∉ o.fixed := by
            intro hmem
            obtain ⟨ty', hty', hc⟩ := (hold.mp hmem).2
            rw [hty] at hty'
            cases hty'
            rw [hconst] at hc
            cases hc
          simp [hty, hconst, hno]
    · rw [if_neg heq]
      cases hconst : ty.isConst with
      | true => simpa [heq] using hold
      | false => simpa using hold

end Instance.Sound

/-! ### Worlds -/

/-- Every object is one of a declared class and in order. -/
def World.Sound (p : Program) (w : World) : Prop :=
  ∀ (i : Nat) (o : Instance), w.objects[i]? = some o →
    ∃ c, p.classes.find? c.name = some c ∧ o.lineage = c.order ∧ o.Sound p.classes c

namespace World.Sound

variable {p : Program} {w : World}

theorem empty : (∅ : World).Sound p := by
  intro i o h
  simp [EmptyCollection.emptyCollection] at h

theorem of_objects_eq (h : w.Sound p) {w' : World} (heq : w'.objects = w.objects) :
    w'.Sound p := by
  intro i o ho
  rw [heq] at ho
  exact h i o ho

theorem of_find? (h : w.Sound p) {r : ObjectRef} {o : Instance} {c : ClassInfo}
    (ho : w.find? r = some o) (hc : p.classes.find? r.className = some c) :
    o.lineage = c.order ∧ o.Sound p.classes c := by
  obtain ⟨i, -, hoi, hl⟩ := World.find?_eq_some_iff.mp ho
  obtain ⟨c', hc', hl', hs⟩ := h i o hoi
  have hname : r.className = c'.name := by
    rw [ObjectRef.className, ← hl, hl']
    rfl
  rw [hname, hc'] at hc
  cases hc
  exact ⟨hl', hs⟩

theorem update (h : w.Sound p) (r : ObjectRef) {f : Instance → Instance}
    (hf : ∀ (i : Nat) (o : Instance) c, r.id = .stored i → w.objects[i]? = some o →
      p.classes.find? c.name = some c → o.lineage = c.order → o.Sound p.classes c →
      (f o).lineage = o.lineage ∧ (f o).Sound p.classes c) : (w.update r f).Sound p := by
  intro i o ho
  rw [getElem?_update] at ho
  split at ho
  · rename_i hr
    obtain ⟨o', ho', rfl⟩ := Option.map_eq_some_iff.mp ho
    obtain ⟨c, hc, hl, hs⟩ := h i o' ho'
    obtain ⟨hl', hs'⟩ := hf i o' c hr ho' hc hl hs
    exact ⟨c, hc, hl'.trans hl, hs'⟩
  · exact h i o ho

theorem update_found (h : w.Sound p) {r : ObjectRef} {o : Instance} {c : ClassInfo}
    (ho : w.find? r = some o) (hc : p.classes.find? r.className = some c)
    {f : Instance → Instance} (hl : (f o).lineage = o.lineage)
    (hf : o.Sound p.classes c → (f o).Sound p.classes c) : (w.update r f).Sound p := by
  obtain ⟨i, hi, hoi, -⟩ := World.find?_eq_some_iff.mp ho
  obtain ⟨hlo, hs⟩ := h.of_find? ho hc
  refine h.update r ?_
  intro i' o' c' hi' hoi' hc' hlc' _
  -- The lineage of an object begins with the name of its class.
  cases hi.symm.trans hi'
  cases hoi.symm.trans hoi'
  have hname : c'.name = c.name := by
    have hheads := congrArg List.head? (hlc'.symm.trans hlo)
    simpa [ClassInfo.order] using hheads
  rw [hname, ClassTable.find?_name hc] at hc'
  cases hc'
  exact ⟨hl, hf hs⟩

theorem allocate (h : w.Sound p) {c : ClassInfo} (hc : p.classes.find? c.name = some c) :
    (w.allocate c.order).2.Sound p := by
  intro i o ho
  rw [getElem?_allocate] at ho
  split at ho
  · cases ho
    exact ⟨c, hc, rfl, .fresh c.order⟩
  · exact h i o ho

theorem conclude (h : w.Sound p) (i : Invocation) (v : Value) : (i.conclude v w).2.Sound p := by
  unfold Invocation.conclude
  split
  · exact h
  · exact h.update _ fun _ _ _ _ _ _ _ hs => ⟨rfl, hs.cache _ _⟩
  · exact h

end World.Sound

/-! ### Steps -/

namespace Program

variable {p : Program}

/-- What an enforced program has made sure of before it stores a value. -/
theorem authorizeWrite_eq_ok (hmode : p.mode = .enforced) {o : Instance} {c : ClassInfo}
    {member : String} {key : SlotKey} {caller : Caller} {v : Value} {fix : Bool}
    (h : p.authorizeWrite o c member key caller v = .ok fix) :
    ∃ ty, p.classes.attributeAt? c key = some ty ∧ ty.admits v = true ∧ fix = ty.isConst ∧
      (ty.isConst = true → key ∉ o.fixed ∧ caller.isConstructorOf c.name = true) := by
  rw [authorizeWrite, hmode] at h
  simp only at h
  split at h
  · cases h
  · rename_i ty hty
    split at h
    · cases h
    · rename_i hconst
      split at h
      · cases h
      · rename_i hv
        cases h
        refine ⟨ty, hty, by simpa using hv, rfl, ?_⟩
        intro hc
        simpa [hc] using hconst

/-- A property of worlds that answering a request and ending an invocation keep is kept by every
step. -/
theorem Step.world {I : World → Prop}
    (hm : ∀ {frame q w result w'}, p.mediate frame q w = (result, w') → I w → I w')
    (hc : ∀ {w} (i : Invocation) (v : Value), I w → I (i.conclude v w).2) {s t : RunState}
    {e : Event} (h : p.Step s e t) (hs : I s.world) : I t.world := by
  cases h with
  | answer _ hq | refuse _ hq | reject _ hq _ | start _ hq _ => exact hm hq hs
  | finish => exact hc _ _ hs
  | fail => exact hs

theorem sound_of_mediate (hmode : p.mode = .enforced) {frame : Frame} {q : Request}
    {w w' : World} {result : Except Fault Answer} (h : p.mediate frame q w = (result, w'))
    (hw : w.Sound p) : w'.Sound p := by
  cases mediated h with
  | kept hkept => exact hw.of_objects_eq hkept
  | @written r c o member v fix hr _ hsub ho ha =>
      obtain ⟨ty, hty, hv, rfl, -⟩ := authorizeWrite_eq_ok hmode ha
      exact hw.update_found ho (class_of_subject? hr hsub) rfl fun hs => hs.store hty hv
  | allocated _ hc => exact hw.allocate (ClassTable.find?_name hc)

theorem Step.sound (hmode : p.mode = .enforced) {s t : RunState} {e : Event}
    (hs : s.world.Sound p) (h : p.Step s e t) : t.world.Sound p :=
  h.world (sound_of_mediate hmode) (fun i v hw => hw.conclude i v) hs

theorem Run.sound (hmode : p.mode = .enforced) {es : List Event} {s : RunState}
    (h : p.Run {} es s) : s.world.Sound p :=
  h.invariant (Step.sound hmode) .empty

theorem objects_of_refused_write {run : BodyRunner} {frame : Frame} {q : Request}
    (hq : q.written?.isSome = true) {w w' : World} {fault : Fault}
    (h : p.serve run frame q w = some (.error fault, w')) : w'.objects = w.objects := by
  unfold Program.serve at h
  rcases hm : p.mediate frame q w with ⟨fault' | ⟨origin, v⟩ | i, w₁⟩
  · simp only [hm, Option.some.injEq, Prod.mk.injEq] at h
    obtain ⟨-, rfl⟩ := h
    cases mediated hm with
    | kept hkept => exact hkept
    | allocated he =>
        rw [he] at hq
        cases hq
  · simp [hm] at h
  · cases mediated hm with
    | kept _ hw =>
        rcases hw with hw | ⟨_, hw⟩
        · rw [hw] at hq
          cases hq
        · cases hw
    | allocated he =>
        rw [he] at hq
        cases hq

/-- In every state that a run of an enforced program reaches, whatever is stored in an object is
stored under the key of a declared attribute of the object's class and is of the attribute's type,
and there no frame can change any object by a write that gives an error. -/
theorem Run.heap_typed (hmode : p.mode = .enforced) {es : List Event} {s : RunState}
    (h : p.Run {} es s) :
    (∀ (i : Nat) (o : Instance), s.world.objects[i]? = some o →
      ∃ c, p.classes.find? c.name = some c ∧ o.lineage = c.order ∧
        ∀ key v, o.slots.find? key = some v →
          ∃ ty, p.classes.AttributeOf c key ty ∧ ty.admits v = true) ∧
      ∀ (run : BodyRunner) (frame : Frame) (q : Request) (fault : Fault) (w : World),
        q.written?.isSome = true → p.serve run frame q s.world = some (.error fault, w) →
        w.objects = s.world.objects := by
  refine ⟨?_, ?_⟩
  · intro i o ho
    obtain ⟨c, hc, hl, hs⟩ := h.sound hmode i o ho
    refine ⟨c, hc, hl, ?_⟩
    intro key v hv
    obtain ⟨ty, hty, hadmits⟩ := hs.typed key v hv
    exact ⟨ty, (ClassTable.attributeAt?_eq_some_iff hc).mp hty, hadmits⟩
  · intro run frame q fault w hq hserve
    exact objects_of_refused_write hq hserve

theorem Run.heap_typed_vault :
    ∃ es o w c ty, vault.Run {} es ⟨vaultWorld, []⟩ ∧ vaultWorld.objects[0]? = some o ∧
      o.slots.find? (.priv "Vault" "__code") = some (.int 7) ∧
      vault.classes.AttributeOf c (.priv "Vault" "__code") ty ∧ ty.admits (.int 7) = true ∧
      vault.serve (vault.exec 1) .reflect (.set (.object vaultRef) "__code" (.int 8)) vaultWorld =
        some (.error (.constWrite "Vault" "__code"), w) ∧
      w.objects = vaultWorld.objects := by
  obtain ⟨es, hrun⟩ := run_vault
  obtain ⟨htyped, hkept⟩ := Run.heap_typed mode_vault hrun
  have hslot : vaultWorld.objects[0]?.bind (·.slots.find? (.priv "Vault" "__code")) =
      some (.int 7) := by cbv
  obtain ⟨o, ho, hv⟩ := Option.bind_eq_some_iff.mp hslot
  obtain ⟨c, -, -, hslots⟩ := htyped 0 o ho
  obtain ⟨ty, hty, hadmits⟩ := hslots _ _ hv
  have hserve : vault.serve (vault.exec 1) .reflect
      (.set (.object vaultRef) "__code" (.int 8)) vaultWorld =
        some (.error (.constWrite "Vault" "__code"), vaultWorld) := by cbv
  exact ⟨es, o, vaultWorld, c, ty, hrun, ho, hv, hty, hadmits, hserve,
    hkept _ _ _ _ _ rfl hserve⟩

end Program

end GuardedObjects
