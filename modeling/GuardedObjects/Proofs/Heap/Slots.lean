import GuardedObjects.Proofs.Mediation
import GuardedObjects.Proofs.Run.Basic

/-!
# Slots

A slot changes only when a write to it succeeds. The values that are computed for cached
properties, the objects that are made and the writes to other slots leave it as it is.
-/

namespace GuardedObjects

namespace World

variable {w w' : World} {r r' : ObjectRef} {o : Instance} {key key' : SlotKey}

theorem slot?_empty : (∅ : World).slot? r key = none := by
  cases hr : r.id with
  | stored i => simp [slot?, find?, hr, EmptyCollection.emptyCollection]
  | labelled _ | unlabelled _ => simp [slot?, find?, hr]

theorem slot?_of_objects_eq (h : w'.objects = w.objects) : w'.slot? r key = w.slot? r key := by
  simp only [slot?, find?, h]

theorem find?_update {f : Instance → Instance} (hf : ∀ o, (f o).lineage = o.lineage) :
    (w.update r f).find? r' = if r'.id = r.id then (w.find? r').map f else w.find? r' := by
  apply Option.ext
  intro o
  rw [find?_eq_some_iff]
  by_cases hid : r'.id = r.id
  · rw [if_pos hid, Option.map_eq_some_iff]
    constructor
    · rintro ⟨i, hi, ho, hl⟩
      rw [getElem?_update, if_pos (hid.symm.trans hi)] at ho
      obtain ⟨o', ho', rfl⟩ := Option.map_eq_some_iff.mp ho
      exact ⟨o', find?_eq_some_iff.mpr ⟨i, hi, ho', (hf o').symm.trans hl⟩, rfl⟩
    · rintro ⟨o', ho', rfl⟩
      obtain ⟨i, hi, ho', hl⟩ := find?_eq_some_iff.mp ho'
      refine ⟨i, hi, ?_, (hf o').trans hl⟩
      rw [getElem?_update, if_pos (hid.symm.trans hi), ho']
      rfl
  · rw [if_neg hid, find?_eq_some_iff]
    have hne (i : Nat) (hi : r'.id = .stored i) : r.id ≠ .stored i :=
      fun h => hid (hi.trans h.symm)
    constructor
    · rintro ⟨i, hi, ho, hl⟩
      rw [getElem?_update, if_neg (hne i hi)] at ho
      exact ⟨i, hi, ho, hl⟩
    · rintro ⟨i, hi, ho, hl⟩
      refine ⟨i, hi, ?_, hl⟩
      rw [getElem?_update, if_neg (hne i hi)]
      exact ho

-- A reference has to carry the lineage of its object, so one object is found under one reference.
theorem eq_of_find? {o' : Instance} (ho : w.find? r = some o) (ho' : w.find? r' = some o')
    (hid : r'.id = r.id) : r' = r ∧ o' = o := by
  obtain ⟨i, hi, hoi, hl⟩ := find?_eq_some_iff.mp ho
  obtain ⟨j, hj, hoj, hl'⟩ := find?_eq_some_iff.mp ho'
  cases hi.symm.trans (hid.symm.trans hj)
  cases hoi.symm.trans hoj
  refine ⟨?_, rfl⟩
  cases r
  cases r'
  simp_all

theorem find?_update_of_find? {f : Instance → Instance} (hf : ∀ o, (f o).lineage = o.lineage)
    (ho : w.find? r = some o) :
    (w.update r f).find? r' = if r' = r then some (f o) else w.find? r' := by
  rw [find?_update hf]
  by_cases hr : r' = r
  · subst hr
    rw [if_pos rfl, if_pos rfl, ho]
    rfl
  · rw [if_neg hr]
    split
    · rename_i hid
      cases ho' : w.find? r' with
      | none => rfl
      | some o' => exact absurd (eq_of_find? ho ho' hid).1 hr
    · rfl

theorem find?_fst_allocate (w : World) (lineage : List String) :
    w.find? (w.allocate lineage).1 = none := by
  simp [find?, allocate]

theorem find?_allocate (w : World) (lineage : List String) (r : ObjectRef) :
    (w.allocate lineage).2.find? r =
      if r = (w.allocate lineage).1 then some { lineage } else w.find? r := by
  obtain ⟨id, l⟩ := r
  cases id with
  | stored i =>
      simp only [find?, allocate, Array.getElem?_push, ObjectRef.mk.injEq, ObjectId.stored.injEq]
      by_cases hi : i = w.objects.size
      · -- The place was empty, and is filled for references that carry the lineage.
        subst hi
        by_cases hl : l = lineage
        · simp [hl]
        · simp [hl, Ne.symm hl]
      · simp [hi]
  | labelled _ | unlabelled _ => simp [find?, allocate]

theorem slot?_store (ho : w.find? r = some o) (v : Value) (fix : Bool) :
    (w.update r (·.store key v fix)).slot? r' key' =
      if r' = r ∧ key' = key then some v else w.slot? r' key' := by
  rw [slot?, find?_update_of_find? (f := (·.store key v fix)) (fun _ => rfl) ho]
  by_cases hr : r' = r
  · subst hr
    simp [slot?, ho, Instance.store, Table.find?_insert]
  · rw [if_neg hr, if_neg fun h => hr h.1, slot?]

theorem slot?_cache (property : String) (v : Value) :
    (w.update r (·.cache property v)).slot? r' key = w.slot? r' key := by
  rw [slot?, find?_update (f := (·.cache property v)) fun _ => rfl]
  split
  · rw [slot?]
    cases w.find? r' <;> rfl
  · rfl

theorem slot?_allocate (lineage : List String) :
    (w.allocate lineage).2.slot? r key = w.slot? r key := by
  rw [slot?, find?_allocate]
  split
  · rename_i hr
    simp [slot?, hr, find?_fst_allocate]
  · rfl

end World

theorem MemberSite.name_key (m : MemberSite) (grant : Option Grant) (fallback : String) :
    (m.key grant fallback).name = m.name := by
  unfold key
  split <;> rfl

namespace Program

variable {p : Program}

theorem name_writeKey (caller : Caller) (c : ClassInfo) (member : String) :
    (p.writeKey caller c member).name = member :=
  MemberSite.name_key ..

/-- The slot that a request on a member of an object writes, if it writes. -/
def slotOf? (p : Program) (frame : Frame) (q : Request) : Option (ObjectRef × SlotKey) := do
  let r ← q.target? frame
  let (c, member) ← p.subject? frame q
  return (r, p.writeKey frame.caller c member)

/-- The slot that an event has written. Only a write that succeeds has written one. -/
def slotWritten? (p : Program) : Event → Option (ObjectRef × SlotKey)
  | .answered frame q _ _ => if q.written?.isSome then p.slotOf? frame q else none
  | .refused .. | .rejected .. | .started .. | .ended .. => none

theorem slotOf?_eq_some_iff {frame : Frame} {q : Request} {r : ObjectRef} {key : SlotKey} :
    p.slotOf? frame q = some (r, key) ↔
      q.target? frame = some r ∧
        ∃ c, p.subject? frame q = some (c, key.name) ∧
          key = p.writeKey frame.caller c key.name := by
  constructor
  · intro h
    obtain ⟨r', hr, h⟩ := Option.bind_eq_some_iff.mp h
    obtain ⟨⟨c, member⟩, hs, h⟩ := Option.bind_eq_some_iff.mp h
    cases h
    refine ⟨hr, c, ?_, ?_⟩
    · rw [name_writeKey]
      exact hs
    · rw [name_writeKey]
  · rintro ⟨hr, c, hs, hkey⟩
    refine Option.bind_eq_some_iff.mpr ⟨r, hr, Option.bind_eq_some_iff.mpr ⟨_, hs, ?_⟩⟩
    simp only
    rw [← hkey]
    rfl

theorem member_eq_of_written? {frame : Frame} {q : Request} {c : ClassInfo}
    {member member' : String} {v : Value} (hq : q.written? = some (member, v))
    (hs : p.subject? frame q = some (c, member')) : member' = member := by
  cases q with
  | set _ _ _ | setSelf _ _ =>
      cases hq
      obtain ⟨k, -, heq⟩ := Option.map_eq_some_iff.mp hs
      cases heq
      rfl
  | _ => cases hq

theorem mediate_write {frame : Frame} {q : Request} {r : ObjectRef} {c : ClassInfo}
    {member : String} {v : Value} {w : World} {o : Instance}
    (hq : q.written? = some (member, v)) (hr : q.target? frame = some r)
    (hs : p.subject? frame q = some (c, member)) (ho : w.find? r = some o) :
    p.mediate frame q w = p.setAttribute frame.caller r c member v w := by
  have hc := class_of_subject? hr hs
  have ht : p.target w (.object r) member = .ok (r, c) := by
    simp only [target, ho, hc]
  cases q with
  | set target _ _ =>
      cases hq
      cases target with
      | object _ =>
          cases hr
          simp only [mediate, Effect.bind_apply, Effect.read, ht]
      | _ => cases hr
  | setSelf _ _ =>
      cases hq
      cases hrec : frame.receiver with
      | object _ =>
          simp only [Request.target?, hrec, Option.some.injEq] at hr
          subst hr
          simp only [mediate, Effect.bind_apply, Effect.read, Frame.this, hrec, ok_bind, ht]
      | none | cls _ => simp [Request.target?, hrec] at hr
  | _ => cases hq

/-- What has happened where a slot was written. -/
structure Wrote (p : Program) (r : ObjectRef) (key : SlotKey) (frame : Frame) (q : Request)
    (w w' : World) (c : ClassInfo) (o : Instance) (v : Value) (fix : Bool) : Prop where
  written : q.written? = some (key.name, v)
  found : w.find? r = some o
  subject : p.classes.find? r.className = some c
  authorized : p.authorizeWrite o c key.name key frame.caller v = .ok fix
  world : w' = w.update r (·.store key v fix)

variable {s t : RunState} {e : Event} {r : ObjectRef} {key : SlotKey}

theorem wrote_of_mediate {frame : Frame} {q : Request} {a : Answer} {w w' : World}
    (h : p.mediate frame q w = (.ok a, w')) (hwrites : q.written?.isSome = true)
    (hslot : p.slotOf? frame q = some (r, key)) :
    a = .value .effect .none ∧ ∃ c o v fix, p.Wrote r key frame q w w' c o v fix := by
  obtain ⟨hr, c, hs, hkey⟩ := slotOf?_eq_some_iff.mp hslot
  cases mediated h with
  | kept _ hno =>
      rcases hno with hno | ⟨_, hno⟩
      · rw [hno] at hwrites
        cases hwrites
      · cases hno
  | @written r' c' o member v fix hr' hq hs' ho ha =>
      cases hr.symm.trans hr'
      cases hs.symm.trans hs'
      rw [← hkey] at ha ⊢
      exact ⟨rfl, c, o, v, fix, hq, ho, class_of_subject? hr hs, ha, rfl⟩
  | allocated he =>
      rw [he] at hwrites
      cases hwrites

theorem Step.wrote (h : p.Step s e t) (hw : p.slotWritten? e = some (r, key)) :
    ∃ frame q c o v fix, frame ∈ s.frames ∧ e = .answered frame q .effect .none ∧
      p.Wrote r key frame q s.world t.world c o v fix := by
  cases h with
  | @answer _ frame q origin v w hframe hq =>
      simp only [slotWritten?] at hw
      split at hw
      · rename_i hwrites
        obtain ⟨ha, c, o, v, fix, hwrote⟩ := wrote_of_mediate hq hwrites hw
        cases ha
        exact ⟨frame, q, c, o, v, fix, hframe, rfl, hwrote⟩
      · cases hw
  | _ => cases hw

theorem slot?_of_mediate {frame : Frame} {q : Request} {w w' : World}
    {result : Except Fault Answer} (h : p.mediate frame q w = (result, w'))
    (hne : ∀ origin v, result = .ok (.value origin v) → q.written?.isSome = true →
      p.slotOf? frame q ≠ some (r, key)) : w'.slot? r key = w.slot? r key := by
  cases mediated h with
  | kept hkept => exact World.slot?_of_objects_eq hkept
  | @written r' c o member v fix hr hq hs ho _ =>
      have hslot : p.slotOf? frame q = some (r', p.writeKey frame.caller c member) := by
        refine slotOf?_eq_some_iff.mpr ⟨hr, c, ?_, ?_⟩
        · rw [name_writeKey]
          exact hs
        · rw [name_writeKey]
      have hother := hne _ _ rfl (by rw [hq]; rfl)
      rw [World.slot?_store ho, if_neg]
      rintro ⟨rfl, rfl⟩
      exact hother hslot
  | allocated _ _ => exact World.slot?_allocate _

/-- A step that does not write a slot leaves it as it is. -/
theorem Step.slot?_eq (h : p.Step s e t) (hne : p.slotWritten? e ≠ some (r, key)) :
    t.world.slot? r key = s.world.slot? r key := by
  cases h with
  | answer _ hq =>
      refine slot?_of_mediate hq ?_
      intro _ _ _ hwrites
      rwa [slotWritten?, if_pos hwrites] at hne
  | refuse _ hq | reject _ hq | start _ hq =>
      refine slot?_of_mediate hq ?_
      intro _ _ h
      cases h
  | finish =>
      simp only [Invocation.conclude]
      split
      · rfl
      · exact World.slot?_cache _ _
      · rfl
  | fail => rfl

end Program

end GuardedObjects
