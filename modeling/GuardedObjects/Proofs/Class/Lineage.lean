import GuardedObjects.Access

/-!
# Lineages

The classes of a resolution order are classes of the table, one for each name, so a private key
leads to one class at most. `ClassTable.AttributeOf` says what the attribute of a key is without
looking it up.
-/

namespace GuardedObjects

theorem Table.contains_of_find? {κ α : Type} [DecidableEq κ] {t : Table κ α} {k : κ} {a : α}
    (h : t.find? k = some a) : t.contains k = true :=
  List.any_eq_true.mpr ⟨(k, a), t.mem_of_find?_eq_some h, by simp⟩

namespace ClassInfo

variable {c : ClassInfo} {member : String}

theorem declares_of_attribute? {ty : Ty} (h : c.attribute? member = some ty) :
    c.declares member = true := by
  have hcontains := Table.contains_of_find? h
  simp [declares, hcontains]

theorem declares_of_method? {m : Callable} (h : c.method? member = some m) :
    c.declares member = true := by
  have hcontains := Table.contains_of_find? h
  simp [declares, hcontains]

end ClassInfo

namespace ClassTable

variable {t : ClassTable} {c k : ClassInfo} {name : String}

theorem name_of_find? (h : t.find? name = some c) : c.name = name := by
  simpa using List.find?_some h

theorem find?_name (h : t.find? name = some c) : t.find? c.name = some c := by
  rw [name_of_find? h]
  exact h

theorem find?_of_mem_lineage (hc : t.find? c.name = some c) (h : k ∈ t.lineage c) :
    t.find? k.name = some k := by
  rcases List.mem_cons.mp h with rfl | h
  · exact hc
  · obtain ⟨name, -, hk⟩ := List.mem_filterMap.mp h
    exact find?_name hk

theorem mem_classes_of_mem_lineage (hc : t.find? c.name = some c) (h : k ∈ t.lineage c) :
    k ∈ t.classes :=
  List.mem_of_find?_eq_some (find?_of_mem_lineage hc h)

theorem map_firstOwner? {α : Type} (f : ClassInfo → Option α) (cs : List ClassInfo) :
    (firstOwner? f cs).map Prod.snd = cs.findSome? f := by
  simp [firstOwner?, List.map_findSome?, Function.comp_def]

/-- The class of a name in a resolution order is the only one there of that name. -/
theorem lineageClass?_eq_some_iff (hc : t.find? c.name = some c) :
    t.lineageClass? c name = some k ↔ k ∈ t.lineage c ∧ k.name = name := by
  constructor
  · intro h
    exact ⟨List.mem_of_find?_eq_some h, by simpa using List.find?_some h⟩
  · rintro ⟨hk, rfl⟩
    cases h : t.lineageClass? c k.name with
    | none =>
        have := List.find?_eq_none.mp h k hk
        simp at this
    | some j =>
        have hj : j ∈ t.lineage c := List.mem_of_find?_eq_some h
        have hname : j.name = k.name := by simpa using List.find?_some h
        have hjt := find?_of_mem_lineage hc hj
        rw [hname, find?_of_mem_lineage hc hk] at hjt
        cases hjt
        rfl

/-- The attribute that a key stands for in objects of the class `c`, by its type: for a shared key
the nearest one of that name, for a private key the one that the owner declares itself. -/
inductive AttributeOf (t : ClassTable) (c : ClassInfo) : SlotKey → Ty → Prop
  | shared {name : String} {ty : Ty} {before after : List ClassInfo} {k : ClassInfo} :
      t.lineage c = before ++ k :: after → (∀ j ∈ before, j.attribute? name = none) →
      k.attribute? name = some ty → AttributeOf t c (.shared name) ty
  | priv {name : String} {ty : Ty} {k : ClassInfo} :
      k ∈ t.lineage c → k.attribute? name = some ty → AttributeOf t c (.priv k.name name) ty

theorem attributeAt?_eq_some_iff (hc : t.find? c.name = some c) {key : SlotKey} {ty : Ty} :
    t.attributeAt? c key = some ty ↔ t.AttributeOf c key ty := by
  cases key with
  | shared name =>
      have hfirst := List.findSome?_eq_some_iff (f := (·.attribute? name)) (l := t.lineage c)
        (b := ty)
      constructor
      · intro h
        obtain ⟨before, k, after, hl, hk, hbefore⟩ := hfirst.mp h
        exact .shared hl hbefore hk
      · rintro (⟨hl, hbefore, hk⟩ | _)
        exact hfirst.mpr ⟨_, _, _, hl, hk, hbefore⟩
  | priv owner name =>
      constructor
      · intro h
        obtain ⟨k, hk, hty⟩ := Option.bind_eq_some_iff.mp h
        obtain ⟨hmem, rfl⟩ := (lineageClass?_eq_some_iff hc).mp hk
        exact .priv hmem hty
      · rintro (_ | ⟨hk, hty⟩)
        exact Option.bind_eq_some_iff.mpr
          ⟨_, (lineageClass?_eq_some_iff hc).mpr ⟨hk, rfl⟩, hty⟩

/-- A method that a key leads to is one of a class of the resolution order, under the key's name,
and under a private key that class is the owner. -/
theorem method_of_methodAt? {key : SlotKey} {m : Callable} (hc : t.find? c.name = some c)
    (h : t.methodAt? c key = some m) :
    ∃ k ∈ t.lineage c, k.method? key.name = some m ∧
      ∀ owner name, key = .priv owner name → k.name = owner := by
  cases key with
  | shared name =>
      obtain ⟨k, hk, hm⟩ := List.exists_of_findSome?_eq_some h
      refine ⟨k, hk, hm, ?_⟩
      intro owner name' heq
      cases heq
  | priv owner name =>
      obtain ⟨k, hk, hm⟩ := Option.bind_eq_some_iff.mp h
      obtain ⟨hmem, hname⟩ := (lineageClass?_eq_some_iff hc).mp hk
      refine ⟨k, hmem, hm, ?_⟩
      intro owner' name' heq
      cases heq
      exact hname

end ClassTable

end GuardedObjects
