import GuardedObjects.Proofs.Class.Lineage

/-!
# Growing tables

A class is declared after its bases and under a name of its own. Whatever was looked up before for
the classes that are in the table already is therefore found after it as well.
-/

namespace GuardedObjects

namespace ClassTable

variable {t : ClassTable} {c k : ClassInfo} {name member : String}

theorem mem_classes_of_mem_select {names : List String} (h : k ∈ t.select names) :
    k ∈ t.classes := by
  obtain ⟨name, -, hk⟩ := List.mem_filterMap.mp h
  exact List.mem_of_find?_eq_some hk

theorem mem_push : k ∈ (t.push c).classes ↔ k ∈ t.classes ∨ k = c := by
  simp [push]

theorem find?_push (t : ClassTable) (c : ClassInfo) (name : String) :
    (t.push c).find? name = (t.find? name).or (if c.name = name then some c else none) := by
  rw [find?, push, List.find?_append]
  by_cases h : c.name = name <;> simp [find?, h]

theorem find?_push_of_some (h : t.find? name = some k) :
    (t.push c).find? name = some k := by
  rw [find?_push, h]
  rfl

theorem find?_push_of_contains (h : t.contains name = true) :
    (t.push c).find? name = t.find? name := by
  obtain ⟨k, hk⟩ := Option.isSome_iff_exists.mp h
  rw [find?_push_of_some hk, hk]

theorem select_push {names : List String} (h : ∀ name ∈ names, t.contains name = true) :
    (t.push c).select names = t.select names := by
  induction names with
  | nil => rfl
  | cons name names ih =>
      have hname := find?_push_of_contains (c := c) (h name (by simp))
      have hnames := ih fun name hname => h name (List.mem_cons_of_mem _ hname)
      simp only [select, List.filterMap_cons, hname] at hnames ⊢
      rw [hnames]

/-- The class may be added: its name is new, and it descends from its bases in the table and from
nothing else. -/
structure Fits (t : ClassTable) (c : ClassInfo) : Prop where
  fresh : t.contains c.name = false
  bases : ∀ name ∈ c.bases, t.contains name = true
  inherited : ∀ name ∈ c.ancestors, ∃ b ∈ t.select c.bases, b.isSubclassOf name = true

/-- The classes of the table have names of their own, and what they descend from is in the table. -/
structure Closed (t : ClassTable) : Prop where
  find? : ∀ c ∈ t.classes, t.find? c.name = some c
  bases : ∀ c ∈ t.classes, ∀ name ∈ c.bases, t.contains name = true
  ancestors : ∀ c ∈ t.classes, ∀ name ∈ c.ancestors, t.contains name = true

namespace Closed

theorem lineage_push (ht : t.Closed) (hk : k ∈ t.classes) :
    (t.push c).lineage k = t.lineage k := by
  rw [lineage, lineage, select_push (ht.ancestors k hk)]

theorem declaringClass?_push (ht : t.Closed) (hk : k ∈ t.classes) :
    (t.push c).declaringClass? k member = t.declaringClass? k member := by
  rw [declaringClass?, declaringClass?, ht.lineage_push hk]

theorem mem_of_declaringClass? (ht : t.Closed) {b : ClassInfo} (hb : b ∈ t.classes)
    (h : t.declaringClass? b member = some k) : k ∈ t.classes :=
  mem_classes_of_mem_lineage (ht.find? b hb) (List.mem_of_find?_eq_some h)

/-- A class descends from itself and its ancestors. -/
theorem mem_select_ancestors (ht : t.Closed) {a : ClassInfo} (ha : a ∈ t.classes)
    (h : k.isSubclassOf a.name = true) (hne : k.name ≠ a.name) : a ∈ t.select k.ancestors := by
  have hmem : a.name ∈ k.order := by simpa [ClassInfo.isSubclassOf] using h
  rcases List.mem_cons.mp hmem with heq | hmem
  · exact absurd heq.symm hne
  · exact List.mem_filterMap.mpr ⟨a.name, hmem, ht.find? a ha⟩

theorem ancestors_of_fits (ht : t.Closed) (hc : t.Fits c) {name : String}
    (hname : name ∈ c.ancestors) : t.contains name = true := by
  obtain ⟨b, hb, hsub⟩ := hc.inherited name hname
  have hb := mem_classes_of_mem_select hb
  have hmem : name ∈ b.order := by simpa [ClassInfo.isSubclassOf] using hsub
  rcases List.mem_cons.mp hmem with rfl | hmem
  · rw [ClassTable.contains, ht.find? b hb]
    rfl
  · exact ht.ancestors b hb name hmem

theorem push (ht : t.Closed) (hc : t.Fits c) : (t.push c).Closed := by
  have hkept {name : String} (h : t.contains name = true) : (t.push c).contains name = true := by
    rw [ClassTable.contains, find?_push_of_contains h]
    exact h
  refine ⟨?_, ?_, ?_⟩
  · intro k hk
    rcases mem_push.mp hk with hk | rfl
    · exact find?_push_of_some (ht.find? k hk)
    · have hnone : t.find? k.name = none := by
        simpa [ClassTable.contains] using hc.fresh
      rw [find?_push, hnone, if_pos rfl]
      rfl
  · intro k hk name hname
    rcases mem_push.mp hk with hk | rfl
    · exact hkept (ht.bases k hk name hname)
    · exact hkept (hc.bases name hname)
  · intro k hk name hname
    rcases mem_push.mp hk with hk | rfl
    · exact hkept (ht.ancestors k hk name hname)
    · exact hkept (ht.ancestors_of_fits hc hname)

end Closed

end ClassTable

end GuardedObjects
