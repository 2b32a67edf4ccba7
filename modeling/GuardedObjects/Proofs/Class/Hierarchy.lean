import Mathlib.Data.List.Induction
import GuardedObjects.Proofs.Class.Growth
import GuardedObjects.Proofs.Class.Linearization

/-!
# Hierarchies

A table that grows by classes which merge the resolution orders of their bases is ordered: a class
stands behind all that it descends from, and keeps the resolution orders of its ancestors within its
own.
-/

namespace GuardedObjects

namespace ClassTable

variable {t : ClassTable} {a c k : ClassInfo} {name : String}

/-- The ancestors are without repetition, and the resolution orders of the bases are kept in them.
-/
structure Merges (t : ClassTable) (c : ClassInfo) : Prop where
  nodup : c.ancestors.Nodup
  sublist : ∀ b ∈ t.select c.bases, b.order.Sublist c.ancestors

theorem Merges.mem_ancestors_iff (hm : t.Merges c) (hc : t.Fits c) :
    name ∈ c.ancestors ↔ ∃ b ∈ t.select c.bases, name ∈ b.order := by
  constructor
  · intro hname
    obtain ⟨b, hb, hsub⟩ := hc.inherited name hname
    exact ⟨b, hb, by simpa [ClassInfo.isSubclassOf] using hsub⟩
  · rintro ⟨b, hb, hname⟩
    exact (hm.sublist b hb).subset hname

/-- The table of a hierarchy: it holds every class once, behind its bases and ancestors, and a class
keeps the resolution orders of its ancestors. -/
structure WellOrdered (t : ClassTable) : Prop where
  nodup_names : (t.classes.map ClassInfo.name).Nodup
  find?_iff : ∀ name c, t.find? name = some c ↔ c ∈ t.classes ∧ c.name = name
  earlier : ∀ before c after, t.classes = before ++ c :: after →
    ∀ name ∈ c.bases ++ c.ancestors, ∃ k ∈ before, t.find? name = some k
  head_order : ∀ c ∈ t.classes, c.order.head? = some c.name
  nodup_order : ∀ c ∈ t.classes, c.order.Nodup
  inherited : ∀ c ∈ t.classes, ∀ name,
    name ∈ c.ancestors ↔ ∃ b ∈ t.select c.bases, name ∈ b.order
  transitive : ∀ c ∈ t.classes, ∀ a ∈ t.select c.ancestors, a.ancestors ⊆ c.ancestors
  monotone : ∀ c ∈ t.classes, ∀ a ∈ t.select c.ancestors, a.order.Sublist c.order

/-- What holds of a class as soon as it holds of all that the class descends from holds of every
class of the table. -/
theorem WellOrdered.induction (h : t.WellOrdered) {P : ClassInfo → Prop}
    (hstep : ∀ c ∈ t.classes,
      (∀ name ∈ c.bases ++ c.ancestors, ∀ k, t.find? name = some k → P k) → P c) :
    ∀ c ∈ t.classes, P c := by
  suffices hprefix : ∀ before after, t.classes = before ++ after → ∀ c ∈ before, P c from
    hprefix t.classes [] (List.append_nil _).symm
  intro before
  induction before using List.reverseRecOn with
  | nil => exact fun _ _ => nofun
  | append_singleton before c ih =>
      intro after hsplit k hk
      have hsplit' : t.classes = before ++ c :: after := by simp [hsplit]
      rcases List.mem_append.mp hk with hk | hk
      · exact ih (c :: after) hsplit' k hk
      · rw [List.mem_singleton.mp hk]
        refine hstep c (by simp [hsplit']) fun name hname j hfind => ?_
        obtain ⟨j', hj', hfind'⟩ := h.earlier before c after hsplit' name hname
        cases hfind.symm.trans hfind'
        exact ih (c :: after) hsplit' j hj'

theorem lineage_eq_select (hc : t.find? c.name = some c) : t.lineage c = t.select c.order := by
  rw [lineage, select, select, ClassInfo.order, List.filterMap_cons, hc]

namespace WellOrdered

variable (h : t.WellOrdered) (hc : c ∈ t.classes)

include h hc

theorem find?_self : t.find? c.name = some c := (h.find?_iff c.name c).mpr ⟨hc, rfl⟩

theorem order_subset (ha : a ∈ t.lineage c) : a.order ⊆ c.order := by
  rcases List.mem_cons.mp ha with rfl | ha
  · exact List.Subset.refl _
  · exact (h.monotone c hc a ha).subset

theorem lineage_subset (ha : a ∈ t.lineage c) : t.lineage a ⊆ t.lineage c := by
  intro k hk
  rw [lineage_eq_select (find?_of_mem_lineage (h.find?_self hc) ha)] at hk
  rw [lineage_eq_select (h.find?_self hc)]
  obtain ⟨name, hname, hfind⟩ := List.mem_filterMap.mp hk
  exact List.mem_filterMap.mpr ⟨name, h.order_subset hc ha hname, hfind⟩

end WellOrdered

theorem not_mem_of_fresh (h : t.contains c.name = false) (hk : k ∈ t.classes) :
    k.name ≠ c.name := by
  have hnone : t.find? c.name = none := by simpa [contains] using h
  rw [find?, List.find?_eq_none] at hnone
  simpa using hnone k hk

theorem mem_classes_of_contains (h : t.contains name = true) :
    ∃ k ∈ t.classes, t.find? name = some k := by
  obtain ⟨k, hk⟩ := Option.isSome_iff_exists.mp h
  exact ⟨k, List.mem_of_find?_eq_some hk, hk⟩

/-- An ancestor of a new class is a base of it or an ancestor of a base. -/
theorem WellOrdered.order_sublist (hold : t.WellOrdered) (hc : t.Fits c) (hm : t.Merges c)
    (ha : a ∈ t.select c.ancestors) : a.order.Sublist c.ancestors := by
  obtain ⟨name, hname, hfind⟩ := List.mem_filterMap.mp ha
  obtain ⟨b, hb, hmem⟩ := (hm.mem_ancestors_iff hc).mp hname
  have hbt := mem_classes_of_mem_select hb
  rcases List.mem_cons.mp hmem with rfl | hmem
  · have hfound := hold.find?_self hbt
    rw [hfound] at hfind
    cases hfind
    exact hm.sublist a hb
  · have hab : a ∈ t.select b.ancestors := List.mem_filterMap.mpr ⟨name, hmem, hfind⟩
    exact (hold.monotone b hbt a hab).trans (hm.sublist b hb)

theorem WellOrdered.earlier_push (hold : t.WellOrdered) (ht : t.Closed) (hc : t.Fits c)
    {before after : List ClassInfo} (h : (t.push c).classes = before ++ k :: after)
    (hname : name ∈ k.bases ++ k.ancestors) :
    ∃ j ∈ before, (t.push c).find? name = some j := by
  rcases List.eq_nil_or_concat after with rfl | ⟨after, last, rfl⟩
  · obtain ⟨rfl, hlast⟩ := List.append_inj' h rfl
    cases hlast
    have hcontains : t.contains name = true := by
      rcases List.mem_append.mp hname with hname | hname
      · exact hc.bases name hname
      · exact ht.ancestors_of_fits hc hname
    obtain ⟨j, hj, hfind⟩ := mem_classes_of_contains hcontains
    exact ⟨j, hj, find?_push_of_some hfind⟩
  · have hsplit : t.classes ++ [c] = (before ++ k :: after) ++ [last] := by
      simpa [push] using h
    obtain ⟨hclasses, -⟩ := List.append_inj' hsplit rfl
    obtain ⟨j, hj, hfind⟩ := hold.earlier before k after hclasses name hname
    exact ⟨j, hj, find?_push_of_some hfind⟩

theorem WellOrdered.push (hold : t.WellOrdered) (ht : t.Closed) (hc : t.Fits c)
    (hm : t.Merges c) : (t.push c).WellOrdered := by
  have hclosed := ht.push hc
  have hancestors : (t.push c).select c.ancestors = t.select c.ancestors :=
    select_push fun _ hname => ht.ancestors_of_fits hc hname
  have hkept {k : ClassInfo} (hk : k ∈ t.classes) :
      (t.push c).select k.ancestors = t.select k.ancestors := select_push (ht.ancestors k hk)
  constructor
  case nodup_names =>
    rw [ClassTable.push, List.map_append, List.nodup_append]
    refine ⟨hold.nodup_names, by simp, ?_⟩
    intro x hx y hy
    obtain ⟨k, hk, rfl⟩ := List.mem_map.mp hx
    rw [List.map_singleton, List.mem_singleton] at hy
    rw [hy]
    exact not_mem_of_fresh hc.fresh hk
  case find?_iff =>
    intro name k
    constructor
    · intro h
      exact ⟨List.mem_of_find?_eq_some h, name_of_find? h⟩
    · rintro ⟨hk, rfl⟩
      exact hclosed.find? k hk
  case earlier =>
    intro before k after h name hname
    exact hold.earlier_push ht hc h hname
  case head_order => exact fun _ _ => rfl
  case nodup_order =>
    intro k hk
    rcases mem_push.mp hk with hk | rfl
    · exact hold.nodup_order k hk
    · refine List.nodup_cons.mpr ⟨?_, hm.nodup⟩
      intro hmem
      have hcontains := ht.ancestors_of_fits hc hmem
      rw [hc.fresh] at hcontains
      cases hcontains
  case inherited =>
    intro k hk name
    rcases mem_push.mp hk with hk | rfl
    · rw [select_push (ht.bases k hk)]
      exact hold.inherited k hk name
    · rw [select_push hc.bases]
      exact hm.mem_ancestors_iff hc
  case transitive =>
    intro k hk a ha
    rcases mem_push.mp hk with hk | rfl
    · exact hold.transitive k hk a (hkept hk ▸ ha)
    · have hsub := hold.order_sublist hc hm (hancestors ▸ ha)
      exact fun x hx => hsub.subset (List.mem_cons_of_mem _ hx)
  case monotone =>
    intro k hk a ha
    rcases mem_push.mp hk with hk | rfl
    · exact hold.monotone k hk a (hkept hk ▸ ha)
    · exact (hold.order_sublist hc hm (hancestors ▸ ha)).cons k.name

end ClassTable

end GuardedObjects
