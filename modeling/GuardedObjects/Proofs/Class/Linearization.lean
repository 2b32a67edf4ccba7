import GuardedObjects.Class.Linearization

/-!
# What a merge keeps

A merge of several lists holds what they hold and nothing else, nothing twice, and each of the lists
in its own order. There is one whenever any list without repetition keeps the order of all of them.
-/

namespace GuardedObjects.Linearization

variable {α : Type} [DecidableEq α] {lists : List (List α)} {l merged order : List α} {a : α}

theorem dropHead_sublist (a : α) (l : List α) : (dropHead a l).Sublist l := by
  cases l with
  | nil => exact List.Sublist.refl _
  | cons b l =>
      rw [dropHead]
      split
      · exact List.sublist_cons_self b l
      · exact List.Sublist.refl _

theorem sublist_cons_dropHead (h : (dropHead a l).Sublist merged) : l.Sublist (a :: merged) := by
  cases l with
  | nil => exact List.nil_sublist _
  | cons b l =>
      rw [dropHead] at h
      split at h
      · rename_i heq
        subst heq
        exact h.cons_cons b
      · exact h.cons a

theorem not_mem_tail_of_candidate? (h : candidate? lists = some a) (hl : l ∈ lists) :
    a ∉ l.tail := by
  have hfree := List.find?_some h
  rw [List.all_eq_true] at hfree
  simpa using hfree l hl

theorem not_mem_dropHead (h : a ∉ l.tail) : a ∉ dropHead a l := by
  cases l with
  | nil => exact List.not_mem_nil
  | cons b l =>
      rw [dropHead]
      split
      · exact h
      · rename_i hne
        exact List.not_mem_cons_of_ne_of_not_mem (Ne.symm hne) h

theorem eq_nil_of_merge_eq_nil (h : merge lists = some []) (hl : l ∈ lists) : l = [] := by
  rw [merge] at h
  split at h
  · rename_i hempty
    exact List.isEmpty_iff.mp (List.all_eq_true.mp hempty l hl)
  · split at h
    · cases h
    · obtain ⟨_, _, hcons⟩ := Option.map_eq_some_iff.mp h
      cases hcons

theorem merge_eq_cons {rest : List α} (h : merge lists = some (a :: rest)) :
    candidate? lists = some a ∧ merge (lists.map (dropHead a)) = some rest := by
  rw [merge] at h
  split at h
  · cases h
  · split at h
    · cases h
    · rename_i b hb
      obtain ⟨merged, hmerged, heq⟩ := Option.map_eq_some_iff.mp h
      cases heq
      exact ⟨hb, hmerged⟩

/-- A merge holds nothing but what its lists hold. -/
theorem mem_of_mem_merge (h : merge lists = some merged) (ha : a ∈ merged) :
    ∃ l ∈ lists, a ∈ l := by
  induction merged generalizing lists with
  | nil => cases ha
  | cons b rest ih =>
      obtain ⟨hb, hrest⟩ := merge_eq_cons h
      rcases List.mem_cons.mp ha with rfl | ha
      · obtain ⟨l, hl, hhead⟩ := List.mem_filterMap.mp (candidate?_mem hb)
        exact ⟨l, hl, List.mem_of_head? hhead⟩
      · obtain ⟨l', hl', ha⟩ := ih hrest ha
        obtain ⟨l, hl, rfl⟩ := List.mem_map.mp hl'
        exact ⟨l, hl, (dropHead_sublist b l).subset ha⟩

/-- A merge keeps the order of each of its lists. -/
theorem sublist_merge (h : merge lists = some merged) (hl : l ∈ lists) : l.Sublist merged := by
  induction merged generalizing lists l with
  | nil => exact eq_nil_of_merge_eq_nil h hl ▸ List.Sublist.refl []
  | cons a rest ih =>
      obtain ⟨-, hrest⟩ := merge_eq_cons h
      exact sublist_cons_dropHead (ih hrest (List.mem_map_of_mem hl))

-- An item is taken once it stands in no tail, and it is dropped from every head then.
theorem nodup_merge (h : merge lists = some merged) : merged.Nodup := by
  induction merged generalizing lists with
  | nil => exact List.nodup_nil
  | cons a rest ih =>
      obtain ⟨ha, hrest⟩ := merge_eq_cons h
      refine List.nodup_cons.mpr ⟨?_, ih hrest⟩
      intro hmem
      obtain ⟨l', hl', hin⟩ := mem_of_mem_merge hrest hmem
      obtain ⟨l, hl, rfl⟩ := List.mem_map.mp hl'
      exact not_mem_dropHead (not_mem_tail_of_candidate? ha hl) hin

theorem mem_merge_iff (h : merge lists = some merged) : a ∈ merged ↔ ∃ l ∈ lists, a ∈ l := by
  constructor
  · exact mem_of_mem_merge h
  · rintro ⟨l, hl, ha⟩
    exact (sublist_merge h hl).subset ha

/-! ### Lists that can be merged -/

omit [DecidableEq α] in
/-- What stands first in a list without repetition stands in no tail of a list that is kept in it.
-/
theorem not_mem_tail_of_sublist (h : l.Sublist (a :: order)) (horder : (a :: order).Nodup) :
    a ∉ l.tail := by
  have hrest := (List.nodup_cons.mp horder).1
  rcases List.sublist_cons_iff.mp h with hsub | ⟨r, rfl, hsub⟩
  · exact fun ha => hrest (hsub.subset (List.mem_of_mem_tail ha))
  · exact fun ha => hrest (hsub.subset ha)

theorem exists_candidate?_of_head (hl : l ∈ lists) (hhead : l.head? = some a)
    (hfree : ∀ l ∈ lists, a ∉ l.tail) : ∃ b, candidate? lists = some b := by
  refine Option.isSome_iff_exists.mp (List.find?_isSome.mpr ⟨a, ?_, ?_⟩)
  · exact List.mem_filterMap.mpr ⟨l, hl, hhead⟩
  · rw [List.all_eq_true]
    intro l hl
    simpa using hfree l hl

/-- Of all heads, the one that the common order has first is held back by no list. -/
theorem exists_candidate? (horder : order.Nodup) (h : ∀ l ∈ lists, l.Sublist order)
    (hne : ∃ l ∈ lists, l ≠ []) : ∃ b, candidate? lists = some b := by
  induction order with
  | nil =>
      obtain ⟨l, hl, hne⟩ := hne
      exact absurd (List.sublist_nil.mp (h l hl)) hne
  | cons a order ih =>
      by_cases hhead : ∃ l ∈ lists, l.head? = some a
      · obtain ⟨l, hl, hhead⟩ := hhead
        exact exists_candidate?_of_head hl hhead fun l hl =>
          not_mem_tail_of_sublist (h l hl) horder
      · refine ih (List.nodup_cons.mp horder).2 ?_
        intro l hl
        rcases List.sublist_cons_iff.mp (h l hl) with hsub | ⟨r, rfl, -⟩
        · exact hsub
        · exact absurd ⟨a :: r, hl, rfl⟩ hhead

theorem merge_of_candidate? (hne : ∃ l ∈ lists, l ≠ []) (h : candidate? lists = some a) :
    merge lists = (merge (lists.map (dropHead a))).map (a :: ·) := by
  have hempty : ¬lists.all List.isEmpty = true := by simpa [List.all_eq_true] using hne
  rw [merge, if_neg hempty]
  split
  · rename_i hnone
    rw [hnone] at h
    cases h
  · rename_i b hb
    cases hb.symm.trans h
    rfl

-- Every step leaves fewer items, and the lists keep the common order.
theorem exists_merge (horder : order.Nodup) (h : ∀ l ∈ lists, l.Sublist order) :
    ∃ merged, merge lists = some merged := by
  induction hweight : weight lists using Nat.strongRecOn generalizing lists with
  | ind n ih =>
      by_cases hne : ∃ l ∈ lists, l ≠ []
      · obtain ⟨a, ha⟩ := exists_candidate? horder h hne
        have hless := weight_dropHead_lt (candidate?_mem ha)
        have hrest : ∀ l ∈ lists.map (dropHead a), l.Sublist order := by
          intro l' hl'
          obtain ⟨l, hl, rfl⟩ := List.mem_map.mp hl'
          exact (dropHead_sublist a l).trans (h l hl)
        obtain ⟨merged, hmerged⟩ := ih _ (hweight ▸ hless) hrest rfl
        exact ⟨a :: merged, by rw [merge_of_candidate? hne ha, hmerged, Option.map_some]⟩
      · have hempty : lists.all List.isEmpty = true := by simpa [List.all_eq_true] using hne
        exact ⟨[], by rw [merge, if_pos hempty]⟩

/-- Lists can be merged if and only if a list without repetition keeps the order of them all. -/
theorem exists_merge_iff :
    (∃ merged, merge lists = some merged) ↔
      ∃ order : List α, order.Nodup ∧ ∀ l ∈ lists, l.Sublist order := by
  constructor
  · rintro ⟨merged, h⟩
    exact ⟨merged, nodup_merge h, fun l hl => sublist_merge h hl⟩
  · rintro ⟨order, horder, h⟩
    exact exists_merge horder h

end GuardedObjects.Linearization
