import Mathlib
import GuardedObjects.Table

/-!
# What a table holds

A table is seen through `find?`. Its entries are what is found in it, each under its key, and to
sort them by key changes nothing about that.
-/

namespace GuardedObjects

/-- What is found under a key, among items of which no two have the same key. -/
theorem find?_key_eq_some_iff {α κ : Type} [DecidableEq κ] {key : α → κ} {l : List α}
    (hl : (l.map key).Nodup) {k : κ} {a : α} :
    (l.find? fun b => key b = k) = some a ↔ a ∈ l ∧ key a = k := by
  constructor
  · intro h
    exact ⟨List.mem_of_find?_eq_some h, by simpa using List.find?_some h⟩
  · rintro ⟨ha, rfl⟩
    have hsome : (l.find? fun b => key b = key a).isSome = true :=
      List.find?_isSome.mpr ⟨a, ha, by simp⟩
    obtain ⟨b, hb⟩ := Option.isSome_iff_exists.mp hsome
    have hkey : key b = key a := by simpa using List.find?_some hb
    rw [hb, List.inj_on_of_nodup_map hl (List.mem_of_find?_eq_some hb) ha hkey]

theorem map_snd_find?_eq_some_iff {κ α : Type} [DecidableEq κ] {l : List (κ × α)}
    (hl : (l.map Prod.fst).Nodup) {k : κ} {a : α} :
    (l.find? fun e => e.1 = k).map Prod.snd = some a ↔ (k, a) ∈ l := by
  rw [Option.map_eq_some_iff]
  simp only [find?_key_eq_some_iff hl]
  constructor
  · rintro ⟨⟨_, _⟩, ⟨he, rfl⟩, rfl⟩
    exact he
  · intro h
    exact ⟨(k, a), ⟨h, rfl⟩, rfl⟩

namespace Table

variable {κ α : Type} [DecidableEq κ] {t : Table κ α} {k : κ} {a : α}

theorem find?_eq_some_iff : t.find? k = some a ↔ (k, a) ∈ t.entries :=
  map_snd_find?_eq_some_iff t.nodup_keys

theorem contains_eq_isSome_find? (t : Table κ α) (k : κ) : t.contains k = (t.find? k).isSome := by
  rw [contains, find?, Option.isSome_map, Bool.eq_iff_iff, List.any_eq_true, List.find?_isSome]

theorem mem_sorted_iff {t : Table String α} {k : String} :
    (k, a) ∈ t.sorted ↔ t.find? k = some a := by
  rw [sorted, List.mem_mergeSort, find?_eq_some_iff]

end Table

end GuardedObjects
