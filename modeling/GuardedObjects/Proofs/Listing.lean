import Mathlib

/-!
# Listings

What is found at places of some kind may be listed in the order of the places. Lists that are put
together from such lists are such lists as well, and the first item of a kind in one is found at the
first place of all that hold one of the kind.
-/

namespace GuardedObjects

variable {π ρ α β : Type}

/-- The list holds what is found at the places, one place after the other. -/
def Lists (before : π → π → Prop) (found : π → α → Prop) (l : List α) : Prop :=
  ∃ entries : List (π × α), entries.Pairwise (fun e f => before e.1 f.1) ∧
    entries.map Prod.snd = l ∧ ∀ q a, (q, a) ∈ entries ↔ found q a

namespace Lists

variable {before : π → π → Prop} {before' : ρ → ρ → Prop} {found : π → α → Prop} {l : List α}

theorem congr {found' : π → α → Prop} (h : Lists before found l)
    (hfound : ∀ q a, found q a ↔ found' q a) : Lists before found' l := by
  obtain ⟨entries, hpairwise, hl, hmem⟩ := h
  exact ⟨entries, hpairwise, hl, fun q a => (hmem q a).trans (hfound q a)⟩

theorem mem_iff (h : Lists before found l) {a : α} : a ∈ l ↔ ∃ q, found q a := by
  obtain ⟨entries, -, rfl, hmem⟩ := h
  simp [← hmem]

/-! ### Lists that are put together -/

theorem append {found' : π → α → Prop} {l' : List α} (h : Lists before found l)
    (h' : Lists before found' l')
    (hbefore : ∀ {q a q' a'}, found q a → found' q' a' → before q q') :
    Lists before (fun q a => found q a ∨ found' q a) (l ++ l') := by
  obtain ⟨entries, hpairwise, rfl, hmem⟩ := h
  obtain ⟨entries', hpairwise', rfl, hmem'⟩ := h'
  refine ⟨entries ++ entries', ?_, by simp, fun q a => by simp [hmem, hmem']⟩
  rw [List.pairwise_append]
  refine ⟨hpairwise, hpairwise', ?_⟩
  rintro ⟨q, a⟩ he ⟨q', a'⟩ he'
  exact hbefore ((hmem q a).mp he) ((hmem' q' a').mp he')

/-- The same list, with its places seen among others. -/
theorem place (h : Lists before found l) (f : π → ρ)
    (hf : ∀ {p q}, before p q → before' (f p) (f q)) :
    Lists before' (fun q a => ∃ p, f p = q ∧ found p a) l := by
  obtain ⟨entries, hpairwise, rfl, hmem⟩ := h
  refine ⟨entries.map fun e => (f e.1, e.2), ?_, by simp [Function.comp_def], ?_⟩
  · rw [List.pairwise_map]
    exact hpairwise.imp hf
  · intro q a
    simp only [List.mem_map, Prod.exists, Prod.mk.injEq, ← hmem]
    constructor
    · rintro ⟨p, a', he, rfl, rfl⟩
      exact ⟨p, rfl, he⟩
    · rintro ⟨p, rfl, he⟩
      exact ⟨p, a, he, rfl, rfl⟩

theorem filterMap {g : α → Option β} (h : Lists before found l) :
    Lists before (fun q b => ∃ a, found q a ∧ g a = some b) (l.filterMap g) := by
  obtain ⟨entries, hpairwise, rfl, hmem⟩ := h
  refine ⟨entries.filterMap fun e => (g e.2).map (e.1, ·), ?_, ?_, ?_⟩
  · rw [List.pairwise_filterMap]
    refine hpairwise.imp ?_
    intro e f hlt x hx y hy
    obtain ⟨b, -, rfl⟩ := Option.map_eq_some_iff.mp hx
    obtain ⟨b', -, rfl⟩ := Option.map_eq_some_iff.mp hy
    exact hlt
  · rw [List.map_filterMap, List.filterMap_map]
    refine List.filterMap_congr fun e _ => ?_
    cases hg : g e.2 <;> simp [hg]
  · intro q b
    simp [← hmem]

theorem map {g : α → β} (h : Lists before found l) :
    Lists before (fun q b => ∃ a, found q a ∧ g a = b) (l.map g) := by
  rw [← List.filterMap_eq_map]
  exact h.filterMap.congr fun q b => by simp

/-- What is listed for each item of a list has the place of the item and then one of its own. -/
theorem flatMap {found' : α → ρ → β → Prop} {g : α → List β} (h : Lists before found l)
    (hg : ∀ a ∈ l, Lists before' (found' a) (g a)) :
    Lists (Prod.Lex before before') (fun q b => ∃ a, found q.1 a ∧ found' a q.2 b)
      (l.flatMap g) := by
  obtain ⟨entries, hpairwise, rfl, hmem⟩ := h
  -- The places of every item are chosen at once, with none for what is no item.
  have hitem (a : α) : ∃ inner : List (ρ × β), a ∈ entries.map Prod.snd →
      inner.Pairwise (fun e f => before' e.1 f.1) ∧ inner.map Prod.snd = g a ∧
        ∀ q b, (q, b) ∈ inner ↔ found' a q b := by
    by_cases ha : a ∈ entries.map Prod.snd
    · obtain ⟨inner, hinner⟩ := hg a ha
      exact ⟨inner, fun _ => hinner⟩
    · exact ⟨[], fun h => absurd h ha⟩
  choose inner hinner using hitem
  have hin {e : π × α} (he : e ∈ entries) := hinner e.2 (List.mem_map_of_mem he)
  refine ⟨entries.flatMap fun e => (inner e.2).map fun x => ((e.1, x.1), x.2), ?_, ?_, ?_⟩
  · rw [List.pairwise_flatMap]
    constructor
    · intro e he
      rw [List.pairwise_map]
      refine (hin he).1.imp ?_
      intro x y hlt
      exact Prod.Lex.right _ hlt
    · refine hpairwise.imp fun {e f} hlt x hx y hy => ?_
      obtain ⟨u, -, rfl⟩ := List.mem_map.mp hx
      obtain ⟨v, -, rfl⟩ := List.mem_map.mp hy
      exact Prod.Lex.left _ _ hlt
  · rw [List.map_flatMap, List.flatMap_map]
    refine List.flatMap_congr fun e he => ?_
    rw [List.map_map]
    exact (hin he).2.1
  · rintro ⟨q, q'⟩ b
    simp only [List.mem_flatMap, List.mem_map, Prod.exists, Prod.mk.injEq, ← hmem]
    constructor
    · rintro ⟨_, a, he, _, _, hb, ⟨rfl, rfl⟩, rfl⟩
      exact ⟨a, he, ((hin he).2.2 _ _).mp hb⟩
    · rintro ⟨a, he, hb⟩
      exact ⟨q, a, he, q', b, ((hin he).2.2 _ _).mpr hb, ⟨rfl, rfl⟩, rfl⟩

/-! ### Lists to begin with -/

theorem toList (o : Option α) :
    Lists (fun _ _ : Unit => False) (fun _ a => o = some a) o.toList := by
  cases o with
  | none => exact ⟨[], List.Pairwise.nil, rfl, by simp⟩
  | some a => exact ⟨[((), a)], List.pairwise_singleton _ _, rfl, by simp [eq_comm]⟩

/-- Items that are sorted by a key have it as their place. -/
theorem of_key {key : α → π} (h : l.Pairwise fun a b => before (key a) (key b)) :
    Lists before (fun k a => a ∈ l ∧ key a = k) l := by
  refine ⟨l.map fun a => (key a, a), ?_, by simp [Function.comp_def], ?_⟩
  · rw [List.pairwise_map]
    exact h
  · intro k a
    simp only [List.mem_map, Prod.mk.injEq]
    constructor
    · rintro ⟨_, ha, rfl, rfl⟩
      exact ⟨ha, rfl⟩
    · rintro ⟨ha, rfl⟩
      exact ⟨a, ha, rfl, rfl⟩

theorem of_index (l : List α) : Lists (· < ·) (fun (i : Nat) a => l[i]? = some a) l := by
  refine ⟨l.zipIdx.map Prod.swap, ?_, ?_, ?_⟩
  · rw [List.pairwise_map]
    have hsnd : (List.range' 0 l.length).Pairwise (· < ·) := List.pairwise_lt_range'
    rw [← List.zipIdx_map_snd, List.pairwise_map] at hsnd
    exact hsnd
  · rw [List.map_map]
    exact List.zipIdx_map_fst 0 l
  · intro i a
    simp [List.mk_mem_zipIdx_iff_getElem?]

theorem of_sorted {key : α → String} (h : (l.map key).Nodup) :
    Lists (· < ·) (fun k a => a ∈ l ∧ key a = k)
      (l.mergeSort fun a b => decide (key a ≤ key b)) := by
  have hle : (l.mergeSort fun a b => decide (key a ≤ key b)).Pairwise
      fun a b => decide (key a ≤ key b) = true := by
    refine List.pairwise_mergeSort ?_ ?_ l
    · intro a b c hab hbc
      simp only [decide_eq_true_eq] at hab hbc ⊢
      exact le_trans hab hbc
    · intro a b
      simpa using le_total (key a) (key b)
  have hne : ((l.mergeSort fun a b => decide (key a ≤ key b)).map key).Nodup :=
    ((List.mergeSort_perm l _).map key).nodup_iff.mpr h
  rw [List.Nodup, List.pairwise_map] at hne
  have hlt := hle.and hne
  refine (of_key (hlt.imp ?_)).congr fun k a => by rw [List.mem_mergeSort]
  rintro a b ⟨hab, hab'⟩
  exact lt_of_le_of_ne (by simpa using hab) hab'

/-! ### The first item of a kind -/

theorem find?_eq_some {p : α → Bool} {a : α} (h : Lists before found l)
    (ha : l.find? p = some a) :
    ∃ q, found q a ∧ p a = true ∧ ∀ q' a', found q' a' → p a' = true → q' = q ∨ before q q' := by
  obtain ⟨entries, hpairwise, rfl, hmem⟩ := h
  obtain ⟨hp, earlier, later, hsplit, hearlier⟩ := List.find?_eq_some_iff_append.mp ha
  obtain ⟨before₁, rest, rfl, rfl, hrest⟩ := List.map_eq_append_iff.mp hsplit
  obtain ⟨⟨q, _⟩, after₁, rfl, rfl, rfl⟩ := List.map_eq_cons_iff.mp hrest
  refine ⟨q, (hmem _ _).mp (by simp), hp, ?_⟩
  intro q' a' hfound hp'
  rcases List.mem_append.mp ((hmem q' a').mpr hfound) with he | he
  · have hno := hearlier a' (List.mem_map_of_mem he)
    simp [hp'] at hno
  · rcases List.mem_cons.mp he with heq | he
    · exact .inl (Prod.mk.inj heq).1
    · have hbehind := List.pairwise_cons.mp (List.pairwise_append.mp hpairwise).2.1
      exact .inr (hbehind.1 _ he)

end Lists

end GuardedObjects
