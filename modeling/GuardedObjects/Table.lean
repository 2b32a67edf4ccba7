/-!
# Tables

A table binds each key at most once and keeps its entries in the order in which they were last
written. It is seen through `find?`; what each operation does to that view is stated beside it.
-/

namespace GuardedObjects

/-- A finite map whose entries keep the order in which they were last written. -/
structure Table (κ α : Type) where
  entries : List (κ × α) := []
  nodup_keys : (entries.map Prod.fst).Nodup := by exact List.nodup_nil

namespace Table

variable {κ α β : Type}

instance : EmptyCollection (Table κ α) := ⟨{}⟩

instance : Inhabited (Table κ α) := ⟨∅⟩

def keys (t : Table κ α) : List κ := t.entries.map Prod.fst

def isEmpty (t : Table κ α) : Bool := t.entries.isEmpty

/-- The value bound to `k`. -/
def find? [DecidableEq κ] (t : Table κ α) (k : κ) : Option α :=
  (t.entries.find? fun e => e.1 = k).map Prod.snd

def contains [DecidableEq κ] (t : Table κ α) (k : κ) : Bool := t.entries.any fun e => e.1 = k

theorem nodup_keys_insert [DecidableEq κ] (t : Table κ α) (k : κ) (a : α) :
    ((t.entries.filter (fun e => e.1 ≠ k) ++ [(k, a)]).map Prod.fst).Nodup := by
  rw [List.map_append, List.nodup_append]
  refine ⟨?_, by simp, ?_⟩
  · exact (List.filter_sublist.map Prod.fst).nodup t.nodup_keys
  · intro x hx y hy
    obtain ⟨e, he, rfl⟩ := List.mem_map.mp hx
    simp only [List.map_cons, List.map_nil, List.mem_singleton] at hy
    subst hy
    simpa using (List.mem_filter.mp he).2

/-- Binds `k` to `a` in place of what it was bound to, and moves it to the end. -/
def insert [DecidableEq κ] (t : Table κ α) (k : κ) (a : α) : Table κ α where
  entries := t.entries.filter (fun e => e.1 ≠ k) ++ [(k, a)]
  nodup_keys := t.nodup_keys_insert k a

@[simp] theorem find?_empty [DecidableEq κ] (k : κ) : (∅ : Table κ α).find? k = none := rfl

@[simp] theorem find?_insert_self [DecidableEq κ] (t : Table κ α) (k : κ) (a : α) :
    (t.insert k a).find? k = some a := by
  have h : (t.entries.filter fun e => e.1 ≠ k).find? (fun e => e.1 = k) = none := by
    simp [List.find?_eq_none]
  simp only [find?, insert, List.find?_append, h, Option.none_or]
  simp

theorem find?_insert_of_ne [DecidableEq κ] (t : Table κ α) {k l : κ} (h : l ≠ k) (a : α) :
    (t.insert k a).find? l = t.find? l := by
  have hf : (t.entries.filter fun e => e.1 ≠ k).find? (fun e => e.1 = l) =
      t.entries.find? fun e => e.1 = l := by
    rw [List.find?_filter]
    congr 1
    funext e
    by_cases he : e.1 = l <;> simp_all
  have hk : ([(k, a)] : List (κ × α)).find? (fun e => e.1 = l) = none := by
    simp [Ne.symm h]
  simp only [find?, insert, List.find?_append, hf, hk, Option.or_none]

theorem mem_of_find?_eq_some [DecidableEq κ] {t : Table κ α} {k : κ} {a : α}
    (h : t.find? k = some a) : (k, a) ∈ t.entries := by
  obtain ⟨e, he, rfl⟩ := Option.map_eq_some_iff.mp h
  have hk : e.1 = k := by simpa using List.find?_some he
  subst hk
  exact List.mem_of_find?_eq_some he

theorem find?_insert [DecidableEq κ] (t : Table κ α) (k l : κ) (a : α) :
    (t.insert k a).find? l = if l = k then some a else t.find? l := by
  by_cases h : l = k
  · subst h
    simp
  · rw [if_neg h, t.find?_insert_of_ne h]

/-- The entries whose value `f` accepts, with the value that it gives. -/
def filterMap (f : κ → α → Option β) (t : Table κ α) : Table κ β where
  entries := t.entries.filterMap fun e => (f e.1 e.2).map (e.1, ·)
  nodup_keys := by
    have h : ∀ l : List (κ × α),
        ((l.filterMap fun e => (f e.1 e.2).map (e.1, ·)).map Prod.fst).Sublist
          (l.map Prod.fst) := by
      intro l
      induction l with
      | nil => simp
      | cons e l ih =>
        cases hf : f e.1 e.2 with
        | none => simpa [hf] using ih.cons e.1
        | some b => simpa [hf] using ih.cons_cons e.1
    exact (h t.entries).nodup t.nodup_keys

/-- Applies `f` to every entry, first to last, and keeps the keys. -/
def traverse {ε : Type} (f : κ → α → Except ε β) (t : Table κ α) : Except ε (Table κ β) := do
  let ⟨entries, h⟩ ← go t.entries
  return { entries, nodup_keys := h ▸ t.nodup_keys }
where
  go : (l : List (κ × α)) → Except ε { r : List (κ × β) // r.map Prod.fst = l.map Prod.fst }
    | [] => .ok ⟨[], rfl⟩
    | e :: l => do
      let b ← f e.1 e.2
      let ⟨r, h⟩ ← go l
      return ⟨(e.1, b) :: r, by simp [h]⟩

def sorted (t : Table String α) : List (String × α) :=
  t.entries.mergeSort fun a b => decide (a.1 ≤ b.1)

end Table

end GuardedObjects
