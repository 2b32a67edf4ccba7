/-!
# Linearization

A resolution order is one list that keeps the order of several. `merge` builds it from the front:
it takes the first head that no list holds behind its own head, removes it from all heads, and goes
on until the lists are empty or every head is held back by some list.
-/

namespace GuardedObjects.Linearization

variable {α : Type} [DecidableEq α]

/-- The first head of a list that occurs in no tail. -/
def candidate? (lists : List (List α)) : Option α :=
  (lists.filterMap List.head?).find? fun a => lists.all fun l => !l.tail.contains a

/-- The list without its head, if that is `a`. -/
def dropHead (a : α) : List α → List α
  | [] => []
  | b :: l => if b = a then l else b :: l

/-- How many items the lists hold together. -/
def weight (lists : List (List α)) : Nat := lists.flatten.length

theorem length_dropHead_le (a : α) (l : List α) : (dropHead a l).length ≤ l.length := by
  cases l with
  | nil => exact Nat.le_refl 0
  | cons b l =>
    simp only [dropHead]
    split <;> simp

theorem weight_dropHead_le (a : α) (lists : List (List α)) :
    weight (lists.map (dropHead a)) ≤ weight lists := by
  induction lists with
  | nil => exact Nat.le_refl 0
  | cons l lists ih =>
    have := length_dropHead_le a l
    simp only [weight, List.map_cons, List.flatten_cons, List.length_append] at ih ⊢
    omega

theorem weight_dropHead_lt {a : α} {lists : List (List α)}
    (h : a ∈ lists.filterMap List.head?) : weight (lists.map (dropHead a)) < weight lists := by
  induction lists with
  | nil => simp at h
  | cons l lists ih =>
    have hle := weight_dropHead_le a lists
    have hl := length_dropHead_le a l
    simp only [weight, List.map_cons, List.flatten_cons, List.length_append] at ih hle ⊢
    cases l with
    | nil =>
      have := ih (by simpa using h)
      simp only [dropHead, List.length_nil]
      omega
    | cons b l =>
      by_cases hb : b = a
      · simp only [dropHead, hb, if_true, List.length_cons]
        omega
      · have hm : a ∈ lists.filterMap List.head? := by
          simpa [Ne.symm hb] using h
        have := ih hm
        simp only [dropHead, hb, if_false, List.length_cons]
        omega

theorem candidate?_mem {a : α} {lists : List (List α)} (h : candidate? lists = some a) :
    a ∈ lists.filterMap List.head? := List.mem_of_find?_eq_some h

/-- The lists in one, or `none` if they contradict each other. -/
def merge (lists : List (List α)) : Option (List α) :=
  if lists.all List.isEmpty then some []
  else
    match h : candidate? lists with
    | none => none
    | some a =>
      have := weight_dropHead_lt (candidate?_mem h)
      (merge (lists.map (dropHead a))).map (a :: ·)
termination_by weight lists

end GuardedObjects.Linearization
