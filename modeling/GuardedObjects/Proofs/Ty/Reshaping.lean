import GuardedObjects.Value.Typing
import Mathlib.Data.List.Forall2
import Mathlib.Logic.Relation

/-!
# Types that admit the same values

Const wrappers and the shape of unions do not matter to what a type admits, wherever in the type
they are. A reshaping is one rewrite at one place in the type; the types around that place cannot
tell what it was rewritten to, as they only ask which values it admits.
-/

namespace GuardedObjects

namespace Ty

/-- The second type is the first one, rewritten at one place. -/
inductive Reshapes : Ty → Ty → Prop where
  | unwrap (t : Ty) : Reshapes (.const t) t
  | splice (before inner after : List Ty) :
      Reshapes (.union (before ++ .union inner :: after)) (.union (before ++ inner ++ after))
  | single (t : Ty) : Reshapes (.union [t]) t
  | permute {ts us : List Ty} (h : ts.Perm us) : Reshapes (.union ts) (.union us)
  | repeated {t : Ty} {ts : List Ty} (h : t ∈ ts) : Reshapes (.union ts) (.union (t :: ts))
  | inner {t u : Ty} (h : Reshapes t u) : Reshapes (.const t) (.const u)
  | alternative {t u : Ty} (before after : List Ty) (h : Reshapes t u) :
      Reshapes (.union (before ++ t :: after)) (.union (before ++ u :: after))
  | argument {t u : Ty} (base : Container) (before after : List Ty) (h : Reshapes t u) :
      Reshapes (.generic base (before ++ t :: after)) (.generic base (before ++ u :: after))

def SameValues (t u : Ty) : Prop := ∀ v, t.admits v = u.admits v

variable {ts us before after : List Ty} {t u : Ty}

/-! ### Unions -/

theorem admits_union (ts : List Ty) (v : Value) : (union ts).admits v = ts.any (·.admits v) := by
  rw [admits]
  induction ts with
  | nil => rfl
  | cons t ts ih => rw [someAdmits, ih, List.any_cons]

theorem sameValues_union (h : ∀ t, t ∈ ts ↔ t ∈ us) : SameValues (.union ts) (.union us) := by
  intro v
  rw [admits_union, admits_union, Bool.eq_iff_iff, List.any_eq_true, List.any_eq_true]
  simp only [h]

theorem sameValues_splice (before inner after : List Ty) :
    SameValues (.union (before ++ .union inner :: after)) (.union (before ++ inner ++ after)) := by
  intro v
  simp only [admits_union, List.any_append, List.any_cons, Bool.or_assoc]

theorem sameValues_single (t : Ty) : SameValues (.union [t]) t := by
  intro v
  rw [admits_union, List.any_cons, List.any_nil, Bool.or_false]

theorem SameValues.alternative (h : SameValues t u) (before after : List Ty) :
    SameValues (.union (before ++ t :: after)) (.union (before ++ u :: after)) := by
  intro v
  simp only [admits_union, List.any_append, List.any_cons, h v]

/-! ### Arguments -/

theorem elementAdmits_congr (h : List.Forall₂ SameValues ts us) (items : List Value) :
    elementAdmits ts items = elementAdmits us items := by
  cases h with
  | nil => rfl
  | cons htu _ => simp only [elementAdmits, htu _]

theorem eachAdmits_congr (h : List.Forall₂ SameValues ts us) (items : List Value) :
    eachAdmits ts items = eachAdmits us items := by
  induction h generalizing items with
  | nil => rfl
  | cons htu _ ih =>
      cases items with
      | nil => rfl
      | cons v vs => rw [eachAdmits, eachAdmits, htu v, ih vs]

/-- The number of arguments decides whether they are asked at all, so both lists have to be of one
length. -/
theorem entryAdmits_congr (h : List.Forall₂ SameValues ts us) (entries : List (Value × Value)) :
    entryAdmits ts entries = entryAdmits us entries := by
  match h with
  | .nil => rfl
  | .cons _ .nil => rfl
  | .cons hk (.cons hv .nil) => simp only [entryAdmits, hk _, hv _]
  | .cons _ (.cons _ (.cons _ _)) => rfl

theorem isEmpty_congr (h : List.Forall₂ SameValues ts us) : ts.isEmpty = us.isEmpty := by
  cases h <;> rfl

theorem sameValues_generic (base : Container) (h : List.Forall₂ SameValues ts us) :
    SameValues (.generic base ts) (.generic base us) := by
  intro v
  cases base <;> cases v
  case list.list items => exact elementAdmits_congr h items
  case set.set items => exact elementAdmits_congr h items
  case varTuple.tuple items => exact elementAdmits_congr h items
  case tuple.tuple items =>
    rw [admits, admits, isEmpty_congr h, eachAdmits_congr h items]
  case dict.dict entries => exact entryAdmits_congr h entries
  all_goals rfl

theorem SameValues.argument (h : SameValues t u) (base : Container) (before after : List Ty) :
    SameValues (.generic base (before ++ t :: after)) (.generic base (before ++ u :: after)) := by
  have hsame (ts : List Ty) : List.Forall₂ SameValues ts ts :=
    List.forall₂_same.mpr fun _ _ _ => rfl
  apply sameValues_generic
  exact List.rel_append (hsame before) (.cons h (hsame after))

/-! ### Reshapings -/

theorem Reshapes.sameValues (h : Reshapes t u) : SameValues t u := by
  induction h with
  | unwrap t => exact fun _ => rfl
  | splice before inner after => exact sameValues_splice before inner after
  | single t => exact sameValues_single t
  | permute h => exact sameValues_union fun _ => h.mem_iff
  | repeated h =>
      apply sameValues_union
      intro t
      rw [List.mem_cons]
      exact ⟨.inr, fun ht => ht.elim (fun heq => heq ▸ h) id⟩
  | inner _ ih => exact ih
  | alternative before after _ ih => exact ih.alternative before after
  | argument base before after _ ih => exact ih.argument base before after

/-- A type admits the same values after any number of rewrites, at any depth, that take const
wrappers off, splice unions into unions, put an only alternative in the place of its union, and
permute or repeat alternatives. -/
theorem admits_reshaped (h : Relation.ReflTransGen Reshapes t u) (v : Value) :
    t.admits v = u.admits v := by
  induction h with
  | refl => rfl
  | tail _ hstep ih => rw [ih, hstep.sameValues v]

theorem admits_reshaped_list :
    Relation.ReflTransGen Reshapes
        (.const (.generic .list [.union [.const (.primitive .int), .union [.primitive .str]]]))
        (.generic .list [.union [.primitive .str, .primitive .int, .primitive .str]]) ∧
      (Ty.const (.generic .list
          [.union [.const (.primitive .int), .union [.primitive .str]]])).admits
          (.list [.int 3, .str "a"]) =
        (Ty.generic .list [.union [.primitive .str, .primitive .int, .primitive .str]]).admits
          (.list [.int 3, .str "a"]) := by
  have hsteps : Relation.ReflTransGen Reshapes
      (.const (.generic .list [.union [.const (.primitive .int), .union [.primitive .str]]]))
      (.generic .list [.union [.primitive .str, .primitive .int, .primitive .str]]) := by
    apply Relation.ReflTransGen.head (Reshapes.unwrap _)
    apply Relation.ReflTransGen.head
      (Reshapes.argument .list [] [] (.splice [.const (.primitive .int)] [.primitive .str] []))
    apply Relation.ReflTransGen.head
      (Reshapes.argument .list [] [] (.alternative [] [.primitive .str] (.unwrap _)))
    apply Relation.ReflTransGen.single
    exact Reshapes.argument .list [] [] (.repeated (List.mem_cons_of_mem _ List.mem_cons_self))
  exact ⟨hsteps, admits_reshaped hsteps _⟩

end Ty

end GuardedObjects
