import GuardedObjects.Value.Typing
import Mathlib.Data.List.Forall2

/-!
# Equality of values

Equality compares what two values are apart from their parts, then their parts in order. It is
symmetric and transitive, but a value with a NaN somewhere in it does not equal itself. Equal values
are of one kind, so types do not tell them apart.
-/

namespace GuardedObjects

theorem Binary64.eq_of_bits {x y : Binary64} (h : x.bits = y.bits) : x = y := by
  cases x
  cases h
  rfl

theorem Binary64.equal_trans {x y z : Binary64} (hxy : x.equal y = true) (hyz : y.equal z = true) :
    x.equal z = true := by
  simp only [equal, Bool.and_eq_true, Bool.or_eq_true, decide_eq_true_eq] at hxy hyz ⊢
  obtain ⟨⟨hx, -⟩, hbits | ⟨hx0, hy0⟩⟩ := hxy
  · obtain rfl := eq_of_bits hbits
    exact hyz
  · obtain ⟨⟨-, hz⟩, hbits | ⟨-, hz0⟩⟩ := hyz
    · obtain rfl := eq_of_bits hbits
      exact ⟨⟨hx, hz⟩, .inr ⟨hx0, hy0⟩⟩
    · exact ⟨⟨hx, hz⟩, .inr ⟨hx0, hz0⟩⟩

/-- Related lists agree on every test that does not tell related items apart. -/
theorem all_eq_of_forall₂ {α : Type} {R : α → α → Prop} {p : α → Bool} {as bs : List α}
    (hp : ∀ a b, R a b → p a = p b) (h : List.Forall₂ R as bs) : as.all p = bs.all p := by
  induction h with
  | nil => rfl
  | cons hab _ ih => rw [List.all_cons, List.all_cons, hp _ _ hab, ih]

/-- Facts about the items of the first list carry over to the pairs. -/
theorem forall₂_imp_of_mem {α : Type} {R S : α → α → Prop} {as bs : List α}
    (hRS : ∀ a ∈ as, ∀ b, R a b → S a b) (h : List.Forall₂ R as bs) : List.Forall₂ S as bs := by
  have hboth := (List.forall₂_and_left as bs).mpr ⟨hRS, h⟩
  exact hboth.imp fun a b hab => hab.1 b hab.2

theorem forall₂_trans_of_mem {α : Type} {R : α → α → Prop} {as bs cs : List α}
    (htrans : ∀ a ∈ as, ∀ b c, R a b → R b c → R a c) (h : List.Forall₂ R as bs)
    (k : List.Forall₂ R bs cs) : List.Forall₂ R as cs := by
  induction h generalizing cs with
  | nil => exact k
  | cons hab _ ih =>
      obtain ⟨hhead, htail⟩ := List.forall_mem_cons.mp htrans
      obtain ⟨c, cs, hbc, ktail, rfl⟩ := List.forall₂_cons_left_iff.mp k
      exact .cons (hhead _ _ hab hbc) (ih htail ktail)

namespace Value

variable {a b c p x : Value}

/-! ### Parts -/

/-- The items of a container; of a dictionary, each key and its value in turn. -/
def parts : Value → List Value
  | .list items | .tuple items | .set items => items
  | .dict entries => entries.flatMap fun e => [e.1, e.2]
  | _ => []

theorem sizeOf_lt_of_mem_parts (h : p ∈ a.parts) : sizeOf p < sizeOf a := by
  cases a with
  | list items | tuple items | set items =>
      have hlt : sizeOf p < sizeOf items := List.sizeOf_lt_of_mem h
      simp only [list.sizeOf_spec, tuple.sizeOf_spec, set.sizeOf_spec]
      omega
  | dict entries =>
      obtain ⟨⟨k, v⟩, he, hp⟩ := List.mem_flatMap.mp h
      have hlt := List.sizeOf_lt_of_mem he
      simp only [dict.sizeOf_spec, Prod.mk.sizeOf_spec] at hlt ⊢
      rcases List.mem_pair.mp hp with rfl | rfl <;> omega
  | _ => exact absurd h List.not_mem_nil

@[elab_as_elim]
theorem induction_parts {motive : Value → Prop} (step : ∀ a, (∀ p ∈ a.parts, motive p) → motive a)
    (a : Value) : motive a :=
  step a fun p hp =>
    have := sizeOf_lt_of_mem_parts hp
    induction_parts step p
termination_by sizeOf a

/-- The value occurs in the other one, at any depth. -/
inductive Occurs (x : Value) : Value → Prop where
  | self : Occurs x x
  | part {p a : Value} (hp : p ∈ a.parts) (h : Occurs x p) : Occurs x a

theorem forall₂_parts_dict {R : Value → Value → Prop} {es fs : List (Value × Value)} :
    List.Forall₂ R (dict es).parts (dict fs).parts ↔
      List.Forall₂ (fun e f => R e.1 f.1 ∧ R e.2 f.2) es fs := by
  induction es generalizing fs with
  | nil => cases fs <;> simp [parts]
  | cons e es ih => cases fs <;> simp_all [parts, and_assoc]

/-! ### Equality at the root -/

/-- The values are equal apart from their parts. -/
inductive SameRoot : Value → Value → Prop where
  | none : SameRoot .none .none
  | bool (b : Bool) : SameRoot (.bool b) (.bool b)
  | int (n : Int64) : SameRoot (.int n) (.int n)
  | float {x y : Binary64} (h : x.equal y = true) : SameRoot (.float x) (.float y)
  | str (s : String) : SameRoot (.str s) (.str s)
  | bytes (data : List UInt8) : SameRoot (.bytes data) (.bytes data)
  | list (as bs : List Value) : SameRoot (.list as) (.list bs)
  | tuple (as bs : List Value) : SameRoot (.tuple as) (.tuple bs)
  | set (as bs : List Value) : SameRoot (.set as) (.set bs)
  | dict (es fs : List (Value × Value)) : SameRoot (.dict es) (.dict fs)
  | object (r : ObjectRef) : SameRoot (.object r) (.object r)

theorem SameRoot.symm (h : SameRoot a b) : SameRoot b a := by
  cases h with
  | float h => exact .float (Binary64.equal_comm _ _ ▸ h)
  | _ => constructor

theorem SameRoot.trans (h : SameRoot a b) (k : SameRoot b c) : SameRoot a c := by
  cases h with
  | float h =>
      cases k with
      | float k => exact .float (Binary64.equal_trans h k)
  | _ => cases k; constructor

theorem sameRoot_self_iff : SameRoot a a ↔ ∀ x, a = .float x → x.isNaN = false := by
  constructor
  · rintro h x rfl
    cases h with
    | float h => simpa [Binary64.equal_self] using h
  · intro h
    cases a with
    | float x => exact .float (by rw [Binary64.equal_self, h x rfl]; rfl)
    | _ => constructor

theorem SameRoot.typeName_eq (h : SameRoot a b) : a.typeName = b.typeName := by
  cases h <;> rfl

theorem equalItems_iff {as bs : List Value} :
    equalItems as bs = true ↔ List.Forall₂ (fun a b => a.equal b = true) as bs := by
  induction as generalizing bs with
  | nil => cases bs <;> simp [equalItems]
  | cons a as ih => cases bs <;> simp [equalItems, ih]

theorem equalEntries_iff {es fs : List (Value × Value)} :
    equalEntries es fs = true ↔
      List.Forall₂ (fun a b => a.equal b = true) (dict es).parts (dict fs).parts := by
  rw [forall₂_parts_dict]
  induction es generalizing fs with
  | nil => cases fs <;> simp [equalEntries]
  | cons e es ih => cases fs <;> simp [equalEntries, ih]

theorem sameRoot_of_equal (h : a.equal b = true) : SameRoot a b := by
  -- The fourth equation is that of floats, the last one that of values of different kinds.
  fun_cases equal a b with
  | case4 x y => exact .float h
  | case12 => simp_all [equal]
  | _ => simp only [equal, decide_eq_true_eq] at h; subst_vars; constructor

theorem SameRoot.equal_iff (h : SameRoot a b) :
    a.equal b = true ↔ List.Forall₂ (fun p q => p.equal q = true) a.parts b.parts := by
  cases h with
  | list as bs | tuple as bs | set as bs => exact equalItems_iff
  | dict es fs => exact equalEntries_iff
  | float h => exact ⟨fun _ => .nil, fun _ => h⟩
  | _ => simp [equal, parts]

theorem equal_iff :
    a.equal b = true ↔
      SameRoot a b ∧ List.Forall₂ (fun p q => p.equal q = true) a.parts b.parts := by
  constructor
  · intro h
    have hroot := sameRoot_of_equal h
    exact ⟨hroot, hroot.equal_iff.mp h⟩
  · rintro ⟨hroot, hparts⟩
    exact hroot.equal_iff.mpr hparts

/-! ### A partial equivalence -/

-- The laws hold at the root, and for the parts by induction.
theorem equal_symm (h : a.equal b = true) : b.equal a = true := by
  induction a using induction_parts generalizing b with
  | step a ih =>
      obtain ⟨hroot, hparts⟩ := equal_iff.mp h
      refine equal_iff.mpr ⟨hroot.symm, ?_⟩
      apply List.Forall₂.flip
      exact forall₂_imp_of_mem (fun p hp q hpq => ih p hp hpq) hparts

theorem equal_trans (h : a.equal b = true) (k : b.equal c = true) : a.equal c = true := by
  induction a using induction_parts generalizing b c with
  | step a ih =>
      obtain ⟨hroot, hparts⟩ := equal_iff.mp h
      obtain ⟨kroot, kparts⟩ := equal_iff.mp k
      refine equal_iff.mpr ⟨hroot.trans kroot, ?_⟩
      exact forall₂_trans_of_mem (fun p hp q r hpq hqr => ih p hp hpq hqr) hparts kparts

theorem occurs_iff : Occurs x a ↔ x = a ∨ ∃ p ∈ a.parts, Occurs x p := by
  constructor
  · intro h
    cases h with
    | self => exact .inl rfl
    | part hp h => exact .inr ⟨_, hp, h⟩
  · rintro (rfl | ⟨p, hp, h⟩)
    · exact .self
    · exact .part hp h

theorem equal_self_iff : a.equal a = true ↔ ∀ x, Occurs (.float x) a → x.isNaN = false := by
  induction a using induction_parts with
  | step a ih =>
      rw [equal_iff, sameRoot_self_iff, List.forall₂_same]
      constructor
      · rintro ⟨hroot, hparts⟩ x hx
        rcases occurs_iff.mp hx with hx | ⟨p, hp, hx⟩
        · exact hroot x hx.symm
        · exact (ih p hp).mp (hparts p hp) x hx
      · intro h
        refine ⟨fun x hx => h x (hx ▸ .self), ?_⟩
        intro p hp
        exact (ih p hp).mpr fun x hx => h x (.part hp hx)

end Value

/-! ### Types do not tell equal values apart -/

namespace Ty

open Value

-- The induction is on the type. Equal containers have equal items, and these meet smaller types.
mutual

theorem admits_of_equal (t : Ty) {a b : Value} (h : a.equal b = true) : t.admits a = t.admits b := by
  obtain ⟨hroot, hparts⟩ := equal_iff.mp h
  cases t with
  | any => rfl
  | noValue => cases hroot <;> rfl
  | primitive kind => cases kind <;> cases hroot <;> rfl
  | cls name => cases hroot <;> rfl
  | const t => exact admits_of_equal t h
  | union ts => exact someAdmits_of_equal ts h
  | generic base args =>
      cases hroot with
      | list as bs =>
          cases base with
          | list => exact elementAdmits_of_equal args hparts
          | _ => rfl
      | set as bs =>
          cases base with
          | set => exact elementAdmits_of_equal args hparts
          | _ => rfl
      | tuple as bs =>
          cases base with
          | varTuple => exact elementAdmits_of_equal args hparts
          | tuple =>
              have heach : eachAdmits args as = eachAdmits args bs := eachAdmits_of_equal args hparts
              rw [admits, admits, heach]
          | _ => rfl
      | dict es fs =>
          cases base with
          | dict => exact entryAdmits_of_equal args (forall₂_parts_dict.mp hparts)
          | _ => rfl
      | _ => cases base <;> rfl

theorem someAdmits_of_equal (ts : List Ty) {a b : Value} (h : a.equal b = true) :
    someAdmits ts a = someAdmits ts b := by
  cases ts with
  | nil => rfl
  | cons t ts => rw [someAdmits, someAdmits, admits_of_equal t h, someAdmits_of_equal ts h]

theorem elementAdmits_of_equal (ts : List Ty) {as bs : List Value}
    (h : List.Forall₂ (fun a b => a.equal b = true) as bs) :
    elementAdmits ts as = elementAdmits ts bs := by
  cases ts with
  | nil => rfl
  | cons t ts => exact all_eq_of_forall₂ (fun a b hab => admits_of_equal t hab) h

theorem eachAdmits_of_equal (ts : List Ty) {as bs : List Value}
    (h : List.Forall₂ (fun a b => a.equal b = true) as bs) :
    eachAdmits ts as = eachAdmits ts bs := by
  cases ts with
  | nil => cases h <;> rfl
  | cons t ts =>
      cases h with
      | nil => rfl
      | cons hab h => rw [eachAdmits, eachAdmits, admits_of_equal t hab, eachAdmits_of_equal ts h]

theorem entryAdmits_of_equal (ts : List Ty) {es fs : List (Value × Value)}
    (h : List.Forall₂ (fun e f => e.1.equal f.1 = true ∧ e.2.equal f.2 = true) es fs) :
    entryAdmits ts es = entryAdmits ts fs := by
  match ts with
  | [k, v] =>
      apply all_eq_of_forall₂ _ h
      rintro e f ⟨hk, hv⟩
      rw [admits_of_equal k hk, admits_of_equal v hv]
  | [] | [_] | _ :: _ :: _ :: _ => rfl

end

end Ty

namespace Value

/-! ### Equality as a relation -/

/-- An object is made with its classes once and for all, so references to it agree on them. -/
theorem equal_object_iff (lineage : ObjectId → List String) (i j : ObjectId) :
    (object ⟨i, lineage i⟩).equal (object ⟨j, lineage j⟩) = true ↔ i = j := by
  rw [equal, decide_eq_true_eq, ObjectRef.mk.injEq]
  exact ⟨And.left, fun hij => ⟨hij, hij ▸ rfl⟩⟩

/-- Equality of values compares objects by identity. It is symmetric and transitive, a value equals
itself if and only if no NaN occurs in it at any depth, and equal values have the name of their type
and all types that admit them in common. -/
theorem equal_partialEquivalence (a b c : Value) :
    (∀ (lineage : ObjectId → List String) (i j : ObjectId),
        (object ⟨i, lineage i⟩).equal (object ⟨j, lineage j⟩) = true ↔ i = j) ∧
      (a.equal b = true → b.equal a = true) ∧
      (a.equal b = true → b.equal c = true → a.equal c = true) ∧
      (a.equal a = true ↔ ∀ x, Occurs (.float x) a → x.isNaN = false) ∧
      (a.equal b = true → a.typeName = b.typeName ∧ ∀ t : Ty, t.admits a = t.admits b) := by
  refine ⟨equal_object_iff, equal_symm, equal_trans, equal_self_iff, ?_⟩
  intro h
  exact ⟨(equal_iff.mp h).1.typeName_eq, fun t => t.admits_of_equal h⟩

theorem equal_partialEquivalence_zeros :
    (dict [(.str "x", .float ⟨0⟩)]).equal (dict [(.str "x", .float ⟨0x8000000000000000⟩)]) = true ∧
      (dict [(.str "x", .float ⟨0x8000000000000000⟩)]).equal (dict [(.str "x", .float ⟨0⟩)]) = true ∧
      (dict [(.str "x", .float ⟨0⟩)]).equal (dict [(.str "x", .float ⟨0⟩)]) = true ∧
      (Ty.generic .dict [.any, .primitive .float]).admits (dict [(.str "x", .float ⟨0⟩)]) =
        (Ty.generic .dict [.any, .primitive .float]).admits
          (dict [(.str "x", .float ⟨0x8000000000000000⟩)]) := by
  obtain ⟨-, hsymm, htrans, -, htypes⟩ :=
    equal_partialEquivalence (dict [(.str "x", .float ⟨0⟩)])
      (dict [(.str "x", .float ⟨0x8000000000000000⟩)]) (dict [(.str "x", .float ⟨0⟩)])
  have hzeros : (dict [(.str "x", .float ⟨0⟩)]).equal
      (dict [(.str "x", .float ⟨0x8000000000000000⟩)]) = true := by decide
  exact ⟨hzeros, hsymm hzeros, htrans hzeros (hsymm hzeros), (htypes hzeros).2 _⟩

end Value

end GuardedObjects
