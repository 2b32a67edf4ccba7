import GuardedObjects.Annotation.Parser
import GuardedObjects.Ty.Printer

/-!
# Splicing nested unions

The text of a type does not show that a union stands inside a union. Splicing puts the alternatives
of the inner one in its place, at every depth, and changes neither the text nor the classes that
the type names.
-/

namespace GuardedObjects

namespace Ty

mutual

/-- The type with the alternatives of every union that stands directly inside a union in its place,
at every depth. -/
def spliced : Ty → Ty
  | .any => .any
  | .primitive kind => .primitive kind
  | .cls name => .cls name
  | .generic base args => .generic base (splicedAll args)
  | .union ts => .union (splicedAlternatives ts)
  | .const t => .const t.spliced
  | .noValue => .noValue

def splicedAll : List Ty → List Ty
  | [] => []
  | t :: ts => t.spliced :: splicedAll ts

def splicedAlternatives : List Ty → List Ty
  | [] => []
  | t :: ts => t.spliced.alternatives ++ splicedAlternatives ts

end

@[simp] theorem isConst_spliced (t : Ty) : t.spliced.isConst = t.isConst := by
  cases t <;> rfl

@[simp] theorem isNoValue_spliced (t : Ty) : t.spliced.isNoValue = t.isNoValue := by
  cases t <;> rfl

/-! ### Classes -/

theorem classNamesOf_append (ts us : List Ty) :
    classNamesOf (ts ++ us) = classNamesOf ts ++ classNamesOf us := by
  induction ts with
  | nil => rfl
  | cons t ts ih => rw [List.cons_append, classNamesOf, classNamesOf, ih, List.append_assoc]

theorem classNamesOf_alternatives (t : Ty) : classNamesOf t.alternatives = t.classNames := by
  cases t with
  | union ts => rw [alternatives, classNames]
  | _ => exact List.append_nil _

mutual

/-- Splicing keeps the classes that a type names, in their order. -/
theorem classNames_spliced (t : Ty) : t.spliced.classNames = t.classNames := by
  cases t with
  | generic base args => exact classNamesOf_splicedAll args
  | union ts => exact classNamesOf_splicedAlternatives ts
  | const t => exact classNames_spliced t
  | _ => rfl

theorem classNamesOf_splicedAll (ts : List Ty) :
    classNamesOf (splicedAll ts) = classNamesOf ts := by
  cases ts with
  | nil => rfl
  | cons t ts =>
      rw [splicedAll, classNamesOf, classNamesOf, classNames_spliced t, classNamesOf_splicedAll ts]

theorem classNamesOf_splicedAlternatives (ts : List Ty) :
    classNamesOf (splicedAlternatives ts) = classNamesOf ts := by
  cases ts with
  | nil => rfl
  | cons t ts =>
      rw [splicedAlternatives, classNamesOf_append, classNamesOf_alternatives, classNames_spliced t,
        classNamesOf_splicedAlternatives ts, classNamesOf]

end

/-! ### Alternatives -/

/-- The type is no union. -/
def IsPlain (t : Ty) : Prop := ∀ ts, t ≠ .union ts

theorem IsPlain.alternatives {t : Ty} (h : t.IsPlain) : t.alternatives = [t] := by
  cases t with
  | union ts => exact absurd rfl (h ts)
  | _ => rfl

theorem flatMap_alternatives {ts : List Ty} (h : ∀ t ∈ ts, t.IsPlain) :
    ts.flatMap alternatives = ts := by
  induction ts with
  | nil => rfl
  | cons t ts ih =>
      obtain ⟨ht, hts⟩ := List.forall_mem_cons.mp h
      rw [List.flatMap_cons, ht.alternatives, ih hts]
      rfl

mutual

/-- No union stands directly inside a union of a spliced type. -/
theorem isPlain_of_mem_alternatives (t : Ty) : ∀ a ∈ t.spliced.alternatives, a.IsPlain := by
  cases t with
  | union ts => exact isPlain_of_mem_splicedAlternatives ts
  | _ =>
      intro a ha
      cases List.mem_singleton.mp ha
      exact nofun

theorem isPlain_of_mem_splicedAlternatives (ts : List Ty) :
    ∀ a ∈ splicedAlternatives ts, a.IsPlain := by
  cases ts with
  | nil => exact nofun
  | cons t ts =>
      intro a ha
      rcases List.mem_append.mp ha with ha | ha
      · exact isPlain_of_mem_alternatives t a ha
      · exact isPlain_of_mem_splicedAlternatives ts a ha

end

/-! ### Types that annotations denote -/

/-- A container has as many arguments as it takes, or none; a union has two alternatives at least,
and a class has a name that is no word of the notation. -/
inductive Denotable : Ty → Prop where
  | any : Denotable .any
  | primitive (kind : Primitive) : Denotable (.primitive kind)
  | noValue : Denotable .noValue
  | cls {name : String} (hform : isIdentifier name.toList = true)
      (hword : TypeWord.ofName name = .cls) : Denotable (.cls name)
  | bare {base : Container} (hbase : base ≠ .varTuple) : Denotable (.generic base [])
  | generic {base : Container} {args : List Ty} (hne : args ≠ [])
      (harity : ∀ n ∈ base.arity, args.length = n) (hargs : ∀ t ∈ args, Denotable t) :
      Denotable (.generic base args)
  | union {ts : List Ty} (htwo : 2 ≤ ts.length) (hts : ∀ t ∈ ts, Denotable t) :
      Denotable (.union ts)
  | const {t : Ty} (ht : Denotable t) : Denotable (.const t)

theorem length_le_splicedAlternatives {ts : List Ty}
    (h : ∀ t ∈ ts, t.spliced.alternatives ≠ []) : ts.length ≤ (splicedAlternatives ts).length := by
  induction ts with
  | nil => exact Nat.zero_le _
  | cons t ts ih =>
      obtain ⟨ht, hts⟩ := List.forall_mem_cons.mp h
      have hpos := List.length_pos_iff.mpr ht
      have hrest := ih hts
      simp only [splicedAlternatives, List.length_cons, List.length_append]
      omega

theorem Denotable.alternatives_ne_nil {t : Ty} (h : t.Denotable) : t.spliced.alternatives ≠ [] := by
  induction h with
  | @union ts htwo _ ih =>
      have hlength := length_le_splicedAlternatives ih
      exact List.ne_nil_of_length_pos (Nat.lt_of_lt_of_le (by omega) hlength)
  | _ => exact nofun

theorem Denotable.ofAlternatives_spliced {t : Ty} (h : t.Denotable) :
    ofAlternatives t.spliced.alternatives = t.spliced := by
  rw [ofAlternatives, flatMap_alternatives (isPlain_of_mem_alternatives t)]
  cases h with
  | @union ts htwo hts =>
      have hlength := length_le_splicedAlternatives fun t ht => (hts t ht).alternatives_ne_nil
      split
      next hsingle =>
        rw [spliced, alternatives] at hsingle
        simp only [hsingle, List.length_singleton] at hlength
        omega
      next => rfl
  | _ => rfl

/-! ### Text -/

theorem textOf_cons (separator : String) (t : Ty) {ts : List Ty} (h : ts ≠ []) :
    textOf separator (t :: ts) = t.text ++ (separator ++ textOf separator ts) := by
  rw [textOf, if_neg (by simpa using h)]

theorem textOf_singleton (separator : String) (t : Ty) : textOf separator [t] = t.text := by
  rw [textOf]
  exact String.append_empty

theorem textOf_append (separator : String) {ts us : List Ty} (hts : ts ≠ []) (hus : us ≠ []) :
    textOf separator (ts ++ us) = textOf separator ts ++ (separator ++ textOf separator us) := by
  induction ts with
  | nil => exact absurd rfl hts
  | cons t ts ih =>
      cases ts with
      | nil => rw [List.singleton_append, textOf_cons _ _ hus, textOf_singleton]
      | cons t' ts =>
          rw [List.cons_append, textOf_cons _ _ (by simp), ih (by simp), textOf_cons _ t (by simp)]
          simp only [String.append_assoc]

theorem textOf_alternatives (t : Ty) : textOf " | " t.alternatives = t.text := by
  cases t with
  | union ts => rw [alternatives, text]
  | _ => exact textOf_singleton _ _

theorem textOf_splicedAll {separator : String} {ts : List Ty}
    (h : ∀ t ∈ ts, t.spliced.text = t.text) :
    textOf separator (splicedAll ts) = textOf separator ts := by
  induction ts with
  | nil => rfl
  | cons t ts ih =>
      obtain ⟨ht, hts⟩ := List.forall_mem_cons.mp h
      rw [splicedAll, textOf, textOf, ht, ih hts]
      cases ts <;> rfl

theorem textOf_splicedAlternatives {ts : List Ty} (hne : ∀ t ∈ ts, t.spliced.alternatives ≠ [])
    (h : ∀ t ∈ ts, t.spliced.text = t.text) :
    textOf " | " (splicedAlternatives ts) = textOf " | " ts := by
  induction ts with
  | nil => rfl
  | cons t ts ih =>
      obtain ⟨ht, hts⟩ := List.forall_mem_cons.mp h
      obtain ⟨htne, htsne⟩ := List.forall_mem_cons.mp hne
      rw [splicedAlternatives]
      cases ts with
      | nil =>
          rw [splicedAlternatives, List.append_nil, textOf_alternatives, ht, textOf_singleton]
      | cons u us =>
          have hlength := length_le_splicedAlternatives htsne
          have hrest := List.ne_nil_of_length_pos (Nat.lt_of_lt_of_le (by simp) hlength)
          rw [textOf_append _ htne hrest, textOf_alternatives, ht, ih htsne hts,
            textOf_cons _ t (by simp)]

/-- The text does not show how unions are nested. -/
theorem Denotable.text_spliced {t : Ty} (h : t.Denotable) : t.spliced.text = t.text := by
  induction h with
  | @generic base args _ _ _ ih =>
      rw [spliced, text, text, textOf_splicedAll ih]
      cases args <;> rfl
  | union _ hts ih =>
      exact textOf_splicedAlternatives (fun t ht => (hts t ht).alternatives_ne_nil) ih
  | const _ ih => rw [spliced, text, text, ih]
  | _ => rfl

end Ty

end GuardedObjects
