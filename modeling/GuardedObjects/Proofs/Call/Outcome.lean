import GuardedObjects.Proofs.Call.Slots

/-!
# The outcome of binding

Once the keyword arguments are through, every parameter is looked up on its own, which settles when
the arguments of a call can be bound.
-/

namespace GuardedObjects

variable {params : List Param} {x : Param} {given : List (String × Value)} {args : Arguments}

/-- What a parameter gets from what was given by name and what is left over. -/
def argument? (given : List (String × Value)) (values : List Value)
    (keywords : List (String × Value)) (x : Param) : Option Value :=
  match x.kind with
  | .regular => (given? given x.name).or x.default
  | .positionals => some (.tuple values)
  | .keywords => some (.dict (keywords.map fun kw => (.str kw.1, kw.2)))

def bindParam (given : List (String × Value)) (values : List Value)
    (keywords : List (String × Value)) (x : Param) : Except BindingProblem BoundArg :=
  match argument? given values keywords x with
  | some v => .ok ⟨x.name, x.kind, v⟩
  | none => .error (.missing x.name)

theorem bindParam_congr_values (given : List (String × Value)) {values values' : List Value}
    {keywords : List (String × Value)} (h : x.kind ≠ .positionals) :
    bindParam given values keywords x = bindParam given values' keywords x := by
  cases hk : x.kind with
  | regular => simp only [bindParam, argument?, hk]
  | positionals => exact absurd hk h
  | keywords => simp only [bindParam, argument?, hk]

theorem bindParam_congr_keywords (given : List (String × Value)) {values : List Value}
    {keywords keywords' : List (String × Value)} (h : x.kind ≠ .keywords) :
    bindParam given values keywords x = bindParam given values keywords' x := by
  cases hk : x.kind with
  | regular => simp only [bindParam, argument?, hk]
  | positionals => simp only [bindParam, argument?, hk]
  | keywords => exact absurd hk h

/-- The parameters of a signature are bound independently: it has one collector of each kind, so
what a collector takes is missed by no other. -/
theorem collectArgs_filled (h : IsSignature (params.map Param.heading))
    (given : List (String × Value)) (values : List Value) (keywords : List (String × Value)) :
    collectArgs (params.map (ParamSlot.filled given)) values keywords =
      params.mapM (bindParam given values keywords) := by
  induction params generalizing values keywords with
  | nil => rfl
  | cons x params ih =>
      have hrest : IsSignature (params.map Param.heading) := h.of_cons
      have hvalues := (List.pairwise_cons.mp (h.collector_once .positionals rfl)).1
      have hkeywords := (List.pairwise_cons.mp (h.collector_once .keywords rfl)).1
      rw [List.map_cons, List.mapM_cons, bindParam, argument?, ParamSlot.filled, collectArgs]
      cases hk : x.kind with
      | regular =>
          simp only [if_true, ih hrest]
          cases hv : (given? given x.name).or x.default with
          | none => rfl
          | some v => rfl
      | positionals =>
          have hothers : params.mapM (bindParam given [] keywords) =
              params.mapM (bindParam given values keywords) :=
            mapM_congr fun y hy => bindParam_congr_values given (hvalues y hy hk)
          simp only [ih hrest, hothers, ok_bind]
      | keywords =>
          have hothers : params.mapM (bindParam given values []) =
              params.mapM (bindParam given values keywords) :=
            mapM_congr fun y hy => bindParam_congr_keywords given (hkeywords y hy hk)
          simp only [ih hrest, hothers, ok_bind]

namespace Arguments

/-- The arguments of a call that have a name, the positional ones that of their parameter. -/
def named (args : Arguments) (params : List Param) : List (String × Value) :=
  (leadingNames params).zip args.positional ++ args.keywords

/-- The names under which arguments are given. -/
def suppliedNames (args : Arguments) (params : List Param) : List String :=
  (leadingNames params).take args.positional.length ++ args.keywords.map Prod.fst

/-- The positional arguments behind those that parameters take one by one. -/
def surplusValues (args : Arguments) (params : List Param) : List Value :=
  args.positional.drop (positionalCapacity params)

theorem map_fst_named (args : Arguments) (params : List Param) :
    (args.named params).map Prod.fst = args.suppliedNames params := by
  rw [named, List.map_append, map_fst_zip_eq_take, suppliedNames]

end Arguments

theorem given?_named_eq_none_iff {name : String} :
    given? (args.named params) name = none ↔ name ∉ args.suppliedNames params := by
  rw [given?_eq_none_iff, Arguments.map_fst_named]

theorem takesName_of_mem_zip {kw : String × Value} {values : List Value}
    (h : kw ∈ (leadingNames params).zip values) : takesName params kw.1 = true :=
  takesName_of_mem_leadingNames (List.of_mem_zip h).1

theorem surplusKeywords_named (params : List Param) (args : Arguments) :
    surplusKeywords params (args.named params) = surplusKeywords params args.keywords := by
  rw [Arguments.named, surplusKeywords_append,
    surplusKeywords_of_takesName fun kw hkw => takesName_of_mem_zip hkw, List.nil_append]

theorem start_eq_after (h : (params.map Param.name).Nodup) (values : List Value) :
    ⟨ParamSlot.ofPositionals params values, []⟩ =
      KeywordState.after params ((leadingNames params).zip values) := by
  rw [KeywordState.after, ← ParamSlot.ofPositionals_eq h,
    surplusKeywords_of_takesName fun kw hkw => takesName_of_mem_zip hkw]

/-- Arguments are bound in two passes, the second of which looks up every parameter. -/
theorem bindArgs_eq (h : (params.map Param.name).Nodup) (args : Arguments) :
    bindArgs params args =
      if args.positional.length ≤ positionalCapacity params ∨
          ∃ x ∈ params, x.kind = .positionals then do
        let st ← args.keywords.foldlM (KeywordState.pass (params.any fun x => x.kind = .keywords))
          (KeywordState.after params ((leadingNames params).zip args.positional))
        return ⟨← collectArgs st.slots (args.surplusValues params) st.surplus⟩
      else .error (.tooManyPositionals (positionalCapacity params)) := by
  rw [bindArgs, ← start_eq_after h]
  by_cases hfit : args.positional.length ≤ positionalCapacity params ∨
      ∃ x ∈ params, x.kind = .positionals
  · rw [if_pos hfit]
    refine if_neg ?_
    simpa [imp_iff_not_or] using hfit
  · rw [if_neg hfit]
    refine (if_pos ?_).trans rfl
    simpa using hfit

theorem nodup_zip_leadingNames (h : (params.map Param.name).Nodup) (values : List Value) :
    (((leadingNames params).zip values).map Prod.fst).Nodup := by
  rw [map_fst_zip_eq_take]
  exact (List.take_sublist ..).nodup (nodup_leadingNames h)

/-- When arguments can be bound, and to what. -/
theorem bindArgs_eq_ok_iff (h : IsSignature (params.map Param.heading)) {bound : BoundArgs} :
    bindArgs params args = .ok bound ↔
      (args.positional.length ≤ positionalCapacity params ∨ ∃ x ∈ params, x.kind = .positionals) ∧
      (∀ kw ∈ args.keywords, takesName params kw.1 = true ∨ ∃ x ∈ params, x.kind = .keywords) ∧
      (args.suppliedNames params).Nodup ∧
      params.mapM (bindParam (args.named params) (args.surplusValues params)
        (surplusKeywords params args.keywords)) = .ok bound.entries := by
  have hstart := nodup_zip_leadingNames h.nodup_names args.positional
  have hany : (params.any fun x => x.kind = .keywords) = true ↔
      ∃ x ∈ params, x.kind = .keywords := by
    simp
  rw [bindArgs_eq h.nodup_names, ← surplusKeywords_named, ← collectArgs_filled h,
    ← Arguments.map_fst_named]
  split
  · rename_i hfit
    simp only [bind_eq_ok_iff, KeywordState.foldlM_pass_after_eq_ok_iff h.nodup_names hstart, hany]
    constructor
    · rintro ⟨_, ⟨htaken, hnodup, rfl⟩, entries, hentries, hbound⟩
      cases hbound
      exact ⟨hfit, htaken, hnodup, hentries⟩
    · rintro ⟨-, htaken, hnodup, hentries⟩
      exact ⟨_, ⟨htaken, hnodup, rfl⟩, _, hentries, rfl⟩
  · rename_i hfit
    exact ⟨nofun, fun hbound => absurd hbound.1 hfit⟩

theorem exists_bindParam_eq_ok_iff {values : List Value} {keywords : List (String × Value)} :
    (∃ a, bindParam given values keywords x = .ok a) ↔
      (x.kind = .regular → x.name ∈ given.map Prod.fst ∨ x.default.isSome = true) := by
  cases hk : x.kind with
  | regular =>
      by_cases hx : x.name ∈ given.map Prod.fst
      · obtain ⟨v, hv⟩ := Option.ne_none_iff_exists'.mp (mt given?_eq_none_iff.mp (not_not.mpr hx))
        simp [bindParam, argument?, hk, hv, hx]
      · simp only [bindParam, argument?, hk, given?_eq_none_iff.mpr hx, hx, Option.none_or]
        cases x.default <;> simp
  | positionals => simp [bindParam, argument?, hk]
  | keywords => simp [bindParam, argument?, hk]

/-- When arguments can be bound. -/
theorem exists_bindArgs_eq_ok_iff (h : IsSignature (params.map Param.heading)) :
    (∃ bound, bindArgs params args = .ok bound) ↔
      (args.positional.length ≤ positionalCapacity params ∨ ∃ x ∈ params, x.kind = .positionals) ∧
      (∀ kw ∈ args.keywords, takesName params kw.1 = true ∨ ∃ x ∈ params, x.kind = .keywords) ∧
      (args.suppliedNames params).Nodup ∧
      ∀ x ∈ params, x.kind = .regular →
        x.name ∈ args.suppliedNames params ∨ x.default.isSome = true := by
  have hparams : (∀ x ∈ params, x.kind = .regular →
        x.name ∈ args.suppliedNames params ∨ x.default.isSome = true) ↔
      ∃ entries, params.mapM (bindParam (args.named params) (args.surplusValues params)
        (surplusKeywords params args.keywords)) = .ok entries := by
    simp only [exists_mapM_eq_ok_iff, exists_bindParam_eq_ok_iff, Arguments.map_fst_named]
  simp only [bindArgs_eq_ok_iff h, hparams]
  constructor
  · rintro ⟨bound, hfit, htaken, hnodup, hentries⟩
    exact ⟨hfit, htaken, hnodup, _, hentries⟩
  · rintro ⟨hfit, htaken, hnodup, entries, hentries⟩
    exact ⟨⟨entries⟩, hfit, htaken, hnodup, hentries⟩

end GuardedObjects
