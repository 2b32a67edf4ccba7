import GuardedObjects.Proofs.Call.Outcome

/-!
# Two ways to pass an argument

An argument may be given by position or by the name of its parameter, and the order in which
arguments are named decides nothing but the order in which those are collected that no parameter
takes.
-/

namespace GuardedObjects

variable {params : List Param} {x : Param} {given : List (String × Value)} {name : String}
  {v : Value} {kw : String × Value}

theorem given?_swap {e : String × Value} (h : kw.1 ≠ e.1) (name : String) :
    given? (given ++ [kw] ++ [e]) name = given? (given ++ [e] ++ [kw]) name := by
  by_cases hname : e.1 = name
  · have hkw : kw.1 ≠ name := hname ▸ h
    rw [given?_append, given?_snoc_of_ne hkw, ← given?_append, given?_snoc_of_ne hkw]
  · rw [given?_snoc_of_ne hname, given?_append (given ++ [e]), given?_snoc_of_ne hname,
      ← given?_append]

theorem given?_perm {given' : List (String × Value)} (hnodup : (given.map Prod.fst).Nodup)
    (h : given.Perm given') (name : String) : given? given name = given? given' name := by
  have hnodup' : (given'.map Prod.fst).Nodup := (h.map Prod.fst).nodup_iff.mp hnodup
  apply Option.ext
  intro v
  rw [given?_eq_some_iff hnodup, given?_eq_some_iff hnodup', h.mem_iff]

namespace KeywordState

/-- An argument that a parameter takes may be given before one that is given by another name. -/
theorem after_swap {e : String × Value} (h : kw.1 ≠ e.1) (htakes : takesName params kw.1 = true) :
    after params (given ++ [kw] ++ [e]) = after params (given ++ [e] ++ [kw]) := by
  have hfilled : ParamSlot.filled (given ++ [kw] ++ [e]) =
      ParamSlot.filled (given ++ [e] ++ [kw]) := by
    funext x
    rw [ParamSlot.filled, ParamSlot.filled, given?_swap h]
  have hnone : surplusKeywords params [kw] = [] := surplusKeywords_of_takesName (by simpa)
  rw [after, after, hfilled]
  simp only [surplusKeywords_append, hnone, List.append_nil]

/-- An argument that a parameter takes may be given before all others, or behind them. -/
theorem foldlM_pass_after_snoc (h : (params.map Param.name).Nodup) (hasCollector : Bool)
    (htakes : takesName params kw.1 = true) (hgiven : kw.1 ∉ given.map Prod.fst)
    {keywords : List (String × Value)} (hkeywords : kw.1 ∉ keywords.map Prod.fst) :
    keywords.foldlM (pass hasCollector) (after params (given ++ [kw])) =
      (keywords ++ [kw]).foldlM (pass hasCollector) (after params given) := by
  induction keywords generalizing given with
  | nil =>
      have hpass : (after params given).pass hasCollector kw =
          .ok (after params (given ++ [kw])) :=
        (pass_after_eq_ok_iff h).mpr ⟨.inl htakes, hgiven, rfl⟩
      rw [List.nil_append, List.foldlM_cons, hpass]
      rfl
  | cons e keywords ih =>
      rw [List.map_cons, List.mem_cons, not_or] at hkeywords
      obtain ⟨hne, hkeywords⟩ := hkeywords
      have hold : e.1 ∈ (given ++ [kw]).map Prod.fst ↔ e.1 ∈ given.map Prod.fst := by
        simp [Ne.symm hne]
      have hnew : kw.1 ∉ (given ++ [e]).map Prod.fst := by
        rw [List.map_append, List.mem_append, not_or]
        exact ⟨hgiven, by simpa using hne⟩
      rw [List.cons_append, List.foldlM_cons, List.foldlM_cons, pass_after h, pass_after h,
        after_swap hne htakes]
      simp only [hold]
      split
      · split
        · rfl
        · exact ih hnew hkeywords
      · rfl

end KeywordState

theorem getElem?_leadingParams {i : Nat} (hi : i < positionalCapacity params)
    (h : params[i]? = some x) : (leadingParams params)[i]? = some x := by
  have hprefix : leadingParams params <+: params := List.takeWhile_prefix _
  have hlength : i < (leadingParams params).length := hi
  obtain ⟨others, hothers⟩ := hprefix
  rw [← hothers, List.getElem?_append_left hlength] at h
  exact h

theorem zip_snoc {names : List String} {values : List Value} (h : names[values.length]? = some name)
    (v : Value) : names.zip (values ++ [v]) = names.zip values ++ [(name, v)] := by
  induction values generalizing names with
  | nil =>
      cases names with
      | nil => cases h
      | cons n names =>
          cases h
          rw [List.nil_append, List.zip_cons_cons, List.zip_nil_right, List.zip_nil_right,
            List.nil_append]
  | cons w values ih =>
      cases names with
      | nil => cases h
      | cons n names =>
          rw [List.cons_append, List.zip_cons_cons, List.zip_cons_cons, List.cons_append]
          rw [ih (by simpa using h)]

/-- The next positional argument may be named instead. -/
theorem bindArgs_snoc (h : IsSignature (params.map Param.heading)) {values : List Value}
    {keywords : List (String × Value)} (hvalues : values.length < positionalCapacity params)
    (hx : params[values.length]? = some x) (hnew : x.name ∉ keywords.map Prod.fst) (v : Value) :
    bindArgs params ⟨values ++ [v], keywords⟩ =
      bindArgs params ⟨values, keywords ++ [(x.name, v)]⟩ := by
  have hname : (leadingNames params)[values.length]? = some x.name := by
    rw [leadingNames, List.getElem?_map, getElem?_leadingParams hvalues hx, Option.map_some]
  have htakes : takesName params x.name = true :=
    takesName_of_mem_leadingNames (List.mem_of_getElem? hname)
  have hgiven : x.name ∉ ((leadingNames params).zip values).map Prod.fst := by
    have hnodup := nodup_zip_leadingNames h.nodup_names (values ++ [v])
    rw [zip_snoc hname, List.map_append, List.nodup_append] at hnodup
    exact fun hmem => hnodup.2.2 _ hmem _ (List.mem_singleton_self _) rfl
  have hfit : (values ++ [v]).length ≤ positionalCapacity params := by
    rw [List.length_append, List.length_singleton]
    omega
  rw [bindArgs_eq h.nodup_names, bindArgs_eq h.nodup_names, if_pos (.inl hfit),
    if_pos (.inl hvalues.le), Arguments.surplusValues, Arguments.surplusValues,
    List.drop_eq_nil_of_le hfit, List.drop_eq_nil_of_le hvalues.le, zip_snoc hname,
    KeywordState.foldlM_pass_after_snoc h.nodup_names _ htakes hgiven hnew]

/-- Two bound arguments that differ at most in the order of collected keyword arguments. -/
inductive BoundArg.Agrees : BoundArg → BoundArg → Prop
  | same (a : BoundArg) : Agrees a a
  | reordered (name : String) {entries entries' : List (Value × Value)}
      (h : entries.Perm entries') :
      Agrees ⟨name, .keywords, .dict entries⟩ ⟨name, .keywords, .dict entries'⟩

section Reordered

variable {values : List Value} {keywords keywords' : List (String × Value)}

theorem suppliedNames_perm (params : List Param) (values : List Value)
    (h : keywords.Perm keywords') :
    (Arguments.suppliedNames ⟨values, keywords⟩ params).Perm
      (Arguments.suppliedNames ⟨values, keywords'⟩ params) :=
  (h.map Prod.fst).append_left _

theorem exists_bindArgs_perm_iff (h : IsSignature (params.map Param.heading))
    (hperm : keywords.Perm keywords') :
    (∃ bound, bindArgs params ⟨values, keywords⟩ = .ok bound) ↔
      ∃ bound, bindArgs params ⟨values, keywords'⟩ = .ok bound := by
  have hsupplied := suppliedNames_perm params values hperm
  rw [exists_bindArgs_eq_ok_iff h, exists_bindArgs_eq_ok_iff h]
  simp only [hperm.mem_iff, hsupplied.nodup_iff, hsupplied.mem_iff]

theorem agrees_of_bindParam (hnodup : (given.map Prod.fst).Nodup)
    {given' : List (String × Value)} (hgiven : given.Perm given')
    (hperm : keywords.Perm keywords') {a b : BoundArg}
    (ha : bindParam given values keywords x = .ok a)
    (hb : bindParam given' values keywords' x = .ok b) : a.Agrees b := by
  by_cases hk : x.kind = .keywords
  · simp only [bindParam, argument?, hk] at ha hb
    cases ha
    cases hb
    exact .reordered _ (hperm.map _)
  · have hsame : bindParam given' values keywords' x = bindParam given values keywords x := by
      rw [bindParam_congr_keywords given' hk, bindParam, bindParam, argument?, argument?,
        given?_perm hnodup hgiven]
    rw [hsame, ha] at hb
    cases hb
    exact .same a

theorem agrees_of_perm (h : IsSignature (params.map Param.heading))
    (hperm : keywords.Perm keywords') {bound bound' : BoundArgs}
    (hbound : bindArgs params ⟨values, keywords⟩ = .ok bound)
    (hbound' : bindArgs params ⟨values, keywords'⟩ = .ok bound') :
    List.Forall₂ BoundArg.Agrees bound.entries bound'.entries := by
  obtain ⟨-, -, hnodup, hentries⟩ := (bindArgs_eq_ok_iff h).mp hbound
  obtain ⟨-, -, -, hentries'⟩ := (bindArgs_eq_ok_iff h).mp hbound'
  rw [← Arguments.map_fst_named] at hnodup
  have hnamed : (Arguments.named ⟨values, keywords⟩ params).Perm
      (Arguments.named ⟨values, keywords'⟩ params) := hperm.append_left _
  refine forall₂_of_mapM_of_mapM (fun x _ a b ha hb => ?_) hentries hentries'
  exact agrees_of_bindParam hnodup hnamed (hperm.filter _) ha hb

end Reordered

/-- It makes no difference whether an argument is given by position or by name, not even to what is
wrong with a call, and the order of keyword arguments shows only where they are collected. -/
theorem bindArgs_by_name {decls : List ParamDecl} {callable : String}
    (hdecls : SignatureProblem.first? decls = none)
    (h : decls.mapM (fun x => x.resolve callable) = .ok params) :
    (∀ (values : List Value) (keywords : List (String × Value)) (v : Value) (x : Param),
      values.length < positionalCapacity params → params[values.length]? = some x →
      x.name ∉ keywords.map Prod.fst →
        bindArgs params ⟨values ++ [v], keywords⟩ =
          bindArgs params ⟨values, keywords ++ [(x.name, v)]⟩) ∧
    ∀ (values : List Value) (keywords keywords' : List (String × Value)), keywords.Perm keywords' →
      ((∃ bound, bindArgs params ⟨values, keywords⟩ = .ok bound) ↔
        ∃ bound, bindArgs params ⟨values, keywords'⟩ = .ok bound) ∧
      ∀ bound bound', bindArgs params ⟨values, keywords⟩ = .ok bound →
        bindArgs params ⟨values, keywords'⟩ = .ok bound' →
        List.Forall₂ BoundArg.Agrees bound.entries bound'.entries := by
  have hsignature := isSignature_of_resolve hdecls h
  constructor
  · intro values keywords v x hvalues hx hnew
    exact bindArgs_snoc hsignature hvalues hx hnew v
  · intro values keywords keywords' hperm
    refine ⟨exists_bindArgs_perm_iff hsignature hperm, ?_⟩
    intro bound bound' hbound hbound'
    exact agrees_of_perm hsignature hperm hbound hbound'

/-- The count of a parcel may be named, and its labels may be named in any order. -/
theorem bindArgs_by_name_parcel :
    bindArgs parcelParams ⟨[.str "book", .int 2], [("to", .str "Ada")]⟩ =
        bindArgs parcelParams ⟨[.str "book"], [("to", .str "Ada"), ("count", .int 2)]⟩ ∧
      ∃ bound bound',
        bindArgs parcelParams ⟨[.str "book"], [("to", .str "Ada"), ("by", .str "air")]⟩ =
          .ok bound ∧
        bindArgs parcelParams ⟨[.str "book"], [("by", .str "air"), ("to", .str "Ada")]⟩ =
          .ok bound' ∧
        List.Forall₂ BoundArg.Agrees bound.entries bound'.entries := by
  obtain ⟨hposition, horder⟩ := bindArgs_by_name first?_parcelDecls resolve_parcelDecls
  have hcount : (1 : Nat) < positionalCapacity parcelParams := by decide
  refine ⟨hposition [.str "book"] [("to", .str "Ada")] (.int 2)
    { name := "count", default := some (.int 1) } hcount rfl (by decide), ?_⟩
  obtain ⟨hiff, hagree⟩ := horder [.str "book"] [("to", .str "Ada"), ("by", .str "air")]
    [("by", .str "air"), ("to", .str "Ada")] (.swap ..)
  have hbound : (bindArgs parcelParams
      ⟨[.str "book"], [("to", .str "Ada"), ("by", .str "air")]⟩).isOk = true := by cbv
  obtain ⟨bound, hbound⟩ := exists_eq_ok_of_isOk hbound
  obtain ⟨bound', hbound'⟩ := hiff.mp ⟨bound, hbound⟩
  exact ⟨bound, bound', hbound, hbound', hagree bound bound' hbound hbound'⟩

end GuardedObjects
