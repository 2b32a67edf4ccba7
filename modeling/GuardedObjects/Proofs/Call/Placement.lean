import GuardedObjects.Proofs.Call.Outcome

/-!
# Where arguments go

To bind the arguments of a call neither loses nor duplicates one. Each goes to one parameter, and a
parameter that gets none takes its default.
-/

namespace GuardedObjects

/-- What arguments have to be like to be bound to a parameter list. Those that no regular parameter
takes are collected, no name is given twice, and what has no default is not left out. -/
structure Bindable (params : List Param) (args : Arguments) : Prop where
  positionals : args.positional.length ≤ positionalCapacity params ∨
    ∃ y ∈ params, y.kind = .positionals
  /-- The parameter of a keyword argument has got no positional one. -/
  keywords : ∀ name ∈ args.keywords.map Prod.fst,
    (takesName params name = true ∧ name ∉ (leadingNames params).take args.positional.length) ∨
      (takesName params name = false ∧ ∃ y ∈ params, y.kind = .keywords)
  once : (args.keywords.map Prod.fst).Nodup
  supplied : ∀ x ∈ params, x.kind = .regular →
    x.name ∈ args.suppliedNames params ∨ x.default.isSome = true

/-- A bound argument is what its parameter has to get: an argument at its place or under its name,
what is left over if it collects that, or else the default. -/
structure Placed (params : List Param) (args : Arguments) (x : Param) (a : BoundArg) : Prop where
  name_eq : a.name = x.name
  kind_eq : a.kind = x.kind
  positional : ∀ v, (x, v) ∈ (leadingParams params).zip args.positional → a.value = v
  keyword : x.kind = .regular → ∀ v, (x.name, v) ∈ args.keywords → a.value = v
  default : x.kind = .regular → x.name ∉ args.suppliedNames params → x.default = some a.value
  positionals : x.kind = .positionals →
    a.value = .tuple (args.positional.drop (positionalCapacity params))
  keywords : x.kind = .keywords → a.value = .dict
    ((args.keywords.filter fun kw => !takesName params kw.1).map fun kw => (.str kw.1, kw.2))

/-- The arguments of a call that a bound argument holds. A default is none of them. -/
def BoundArg.received (supplied : List String) (a : BoundArg) : List Value :=
  match a.kind, a.value with
  | .regular, v => if a.name ∈ supplied then [v] else []
  | .positionals, .tuple values => values
  | .keywords, .dict entries => entries.map Prod.snd
  | _, _ => []

variable {params : List Param} {x : Param} {a : BoundArg} {args : Arguments}
  {given : List (String × Value)}

theorem bindable_iff (h : (params.map Param.name).Nodup) : Bindable params args ↔
    (args.positional.length ≤ positionalCapacity params ∨ ∃ x ∈ params, x.kind = .positionals) ∧
    (∀ kw ∈ args.keywords, takesName params kw.1 = true ∨ ∃ x ∈ params, x.kind = .keywords) ∧
    (args.suppliedNames params).Nodup ∧
    ∀ x ∈ params, x.kind = .regular →
      x.name ∈ args.suppliedNames params ∨ x.default.isSome = true := by
  have htake : ((leadingNames params).take args.positional.length).Nodup := by
    rw [← map_fst_zip_eq_take]
    exact nodup_zip_leadingNames h args.positional
  constructor
  · intro hbind
    refine ⟨hbind.positionals, ?_, ?_, hbind.supplied⟩
    · intro kw hkw
      rcases hbind.keywords kw.1 (List.mem_map_of_mem hkw) with hkw | hkw
      · exact .inl hkw.1
      · exact .inr hkw.2
    · rw [Arguments.suppliedNames, List.nodup_append]
      refine ⟨htake, hbind.once, ?_⟩
      rintro name hleading _ hkeyword rfl
      rcases hbind.keywords name hkeyword with ⟨-, hfree⟩ | ⟨hnone, -⟩
      · exact hfree hleading
      · have htakes := takesName_of_mem_leadingNames (List.mem_of_mem_take hleading)
        cases hnone.symm.trans htakes
  · rintro ⟨hfit, htaken, hnodup, hsupplied⟩
    rw [Arguments.suppliedNames, List.nodup_append] at hnodup
    obtain ⟨-, honce, hdisjoint⟩ := hnodup
    refine ⟨hfit, ?_, honce, hsupplied⟩
    intro name hname
    obtain ⟨kw, hkw, rfl⟩ := List.mem_map.mp hname
    cases htakes : takesName params kw.1 with
    | true => exact .inl ⟨rfl, fun hleading => hdisjoint _ hleading _ hname rfl⟩
    | false =>
        refine .inr ⟨rfl, (htaken kw hkw).resolve_left ?_⟩
        rw [htakes]
        exact Bool.false_ne_true

theorem bindParam_eq_ok_iff {values : List Value} {keywords : List (String × Value)} :
    bindParam given values keywords x = .ok a ↔
      ∃ v, argument? given values keywords x = some v ∧ ⟨x.name, x.kind, v⟩ = a := by
  rw [bindParam]
  cases argument? given values keywords x with
  | none => simp
  | some v => simp

theorem mem_named_of_mem_zip {v : Value} (h : (x, v) ∈ (leadingParams params).zip args.positional) :
    (x.name, v) ∈ args.named params := by
  apply List.mem_append_left
  rw [leadingNames, List.zip_map_left]
  exact List.mem_map_of_mem h

theorem argument?_of_given {values : List Value} {keywords : List (String × Value)} {v : Value}
    (hk : x.kind = .regular) (h : given? given x.name = some v) :
    argument? given values keywords x = some v := by
  simp only [argument?, hk, h, Option.some_or]

theorem placed_of_bindParam (hnodup : (args.suppliedNames params).Nodup)
    (h : bindParam (args.named params) (args.surplusValues params)
      (surplusKeywords params args.keywords) x = .ok a) : Placed params args x a := by
  obtain ⟨v, hv, rfl⟩ := bindParam_eq_ok_iff.mp h
  rw [← Arguments.map_fst_named] at hnodup
  have hgiven (hk : x.kind = .regular) (w : Value) (hw : (x.name, w) ∈ args.named params) :
      v = w := by
    have hw := (given?_eq_some_iff hnodup).mpr hw
    exact Option.some.inj (hv.symm.trans (argument?_of_given hk hw))
  refine ⟨rfl, rfl, ?_, ?_, ?_, ?_, ?_⟩
  · intro w hw
    apply hgiven (kind_of_mem_leadingParams (List.of_mem_zip hw).1)
    exact mem_named_of_mem_zip hw
  · intro hk w hw
    exact hgiven hk w (List.mem_append_right _ hw)
  · intro hk hfree
    rw [← given?_named_eq_none_iff] at hfree
    simpa only [argument?, hk, hfree, Option.none_or] using hv
  · intro hk
    simp only [argument?, hk] at hv
    cases hv
    rfl
  · intro hk
    simp only [argument?, hk] at hv
    cases hv
    rfl

/-- Regular parameters get what was given under their names. -/
theorem given_perm (hparams : (params.map Param.name).Nodup)
    (hgiven : (given.map Prod.fst).Nodup) :
    (params.filterMap fun x => if x.kind = .regular then given? given x.name else none).Perm
      ((given.filter fun e => takesName params e.1).map Prod.snd) := by
  have hfound (x : Param) (e : String × Value) :
      (if x.kind = .regular then given.find? fun e => e.1 = x.name else none) = some e ↔
        x.kind = .regular ∧ e ∈ given ∧ e.1 = x.name := by
    rw [Option.ite_none_right_eq_some, find?_key_eq_some_iff hgiven]
  have hperm : (params.filterMap fun x =>
        if x.kind = .regular then given.find? fun e => e.1 = x.name else none).Perm
      (given.filter fun e => takesName params e.1) := by
    rw [List.perm_ext_iff_of_nodup]
    · intro e
      rw [List.mem_filterMap, List.mem_filter, takesName_eq_true_iff]
      simp only [hfound]
      constructor
      · rintro ⟨x, hx, hk, he, hname⟩
        exact ⟨he, x, hx, hk, hname.symm⟩
      · rintro ⟨he, x, hx, hk, hname⟩
        exact ⟨x, hx, hk, he, hname.symm⟩
    · rw [List.Nodup, List.pairwise_map] at hparams
      rw [List.Nodup, List.pairwise_filterMap]
      refine hparams.imp fun {x y} hne => ?_
      rintro e he _ he' rfl
      exact hne (((hfound x e).mp he).2.2.symm.trans ((hfound y e).mp he').2.2)
    · exact hgiven.of_map.filter _
  have hvalues := hperm.map Prod.snd
  rw [List.map_filterMap] at hvalues
  refine (List.Perm.of_eq (List.filterMap_congr fun x _ => ?_)).trans hvalues
  split
  · rfl
  · rfl

/-- Only one collector takes what is left over. -/
theorem flatMap_collector {kind : ParamKind} {values : List Value}
    (honce : params.Pairwise fun x y => x.kind = kind → y.kind ≠ kind)
    (hvalues : values = [] ∨ ∃ x ∈ params, x.kind = kind) :
    (params.flatMap fun x => if x.kind = kind then values else []) = values := by
  induction params with
  | nil => simpa using hvalues.symm
  | cons x params ih =>
      rw [List.pairwise_cons] at honce
      obtain ⟨hx, honce⟩ := honce
      rw [List.flatMap_cons]
      by_cases hk : x.kind = kind
      · have hrest : (params.flatMap fun y => if y.kind = kind then values else []) = [] := by
          rw [List.flatMap_eq_nil_iff]
          intro y hy
          exact if_neg (hx y hy hk)
        rw [if_pos hk, hrest, List.append_nil]
      · rw [if_neg hk, List.nil_append]
        apply ih honce
        rcases hvalues with hnil | ⟨y, hy, hyk⟩
        · exact .inl hnil
        · rcases List.mem_cons.mp hy with rfl | hy
          · exact absurd hyk hk
          · exact .inr ⟨y, hy, hyk⟩

theorem received_of_bindParam
    (h : bindParam (args.named params) (args.surplusValues params)
      (surplusKeywords params args.keywords) x = .ok a) :
    a.received (args.suppliedNames params) =
      (if x.kind = .regular then given? (args.named params) x.name else none).toList ++
        ((if x.kind = .positionals then args.surplusValues params else []) ++
          if x.kind = .keywords then (surplusKeywords params args.keywords).map Prod.snd
          else []) := by
  obtain ⟨v, hv, rfl⟩ := bindParam_eq_ok_iff.mp h
  rw [BoundArg.received]
  cases hk : x.kind with
  | regular =>
      simp only [if_true, reduceCtorEq, if_false, List.append_nil]
      cases hgiven : given? (args.named params) x.name with
      | none => rw [if_neg (given?_named_eq_none_iff.mp hgiven), Option.toList_none]
      | some w =>
          have hx : x.name ∈ args.suppliedNames params := by
            by_contra hx
            cases hgiven.symm.trans (given?_named_eq_none_iff.mpr hx)
          have hw : v = w := Option.some.inj (hv.symm.trans (argument?_of_given hk hgiven))
          rw [if_pos hx, hw, Option.toList_some]
  | positionals =>
      simp only [argument?, hk] at hv
      cases hv
      simp
  | keywords =>
      simp only [argument?, hk] at hv
      cases hv
      simp

open scoped List in
/-- The arguments of a call are those that regular parameters take and those that are left over. -/
theorem values_perm (params : List Param) (args : Arguments) :
    args.positional ++ args.keywords.map Prod.snd ~
      ((args.named params).filter fun e => takesName params e.1).map Prod.snd ++
        (args.surplusValues params ++ (surplusKeywords params args.keywords).map Prod.snd) := by
  have hnamed : (args.named params).map Prod.snd =
      args.positional.take (positionalCapacity params) ++ args.keywords.map Prod.snd := by
    rw [Arguments.named, List.map_append, map_snd_zip_eq_take, length_leadingNames]
  have hsplit : ((args.named params).filter fun e => takesName params e.1).map Prod.snd ++
      (surplusKeywords params args.keywords).map Prod.snd ~
        (args.named params).map Prod.snd := by
    rw [← List.map_append, ← surplusKeywords_named]
    exact (List.filter_append_perm _ _).map Prod.snd
  calc args.positional ++ args.keywords.map Prod.snd
    _ = args.positional.take (positionalCapacity params) ++
        (args.surplusValues params ++ args.keywords.map Prod.snd) := by
      rw [← List.append_assoc, Arguments.surplusValues, List.take_append_drop]
    _ ~ args.positional.take (positionalCapacity params) ++
        (args.keywords.map Prod.snd ++ args.surplusValues params) :=
      List.perm_append_comm.append_left _
    _ ~ ((args.named params).filter fun e => takesName params e.1).map Prod.snd ++
        (surplusKeywords params args.keywords).map Prod.snd ++ args.surplusValues params := by
      rw [← List.append_assoc, ← hnamed]
      exact hsplit.symm.append_right _
    _ ~ ((args.named params).filter fun e => takesName params e.1).map Prod.snd ++
        (args.surplusValues params ++ (surplusKeywords params args.keywords).map Prod.snd) := by
      rw [List.append_assoc]
      exact List.perm_append_comm.append_left _

/-- The bound arguments hold every argument of the call, and none twice. -/
theorem received_perm (h : IsSignature (params.map Param.heading)) {bound : BoundArgs}
    (hbound : bindArgs params args = .ok bound) :
    (args.positional ++ args.keywords.map Prod.snd).Perm
      (bound.entries.flatMap (BoundArg.received (args.suppliedNames params))) := by
  obtain ⟨hfit, htaken, hnodup, hentries⟩ := (bindArgs_eq_ok_iff h).mp hbound
  have hpositionals : args.surplusValues params = [] ∨ ∃ x ∈ params, x.kind = .positionals :=
    hfit.imp_left fun hle => List.drop_eq_nil_of_le hle
  have hkeywords : (surplusKeywords params args.keywords).map Prod.snd = [] ∨
      ∃ x ∈ params, x.kind = .keywords := by
    by_cases hcollector : ∃ x ∈ params, x.kind = .keywords
    · exact .inr hcollector
    · rw [surplusKeywords_of_takesName fun kw hkw => (htaken kw hkw).resolve_right hcollector]
      exact .inl rfl
  rw [← Arguments.map_fst_named] at hnodup
  have hregular := given_perm h.nodup_names hnodup
  rw [List.filterMap_eq_flatMap_toList] at hregular
  have hreceived := map_eq_map_of_mapM_eq_ok received_of_bindParam hentries
  rw [List.flatMap_def, hreceived, ← List.flatMap_def]
  have hsplit := List.flatMap_append_perm params
    (fun x => if x.kind = .positionals then args.surplusValues params else [])
    fun x => if x.kind = .keywords then (surplusKeywords params args.keywords).map Prod.snd else []
  rw [flatMap_collector (h.collector_once .positionals rfl) hpositionals,
    flatMap_collector (h.collector_once .keywords rfl) hkeywords] at hsplit
  refine (values_perm params args).trans ?_
  exact (hregular.symm.append hsplit).trans (List.flatMap_append_perm params _ _)

/-- The arguments of a call can be bound if and only if they suit the parameters. Every parameter
then gets what is meant for it, and every argument of the call ends up in one place. -/
theorem bindArgs_places {decls : List ParamDecl} {callable : String}
    (hdecls : SignatureProblem.first? decls = none)
    (h : decls.mapM (fun x => x.resolve callable) = .ok params) (args : Arguments) :
    ((∃ bound, bindArgs params args = .ok bound) ↔ Bindable params args) ∧
      ∀ bound, bindArgs params args = .ok bound →
        List.Forall₂ (Placed params args) params bound.entries ∧
        (args.positional ++ args.keywords.map Prod.snd).Perm
          (bound.entries.flatMap (BoundArg.received (args.suppliedNames params))) := by
  have hsignature := isSignature_of_resolve hdecls h
  constructor
  · rw [exists_bindArgs_eq_ok_iff hsignature, bindable_iff hsignature.nodup_names]
  · intro bound hbound
    obtain ⟨-, -, hnodup, hentries⟩ := (bindArgs_eq_ok_iff hsignature).mp hbound
    exact ⟨forall₂_of_mapM_eq_ok (fun _ _ _ => placed_of_bindParam hnodup) hentries,
      received_perm hsignature hbound⟩

def parcelArgs : Arguments where
  positional := [.str "book", .int 2, .str "pen"]
  keywords := [("to", .str "Ada")]

/-- A parcel of two books and a pen, which is not urgent by default. Without an item there is no
parcel. -/
theorem bindArgs_places_parcel :
    Bindable parcelParams parcelArgs ∧
      (∃ bound, bindArgs parcelParams parcelArgs = .ok bound ∧
        List.Forall₂ (Placed parcelParams parcelArgs) parcelParams bound.entries ∧
        [.str "book", .int 2, .str "pen", .str "Ada"].Perm (bound.entries.flatMap
          (BoundArg.received ["item", "count", "to"]))) ∧
      ¬Bindable parcelParams {} := by
  have hplaces := bindArgs_places first?_parcelDecls resolve_parcelDecls
  obtain ⟨hbindable, hbound⟩ := hplaces parcelArgs
  have hparcel : bindArgs parcelParams parcelArgs = .ok ⟨
      [⟨"item", .regular, .str "book"⟩, ⟨"count", .regular, .int 2⟩,
        ⟨"rest", .positionals, .tuple [.str "pen"]⟩, ⟨"urgent", .regular, .bool false⟩,
        ⟨"labels", .keywords, .dict [(.str "to", .str "Ada")]⟩]⟩ := by cbv
  refine ⟨hbindable.mp ⟨_, hparcel⟩, ⟨_, hparcel, hbound _ hparcel⟩, ?_⟩
  intro hnothing
  obtain ⟨bound, hnone⟩ := (hplaces {}).1.mpr hnothing
  have hmissing : bindArgs parcelParams {} = .error (.missing "item") := by cbv
  cases hmissing.symm.trans hnone

end GuardedObjects
