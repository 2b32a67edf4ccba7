import Mathlib
import GuardedObjects.Call.Binding
import GuardedObjects.Proofs.Call.Signature
import GuardedObjects.Proofs.Table

/-!
# Arguments by name

While arguments are bound, each parameter has what was given under its name so far. A positional
argument is given under the name of the leading parameter at its place, and from then on it is a
keyword argument like any other.
-/

namespace GuardedObjects

theorem map_fst_zip_eq_take {α β : Type} (l : List α) (l' : List β) :
    (l.zip l').map Prod.fst = l.take l'.length := by
  rw [List.zip_eq_zip_take_min, List.map_fst_zip (by simp), List.take_eq_take_iff]
  omega

theorem map_snd_zip_eq_take {α β : Type} (l : List α) (l' : List β) :
    (l.zip l').map Prod.snd = l'.take l.length := by
  rw [List.zip_eq_zip_take_min, List.map_snd_zip (by simp), List.take_eq_take_iff]
  omega

/-- The parameters that take positional arguments one by one. -/
def leadingParams (params : List Param) : List Param := params.takeWhile fun x => x.kind = .regular

def leadingNames (params : List Param) : List String := (leadingParams params).map Param.name

/-- A regular parameter has that name. -/
def takesName (params : List Param) (name : String) : Bool :=
  params.any fun x => x.kind = .regular && x.name = name

/-- What was given under a name. -/
def given? (given : List (String × Value)) (name : String) : Option Value :=
  (given.find? fun e => e.1 = name).map Prod.snd

variable {params : List Param} {x : Param} {given : List (String × Value)} {name : String}
  {v : Value} {kw : String × Value}

theorem takesName_eq_true_iff :
    takesName params name = true ↔ ∃ x ∈ params, x.kind = .regular ∧ x.name = name := by
  simp [takesName]

theorem length_leadingNames (params : List Param) :
    (leadingNames params).length = positionalCapacity params := List.length_map ..

theorem kind_of_mem_leadingParams (h : x ∈ leadingParams params) : x.kind = .regular := by
  simpa using List.mem_takeWhile_imp h

theorem takesName_of_mem_leadingNames (h : name ∈ leadingNames params) :
    takesName params name = true := by
  obtain ⟨x, hx, rfl⟩ := List.mem_map.mp h
  exact takesName_eq_true_iff.mpr
    ⟨x, (List.takeWhile_sublist _).subset hx, kind_of_mem_leadingParams hx, rfl⟩

theorem nodup_leadingNames (h : (params.map Param.name).Nodup) : (leadingNames params).Nodup :=
  ((List.takeWhile_sublist _).map Param.name).nodup h

theorem given?_cons_of_ne (h : kw.1 ≠ name) : given? (kw :: given) name = given? given name := by
  rw [given?, List.find?_cons_of_neg (by simpa using h), given?]

theorem given?_cons_self (kw : String × Value) (given : List (String × Value)) :
    given? (kw :: given) kw.1 = some kw.2 := by
  rw [given?, List.find?_cons_of_pos (by simp)]
  rfl

theorem given?_eq_none_iff : given? given name = none ↔ name ∉ given.map Prod.fst := by
  rw [given?, Option.map_eq_none_iff, List.find?_eq_none, List.mem_map]
  constructor
  · rintro h ⟨e, he, heq⟩
    exact h e he (by simpa using heq)
  · intro h e he heq
    exact h ⟨e, he, by simpa using heq⟩

theorem given?_eq_some_iff (h : (given.map Prod.fst).Nodup) :
    given? given name = some v ↔ (name, v) ∈ given :=
  map_snd_find?_eq_some_iff h

theorem given?_append (given more : List (String × Value)) (name : String) :
    given? (given ++ more) name = (given? given name).or (given? more name) := by
  simp only [given?, List.find?_append]
  cases given.find? fun e => e.1 = name <;> rfl

theorem given?_snoc_of_ne (h : kw.1 ≠ name) :
    given? (given ++ [kw]) name = given? given name := by
  rw [given?_append, given?_cons_of_ne h]
  exact Option.or_none

theorem given?_snoc_self (h : kw.1 ∉ given.map Prod.fst) :
    given? (given ++ [kw]) kw.1 = some kw.2 := by
  rw [given?_append, given?_eq_none_iff.mpr h, given?_cons_self]
  rfl

namespace ParamSlot

/-- The slot of a parameter when these arguments were given. -/
def filled (given : List (String × Value)) (x : Param) : ParamSlot :=
  ⟨x, if x.kind = .regular then given? given x.name else none⟩

theorem filled_nil : filled [] = fun x => ⟨x, none⟩ := by
  funext x
  simp [filled, given?]

theorem filled_cons_of_ne (h : kw.1 ≠ x.name) : filled (kw :: given) x = filled given x := by
  rw [filled, filled, given?_cons_of_ne h]

theorem filled_snoc (h : ¬(x.kind = .regular ∧ x.name = kw.1)) :
    filled (given ++ [kw]) x = filled given x := by
  by_cases hk : x.kind = .regular
  · rw [filled, filled, given?_snoc_of_ne fun heq => h ⟨hk, heq.symm⟩]
  · rw [filled, filled, if_neg hk, if_neg hk]

/-- Positional arguments are given under the names of the leading parameters. -/
theorem ofPositionals_eq (h : (params.map Param.name).Nodup) (values : List Value) :
    ofPositionals params values = params.map (filled ((leadingNames params).zip values)) := by
  induction params generalizing values with
  | nil => rfl
  | cons x params ih =>
      rw [List.map_cons, List.nodup_cons] at h
      obtain ⟨hfresh, hnodup⟩ := h
      cases values with
      | nil =>
          rw [List.zip_nil_right, filled_nil]
          rfl
      | cons v values =>
          rw [ofPositionals]
          by_cases hk : x.kind = .regular
          · have hzip : (leadingNames (x :: params)).zip (v :: values) =
                (x.name, v) :: (leadingNames params).zip values := by
              simp [leadingNames, leadingParams, hk]
            have hrest : params.map (filled ((x.name, v) :: (leadingNames params).zip values)) =
                params.map (filled ((leadingNames params).zip values)) := by
              refine List.map_congr_left fun y hy => filled_cons_of_ne ?_
              intro heq
              have hname : x.name = y.name := heq
              exact hfresh (hname ▸ List.mem_map_of_mem hy)
            rw [if_pos hk, ih hnodup, hzip, List.map_cons, hrest, filled, if_pos hk,
              given?_cons_self (x.name, v)]
          · have hzip : (leadingNames (x :: params)).zip (v :: values) = [] := by
              simp [leadingNames, leadingParams, hk]
            rw [if_neg hk, hzip, filled_nil]

/-- Giving an argument under a new name. -/
theorem give_filled (h : (params.map Param.name).Nodup) (hname : kw.1 ∉ given.map Prod.fst) :
    give kw.1 kw.2 (params.map (filled given)) = params.map (filled (given ++ [kw])) := by
  induction params with
  | nil => rfl
  | cons x params ih =>
      rw [List.map_cons, List.nodup_cons] at h
      obtain ⟨hfresh, hnodup⟩ := h
      rw [List.map_cons, List.map_cons, give]
      by_cases hfor : (filled given x).isFor kw.1 = true
      · obtain ⟨hk, heq⟩ : x.kind = .regular ∧ x.name = kw.1 := by
          rwa [isFor, Bool.and_eq_true, decide_eq_true_eq, decide_eq_true_eq] at hfor
        have hrest : params.map (filled (given ++ [kw])) = params.map (filled given) := by
          refine List.map_congr_left fun y hy => filled_snoc ?_
          rintro ⟨-, hy'⟩
          exact hfresh (heq ▸ hy' ▸ List.mem_map_of_mem hy)
        rw [if_pos hfor, hrest, filled, filled, if_pos hk, if_pos hk, heq,
          given?_snoc_self hname]
      · have hhead : filled (given ++ [kw]) x = filled given x := by
          refine filled_snoc fun hx => hfor ?_
          rwa [isFor, Bool.and_eq_true, decide_eq_true_eq, decide_eq_true_eq]
        rw [if_neg hfor, ih hnodup, hhead]

theorem find?_filled (given : List (String × Value)) (name : String) :
    (params.map (filled given)).find? (isFor name) =
      (params.find? fun x => x.kind = .regular && x.name = name).map (filled given) := by
  rw [List.find?_map]
  rfl

end ParamSlot

/-- The keyword arguments that no regular parameter takes. -/
def surplusKeywords (params : List Param) (keywords : List (String × Value)) :
    List (String × Value) :=
  keywords.filter fun kw => !takesName params kw.1

theorem surplusKeywords_append (params : List Param) (keywords more : List (String × Value)) :
    surplusKeywords params (keywords ++ more) =
      surplusKeywords params keywords ++ surplusKeywords params more := List.filter_append ..

theorem surplusKeywords_of_takesName {keywords : List (String × Value)}
    (h : ∀ kw ∈ keywords, takesName params kw.1 = true) : surplusKeywords params keywords = [] := by
  rw [surplusKeywords, List.filter_eq_nil_iff]
  intro kw hkw
  simp [h kw hkw]

theorem any_surplusKeywords_iff {keywords : List (String × Value)}
    (h : takesName params name ≠ true) :
    ((surplusKeywords params keywords).any fun kw => kw.1 = name) = true ↔
      name ∈ keywords.map Prod.fst := by
  rw [List.any_eq_true, List.mem_map]
  constructor
  · rintro ⟨kw, hkw, heq⟩
    exact ⟨kw, List.mem_of_mem_filter hkw, of_decide_eq_true heq⟩
  · rintro ⟨kw, hkw, rfl⟩
    exact ⟨kw, List.mem_filter.mpr ⟨hkw, by simpa using h⟩, by simp⟩

namespace KeywordState

/-- The state when these arguments were given. -/
def after (params : List Param) (given : List (String × Value)) : KeywordState :=
  ⟨params.map (ParamSlot.filled given), surplusKeywords params given⟩

theorem after_snoc_of_takesName (h : takesName params kw.1 = true) :
    after params (given ++ [kw]) =
      ⟨params.map (ParamSlot.filled (given ++ [kw])), surplusKeywords params given⟩ := by
  have hnone : surplusKeywords params [kw] = [] := surplusKeywords_of_takesName (by simpa)
  rw [after, surplusKeywords_append, hnone, List.append_nil]

theorem after_snoc_of_not_takesName (h : takesName params kw.1 ≠ true) :
    after params (given ++ [kw]) =
      ⟨params.map (ParamSlot.filled given), surplusKeywords params given ++ [kw]⟩ := by
  have hslots : params.map (ParamSlot.filled (given ++ [kw])) =
      params.map (ParamSlot.filled given) := by
    refine List.map_congr_left fun x hx => ParamSlot.filled_snoc fun hfor => h ?_
    exact takesName_eq_true_iff.mpr ⟨x, hx, hfor⟩
  rw [after, hslots, surplusKeywords_append]
  simp [surplusKeywords, h]

/-- A keyword argument is given if a parameter takes it and its name was not given before. -/
theorem pass_after (h : (params.map Param.name).Nodup) (hasCollector : Bool)
    (given : List (String × Value)) (kw : String × Value) :
    (after params given).pass hasCollector kw =
      if takesName params kw.1 = true ∨ hasCollector = true then
        if kw.1 ∈ given.map Prod.fst then .error (.multipleValues kw.1)
        else .ok (after params (given ++ [kw]))
      else .error (.unexpectedKeyword kw.1) := by
  have hslot : (after params given).slots.find? (ParamSlot.isFor kw.1) =
      (params.find? fun x => x.kind = .regular && x.name = kw.1).map (ParamSlot.filled given) :=
    ParamSlot.find?_filled ..
  rw [pass, hslot]
  cases hfind : params.find? fun x => x.kind = .regular && x.name = kw.1 with
  | none =>
      have htakes : takesName params kw.1 ≠ true := by
        simpa [takesName] using hfind
      have hany : ((after params given).surplus.any fun e => e.1 = kw.1) = true ↔
          kw.1 ∈ given.map Prod.fst := any_surplusKeywords_iff htakes
      rw [if_congr (or_iff_right htakes) rfl rfl, after_snoc_of_not_takesName htakes]
      simp only [Option.map_none, hany]
      rfl
  | some x =>
      have hx := List.mem_of_find?_eq_some hfind
      obtain ⟨hk, heq⟩ : x.kind = .regular ∧ x.name = kw.1 := by
        simpa using List.find?_some hfind
      have htakes : takesName params kw.1 = true := takesName_eq_true_iff.mpr ⟨x, hx, hk, heq⟩
      rw [if_pos (Or.inl htakes), Option.map_some, ParamSlot.filled, if_pos hk, heq]
      cases hgiven : given? given kw.1 with
      | none =>
          have hnew := given?_eq_none_iff.mp hgiven
          rw [if_neg hnew, after_snoc_of_takesName htakes, ← ParamSlot.give_filled h hnew]
          rfl
      | some v =>
          have hold : kw.1 ∈ given.map Prod.fst := by
            by_contra hnew
            cases hgiven.symm.trans (given?_eq_none_iff.mpr hnew)
          rw [if_pos hold]

theorem pass_after_eq_ok_iff (h : (params.map Param.name).Nodup) {hasCollector : Bool}
    {st : KeywordState} :
    (after params given).pass hasCollector kw = .ok st ↔
      (takesName params kw.1 = true ∨ hasCollector = true) ∧ kw.1 ∉ given.map Prod.fst ∧
        after params (given ++ [kw]) = st := by
  rw [pass_after h]
  split
  · rename_i htaken
    split
    · rename_i hold
      exact ⟨nofun, fun hst => absurd hold hst.2.1⟩
    · rename_i hnew
      exact ⟨fun hst => ⟨htaken, hnew, Except.ok.inj hst⟩, fun hst => congrArg _ hst.2.2⟩
  · rename_i htaken
    exact ⟨nofun, fun hst => absurd hst.1 htaken⟩

/-- Keyword arguments are given one after the other, and no name twice. -/
theorem foldlM_pass_after_eq_ok_iff (h : (params.map Param.name).Nodup) {hasCollector : Bool}
    {keywords : List (String × Value)} (hgiven : (given.map Prod.fst).Nodup) {st : KeywordState} :
    keywords.foldlM (pass hasCollector) (after params given) = .ok st ↔
      (∀ kw ∈ keywords, takesName params kw.1 = true ∨ hasCollector = true) ∧
        ((given ++ keywords).map Prod.fst).Nodup ∧ after params (given ++ keywords) = st := by
  induction keywords generalizing given with
  | nil =>
      rw [List.append_nil]
      constructor
      · intro hst
        exact ⟨nofun, hgiven, Except.ok.inj hst⟩
      · rintro ⟨-, -, rfl⟩
        rfl
  | cons kw keywords ih =>
      have hsnoc (hnew : kw.1 ∉ given.map Prod.fst) : ((given ++ [kw]).map Prod.fst).Nodup := by
        rw [List.map_append, List.map_singleton, ← List.concat_eq_append]
        exact hgiven.concat hnew
      rw [List.foldlM_cons, List.forall_mem_cons, List.append_cons, bind_eq_ok_iff]
      simp only [pass_after_eq_ok_iff h]
      constructor
      · rintro ⟨_, ⟨htaken, hnew, rfl⟩, hst⟩
        obtain ⟨hrest, hnodup, hst⟩ := (ih (hsnoc hnew)).mp hst
        exact ⟨⟨htaken, hrest⟩, hnodup, hst⟩
      · rintro ⟨⟨htaken, hrest⟩, hnodup, hst⟩
        have hnew : kw.1 ∉ given.map Prod.fst := by
          rw [← List.append_cons, List.map_append, List.map_cons, List.nodup_middle,
            List.nodup_cons] at hnodup
          exact fun hmem => hnodup.1 (List.mem_append_left _ hmem)
        exact ⟨_, ⟨htaken, hnew, rfl⟩, (ih (hsnoc hnew)).mpr ⟨hrest, hnodup, hst⟩⟩

end KeywordState

end GuardedObjects
