import GuardedObjects.Call.Binding
import GuardedObjects.Proofs.Except

/-!
# Bound arguments

Handing out arguments never moves or drops a parameter, so the bound arguments stand in the order
of the parameters, under their names, and each parameter finds its own.
-/

namespace GuardedObjects

namespace ParamSlot

theorem params_ofPositionals (params : List Param) (values : List Value) :
    (ofPositionals params values).map ParamSlot.param = params := by
  induction params generalizing values with
  | nil => rfl
  | cons x params ih =>
      have hempty : ((x :: params).map fun x => (⟨x, none⟩ : ParamSlot)).map ParamSlot.param =
          x :: params := by
        rw [List.map_map]
        exact List.map_id _
      cases values with
      | nil => exact hempty
      | cons v values =>
          rw [ofPositionals]
          split
          · rw [List.map_cons, ih]
          · exact hempty

theorem params_give (name : String) (v : Value) (slots : List ParamSlot) :
    (give name v slots).map ParamSlot.param = slots.map ParamSlot.param := by
  induction slots with
  | nil => rfl
  | cons s slots ih =>
      rw [give]
      split
      · rfl
      · rw [List.map_cons, List.map_cons, ih]

end ParamSlot

theorem KeywordState.params_pass {hasCollector : Bool} {st st' : KeywordState}
    {kw : String × Value} (h : st.pass hasCollector kw = .ok st') :
    st'.slots.map ParamSlot.param = st.slots.map ParamSlot.param := by
  unfold pass at h
  split at h
  · cases h
  · cases h
    exact ParamSlot.params_give ..
  · split at h
    · split at h
      · cases h
      · cases h
        rfl
    · cases h

theorem names_collectArgs {slots : List ParamSlot} {values : List Value}
    {keywords : List (String × Value)} {bound : List BoundArg}
    (h : collectArgs slots values keywords = .ok bound) :
    bound.map BoundArg.name = slots.map fun s => s.param.name := by
  induction slots generalizing values keywords bound with
  | nil =>
      cases h
      rfl
  | cons s slots ih =>
      obtain ⟨x, given⟩ := s
      rw [collectArgs] at h
      split at h
      · obtain ⟨rest, hrest, h⟩ := bind_eq_ok_iff.mp h
        cases h
        rw [List.map_cons, List.map_cons, ih hrest]
      · obtain ⟨rest, hrest, h⟩ := bind_eq_ok_iff.mp h
        cases h
        rw [List.map_cons, List.map_cons, ih hrest]
      · split at h
        · obtain ⟨rest, hrest, h⟩ := bind_eq_ok_iff.mp h
          cases h
          rw [List.map_cons, List.map_cons, ih hrest]
        · cases h

/-- The bound arguments have the names of the parameters, in their order. -/
theorem names_bindArgs {params : List Param} {args : Arguments} {bound : BoundArgs}
    (h : bindArgs params args = .ok bound) :
    bound.entries.map BoundArg.name = params.map Param.name := by
  unfold bindArgs at h
  simp only at h
  split at h
  · cases h
  · obtain ⟨st, hst, h⟩ := bind_eq_ok_iff.mp h
    obtain ⟨entries, hentries, h⟩ := bind_eq_ok_iff.mp h
    cases h
    have hslots : st.slots.map ParamSlot.param = params := by
      refine foldlM_invariant (I := fun st => st.slots.map ParamSlot.param = params) ?_
        (ParamSlot.params_ofPositionals params args.positional) hst
      intro st kw st' _ hinv hpass
      rw [KeywordState.params_pass hpass, hinv]
    rw [names_collectArgs hentries, ← hslots, List.map_map]
    rfl

theorem find?_of_mem_zip {params : List Param} {entries : List BoundArg}
    (hnames : entries.map BoundArg.name = params.map Param.name)
    (hnodup : (params.map Param.name).Nodup) {x : Param} {arg : BoundArg}
    (h : (x, arg) ∈ params.zip entries) :
    entries.find? (fun a => a.name = x.name) = some arg := by
  induction params generalizing entries with
  | nil => cases h
  | cons y params ih =>
      cases entries with
      | nil => cases h
      | cons b entries =>
          simp only [List.map_cons, List.cons.injEq] at hnames
          obtain ⟨hname, hnames⟩ := hnames
          rw [List.map_cons, List.nodup_cons] at hnodup
          obtain ⟨hfresh, hnodup⟩ := hnodup
          rw [List.zip_cons_cons, List.mem_cons] at h
          rcases h with h | h
          · cases h
            exact List.find?_cons_of_pos (by simpa using hname)
          · have hne : b.name ≠ x.name := by
              intro heq
              have hx : x.name ∈ params.map Param.name :=
                List.mem_map_of_mem (List.of_mem_zip h).1
              rw [hname] at heq
              exact hfresh (heq ▸ hx)
            rw [List.find?_cons_of_neg (by simpa using hne)]
            exact ih hnames hnodup h

theorem exists_mem_zip {params : List Param} {entries : List BoundArg}
    (hnames : entries.map BoundArg.name = params.map Param.name) {x : Param} (hx : x ∈ params) :
    ∃ arg, (x, arg) ∈ params.zip entries := by
  induction params generalizing entries with
  | nil => cases hx
  | cons y params ih =>
      cases entries with
      | nil => cases hnames
      | cons b entries =>
          simp only [List.map_cons, List.cons.injEq] at hnames
          rcases List.mem_cons.mp hx with rfl | hx
          · exact ⟨b, by simp⟩
          · obtain ⟨arg, harg⟩ := ih hnames.2 hx
            exact ⟨arg, by simp [harg]⟩

end GuardedObjects
