import GuardedObjects.Proofs.Call.Binding
import GuardedObjects.Proofs.Run.Activation
import GuardedObjects.Proofs.Run.Execution

/-!
# The call boundary

In an enforced program a body starts only with arguments of the declared types, and an invocation
gives only a result of the declared type. The hooks of attribute access are exempt.
-/

namespace GuardedObjects

namespace Program

variable {p : Program} {m : Callable} {bound : BoundArgs}

def Binds (bound : BoundArgs) (x : Param) : Prop :=
  ∃ ty v, x.type = some ty ∧ bound.find? x.name = some v ∧ ty.admits v = true

/-- The regular parameter `x` is bound to a value that is not of its type. -/
def Misbinds (bound : BoundArgs) (x : Param) : Prop :=
  ∃ ty v, x.type = some ty ∧ bound.find? x.name = some v ∧ ty.admits v = false

theorem argumentFault?_eq_none (h : argumentFault? m bound = none) {x : Param} {arg : BoundArg}
    (hx : (x, arg) ∈ m.params.zip bound.entries) (hk : x.kind = .regular) {ty : Ty}
    (hty : x.type = some ty) : ty.admits arg.value = true := by
  rw [argumentFault?, List.findSome?_eq_none_iff] at h
  have hfault := h _ hx
  simp only [hk, hty] at hfault
  split at hfault
  · assumption
  · cases hfault

theorem checked_eq_ok (hmode : p.mode = .enforced) (hm : m.name ∉ attributeHooks)
    {fault : Option Fault} (h : p.checked m fault = .ok ()) : fault = none := by
  have hchecked : m.isChecked p.mode = true := by
    simp [Callable.isChecked, hmode, hm]
  cases fault with
  | none => rfl
  | some fault =>
      rw [checked, if_pos hchecked] at h
      cases h

theorem binds_of_checked (hmode : p.mode = .enforced) (hm : m.name ∉ attributeHooks)
    (hnodup : (m.params.map Param.name).Nodup) (htyped : m.IsTyped) {args : Arguments}
    (hbound : bindArgs m.params args = .ok bound)
    (h : p.checked m (argumentFault? m bound) = .ok ()) {x : Param} (hx : x ∈ m.params)
    (hk : x.kind = .regular) : Binds bound x := by
  have hnames := names_bindArgs hbound
  obtain ⟨arg, harg⟩ := exists_mem_zip hnames hx
  obtain ⟨ty, hty⟩ := Option.isSome_iff_exists.mp (htyped.params x hx hk)
  have hnone := checked_eq_ok hmode hm h
  refine ⟨ty, arg.value, hty, ?_, argumentFault?_eq_none hnone harg hk hty⟩
  rw [BoundArgs.find?, find?_of_mem_zip hnames hnodup harg]
  rfl

theorem enter_eq_error (hmode : p.mode = .enforced) {i : Invocation}
    (hnodup : (i.callable.params.map Param.name).Nodup)
    (h : (∃ problem, bindArgs i.callable.params i.args = .error problem) ∨
      i.callable.name ∉ attributeHooks ∧
        ∃ bound, bindArgs i.callable.params i.args = .ok bound ∧
          ∃ x ∈ i.callable.params, x.kind = .regular ∧ Misbinds bound x) :
    ∃ fault, p.enter i = .error fault := by
  cases henter : p.enter i with
  | error fault => exact ⟨fault, rfl⟩
  | ok entry =>
      obtain ⟨frame, body⟩ := entry
      obtain ⟨bound, hbound, hchecked, -⟩ := enter_eq_ok henter
      rcases h with ⟨problem, hproblem⟩ | ⟨hm, bound', hbound', x, hx, hk, ty, v, hty, hv, hadmits⟩
      · rw [hbound] at hproblem
        cases hproblem
      · rw [hbound] at hbound'
        cases hbound'
        have hnames := names_bindArgs hbound
        obtain ⟨arg, harg⟩ := exists_mem_zip hnames hx
        have hfind := find?_of_mem_zip hnames hnodup harg
        have hadmits' := argumentFault?_eq_none (checked_eq_ok hmode hm hchecked) harg hk hty
        rw [BoundArgs.find?, hfind] at hv
        cases hv
        rw [hadmits] at hadmits'
        cases hadmits'

theorem objects_of_mediate {frame : Frame} {q : Request} {w w' : World} {i : Invocation}
    (h : p.mediate frame q w = (.ok (.invoke i), w')) :
    w'.objects = w.objects ∨ ∃ lineage, w'.objects = w.objects.push { lineage } := by
  cases mediated h with
  | kept hkept => exact .inl hkept
  | allocated => exact .inr ⟨_, rfl⟩

theorem Step.binds (hp : p.Linked) (hmode : p.mode = .enforced) {s t : RunState} {frame : Frame}
    {q : Request} {a : Activation} (hs : p.AllEntered s) (h : p.Step s (.started frame q a) t)
    (hm : a.callable.name ∉ attributeHooks) {x : Param} (hx : x ∈ a.callable.params)
    (hk : x.kind = .regular) : Binds a.frame.args x := by
  have hentered : a.Entered p := by
    have ht := h.allEntered hs
    cases h with
    | start => exact ht _ (by simp)
  have hacc := hp.accepted hentered.declared
  obtain ⟨body, hbody⟩ := hentered.entered
  obtain ⟨bound, hbound, hchecked, hframe⟩ := enter_eq_ok hbody
  rw [hframe]
  exact binds_of_checked hmode hm hacc.nodup_params (hacc.typed hmode) hbound hchecked hx hk

theorem Step.returns (hp : p.Linked) (hmode : p.mode = .enforced) {s t : RunState}
    {a : Activation} {v : Value} (hs : p.AllEntered s) (h : p.Step s (.ended a (.ok v)) t)
    (hm : a.callable.name ∉ attributeHooks) :
    ∃ ty, a.callable.returns = some ty ∧ ty.admits v = true := by
  cases h with
  | finish hchecked =>
      have hacc := hp.accepted (hs a (by simp)).declared
      obtain ⟨ty, hty⟩ := Option.isSome_iff_exists.mp (hacc.typed hmode).returns
      have hnone := checked_eq_ok hmode hm hchecked
      simp only [resultFault?, hty] at hnone
      split at hnone
      · rename_i hadmits
        exact ⟨ty, hty, hadmits⟩
      · cases hnone

/-- Over any run of an enforced program, every body that starts has for each regular parameter a
declared type and an argument of that type, and every invocation that gives a value has a declared
type for it that admits the value. An invocation whose arguments cannot be bound or are not of
their types ends in a fault before its body runs, and no object has changed. -/
theorem Run.boundary_sound (hp : p.Linked) (hmode : p.mode = .enforced) {es : List Event}
    {s : RunState} (h : p.Run {} es s) :
    (∀ frame q a, .started frame q a ∈ es → a.callable.name ∉ attributeHooks →
      ∀ x ∈ a.callable.params, x.kind = .regular →
        ∃ ty v, x.type = some ty ∧ a.frame.arg x.name = .ok v ∧ ty.admits v = true) ∧
      (∀ a v, .ended a (.ok v) ∈ es → a.callable.name ∉ attributeHooks →
        ∃ ty, a.callable.returns = some ty ∧ ty.admits v = true) ∧
      ∀ frame q i w, p.mediate frame q s.world = (.ok (.invoke i), w) →
        ((∃ problem, bindArgs i.callable.params i.args = .error problem) ∨
          i.callable.name ∉ attributeHooks ∧
            ∃ bound, bindArgs i.callable.params i.args = .ok bound ∧
              ∃ x ∈ i.callable.params, x.kind = .regular ∧ Misbinds bound x) →
        (∃ fault, ∀ run, p.serve run frame q s.world = some (.error fault, w)) ∧
          (w.objects = s.world.objects ∨
            ∃ lineage, w.objects = s.world.objects.push { lineage }) := by
  refine ⟨?_, ?_, ?_⟩
  · intro frame q a he hm x hx hk
    obtain ⟨before, after, u, t, -, hrun, hst⟩ := h.split_of_mem he
    obtain ⟨ty, v, hty, hv, hadmits⟩ := hst.binds hp hmode hrun.allEntered hm hx hk
    refine ⟨ty, v, hty, ?_, hadmits⟩
    rw [Frame.arg, hv]
  · intro a v he hm
    obtain ⟨before, after, u, t, -, hrun, hst⟩ := h.split_of_mem he
    exact hst.returns hp hmode hrun.allEntered hm
  · intro frame q i w hq hbad
    have hacc := hp.accepted (answers hq).declares
    obtain ⟨fault, hfault⟩ := enter_eq_error hmode hacc.nodup_params hbad
    refine ⟨⟨fault, ?_⟩, objects_of_mediate hq⟩
    intro run
    simp only [serve, hq, invoke_apply, hfault]

/-- The constructor of a vault while it runs. -/
def vaultInit : Activation where
  invocation :=
    { callable :=
        { name := constructorName
          owner := some "Vault"
          kind := .method
          params := [{ name := "code", type := some (.primitive .int) }]
          returns := some .noValue
          body := some vaultKeeps }
      receiver := .object vaultRef
      args := { positional := [.int 7] }
      ending := .object vaultRef }
  frame :=
    { caller := .method "Vault" constructorName (some "Vault")
      receiver := .object vaultRef
      args := ⟨[⟨"code", .regular, .int 7⟩]⟩ }

theorem Run.boundary_sound_vault :
    ∃ w v, vault.Run {} [.started .main vaultRequest vaultInit] ⟨w, [vaultInit]⟩ ∧
      vaultInit.frame.arg "code" = .ok v ∧ (Ty.primitive .int).admits v = true ∧
      ∃ fault w', ∀ run, vault.serve run vaultInit.frame (.instantiate "Vault" {}) w =
        some (.error fault, w') := by
  have hm : vault.mediate .main vaultRequest ∅ =
      (.ok (.invoke vaultInit.invocation), (World.allocate ∅ ["Vault"]).2) := by cbv
  have he : vault.enter vaultInit.invocation = .ok (vaultInit.frame, vaultKeeps) := by cbv
  have hrun := Run.single (.start (s := {}) (by simp [RunState.frames]) hm he)
  obtain ⟨hbinds, -, hrejects⟩ := Run.boundary_sound linked_vault mode_vault hrun
  have hname : vaultInit.callable.name ∉ attributeHooks := by decide
  obtain ⟨ty, v, hty, hv, hadmits⟩ :=
    hbinds .main vaultRequest vaultInit (List.mem_singleton_self _) hname _
      (List.mem_singleton_self _) rfl
  cases hty
  have hagain : vault.mediate vaultInit.frame (.instantiate "Vault" {})
      (World.allocate ∅ ["Vault"]).2 =
        (.ok (.invoke { vaultInit.invocation with
          receiver := .object ⟨.stored 1, ["Vault"]⟩
          args := {}
          ending := .object ⟨.stored 1, ["Vault"]⟩ }),
          ((World.allocate ∅ ["Vault"]).2.allocate ["Vault"]).2) := by cbv
  obtain ⟨⟨fault, hfault⟩, -⟩ := hrejects _ _ _ _ hagain (.inl ⟨.missing "code", by cbv⟩)
  exact ⟨_, v, hrun, hv, hadmits, fault, _, hfault⟩

end Program

end GuardedObjects
