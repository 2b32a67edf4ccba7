import GuardedObjects.Proofs.Registry.Linked
import GuardedObjects.Proofs.Run.Trace

/-!
# Executions are runs

Whatever an action does when it is executed is a run in the sense of `Program.Run`, the one that its
trace records.
-/

namespace GuardedObjects

namespace Program

variable {p : Program}

/-- Whatever an action does that is executed in an active frame is a run, however deep its
invocations may nest. -/
theorem run_of_runAction {α : Type} {depth : Nat} {frame : Frame} {action : Action α}
    {s : RunState} (hframe : frame ∈ s.frames) {a : α} {w : World}
    (h : p.runAction depth frame action s.world = some (a, w)) :
    ∃ es, p.Run s es ⟨w, s.stack⟩ := by
  rw [← outcome_trace] at h
  obtain ⟨t, ht, heq⟩ := Option.map_eq_some_iff.mp h
  cases heq
  have hc : (action.within frame).MadeIn s.frames := by
    refine (action.madeIn_within frame).mono ?_
    simpa using hframe
  exact ⟨t.events, run_of_trace hc ht⟩

/-! ### A run -/

/-- A request for a vault, and how far the vault program is when it is answered. -/
def vaultRequest : Request := .instantiate "Vault" { positional := [.int 7] }

def vaultMade : Option (Reply × World) := vault.runAction 2 Frame.main (.request vaultRequest) ∅

def vaultWorld : World := (vaultMade.map Prod.snd).getD ∅

/-- The vault in it. -/
def vaultRef : ObjectRef := ⟨.stored 0, ["Vault"]⟩

theorem run_vault : ∃ es, vault.Run {} es ⟨vaultWorld, []⟩ := by
  have hsome : vaultMade.isSome = true := by cbv
  obtain ⟨⟨reply, w⟩, h⟩ := Option.isSome_iff_exists.mp hsome
  have hw : vaultWorld = w := by simp [vaultWorld, h]
  rw [hw]
  exact run_of_runAction (s := {}) (by simp [RunState.frames]) h

end Program

end GuardedObjects
