import GuardedObjects.Proofs.Class.Lineage
import GuardedObjects.Proofs.Mediation
import GuardedObjects.Proofs.Registry.Linked
import GuardedObjects.Proofs.Run.Basic

/-!
# Running bodies

At every moment of a run the running bodies are those of declared callables, each in the frame
that it was entered with.
-/

namespace GuardedObjects

namespace Program

variable {p : Program}

/-- The callable is a method of a class or a function of the program. -/
def Declares (p : Program) (m : Callable) : Prop :=
  (∃ c ∈ p.classes.classes, ∃ name, c.method? name = some m) ∨ m ∈ p.functions

theorem Linked.accepted (hp : p.Linked) {m : Callable} (h : p.Declares m) :
    m.Accepted p.mode m.name m.owner := by
  rcases h with ⟨c, hc, name, hm⟩ | hf
  · have hacc := hp.allAccepted.methods c hc name m hm
    rw [hacc.name_eq, hacc.owner_eq]
    exact hacc
  · have hacc := hp.allAccepted.functions m hf
    rw [hacc.owner_eq]
    exact hacc

theorem Linked.accepted_of_mem_lineage (hp : p.Linked) {c k : ClassInfo}
    (hc : p.classes.find? c.name = some c) (hk : k ∈ p.classes.lineage c) {name : String}
    {m : Callable} (hm : k.method? name = some m) : m.Accepted p.mode name (some k.name) :=
  hp.allAccepted.methods k (ClassTable.mem_classes_of_mem_lineage hc hk) name m hm

theorem Linked.method_of_owner (hp : p.Linked) {m : Callable} (h : p.Declares m) {owner : String}
    (ho : m.owner = some owner) :
    ∃ c ∈ p.classes.classes, c.name = owner ∧ c.method? m.name = some m := by
  rcases h with ⟨c, hc, name, hm⟩ | hf
  · have hacc := hp.allAccepted.methods c hc name m hm
    have howner := hacc.owner_eq.symm.trans ho
    refine ⟨c, hc, by simpa using howner, ?_⟩
    rw [hacc.name_eq]
    exact hm
  · have hacc := hp.allAccepted.functions m hf
    rw [hacc.owner_eq] at ho
    cases ho

theorem find?_of_subject? {frame : Frame} {q : Request} {c : ClassInfo} {member : String}
    (h : p.subject? frame q = some (c, member)) : p.classes.find? c.name = some c := by
  have hfind : ∃ name, p.classes.find? name = some c := by
    cases q with
    | get _ _ | set _ _ _ | call _ _ _ | getSelf _ | setSelf _ _ | callSelf _ _ | callSuper _ _ =>
        obtain ⟨c', hc, heq⟩ := Option.map_eq_some_iff.mp h
        cases heq
        obtain ⟨_, _, hc⟩ := Option.bind_eq_some_iff.mp hc
        exact ⟨_, hc⟩
    | callStatic _ _ _ =>
        obtain ⟨c', hc, heq⟩ := Option.map_eq_some_iff.mp h
        cases heq
        exact ⟨_, hc⟩
    | _ => cases h
  obtain ⟨name, hname⟩ := hfind
  exact ClassTable.find?_name hname

theorem Answers.declares {frame : Frame} {q : Request} {w : World} {i : Invocation}
    (h : p.Answers frame q w (.invoke i)) : p.Declares i.callable := by
  cases h with
  | member hs _ hm =>
      have hc := find?_of_subject? hs
      obtain ⟨k, hk, hm, -⟩ := ClassTable.method_of_methodAt? hc hm
      exact .inl ⟨k, ClassTable.mem_classes_of_mem_lineage hc hk, _, hm⟩
  | super _ hs hk hm _ =>
      have hc := find?_of_subject? hs
      exact .inl ⟨_, ClassTable.mem_classes_of_mem_lineage hc hk, _, hm⟩
  | function _ hf => exact .inr (List.mem_of_find?_eq_some hf)
  | constructor _ hc hm =>
      obtain ⟨k, hk, hm⟩ := List.exists_of_findSome?_eq_some hm
      have hk := ClassTable.mem_classes_of_mem_lineage (ClassTable.find?_name hc) hk
      exact .inl ⟨k, hk, _, hm⟩

theorem enter_eq_ok {i : Invocation} {frame : Frame} {body : Body}
    (h : p.enter i = .ok (frame, body)) :
    ∃ bound, bindArgs i.callable.params i.args = .ok bound ∧
      p.checked i.callable (argumentFault? i.callable bound) = .ok () ∧
      frame = { caller := i.callable.caller i.receiver, receiver := i.receiver, args := bound } := by
  obtain ⟨bound, hbound, h⟩ := bind_eq_ok_iff.mp h
  obtain ⟨_, hchecked, h⟩ := bind_eq_ok_iff.mp h
  refine ⟨bound, mapError_eq_ok_iff.mp hbound, hchecked, ?_⟩
  split at h
  · cases h
  · cases h
    rfl

end Program

/-! ### Activations -/

/-- The body of a declared callable runs in the frame that the callable was entered with. -/
structure Activation.Entered (p : Program) (a : Activation) : Prop where
  declared : p.Declares a.callable
  entered : ∃ body, p.enter a.invocation = .ok (a.frame, body)

namespace Activation.Entered

variable {p : Program} {a : Activation}

theorem caller_eq (h : a.Entered p) : a.frame.caller = a.callable.caller a.frame.receiver := by
  obtain ⟨body, hbody⟩ := h.entered
  obtain ⟨bound, -, -, hframe⟩ := Program.enter_eq_ok hbody
  rw [hframe]
  rfl

theorem receiver_eq (h : a.Entered p) : a.frame.receiver = a.invocation.receiver := by
  obtain ⟨body, hbody⟩ := h.entered
  obtain ⟨bound, -, -, hframe⟩ := Program.enter_eq_ok hbody
  rw [hframe]

theorem declaring?_eq (h : a.Entered p) : a.frame.caller.declaring? = a.callable.owner := by
  rw [h.caller_eq, Callable.caller]
  split
  · rename_i owner ho
    rw [ho]
    rfl
  · rename_i ho
    rw [ho]
    rfl

theorem name_eq (h : a.Entered p) : a.frame.caller.name = a.callable.name := by
  rw [h.caller_eq, Callable.caller]
  split <;> rfl

theorem owner_of_isFunction (h : a.Entered p) (hf : a.frame.caller.isFunction = true) :
    a.callable.owner = none := by
  rw [h.caller_eq, Callable.caller] at hf
  split at hf
  · cases hf
  · assumption

theorem receiver?_eq (h : a.Entered p) :
    a.frame.caller.receiver? = a.callable.owner.bind fun _ => a.frame.receiver.className? := by
  rw [h.caller_eq, Callable.caller]
  split
  · rename_i owner ho
    rw [ho]
    rfl
  · rename_i ho
    rw [ho]
    rfl

theorem receiver_of_receiver? (h : a.Entered p) {cls : String}
    (hr : a.frame.caller.receiver? = some cls) : a.frame.receiver.className? = some cls := by
  rw [h.receiver?_eq] at hr
  obtain ⟨_, _, hr⟩ := Option.bind_eq_some_iff.mp hr
  exact hr

theorem ne_reflection (h : a.Entered p) : a.frame.caller ≠ .reflection := by
  rw [h.caller_eq, Callable.caller]
  split <;> exact Caller.noConfusion

end Activation.Entered

namespace Program

variable {p : Program}

def AllEntered (p : Program) (s : RunState) : Prop := ∀ a ∈ s.stack, a.Entered p

theorem Step.allEntered {s t : RunState} {e : Event} (hs : p.AllEntered s) (h : p.Step s e t) :
    p.AllEntered t := by
  cases h with
  | answer | refuse | reject => exact hs
  | start _ hq hentered =>
      intro a ha
      rcases List.mem_cons.mp ha with rfl | ha
      · exact ⟨(answers hq).declares, _, hentered⟩
      · exact hs a ha
  | finish | fail => exact fun a ha => hs a (List.mem_cons_of_mem _ ha)

theorem Run.allEntered {es : List Event} {s : RunState} (h : p.Run {} es s) : p.AllEntered s :=
  h.invariant Step.allEntered (by simp [AllEntered])

end Program

end GuardedObjects
