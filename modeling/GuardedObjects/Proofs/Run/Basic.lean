import GuardedObjects.Program.Run

/-!
# Runs

A program is run by what its active frames ask for and by how the running bodies end. Nothing ties
a body to a script here: at any time any active frame may make any request, and the innermost body
may end with any result. What holds of every run therefore holds whatever bodies do and in
whatever order, also in runs that never end.
-/

namespace GuardedObjects

/-- An invocation whose body is running, with the frame of the body. -/
structure Activation where
  invocation : Invocation
  frame : Frame

namespace Activation

def callable (a : Activation) : Callable := a.invocation.callable

end Activation

/-- A moment of a run. -/
structure RunState where
  world : World := ∅
  /-- The running bodies, the innermost first. -/
  stack : List Activation := []

/-- The frames that may make requests. The two frames that belong to no callable always may. -/
def RunState.frames (s : RunState) : List Frame :=
  Frame.main :: Frame.reflect :: s.stack.map Activation.frame

theorem RunState.mem_frames_iff {s : RunState} {frame : Frame} :
    frame ∈ s.frames ↔
      frame = .main ∨ frame = .reflect ∨ ∃ a ∈ s.stack, a.frame = frame := by
  simp [frames]

/-- What happens at one step of a run. -/
inductive Event where
  | answered (frame : Frame) (request : Request) (origin : Origin) (v : Value)
  | refused (frame : Frame) (request : Request) (fault : Fault)
  /-- The request came to an invocation whose body did not run. -/
  | rejected (frame : Frame) (request : Request) (invocation : Invocation) (fault : Fault)
  | started (frame : Frame) (request : Request) (activation : Activation)
  /-- The invocation gave a value or raised a fault. -/
  | ended (activation : Activation) (result : Reply)

namespace Program

variable (p : Program)

/-- One step of a run. -/
inductive Step : RunState → Event → RunState → Prop
  | answer {s : RunState} {frame : Frame} {q : Request} {origin : Origin} {v : Value} {w : World} :
      frame ∈ s.frames → p.mediate frame q s.world = (.ok (.value origin v), w) →
      Step s (.answered frame q origin v) ⟨w, s.stack⟩
  | refuse {s : RunState} {frame : Frame} {q : Request} {fault : Fault} {w : World} :
      frame ∈ s.frames → p.mediate frame q s.world = (.error fault, w) →
      Step s (.refused frame q fault) ⟨w, s.stack⟩
  | reject {s : RunState} {frame : Frame} {q : Request} {i : Invocation} {fault : Fault}
      {w : World} :
      frame ∈ s.frames → p.mediate frame q s.world = (.ok (.invoke i), w) →
      p.enter i = .error fault → Step s (.rejected frame q i fault) ⟨w, s.stack⟩
  | start {s : RunState} {frame inner : Frame} {q : Request} {i : Invocation} {body : Body}
      {w : World} :
      frame ∈ s.frames → p.mediate frame q s.world = (.ok (.invoke i), w) →
      p.enter i = .ok (inner, body) →
      Step s (.started frame q ⟨i, inner⟩) ⟨w, ⟨i, inner⟩ :: s.stack⟩
  | finish {w : World} {a : Activation} {stack : List Activation} {v : Value} :
      p.checked a.callable (resultFault? a.callable v) = .ok () →
      Step ⟨w, a :: stack⟩ (.ended a (.ok v)) ⟨(a.invocation.conclude v w).2, stack⟩
  /-- The body raised the fault, or its result was not of the declared type. -/
  | fail {w : World} {a : Activation} {stack : List Activation} (fault : Fault) :
      Step ⟨w, a :: stack⟩ (.ended a (.error fault)) ⟨w, stack⟩

/-- The runs from one moment to another, with what happened in between. -/
inductive Run (s : RunState) : List Event → RunState → Prop
  | nil : Run s [] s
  | snoc {es : List Event} {t u : RunState} {e : Event} :
      Run s es t → Step p t e u → Run s (es ++ [e]) u

variable {p}

theorem Step.started_of_mem {s t : RunState} {e : Event} (h : p.Step s e t) {a : Activation}
    (ha : a ∈ t.stack) : a ∈ s.stack ∨ ∃ frame q, e = .started frame q a := by
  cases h with
  | answer | refuse | reject => exact .inl ha
  | start =>
      rcases List.mem_cons.mp ha with rfl | ha
      · exact .inr ⟨_, _, rfl⟩
      · exact .inl ha
  | finish | fail => exact .inl (List.mem_cons_of_mem _ ha)

namespace Run

variable {s t u : RunState} {es fs : List Event}

theorem single {e : Event} (h : p.Step s e t) : p.Run s [e] t := by
  simpa using (nil (p := p) (s := s)).snoc h

theorem append (h : p.Run s es t) (h' : p.Run t fs u) : p.Run s (es ++ fs) u := by
  induction h' with
  | nil => simpa using h
  | snoc _ hstep ih =>
      rw [← List.append_assoc]
      exact ih.snoc hstep

theorem invariant {I : RunState → Prop} (hstep : ∀ {s e t}, I s → p.Step s e t → I t)
    (h : p.Run s es t) (hs : I s) : I t := by
  induction h with
  | nil => exact hs
  | snoc _ hst ih => exact hstep ih hst

/-- A body is running only if a request has started it. -/
theorem exists_started (h : p.Run {} es s) {a : Activation} (ha : a ∈ s.stack) :
    ∃ frame q, .started frame q a ∈ es := by
  induction h with
  | nil => cases ha
  | snoc _ hst ih =>
      rcases hst.started_of_mem ha with ha | ⟨frame, q, rfl⟩
      · obtain ⟨frame, q, hmem⟩ := ih ha
        exact ⟨frame, q, List.mem_append_left _ hmem⟩
      · exact ⟨frame, q, List.mem_append_right _ (List.mem_singleton_self _)⟩

/-- Every event of a run is a step between two moments of it. -/
theorem split_of_mem (h : p.Run s es t) {e : Event} (he : e ∈ es) :
    ∃ before after u v, es = before ++ e :: after ∧ p.Run s before u ∧ p.Step u e v := by
  induction h with
  | nil => simp at he
  | @snoc es t u f hrun hst ih =>
      rcases List.mem_append.mp he with he | he
      · obtain ⟨before, after, v, w, rfl, hbefore, hstep⟩ := ih he
        exact ⟨before, after ++ [f], v, w, by simp, hbefore, hstep⟩
      · rw [List.mem_singleton] at he
        subst he
        exact ⟨es, [], t, u, rfl, hrun, hst⟩

end Run

end Program

end GuardedObjects
