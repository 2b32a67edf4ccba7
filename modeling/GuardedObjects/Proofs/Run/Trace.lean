import GuardedObjects.Proofs.Run.Basic

/-!
# Traces

`Program.trace` executes a conversation as `Program.exec` executes a body, and keeps what happens in
the order in which it happens. A conversation is an action that may change its frame from one
request to the next, as the code does that hosts a program.
-/

namespace GuardedObjects

inductive Conversation (α : Type) where
  | done (a : α)
  | ask (frame : Frame) (request : Request) (next : Reply → Conversation α)

def Action.within {α : Type} (frame : Frame) : Action α → Conversation α
  | .done a => .done a
  | .ask request next => .ask frame request fun reply => (next reply).within frame

namespace Conversation

variable {α : Type} {frames frames' : List Frame}

/-- Every request of the conversation is made in one of the frames. -/
def MadeIn (frames : List Frame) : Conversation α → Prop
  | .done _ => True
  | .ask frame _ next => frame ∈ frames ∧ ∀ reply, (next reply).MadeIn frames

theorem MadeIn.mono {c : Conversation α} (h : c.MadeIn frames) (hsub : frames ⊆ frames') :
    c.MadeIn frames' := by
  induction c with
  | done a => trivial
  | ask frame q next ih => exact ⟨hsub h.1, fun reply => ih reply (h.2 reply)⟩

end Conversation

theorem Action.madeIn_within {α : Type} (frame : Frame) (action : Action α) :
    (action.within frame).MadeIn [frame] := by
  induction action with
  | done a => trivial
  | ask q next ih => exact ⟨List.mem_singleton_self _, ih⟩

/-- What an execution gives, what has happened in it, and the world after it. -/
structure Trace (α : Type) where
  value : α
  events : List Event
  world : World

namespace Trace

variable {α β : Type}

/-- The outcome of the execution, without the events. -/
def outcome (t : Trace α) : α × World := (t.value, t.world)

def after (es : List Event) (t : Trace α) : Trace α := { t with events := es ++ t.events }

@[simp] theorem outcome_after (es : List Event) (t : Trace α) :
    (t.after es).outcome = t.outcome := rfl

end Trace

def Conversation.trace {α : Type} (serve : Frame → Request → World → Option (Trace Reply)) :
    Conversation α → World → Option (Trace α)
  | .done a, w => some ⟨a, [], w⟩
  | .ask frame request next, w =>
    match serve frame request w with
    | none => none
    | some t => ((next t.value).trace serve t.world).map (Trace.after t.events)

namespace Program

/-- How an activation ends whose body has given a reply. -/
def traceEnd (p : Program) (a : Activation) (t : Trace Reply) : Trace Reply :=
  match t.value with
  | .error fault => ⟨.error fault, t.events ++ [.ended a (.error fault)], t.world⟩
  | .ok v =>
    match p.checked a.callable (resultFault? a.callable v) with
    | .error fault => ⟨.error fault, t.events ++ [.ended a (.error fault)], t.world⟩
    | .ok () =>
      let (v', w) := a.invocation.conclude v t.world
      ⟨.ok v', t.events ++ [.ended a (.ok v)], w⟩

def traceRequest (p : Program) (run : Frame → Action Reply → World → Option (Trace Reply))
    (frame : Frame) (q : Request) (w : World) : Option (Trace Reply) :=
  match p.mediate frame q w with
  | (.error fault, w) => some ⟨.error fault, [.refused frame q fault], w⟩
  | (.ok (.value origin v), w) => some ⟨.ok v, [.answered frame q origin v], w⟩
  | (.ok (.invoke i), w) =>
    match p.enter i with
    | .error fault => some ⟨.error fault, [.rejected frame q i fault], w⟩
    | .ok (inner, body) =>
      (run inner (body inner) w).map fun t =>
        (p.traceEnd ⟨i, inner⟩ t).after [.started frame q ⟨i, inner⟩]

def traceBody (p : Program) : Nat → Frame → Action Reply → World → Option (Trace Reply)
  | 0, _, _ => fun _ => none
  | depth + 1, frame, action => (action.within frame).trace (p.traceRequest (p.traceBody depth))

/-- Executes a conversation with invocations nested at most `depth` deep. -/
def trace {α : Type} (p : Program) (depth : Nat) (c : Conversation α) : World → Option (Trace α) :=
  c.trace (p.traceRequest (p.traceBody depth))

variable {p : Program}

/-! ### Traces and executions -/

theorem invoke_apply (run : BodyRunner) (i : Invocation) (w : World) :
    p.invoke run i w =
      match p.enter i with
      | .error fault => some (.error fault, w)
      | .ok (frame, body) =>
        match run frame (body frame) w with
        | none => none
        | some (.error fault, w) => some (.error fault, w)
        | some (.ok v, w) =>
          match p.checked i.callable (resultFault? i.callable v) with
          | .error fault => some (.error fault, w)
          | .ok () => some (.ok (i.conclude v w).1, (i.conclude v w).2) := by
  simp only [invoke, Exec.bind_apply, Exec.liftExcept_apply]
  cases p.enter i with
  | error fault => rfl
  | ok entry =>
      rcases h : run entry.1 (entry.2 entry.1) w with _ | ⟨_ | v, w'⟩
      · simp only [h]
      · simp only [h]
      · simp only [h]
        cases p.checked i.callable (resultFault? i.callable v) <;> rfl

theorem outcome_traceRequest {run : Frame → Action Reply → World → Option (Trace Reply)}
    {exec : BodyRunner}
    (hrun : ∀ frame action w, (run frame action w).map Trace.outcome = exec frame action w)
    (frame : Frame) (q : Request) (w : World) :
    (p.traceRequest run frame q w).map Trace.outcome = p.serve exec frame q w := by
  unfold traceRequest serve
  rcases p.mediate frame q w with ⟨fault | ⟨origin, v⟩ | i, w₁⟩
  · rfl
  · rfl
  · simp only [invoke_apply]
    rcases p.enter i with fault | ⟨inner, body⟩
    · rfl
    · simp only [← hrun]
      cases run inner (body inner) w₁ with
      | none => rfl
      | some t =>
          obtain ⟨fault | v, es, w₂⟩ := t
          · rfl
          · simp only [Option.map_some, Trace.outcome_after, traceEnd, Activation.callable]
            simp only [Trace.outcome]
            cases p.checked i.callable (resultFault? i.callable v) <;> rfl

theorem outcome_traceWithin {α : Type} {serve : Frame → Request → World → Option (Trace Reply)}
    {frame : Frame} {exec : Request → Exec Value}
    (hserve : ∀ q w, (serve frame q w).map Trace.outcome = exec q w) (action : Action α)
    (w : World) :
    ((action.within frame).trace serve w).map Trace.outcome = action.run exec w := by
  induction action generalizing w with
  | done a => rfl
  | ask q next ih =>
      have hq := hserve q w
      simp only [Action.within, Conversation.trace, Action.run]
      rw [← hq]
      cases serve frame q w with
      | none => rfl
      | some t =>
          simp only [Option.map_some, Trace.outcome]
          rw [← ih t.value t.world, Option.map_map]
          rfl

theorem outcome_traceBody (depth : Nat) (frame : Frame) (action : Action Reply) (w : World) :
    (p.traceBody depth frame action w).map Trace.outcome = p.exec depth frame action w := by
  induction depth generalizing frame action w with
  | zero => rfl
  | succ depth ih => exact outcome_traceWithin (outcome_traceRequest ih frame) action w

/-- A trace gives what the execution gives that it is the trace of. -/
theorem outcome_trace {α : Type} (depth : Nat) (frame : Frame) (action : Action α) (w : World) :
    (p.trace depth (action.within frame) w).map Trace.outcome =
      p.runAction depth frame action w :=
  outcome_traceWithin (outcome_traceRequest (outcome_traceBody depth) frame) action w

/-! ### Traces and runs -/

/-- What happens in a body that is traced is a run of its frame. -/
def TracesRuns (p : Program) (run : Frame → Action Reply → World → Option (Trace Reply)) : Prop :=
  ∀ (a : Activation) (action : Action Reply) (w : World) (t : Trace Reply)
    (stack : List Activation), run a.frame action w = some t →
    p.Run ⟨w, a :: stack⟩ t.events ⟨t.world, a :: stack⟩

theorem mem_events_traceEnd {a : Activation} {t : Trace Reply} {e : Event} (he : e ∈ t.events) :
    e ∈ (p.traceEnd a t).events := by
  unfold traceEnd
  split
  · exact List.mem_append_left _ he
  · split <;> exact List.mem_append_left _ he

theorem run_of_traceEnd {s : RunState} {a : Activation} {t : Trace Reply}
    {stack : List Activation} (h : p.Run s t.events ⟨t.world, a :: stack⟩) :
    p.Run s (p.traceEnd a t).events ⟨(p.traceEnd a t).world, stack⟩ := by
  unfold traceEnd
  split
  · exact h.snoc (.fail _)
  · split
    · exact h.snoc (.fail _)
    · rename_i hchecked
      exact h.snoc (.finish hchecked)

theorem TracesRuns.traceRequest {run : Frame → Action Reply → World → Option (Trace Reply)}
    (hrun : p.TracesRuns run) {s : RunState} {frame : Frame} (hframe : frame ∈ s.frames)
    {q : Request} {t : Trace Reply} (h : p.traceRequest run frame q s.world = some t) :
    p.Run s t.events ⟨t.world, s.stack⟩ := by
  unfold Program.traceRequest at h
  rcases hm : p.mediate frame q s.world with ⟨fault | ⟨origin, v⟩ | i, w⟩
  · simp only [hm, Option.some.injEq] at h
    subst h
    exact .single (.refuse hframe hm)
  · simp only [hm, Option.some.injEq] at h
    subst h
    exact .single (.answer hframe hm)
  · simp only [hm] at h
    rcases he : p.enter i with fault | ⟨inner, body⟩
    · simp only [he, Option.some.injEq] at h
      subst h
      exact .single (.reject hframe hm he)
    · simp only [he] at h
      obtain ⟨u, hu, rfl⟩ := Option.map_eq_some_iff.mp h
      have hstart := Run.single (.start hframe hm he)
      have hbody := hrun ⟨i, inner⟩ _ _ _ s.stack hu
      have hend := run_of_traceEnd hbody
      exact hstart.append hend

theorem run_of_conversation {α : Type} {frames : List Frame}
    {serve : Frame → Request → World → Option (Trace Reply)} {stack : List Activation}
    (hserve : ∀ {frame q w t}, frame ∈ frames → serve frame q w = some t →
      p.Run ⟨w, stack⟩ t.events ⟨t.world, stack⟩)
    (c : Conversation α) (hc : c.MadeIn frames) {w : World} {t : Trace α}
    (h : c.trace serve w = some t) : p.Run ⟨w, stack⟩ t.events ⟨t.world, stack⟩ := by
  induction c generalizing w t with
  | done a =>
      cases h
      exact .nil
  | ask frame q next ih =>
      unfold Conversation.trace at h
      cases hq : serve frame q w with
      | none => simp [hq] at h
      | some u =>
          simp only [hq] at h
          obtain ⟨u', hu', rfl⟩ := Option.map_eq_some_iff.mp h
          have hfirst := hserve hc.1 hq
          have hrest := ih u.value (hc.2 u.value) hu'
          exact hfirst.append hrest

theorem tracesRuns_traceBody (depth : Nat) : p.TracesRuns (p.traceBody depth) := by
  induction depth with
  | zero =>
      intro a action w t stack h
      cases h
  | succ depth ih =>
      intro a action w t stack h
      have hframe (w : World) : a.frame ∈ (⟨w, a :: stack⟩ : RunState).frames := by
        simp [RunState.frames]
      refine run_of_conversation (fun hmem hq => ?_) _ (action.madeIn_within a.frame) h
      rw [List.mem_singleton] at hmem
      subst hmem
      exact ih.traceRequest (hframe _) hq

/-- What happens in a conversation that is traced in active frames is a run. -/
theorem run_of_trace {α : Type} {depth : Nat} {c : Conversation α} {s : RunState}
    (hc : c.MadeIn s.frames) {t : Trace α} (h : p.trace depth c s.world = some t) :
    p.Run s t.events ⟨t.world, s.stack⟩ :=
  run_of_conversation (fun {_ _ w _} hmem hq =>
    (tracesRuns_traceBody depth).traceRequest (s := ⟨w, s.stack⟩) hmem hq) c hc h

end Program

end GuardedObjects
