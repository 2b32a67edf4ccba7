import GuardedObjects.Proofs.Access.ReadBack
import GuardedObjects.Proofs.Call.Boundary
import GuardedObjects.Proofs.Run.Trace

/-!
# Rules that are not needed

Where nothing is refused, the rules make no difference: a program that does not enforce them does
the same, but for the marks on attributes that may not be written again. The exception is a friend
that reads a private member in the name of a class of the object itself, because only a rule tells
whose member of that name it means.
-/

namespace GuardedObjects

/-! ### Worlds without marks -/

def Instance.unfixed (o : Instance) : Instance := { o with fixed := [] }

namespace World

variable {w : World} {r : ObjectRef}

/-- The world without the marks on what may not be written again. -/
def unfixed (w : World) : World := { w with objects := w.objects.map Instance.unfixed }

@[simp] theorem unfixed_empty : (∅ : World).unfixed = ∅ := by
  simp [unfixed, EmptyCollection.emptyCollection]

theorem find?_unfixed (w : World) (r : ObjectRef) :
    w.unfixed.find? r = (w.find? r).map Instance.unfixed := by
  cases hr : r.id with
  | stored i =>
      simp only [find?, hr, unfixed, Array.getElem?_map]
      cases w.objects[i]? with
      | none => rfl
      | some o =>
          simp only [Option.map_some, Option.filter_some, Instance.unfixed]
          split <;> rfl
  | labelled _ | unlabelled _ => simp [find?, hr]

@[simp] theorem slot?_unfixed (w : World) (r : ObjectRef) (key : SlotKey) :
    w.unfixed.slot? r key = w.slot? r key := by
  rw [slot?, find?_unfixed, slot?]
  cases w.find? r <;> rfl

@[simp] theorem cached?_unfixed (w : World) (r : ObjectRef) (property : String) :
    w.unfixed.cached? r property = w.cached? r property := by
  rw [cached?, find?_unfixed, cached?]
  cases w.find? r <;> rfl

theorem unfixed_update {f g : Instance → Instance} (hfg : ∀ o, (f o).unfixed = g o.unfixed) :
    (w.update r f).unfixed = w.unfixed.update r g := by
  cases hr : r.id with
  | stored i =>
      simp only [update, hr, unfixed, World.mk.injEq, and_true]
      apply Array.ext_getElem?
      intro j
      simp only [Array.getElem?_map, Array.getElem?_modify]
      split
      · cases w.objects[j]? with
        | none => rfl
        | some o => simp [hfg]
      · rfl
  | labelled _ | unlabelled _ => simp [update, hr]

theorem unfixed_store (w : World) (r : ObjectRef) (key : SlotKey) (v : Value) (fix : Bool) :
    (w.update r (·.store key v fix)).unfixed = w.unfixed.update r (·.store key v false) :=
  unfixed_update fun _ => rfl

theorem unfixed_cache (w : World) (r : ObjectRef) (property : String) (v : Value) :
    (w.update r (·.cache property v)).unfixed = w.unfixed.update r (·.cache property v) :=
  unfixed_update fun _ => rfl

theorem unfixed_allocate (w : World) (lineage : List String) :
    w.unfixed.allocate lineage =
      ((w.allocate lineage).1, (w.allocate lineage).2.unfixed) := by
  simp [allocate, unfixed, Instance.unfixed]

end World

/-! ### Requests -/

/-- The request reads or calls a member under the rules of access. -/
def Request.reads : Request → Bool
  | .get .. | .getSelf _ | .call .. | .callSelf .. | .callStatic .. => true
  | _ => false

namespace Program

/-- The caller is a method of a class of the resolution order, and what grants it the private member
is that it is a friend. -/
def ReadsAsFriend (p : Program) (caller : Caller) (c : ClassInfo) (member : String) : Prop :=
  Visibility.ofName member = .priv ∧
    (∃ declaring, caller.declaring? = some declaring ∧
      (p.classes.lineageClass? c declaring).isSome = true) ∧
    ∃ grant, (MemberSite.locate p.classes c member caller).grant? c caller = some grant ∧
      grant.isFriend = true

variable {p : Program} {config : Config} {caller : Caller} {frame : Frame} {q : Request}
  {r : ObjectRef} {c : ClassInfo} {member : String} {args : Arguments} {w w' : World}
  {a : Answer}

theorem ReadsElsewhere.readsAsFriend (h : p.ReadsElsewhere caller c member) :
    p.ReadsAsFriend caller c member := by
  obtain ⟨grant, hgrant, hsplits⟩ := h
  obtain ⟨owner, howner⟩ := Option.isSome_iff_exists.mp hsplits.lexical
  obtain ⟨k, hk, -⟩ := Option.map_eq_some_iff.mp howner
  obtain ⟨declaring, hd, hk⟩ := Option.bind_eq_some_iff.mp hk
  exact ⟨hsplits.priv, ⟨declaring, hd, by rw [hk]; rfl⟩, grant, hgrant, hsplits.friend⟩

theorem target_unfixed (p : Program) (config : Config) (w : World) (v : Value) (member : String) :
    (p.withConfig config).target w.unfixed v member = p.target w v member := by
  cases v with
  | object r =>
      have hclass : (p.withConfig config).classes = p.classes := rfl
      simp only [target, World.find?_unfixed, hclass]
      cases w.find? r with
      | none => rfl
      | some o => cases p.classes.find? r.className <;> rfl
  | _ => rfl

theorem requireClass_withConfig (p : Program) (config : Config) (name : String) :
    (p.withConfig config).requireClass name = p.requireClass name := rfl

section

variable (hmode : config.mode = .passthrough)

include hmode

theorem readKey_withConfig {key : SlotKey} (h : p.readKey caller c member = .ok key)
    (hno : ¬ p.ReadsAsFriend caller c member) :
    (p.withConfig config).readKey caller c member = .ok key := by
  have hfree : (p.withConfig config).readKey caller c member = .ok (p.writeKey caller c member) := by
    have hmode' : (p.withConfig config).mode = .passthrough := hmode
    simp only [readKey, MemberSite.authorizeRead, hmode']
    rfl
  rw [hfree]
  unfold readKey MemberSite.authorizeRead at h
  split at h
  · exact h
  · split at h
    · exact h
    · rename_i hdeclared
      split at h
      · cases h
      · rename_i hdeclared
        split at h
        · rename_i grant hgrant
          -- Without the rules every key is that of a writer, which only this grant may miss.
          have hhere : ¬ (MemberSite.locate p.classes c member caller).Splits grant :=
            fun hsplits => hno (ReadsElsewhere.readsAsFriend ⟨grant, hgrant, hsplits⟩)
          rw [MemberSite.key_some_of_not_splits ?_ hhere] at h
          · exact h
          · intro hpriv
            simpa [hpriv, Option.isSome_iff_ne_none] using hdeclared
        · cases h

theorem getAttribute_withConfig (h : p.getAttribute w caller r c member = .ok a)
    (hno : ¬ p.ReadsAsFriend caller c member) :
    (p.withConfig config).getAttribute w.unfixed caller r c member = .ok a := by
  obtain ⟨key, hkey, h⟩ := bind_eq_ok_iff.mp h
  simp only [getAttribute, readKey_withConfig hmode hkey hno, ok_bind, World.slot?_unfixed,
    readProperty, World.cached?_unfixed]
  exact h

theorem callMethod_withConfig (h : p.callMethod w caller r c member args = .ok a)
    (hno : ¬ p.ReadsAsFriend caller c member) :
    (p.withConfig config).callMethod w.unfixed caller r c member args = .ok a := by
  obtain ⟨key, hkey, h⟩ := bind_eq_ok_iff.mp h
  simp only [callMethod, readKey_withConfig hmode hkey hno, ok_bind, World.slot?_unfixed]
  exact h

theorem callStatic_withConfig (h : p.callStatic caller c member args = .ok a)
    (hno : ¬ p.ReadsAsFriend caller c member) :
    (p.withConfig config).callStatic caller c member args = .ok a := by
  obtain ⟨key, hkey, h⟩ := bind_eq_ok_iff.mp h
  simp only [callStatic, readKey_withConfig hmode hkey hno, ok_bind]
  exact h

theorem setAttribute_withConfig {v : Value}
    (h : p.setAttribute caller r c member v w = (.ok a, w')) :
    (p.withConfig config).setAttribute caller r c member v w.unfixed = (.ok a, w'.unfixed) := by
  rw [setAttribute_apply] at h ⊢
  rw [World.find?_unfixed]
  cases ho : w.find? r with
  | none =>
      simp only [ho] at h
      cases h
  | some o =>
      simp only [ho] at h
      split at h
      · cases h
      · cases h
        have hmode' : (p.withConfig config).mode = .passthrough := hmode
        simp only [Option.map_some, authorizeWrite, hmode']
        rw [World.unfixed_store]
        rfl

theorem mediate_get_withConfig {v : Value}
    (h : p.mediate frame (.get v member) w = (.ok a, w'))
    (hno : ∀ c, p.subject? frame (.get v member) = some (c, member) →
      ¬ p.ReadsAsFriend frame.caller c member) :
    (p.withConfig config).mediate frame (.get v member) w.unfixed = (.ok a, w'.unfixed) := by
  obtain ⟨⟨r, c⟩, ht, hg⟩ := bind_eq_ok_iff.mp (congrArg Prod.fst h)
  obtain ⟨rfl, -, hc⟩ := target_eq_ok ht
  cases congrArg Prod.snd h
  have hsub : p.subject? frame (.get (.object r) member) = some (c, member) := by
    simp [subject?, Value.object?, hc]
  have hg' := getAttribute_withConfig hmode hg (hno c hsub)
  simp only [mediate, Effect.read, target_unfixed, ht, ok_bind, hg']

theorem mediate_call_withConfig {v : Value}
    (h : p.mediate frame (.call v member args) w = (.ok a, w'))
    (hno : ∀ c, p.subject? frame (.call v member args) = some (c, member) →
      ¬ p.ReadsAsFriend frame.caller c member) :
    (p.withConfig config).mediate frame (.call v member args) w.unfixed =
      (.ok a, w'.unfixed) := by
  obtain ⟨⟨r, c⟩, ht, hg⟩ := bind_eq_ok_iff.mp (congrArg Prod.fst h)
  obtain ⟨rfl, -, hc⟩ := target_eq_ok ht
  cases congrArg Prod.snd h
  have hsub : p.subject? frame (.call (.object r) member args) = some (c, member) := by
    simp [subject?, Value.object?, hc]
  have hg' := callMethod_withConfig hmode hg (hno c hsub)
  simp only [mediate, Effect.read, target_unfixed, ht, ok_bind, hg']

theorem mediate_static_withConfig {owner : String}
    (h : p.mediate frame (.callStatic owner member args) w = (.ok a, w'))
    (hno : ∀ c, p.subject? frame (.callStatic owner member args) = some (c, member) →
      ¬ p.ReadsAsFriend frame.caller c member) :
    (p.withConfig config).mediate frame (.callStatic owner member args) w.unfixed =
      (.ok a, w'.unfixed) := by
  obtain ⟨c, hc, hg⟩ := bind_eq_ok_iff.mp (congrArg Prod.fst h)
  cases congrArg Prod.snd h
  have hsub : p.subject? frame (.callStatic owner member args) = some (c, member) := by
    simp [subject?, requireClass_eq_ok hc]
  have hg' := callStatic_withConfig hmode hg (hno c hsub)
  simp only [mediate, Effect.read, requireClass_withConfig, hc, ok_bind, hg']

theorem mediate_set_withConfig {v u : Value}
    (h : p.mediate frame (.set v member u) w = (.ok a, w')) :
    (p.withConfig config).mediate frame (.set v member u) w.unfixed = (.ok a, w'.unfixed) := by
  simp only [mediate, Effect.bind_apply, Effect.read, target_unfixed] at h ⊢
  rcases ht : p.target w v member with fault | ⟨r, c⟩
  · rw [ht] at h
    cases h
  · rw [ht] at h
    exact setAttribute_withConfig hmode h

omit hmode in
theorem instantiate_withConfig {owner : String} (h : p.instantiate owner args w = (.ok a, w')) :
    (p.withConfig config).instantiate owner args w.unfixed = (.ok a, w'.unfixed) := by
  have hclasses : (p.withConfig config).classes = p.classes := rfl
  simp only [instantiate_apply, hclasses, World.unfixed_allocate] at h ⊢
  cases hc : p.classes.find? owner with
  | none =>
      rw [hc] at h
      cases h
  | some c =>
      simp only [hc] at h ⊢
      cases hm : p.classes.method? c constructorName with
      | some m =>
          simp only [hm] at h ⊢
          cases h
          rfl
      | none =>
          simp only [hm] at h ⊢
          cases hargs : args.isEmpty with
          | true =>
              simp only [hargs, if_true] at h ⊢
              cases h
              rfl
          | false =>
              simp only [hargs, Bool.false_eq_true, if_false] at h
              cases h

/-- A request that is answered, and not by what a friend reads in the name of the object's own
class, is answered in the same way where the rules are not enforced. -/
theorem mediate_withConfig (h : p.mediate frame q w = (.ok a, w'))
    (hno : ∀ c member, q.reads = true → p.subject? frame q = some (c, member) →
      ¬ p.ReadsAsFriend frame.caller c member) :
    (p.withConfig config).mediate frame q w.unfixed = (.ok a, w'.unfixed) := by
  cases q with
  | get v member => exact mediate_get_withConfig hmode h fun c => hno c member rfl
  | getSelf member =>
      obtain ⟨r, hthis, -⟩ := bind_eq_ok_iff.mp (congrArg Prod.fst h)
      rw [mediate_getSelf hthis] at h ⊢
      rw [subject?_getSelf hthis] at hno
      exact mediate_get_withConfig hmode h fun c => hno c member rfl
  | call v member args => exact mediate_call_withConfig hmode h fun c => hno c member rfl
  | callSelf member args =>
      rcases receiver_of_callSelf h with ⟨name, hrec⟩ | ⟨r, hthis⟩
      · rw [mediate_callSelf_cls hrec] at h ⊢
        rw [subject?_callSelf_cls hrec] at hno
        exact mediate_static_withConfig hmode h fun c => hno c member rfl
      · rw [mediate_callSelf hthis] at h ⊢
        rw [subject?_callSelf hthis] at hno
        exact mediate_call_withConfig hmode h fun c => hno c member rfl
  | callStatic owner member args =>
      exact mediate_static_withConfig hmode h fun c => hno c member rfl
  | set v member value => exact mediate_set_withConfig hmode h
  | setSelf member value =>
      rcases hthis : frame.this with fault | r
      · simp only [mediate, Effect.bind_apply, Effect.read, hthis] at h
        cases h
      · rw [mediate_setSelf hthis] at h ⊢
        exact mediate_set_withConfig hmode h
  | callSuper member args =>
      have hs : p.callSuper frame.caller frame.receiver member args = .ok a := congrArg Prod.fst h
      cases congrArg Prod.snd h
      exact congrArg (·, w.unfixed) hs
  | callFunction name args =>
      have hf : p.callFunction name args = .ok a := congrArg Prod.fst h
      cases congrArg Prod.snd h
      exact congrArg (·, w.unfixed) hf
  | instantiate owner args => exact instantiate_withConfig h
  | access owner member =>
      cases congrArg Prod.snd h
      exact congrArg (·, w.unfixed) (congrArg Prod.fst h)
  | outside label lineage | log v =>
      cases h
      rfl

theorem checked_withConfig (m : Callable) (fault : Option Fault) :
    (p.withConfig config).checked m fault = .ok () := by
  have hmode' : (p.withConfig config).mode = .passthrough := hmode
  cases fault with
  | none => rfl
  | some fault => simp [checked, Callable.isChecked, hmode']

theorem enter_withConfig {i : Invocation} {inner : Frame} {body : Body}
    (h : p.enter i = .ok (inner, body)) :
    (p.withConfig config).enter i = .ok (inner, body) := by
  obtain ⟨bound, hbound, h⟩ := bind_eq_ok_iff.mp h
  obtain ⟨_, -, h⟩ := bind_eq_ok_iff.mp h
  rw [enter, hbound, ok_bind, checked_withConfig hmode, ok_bind]
  exact h

end

theorem conclude_unfixed (i : Invocation) (v : Value) (w : World) :
    i.conclude v w.unfixed = ((i.conclude v w).1, (i.conclude v w).2.unfixed) := by
  unfold Invocation.conclude
  split
  · rfl
  · rw [World.unfixed_cache]
  · rfl

end Program

/-! ### Steps and traces -/

namespace Event

/-- The request that the event is about, with its frame. -/
def request? : Event → Option (Frame × Request)
  | .answered frame q _ _ | .refused frame q _ | .rejected frame q _ _ | .started frame q _ =>
    some (frame, q)
  | .ended .. => none

/-- An operation has given an error. -/
def fails : Event → Bool
  | .refused .. | .rejected .. | .ended _ (.error _) => true
  | .answered .. | .started .. | .ended _ (.ok _) => false

end Event

def RunState.unfixed (s : RunState) : RunState := { s with world := s.world.unfixed }

def Trace.unfixed {α : Type} (t : Trace α) : Trace α := { t with world := t.world.unfixed }

namespace Program

variable {p : Program} {config : Config}

/-- The event is no error, and nothing that a friend has read in the name of the object's own
class. -/
structure Plain (p : Program) (e : Event) : Prop where
  succeeds : e.fails = false
  reads : ∀ frame q c member, e.request? = some (frame, q) → q.reads = true →
    p.subject? frame q = some (c, member) → ¬ p.ReadsAsFriend frame.caller c member

/-- What `run` does where nothing fails, `run'` does in the world without marks. -/
def Mirrors {β : Type} (p : Program) (run run' : Frame → β → World → Option (Trace Reply)) : Prop :=
  ∀ frame x w t, run frame x w = some t → (∀ e ∈ t.events, p.Plain e) →
    run' frame x w.unfixed = some t.unfixed

section

variable (hmode : config.mode = .passthrough)

include hmode

theorem Step.withConfig {s t : RunState} {e : Event} (h : p.Step s e t) (he : p.Plain e) :
    (p.withConfig config).Step s.unfixed e t.unfixed := by
  cases h with
  | answer hframe hq =>
      exact .answer hframe (mediate_withConfig hmode hq fun c member => he.reads _ _ c member rfl)
  | start hframe hq henter =>
      exact .start hframe (mediate_withConfig hmode hq fun c member => he.reads _ _ c member rfl)
        (enter_withConfig hmode henter)
  | @finish w a stack v _ =>
      have hfinish : (p.withConfig config).Step ⟨w.unfixed, a :: stack⟩ (.ended a (.ok v))
          ⟨(a.invocation.conclude v w.unfixed).2, stack⟩ :=
        .finish (checked_withConfig hmode _ _)
      rw [conclude_unfixed] at hfinish
      exact hfinish
  | refuse | reject | fail => cases he.succeeds

/-- A run in which nothing fails, and no friend reads in the name of an object's own class, is one
of the program that does not enforce the rules. -/
theorem Run.withConfig {s t : RunState} {es : List Event} (h : p.Run s es t)
    (hes : ∀ e ∈ es, p.Plain e) : (p.withConfig config).Run s.unfixed es t.unfixed := by
  induction h with
  | nil => exact .nil
  | snoc _ hst ih =>
      have hbefore := ih fun e he => hes e (List.mem_append_left _ he)
      exact hbefore.snoc (Step.withConfig hmode hst (hes _ (by simp)))

theorem traceEnd_withConfig {a : Activation} {t : Trace Reply}
    (h : ∀ e ∈ (p.traceEnd a t).events, e.fails = false) :
    (p.withConfig config).traceEnd a t.unfixed = (p.traceEnd a t).unfixed := by
  obtain ⟨fault | v, es, w⟩ := t
  · rfl
  · unfold traceEnd at h ⊢
    simp only at h ⊢
    split at h
    · have hlast := h _ (List.mem_append_right es (List.mem_singleton_self _))
      cases hlast
    · rename_i hchecked
      simp only [Trace.unfixed, checked_withConfig hmode, conclude_unfixed]

theorem traceRequest_withConfig {run run' : Frame → Action Reply → World → Option (Trace Reply)}
    (hrun : p.Mirrors run run') :
    p.Mirrors (p.traceRequest run) ((p.withConfig config).traceRequest run') := by
  intro frame q w t h ht
  unfold traceRequest at h
  rcases hm : p.mediate frame q w with ⟨fault | ⟨origin, v⟩ | i, w₁⟩
  · simp only [hm, Option.some.injEq] at h
    subst h
    cases (ht _ (List.mem_singleton_self _)).succeeds
  · simp only [hm, Option.some.injEq] at h
    subst h
    have hplain := ht _ (List.mem_singleton_self _)
    have hm' := mediate_withConfig hmode hm fun c member => hplain.reads _ _ c member rfl
    simp only [traceRequest, hm']
    rfl
  · simp only [hm] at h
    rcases he : p.enter i with fault | ⟨inner, body⟩
    · simp only [he, Option.some.injEq] at h
      subst h
      cases (ht _ (List.mem_singleton_self _)).succeeds
    · simp only [he] at h
      obtain ⟨u, hu, rfl⟩ := Option.map_eq_some_iff.mp h
      have hplain := ht _ (List.mem_cons_self)
      have hm' := mediate_withConfig hmode hm fun c member => hplain.reads _ _ c member rfl
      have hend : ∀ e ∈ (p.traceEnd ⟨i, inner⟩ u).events, p.Plain e :=
        fun e he => ht e (List.mem_cons_of_mem _ he)
      have hu' := hrun _ _ _ _ hu fun e he => hend e (mem_events_traceEnd he)
      simp only [traceRequest, hm', enter_withConfig hmode he, hu', Option.map_some,
        traceEnd_withConfig hmode fun e he => (hend e he).succeeds]
      rfl

omit hmode in
theorem conversation_withConfig {α : Type}
    {serve serve' : Frame → Request → World → Option (Trace Reply)}
    (hserve : p.Mirrors serve serve')
    (c : Conversation α) {w : World} {t : Trace α} (h : c.trace serve w = some t)
    (ht : ∀ e ∈ t.events, p.Plain e) : c.trace serve' w.unfixed = some t.unfixed := by
  induction c generalizing w t with
  | done a =>
      cases h
      rfl
  | ask frame q next ih =>
      unfold Conversation.trace at h ⊢
      cases hq : serve frame q w with
      | none => simp [hq] at h
      | some u =>
          simp only [hq] at h
          obtain ⟨u', hu', rfl⟩ := Option.map_eq_some_iff.mp h
          have hfirst := hserve _ _ _ _ hq fun e he => ht e (List.mem_append_left _ he)
          have hrest := ih u.value hu' fun e he => ht e (List.mem_append_right _ he)
          have hvalue : u.unfixed.value = u.value := rfl
          simp only [hfirst, hvalue]
          exact (congrArg (Option.map _) hrest).trans rfl

theorem traceBody_withConfig (depth : Nat) :
    p.Mirrors (p.traceBody depth) ((p.withConfig config).traceBody depth) := by
  induction depth with
  | zero =>
      intro frame action w t h _
      cases h
  | succ depth ih =>
      intro frame action w t h ht
      exact conversation_withConfig (traceRequest_withConfig hmode ih) _ h ht

end

/-- A list of declarations that makes up a program makes up the same classes and functions where
the rules are not enforced. Whatever conversation is held with the program, if nothing fails in it
and no friend reads in the name of an object's own class, then the same happens without the rules,
and all objects end up with the same values. The same is true of every run, finished or not. -/
theorem declared_transparent {config config' : Config} (hmode : config'.mode = .passthrough)
    {ds : List Declaration} {p : Program} (h : declared config ds = .ok p) :
    ∃ p', declared config' ds = .ok p' ∧ p'.classes = p.classes ∧ p'.functions = p.functions ∧
      (∀ (α : Type) (depth : Nat) (host : Conversation α) (t : Trace α),
        p.trace depth host ∅ = some t → (∀ e ∈ t.events, p.Plain e) →
        ∃ w, p'.trace depth host ∅ = some { t with world := w } ∧
          ∀ r, (∀ key, w.slot? r key = t.world.slot? r key) ∧
            ∀ property, w.cached? r property = t.world.cached? r property) ∧
      ∀ es s, p.Run {} es s → (∀ e ∈ es, p.Plain e) →
        ∃ w, p'.Run {} es ⟨w, s.stack⟩ ∧
          ∀ r, (∀ key, w.slot? r key = s.world.slot? r key) ∧
            ∀ property, w.cached? r property = s.world.cached? r property := by
  refine ⟨p.withConfig config', declared_withConfig hmode h, rfl, rfl, ?_, ?_⟩
  · intro α depth host t ht hplain
    have hserve := traceRequest_withConfig hmode (traceBody_withConfig (p := p) hmode depth)
    have htrace := conversation_withConfig hserve host ht hplain
    rw [World.unfixed_empty] at htrace
    exact ⟨t.world.unfixed, htrace, fun r =>
      ⟨fun key => World.slot?_unfixed .., fun property => World.cached?_unfixed ..⟩⟩
  · intro es s hrun hplain
    have hrun' := Run.withConfig hmode hrun hplain
    refine ⟨s.world.unfixed, ?_, fun r =>
      ⟨fun key => World.slot?_unfixed .., fun property => World.cached?_unfixed ..⟩⟩
    have hstart : ({} : RunState).unfixed = {} := by
      rw [RunState.unfixed, World.unfixed_empty]
    rwa [hstart] at hrun'

/-- Makes a vault and asks it for its code. -/
def vaultHost : Conversation Reply :=
  .ask .main vaultRequest fun _ => .ask .main (.call (.object vaultRef) "code" {}) .done

def vaultEvents : List Event :=
  [.started .main vaultRequest vaultInit,
    .answered vaultInit.frame (.setSelf "__code" (.int 7)) .effect .none,
    .ended vaultInit (.ok .none),
    .started .main (.call (.object vaultRef) "code" {}) vaultCode,
    .answered vaultCode.frame (.getSelf "__code") (.slot (.priv "Vault" "__code")) (.int 7),
    .ended vaultCode (.ok (.int 7))]

theorem plain_vaultEvents : ∀ e ∈ vaultEvents, vault.Plain e := by
  have hown : (vault.classes.find? "Vault").all (fun c =>
      ((MemberSite.locate vault.classes c "__code" vaultCode.frame.caller).grant? c
        vaultCode.frame.caller).all fun grant => !grant.isFriend) = true := by cbv
  intro e he
  simp only [vaultEvents, List.mem_cons, List.not_mem_nil, or_false] at he
  rcases he with rfl | rfl | rfl | rfl | rfl | rfl
  all_goals refine ⟨rfl, ?_⟩
  all_goals
    intro frame q c member hreq hreads hsub
    cases hreq
  · cases hreads
  · cases hreads
  · rintro ⟨hpriv, -, -⟩
    obtain ⟨k, -, heq⟩ := Option.map_eq_some_iff.mp hsub
    cases heq
    exact absurd hpriv (by decide)
  · rintro ⟨-, -, grant, hgrant, hfriend⟩
    obtain ⟨k, hk, heq⟩ := Option.map_eq_some_iff.mp hsub
    cases heq
    have hk : vault.classes.find? "Vault" = some c := hk
    rw [hk] at hown
    simp only [Option.all_some, hgrant, hfriend] at hown
    cases hown

theorem declared_transparent_vault : ∃ p' w,
    declared { mode := .passthrough } [.cls vaultDecl] = .ok p' ∧
      p'.trace 1 vaultHost ∅ = some ⟨.ok (.int 7), vaultEvents, w⟩ ∧
      w.slot? vaultRef (.priv "Vault" "__code") = some (.int 7) := by
  have hdeclared : declared {} [.cls vaultDecl] = .ok vault := by cbv
  have htrace : vault.trace 1 vaultHost ∅ =
      some ⟨.ok (.int 7), vaultEvents, vaultWorld⟩ := by cbv
  have hslot : vaultWorld.slot? vaultRef (.priv "Vault" "__code") = some (.int 7) := by cbv
  have hmode : ({ mode := .passthrough } : Config).mode = .passthrough := rfl
  obtain ⟨p', hp', -, -, hsame, -⟩ := declared_transparent hmode hdeclared
  obtain ⟨w, hw, hvalues⟩ := hsame _ _ _ _ htrace plain_vaultEvents
  refine ⟨p', w, hp', hw, ?_⟩
  rw [(hvalues vaultRef).1]
  exact hslot

end Program

end GuardedObjects
