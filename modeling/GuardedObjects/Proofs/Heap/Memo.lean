import GuardedObjects.Proofs.Access.Lexical

/-!
# Memoized properties

Once an object has a value for a cached property, its property is not evaluated again, and every
read gives that value. Evaluations that were under way before are the exception: what they give
when they end takes the place of the value. That a read gives the result of the very property it
leads to takes a qualified name that no other cached property of the object has.
-/

namespace GuardedObjects

/-- The object and the member that a request reads. -/
def Request.read? (frame : Frame) : Request → Option (ObjectRef × String)
  | .get v member => v.object?.map (·, member)
  | .getSelf member => frame.this.toOption.map (·, member)
  | _ => none

/-- A read of the cached property on the object has given the value, the one that was kept or the
one that was just computed. -/
inductive Event.Gives (r : ObjectRef) (m : Callable) (v : Value) : Event → Prop
  | kept {frame : Frame} {q : Request} :
      q.target? frame = some r → Gives r m v (.answered frame q (.cache m) v)
  | computed {a : Activation} :
      a.callable = m → a.invocation.ending = .cache r m.qualifiedName →
      Gives r m v (.ended a (.ok v))

namespace Program

variable {p : Program} {frame : Frame} {q : Request} {w : World} {r : ObjectRef} {m : Callable}
  {v : Value}

/-- The request reads a member of the object, which the frame may do, and the member is the cached
property: no slot is stored under its key. -/
def ReadsCached (p : Program) (w : World) (frame : Frame) (q : Request) (r : ObjectRef)
    (m : Callable) : Prop :=
  ∃ c member key, q.read? frame = some (r, member) ∧ p.classes.find? r.className = some c ∧
    p.readKey frame.caller c member = .ok key ∧ w.slot? r key = none ∧
    p.classes.methodAt? c key = some m ∧ m.kind = .cachedProperty

theorem mediate_of_read? {member : String} (h : q.read? frame = some (r, member)) :
    p.mediate frame q = p.mediate frame (.get (.object r) member) := by
  cases q with
  | get u _ =>
      obtain ⟨r', hr, heq⟩ := Option.map_eq_some_iff.mp h
      cases heq
      rw [Value.object?_eq_some_iff.mp hr]
  | getSelf _ =>
      obtain ⟨r', hr, heq⟩ := Option.map_eq_some_iff.mp h
      cases heq
      exact mediate_getSelf (toOption_eq_some_iff.mp hr) member
  | _ => cases h

theorem found_of_cached? {property : String} (h : w.cached? r property = some v) :
    ∃ o, w.find? r = some o := by
  obtain ⟨o, ho, -⟩ := Option.bind_eq_some_iff.mp h
  exact ⟨o, ho⟩

/-- What is kept for a property is what a read of it gives, whatever its body would do. -/
theorem ReadsCached.serve (h : p.ReadsCached w frame q r m)
    (hv : w.cached? r m.qualifiedName = some v) (run : BodyRunner) :
    p.serve run frame q w = some (.ok v, w) := by
  obtain ⟨c, member, key, hread, hc, hkey, hslot, hm, hkind⟩ := h
  obtain ⟨o, ho⟩ := found_of_cached? hv
  have hget : p.getAttribute w frame.caller r c member = .ok (.value (.cache m) v) := by
    simp only [getAttribute, hkey, ok_bind, hslot, hm, hkind, CallableKind.isProperty,
      readProperty, hv]
    rfl
  have hmediate : p.mediate frame q w = (.ok (.value (.cache m) v), w) := by
    rw [mediate_of_read? hread]
    simp only [mediate, Effect.read, target, ho, hc, ok_bind, hget]
  simp only [Program.serve, hmediate]

/-! ### Runs -/

variable {s t u : RunState} {e : Event} {es fs : List Event} {property : String}

/-- No evaluation that was under way at the first moment has given a result since. -/
def Undisturbed (s : RunState) (r : ObjectRef) (property : String) (es : List Event) : Prop :=
  ∀ a ∈ s.stack, a.invocation.ending = .cache r property → ∀ x, .ended a (.ok x) ∉ es

theorem Step.isSome_cached? (h : p.Step s e t) (hs : p.AllPlaced s)
    (hv : (s.world.cached? r property).isSome = true) :
    (t.world.cached? r property).isSome = true := by
  rcases h.cached?_eq hs r property with heq | ⟨a, x, -, -, -, hx⟩
  · rwa [heq]
  · rw [hx]
    rfl

/-- Where the object has a value, no step starts another evaluation. -/
theorem Step.ending_of_started {a : Activation} (h : p.Step s (.started frame q a) t)
    (hv : (s.world.cached? r property).isSome = true) :
    a.invocation.ending ≠ .cache r property := by
  intro hending
  cases h with
  | start _ hq _ =>
      rw [uncached_of_mediate hq hending] at hv
      cases hv

/-- What a run keeps from a moment `s` on at which the object has a value for the property: it goes
on to have one, all evaluations are older than `s`, and as long as none of these gives a result the
value is the same. -/
structure Remembers (p : Program) (s : RunState) (r : ObjectRef) (property : String) (v : Value)
    (fs : List Event) (t : RunState) : Prop where
  placed : p.AllPlaced t
  cached : (t.world.cached? r property).isSome = true
  older : ∀ a ∈ t.stack, a.invocation.ending = .cache r property → a ∈ s.stack
  unstarted : ∀ frame q a, .started frame q a ∈ fs → a.invocation.ending ≠ .cache r property
  same : Undisturbed s r property fs → t.world.cached? r property = some v

theorem Remembers.step (h : p.Remembers s r property v fs t) (hst : p.Step t e u) :
    p.Remembers s r property v (fs ++ [e]) u where
  placed := hst.allPlaced h.placed
  cached := hst.isSome_cached? h.placed h.cached
  older := by
    intro a ha hending
    rcases hst.started_of_mem ha with ha | ⟨frame, q, rfl⟩
    · exact h.older a ha hending
    · exact absurd hending (hst.ending_of_started h.cached)
  unstarted := by
    intro frame q a ha
    rcases List.mem_append.mp ha with ha | ha
    · exact h.unstarted frame q a ha
    · rw [List.mem_singleton] at ha
      subst ha
      exact hst.ending_of_started h.cached
  same := by
    intro hquiet
    have hbefore : Undisturbed s r property fs := fun a ha hending x hx =>
      hquiet a ha hending x (List.mem_append_left _ hx)
    rcases hst.cached?_eq h.placed r property with heq | ⟨a, x, rfl, ha, hending, -⟩
    · rw [heq, h.same hbefore]
    · have hold := h.older a ha hending
      exact absurd (List.mem_append_right _ (List.mem_singleton_self _)) (hquiet a hold hending x)

theorem Run.remembers (h : p.Run {} es s) (hv : s.world.cached? r property = some v)
    (hlater : p.Run s fs t) : p.Remembers s r property v fs t := by
  induction hlater with
  | nil =>
      exact ⟨h.allPlaced, by rw [hv]; rfl, fun _ ha _ => ha, by simp, fun _ => hv⟩
  | snoc _ hst ih => exact ih.step hst

/-- What a read of the property has given is what the object then keeps for it. -/
theorem Step.cached?_of_gives (h : p.Step s e t) (hs : p.AllPlaced s) (hgives : e.Gives r m v) :
    t.world.cached? r m.qualifiedName = some v := by
  cases hgives with
  | kept hr =>
      cases h with
      | answer _ hq =>
          cases answers hq with
          | cache hr' _ _ _ hv =>
              cases hr.symm.trans hr'
              rwa [cached?_mediate hq]
  | @computed a hm hending =>
      cases h with
      | finish =>
          obtain ⟨-, hfound, -⟩ := (hs a (by simp)).cached _ _ hending
          obtain ⟨o, ho⟩ := Option.isSome_iff_exists.mp hfound
          simp [Invocation.conclude, hending, World.cached?_cache ho]

theorem Run.computed_of_gives (h : p.Run {} es s) (hst : p.Step s e t) (hgives : e.Gives r m v)
    (hunique : p.UniquelyNamed r m) :
    ∃ b, .ended b (.ok v) ∈ es ++ [e] ∧ b.callable = m ∧ b.frame.receiver = .object r := by
  obtain ⟨b, hb, hcomputes⟩ := (h.snoc hst).computes (hst.cached?_of_gives h.allPlaced hgives)
  exact ⟨b, hb, hunique _ hcomputes.method hcomputes.kind hcomputes.name, hcomputes.receiver⟩

/-- Over any run of a program, let a read of a cached property on an object give a value. If no
other cached property of the object has the same qualified name, an evaluation of that very property
on that object has given the value. From then on no read evaluates the property again, and every
read of it that is permitted gives this value, unless an evaluation that was under way when the
value was given has ended with a result since. -/
theorem Run.read_once (h : p.Run {} es s) (hst : p.Step s e t) (hgives : e.Gives r m v) :
    (p.UniquelyNamed r m →
      ∃ b, .ended b (.ok v) ∈ es ++ [e] ∧ b.callable = m ∧ b.frame.receiver = .object r) ∧
      ∀ fs u, p.Run t fs u →
        (∀ frame q b, .started frame q b ∈ fs → b.invocation.ending ≠ .cache r m.qualifiedName) ∧
        (Undisturbed t r m.qualifiedName fs → ∀ frame q, p.ReadsCached u.world frame q r m →
          ∀ run, p.serve run frame q u.world = some (.ok v, u.world)) := by
  refine ⟨h.computed_of_gives hst hgives, ?_⟩
  intro fs u hlater
  have hv := hst.cached?_of_gives h.allPlaced hgives
  have hremembers := (h.snoc hst).remembers hv hlater
  refine ⟨hremembers.unstarted, ?_⟩
  intro hquiet frame q hread run
  exact hread.serve (hremembers.same hquiet) run

end Program

/-! ### A well -/

/-- Measures a well that is full by emptying it and measuring it again. -/
def wellDepth : Body := fun _ => do
  match ← .request (.getSelf "full") with
  | .ok (.bool true) =>
    let _ ← .request (.setSelf "full" (.bool false))
    let _ ← .request (.getSelf "depth")
    return .ok (.int 2)
  | _ => return .ok (.int 1)

/-- A well is full until its depth is measured for the first time. -/
def wellDecl : ClassDecl :=
  (({ name := "Well" : ClassDecl }).fieldWithDefault "full" (.type (.primitive .bool))
    (.bool true)).method "depth"
      { kind := .cachedProperty, returns := some (.type (.primitive .int)),
        body := some wellDepth }

def wellMeasure : Callable where
  name := "depth"
  owner := some "Well"
  kind := .cachedProperty
  returns := some (.primitive .int)
  body := some wellDepth

def wellInfo : ClassInfo where
  name := "Well"
  attributes := (∅ : Table String Ty).insert "full" (.primitive .bool)
  methods := (∅ : Table String Callable).insert "depth" wellMeasure
  values := (∅ : Table String Value).insert "full" (.bool true)

namespace Program

def wells : Program where
  classes := ⟨[wellInfo]⟩

theorem linked_wells : wells.Linked := by
  have hdeclared : declared {} [.cls wellDecl] = .ok wells := by cbv
  exact linked_of_declared hdeclared

def wellRef : ObjectRef := ⟨.stored 0, ["Well"]⟩

def fullWorld : World := (World.allocate ∅ ["Well"]).2

def emptiedWorld : World := fullWorld.update wellRef (·.store (.shared "full") (.bool false) false)

/-- The world after a measurement of the well. -/
def measuredWorld (w : World) (depth : Int64) : World :=
  w.update wellRef (·.cache "Well.depth" (.int depth))

/-- A measurement of the well. -/
def measuring : Activation where
  invocation :=
    { callable := wellMeasure, receiver := .object wellRef, ending := .cache wellRef "Well.depth" }
  frame := { caller := .method "Well" "depth" (some "Well"), receiver := .object wellRef }

/-- The measurement of the full well has got as far as measuring it again. -/
def wellEvents : List Event :=
  [.answered .main (.instantiate "Well" {}) .effect (.object wellRef),
    .started .main (.get (.object wellRef) "depth") measuring,
    .answered measuring.frame (.getSelf "full") (.classValue (.shared "full")) (.bool true),
    .answered measuring.frame (.setSelf "full" (.bool false)) .effect .none,
    .started measuring.frame (.getSelf "depth") measuring,
    .answered measuring.frame (.getSelf "full") (.slot (.shared "full")) (.bool false)]

theorem run_wells : wells.Run {} wellEvents ⟨emptiedWorld, [measuring, measuring]⟩ := by
  have hmake : wells.mediate .main (.instantiate "Well" {}) ∅ =
      (.ok (.value .effect (.object wellRef)), fullWorld) := by cbv
  have hmeasure : wells.mediate .main (.get (.object wellRef) "depth") fullWorld =
      (.ok (.invoke measuring.invocation), fullWorld) := by cbv
  have hfull : wells.mediate measuring.frame (.getSelf "full") fullWorld =
      (.ok (.value (.classValue (.shared "full")) (.bool true)), fullWorld) := by cbv
  have hempty : wells.mediate measuring.frame (.setSelf "full" (.bool false)) fullWorld =
      (.ok (.value .effect .none), emptiedWorld) := by cbv
  have hagain : wells.mediate measuring.frame (.getSelf "depth") emptiedWorld =
      (.ok (.invoke measuring.invocation), emptiedWorld) := by cbv
  have hemptied : wells.mediate measuring.frame (.getSelf "full") emptiedWorld =
      (.ok (.value (.slot (.shared "full")) (.bool false)), emptiedWorld) := by cbv
  have henter : wells.enter measuring.invocation = .ok (measuring.frame, wellDepth) := rfl
  have hmain (s : RunState) : Frame.main ∈ s.frames := by simp [RunState.frames]
  have hmade := Run.single (.answer (s := {}) (hmain _) hmake)
  have hfirst := hmade.snoc (.start (hmain _) hmeasure henter)
  have hlooked := hfirst.snoc (.answer (by simp [RunState.frames]) hfull)
  have hdrained := hlooked.snoc (.answer (by simp [RunState.frames]) hempty)
  have hsecond := hdrained.snoc (.start (by simp [RunState.frames]) hagain henter)
  exact hsecond.snoc (.answer (by simp [RunState.frames]) hemptied)

/-- A measurement ends. -/
theorem step_wells (w : World) (stack : List Activation) (depth : Int64) :
    wells.Step ⟨w, measuring :: stack⟩ (.ended measuring (.ok (.int depth)))
      ⟨measuredWorld w depth, stack⟩ :=
  .finish (v := .int depth) rfl

theorem gives_wells (depth : Int64) :
    (Event.ended measuring (.ok (.int depth))).Gives wellRef wellMeasure (.int depth) :=
  .computed rfl (by cbv)

theorem readsCached_wells {w : World} (hw : w.slot? wellRef (.shared "depth") = none) :
    wells.ReadsCached w .main (.get (.object wellRef) "depth") wellRef wellMeasure :=
  ⟨wellInfo, "depth", .shared "depth", rfl, by cbv, by cbv, hw, by cbv, rfl⟩

/-- The measurement of the emptied well has given 1, and a later one gives 2. The window of a shop
reads its own number, and gets a number that no evaluation of it has given. -/
theorem exists_unsteady_reads :
    (∃ (p : Program) (es fs : List Event) (s t u : RunState) (e : Event) (r : ObjectRef)
      (m : Callable) (frame : Frame) (q : Request) (v x : Value), p.Linked ∧
        p.mode = .enforced ∧ p.Run {} es s ∧ p.Step s e t ∧ e.Gives r m v ∧ p.Run t fs u ∧
        p.ReadsCached u.world frame q r m ∧
        (∀ run, p.serve run frame q u.world = some (.ok x, u.world)) ∧ v ≠ x) ∧
      ∃ (p : Program) (es : List Event) (s t : RunState) (e : Event) (r : ObjectRef) (m : Callable)
        (v : Value), p.Linked ∧ p.mode = .enforced ∧ p.Run {} es s ∧ p.Step s e t ∧
          e.Gives r m v ∧ ∀ b x, .ended b x ∈ es ++ [e] → b.callable ≠ m := by
  have hread := readsCached_wells (w := measuredWorld (measuredWorld emptiedWorld 1) 2) (by cbv)
  refine ⟨⟨wells, wellEvents, _, _, _, _, _, wellRef, wellMeasure, .main, _, .int 1, .int 2,
    linked_wells, rfl, run_wells, step_wells _ _ 1, gives_wells 1, Run.single (step_wells _ _ 2),
    hread, hread.serve (by cbv), by simp⟩, ?_⟩
  have hwindow := Step.answer (p := shops) (s := ⟨numberedWorld, [looking "Shop.w" "by" "__n"]⟩)
    (by simp [RunState.frames, looking]) mediate_window
  refine ⟨shops, shopEvents, _, _, _, windowRef, numberOf "Shop.w" "__n" 2, .int 1, linked_shops,
    rfl, run_shops, hwindow, .kept rfl, ?_⟩
  intro b x hb heq
  rcases List.mem_append.mp hb with hb | hb
  · have howner := owner_of_ended_shops hb
    rw [heq] at howner
    exact absurd howner (by decide)
  · cases List.mem_singleton.mp hb

theorem uniquelyNamed_wells : wells.UniquelyNamed wellRef wellMeasure := by
  apply uniquelyNamed_of_sole
  intro k hk e he _
  cases List.mem_singleton.mp hk
  have hentries : wellInfo.methods.entries = [("depth", wellMeasure)] := by cbv
  rw [hentries] at he
  cases List.mem_singleton.mp he
  rfl

/-- The world once both measurements have ended. -/
def twiceMeasuredWorld : World := measuredWorld (measuredWorld emptiedWorld 1) 2

def refilledWorld : World :=
  twiceMeasuredWorld.update wellRef (·.store (.shared "full") (.bool true) false)

/-- The well is filled again, its depth is asked for, and another well is made. -/
def refillEvents : List Event :=
  [.answered .main (.set (.object wellRef) "full" (.bool true)) .effect .none,
    .answered .main (.get (.object wellRef) "depth") (.cache wellMeasure) (.int 2),
    .answered .main (.instantiate "Well" {}) .effect (.object ⟨.stored 1, ["Well"]⟩)]

theorem run_refill : wells.Run ⟨twiceMeasuredWorld, []⟩ refillEvents
    ⟨(refilledWorld.allocate ["Well"]).2, []⟩ := by
  have hfill : wells.mediate .main (.set (.object wellRef) "full" (.bool true))
      twiceMeasuredWorld = (.ok (.value .effect .none), refilledWorld) := by cbv
  have hread : wells.mediate .main (.get (.object wellRef) "depth") refilledWorld =
      (.ok (.value (.cache wellMeasure) (.int 2)), refilledWorld) := by cbv
  have hmake : wells.mediate .main (.instantiate "Well" {}) refilledWorld =
      (.ok (.value .effect (.object ⟨.stored 1, ["Well"]⟩)),
        (refilledWorld.allocate ["Well"]).2) := by cbv
  have hmain (s : RunState) : Frame.main ∈ s.frames := by simp [RunState.frames]
  have hfilled := Run.single (.answer (s := ⟨twiceMeasuredWorld, []⟩) (hmain _) hfill)
  have hasked := hfilled.snoc (.answer (hmain _) hread)
  exact hasked.snoc (.answer (hmain _) hmake)

/-- The well is full again, and its depth is still the one that was measured last. -/
theorem Run.read_once_wells : ∃ es s t u, wells.Run {} es s ∧
    wells.Step s (.ended measuring (.ok (.int 2))) t ∧ wells.Run t refillEvents u ∧
    (∃ b, .ended b (.ok (.int 2)) ∈ es ++ [.ended measuring (.ok (.int 2))] ∧
      b.callable = wellMeasure ∧ b.frame.receiver = .object wellRef) ∧
    (∀ frame q b, .started frame q b ∈ refillEvents →
      b.invocation.ending ≠ .cache wellRef "Well.depth") ∧
    u.world.slot? wellRef (.shared "full") = some (.bool true) ∧
    ∀ run, wells.serve run .main (.get (.object wellRef) "depth") u.world =
      some (.ok (.int 2), u.world) := by
  have hrun := run_wells.snoc (step_wells _ _ 1)
  have hst := step_wells (measuredWorld emptiedWorld 1) [] 2
  have hread := readsCached_wells (w := (refilledWorld.allocate ["Well"]).2) (by cbv)
  obtain ⟨horigin, hlater⟩ := Run.read_once hrun hst (gives_wells 2)
  obtain ⟨hunstarted, hreads⟩ := hlater _ _ run_refill
  have hquiet : Undisturbed ⟨twiceMeasuredWorld, []⟩ wellRef wellMeasure.qualifiedName
      refillEvents := by
    intro a ha
    cases ha
  have hname : wellMeasure.qualifiedName = "Well.depth" := by cbv
  rw [hname] at hunstarted
  exact ⟨_, _, _, _, hrun, hst, run_refill, horigin uniquelyNamed_wells, hunstarted, by cbv,
    hreads hquiet .main _ hread⟩

end Program

end GuardedObjects
