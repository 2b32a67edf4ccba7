import GuardedObjects.Proofs.Registry.Declarations
import GuardedObjects.Proofs.Run.Execution
import GuardedObjects.Proofs.Run.Receiver

/-!
# Receivers by kind

The kind of a callable tells what its bodies run on: methods and properties on an object, class
methods on a class, static methods and functions on nothing. Two requests do not ask for the kind.
A super call hands on the receiver of the calling body, which may be a class where the next method
wants an object, and a new object is the receiver of its constructor whatever the kind of that is.
-/

namespace GuardedObjects

namespace CallableKind

/-- The receiver is of the sort that bodies of the kind are to run on. -/
def suits : CallableKind → Receiver → Bool
  | .method, .object _ | .property, .object _ | .cachedProperty, .object _ => true
  | .classMethod, .cls _ => true
  | .staticMethod, .none | .function, .none => true
  | _, _ => false

variable {kind : CallableKind}

@[simp] theorem suits_object (r : ObjectRef) : kind.suits (.object r) = kind.wantsObject := by
  cases kind <;> rfl

/-- What a call hands on suits a member that wants an object if it is one; other members get what
suits them. -/
theorem suits_receiver_iff {handed : Receiver} {cls : String} :
    kind.suits (kind.receiver handed cls) = true ↔
      (kind.wantsObject = true → ∃ r, handed = .object r) := by
  cases kind <;> cases handed <;> simp [suits, receiver, wantsObject]

theorem wantsObject_of_isProperty (h : kind.isProperty = true) : kind.wantsObject = true := by
  cases kind <;> first | rfl | cases h

end CallableKind

/-- The requests that give a callable a receiver it does not want: a super call to one that wants an
object, out of a body that runs on a class, and the making of an object whose constructor does not
want one. -/
inductive Misdirects (frame : Frame) (m : Callable) : Request → Prop
  | super {name member : String} {args : Arguments} :
      frame.receiver = .cls name → m.kind.wantsObject = true →
      Misdirects frame m (.callSuper member args)
  | constructor {owner : String} {args : Arguments} :
      m.kind.wantsObject = false → Misdirects frame m (.instantiate owner args)

namespace Program

variable {p : Program}

/-- The receiver is there: an object of the world, or a declared class. -/
def Present (p : Program) (w : World) : Receiver → Prop
  | .none => True
  | .object r => (w.find? r).isSome = true
  | .cls name => p.classes.contains name = true

theorem Present.mono {w w' : World} {receiver : Receiver} (h : p.Present w receiver)
    (hw : ∀ r, (w.find? r).isSome = true → (w'.find? r).isSome = true) :
    p.Present w' receiver := by
  cases receiver with
  | none => trivial
  | object r => exact hw r h
  | cls name => exact h

theorem contains_of_find? {c : ClassInfo} {name : String} (hc : p.classes.find? name = some c) :
    p.classes.contains c.name = true := by
  rw [ClassTable.contains, ClassTable.find?_name hc]
  rfl

end Program

/-- The invocation has a receiver that is there, and one that suits its callable unless the request
is one of those that do not ask. -/
structure Invocation.Directed (p : Program) (frame : Frame) (q : Request) (w : World)
    (i : Invocation) : Prop where
  present : p.Present w i.receiver
  suits_iff : i.callable.kind.suits i.receiver = true ↔ ¬ Misdirects frame i.callable q

namespace Program

variable {p : Program} {frame : Frame} {q : Request} {w w' : World} {r : ObjectRef}
  {c : ClassInfo} {member : String} {args : Arguments} {i : Invocation}

theorem directed_of_suits (hq : ¬ Misdirects frame i.callable q)
    (h : p.Present w i.receiver ∧ i.callable.kind.suits i.receiver = true) :
    i.Directed p frame q w :=
  ⟨h.1, iff_of_true h.2 hq⟩

theorem present_receiver {m : Callable} {handed : Receiver} (hc : p.classes.contains c.name = true)
    (hhanded : p.Present w handed) : p.Present w (m.kind.receiver handed c.name) := by
  cases m.kind with
  | method | property | cachedProperty => exact hhanded
  | classMethod => exact hc
  | staticMethod | function => trivial

theorem suits_of_getAttribute (hr : (w.find? r).isSome = true)
    (h : p.getAttribute w frame.caller r c member = .ok (.invoke i)) :
    p.Present w i.receiver ∧ i.callable.kind.suits i.receiver = true := by
  obtain ⟨key, m, -, -, hproperty, hi⟩ := getAttribute_eq_invoke h
  have hsuits : m.kind.suits (.object r) = true := by
    rw [CallableKind.suits_object, CallableKind.wantsObject_of_isProperty hproperty]
  obtain rfl | ⟨-, -, rfl⟩ := hi
  · exact ⟨hr, hsuits⟩
  · exact ⟨hr, hsuits⟩

theorem suits_of_callMethod (hr : (w.find? r).isSome = true)
    (hc : p.classes.find? r.className = some c)
    (h : p.callMethod w frame.caller r c member args = .ok (.invoke i)) :
    p.Present w i.receiver ∧ i.callable.kind.suits i.receiver = true := by
  obtain ⟨key, m, -, -, -, hi⟩ := callMethod_eq_ok h
  cases hi
  refine ⟨present_receiver (contains_of_find? hc) hr, ?_⟩
  exact CallableKind.suits_receiver_iff.mpr fun _ => ⟨r, rfl⟩

theorem suits_of_callStatic {name : String} (hc : p.classes.find? name = some c)
    (h : p.callStatic frame.caller c member args = .ok (.invoke i)) :
    p.Present w i.receiver ∧ i.callable.kind.suits i.receiver = true := by
  obtain ⟨key, m, -, -, hwants, hi⟩ := callStatic_eq_ok h
  cases hi
  refine ⟨present_receiver (contains_of_find? hc) trivial, ?_⟩
  exact CallableKind.suits_receiver_iff.mpr fun hno => absurd hno (by simp [hwants])

/-- A callable that wants an object gets the receiver of the body that makes the super call. -/
theorem directed_of_callSuper (hframe : p.Present w frame.receiver)
    (h : p.callSuper frame.caller frame.receiver member args = .ok (.invoke i)) :
    i.Directed p frame (.callSuper member args) w := by
  obtain ⟨cls, c, k, m, hcls, hc, -, -, -, hi⟩ := callSuper_eq_ok h
  cases hi
  refine ⟨present_receiver (contains_of_find? hc) hframe, ?_⟩
  rw [CallableKind.suits_receiver_iff]
  constructor
  · rintro hobject ⟨hrec, hwants⟩
    obtain ⟨r, hr⟩ := hobject hwants
    cases hrec.symm.trans hr
  · intro hno hwants
    cases hrec : frame.receiver with
    | none =>
        rw [hrec] at hcls
        cases hcls
    | object r => exact ⟨r, rfl⟩
    | cls name => exact absurd (.super hrec hwants) hno

theorem directed_of_instantiate {owner : String} {m : Callable} (lineage : List String) :
    Invocation.Directed p frame (.instantiate owner args) (w.allocate lineage).2
      { callable := m, receiver := .object (w.allocate lineage).1, args,
        ending := .object (w.allocate lineage).1 } where
  present := by
    rw [Present, World.find?_allocate, if_pos rfl]
    rfl
  suits_iff := by
    rw [CallableKind.suits_object]
    cases hwants : m.kind.wantsObject with
    | true =>
        refine iff_of_true rfl ?_
        intro hno
        cases hno with
        | constructor hno =>
            rw [hwants] at hno
            cases hno
    | false => exact iff_of_false Bool.false_ne_true (not_not.mpr (.constructor hwants))

theorem Linked.directed (hp : p.Linked) (hframe : p.Present w frame.receiver)
    (h : p.mediate frame q w = (.ok (.invoke i), w')) : i.Directed p frame q w' := by
  cases dispatched h with
  | get ht hg | getSelf _ ht hg =>
      obtain ⟨-, ho, -⟩ := target_eq_ok ht
      exact directed_of_suits nofun (suits_of_getAttribute (Option.isSome_iff_exists.mpr ho) hg)
  | call ht hg | callSelf _ ht hg =>
      obtain ⟨-, ho, hc⟩ := target_eq_ok ht
      exact directed_of_suits nofun (suits_of_callMethod (Option.isSome_iff_exists.mpr ho) hc hg)
  | callOwnClass _ hc hg | callStatic hc hg =>
      exact directed_of_suits nofun (suits_of_callStatic hc hg)
  | callSuper hg => exact directed_of_callSuper hframe hg
  | callFunction hf hi =>
      subst hi
      have hkind := hp.kind_of_mem_functions (List.mem_of_find?_eq_some hf)
      exact directed_of_suits nofun ⟨trivial, by rw [hkind]; rfl⟩
  | instantiate _ _ hi =>
      subst hi
      exact directed_of_instantiate _

/-! ### Running bodies -/

variable {s t : RunState} {e : Event} {es : List Event}

def AllPresent (p : Program) (s : RunState) : Prop :=
  ∀ frame ∈ s.frames, p.Present s.world frame.receiver

theorem AllPresent.step (hp : p.Linked) (hs : p.AllPresent s) (h : p.Step s e t) :
    p.AllPresent t := by
  have hold {frame : Frame} (hframe : frame ∈ s.frames) : p.Present t.world frame.receiver :=
    (hs frame hframe).mono fun _ => h.isSome_find?
  have hrest {a : Activation} {stack : List Activation} {w : World}
      (hsub : s.stack = a :: stack) {frame : Frame}
      (hframe : frame ∈ RunState.frames ⟨w, stack⟩) : frame ∈ s.frames := by
    simp only [RunState.mem_frames_iff, hsub] at hframe ⊢
    rcases hframe with hframe | hframe | ⟨b, hb, hframe⟩
    · exact .inl hframe
    · exact .inr (.inl hframe)
    · exact .inr (.inr ⟨b, List.mem_cons_of_mem _ hb, hframe⟩)
  cases h with
  | answer | refuse | reject => exact fun frame hframe => hold hframe
  | @start _ caller inner q i body w hcaller hq henter =>
      intro frame hframe
      rcases RunState.mem_frames_iff.mp hframe with rfl | rfl | ⟨b, hb, rfl⟩
      · trivial
      · trivial
      · rcases List.mem_cons.mp hb with rfl | hb
        · obtain ⟨bound, -, -, rfl⟩ := enter_eq_ok henter
          exact (hp.directed (hs caller hcaller) hq).present
        · exact hold (RunState.mem_frames_iff.mpr (.inr (.inr ⟨b, hb, rfl⟩)))
  | finish | fail => exact fun frame hframe => hold (hrest rfl hframe)

theorem Run.allPresent (hp : p.Linked) (h : p.Run {} es s) : p.AllPresent s := by
  refine h.invariant (fun hs hst => hs.step hp hst) ?_
  intro frame hframe
  rcases RunState.mem_frames_iff.mp hframe with rfl | rfl | ⟨b, hb, rfl⟩
  · trivial
  · trivial
  · cases hb

theorem Step.suits_iff (hp : p.Linked) (hs : p.AllPresent s) {a : Activation}
    (h : p.Step s (.started frame q a) t) :
    a.callable.kind.suits a.frame.receiver = true ↔ ¬ Misdirects frame a.callable q := by
  cases h with
  | start hframe hq henter =>
      obtain ⟨bound, -, -, rfl⟩ := enter_eq_ok henter
      exact (hp.directed (hs frame hframe) hq).suits_iff

/-- Every body of a run has been started by a request, and its receiver is there. The receiver is an
object for a method or a property, a class for a class method, and none for a static method or a
function, whichever request it was, unless that was a super call of a body that runs on a class to a
callable that wants an object, or made an object whose constructor does not want one. In these two
cases it never is. -/
theorem Run.receiver_suits_iff (hp : p.Linked) (h : p.Run {} es s) :
    (∀ a ∈ s.stack, p.Present s.world a.frame.receiver ∧
      ∃ frame q, .started frame q a ∈ es) ∧
      ∀ frame q a, .started frame q a ∈ es →
        (a.callable.kind.suits a.frame.receiver = true ↔ ¬ Misdirects frame a.callable q) := by
  refine ⟨?_, ?_⟩
  · intro a ha
    have hframe := RunState.mem_frames_iff.mpr (.inr (.inr ⟨a, ha, rfl⟩))
    have hpresent := h.allPresent hp a.frame hframe
    exact ⟨hpresent, h.exists_started ha⟩
  · intro frame q a he
    obtain ⟨before, after, u, t, -, hrun, hst⟩ := h.split_of_mem he
    exact hst.suits_iff hp (hrun.allPresent hp)

end Program

/-! ### A guild -/

def guildCalls : Body := fun _ => .request (.instantiate "Chapter" {})

def chapterCalls : Body := fun _ => .request (.callSuper "call" {})

def chapterOpens : Body := fun _ => .done (.ok .none)

/-- A member of a guild is called, and a chapter calls in its own name, by way of its guild. A
chapter is opened by nobody in particular. -/
def guildDecls : List Declaration :=
  [.cls (({ name := "Guild" : ClassDecl }).method "call"
      { returns := some (.type .any), markers := { isVirtual := true }, body := some guildCalls }),
    .cls (((({ name := "Chapter" : ClassDecl }).extend "Guild").constructor
      { kind := .staticMethod, returns := some (.type .noValue), body := some chapterOpens }).method
      "call"
      { kind := .classMethod, returns := some (.type .any), markers := { isOverride := true },
        body := some chapterCalls })]

namespace Program

def guilds : Program := (declared {} guildDecls).toOption.getD {}

theorem linked_guilds : guilds.Linked := by
  have hok : (declared {} guildDecls).isOk = true := by cbv
  exact linked_of_declared (eq_ok_of_isOk hok {})

theorem mode_guilds : guilds.mode = .enforced := by cbv

/-- A chapter while it calls. -/
def chapterCalling : Activation where
  invocation :=
    { callable :=
        { name := "call", owner := some "Chapter", kind := .classMethod, returns := some .any
          markers := { isOverride := true }, body := some chapterCalls }
      receiver := .cls "Chapter" }
  frame := { caller := .method "Chapter" "call" (some "Chapter"), receiver := .cls "Chapter" }

/-- The method of the guild while the chapter calls. -/
def guildCalling : Activation where
  invocation :=
    { callable :=
        { name := "call", owner := some "Guild", kind := .method, returns := some .any
          markers := { isVirtual := true }, body := some guildCalls }
      receiver := .cls "Chapter" }
  frame := { caller := .method "Guild" "call" (some "Chapter"), receiver := .cls "Chapter" }

def chapterRef : ObjectRef := ⟨.stored 0, ["Chapter", "Guild"]⟩

/-- The constructor of a chapter while it runs. -/
def chapterOpening : Activation where
  invocation :=
    { callable :=
        { name := constructorName, owner := some "Chapter", kind := .staticMethod
          returns := some .noValue, body := some chapterOpens }
      receiver := .object chapterRef
      ending := .object chapterRef }
  frame :=
    { caller := .method "Chapter" constructorName (some "Chapter"), receiver := .object chapterRef }

def chapterWorld : World := (World.allocate ∅ ["Chapter", "Guild"]).2

def guildStack : List Activation := [chapterOpening, guildCalling, chapterCalling]

def guildEvents : List Event :=
  [.started .main (.callStatic "Chapter" "call" {}) chapterCalling,
    .started chapterCalling.frame (.callSuper "call" {}) guildCalling,
    .started guildCalling.frame (.instantiate "Chapter" {}) chapterOpening]

theorem run_guilds : guilds.Run {} guildEvents ⟨chapterWorld, guildStack⟩ := by
  have hcall : guilds.mediate .main (.callStatic "Chapter" "call" {}) ∅ =
      (.ok (.invoke chapterCalling.invocation), ∅) := by cbv
  have hsuper : guilds.mediate chapterCalling.frame (.callSuper "call" {}) ∅ =
      (.ok (.invoke guildCalling.invocation), ∅) := by cbv
  have hopen : guilds.mediate guildCalling.frame (.instantiate "Chapter" {}) ∅ =
      (.ok (.invoke chapterOpening.invocation), chapterWorld) := by cbv
  have hchapter : guilds.enter chapterCalling.invocation =
      .ok (chapterCalling.frame, chapterCalls) := rfl
  have hguild : guilds.enter guildCalling.invocation = .ok (guildCalling.frame, guildCalls) := rfl
  have hopening : guilds.enter chapterOpening.invocation =
      .ok (chapterOpening.frame, chapterOpens) := rfl
  have hcalls := Run.single (.start (s := {}) (by simp [RunState.frames]) hcall hchapter)
  have hsupers := hcalls.snoc (.start (by simp [RunState.frames]) hsuper hguild)
  exact hsupers.snoc (.start (by simp [RunState.frames]) hopen hopening)

/-- A method may run on a class, and a static method on an object. -/
theorem exists_misdirected : ∃ (p : Program) (es : List Event) (s : RunState) (a b : Activation)
    (name : String) (r : ObjectRef), p.Linked ∧ p.mode = .enforced ∧ p.Run {} es s ∧
      a ∈ s.stack ∧ a.callable.kind = .method ∧ a.frame.receiver = .cls name ∧
      b ∈ s.stack ∧ b.callable.kind = .staticMethod ∧ b.frame.receiver = .object r :=
  ⟨guilds, guildEvents, _, guildCalling, chapterOpening, "Chapter", chapterRef, linked_guilds,
    mode_guilds, run_guilds, by simp [guildStack], rfl, rfl, by simp [guildStack], rfl, rfl⟩

theorem Run.receiver_suits_iff_guilds : guilds.Run {} guildEvents ⟨chapterWorld, guildStack⟩ ∧
    (∀ a ∈ guildStack, guilds.Present chapterWorld a.frame.receiver) ∧
    chapterCalling.callable.kind.suits chapterCalling.frame.receiver = true ∧
    chapterOpening.callable.kind.suits chapterOpening.frame.receiver ≠ true := by
  obtain ⟨hpresent, hsuits⟩ := Run.receiver_suits_iff linked_guilds run_guilds
  refine ⟨run_guilds, fun a ha => (hpresent a ha).1, ?_, ?_⟩
  · exact (hsuits .main (.callStatic "Chapter" "call" {}) _ (by simp [guildEvents])).mpr nofun
  · have hiff := hsuits guildCalling.frame (.instantiate "Chapter" {}) chapterOpening
      (by simp [guildEvents])
    exact fun h => hiff.mp h (.constructor rfl)

end Program

end GuardedObjects
