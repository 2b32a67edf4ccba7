import GuardedObjects.Proofs.Except
import GuardedObjects.Program.Mediation

/-!
# What requests come to

Inversions of `Program.mediate`. `Program.mediated` says what answering a request may do to the
objects, and `Program.answers` says where an answer comes from: from a member that the caller may
read, or from a super call, a function or a constructor. `Program.dispatched` says which operation
has led to an invocation, and the inversions of the operations say what that is: which callable, on
which receiver.
-/

namespace GuardedObjects

namespace CallableKind

/-- Bodies of the kind are to run on an object. -/
def wantsObject : CallableKind → Bool
  | .method | .property | .cachedProperty => true
  | .classMethod | .staticMethod | .function => false

/-- What a member of the kind runs on when it is called: what the call hands on to it, the class, or
nothing. -/
def receiver (handed : Receiver) (cls : String) : CallableKind → Receiver
  | .method | .property | .cachedProperty => handed
  | .classMethod => .cls cls
  | .staticMethod | .function => .none

end CallableKind

theorem Value.object?_eq_some_iff {v : Value} {r : ObjectRef} :
    v.object? = some r ↔ v = .object r := by
  cases v <;> simp [Value.object?]

namespace Request

/-- The object that a request is made on. -/
def target? (frame : Frame) : Request → Option ObjectRef
  | .get v _ | .set v _ _ | .call v _ _ => v.object?
  | .getSelf _ | .setSelf _ _ | .callSelf _ _ =>
    match frame.receiver with
    | .object r => some r
    | .none | .cls _ => none
  | _ => none

/-- The member and the value of a write. -/
def written? : Request → Option (String × Value)
  | .set _ member v | .setSelf member v => some (member, v)
  | _ => none

end Request

namespace Program

/-- The class that a request for a member is made on, or the exact class of the object, with the
name of the member. -/
def subject? (p : Program) (frame : Frame) : Request → Option (ClassInfo × String)
  | .get v member | .set v member _ | .call v member _ =>
    (v.object?.bind fun r => p.classes.find? r.className).map (·, member)
  | .getSelf member | .setSelf member _ | .callSelf member _ | .callSuper member _ =>
    (frame.receiver.className?.bind p.classes.find?).map (·, member)
  | .callStatic owner member _ => (p.classes.find? owner).map (·, member)
  | _ => none

variable {p : Program} {frame : Frame} {q : Request} {w : World}

theorem target_eq_ok {v : Value} {member : String} {r : ObjectRef} {c : ClassInfo}
    (h : p.target w v member = .ok (r, c)) :
    v = .object r ∧ (∃ o, w.find? r = some o) ∧ p.classes.find? r.className = some c := by
  unfold target at h
  cases v with
  | object r' =>
      simp only at h
      split at h
      · rename_i o c' ho hc
        cases h
        exact ⟨rfl, ⟨o, ho⟩, hc⟩
      · cases h
  | _ => cases h

theorem requireClass_eq_ok {name : String} {c : ClassInfo} (h : p.requireClass name = .ok c) :
    p.classes.find? name = some c := by
  unfold requireClass at h
  split at h
  · rename_i hc
    cases h
    exact hc
  · cases h

theorem this_eq_ok {r : ObjectRef} (h : frame.this = .ok r) : frame.receiver = .object r := by
  unfold Frame.this at h
  split at h <;> cases h
  assumption

theorem this_of_receiver {r : ObjectRef} (h : frame.receiver = .object r) : frame.this = .ok r := by
  rw [Frame.this, h]

theorem class_of_subject? {r : ObjectRef} {c : ClassInfo} {member : String}
    (hr : q.target? frame = some r) (hs : p.subject? frame q = some (c, member)) :
    p.classes.find? r.className = some c := by
  cases q with
  | get v _ | set v _ _ | call v _ _ =>
      obtain ⟨c', hc, heq⟩ := Option.map_eq_some_iff.mp hs
      cases heq
      obtain ⟨r', hr', hc⟩ := Option.bind_eq_some_iff.mp hc
      cases hr.symm.trans hr'
      exact hc
  | getSelf _ | setSelf _ _ | callSelf _ _ =>
      cases hrec : frame.receiver with
      | object r' =>
          obtain ⟨c', hc, heq⟩ := Option.map_eq_some_iff.mp hs
          cases heq
          simp only [Request.target?, hrec, Option.some.injEq] at hr
          subst hr
          simpa [hrec, Receiver.className?] using hc
      | none | cls _ => simp [Request.target?, hrec] at hr
  | _ => cases hr

/-! ### Requests on the receiver -/

section

variable {r : ObjectRef} (h : frame.this = .ok r) (member : String)

include h

theorem mediate_getSelf :
    p.mediate frame (.getSelf member) = p.mediate frame (.get (.object r) member) := by
  simp only [mediate, h, ok_bind]

theorem mediate_setSelf (v : Value) :
    p.mediate frame (.setSelf member v) = p.mediate frame (.set (.object r) member v) := by
  simp only [mediate, h, ok_bind]

theorem mediate_callSelf (args : Arguments) :
    p.mediate frame (.callSelf member args) = p.mediate frame (.call (.object r) member args) := by
  simp only [mediate, this_eq_ok h, h, ok_bind]

theorem subject?_getSelf :
    p.subject? frame (.getSelf member) = p.subject? frame (.get (.object r) member) := by
  simp [subject?, this_eq_ok h, Receiver.className?, Value.object?]

theorem subject?_callSelf (args : Arguments) :
    p.subject? frame (.callSelf member args) =
      p.subject? frame (.call (.object r) member args) := by
  simp [subject?, this_eq_ok h, Receiver.className?, Value.object?]

end

theorem mediate_callSelf_cls {name : String} (h : frame.receiver = .cls name) (member : String)
    (args : Arguments) :
    p.mediate frame (.callSelf member args) = p.mediate frame (.callStatic name member args) := by
  simp only [mediate, h]

theorem subject?_callSelf_cls {name : String} (h : frame.receiver = .cls name) (member : String)
    (args : Arguments) :
    p.subject? frame (.callSelf member args) =
      p.subject? frame (.callStatic name member args) := by
  simp [subject?, h, Receiver.className?]

/-- Only a body that has a receiver can call a method of it. -/
theorem receiver_of_callSelf {member : String} {args : Arguments} {w' : World} {a : Answer}
    (h : p.mediate frame (.callSelf member args) w = (.ok a, w')) :
    (∃ name, frame.receiver = .cls name) ∨ ∃ r, frame.this = .ok r := by
  cases hrec : frame.receiver with
  | cls name => exact .inl ⟨name, rfl⟩
  | object r => exact .inr ⟨r, this_of_receiver hrec⟩
  | none =>
      simp only [mediate, hrec] at h
      obtain ⟨r, hthis, -⟩ := bind_eq_ok_iff.mp (congrArg Prod.fst h)
      exact .inr ⟨r, hthis⟩

/-! ### Effects on objects -/

theorem setAttribute_apply (caller : Caller) (r : ObjectRef) (c : ClassInfo) (member : String)
    (v : Value) (w : World) :
    p.setAttribute caller r c member v w =
      match w.find? r with
      | none => (.error (.notAnObject member r.className), w)
      | some o =>
        match p.authorizeWrite o c member (p.writeKey caller c member) caller v with
        | .error fault => (.error fault, w)
        | .ok fix =>
          (.ok (.value .effect .none), w.update r (·.store (p.writeKey caller c member) v fix)) := by
  simp only [setAttribute, Effect.bind_apply, Effect.read]
  cases w.find? r with
  | none => rfl
  | some o =>
      simp only
      cases p.authorizeWrite o c member (p.writeKey caller c member) caller v <;> rfl

theorem instantiate_apply (owner : String) (args : Arguments) (w : World) :
    p.instantiate owner args w =
      match p.classes.find? owner with
      | none => (.error (.unknownClass owner), w)
      | some c =>
        let (r, w) := w.allocate c.order
        match p.classes.method? c constructorName with
        | some m =>
          (.ok (.invoke { callable := m, receiver := .object r, args, ending := .object r }), w)
        | none =>
          if args.isEmpty then (.ok (.value .effect (.object r)), w)
          else (.error (.binding s!"{c.name}.{constructorName}" .noConstructor), w) := by
  simp only [instantiate, Effect.bind_apply, Effect.liftExcept_apply, Effect.modifyGet_apply,
    requireClass]
  cases p.classes.find? owner with
  | none => rfl
  | some c =>
      simp only
      cases p.classes.method? c constructorName with
      | some m => rfl
      | none => cases args.isEmpty <;> rfl

/-- What answering a request may do to the objects. A write that succeeds stores a value, and a
request to make an object makes one; apart from these the objects stay as they are. -/
inductive Mediated (p : Program) (frame : Frame) (q : Request) (w : World) :
    Except Fault Answer → World → Prop
  | kept {result : Except Fault Answer} {w' : World} :
      w'.objects = w.objects → (q.written? = none ∨ ∃ fault, result = .error fault) →
      Mediated p frame q w result w'
  | written {r : ObjectRef} {c : ClassInfo} {o : Instance} {member : String} {v : Value}
      {fix : Bool} :
      q.target? frame = some r → q.written? = some (member, v) →
      p.subject? frame q = some (c, member) → w.find? r = some o →
      p.authorizeWrite o c member (p.writeKey frame.caller c member) frame.caller v = .ok fix →
      Mediated p frame q w (.ok (.value .effect .none))
        (w.update r (·.store (p.writeKey frame.caller c member) v fix))
  | allocated {owner : String} {args : Arguments} {c : ClassInfo}
      {result : Except Fault Answer} :
      q = .instantiate owner args → p.classes.find? owner = some c →
      Mediated p frame q w result (w.allocate c.order).2

theorem mediated_setAttribute {r : ObjectRef} {c : ClassInfo} {o : Instance} {member : String}
    {v : Value} (ht : q.target? frame = some r) (hq : q.written? = some (member, v))
    (hs : p.subject? frame q = some (c, member)) (ho : w.find? r = some o) :
    Mediated p frame q w (p.setAttribute frame.caller r c member v w).1
      (p.setAttribute frame.caller r c member v w).2 := by
  simp only [setAttribute_apply, ho]
  cases ha : p.authorizeWrite o c member (p.writeKey frame.caller c member) frame.caller v with
  | error fault => exact .kept rfl (.inr ⟨fault, rfl⟩)
  | ok fix => exact .written ht hq hs ho ha

theorem mediated_mediate (frame : Frame) (q : Request) (w : World) :
    p.Mediated frame q w (p.mediate frame q w).1 (p.mediate frame q w).2 := by
  cases q with
  | set v member value =>
      simp only [mediate, Effect.bind_apply, Effect.read]
      rcases ht : p.target w v member with fault | ⟨r, c⟩
      · exact .kept rfl (.inr ⟨fault, rfl⟩)
      · obtain ⟨rfl, ⟨o, ho⟩, hc⟩ := target_eq_ok ht
        exact mediated_setAttribute rfl rfl (by simp [subject?, Value.object?, hc]) ho
  | setSelf member value =>
      simp only [mediate, Effect.bind_apply, Effect.read]
      rcases hr : frame.this with fault | r
      · exact .kept rfl (.inr ⟨fault, rfl⟩)
      · have hrec := this_eq_ok hr
        simp only [ok_bind]
        rcases ht : p.target w (.object r) member with fault | ⟨r', c⟩
        · exact .kept rfl (.inr ⟨fault, rfl⟩)
        · obtain ⟨hv, ⟨o, ho⟩, hc⟩ := target_eq_ok ht
          cases hv
          refine mediated_setAttribute (q := .setSelf member value) ?_ rfl ?_ ho
          · simp [Request.target?, hrec]
          · simp [subject?, hrec, Receiver.className?, hc]
  | instantiate owner args =>
      simp only [mediate, instantiate_apply]
      cases hc : p.classes.find? owner with
      | none => exact .kept rfl (.inl rfl)
      | some c =>
          simp only
          cases p.classes.method? c constructorName with
          | some m => exact .allocated rfl hc
          | none => cases args.isEmpty <;> exact .allocated rfl hc
  | callSelf member args =>
      simp only [mediate]
      cases frame.receiver <;> exact .kept rfl (.inl rfl)
  | _ => exact .kept rfl (.inl rfl)

theorem mediated {result : Except Fault Answer} {w' : World}
    (h : p.mediate frame q w = (result, w')) : p.Mediated frame q w result w' := by
  have hm := p.mediated_mediate frame q w
  rwa [h] at hm

/-! ### Members -/

section

variable {caller : Caller} {c : ClassInfo} {member : String} {args : Arguments} {a : Answer}

/-- A read runs a property that the caller may read, and a cached one only as long as the object
keeps no value for it. -/
theorem getAttribute_eq_invoke {r : ObjectRef} {i : Invocation}
    (h : p.getAttribute w caller r c member = .ok (.invoke i)) :
    ∃ key m, p.readKey caller c member = .ok key ∧ p.classes.methodAt? c key = some m ∧
      m.kind.isProperty = true ∧
      (i = { callable := m, receiver := .object r } ∨
        m.kind = .cachedProperty ∧ w.cached? r m.qualifiedName = none ∧
          i = { callable := m, receiver := .object r, ending := .cache r m.qualifiedName }) := by
  unfold getAttribute at h
  obtain ⟨key, hk, h⟩ := bind_eq_ok_iff.mp h
  split at h
  · cases h
  · split at h
    · rename_i m hm
      split at h
      · rename_i hproperty
        refine ⟨key, m, hk, hm, hproperty, ?_⟩
        simp only [readProperty] at h
        split at h
        · rename_i hkind
          split at h <;> cases h
          exact .inr ⟨hkind, by assumption, rfl⟩
        · cases h
          exact .inl rfl
      · cases h
    · split at h <;> cases h

/-- A call on an object runs a member that the caller may read and that is no property. -/
theorem callMethod_eq_ok {r : ObjectRef}
    (h : p.callMethod w caller r c member args = .ok a) :
    ∃ key m, p.readKey caller c member = .ok key ∧ p.classes.methodAt? c key = some m ∧
      m.kind.isProperty = false ∧
      a = .invoke { callable := m, receiver := m.kind.receiver (.object r) c.name, args } := by
  unfold callMethod at h
  obtain ⟨key, hk, h⟩ := bind_eq_ok_iff.mp h
  split at h
  · rename_i m hm
    refine ⟨key, m, hk, hm, ?_⟩
    split at h <;> rename_i hkind <;> cases h <;> rw [hkind] <;> exact ⟨rfl, rfl⟩
  · split at h <;> cases h

/-- A call on a class runs a member that the caller may read and that wants no object. -/
theorem callStatic_eq_ok (h : p.callStatic caller c member args = .ok a) :
    ∃ key m, p.readKey caller c member = .ok key ∧ p.classes.methodAt? c key = some m ∧
      m.kind.wantsObject = false ∧
      a = .invoke { callable := m, receiver := m.kind.receiver .none c.name, args } := by
  unfold callStatic at h
  obtain ⟨key, hk, h⟩ := bind_eq_ok_iff.mp h
  split at h
  · rename_i m hm
    refine ⟨key, m, hk, hm, ?_⟩
    split at h <;> rename_i hkind <;> cases h <;> rw [hkind] <;> exact ⟨rfl, rfl⟩
  · cases h

/-- A super call runs a method of the resolution order of the receiver's class, and never a private
one. It hands its receiver on to a method that wants an object. -/
theorem callSuper_eq_ok {receiver : Receiver}
    (h : p.callSuper caller receiver member args = .ok a) :
    ∃ cls c k m, receiver.className? = some cls ∧ p.classes.find? cls = some c ∧
      k ∈ p.classes.lineage c ∧ k.method? member = some m ∧ Visibility.ofName member ≠ .priv ∧
      a = .invoke { callable := m, receiver := m.kind.receiver receiver c.name, args } := by
  unfold callSuper at h
  split at h
  · rename_i declaring c _ hc
    obtain ⟨cls, hcls, hc⟩ := Option.bind_eq_some_iff.mp hc
    split at h
    · cases h
    · rename_i owner m hm
      obtain ⟨k, hk, hkm⟩ := List.exists_of_findSome?_eq_some hm
      obtain ⟨m', hm', heq⟩ := Option.map_eq_some_iff.mp hkm
      cases heq
      have hmem : owner ∈ p.classes.lineage c :=
        (List.dropWhile_sublist _).subset (List.mem_of_mem_drop hk)
      split at h
      · cases h
      · rename_i hpriv
        refine ⟨cls, c, owner, m, hcls, hc, hmem, hm', hpriv, ?_⟩
        split at h <;> rename_i hkind <;> cases h <;> rw [hkind] <;> rfl
  · cases h

end

/-! ### Origins of answers -/

/-- Where an answer comes from. Whatever belongs to a member of a class is found under the key by
which the caller reads that member. -/
inductive Answers (p : Program) (frame : Frame) (q : Request) (w : World) : Answer → Prop
  | slot {r : ObjectRef} {c : ClassInfo} {member : String} {key : SlotKey} {v : Value} :
      q.target? frame = some r → p.subject? frame q = some (c, member) →
      p.readKey frame.caller c member = .ok key → w.slot? r key = some v →
      Answers p frame q w (.value (.slot key) v)
  | classValue {c : ClassInfo} {member : String} {key : SlotKey} {v : Value} :
      p.subject? frame q = some (c, member) → p.readKey frame.caller c member = .ok key →
      p.classes.valueAt? c key = some v → Answers p frame q w (.value (.classValue key) v)
  | cache {r : ObjectRef} {c : ClassInfo} {member : String} {key : SlotKey} {m : Callable}
      {v : Value} :
      q.target? frame = some r → p.subject? frame q = some (c, member) →
      p.readKey frame.caller c member = .ok key → p.classes.methodAt? c key = some m →
      w.cached? r m.qualifiedName = some v → Answers p frame q w (.value (.cache m) v)
  | effect {v : Value} : Answers p frame q w (.value .effect v)
  | member {c : ClassInfo} {member : String} {key : SlotKey} {i : Invocation} :
      p.subject? frame q = some (c, member) → p.readKey frame.caller c member = .ok key →
      p.classes.methodAt? c key = some i.callable → Answers p frame q w (.invoke i)
  | super {c k : ClassInfo} {member : String} {args : Arguments} {i : Invocation} :
      q = .callSuper member args → p.subject? frame q = some (c, member) →
      k ∈ p.classes.lineage c → k.method? member = some i.callable →
      Visibility.ofName member ≠ .priv → Answers p frame q w (.invoke i)
  | function {name : String} {args : Arguments} {f : Callable} :
      q = .callFunction name args → p.function? name = some f →
      Answers p frame q w (.invoke { callable := f, receiver := .none, args })
  | constructor {owner : String} {args : Arguments} {c : ClassInfo} {m : Callable}
      {r : ObjectRef} :
      q = .instantiate owner args → p.classes.find? owner = some c →
      p.classes.method? c constructorName = some m →
      Answers p frame q w
        (.invoke { callable := m, receiver := .object r, args, ending := .object r })

section

variable {r : ObjectRef} {c : ClassInfo} {member : String} {args : Arguments} {a : Answer}

theorem answers_getAttribute (hr : q.target? frame = some r)
    (hs : p.subject? frame q = some (c, member))
    (h : p.getAttribute w frame.caller r c member = .ok a) : p.Answers frame q w a := by
  unfold getAttribute at h
  obtain ⟨key, hk, h⟩ := bind_eq_ok_iff.mp h
  split at h
  · rename_i v hv
    cases h
    exact .slot hr hs hk hv
  · split at h
    · rename_i m hm
      split at h
      · cases h
        unfold readProperty
        split
        · split
          · rename_i v hv
            exact .cache hr hs hk hm hv
          · exact .member hs hk hm
        · exact .member hs hk hm
      · cases h
    · split at h
      · rename_i v hv
        cases h
        exact .classValue hs hk hv
      · cases h

theorem answers_callMethod (hs : p.subject? frame q = some (c, member))
    (h : p.callMethod w frame.caller r c member args = .ok a) : p.Answers frame q w a := by
  obtain ⟨key, m, hk, hm, -, rfl⟩ := callMethod_eq_ok h
  exact .member hs hk hm

theorem answers_callStatic (hs : p.subject? frame q = some (c, member))
    (h : p.callStatic frame.caller c member args = .ok a) : p.Answers frame q w a := by
  obtain ⟨key, m, hk, hm, -, rfl⟩ := callStatic_eq_ok h
  exact .member hs hk hm

theorem answers_callSuper
    (h : p.callSuper frame.caller frame.receiver member args = .ok a) :
    p.Answers frame (.callSuper member args) w a := by
  obtain ⟨cls, c, k, m, hcls, hc, hk, hm, hpriv, rfl⟩ := callSuper_eq_ok h
  exact .super rfl (by simp [subject?, hcls, hc]) hk hm hpriv

end

theorem answers_of_written {member : String} {v : Value} (hq : q.written? = some (member, v))
    {w' : World} {a : Answer} (h : p.mediate frame q w = (.ok a, w')) :
    p.Answers frame q w a := by
  cases mediated h with
  | kept _ hw =>
      rcases hw with hw | ⟨fault, hf⟩
      · rw [hq] at hw
        cases hw
      · cases hf
  | written => exact .effect
  | allocated he =>
      subst he
      cases hq

theorem answers {w' : World} {a : Answer} (h : p.mediate frame q w = (.ok a, w')) :
    p.Answers frame q w a := by
  cases q with
  | get v member =>
      obtain ⟨⟨r, c⟩, ht, hg⟩ := bind_eq_ok_iff.mp (congrArg Prod.fst h)
      obtain ⟨rfl, -, hc⟩ := target_eq_ok ht
      exact answers_getAttribute rfl (by simp [subject?, Value.object?, hc]) hg
  | getSelf member =>
      obtain ⟨r', hr, h⟩ := bind_eq_ok_iff.mp (congrArg Prod.fst h)
      obtain ⟨⟨r, c⟩, ht, hg⟩ := bind_eq_ok_iff.mp h
      obtain ⟨hv, -, hc⟩ := target_eq_ok ht
      cases hv
      have hrec := this_eq_ok hr
      refine answers_getAttribute ?_ ?_ hg
      · simp [Request.target?, hrec]
      · simp [subject?, hrec, Receiver.className?, hc]
  | call v member args =>
      obtain ⟨⟨r, c⟩, ht, hg⟩ := bind_eq_ok_iff.mp (congrArg Prod.fst h)
      obtain ⟨rfl, -, hc⟩ := target_eq_ok ht
      exact answers_callMethod (by simp [subject?, Value.object?, hc]) hg
  | callSelf member args =>
      rcases receiver_of_callSelf h with ⟨name, hrec⟩ | ⟨r, hthis⟩
      · rw [mediate_callSelf_cls hrec] at h
        obtain ⟨c, hc, hg⟩ := bind_eq_ok_iff.mp (congrArg Prod.fst h)
        have hc := requireClass_eq_ok hc
        refine answers_callStatic ?_ hg
        rw [subject?_callSelf_cls hrec]
        simp [subject?, hc]
      · rw [mediate_callSelf hthis] at h
        obtain ⟨⟨r', c⟩, ht, hg⟩ := bind_eq_ok_iff.mp (congrArg Prod.fst h)
        obtain ⟨hv, -, hc⟩ := target_eq_ok ht
        cases hv
        refine answers_callMethod ?_ hg
        rw [subject?_callSelf hthis]
        simp [subject?, Value.object?, hc]
  | callSuper member args =>
      exact answers_callSuper (congrArg Prod.fst h)
  | callStatic owner member args =>
      obtain ⟨c, hc, hg⟩ := bind_eq_ok_iff.mp (congrArg Prod.fst h)
      have hc := requireClass_eq_ok hc
      exact answers_callStatic (by simp [subject?, hc]) hg
  | callFunction name args =>
      have hf : p.callFunction name args = .ok a := congrArg Prod.fst h
      unfold callFunction at hf
      split at hf
      · rename_i f hname
        cases hf
        exact .function rfl hname
      · cases hf
  | instantiate owner args =>
      simp only [mediate, instantiate_apply] at h
      split at h
      · cases h
      · rename_i c hc
        split at h
        · rename_i m hm
          cases h
          exact .constructor rfl hc hm
        · split at h
          · cases h
            exact .effect
          · cases h
  | set v member value | setSelf member value => exact answers_of_written rfl h
  | access owner member =>
      have ha := congrArg Prod.fst h
      simp only [mediate, Effect.read] at ha
      split at ha <;> cases ha
      exact .effect
  | outside label lineage | log v =>
      cases h
      exact .effect

/-! ### Requests that lead to an invocation -/

/-- Which operation has led to an invocation, and the world after it. Only the making of an object
changes the world. -/
inductive Dispatched (p : Program) (frame : Frame) (w : World) (i : Invocation) :
    Request → World → Prop
  | get {v : Value} {r : ObjectRef} {c : ClassInfo} {member : String} :
      p.target w v member = .ok (r, c) →
      p.getAttribute w frame.caller r c member = .ok (.invoke i) →
      Dispatched p frame w i (.get v member) w
  | getSelf {r₀ r : ObjectRef} {c : ClassInfo} {member : String} :
      frame.this = .ok r₀ → p.target w (.object r₀) member = .ok (r, c) →
      p.getAttribute w frame.caller r c member = .ok (.invoke i) →
      Dispatched p frame w i (.getSelf member) w
  | call {v : Value} {r : ObjectRef} {c : ClassInfo} {member : String} {args : Arguments} :
      p.target w v member = .ok (r, c) →
      p.callMethod w frame.caller r c member args = .ok (.invoke i) →
      Dispatched p frame w i (.call v member args) w
  | callSelf {r₀ r : ObjectRef} {c : ClassInfo} {member : String} {args : Arguments} :
      frame.this = .ok r₀ → p.target w (.object r₀) member = .ok (r, c) →
      p.callMethod w frame.caller r c member args = .ok (.invoke i) →
      Dispatched p frame w i (.callSelf member args) w
  | callOwnClass {name : String} {c : ClassInfo} {member : String} {args : Arguments} :
      frame.receiver = .cls name → p.classes.find? name = some c →
      p.callStatic frame.caller c member args = .ok (.invoke i) →
      Dispatched p frame w i (.callSelf member args) w
  | callStatic {owner : String} {c : ClassInfo} {member : String} {args : Arguments} :
      p.classes.find? owner = some c →
      p.callStatic frame.caller c member args = .ok (.invoke i) →
      Dispatched p frame w i (.callStatic owner member args) w
  | callSuper {member : String} {args : Arguments} :
      p.callSuper frame.caller frame.receiver member args = .ok (.invoke i) →
      Dispatched p frame w i (.callSuper member args) w
  | callFunction {name : String} {f : Callable} {args : Arguments} :
      p.function? name = some f → i = { callable := f, receiver := .none, args } →
      Dispatched p frame w i (.callFunction name args) w
  | instantiate {owner : String} {c : ClassInfo} {m : Callable} {args : Arguments} :
      p.classes.find? owner = some c → p.classes.method? c constructorName = some m →
      i = { callable := m, receiver := .object (w.allocate c.order).1, args,
            ending := .object (w.allocate c.order).1 } →
      Dispatched p frame w i (.instantiate owner args) (w.allocate c.order).2

theorem dispatched {i : Invocation} {w' : World}
    (h : p.mediate frame q w = (.ok (.invoke i), w')) : p.Dispatched frame w i q w' := by
  cases q with
  | get v member =>
      obtain ⟨⟨r, c⟩, ht, hg⟩ := bind_eq_ok_iff.mp (congrArg Prod.fst h)
      cases congrArg Prod.snd h
      exact .get ht hg
  | getSelf member =>
      obtain ⟨r, hthis, hg⟩ := bind_eq_ok_iff.mp (congrArg Prod.fst h)
      obtain ⟨⟨r', c⟩, ht, hg⟩ := bind_eq_ok_iff.mp hg
      cases congrArg Prod.snd h
      exact .getSelf hthis ht hg
  | call v member args =>
      obtain ⟨⟨r, c⟩, ht, hg⟩ := bind_eq_ok_iff.mp (congrArg Prod.fst h)
      cases congrArg Prod.snd h
      exact .call ht hg
  | callSelf member args =>
      rcases receiver_of_callSelf h with ⟨name, hrec⟩ | ⟨r, hthis⟩
      · rw [mediate_callSelf_cls hrec] at h
        obtain ⟨c, hc, hg⟩ := bind_eq_ok_iff.mp (congrArg Prod.fst h)
        cases congrArg Prod.snd h
        exact .callOwnClass hrec (requireClass_eq_ok hc) hg
      · rw [mediate_callSelf hthis] at h
        obtain ⟨⟨r', c⟩, ht, hg⟩ := bind_eq_ok_iff.mp (congrArg Prod.fst h)
        cases congrArg Prod.snd h
        exact .callSelf hthis ht hg
  | callSuper member args =>
      cases congrArg Prod.snd h
      exact .callSuper (congrArg Prod.fst h)
  | callStatic owner member args =>
      obtain ⟨c, hc, hg⟩ := bind_eq_ok_iff.mp (congrArg Prod.fst h)
      cases congrArg Prod.snd h
      exact .callStatic (requireClass_eq_ok hc) hg
  | callFunction name args =>
      have hf : p.callFunction name args = .ok (.invoke i) := congrArg Prod.fst h
      cases congrArg Prod.snd h
      unfold callFunction at hf
      split at hf <;> cases hf
      exact .callFunction ‹_› rfl
  | instantiate owner args =>
      simp only [mediate, instantiate_apply] at h
      split at h
      · cases h
      · rename_i c hc
        split at h
        · rename_i m hm
          cases h
          exact .instantiate hc hm rfl
        · split at h <;> cases h
  | set _ _ _ | setSelf _ _ =>
      cases mediated h with
      | kept _ hno => rcases hno with hno | ⟨_, hno⟩ <;> cases hno
      | allocated he => cases he
  | access owner member =>
      have ha := congrArg Prod.fst h
      simp only [mediate, Effect.read] at ha
      split at ha <;> cases ha
  | outside label lineage | log v => cases h

end Program

end GuardedObjects
