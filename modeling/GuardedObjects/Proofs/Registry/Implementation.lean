import GuardedObjects.Proofs.Access.Privacy
import GuardedObjects.Proofs.Registry.Entries
import GuardedObjects.Proofs.Registry.Friends
import GuardedObjects.Proofs.Table

/-!
# Implemented methods

Where the rules are enforced, the method that a class has under a name is abstract only if the class
itself declares it so, and what is not abstract has a body. A call on an object whose class declares
no abstract method therefore never ends in want of an implementation, as long as it goes by the
resolution order, which calls of private methods do not.
-/

namespace GuardedObjects

/-- The class itself declares an abstract method of that name. -/
def ClassInfo.DeclaresAbstract (c : ClassInfo) (n : String) : Prop :=
  ∃ m, c.method? n = some m ∧ m.markers.isAbstract = true

namespace ClassTable

variable {t : ClassTable} {c k : ClassInfo} {n : String} {m : Callable}

/-- The nearest inherited method of a name that the class does not declare as a callable is not
abstract. -/
def Implements (t : ClassTable) (c : ClassInfo) : Prop :=
  ∀ n, c.method? n = none → ∀ m, (t.select c.ancestors).findSome? (·.method? n) = some m →
    m.markers.isAbstract = false

end ClassTable

namespace Rule

variable {t : ClassTable} {c a : ClassInfo} {n : String}

theorem mem_abstractNames_iff : n ∈ abstractNames a ↔ a.DeclaresAbstract n := by
  simp [abstractNames, List.mem_map, List.mem_filter, Table.mem_sorted_iff,
    ClassInfo.DeclaresAbstract, ClassInfo.method?]

theorem unimplemented?_eq_none_iff :
    unimplemented? t c n = none ↔
      (c.method? n = none → ∀ m, (t.select c.ancestors).findSome? (·.method? n) = some m →
        m.markers.isAbstract = false) := by
  rw [unimplemented?, Table.contains_eq_isSome_find?, ← ClassTable.map_firstOwner?]
  cases hown : c.method? n with
  | some own => simp [show c.methods.find? n = some own from hown]
  | none =>
      simp only [show c.methods.find? n = none from hown]
      cases ClassTable.firstOwner? (·.method? n) (t.select c.ancestors) with
      | none => simp
      | some e => simp

/-- The rule passes if and only if what the class leaves to its ancestors is not abstract there. -/
theorem unimplementedIn?_eq_none_iff : unimplementedIn? t c = none ↔ t.Implements c := by
  simp only [unimplementedIn?, List.findSome?_eq_none_iff, unimplemented?_eq_none_iff]
  constructor
  -- The rule goes through the abstract names of the ancestors, and the owner is one of these.
  · intro h n hown m hm
    by_contra habstract
    obtain ⟨before, a, after, hsplit, ha, -⟩ := List.findSome?_eq_some_iff.mp hm
    have hmem : a ∈ t.select c.ancestors := by simp [hsplit]
    have hname : n ∈ abstractNames a :=
      mem_abstractNames_iff.mpr ⟨m, ha, by simpa using habstract⟩
    exact habstract (h a hmem n hname hown m hm)
  · intro h a _ n _
    exact h n

end Rule

/-- Only an abstract callable may be without a body. -/
theorem CallableDecl.isSome_body_of_resolve {d : CallableDecl} {owner : Option String}
    {name : String} {m : Callable} (h : d.resolve owner name = .ok m)
    (hm : m.markers.isAbstract = false) : m.body.isSome = true := by
  obtain ⟨hbody, -, _, _, _, _, -, rfl⟩ := resolve_eq_ok h
  cases hd : d.body with
  | some body => rfl
  | none =>
      have habstract := hbody (by rw [hd]; rfl)
      cases habstract.symm.trans hm

namespace Registry

variable {r : Registry} {c : ClassInfo} {n : String} {m : Callable}

theorem Reachable.exists_resolve_of_method? (h : r.Reachable) (hc : c ∈ r.classes.classes)
    (hm : c.method? n = some m) : ∃ decl : CallableDecl, decl.resolve (some c.name) n = .ok m := by
  induction h with
  | empty config => cases hc
  | declare _ hd ih =>
      obtain ⟨-, hresolve, -, rfl⟩ := declare_eq_ok_iff.mp hd
      rcases ClassTable.mem_push.mp hc with hc | rfl
      · exact ih hc
      · obtain ⟨_, _, -, -, hresolve⟩ := resolve_eq_ok hresolve
        exact ClassDecl.exists_resolve_of_method? hresolve hm
  | declareFunction _ hd ih =>
      obtain ⟨-, -, -, rfl⟩ := declareFunction_eq_ok_iff.mp hd
      exact ih hc

theorem Reachable.implements (h : r.Reachable) (hmode : r.config.mode = .enforced)
    (hc : c ∈ r.classes.classes) : r.classes.Implements c := by
  have hreview := h.review?_eq_none hc
  rw [rules_of_enforced hmode] at hreview
  have hrule := ClassTable.violation_eq_none hreview .abstractImplementation
  exact Rule.unimplementedIn?_eq_none_iff.mp hrule

theorem Reachable.isSome_body_or_declaresAbstract (h : r.Reachable)
    (hmode : r.config.mode = .enforced) (hc : c ∈ r.classes.classes)
    (hm : r.classes.method? c n = some m) : m.body.isSome = true ∨ c.DeclaresAbstract n := by
  rw [ClassTable.method?, ClassTable.lineage, List.findSome?_cons] at hm
  cases hown : c.method? n with
  | some own =>
      rw [hown] at hm
      cases hm
      cases habstract : m.markers.isAbstract with
      | true => exact .inr ⟨m, hown, habstract⟩
      | false =>
          obtain ⟨decl, hdecl⟩ := h.exists_resolve_of_method? hc hown
          exact .inl (CallableDecl.isSome_body_of_resolve hdecl habstract)
  | none =>
      rw [hown] at hm
      obtain ⟨k, hk, hkm⟩ := List.exists_of_findSome?_eq_some hm
      obtain ⟨decl, hdecl⟩ :=
        h.exists_resolve_of_method? (ClassTable.mem_classes_of_mem_select hk) hkm
      exact .inl (CallableDecl.isSome_body_of_resolve hdecl (h.implements hmode hc n hown m hm))

end Registry

/-! ### Calls on objects -/

/-- The object and the member that a request calls. -/
def Request.call? (frame : Frame) : Request → Option (ObjectRef × String)
  | .call v member _ => v.object?.map (·, member)
  | .callSelf member _ => frame.this.toOption.map (·, member)
  | _ => none

namespace Program

variable {p : Program} {frame : Frame} {q : Request} {w : World} {r : ObjectRef} {c : ClassInfo}
  {member callable : String}

theorem mediate_of_call? (h : q.call? frame = some (r, member)) :
    ∃ args, p.mediate frame q = p.mediate frame (.call (.object r) member args) := by
  cases q with
  | call v _ args =>
      obtain ⟨r', hr, heq⟩ := Option.map_eq_some_iff.mp h
      cases heq
      exact ⟨args, by rw [Value.object?_eq_some_iff.mp hr]⟩
  | callSelf _ args =>
      obtain ⟨r', hr, heq⟩ := Option.map_eq_some_iff.mp h
      cases heq
      exact ⟨args, mediate_callSelf (toOption_eq_some_iff.mp hr) member args⟩
  | _ => cases h

theorem readKey_ne_notImplemented (caller : Caller) :
    p.readKey caller c member ≠ .error (.notImplemented callable) := by
  intro h
  unfold readKey MemberSite.authorizeRead at h
  split at h
  · cases h
  · split at h
    · cases h
    · split at h
      · cases h
      · split at h <;> cases h

theorem callMethod_ne_notImplemented (caller : Caller) (args : Arguments) :
    p.callMethod w caller r c member args ≠ .error (.notImplemented callable) := by
  intro h
  rcases bind_eq_error_iff.mp h with hkey | ⟨key, -, h⟩
  · exact readKey_ne_notImplemented caller hkey
  · split at h <;> split at h <;> cases h

theorem target_ne_notImplemented (v : Value) :
    p.target w v member ≠ .error (.notImplemented callable) := by
  intro h
  unfold target at h
  split at h
  · split at h <;> cases h
  · cases h

/-- A call on an object does not fail in want of an implementation before it has come to an
invocation. -/
theorem mediate_call_ne_notImplemented (h : q.call? frame = some (r, member)) {w' : World} :
    p.mediate frame q w ≠ (.error (.notImplemented callable), w') := by
  intro hq
  obtain ⟨args, hcall⟩ := mediate_of_call? (p := p) h
  rw [hcall] at hq
  rcases bind_eq_error_iff.mp (congrArg Prod.fst hq) with htarget | ⟨found, -, hq⟩
  · exact target_ne_notImplemented _ htarget
  · exact callMethod_ne_notImplemented _ _ hq

/-- A call of a method that is not private runs the method that the resolution order selects. -/
theorem method_of_mediate_call (h : q.call? frame = some (r, member))
    (hpriv : Visibility.ofName member ≠ .priv) {i : Invocation} {w' : World}
    (hq : p.mediate frame q w = (.ok (.invoke i), w')) :
    ∃ c, p.classes.find? r.className = some c ∧ p.classes.method? c member = some i.callable := by
  obtain ⟨args, hcall⟩ := mediate_of_call? (p := p) h
  rw [hcall] at hq
  obtain ⟨⟨r', c⟩, htarget, hq⟩ := bind_eq_ok_iff.mp (congrArg Prod.fst hq)
  obtain ⟨hr, -, hc⟩ := target_eq_ok htarget
  cases hr
  obtain ⟨key, m, hkey, hm, -, hi⟩ := callMethod_eq_ok hq
  cases hi
  obtain ⟨grant, rfl⟩ := exists_grant_of_readKey hkey
  have hshared : (MemberSite.locate p.classes c member frame.caller).key grant c.name =
      .shared member := if_neg hpriv
  rw [hshared] at hm
  exact ⟨c, hc, hm⟩

theorem argumentFault?_ne_notImplemented {m : Callable} {bound : BoundArgs} :
    argumentFault? m bound ≠ some (.notImplemented callable) := by
  intro h
  obtain ⟨⟨x, arg⟩, -, he⟩ := List.exists_of_findSome?_eq_some h
  simp only at he
  split at he
  · split at he <;> simp at he
  · cases he

theorem body_of_enter_eq_error {i : Invocation}
    (h : p.enter i = .error (.notImplemented callable)) : i.callable.body = none := by
  rcases bind_eq_error_iff.mp h with hbound | ⟨bound, -, h⟩
  · obtain ⟨problem, -, hproblem⟩ := mapError_eq_error_iff.mp hbound
    cases hproblem
  · rcases bind_eq_error_iff.mp h with hchecked | ⟨-, -, h⟩
    · unfold checked at hchecked
      split at hchecked
      · rename_i hfault
        split at hchecked <;> cases hchecked
        exact absurd hfault argumentFault?_ne_notImplemented
      · cases hchecked
    · split at h
      · assumption
      · cases h

end Program

namespace Registry

variable {r : Registry} {p : Program} {c : ClassInfo}

theorem Reachable.isSome_body_of_method? (h : r.Reachable) (hmode : r.config.mode = .enforced)
    (hlink : r.link = .ok p) (hc : c ∈ p.classes.classes) (hnone : ∀ n, ¬c.DeclaresAbstract n)
    {n : String} {m : Callable} (hm : p.classes.method? c n = some m) : m.body.isSome = true := by
  obtain ⟨g, hg, hclasses⟩ := exists_map_of_link h hlink
  rw [hclasses] at hc hm
  obtain ⟨k, hk, rfl⟩ := ClassTable.mem_map.mp hc
  rw [ClassTable.method?_map hg] at hm
  rcases h.isSome_body_or_declaresAbstract hmode hk hm with hbody | ⟨m', hm', habstract⟩
  · exact hbody
  · exact absurd ⟨m', (hg.method? k n).trans hm', habstract⟩ (hnone n)

/-- In a registry that enforces the rules, the rule on abstract methods passes for a class if and
only if what it does not declare as a callable is not abstract where its ancestors have it first.
Whatever method an accepted class has under a name therefore has a body, unless the class itself
declares it abstract. A call of a method that is not private, on an object whose class declares
no abstract method, does not fail in want of an implementation. -/
theorem Reachable.abstract_implemented (h : r.Reachable) (hmode : r.config.mode = .enforced) :
    (∀ c, Rule.abstractImplementation.classViolation? r.classes c = none ↔
      r.classes.Implements c) ∧
    (∀ c ∈ r.classes.classes, ∀ n m, r.classes.method? c n = some m →
      m.body.isSome = true ∨ c.DeclaresAbstract n) ∧
    ∀ p, r.link = .ok p → ∀ c ∈ p.classes.classes, (∀ n, ¬c.DeclaresAbstract n) →
      ∀ frame q ref member, Request.call? frame q = some (ref, member) → ref.className = c.name →
        Visibility.ofName member ≠ .priv → ∀ s t i callable,
          ¬p.Step s (.refused frame q (.notImplemented callable)) t ∧
          ¬p.Step s (.rejected frame q i (.notImplemented callable)) t := by
  refine ⟨fun c => Rule.unimplementedIn?_eq_none_iff, ?_, ?_⟩
  · intro c hc n m hm
    exact h.isSome_body_or_declaresAbstract hmode hc hm
  · intro p hlink c hc hnone frame q ref member hcall hclass hpriv s t i callable
    constructor
    · rintro (_ | ⟨_, hq⟩)
      exact Program.mediate_call_ne_notImplemented hcall hq
    · intro hst
      cases hst with
      | reject _ hq henter =>
          obtain ⟨k, hk, hm⟩ := Program.method_of_mediate_call hcall hpriv hq
          have hself : p.classes.find? c.name = some c :=
            (Program.Linked.wellOrdered ⟨r, h, hlink⟩).find?_self hc
          rw [hclass, hself] at hk
          cases hk
          have hbody := h.isSome_body_of_method? hmode hlink hc hnone hm
          rw [Program.body_of_enter_eq_error henter] at hbody
          cases hbody

/-! ### Cranes -/

/-- A machine moves in some way, and a crane is a machine that moves in a way of its own. -/
def machineDecls : List Declaration :=
  [.cls (({ name := "Machine" : ClassDecl }).method "move"
      { moveDecl { isAbstract := true } with body := none }),
    .cls ((({ name := "Crane" : ClassDecl }).extend "Machine").method "move"
      (moveDecl { isOverride := true }))]

def machines : Registry := (({} : Registry).acceptAll machineDecls).toOption.getD {}

theorem reachable_machines : machines.Reachable := by
  have hok : (({} : Registry).acceptAll machineDecls).isOk = true := by cbv
  exact (Reachable.empty {}).acceptAll (eq_ok_of_isOk hok {})

/-- However a crane is asked to move, the machine that does not say how is not in the way. -/
theorem Reachable.abstract_implemented_crane :
    ∃ p machine crane, machines.link = .ok p ∧ machine ∈ p.classes.select crane.ancestors ∧
      machine.DeclaresAbstract "move" ∧ crane ∈ p.classes.classes ∧
      ∀ s t i callable args, ¬p.Step s
        (.rejected .main (.call (.object ⟨.stored 0, crane.order⟩) "move" args) i
          (.notImplemented callable)) t := by
  have hok : machines.link.isOk = true := by cbv
  have hmode : machines.config.mode = .enforced := by cbv
  obtain ⟨p, hlink⟩ := exists_eq_ok_of_isOk hok
  have hp : p = machines.link.toOption.getD {} := by
    rw [hlink]
    rfl
  have hcrane : (p.classes.find? "Crane").any (fun crane =>
      crane.ancestors.contains "Machine" &&
        crane.methods.entries.all fun e => !e.2.markers.isAbstract) = true := by
    rw [hp]
    cbv
  have hmachine : (p.classes.find? "Machine").any (fun machine =>
      (machine.method? "move").any fun m => m.markers.isAbstract) = true := by
    rw [hp]
    cbv
  obtain ⟨crane, hcrane, hshape⟩ := (Option.any_eq_true _ _).mp hcrane
  obtain ⟨machine, hmachine, hmove⟩ := (Option.any_eq_true _ _).mp hmachine
  obtain ⟨hancestor, hconcrete⟩ := Bool.and_eq_true_iff.mp hshape
  obtain ⟨m, hm, habstract⟩ := (Option.any_eq_true _ _).mp hmove
  have hmem := List.mem_of_find?_eq_some hcrane
  refine ⟨p, machine, crane, hlink, ?_, ⟨m, hm, habstract⟩, hmem, ?_⟩
  · exact List.mem_filterMap.mpr ⟨"Machine", by simpa using hancestor, hmachine⟩
  · intro s t i callable args
    have hnone : ∀ n, ¬crane.DeclaresAbstract n := by
      rintro n ⟨own, hown, habstract⟩
      have hentry := List.all_eq_true.mp hconcrete _ (Table.mem_of_find?_eq_some hown)
      simp [habstract] at hentry
    exact ((Reachable.abstract_implemented reachable_machines hmode).2.2 p hlink crane hmem hnone
      .main _ _ "move" rfl rfl (by decide) s t i callable).2

end Registry

end GuardedObjects
