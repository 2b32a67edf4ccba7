import GuardedObjects.Proofs.Access.Privacy
import GuardedObjects.Proofs.Heap.Cache
import GuardedObjects.Proofs.Registry.Declarations

/-!
# Reading back

A caller that has written a member reads back what it wrote, or may not read it at all. The
exception is a private name that several classes of one object declare: a friend's grant leads to
the nearest declaration, and a write to the class of the writer. Such a read is dispatched to
another member than the write, the same one as before it. If that is a property, its body runs
after the write and may see what was written.
-/

namespace GuardedObjects

theorem ClassTable.declaringClass?_of_attributeAt? {t : ClassTable} {c : ClassInfo} {key : SlotKey}
    {ty : Ty} (h : t.attributeAt? c key = some ty) :
    (t.declaringClass? c key.name).isSome = true := by
  have hdeclared : ∃ k ∈ t.lineage c, k.attribute? key.name = some ty := by
    cases key with
    | shared name => exact List.exists_of_findSome?_eq_some h
    | priv owner name =>
        obtain ⟨k, hk, hty⟩ := Option.bind_eq_some_iff.mp h
        exact ⟨k, List.mem_of_find?_eq_some hk, hty⟩
  obtain ⟨k, hk, hty⟩ := hdeclared
  rw [declaringClass?, List.find?_isSome]
  exact ⟨k, hk, ClassInfo.declares_of_attribute? hty⟩

namespace MemberSite

variable {m : MemberSite} {grant : Grant}

/-- The rule leads a reader to another key than the one under which the same caller writes. -/
structure Splits (m : MemberSite) (grant : Grant) : Prop where
  priv : m.visibility = .priv
  friend : grant.isFriend = true
  lexical : m.lexicalOwner.isSome = true
  ne : m.lexicalOwner ≠ m.declaringOwner

theorem key_some_of_not_splits (hd : m.visibility = .priv → m.declaringOwner.isSome = true)
    (h : ¬ m.Splits grant) (fallback : String) :
    m.key (some grant) fallback = m.key none fallback := by
  by_cases hpriv : m.visibility = .priv
  · cases hfriend : grant.isFriend with
    | false => simp [key, hfriend]
    | true =>
        obtain ⟨declaring, hdeclaring⟩ := Option.isSome_iff_exists.mp (hd hpriv)
        cases hlexical : m.lexicalOwner with
        | none => simp [key, hfriend, hlexical]
        | some lexical =>
            have heq : m.lexicalOwner = m.declaringOwner := by
              by_contra hne
              exact h ⟨hpriv, hfriend, by rw [hlexical]; rfl, hne⟩
            rw [hlexical, hdeclaring, Option.some.injEq] at heq
            simp [key, hfriend, hlexical, hdeclaring, heq]
  · simp [key, hpriv]

end MemberSite

namespace Program

variable {p : Program}

/-- The caller reads the private member under the grant of a friend, and in the nearest class that
declares it, but writes it in its own class, which is another one of the resolution order. -/
def ReadsElsewhere (p : Program) (caller : Caller) (c : ClassInfo) (member : String) : Prop :=
  ∃ grant, (MemberSite.locate p.classes c member caller).grant? c caller = some grant ∧
    (MemberSite.locate p.classes c member caller).Splits grant

theorem readKey_of_declared (hmode : p.mode = .enforced) {caller : Caller} {c : ClassInfo}
    {member : String} (hd : (p.classes.declaringClass? c member).isSome = true) :
    p.readKey caller c member = .error (.accessDenied c.name member) ∨
      p.readKey caller c member = .ok (p.writeKey caller c member) ∨
      p.ReadsElsewhere caller c member := by
  have howner : (MemberSite.locate p.classes c member caller).declaringOwner.isSome = true := by
    simpa [MemberSite.locate] using hd
  simp only [readKey, MemberSite.authorizeRead, hmode]
  split
  · exact .inr (.inl rfl)
  · rw [if_neg (by simp [Option.isSome_iff_ne_none.mp howner])]
    split
    · rename_i grant hgrant
      by_cases hsplits : (MemberSite.locate p.classes c member caller).Splits grant
      · exact .inr (.inr ⟨grant, hgrant, hsplits⟩)
      · refine .inr (.inl ?_)
        rw [MemberSite.key_some_of_not_splits (fun _ => howner) hsplits]
        rfl
    · exact .inl rfl

/-- The write goes to the class of the writer, and the read to the nearest one that declares the
member. -/
theorem ReadsElsewhere.exists_keys (hmode : p.mode = .enforced) {caller : Caller} {c : ClassInfo}
    {member : String} (h : p.ReadsElsewhere caller c member)
    (hd : (p.classes.declaringClass? c member).isSome = true) :
    ∃ own nearest, caller.declaring? = some own.name ∧
      p.classes.lineageClass? c own.name = some own ∧
      p.classes.declaringClass? c member = some nearest ∧ own.name ≠ nearest.name ∧
      p.writeKey caller c member = .priv own.name member ∧
      p.readKey caller c member = .ok (.priv nearest.name member) := by
  obtain ⟨grant, hgrant, hpriv, hfriend, hlexical, hne⟩ := h
  obtain ⟨nearest, hnearest⟩ := Option.isSome_iff_exists.mp hd
  obtain ⟨owner, howner⟩ := Option.isSome_iff_exists.mp hlexical
  obtain ⟨own, hlineage, rfl⟩ := Option.map_eq_some_iff.mp howner
  obtain ⟨declaring, hdeclaring, hlineage⟩ := Option.bind_eq_some_iff.mp hlineage
  obtain rfl : own.name = declaring := by simpa using List.find?_some hlineage
  have hsite : (MemberSite.locate p.classes c member caller).declaringOwner =
      some nearest.name := by simp [MemberSite.locate, hnearest]
  have hcaller : caller ≠ .reflection := by
    rintro rfl
    rw [MemberSite.grant?_reflection] at hgrant
    cases hgrant
  rw [howner, hsite, ne_eq, Option.some.injEq] at hne
  refine ⟨own, nearest, hdeclaring, hlineage, hnearest, hne, ?_, ?_⟩
  · rw [writeKey, MemberSite.key, if_pos hpriv, howner]
    rfl
  · simp only [readKey, MemberSite.authorizeRead, hmode, hpriv, hgrant]
    simp [Visibility.isRestricted, hcaller, hsite, MemberSite.key, hpriv, hfriend]
    rfl

/-! ### A write and a read -/

theorem stored_of_serve {run : BodyRunner} {frame : Frame} {q : Request} {member : String}
    {v u : Value} {w w' : World} (hq : q.written? = some (member, v))
    (h : p.serve run frame q w = some (.ok u, w')) :
    ∃ r c o fix, q.target? frame = some r ∧ p.subject? frame q = some (c, member) ∧
      w.find? r = some o ∧
      p.authorizeWrite o c member (p.writeKey frame.caller c member) frame.caller v = .ok fix ∧
      w' = w.update r (·.store (p.writeKey frame.caller c member) v fix) := by
  rcases hm : p.mediate frame q w with ⟨result, w₁⟩
  cases mediated hm with
  | kept _ hno =>
      rcases hno with hno | ⟨fault, rfl⟩
      · rw [hq] at hno
        cases hno
      · simp [Program.serve, hm] at h
  | written hr hq' hs ho hfix =>
      rw [hq] at hq'
      cases hq'
      simp only [Program.serve, hm, Option.some.injEq, Prod.mk.injEq] at h
      exact ⟨_, _, _, _, hr, hs, ho, hfix, h.2.symm⟩
  | allocated he =>
      rw [he] at hq
      cases hq

theorem mediate_get {w : World} {r : ObjectRef} {o : Instance} {c : ClassInfo}
    (ho : w.find? r = some o) (hc : p.classes.find? r.className = some c) (frame : Frame)
    (member : String) :
    p.mediate frame (.get (.object r) member) w =
      (p.getAttribute w frame.caller r c member, w) := by
  have ht : p.target w (.object r) member = .ok (r, c) := by
    simp only [target, ho, hc]
  simp only [mediate, Effect.read, ht, ok_bind]

/-- Where a read under one key leads does not depend on what is stored under another. -/
theorem getAttribute_store {w : World} {r : ObjectRef} {o : Instance} {c : ClassInfo}
    {caller : Caller} {member : String} {key key' : SlotKey} (ho : w.find? r = some o)
    (hk : p.readKey caller c member = .ok key) (hne : key ≠ key') (v : Value) (fix : Bool) :
    p.getAttribute (w.update r (·.store key' v fix)) caller r c member =
      p.getAttribute w caller r c member := by
  have hslot : (w.update r (·.store key' v fix)).slot? r key = w.slot? r key := by
    rw [World.slot?_store ho, if_neg fun h => hne h.2]
  simp only [getAttribute, hk, ok_bind, hslot, readProperty, World.cached?_store]

/-- A frame of an enforced program that has written a member of an object is denied reading it
back, or reads what it wrote. Where its read goes elsewhere, the value is in the slot of the class
of the writer, the read means the member of the nearest class that declares it, and it is dispatched
as it was before the write: to the same value, the same invocation of a property or the same fault.
-/
theorem read_after_write (hmode : p.mode = .enforced) {run : BodyRunner} {frame : Frame}
    {target v u : Value} {member : String} {w w' : World}
    (h : p.serve run frame (.set target member v) w = some (.ok u, w')) :
    ∃ r c, target = .object r ∧ p.classes.find? r.className = some c ∧
      (¬ p.ReadsElsewhere frame.caller c member →
        p.serve run frame (.get target member) w' =
            some (.error (.accessDenied c.name member), w') ∨
          p.serve run frame (.get target member) w' = some (.ok v, w')) ∧
      (p.ReadsElsewhere frame.caller c member →
        (∃ own nearest, frame.caller.declaring? = some own.name ∧
          p.classes.lineageClass? c own.name = some own ∧
          p.classes.declaringClass? c member = some nearest ∧ own.name ≠ nearest.name ∧
          w'.slot? r (.priv own.name member) = some v ∧
          p.readKey frame.caller c member = .ok (.priv nearest.name member)) ∧
        p.mediate frame (.get target member) w' =
          ((p.mediate frame (.get target member) w).1, w')) := by
  obtain ⟨r, c, o, fix, hr, hs, ho, hfix, rfl⟩ := stored_of_serve rfl h
  have htarget : target = .object r := by
    cases target <;> cases hr
    rfl
  subst htarget
  have hc := class_of_subject? (q := .set (.object r) member v) hr hs
  obtain ⟨ty, hty, -, -, -⟩ := authorizeWrite_eq_ok hmode hfix
  have hd := ClassTable.declaringClass?_of_attributeAt? hty
  rw [name_writeKey] at hd
  have ho' : ∃ o', (w.update r (·.store (p.writeKey frame.caller c member) v fix)).find? r =
      some o' := by
    rw [World.find?_update (f := (·.store _ v fix)) fun _ => rfl, if_pos rfl, ho]
    exact ⟨_, rfl⟩
  obtain ⟨o', ho'⟩ := ho'
  refine ⟨r, c, rfl, hc, ?_, ?_⟩
  · intro hhere
    simp only [serve, mediate_get ho' hc, getAttribute]
    rcases readKey_of_declared hmode hd with hdenied | hkey | helse
    · refine .inl ?_
      rw [hdenied]
      rfl
    · refine .inr ?_
      simp only [hkey, ok_bind]
      rw [World.slot?_store ho, if_pos ⟨rfl, rfl⟩]
      rfl
    · exact absurd helse hhere
  · intro helse
    obtain ⟨own, nearest, hown, hlineage, hnearest, hne, hwrite, hread⟩ :=
      helse.exists_keys hmode hd
    have hkeys : SlotKey.priv nearest.name member ≠ .priv own.name member := by
      intro heq
      obtain ⟨howner, -⟩ := SlotKey.priv.inj heq
      exact hne howner.symm
    rw [hwrite] at ho' ⊢
    refine ⟨⟨own, nearest, hown, hlineage, hnearest, hne, ?_, hread⟩, ?_⟩
    · rw [World.slot?_store ho, if_pos ⟨rfl, rfl⟩]
    · rw [mediate_get ho' hc, mediate_get ho hc, getAttribute_store ho hread hkeys]

end Program

/-! ### A box that is a friend of its subclass -/

/-- The body of the method of `boxDecl`. -/
def boxStows : Body := fun frame =>
  match frame.arg "other" with
  | .ok other => .ask (.set other "__key" (.int 1)) fun _ => .request (.get other "__key")
  | .error fault => .done (.error fault)

/-- A box writes the key of a safe and reads it again. -/
def boxDecl : ClassDecl :=
  ({ name := "Box" : ClassDecl }.field "__key" (.type (.primitive .int))).method "stow"
    { params := [{ name := "other", type := some (.type (.cls "Safe")) }]
      returns := some (.type .any)
      body := some boxStows }

/-- A safe is a box with a key of its own, and trusts boxes. -/
def safeDecl : ClassDecl :=
  ((({ name := "Safe" : ClassDecl }.extend "Box").field "__key" (.type (.primitive .int))).friend
    (.cls "Box"))

namespace Program

/-- The program of boxes and safes. -/
def safes : Program := (declared {} [.cls boxDecl, .cls safeDecl]).toOption.getD {}

theorem linked_safes : safes.Linked := by
  have hok : (declared {} [.cls boxDecl, .cls safeDecl]).isOk = true := by cbv
  exact linked_of_declared (eq_ok_of_isOk hok {})

theorem mode_safes : safes.mode = .enforced := by cbv

/-- A box and a safe, the first two objects of a run. -/
def boxRef : ObjectRef := ⟨.stored 0, ["Box"]⟩

def safeRef : ObjectRef := ⟨.stored 1, ["Safe", "Box"]⟩

def safesWorld : World := ((World.allocate ∅ ["Box"]).2.allocate ["Safe", "Box"]).2

/-- The method of the box while it runs. -/
def boxStow (other : ObjectRef) : Activation where
  invocation :=
    { callable :=
        { name := "stow"
          owner := some "Box"
          kind := .method
          params := [{ name := "other", type := some (.cls "Safe") }]
          returns := some .any
          body := some boxStows }
      receiver := .object boxRef
      args := { positional := [.object other] } }
  frame :=
    { caller := .method "Box" "stow" (some "Box")
      receiver := .object boxRef
      args := ⟨[⟨"other", .regular, .object other⟩]⟩ }

theorem run_safes : ∃ es, safes.Run {} es ⟨safesWorld, [boxStow safeRef]⟩ := by
  have hbox : safes.mediate .main (.instantiate "Box" {}) ∅ =
      (.ok (.value .effect (.object boxRef)), (World.allocate ∅ ["Box"]).2) := by cbv
  have hsafe : safes.mediate .main (.instantiate "Safe" {}) (World.allocate ∅ ["Box"]).2 =
      (.ok (.value .effect (.object safeRef)), safesWorld) := by cbv
  have hcall : safes.mediate .main
      (.call (.object boxRef) "stow" { positional := [.object safeRef] }) safesWorld =
        (.ok (.invoke (boxStow safeRef).invocation), safesWorld) := by cbv
  have henter : safes.enter (boxStow safeRef).invocation =
      .ok ((boxStow safeRef).frame, boxStows) := by cbv
  have hmade := Run.single (.answer (s := {}) (by simp [RunState.frames]) hbox)
  have hboth := hmade.snoc (.answer (by simp [RunState.frames]) hsafe)
  exact ⟨_, hboth.snoc (.start (by simp [RunState.frames]) hcall henter)⟩

/-- The world once the box has written a key. -/
def stowedWorld (other : ObjectRef) : World :=
  safesWorld.update other (·.store (.priv "Box" "__key") (.int 1) false)

theorem serve_stow_box (run : BodyRunner) :
    safes.serve run (boxStow safeRef).frame (.set (.object boxRef) "__key" (.int 1)) safesWorld =
      some (.ok .none, stowedWorld boxRef) := by
  have hset : safes.mediate (boxStow safeRef).frame (.set (.object boxRef) "__key" (.int 1))
      safesWorld = (.ok (.value .effect .none), stowedWorld boxRef) := by cbv
  simp only [serve, hset]

theorem serve_stow_safe (run : BodyRunner) :
    safes.serve run (boxStow safeRef).frame (.set (.object safeRef) "__key" (.int 1)) safesWorld =
      some (.ok .none, stowedWorld safeRef) := by
  have hset : safes.mediate (boxStow safeRef).frame (.set (.object safeRef) "__key" (.int 1))
      safesWorld = (.ok (.value .effect .none), stowedWorld safeRef) := by cbv
  simp only [serve, hset]

/-- In the frame of the box, what it writes to the safe goes to the key that boxes declare, and
what it reads is the key of the safe, which is not there. -/
theorem exists_write_not_read : ∃ (p : Program) (es : List Event) (s : RunState) (frame : Frame)
    (target v : Value) (member : String) (w : World) (fault : Fault),
    p.Linked ∧ p.mode = .enforced ∧ p.Run {} es s ∧ frame ∈ s.frames ∧
      (∀ run, p.serve run frame (.set target member v) s.world = some (.ok .none, w)) ∧
      (∀ run, p.serve run frame (.get target member) w = some (.error fault, w)) ∧
      ∀ owner name, fault ≠ .accessDenied owner name := by
  obtain ⟨es, hrun⟩ := run_safes
  have hget : safes.mediate (boxStow safeRef).frame (.get (.object safeRef) "__key")
      (stowedWorld safeRef) =
        (.error (.undefinedMember "Safe" "__key"), stowedWorld safeRef) := by cbv
  refine ⟨safes, es, _, (boxStow safeRef).frame, .object safeRef, .int 1, "__key",
    stowedWorld safeRef, .undefinedMember "Safe" "__key", linked_safes, mode_safes, hrun,
    by simp [RunState.frames], serve_stow_safe, ?_, ?_⟩
  · intro run
    simp only [serve, hget]
  · intro owner name h
    cases h

/-- In the frame of the box, the key of a safe is read elsewhere than it is written. -/
theorem readsElsewhere_safes : ∃ c, safes.classes.find? "Safe" = some c ∧
    safes.ReadsElsewhere (boxStow safeRef).frame.caller c "__key" := by
  have hsite : (safes.classes.find? "Safe").any (fun c =>
      let m := MemberSite.locate safes.classes c "__key" (boxStow safeRef).frame.caller
      decide (m.visibility = .priv) && m.lexicalOwner.isSome &&
        decide (m.lexicalOwner ≠ m.declaringOwner) &&
        decide (m.grant? c (boxStow safeRef).frame.caller = some .friendClass)) = true := by cbv
  obtain ⟨c, hc, hsite⟩ := (Option.any_eq_true _ _).mp hsite
  simp only [Bool.and_eq_true, decide_eq_true_eq] at hsite
  obtain ⟨⟨⟨hpriv, hlexical⟩, hne⟩, hgrant⟩ := hsite
  exact ⟨c, hc, .friendClass, hgrant, hpriv, rfl, hlexical, hne⟩

/-- What the box writes to a box it reads back, or it may not read it. What it writes to the safe is
stored for boxes, and its read of the safe goes where it went before. -/
theorem read_after_write_safes :
    (safes.serve (safes.exec 1) (boxStow safeRef).frame
        (.set (.object boxRef) "__key" (.int 1)) safesWorld =
      some (.ok .none, stowedWorld boxRef) ∧
    (safes.serve (safes.exec 1) (boxStow safeRef).frame (.get (.object boxRef) "__key")
        (stowedWorld boxRef) = some (.error (.accessDenied "Box" "__key"), stowedWorld boxRef) ∨
      safes.serve (safes.exec 1) (boxStow safeRef).frame (.get (.object boxRef) "__key")
        (stowedWorld boxRef) = some (.ok (.int 1), stowedWorld boxRef))) ∧
    safes.serve (safes.exec 1) (boxStow safeRef).frame
        (.set (.object safeRef) "__key" (.int 1)) safesWorld =
      some (.ok .none, stowedWorld safeRef) ∧
    (stowedWorld safeRef).slot? safeRef (.priv "Box" "__key") = some (.int 1) ∧
    safes.mediate (boxStow safeRef).frame (.get (.object safeRef) "__key") (stowedWorld safeRef) =
      ((safes.mediate (boxStow safeRef).frame (.get (.object safeRef) "__key") safesWorld).1,
        stowedWorld safeRef) := by
  have hbox := serve_stow_box (safes.exec 1)
  have hsafe := serve_stow_safe (safes.exec 1)
  refine ⟨⟨hbox, ?_⟩, hsafe, ?_⟩
  · -- On a box, boxes are both the class of the writer and the nearest one that declares the key.
    have hsite : (safes.classes.find? "Box").all (fun c =>
        let m := MemberSite.locate safes.classes c "__key" (boxStow safeRef).frame.caller
        decide (m.lexicalOwner = m.declaringOwner)) = true := by cbv
    obtain ⟨r, c, hr, hc, hback, -⟩ := read_after_write mode_safes hbox
    cases hr
    have hname : c.name = "Box" := ClassTable.name_of_find? hc
    have hclass : safes.classes.find? "Box" = some c := hc
    rw [hclass] at hsite
    rw [hname] at hback
    apply hback
    rintro ⟨grant, -, hsplits⟩
    exact hsplits.ne (by simpa using hsite)
  · obtain ⟨c, hc, helse⟩ := readsElsewhere_safes
    obtain ⟨r, c', hr, hc', -, hbefore⟩ := read_after_write mode_safes hsafe
    cases hr
    cases hc.symm.trans hc'
    obtain ⟨⟨own, nearest, hown, -, -, -, hslot, -⟩, hmediate⟩ := hbefore helse
    have hname : own.name = "Box" := (Option.some.inj hown).symm
    rw [hname] at hslot
    exact ⟨hslot, hmediate⟩

end Program

end GuardedObjects
