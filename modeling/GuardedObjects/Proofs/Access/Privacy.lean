import GuardedObjects.Proofs.Heap.Slots
import GuardedObjects.Proofs.Run.Activation
import GuardedObjects.Proofs.Run.Execution

/-!
# Private members

In an enforced program a private member becomes known to its own class only, on objects of the
exact class that runs, and to the friends of the object's class.
-/

namespace GuardedObjects

/-- What entitles a running body to a private member that the class `owner` declares, on objects of
the exact class `c`. -/
inductive Activation.Entitled (a : Activation) (c : ClassInfo) (owner : String) : Prop
  | own : a.callable.owner = some owner → a.frame.receiver.className? = some c.name →
      Entitled a c owner
  | friendFunction : a.callable.owner = none → Friend.function a.callable.name ∈ c.friends →
      Entitled a c owner
  | friendClass {cls : String} : a.frame.receiver.className? = some cls →
      Friend.cls cls ∈ c.friends → Entitled a c owner
  /-- Where there is no receiver, the class that declares the method takes its place. -/
  | friendMethod {cls : String} : a.frame.receiver.className?.or a.callable.owner = some cls →
      Friend.method cls a.callable.name ∈ c.friends → Entitled a c owner

/-- The event makes known to `frame` what the private member `name` of the class `owner` is, or
starts its body. -/
inductive Event.Reveals (owner name : String) (frame : Frame) (q : Request) : Event → Prop
  | slot {v : Value} : Reveals owner name frame q (.answered frame q (.slot (.priv owner name)) v)
  | classValue {v : Value} :
      Reveals owner name frame q (.answered frame q (.classValue (.priv owner name)) v)
  | cache {m : Callable} {v : Value} : m.owner = some owner → m.name = name →
      Visibility.ofName name = .priv → Reveals owner name frame q (.answered frame q (.cache m) v)
  | body {a : Activation} : a.callable.owner = some owner → a.callable.name = name →
      Visibility.ofName name = .priv → Reveals owner name frame q (.started frame q a)

namespace MemberSite

theorem visibility_of_key {m : MemberSite} {grant : Option Grant} {fallback owner name : String}
    (h : m.key grant fallback = .priv owner name) : m.visibility = .priv := by
  unfold key at h
  split at h
  · assumption
  · cases h

theorem grant?_reflection (c : ClassInfo) (m : MemberSite) :
    grant? c m .reflection = none := by
  simp [grant?, Caller.isFunction, Caller.receiver?, Caller.declaring?]

/-- What each rule has made sure of that grants access. -/
inductive Granted (c : ClassInfo) (m : MemberSite) (caller : Caller) : Grant → Prop
  | friendFunction : caller.isFunction = true → Friend.function caller.name ∈ c.friends →
      Granted c m caller .friendFunction
  | sameClass : caller.receiver? = some c.name →
      m.visibility ≠ .priv ∨ m.lexicalDeclares = true → Granted c m caller .sameClass
  | inherited {cls : String} : caller.receiver? = some cls → m.visibility = .prot →
      c.isSubclassOf cls = true → Granted c m caller .inherited
  | friendClass {cls : String} : caller.receiver? = some cls → Friend.cls cls ∈ c.friends →
      Granted c m caller .friendClass
  | friendMethod {cls : String} : caller.receiver?.or caller.declaring? = some cls →
      Friend.method cls caller.name ∈ c.friends → Granted c m caller .friendMethod

theorem granted_of_grant? {c : ClassInfo} {m : MemberSite} {caller : Caller} {grant : Grant}
    (h : grant? c m caller = some grant) : Granted c m caller grant := by
  unfold grant? at h
  split at h
  · rename_i hfunction
    cases h
    simp only [Bool.and_eq_true, decide_eq_true_eq] at hfunction
    exact .friendFunction hfunction.1 hfunction.2
  · split at h
    · rename_i receiver hr
      split at h
      · rename_i hsame
        cases h
        simp only [Bool.and_eq_true, decide_eq_true_eq, Bool.or_eq_true] at hsame
        obtain ⟨rfl, hdeclares⟩ := hsame
        exact .sameClass hr hdeclares
      · split at h
        · rename_i hprot
          cases h
          simp only [Bool.and_eq_true, decide_eq_true_eq] at hprot
          exact .inherited hr hprot.1 hprot.2
        · split at h
          · cases h
            exact .friendClass hr ‹_›
          · split at h
            · cases h
              exact .friendMethod (by rw [hr]; rfl) ‹_›
            · cases h
    · rename_i declaring hr hor
      split at h
      · cases h
        exact .friendMethod hor ‹_›
      · cases h
    · cases h

-- The rule asks whether the class of the caller declares the member, and the key names that class.
theorem declaring_of_sameClass {t : ClassTable} {c : ClassInfo} {member fallback : String}
    {caller : Caller} {owner name : String}
    (hdeclares : (locate t c member caller).lexicalDeclares = true)
    (h : (locate t c member caller).key (some .sameClass) fallback = .priv owner name) :
    caller.declaring? = some owner := by
  have hpriv := visibility_of_key h
  simp only [key, hpriv, if_true, SlotKey.priv.injEq] at h
  obtain ⟨hk, -⟩ := h
  simp only [locate, Option.any_eq_true] at hdeclares
  obtain ⟨k, hlexical, -⟩ := hdeclares
  obtain ⟨declaring, hd, hclass⟩ := Option.bind_eq_some_iff.mp hlexical
  have hname : k.name = declaring := by simpa using List.find?_some hclass
  simp only [locate, hlexical] at hk
  rw [hd, ← hname, ← hk]
  rfl

end MemberSite

namespace Program

variable {p : Program}

theorem exists_grant_of_readKey {caller : Caller} {c : ClassInfo} {member : String}
    {key : SlotKey} (h : p.readKey caller c member = .ok key) :
    ∃ grant, key = (MemberSite.locate p.classes c member caller).key grant c.name := by
  unfold readKey MemberSite.authorizeRead at h
  split at h
  · cases h
    exact ⟨_, rfl⟩
  · split at h
    · cases h
      exact ⟨_, rfl⟩
    · split at h
      · cases h
      · split at h
        · cases h
          exact ⟨_, rfl⟩
        · cases h

/-- A member is read under a key of its name, and under a private one if its name is private. -/
theorem key_of_readKey {caller : Caller} {c : ClassInfo} {member : String} {key : SlotKey}
    (h : p.readKey caller c member = .ok key) :
    key.name = member ∧ (Visibility.ofName member = .priv → ∃ owner, key = .priv owner member) := by
  obtain ⟨grant, rfl⟩ := exists_grant_of_readKey h
  exact ⟨MemberSite.name_key .., fun hpriv => ⟨_, if_pos hpriv⟩⟩

theorem grant_of_readKey (hmode : p.mode = .enforced) {caller : Caller} {c : ClassInfo}
    {member owner name : String} (h : p.readKey caller c member = .ok (.priv owner name)) :
    caller = .reflection ∨ ∃ grant,
      (MemberSite.locate p.classes c member caller).grant? c caller = some grant ∧
        (MemberSite.locate p.classes c member caller).key (some grant) c.name =
          .priv owner name := by
  simp only [readKey, MemberSite.authorizeRead, hmode] at h
  split at h
  · rename_i hfree
    have hpriv := MemberSite.visibility_of_key (Except.ok.inj h)
    rw [hpriv] at hfree
    exact .inl (by simpa [Visibility.isRestricted] using hfree)
  · split at h
    · cases h
    · split at h
      · rename_i grant hgrant
        exact .inr ⟨grant, hgrant, Except.ok.inj h⟩
      · cases h

theorem entitled_of_grant? {a : Activation} (ha : a.Entered p) {c : ClassInfo}
    {member owner name : String} {grant : Grant}
    (hgrant : (MemberSite.locate p.classes c member a.frame.caller).grant? c a.frame.caller =
      some grant)
    (hkey : (MemberSite.locate p.classes c member a.frame.caller).key (some grant) c.name =
      .priv owner name) : a.Entitled c owner := by
  have hpriv := MemberSite.visibility_of_key hkey
  cases MemberSite.granted_of_grant? hgrant with
  | friendFunction hf hfriend =>
      rw [ha.name_eq] at hfriend
      exact .friendFunction (ha.owner_of_isFunction hf) hfriend
  | sameClass hr hdeclares =>
      rcases hdeclares with hpub | hdeclares
      · exact absurd hpriv hpub
      · have howner := MemberSite.declaring_of_sameClass hdeclares hkey
        rw [ha.declaring?_eq] at howner
        exact .own howner (ha.receiver_of_receiver? hr)
  | inherited _ hprot _ =>
      -- Subclasses are granted protected members only.
      rw [hpriv] at hprot
      cases hprot
  | friendClass hr hfriend => exact .friendClass (ha.receiver_of_receiver? hr) hfriend
  | @friendMethod cls hr hfriend =>
      rw [ha.name_eq] at hfriend
      refine .friendMethod ?_ hfriend
      rcases Option.or_eq_some_iff.mp hr with hr | ⟨hnone, howner⟩
      · rw [ha.receiver_of_receiver? hr]
        rfl
      · rw [ha.declaring?_eq] at howner
        rw [ha.receiver?_eq, howner, Option.bind_some] at hnone
        rw [hnone, howner]
        rfl

/-- The frame may know the private members of the class `owner` on objects of the class `c`. -/
def MayKnow (s : RunState) (frame : Frame) (c : ClassInfo) (owner : String) : Prop :=
  frame = .reflect ∨ ∃ a ∈ s.stack, a.frame = frame ∧ a.Entitled c owner

theorem mayKnow_of_readKey (hmode : p.mode = .enforced) {s : RunState} (hs : p.AllEntered s)
    {frame : Frame} (hframe : frame ∈ s.frames) {c : ClassInfo} {member owner name : String}
    (h : p.readKey frame.caller c member = .ok (.priv owner name)) :
    MayKnow s frame c owner := by
  rcases RunState.mem_frames_iff.mp hframe with rfl | rfl | ⟨a, ha, rfl⟩
  · rcases grant_of_readKey hmode h with hrefl | ⟨grant, hgrant, -⟩
    · cases hrefl
    · cases hgrant
  · exact .inl rfl
  · rcases grant_of_readKey hmode h with hrefl | ⟨grant, hgrant, hkey⟩
    · exact absurd hrefl (hs a ha).ne_reflection
    · exact .inr ⟨a, ha, rfl, entitled_of_grant? (hs a ha) hgrant hkey⟩

-- A method has the name and the owner that it was declared with, so the key that leads to a private
-- method is the private key of that name and owner, whoever reads it.
theorem key_of_private_method (hp : p.Linked) {frame : Frame} {q : Request} {c : ClassInfo}
    {member owner name : String} {key : SlotKey} {m : Callable}
    (hs : p.subject? frame q = some (c, member)) (hk : p.readKey frame.caller c member = .ok key)
    (hm : p.classes.methodAt? c key = some m) (howner : m.owner = some owner)
    (hname : m.name = name) (hpriv : Visibility.ofName name = .priv) :
    member = name ∧ key = .priv owner name := by
  have hc := find?_of_subject? hs
  obtain ⟨k, hmem, hmk, hkey⟩ := ClassTable.method_of_methodAt? hc hm
  have hacc := hp.accepted_of_mem_lineage hc hmem hmk
  obtain ⟨hkeyname, hkeypriv⟩ := key_of_readKey hk
  have hmember : member = name := by
    rw [← hkeyname, ← hacc.name_eq, hname]
  subst hmember
  obtain ⟨owner', rfl⟩ := hkeypriv hpriv
  have hk' : k.name = owner' := hkey _ _ rfl
  have howner' := hacc.owner_eq.symm.trans howner
  rw [hk', Option.some.injEq] at howner'
  rw [howner']
  exact ⟨rfl, rfl⟩

theorem constructorName_not_private : Visibility.ofName constructorName ≠ .priv := by decide

theorem Step.not_super (hp : p.Linked) {s t : RunState} {e : Event} (h : p.Step s e t)
    {owner name : String} {frame : Frame} {q : Request} (hr : e.Reveals owner name frame q)
    (member : String) (args : Arguments) : q ≠ .callSuper member args := by
  rintro rfl
  cases h with
  | answer _ hq =>
      -- A super call that succeeds always leads to a body.
      cases hr <;>
        · obtain ⟨_, _, _, _, -, -, -, -, -, hi⟩ := callSuper_eq_ok (congrArg Prod.fst hq)
          cases hi
  | start _ hq _ =>
      cases hr with
      | body _ hname hnamepriv =>
          obtain ⟨cls, c, k, m, -, hc, hk, hm, hpriv, hi⟩ := callSuper_eq_ok (congrArg Prod.fst hq)
          cases hi
          have hacc := hp.accepted_of_mem_lineage (ClassTable.find?_name hc) hk hm
          rw [← hname] at hnamepriv
          exact hpriv (hacc.name_eq ▸ hnamepriv)
  | _ => cases hr

theorem Step.mayKnow (hp : p.Linked) (hmode : p.mode = .enforced) {s t : RunState} {e : Event}
    (hs : p.AllEntered s) (h : p.Step s e t) {owner name : String} {frame : Frame} {q : Request}
    (hr : e.Reveals owner name frame q) :
    ∃ c, p.subject? frame q = some (c, name) ∧ MayKnow s frame c owner := by
  have hnot := h.not_super hp hr
  cases h with
  | answer hframe hq =>
      have hans := answers hq
      cases hr with
      | slot =>
          cases hans with
          | slot _ hsub hk _ =>
              obtain ⟨rfl, -⟩ := key_of_readKey hk
              exact ⟨_, hsub, mayKnow_of_readKey hmode hs hframe hk⟩
      | classValue =>
          cases hans with
          | classValue hsub hk _ =>
              obtain ⟨rfl, -⟩ := key_of_readKey hk
              exact ⟨_, hsub, mayKnow_of_readKey hmode hs hframe hk⟩
      | cache howner hname hpriv =>
          cases hans with
          | cache _ hsub hk hm _ =>
              obtain ⟨rfl, rfl⟩ := key_of_private_method hp hsub hk hm howner hname hpriv
              exact ⟨_, hsub, mayKnow_of_readKey hmode hs hframe hk⟩
  | start hframe hq _ =>
      have hans := answers hq
      cases hr with
      | body howner hname hpriv =>
          cases hans with
          | member hsub hk hm =>
              obtain ⟨rfl, rfl⟩ := key_of_private_method hp hsub hk hm howner hname hpriv
              exact ⟨_, hsub, mayKnow_of_readKey hmode hs hframe hk⟩
          | super hsuper _ _ _ _ => exact absurd hsuper (hnot _ _)
          | function _ hf =>
              have hacc := hp.allAccepted.functions _ (List.mem_of_find?_eq_some hf)
              exact absurd (hacc.owner_eq.symm.trans howner) (by simp)
          | constructor _ hc hm =>
              obtain ⟨k, hk, hm⟩ := List.exists_of_findSome?_eq_some hm
              have hacc := hp.accepted_of_mem_lineage (ClassTable.find?_name hc) hk hm
              rw [← hname] at hpriv
              exact absurd (hacc.name_eq ▸ hpriv) constructorName_not_private
  | _ => cases hr

/-- Over any run of an enforced program, whenever a request makes a private member of a class known
or starts its body, it is a request for that member on an object or a class whose exact class is
`c`, and it is made by reflection or in the frame of a running body that is entitled to the private
members of the declaring class on `c`. It is never a super call. -/
theorem Run.private_confined (hp : p.Linked) (hmode : p.mode = .enforced) {es : List Event}
    {s : RunState} (h : p.Run {} es s) {e : Event} (he : e ∈ es) {owner name : String}
    {frame : Frame} {q : Request} (hr : e.Reveals owner name frame q) :
    (∀ member args, q ≠ .callSuper member args) ∧
      ∃ c, p.subject? frame q = some (c, name) ∧
        (frame = .reflect ∨
          ∃ before after u a, es = before ++ e :: after ∧ p.Run {} before u ∧ a ∈ u.stack ∧
            a.frame = frame ∧ a.Entitled c owner) := by
  obtain ⟨before, after, u, t, hes, hrun, hst⟩ := h.split_of_mem he
  obtain ⟨c, hsub, hknow⟩ := hst.mayKnow hp hmode hrun.allEntered hr
  refine ⟨hst.not_super hp hr, c, hsub, ?_⟩
  rcases hknow with hrefl | ⟨a, ha, hframe, hentitled⟩
  · exact .inl hrefl
  · exact .inr ⟨before, after, u, a, hes, hrun, ha, hframe, hentitled⟩

/-- The method of a vault while it runs. -/
def vaultCode : Activation where
  invocation :=
    { callable :=
        { name := "code"
          owner := some "Vault"
          kind := .method
          returns := some (.primitive .int)
          body := some vaultTells }
      receiver := .object vaultRef }
  frame := { caller := .method "Vault" "code" (some "Vault"), receiver := .object vaultRef }

theorem Run.private_confined_vault :
    ∃ es s c, ∃ a : Activation, vault.Run {} es s ∧
      .answered vaultCode.frame (.getSelf "__code") (.slot (.priv "Vault" "__code")) (.int 7) ∈ es ∧
      vault.subject? vaultCode.frame (.getSelf "__code") = some (c, "__code") ∧
      a.frame = vaultCode.frame ∧ a.Entitled c "Vault" := by
  obtain ⟨es, hrun⟩ := run_vault
  have hcall : vault.mediate .main (.call (.object vaultRef) "code" {}) vaultWorld =
      (.ok (.invoke vaultCode.invocation), vaultWorld) := by cbv
  have henter : vault.enter vaultCode.invocation = .ok (vaultCode.frame, vaultTells) := by cbv
  have hread : vault.mediate vaultCode.frame (.getSelf "__code") vaultWorld =
      (.ok (.value (.slot (.priv "Vault" "__code")) (.int 7)), vaultWorld) := by cbv
  have hstarted := hrun.snoc (.start (by simp [RunState.frames]) hcall henter)
  have hanswered := hstarted.snoc (.answer (by simp [RunState.frames]) hread)
  have hmem := List.mem_append_right (es ++ [.started .main (.call (.object vaultRef) "code" {})
    vaultCode]) (List.mem_singleton_self (Event.answered vaultCode.frame (.getSelf "__code")
      (.slot (.priv "Vault" "__code")) (.int 7)))
  obtain ⟨-, c, hsub, hwho⟩ := Run.private_confined linked_vault mode_vault hanswered hmem .slot
  rcases hwho with hrefl | ⟨_, _, _, a, _, _, _, hframe, hentitled⟩
  · cases congrArg Frame.caller hrefl
  · exact ⟨_, _, c, a, hanswered, hmem, hsub, hframe, hentitled⟩

end Program

end GuardedObjects
