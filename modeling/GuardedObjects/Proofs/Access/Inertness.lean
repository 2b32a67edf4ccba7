import GuardedObjects.Proofs.Access.Inheritance
import GuardedObjects.Proofs.Registry.Pruning
import GuardedObjects.Proofs.Run.Receiver

/-!
# Inert friends

Whoever acts in a run is a declared function, or a declared method on a class that has it. A friend
that names nothing of the kind is therefore never met, and no access depends on whether a class has
it.
-/

namespace GuardedObjects

/-- What a caller has to be trusted as, by one rule or another, to count as a friend. -/
inductive Caller.ActsAs (caller : Caller) : Friend → Prop
  | function : caller.isFunction = true → ActsAs caller (.function caller.name)
  | cls {receiver : String} : caller.receiver? = some receiver → ActsAs caller (.cls receiver)
  | method {cls : String} : caller.receiver?.or caller.declaring? = some cls →
      ActsAs caller (.method cls caller.name)

theorem Caller.not_actsAs_topLevel {f : Friend} : ¬topLevel.ActsAs f := by
  rintro (h | h | h) <;> cases h

theorem Caller.not_actsAs_reflection {f : Friend} : ¬reflection.ActsAs f := by
  rintro (h | h | h) <;> cases h

namespace MemberSite

variable {c c' : ClassInfo} {caller : Caller}

/-- The rules agree on classes that differ in friends only and do not differ in what the caller acts
as. -/
theorem grant?_congr (m : MemberSite) (hsame : c'.friendless = c.friendless)
    (hfriends : ∀ f, caller.ActsAs f → (f ∈ c'.friends ↔ f ∈ c.friends)) :
    grant? c' m caller = grant? c m caller := by
  have hname : c'.name = c.name := congrArg (·.name) hsame
  have hsub (cls : String) : c'.isSubclassOf cls = c.isSubclassOf cls :=
    congrArg (·.isSubclassOf cls) hsame
  have hfunction : (caller.isFunction && decide (Friend.function caller.name ∈ c'.friends)) =
      (caller.isFunction && decide (Friend.function caller.name ∈ c.friends)) := by
    cases hf : caller.isFunction with
    | false => rfl
    | true => simp only [hfriends _ (.function hf)]
  unfold grant?
  rw [hfunction]
  cases hr : caller.receiver? with
  | some receiver =>
      have hcls := hfriends _ (.cls hr)
      have hmethod : Friend.method receiver caller.name ∈ c'.friends ↔
          Friend.method receiver caller.name ∈ c.friends := hfriends _ (.method (by rw [hr]; rfl))
      simp only [hname, hsub, hcls, hmethod]
  | none =>
      cases hd : caller.declaring? with
      | some declaring =>
          have hmethod : Friend.method declaring caller.name ∈ c'.friends ↔
              Friend.method declaring caller.name ∈ c.friends :=
            hfriends _ (.method (by rw [hr, hd]; rfl))
          simp only [Option.none_or, hmethod]
      | none => rfl

theorem authorizeRead_congr (m : MemberSite) (hsame : c'.friendless = c.friendless)
    (hfriends : ∀ f, caller.ActsAs f → (f ∈ c'.friends ↔ f ∈ c.friends)) (mode : Mode) :
    m.authorizeRead mode c' caller = m.authorizeRead mode c caller := by
  have hname : c'.name = c.name := congrArg (·.name) hsame
  simp only [authorizeRead, grant?_congr m hsame hfriends, hname]

end MemberSite

/-! ### Decisions -/

/-- What is decided when a caller uses a member: the rule that grants it, the key under which it is
read or why it is not, and the key under which it is written. -/
structure Decision where
  grant : Option Grant
  read : Except Fault SlotKey
  write : SlotKey

namespace Program

variable {p p' : Program}

def decision (p : Program) (caller : Caller) (cls member : String) : Option Decision :=
  (p.classes.find? cls).map fun c =>
    { grant := p.grant? caller c member
      read := p.readKey caller c member
      write := p.writeKey caller c member }

theorem decision_congr {g g' : ClassInfo → ClassInfo} (hg : ClassInfo.ChangesFriends g)
    (hg' : ClassInfo.ChangesFriends g') {t : ClassTable} (hp : p.classes = t.map g)
    (hp' : p'.classes = t.map g') (hmode : p'.mode = p.mode) {caller : Caller}
    (hfriends : ∀ c ∈ t.classes, ∀ f, caller.ActsAs f → (f ∈ (g' c).friends ↔ f ∈ (g c).friends))
    (cls member : String) : p'.decision caller cls member = p.decision caller cls member := by
  unfold decision
  rw [hp, hp', ClassTable.find?_map hg, ClassTable.find?_map hg', Option.map_map, Option.map_map]
  refine Option.map_congr fun c hc => ?_
  have hsame : (g' c).friendless = (g c).friendless := (hg' c).trans (hg c).symm
  have hname : (g' c).name = (g c).name := (hg'.name c).trans (hg.name c).symm
  have hfriends := hfriends c (List.mem_of_find?_eq_some hc)
  simp only [Function.comp, grant?, readKey, writeKey, hp, hp', hmode, hname,
    MemberSite.locate_map hg, MemberSite.locate_map hg', MemberSite.grant?_congr _ hsame hfriends,
    MemberSite.authorizeRead_congr _ hsame hfriends]

/-! ### Callers in runs -/

theorem Linked.name_of_offers (hp : p.Linked) {cls : String} {m : Callable} (h : p.Offers cls m) :
    ∃ c k, p.classes.find? cls = some c ∧ k ∈ p.classes.lineage c ∧
      k.method? m.name = some m := by
  obtain ⟨c, k, name, hc, hk, hm⟩ := h
  have hacc := hp.accepted_of_mem_lineage (ClassTable.find?_name hc) hk hm
  exact ⟨c, k, hc, hk, by rw [hacc.name_eq]; exact hm⟩

theorem Linked.offers_of_owner (hp : p.Linked) {m : Callable} (h : p.Declares m) {owner : String}
    (ho : m.owner = some owner) : p.Offers owner m := by
  obtain ⟨c, hc, rfl, hm⟩ := hp.method_of_owner h ho
  exact ⟨c, c, m.name, hp.wellOrdered.find?_self hc, List.mem_cons_self, hm⟩

theorem Linked.mem_functions (hp : p.Linked) {m : Callable} (h : p.Declares m)
    (ho : m.owner = none) : m ∈ p.functions := by
  rcases h with ⟨c, hc, name, hm⟩ | hf
  · rw [(hp.allAccepted.methods c hc name m hm).owner_eq] at ho
    cases ho
  · exact hf

end Program

namespace Registry

variable {r : Registry} {p : Program}

/-- A method that is offered on a class can be named as a friend on it. -/
theorem hasFriend_of_offers (hr : r.Reachable) (h : r.link = .ok p) {cls : String} {m : Callable}
    (ho : p.Offers cls m) :
    r.hasFriend (.cls cls) = true ∧ r.hasFriend (.method cls m.name) = true := by
  obtain ⟨g, hg, hclasses⟩ := exists_map_of_link hr h
  have hlinked : p.Linked := ⟨r, hr, h⟩
  obtain ⟨c, k, hc, hk, hm⟩ := hlinked.name_of_offers ho
  have hcls : p.classes.contains cls = true := by
    rw [ClassTable.contains, hc]
    rfl
  have hmethod : ((p.classes.find? cls).any fun c => (p.classes.method? c m.name).isSome) =
      true := by
    rw [hc, Option.any_some, ClassTable.method?, List.findSome?_isSome_iff]
    exact ⟨k, hk, by rw [hm]; rfl⟩
  rw [hclasses, ClassTable.contains_map hg] at hcls
  rw [hclasses, ClassTable.any_method?_map hg] at hmethod
  exact ⟨hcls, hmethod⟩

theorem hasFriend_of_mem_functions (h : r.link = .ok p) {m : Callable} (hm : m ∈ p.functions) :
    r.hasFriend (.function m.name) = true := by
  obtain ⟨-, hfunctions, -⟩ := mem_classes_of_link h
  rw [hfunctions] at hm
  rw [hasFriend, hasFunction, function?, List.find?_isSome]
  exact ⟨m, hm, by simp⟩

end Registry

namespace Program

variable {p : Program} {r : Registry}

theorem hasFriend_of_entered (hr : r.Reachable) (h : r.link = .ok p) {a : Activation} {w : World}
    (he : a.Entered p) (ha : a.invocation.Placed p w) {f : Friend}
    (hf : a.frame.caller.ActsAs f) : r.hasFriend f = true := by
  have hp : p.Linked := ⟨r, hr, h⟩
  have hreceiver {cls : String} (hcls : a.frame.caller.receiver? = some cls) :
      p.Offers cls a.callable :=
    ha.offered cls (by rw [← he.receiver_eq]; exact he.receiver_of_receiver? hcls)
  cases hf with
  | function hfunction =>
      rw [he.name_eq]
      exact Registry.hasFriend_of_mem_functions h
        (hp.mem_functions he.declared (he.owner_of_isFunction hfunction))
  | cls hcls => exact (Registry.hasFriend_of_offers hr h (hreceiver hcls)).1
  | method hcls =>
      rw [he.name_eq]
      rcases Option.or_eq_some_iff.mp hcls with hcls | ⟨-, hcls⟩
      · exact (Registry.hasFriend_of_offers hr h (hreceiver hcls)).2
      · rw [he.declaring?_eq] at hcls
        exact (Registry.hasFriend_of_offers hr h (hp.offers_of_owner he.declared hcls)).2

/-- Whoever acts in a run acts only as what is declared. -/
theorem Run.hasFriend_of_actsAs (hr : r.Reachable) (h : r.link = .ok p) {es : List Event}
    {s : RunState} (hrun : p.Run {} es s) {frame : Frame} (hframe : frame ∈ s.frames) {f : Friend}
    (hf : frame.caller.ActsAs f) : r.hasFriend f = true := by
  rcases RunState.mem_frames_iff.mp hframe with rfl | rfl | ⟨a, ha, rfl⟩
  · exact absurd hf Caller.not_actsAs_topLevel
  · exact absurd hf Caller.not_actsAs_reflection
  · exact hasFriend_of_entered hr h (hrun.allEntered a ha) (hrun.allPlaced a ha) hf

/-! ### Friends that name nothing -/

/-- The same program without some friends that name nothing decides the same. -/
theorem decision_keepFriends {keep : FriendRef → Bool}
    (hkeep : ∀ ref, r.knows ref = true → keep ref = true) {p' : Program} (hr : r.Reachable)
    (h : r.link = .ok p) (hr' : (r.keepFriends keep).Reachable)
    (h' : (r.keepFriends keep).link = .ok p') {caller : Caller}
    (hcaller : ∀ f, caller.ActsAs f → r.hasFriend f = true) (cls member : String) :
    p'.decision caller cls member = p.decision caller cls member := by
  obtain ⟨g, hg, hclasses⟩ := Registry.exists_map_of_link hr h
  obtain ⟨g', hg', hclasses'⟩ := Registry.exists_map_of_link hr' h'
  have hboth := hg'.comp (ClassInfo.changesFriends_keepFriends keep)
  rw [Registry.keepFriends, ClassTable.map_map] at hclasses'
  have hmode : p'.mode = p.mode := by
    rw [Program.mode, Program.mode, (Registry.mem_classes_of_link h').1,
      (Registry.mem_classes_of_link h).1]
    rfl
  refine decision_congr hg hboth hclasses hclasses' hmode ?_ cls member
  intro c hc f hf
  have hbefore := ClassTable.mem_map_of_mem g hc
  have hafter := ClassTable.mem_map_of_mem (g' ∘ ClassInfo.keepFriends keep) hc
  rw [← hclasses] at hbefore
  rw [← hclasses'] at hafter
  exact Registry.mem_friends_keepFriends hkeep hr h hr' h' hbefore hafter
    ((hboth.order c).trans (hg.order c).symm) (hcaller f hf)

/-- What links with all friends looked up strictly links without that too, with the same friends.
Where they are not looked up strictly, any friends that name no class, no function and no method of
a class can be left out of the declarations, and whoever acts in a run of either program is granted
or denied the same by both. -/
theorem lenient_friends_inert {config : Config} {ds : List Declaration}
    (hr : ({ config } : Registry).acceptAll ds = .ok r) (h : r.link = .ok p) :
    declared { config with strictFriends := false } ds =
      .ok (p.withConfig { config with strictFriends := false }) ∧
    (config.isStrict = false → ∀ keep : FriendRef → Bool,
      (∀ ref, r.knows ref = true → keep ref = true) →
        ∃ p', declared config (ds.map (Declaration.keepFriends keep)) = .ok p' ∧
          ∀ es s, p.Run {} es s ∨ p'.Run {} es s → ∀ frame ∈ s.frames, ∀ cls member,
            p'.decision frame.caller cls member = p.decision frame.caller cls member) := by
  have hreach := (Registry.Reachable.empty config).acceptAll hr
  have hconfig : r.config = config := Registry.config_of_acceptAll hr
  refine ⟨?_, ?_⟩
  · exact declared_of_laxer (Config.laxer_of_lenient config) (bind_eq_ok_iff.mpr ⟨r, hr, h⟩)
  · intro hlenient keep hkeep
    have hr' : ({ config } : Registry).acceptAll (ds.map (Declaration.keepFriends keep)) =
        .ok (r.keepFriends keep) := Registry.acceptAll_keepFriends hr
    have hreach' := (Registry.Reachable.empty config).acceptAll hr'
    obtain ⟨p', h'⟩ :=
      Registry.exists_link_keepFriends keep (by rw [hconfig]; exact hlenient) h
    refine ⟨p', bind_eq_ok_iff.mpr ⟨_, hr', h'⟩, ?_⟩
    intro es s hrun frame hframe cls member
    refine decision_keepFriends hkeep hreach h hreach' h' ?_ cls member
    intro f hf
    rcases hrun with hrun | hrun
    · exact hrun.hasFriend_of_actsAs hreach h hframe hf
    · rw [← Registry.hasFriend_keepFriends keep r]
      exact hrun.hasFriend_of_actsAs hreach' h' hframe hf

end Program

/-! ### Ledgers with a friend that is not there -/

/-- Friends are not looked up strictly. -/
def Config.lenient : Config := { strictFriends := false }

/-- Ledgers that trust somebody nobody has declared, besides the audits. -/
def nobodysLedgers : List Declaration := ledgerDecls [.named "audit", .named "nobody"]

def Registry.lenientLedgers : Registry :=
  (({ config := .lenient } : Registry).acceptAll nobodysLedgers).toOption.getD {}

namespace Program

def lenientLedgers : Program := Registry.lenientLedgers.link.toOption.getD {}

/-- A journal, the first object that is made. -/
def firstJournal : Value := .object ⟨.stored 0, ["Journal", "Ledger"]⟩

def journalWorld : World := { objects := #[{ lineage := ["Journal", "Ledger"] }] }

/-- An audit of it while it runs. -/
def auditing : Activation where
  invocation :=
    { callable :=
        { name := "audit"
          owner := none
          kind := .function
          params := [{ name := "ledger", type := some (.cls "Ledger") }]
          returns := some .any
          body := some ledgerAudit }
      receiver := .none
      args := { positional := [firstJournal] } }
  frame := { caller := .function "audit", args := ⟨[⟨"ledger", .regular, firstJournal⟩]⟩ }

theorem run_lenientLedgers : ∃ es, lenientLedgers.Run {} es ⟨journalWorld, [auditing]⟩ := by
  have hmade : lenientLedgers.mediate .main (.instantiate "Journal" {}) ∅ =
      (.ok (.value .effect firstJournal), journalWorld) := by cbv
  have hcall : lenientLedgers.mediate .main (.callFunction "audit" auditing.invocation.args)
      journalWorld = (.ok (.invoke auditing.invocation), journalWorld) := by cbv
  have henter : lenientLedgers.enter auditing.invocation = .ok (auditing.frame, ledgerAudit) := by
    cbv
  have hfirst := Run.single (.answer (s := {}) (by simp [RunState.frames]) hmade)
  exact ⟨_, hfirst.snoc (.start (by simp [RunState.frames]) hcall henter)⟩

/-- Nobody is left out of the friends, and an audit of a journal goes on as it did. -/
theorem lenient_friends_inert_ledgers : ∃ es p',
    lenientLedgers.Run {} es ⟨journalWorld, [auditing]⟩ ∧
    Registry.lenientLedgers.knows (.named "nobody") = false ∧
    declared .lenient (nobodysLedgers.map
      (Declaration.keepFriends Registry.lenientLedgers.knows)) = .ok p' ∧
    (p'.decision auditing.frame.caller "Journal" "__total").any (fun d =>
      d.grant == some .friendFunction) = true := by
  have hr : (({ config := .lenient } : Registry).acceptAll nobodysLedgers).isOk = true := by cbv
  have hlink : Registry.lenientLedgers.link.isOk = true := by cbv
  have hdecided : (lenientLedgers.decision auditing.frame.caller "Journal" "__total").any (fun d =>
      d.grant == some .friendFunction) = true := by cbv
  have hnobody : Registry.lenientLedgers.knows (.named "nobody") = false := by cbv
  obtain ⟨es, hrun⟩ := run_lenientLedgers
  obtain ⟨-, hinert⟩ := lenient_friends_inert (eq_ok_of_isOk hr {}) (eq_ok_of_isOk hlink {})
  obtain ⟨p', hp', hsame⟩ := hinert rfl Registry.lenientLedgers.knows fun _ h => h
  refine ⟨es, p', hrun, hnobody, hp', ?_⟩
  rw [hsame es _ (.inl hrun) auditing.frame (by simp [RunState.frames]) "Journal" "__total"]
  exact hdecided

end Program

end GuardedObjects
