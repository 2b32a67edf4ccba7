import GuardedObjects.Proofs.Access.Privacy
import GuardedObjects.Proofs.Heap.Cache
import GuardedObjects.Proofs.Registry.Declarations

/-!
# Private names are lexical

A body that runs on an object means by a private name what its own class declares under it, if it
declares it at all. It does not matter which other classes of the object declare the name, who the
friends are, and whether the rules are enforced. The results of cached properties are the
exception: an object keeps them by qualified name, and two properties may share one.
-/

namespace GuardedObjects

namespace MemberSite

variable {t : ClassTable} {c k : ClassInfo} {n : String} {caller : Caller}

theorem locate_own (hlex : t.lineageClass? c k.name = some k)
    (hcaller : caller.declaring? = some k.name) :
    (locate t c n caller).lexicalOwner = some k.name ∧
      (locate t c n caller).lexicalDeclares = k.declares n := by
  simp [locate, hcaller, hlex]

theorem key_own (hlex : t.lineageClass? c k.name = some k)
    (hcaller : caller.declaring? = some k.name) (hpriv : Visibility.ofName n = .priv)
    {grant : Option Grant} (hgrant : grant.any Grant.isFriend = false) (fallback : String) :
    (locate t c n caller).key grant fallback = .priv k.name n := by
  obtain ⟨howner, -⟩ := locate_own (n := n) hlex hcaller
  have hvis : (locate t c n caller).visibility = .priv := hpriv
  rw [key, if_pos hvis, hgrant, if_neg (by decide), howner]
  rfl

theorem grant?_own {m : MemberSite} (hreceiver : caller.receiver? = some c.name)
    (hdeclares : m.lexicalDeclares = true) : m.grant? c caller = some .sameClass := by
  cases caller with
  | method declaring name receiver =>
      cases hreceiver
      simp [grant?, Caller.isFunction, Caller.receiver?, hdeclares]
  | topLevel | reflection | function _ => cases hreceiver

end MemberSite

namespace Program

variable {p : Program} {c k : ClassInfo} {n : String} {caller : Caller}

theorem writeKey_own (hlex : p.classes.lineageClass? c k.name = some k)
    (hcaller : caller.declaring? = some k.name) (hpriv : Visibility.ofName n = .priv) :
    p.writeKey caller c n = .priv k.name n :=
  MemberSite.key_own hlex hcaller hpriv rfl c.name

theorem readKey_own (hlex : p.classes.lineageClass? c k.name = some k)
    (hcaller : caller.declaring? = some k.name) (hreceiver : caller.receiver? = some c.name)
    (hpriv : Visibility.ofName n = .priv) (hdeclares : k.declares n = true) :
    p.readKey caller c n = .ok (.priv k.name n) := by
  have hkey {grant : Option Grant} (hgrant : grant.any Grant.isFriend = false) :=
    MemberSite.key_own hlex hcaller hpriv hgrant c.name
  unfold readKey MemberSite.authorizeRead
  cases p.mode with
  | passthrough => exact congrArg _ (hkey rfl)
  | enforced =>
      simp only
      split
      · exact congrArg _ (hkey rfl)
      · have hsome : (p.classes.declaringClass? c n).isSome = true := by
          rw [ClassTable.declaringClass?, List.find?_isSome]
          exact ⟨k, List.mem_of_find?_eq_some hlex, hdeclares⟩
        have hdeclared : (MemberSite.locate p.classes c n caller).declaringOwner.isNone = false := by
          simpa [MemberSite.locate] using hsome
        obtain ⟨-, hlexical⟩ := MemberSite.locate_own (n := n) hlex hcaller
        rw [hdeclared, Bool.and_false, if_neg (by decide),
          MemberSite.grant?_own hreceiver (hlexical.trans hdeclares)]
        exact congrArg _ (hkey rfl)

/-! ### Requests on the receiver -/

/-- No other cached property of the object has the same qualified name. -/
def UniquelyNamed (p : Program) (r : ObjectRef) (m : Callable) : Prop :=
  ∀ m', p.HasMethod r m' → m'.kind = .cachedProperty → m'.qualifiedName = m.qualifiedName → m' = m

/-- The only cached property of a program has its qualified name to itself. -/
theorem uniquelyNamed_of_sole {r : ObjectRef} {m : Callable}
    (h : ∀ k ∈ p.classes.classes, ∀ e ∈ k.methods.entries,
      e.2.kind = .cachedProperty → e.2 = m) : p.UniquelyNamed r m := by
  rintro m' ⟨c, k, name, hc, hk, hm⟩ hkind -
  have hkt := ClassTable.mem_classes_of_mem_lineage (ClassTable.find?_name hc) hk
  exact h k hkt (name, m') (Table.mem_of_find?_eq_some hm) hkind

/-- The answer comes from what the class `k` itself has under a private name: from its slot in the
object, its property or its value. What was kept for a cached property is the result of that very
property, if it has its qualified name to itself. -/
inductive OwnAnswer (p : Program) (es : List Event) (w : World) (r : ObjectRef) (k : ClassInfo)
    (n : String) : Answer → Prop
  | slot {v : Value} : w.slot? r (.priv k.name n) = some v →
      OwnAnswer p es w r k n (.value (.slot (.priv k.name n)) v)
  | classValue {v : Value} : k.value? n = some v →
      OwnAnswer p es w r k n (.value (.classValue (.priv k.name n)) v)
  | property {i : Invocation} : k.method? n = some i.callable →
      i.callable.kind.isProperty = true → i.receiver = .object r → OwnAnswer p es w r k n (.invoke i)
  | cache {m : Callable} {v : Value} : k.method? n = some m → m.kind = .cachedProperty →
      (p.UniquelyNamed r m →
        ∃ b, .ended b (.ok v) ∈ es ∧ b.callable = m ∧ b.frame.receiver = .object r) →
      OwnAnswer p es w r k n (.value (.cache m) v)

variable {es : List Event} {s : RunState} {a : Activation} {r : ObjectRef}

/-- A body that runs on an object belongs to a class of the object's resolution order. -/
theorem Run.lineageClass?_of_receiver (hp : p.Linked) (h : p.Run {} es s) (ha : a ∈ s.stack)
    (hr : a.frame.receiver = .object r) (howner : a.callable.owner = some k.name)
    (hk : p.classes.find? k.name = some k) :
    ∃ c, p.classes.find? r.className = some c ∧ p.classes.lineageClass? c k.name = some k := by
  obtain ⟨body, hbody⟩ := (h.allEntered a ha).entered
  obtain ⟨bound, -, -, hframe⟩ := enter_eq_ok hbody
  have hreceiver : a.invocation.receiver = .object r := by rw [← hr, hframe]
  obtain ⟨c, hc, k', hk', howner'⟩ := hp.owner_of_offers ((h.allPlaced a ha).receiver r hreceiver)
  -- The table has one class of each name, so the owner of the method is `k`.
  have hname : k'.name = k.name := Option.some.inj (howner'.symm.trans howner)
  have hfind := ClassTable.find?_of_mem_lineage (ClassTable.find?_name hc) hk'
  rw [hname, hk] at hfind
  cases hfind
  exact ⟨c, hc, (ClassTable.lineageClass?_eq_some_iff (ClassTable.find?_name hc)).mpr ⟨hk', rfl⟩⟩

theorem caller_of_receiver (ha : a.Entered p) (hr : a.frame.receiver = .object r)
    (howner : a.callable.owner = some k.name) :
    a.frame.caller.declaring? = some k.name ∧ a.frame.caller.receiver? = some r.className := by
  rw [ha.declaring?_eq, ha.receiver?_eq, howner, hr]
  exact ⟨rfl, rfl⟩

theorem methodAt?_own (hlex : p.classes.lineageClass? c k.name = some k) :
    p.classes.methodAt? c (.priv k.name n) = k.method? n := by
  rw [ClassTable.methodAt?, hlex]
  rfl

theorem valueAt?_own (hlex : p.classes.lineageClass? c k.name = some k) :
    p.classes.valueAt? c (.priv k.name n) = k.value? n := by
  rw [ClassTable.valueAt?, hlex]
  rfl

theorem Run.ownAnswer_of_getAttribute (h : p.Run {} es s)
    (hlex : p.classes.lineageClass? c k.name = some k)
    (hkey : p.readKey caller c n = .ok (.priv k.name n)) {answer : Answer}
    (hget : p.getAttribute s.world caller r c n = .ok answer) :
    p.OwnAnswer es s.world r k n answer := by
  simp only [getAttribute, hkey, ok_bind, methodAt?_own hlex, valueAt?_own hlex] at hget
  split at hget
  · rename_i v hv
    cases hget
    exact .slot hv
  · split at hget
    · rename_i m hm
      split at hget
      · rename_i hproperty
        cases hget
        unfold readProperty
        split
        · rename_i hkind
          split
          · rename_i v hv
            refine .cache hm hkind ?_
            intro hunique
            obtain ⟨b, hb, hcomputes⟩ := h.computes hv
            exact ⟨b, hb, hunique _ hcomputes.method hcomputes.kind hcomputes.name,
              hcomputes.receiver⟩
          · exact .property hm hproperty rfl
        · exact .property hm hproperty rfl
      · cases hget
    · split at hget
      · rename_i v hv
        cases hget
        exact .classValue hv
      · cases hget

theorem own_of_callMethod {w : World} (hlex : p.classes.lineageClass? c k.name = some k)
    (hkey : p.readKey caller c n = .ok (.priv k.name n)) {args : Arguments} {answer : Answer}
    (h : p.callMethod w caller r c n args = .ok answer) :
    ∃ i, answer = .invoke i ∧ k.method? n = some i.callable := by
  obtain ⟨key, m, hk, hm, -, rfl⟩ := callMethod_eq_ok h
  cases hkey.symm.trans hk
  rw [methodAt?_own hlex] at hm
  exact ⟨_, rfl, hm⟩

theorem setAttribute_own {w : World} (hkey : p.writeKey caller c n = .priv k.name n) (v : Value) :
    (∃ fault, p.setAttribute caller r c n v w = (.error fault, w)) ∨
      ∃ o fix, w.find? r = some o ∧ p.setAttribute caller r c n v w =
        (.ok (.value .effect .none), w.update r (·.store (.priv k.name n) v fix)) := by
  rw [setAttribute_apply, hkey]
  cases ho : w.find? r with
  | none => exact .inl ⟨_, rfl⟩
  | some o =>
      simp only
      cases p.authorizeWrite o c n (.priv k.name n) caller v with
      | error fault => exact .inl ⟨fault, rfl⟩
      | ok fix => exact .inr ⟨o, fix, rfl, rfl⟩

theorem target_self {w : World} (hc : p.classes.find? r.className = some c) (member : String) :
    p.target w (.object r) member = .ok (r, c) ∨
      p.target w (.object r) member = .error (.notAnObject member r.className) := by
  simp only [target, hc]
  cases w.find? r with
  | none => exact .inr rfl
  | some o => exact .inl rfl

section

variable {frame : Frame} (hthis : frame.this = .ok r)
  (hc : p.classes.find? r.className = some c)

include hthis hc

theorem own_of_setSelf (hkey : p.writeKey frame.caller c n = .priv k.name n) {v : Value}
    {w w' : World} {result : Except Fault Answer}
    (h : p.mediate frame (.setSelf n v) w = (result, w')) :
    (∃ fault, result = .error fault ∧ w' = w) ∨
      result = .ok (.value .effect .none) ∧
        (∃ fix, w' = w.update r (·.store (.priv k.name n) v fix)) ∧
        ∀ r' key, w'.slot? r' key =
          if r' = r ∧ key = .priv k.name n then some v else w.slot? r' key := by
  simp only [mediate, Effect.bind_apply, Effect.read, hthis, ok_bind] at h
  rcases target_self (w := w) hc n with ht | ht
  · rw [ht] at h
    rcases setAttribute_own (r := r) (w := w) hkey v with ⟨fault, hset⟩ | ⟨o, fix, ho, hset⟩
    · cases hset.symm.trans h
      exact .inl ⟨fault, rfl, rfl⟩
    · cases hset.symm.trans h
      exact .inr ⟨rfl, ⟨fix, rfl⟩, fun r' key => World.slot?_store ho v fix⟩
  · rw [ht] at h
    cases h
    exact .inl ⟨_, rfl, rfl⟩

theorem Run.own_of_getSelf (hrun : p.Run {} es s)
    (hlex : p.classes.lineageClass? c k.name = some k)
    (hkey : p.readKey frame.caller c n = .ok (.priv k.name n)) {result : Except Fault Answer}
    {w : World} (h : p.mediate frame (.getSelf n) s.world = (result, w)) :
    w = s.world ∧ ((∃ fault, result = .error fault) ∨
      ∃ answer, result = .ok answer ∧ p.OwnAnswer es s.world r k n answer) := by
  rw [mediate_getSelf hthis] at h
  refine ⟨(congrArg Prod.snd h).symm, ?_⟩
  cases result with
  | error fault => exact .inl ⟨fault, rfl⟩
  | ok answer =>
      obtain ⟨target, ht, hget⟩ := bind_eq_ok_iff.mp (congrArg Prod.fst h)
      rcases target_self (w := s.world) hc n with ht' | ht'
      · cases ht.symm.trans ht'
        exact .inr ⟨answer, rfl, hrun.ownAnswer_of_getAttribute hlex hkey hget⟩
      · cases ht.symm.trans ht'

theorem own_of_callSelf (hlex : p.classes.lineageClass? c k.name = some k)
    (hkey : p.readKey frame.caller c n = .ok (.priv k.name n)) {args : Arguments}
    {result : Except Fault Answer} {w w' : World}
    (h : p.mediate frame (.callSelf n args) w = (result, w')) :
    w' = w ∧ ((∃ fault, result = .error fault) ∨
      ∃ i, result = .ok (.invoke i) ∧ k.method? n = some i.callable) := by
  rw [mediate_callSelf hthis] at h
  refine ⟨(congrArg Prod.snd h).symm, ?_⟩
  cases result with
  | error fault => exact .inl ⟨fault, rfl⟩
  | ok answer =>
      obtain ⟨target, ht, hcall⟩ := bind_eq_ok_iff.mp (congrArg Prod.fst h)
      rcases target_self (w := w) hc n with ht' | ht'
      · cases ht.symm.trans ht'
        obtain ⟨i, rfl, hi⟩ := own_of_callMethod hlex hkey hcall
        exact .inr ⟨i, rfl, hi⟩
      · cases ht.symm.trans ht'

end

/-- In a program of whichever mode, at any moment of a run, let a body run on an object, and let its
class declare a private name. A write of the body to that name on the object is refused and changes
nothing, or writes the slot of the class alone. A read gives what the class itself has under the
name, and a call runs the method of the class or none. -/
theorem Run.private_lexical (hp : p.Linked) (h : p.Run {} es s) (ha : a ∈ s.stack)
    (hr : a.frame.receiver = .object r) (howner : a.callable.owner = some k.name)
    (hk : p.classes.find? k.name = some k) (hpriv : Visibility.ofName n = .priv)
    (hdeclares : k.declares n = true) :
    (∀ v result w, p.mediate a.frame (.setSelf n v) s.world = (result, w) →
      (∃ fault, result = .error fault ∧ w = s.world) ∨
        (result = .ok (.value .effect .none) ∧
          (∃ fix, w = s.world.update r (·.store (.priv k.name n) v fix)) ∧
          ∀ r' key, w.slot? r' key =
            if r' = r ∧ key = .priv k.name n then some v else s.world.slot? r' key)) ∧
      (∀ result w, p.mediate a.frame (.getSelf n) s.world = (result, w) →
        w = s.world ∧ ((∃ fault, result = .error fault) ∨
          ∃ answer, result = .ok answer ∧ p.OwnAnswer es s.world r k n answer)) ∧
      ∀ args result w, p.mediate a.frame (.callSelf n args) s.world = (result, w) →
        w = s.world ∧ ((∃ fault, result = .error fault) ∨
          ∃ i, result = .ok (.invoke i) ∧ k.method? n = some i.callable) := by
  obtain ⟨c, hc, hlex⟩ := h.lineageClass?_of_receiver hp ha hr howner hk
  obtain ⟨hcaller, hreceiver⟩ := caller_of_receiver (h.allEntered a ha) hr howner
  rw [← ClassTable.name_of_find? hc] at hreceiver
  have hread := readKey_own hlex hcaller hreceiver hpriv hdeclares
  have hwrite := writeKey_own hlex hcaller hpriv
  have hthis := this_of_receiver hr
  refine ⟨?_, ?_, ?_⟩
  · intro v result w hm
    exact own_of_setSelf hthis hc hwrite hm
  · intro result w hm
    exact Run.own_of_getSelf hthis hc h hlex hread hm
  · intro args result w hm
    exact own_of_callSelf hthis hc hlex hread hm

end Program

/-! ### A shop window -/

def numberDecl (n : Int64) : CallableDecl where
  kind := .cachedProperty
  returns := some (.type (.primitive .int))
  body := some fun _ => .done (.ok (.int n))

def lookDecl (number : String) : CallableDecl where
  returns := some (.type (.primitive .int))
  body := some fun _ => .request (.getSelf number)

/-- A shop has a number for its window, and the window a private number of its own. The two have
the same qualified name. -/
def shopDecls : List Declaration :=
  [.cls ((({ name := "Shop" : ClassDecl }).method "w.__n" (numberDecl 1)).method "go"
      (lookDecl "w.__n")),
    .cls (((({ name := "Shop.w" : ClassDecl }).extend "Shop").method "__n" (numberDecl 2)).method
      "by" (lookDecl "__n"))]

def numberOf (owner name : String) (n : Int64) : Callable where
  name := name
  owner := some owner
  kind := .cachedProperty
  returns := some (.primitive .int)
  body := (numberDecl n).body

def lookOf (owner name number : String) : Callable where
  name := name
  owner := some owner
  kind := .method
  returns := some (.primitive .int)
  body := (lookDecl number).body

def shopInfo : ClassInfo where
  name := "Shop"
  methods := ((∅ : Table String Callable).insert "w.__n" (numberOf "Shop" "w.__n" 1)).insert "go"
    (lookOf "Shop" "go" "w.__n")

def windowInfo : ClassInfo where
  name := "Shop.w"
  bases := ["Shop"]
  ancestors := ["Shop"]
  methods := ((∅ : Table String Callable).insert "__n" (numberOf "Shop.w" "__n" 2)).insert "by"
    (lookOf "Shop.w" "by" "__n")

namespace Program

def shops : Program where
  classes := ⟨[shopInfo, windowInfo]⟩

theorem linked_shops : shops.Linked := by
  have hdeclared : declared {} shopDecls = .ok shops := by cbv
  exact linked_of_declared hdeclared

def windowRef : ObjectRef := ⟨.stored 0, ["Shop.w", "Shop"]⟩

def windowWorld : World := (World.allocate ∅ ["Shop.w", "Shop"]).2

def windowFrame (owner name : String) : Frame where
  caller := .method owner name (some "Shop.w")
  receiver := .object windowRef

/-- A method of a class while it looks at a number of the window. -/
def looking (owner name number : String) : Activation where
  invocation := { callable := lookOf owner name number, receiver := .object windowRef }
  frame := windowFrame owner name

/-- A number of the window while it is computed. -/
def numbering (owner name : String) (n : Int64) : Activation where
  invocation :=
    { callable := numberOf owner name n
      receiver := .object windowRef
      ending := .cache windowRef (numberOf owner name n).qualifiedName }
  frame := windowFrame owner name

def numberedWorld : World := windowWorld.update windowRef (·.cache "Shop.w.__n" (.int 1))

/-- The shop looks at the number that it has for the window, and then the window at its own. -/
def shopEvents : List Event :=
  [.answered .main (.instantiate "Shop.w" {}) .effect (.object windowRef),
    .started .main (.call (.object windowRef) "go" {}) (looking "Shop" "go" "w.__n"),
    .started (windowFrame "Shop" "go") (.getSelf "w.__n") (numbering "Shop" "w.__n" 1),
    .ended (numbering "Shop" "w.__n" 1) (.ok (.int 1)),
    .ended (looking "Shop" "go" "w.__n") (.ok (.int 1)),
    .started .main (.call (.object windowRef) "by" {}) (looking "Shop.w" "by" "__n")]

theorem run_shops :
    shops.Run {} shopEvents ⟨numberedWorld, [looking "Shop.w" "by" "__n"]⟩ := by
  have hmake : shops.mediate .main (.instantiate "Shop.w" {}) ∅ =
      (.ok (.value .effect (.object windowRef)), windowWorld) := by cbv
  have hgo : shops.mediate .main (.call (.object windowRef) "go" {}) windowWorld =
      (.ok (.invoke (looking "Shop" "go" "w.__n").invocation), windowWorld) := by cbv
  have hnumber : shops.mediate (windowFrame "Shop" "go") (.getSelf "w.__n") windowWorld =
      (.ok (.invoke (numbering "Shop" "w.__n" 1).invocation), windowWorld) := by cbv
  have hby : shops.mediate .main (.call (.object windowRef) "by" {}) numberedWorld =
      (.ok (.invoke (looking "Shop.w" "by" "__n").invocation), numberedWorld) := by cbv
  have henter (owner name number : String) :
      shops.enter (looking owner name number).invocation =
        .ok ((looking owner name number).frame, fun _ => .request (.getSelf number)) := rfl
  have hcompute : shops.enter (numbering "Shop" "w.__n" 1).invocation =
      .ok ((numbering "Shop" "w.__n" 1).frame, fun _ => .done (.ok (.int 1))) := rfl
  have hmain (s : RunState) : Frame.main ∈ s.frames := by simp [RunState.frames]
  have hmade := Run.single (.answer (s := {}) (hmain _) hmake)
  have hlooks := hmade.snoc (.start (hmain _) hgo (henter _ _ _))
  have hcomputes := hlooks.snoc (.start (by simp [RunState.frames, looking]) hnumber hcompute)
  have hcomputed := hcomputes.snoc (.finish (v := .int 1) (by cbv))
  have hlooked := hcomputed.snoc (.finish (v := .int 1) (by cbv))
  exact hlooked.snoc (.start (hmain _) hby (henter _ _ _))

theorem mediate_window :
    shops.mediate (windowFrame "Shop.w" "by") (.getSelf "__n") numberedWorld =
      (.ok (.value (.cache (numberOf "Shop.w" "__n" 2)) (.int 1)), numberedWorld) := by cbv

theorem owner_of_ended_shops {b : Activation} {x : Reply} (hb : .ended b x ∈ shopEvents) :
    b.callable.owner = some "Shop" := by
  simp only [shopEvents, List.mem_cons, List.not_mem_nil, or_false, reduceCtorEq, false_or,
    Event.ended.injEq] at hb
  rcases hb with ⟨rfl, -⟩ | ⟨rfl, -⟩ <;> rfl

/-- Looking at its own private number, the window gets the one that the shop has for it. No body of
the class of the window has given a result before. -/
theorem exists_foreign_cached_read : ∃ (p : Program) (es : List Event) (s : RunState)
    (a : Activation) (r : ObjectRef) (k : ClassInfo) (n : String) (m : Callable) (v : Value),
    p.Linked ∧ p.Run {} es s ∧ a ∈ s.stack ∧ a.frame.receiver = .object r ∧
      a.callable.owner = some k.name ∧ p.classes.find? k.name = some k ∧
      Visibility.ofName n = .priv ∧ k.method? n = some m ∧
      p.mediate a.frame (.getSelf n) s.world = (.ok (.value (.cache m) v), s.world) ∧
      ∀ b u, .ended b u ∈ es → b.callable.owner ≠ some k.name := by
  refine ⟨shops, shopEvents, _, looking "Shop.w" "by" "__n", windowRef, windowInfo, "__n", _, _,
    linked_shops, run_shops, by simp, rfl, rfl, by cbv, by decide, by cbv, mediate_window, ?_⟩
  intro b u hb
  rw [owner_of_ended_shops hb]
  decide

end Program

/-! ### A shop window with a number of the same name -/

/-- Renumbers the window and has the shop look at its own number. -/
def renumber : Body := fun _ =>
  .ask (.setSelf "__n" (.int 2)) fun _ => .request (.callSelf "go" {})

/-- A shop computes its private number, and the window stores one of the same name. -/
def pricedDecls : List Declaration :=
  [.cls ((({ name := "Shop" : ClassDecl }).method "__n" (numberDecl 1)).method "go"
      (lookDecl "__n")),
    .cls (((({ name := "Shop.w" : ClassDecl }).extend "Shop").field "__n"
      (.type (.primitive .int))).method "by"
        { returns := some (.type (.primitive .int)), body := some renumber })]

def renumberer : Callable where
  name := "by"
  owner := some "Shop.w"
  kind := .method
  returns := some (.primitive .int)
  body := some renumber

def pricedShopInfo : ClassInfo where
  name := "Shop"
  methods := ((∅ : Table String Callable).insert "__n" (numberOf "Shop" "__n" 1)).insert "go"
    (lookOf "Shop" "go" "__n")

def pricedWindowInfo : ClassInfo where
  name := "Shop.w"
  bases := ["Shop"]
  ancestors := ["Shop"]
  attributes := (∅ : Table String Ty).insert "__n" (.primitive .int)
  methods := (∅ : Table String Callable).insert "by" renumberer

namespace Program

def pricedShops : Program where
  classes := ⟨[pricedShopInfo, pricedWindowInfo]⟩

theorem linked_pricedShops : pricedShops.Linked := by
  have hdeclared : declared {} pricedDecls = .ok pricedShops := by cbv
  exact linked_of_declared hdeclared

/-- The window while it renumbers itself. -/
def renumbering : Activation where
  invocation := { callable := renumberer, receiver := .object windowRef }
  frame := windowFrame "Shop.w" "by"

def pricedWorld : World := windowWorld.update windowRef (·.cache "Shop.__n" (.int 1))

def renumberedWorld : World :=
  pricedWorld.update windowRef (·.store (.priv "Shop.w" "__n") (.int 2) false)

/-- The shop has looked at its number, and looks at it again for the window, which has stored its
own in between. -/
def pricedEvents : List Event :=
  [.answered .main (.instantiate "Shop.w" {}) .effect (.object windowRef),
    .started .main (.call (.object windowRef) "go" {}) (looking "Shop" "go" "__n"),
    .started (windowFrame "Shop" "go") (.getSelf "__n") (numbering "Shop" "__n" 1),
    .ended (numbering "Shop" "__n" 1) (.ok (.int 1)),
    .ended (looking "Shop" "go" "__n") (.ok (.int 1)),
    .started .main (.call (.object windowRef) "by" {}) renumbering,
    .answered (windowFrame "Shop.w" "by") (.setSelf "__n" (.int 2)) .effect .none,
    .started (windowFrame "Shop.w" "by") (.callSelf "go" {}) (looking "Shop" "go" "__n")]

theorem run_pricedShops : pricedShops.Run {} pricedEvents
    ⟨renumberedWorld, [looking "Shop" "go" "__n", renumbering]⟩ := by
  have hmake : pricedShops.mediate .main (.instantiate "Shop.w" {}) ∅ =
      (.ok (.value .effect (.object windowRef)), windowWorld) := by cbv
  have hgo : pricedShops.mediate .main (.call (.object windowRef) "go" {}) windowWorld =
      (.ok (.invoke (looking "Shop" "go" "__n").invocation), windowWorld) := by cbv
  have hnumber : pricedShops.mediate (windowFrame "Shop" "go") (.getSelf "__n") windowWorld =
      (.ok (.invoke (numbering "Shop" "__n" 1).invocation), windowWorld) := by cbv
  have hby : pricedShops.mediate .main (.call (.object windowRef) "by" {}) pricedWorld =
      (.ok (.invoke renumbering.invocation), pricedWorld) := by cbv
  have hset : pricedShops.mediate (windowFrame "Shop.w" "by") (.setSelf "__n" (.int 2))
      pricedWorld = (.ok (.value .effect .none), renumberedWorld) := by cbv
  have hcall : pricedShops.mediate (windowFrame "Shop.w" "by") (.callSelf "go" {})
      renumberedWorld = (.ok (.invoke (looking "Shop" "go" "__n").invocation),
        renumberedWorld) := by cbv
  have henter : pricedShops.enter (looking "Shop" "go" "__n").invocation =
      .ok ((looking "Shop" "go" "__n").frame, fun _ => .request (.getSelf "__n")) := rfl
  have hcompute : pricedShops.enter (numbering "Shop" "__n" 1).invocation =
      .ok ((numbering "Shop" "__n" 1).frame, fun _ => .done (.ok (.int 1))) := rfl
  have hrenumber : pricedShops.enter renumbering.invocation = .ok (renumbering.frame, renumber) :=
    rfl
  have hmain (s : RunState) : Frame.main ∈ s.frames := by simp [RunState.frames]
  have hmade := Run.single (.answer (s := {}) (hmain _) hmake)
  have hlooks := hmade.snoc (.start (hmain _) hgo henter)
  have hcomputes := hlooks.snoc (.start (by simp [RunState.frames, looking]) hnumber hcompute)
  have hcomputed := hcomputes.snoc (.finish (v := .int 1) (by cbv))
  have hlooked := hcomputed.snoc (.finish (v := .int 1) (by cbv))
  have hrenumbers := hlooked.snoc (.start (hmain _) hby hrenumber)
  have hstored := hrenumbers.snoc (.answer (by simp [RunState.frames, renumbering]) hset)
  exact hstored.snoc (.start (by simp [RunState.frames, renumbering]) hcall henter)

theorem uniquelyNamed_pricedShops :
    pricedShops.UniquelyNamed windowRef (numberOf "Shop" "__n" 1) := by
  apply uniquelyNamed_of_sole
  intro k hk e he hkind
  rcases List.mem_pair.mp hk with rfl | rfl
  · have hentries : pricedShopInfo.methods.entries =
        [("__n", numberOf "Shop" "__n" 1), ("go", lookOf "Shop" "go" "__n")] := by cbv
    rw [hentries] at he
    rcases List.mem_pair.mp he with rfl | rfl
    · rfl
    · cases hkind
  · have hentries : pricedWindowInfo.methods.entries = [("by", renumberer)] := by cbv
    rw [hentries] at he
    cases List.mem_singleton.mp he
    cases hkind

/-- On one object the shop is given the number that it has computed and the window the one that it
has stored, and what the window stores anew is its own again. -/
theorem Run.private_lexical_pricedShops :
    pricedShopInfo.declares "__n" = true ∧ pricedWindowInfo.declares "__n" = true ∧
      pricedShops.Run {} pricedEvents
        ⟨renumberedWorld, [looking "Shop" "go" "__n", renumbering]⟩ ∧
      pricedShops.mediate (looking "Shop" "go" "__n").frame (.getSelf "__n") renumberedWorld =
        (.ok (.value (.cache (numberOf "Shop" "__n" 1)) (.int 1)), renumberedWorld) ∧
      (∃ b, .ended b (.ok (.int 1)) ∈ pricedEvents ∧ b.callable = numberOf "Shop" "__n" 1 ∧
        b.frame.receiver = .object windowRef) ∧
      pricedShops.mediate renumbering.frame (.getSelf "__n") renumberedWorld =
        (.ok (.value (.slot (.priv "Shop.w" "__n")) (.int 2)), renumberedWorld) ∧
      pricedShops.OwnAnswer pricedEvents renumberedWorld windowRef pricedWindowInfo "__n"
        (.value (.slot (.priv "Shop.w" "__n")) (.int 2)) ∧
      ∃ w, pricedShops.mediate renumbering.frame (.setSelf "__n" (.int 3)) renumberedWorld =
          (.ok (.value .effect .none), w) ∧
        ∀ r key, w.slot? r key = if r = windowRef ∧ key = .priv "Shop.w" "__n" then some (.int 3)
          else renumberedWorld.slot? r key := by
  have hshop : pricedShopInfo.declares "__n" = true := by cbv
  have hwindow : pricedWindowInfo.declares "__n" = true := by cbv
  have hkept : pricedShops.mediate (looking "Shop" "go" "__n").frame (.getSelf "__n")
      renumberedWorld =
        (.ok (.value (.cache (numberOf "Shop" "__n" 1)) (.int 1)), renumberedWorld) := by cbv
  have hstored : pricedShops.mediate renumbering.frame (.getSelf "__n") renumberedWorld =
      (.ok (.value (.slot (.priv "Shop.w" "__n")) (.int 2)), renumberedWorld) := by cbv
  have hset : pricedShops.mediate renumbering.frame (.setSelf "__n" (.int 3)) renumberedWorld =
      (.ok (.value .effect .none),
        renumberedWorld.update windowRef (·.store (.priv "Shop.w" "__n") (.int 3) false)) := by cbv
  obtain ⟨-, hshopReads, -⟩ := Run.private_lexical (a := looking "Shop" "go" "__n")
    linked_pricedShops run_pricedShops (by simp) rfl rfl (k := pricedShopInfo) (by cbv)
    (by decide) hshop
  obtain ⟨hwindowWrites, hwindowReads, -⟩ := Run.private_lexical (a := renumbering)
    linked_pricedShops run_pricedShops (by simp) rfl rfl (k := pricedWindowInfo) (by cbv)
    (by decide) hwindow
  obtain ⟨-, ⟨fault, hfault⟩ | ⟨answer, hanswer, hown⟩⟩ := hshopReads _ _ hkept
  · cases hfault
  cases hanswer
  obtain ⟨-, ⟨fault, hfault⟩ | ⟨answer, hanswer, hslot⟩⟩ := hwindowReads _ _ hstored
  · cases hfault
  cases hanswer
  have hcomputed : ∃ b, .ended b (.ok (.int 1)) ∈ pricedEvents ∧
      b.callable = numberOf "Shop" "__n" 1 ∧ b.frame.receiver = .object windowRef := by
    cases hown with
    | cache _ _ horigin => exact horigin uniquelyNamed_pricedShops
  refine ⟨hshop, hwindow, run_pricedShops, hkept, hcomputed, hstored, hslot, _, hset, ?_⟩
  rcases hwindowWrites _ _ _ hset with ⟨fault, hfault, -⟩ | ⟨-, -, hslots⟩
  · cases hfault
  · exact hslots

end Program

end GuardedObjects
