import GuardedObjects.Proofs.Class.Befriending
import GuardedObjects.Proofs.Registry.Submission

/-!
# Friends of linked classes

Linking gives a class its own friends and those of its bases, one class after the other. The friends
of a class are therefore what the classes of its resolution order declare, each declaration read in
view of all classes and functions of the registry, and a class has all friends of its ancestors.
-/

namespace GuardedObjects

namespace FriendSet

variable {f : Friend}

theorem mem_ofList {fs : List Friend} : f ∈ ofList fs ↔ f ∈ fs := by
  rw [ofList, mem_insertMany]
  exact or_iff_right List.not_mem_nil

theorem mem_foldl_union {s : FriendSet} {sets : List FriendSet} :
    f ∈ sets.foldl (· ∪ ·) s ↔ f ∈ s ∨ ∃ t ∈ sets, f ∈ t := by
  induction sets generalizing s with
  | nil => simp
  | cons t sets ih =>
      rw [List.foldl_cons, ih, mem_union, or_assoc]
      simp

theorem includes_iff {s t : FriendSet} : s.includes t = true ↔ ∀ f ∈ t, f ∈ s := by
  rw [includes, List.all_eq_true]
  simp only [decide_eq_true_eq]
  rfl

end FriendSet

namespace Registry

variable {r : Registry} {strict : Bool} {f : Friend} {c : ClassInfo} {name : String}

/-- What a declared friend stands for. A bare name stands for the class or for the function of that
name, and where there are both or neither, for both. -/
inductive Denotes (r : Registry) : FriendRef → Friend → Prop
  | cls {name : String} : r.classes.contains name = true ∨ r.hasFunction name = false →
      Denotes r (.named name) (.cls name)
  | function {name : String} : r.hasFunction name = true ∨ r.classes.contains name = false →
      Denotes r (.named name) (.function name)
  | specified {friend : Friend} : Denotes r (.specified friend) friend

theorem denotes_named_iff :
    r.Denotes (.named name) f ↔
      (f = .cls name ∧ (r.classes.contains name = true ∨ r.hasFunction name = false)) ∨
      (f = .function name ∧ (r.hasFunction name = true ∨ r.classes.contains name = false)) := by
  constructor
  · rintro (h | h | _)
    · exact .inl ⟨rfl, h⟩
    · exact .inr ⟨rfl, h⟩
  · rintro (⟨rfl, h⟩ | ⟨rfl, h⟩)
    · exact .cls h
    · exact .function h

theorem denotes_specified_iff {friend : Friend} : r.Denotes (.specified friend) f ↔ f = friend := by
  constructor
  · rintro ⟨⟩
    rfl
  · rintro rfl
    exact .specified

theorem mem_resolveFriend_iff {owner : String} {ref : FriendRef} {fs : List Friend}
    (h : r.resolveFriend strict owner ref = .ok fs) : f ∈ fs ↔ r.Denotes ref f := by
  have hlenient := resolveFriend_of_strict h
  cases ref with
  | named name =>
      rw [denotes_named_iff]
      cases hclass : r.classes.contains name <;> cases hfunction : r.hasFunction name <;>
        · simp only [resolveFriend, hclass, hfunction] at hlenient
          cases hlenient
          simp
  | specified friend =>
      rw [denotes_specified_iff]
      simp only [resolveFriend, Bool.false_and] at hlenient
      cases hlenient
      simp

theorem mem_ownFriends_iff {own : List Friend} (h : r.ownFriends strict c = .ok own) :
    f ∈ own ↔ ∃ ref ∈ c.declaredFriends, r.Denotes ref f := by
  obtain ⟨fs, hfs, rfl⟩ := map_eq_ok_iff.mp h
  exact mem_flatten_of_mapM (P := r.Denotes) (fun _ _ hres _ => mem_resolveFriend_iff hres) hfs

/-- The class of that name declares the friend. -/
def Befriends (r : Registry) (name : String) (f : Friend) : Prop :=
  ∃ k, r.classes.find? name = some k ∧ ∃ ref ∈ k.declaredFriends, r.Denotes ref f

end Registry

namespace ClassTable

/-- The same classes with other friends, given by the names of the classes. -/
def befriend (t : ClassTable) (friends : String → FriendSet) : ClassTable :=
  t.map fun c => { c with friends := friends c.name }

end ClassTable

namespace Registry

variable {r : Registry} {strict : Bool} {f : Friend} {c : ClassInfo} {p : Program}

theorem changesFriends_befriend (friends : String → FriendSet) :
    ClassInfo.ChangesFriends fun c => { c with friends := friends c.name } := fun _ => rfl

/-- The friends of these classes are those that the classes of their resolution orders declare. -/
def Befriended (r : Registry) (friends : String → FriendSet) (classes : List ClassInfo) : Prop :=
  ∀ c ∈ classes, ∀ f, f ∈ friends c.name ↔ ∃ name ∈ c.order, r.Befriends name f

theorem find?_before (hr : r.classes.WellOrdered) {before after : List ClassInfo}
    (hsplit : r.classes.classes = before ++ c :: after) {name : String} (hname : name ∈ c.bases) :
    ClassTable.find? ⟨before⟩ name = r.classes.find? name := by
  obtain ⟨k, hk, hfind⟩ := hr.earlier before c after hsplit name (List.mem_append_left _ hname)
  have hsome : (ClassTable.find? ⟨before⟩ name).isSome = true := by
    rw [ClassTable.find?, List.find?_isSome]
    exact ⟨k, hk, by simpa using ClassTable.name_of_find? hfind⟩
  obtain ⟨j, hj⟩ := Option.isSome_iff_exists.mp hsome
  have hwhole : r.classes.find? name = (ClassTable.find? ⟨before⟩ name).or
      (ClassTable.find? ⟨c :: after⟩ name) := by
    rw [ClassTable.find?, hsplit, List.find?_append]
    rfl
  rw [hwhole, hj, Option.some_or]

theorem select_before (hr : r.classes.WellOrdered) {before after : List ClassInfo}
    (hsplit : r.classes.classes = before ++ c :: after) :
    ClassTable.select ⟨before⟩ c.bases = r.classes.select c.bases :=
  List.filterMap_congr fun _ hname => find?_before hr hsplit hname

/-- The friends that one step of linking gives to a class. -/
theorem exists_friends_of_linkClass {friends : String → FriendSet} {before : List ClassInfo}
    {linked : ClassTable}
    (h : r.linkClass strict (ClassTable.befriend ⟨before⟩ friends) c = .ok linked) :
    ∃ s : FriendSet, linked = (ClassTable.befriend ⟨before⟩ friends).push { c with friends := s } ∧
      ∀ f, f ∈ s ↔ (∃ ref ∈ c.declaredFriends, r.Denotes ref f) ∨
        ∃ b ∈ ClassTable.select ⟨before⟩ c.bases, f ∈ friends b.name := by
  obtain ⟨own, hown, h⟩ := bind_eq_ok_iff.mp h
  cases h
  refine ⟨_, rfl, ?_⟩
  intro f
  rw [FriendSet.mem_foldl_union, FriendSet.mem_ofList, mem_ownFriends_iff hown,
    ClassTable.befriend, ClassTable.select_map (changesFriends_befriend friends), List.map_map]
  simp only [List.mem_map, exists_exists_and_eq_and, Function.comp]

/-- What a resolution order declares is what the class itself declares and what the orders of its
bases declare. -/
theorem befriends_order_iff (hr : r.classes.WellOrdered) (hc : c ∈ r.classes.classes) :
    (∃ name ∈ c.order, r.Befriends name f) ↔
      (∃ ref ∈ c.declaredFriends, r.Denotes ref f) ∨
        ∃ b ∈ r.classes.select c.bases, ∃ name ∈ b.order, r.Befriends name f := by
  have hself := hr.find?_self hc
  constructor
  · rintro ⟨name, hname, hbf⟩
    rcases List.mem_cons.mp hname with rfl | hname
    · obtain ⟨k, hk, hdeclared⟩ := hbf
      rw [hself] at hk
      cases hk
      exact .inl hdeclared
    · obtain ⟨b, hb, hname⟩ := (hr.inherited c hc name).mp hname
      exact .inr ⟨b, hb, name, hname, hbf⟩
  · rintro (hdeclared | ⟨b, hb, name, hname, hbf⟩)
    · exact ⟨c.name, List.mem_cons_self, c, hself, hdeclared⟩
    · have hmem := (hr.inherited c hc name).mpr ⟨b, hb, hname⟩
      exact ⟨name, List.mem_cons_of_mem _ hmem, hbf⟩

theorem befriends_of_linkClass (hr : r.classes.WellOrdered) {friends : String → FriendSet}
    {before after : List ClassInfo} (hsplit : r.classes.classes = before ++ c :: after)
    (hbefore : r.Befriended friends before) {linked : ClassTable}
    (h : r.linkClass strict (ClassTable.befriend ⟨before⟩ friends) c = .ok linked) :
    ∃ s : FriendSet, linked = (ClassTable.befriend ⟨before⟩ friends).push { c with friends := s } ∧
      ∀ f, f ∈ s ↔ ∃ name ∈ c.order, r.Befriends name f := by
  obtain ⟨s, hlinked, hs⟩ := exists_friends_of_linkClass h
  refine ⟨s, hlinked, ?_⟩
  intro f
  have hc : c ∈ r.classes.classes := by simp [hsplit]
  have hbase {b : ClassInfo} (hb : b ∈ ClassTable.select ⟨before⟩ c.bases) :
      f ∈ friends b.name ↔ ∃ name ∈ b.order, r.Befriends name f :=
    hbefore b (ClassTable.mem_classes_of_mem_select hb) f
  rw [hs f, befriends_order_iff hr hc, ← select_before hr hsplit]
  exact or_congr_right (exists_congr fun _ => and_congr_right hbase)

theorem befriend_append (friends : String → FriendSet) {before : List ClassInfo}
    (hfresh : ∀ k ∈ before, k.name ≠ c.name) (s : FriendSet) :
    ClassTable.befriend ⟨before ++ [c]⟩ (Function.update friends c.name s) =
      (ClassTable.befriend ⟨before⟩ friends).push { c with friends := s } := by
  have hkept : before.map (fun k => { k with friends := Function.update friends c.name s k.name }) =
      before.map fun k => { k with friends := friends k.name } := by
    refine List.map_congr_left fun k hk => ?_
    rw [Function.update_of_ne (hfresh k hk)]
  simp only [ClassTable.befriend, ClassTable.map, ClassTable.push, List.map_append, hkept,
    List.map_singleton, Function.update_self]

/-- Every class is linked behind its bases, so each step adds the friends that its resolution order
declares. -/
theorem befriended_of_foldlM (hr : r.classes.WellOrdered) {friends : String → FriendSet}
    {before after : List ClassInfo} (hsplit : r.classes.classes = before ++ after)
    (hbefore : r.Befriended friends before) {linked : ClassTable}
    (h : after.foldlM (r.linkClass strict) (ClassTable.befriend ⟨before⟩ friends) = .ok linked) :
    ∃ friends', linked = r.classes.befriend friends' ∧
      r.Befriended friends' r.classes.classes := by
  induction after generalizing before friends with
  | nil =>
      cases h
      rw [List.append_nil] at hsplit
      exact ⟨friends, by rw [← hsplit], hsplit ▸ hbefore⟩
  | cons c after ih =>
      rw [List.foldlM_cons] at h
      obtain ⟨linked₁, hlinked, h⟩ := bind_eq_ok_iff.mp h
      obtain ⟨s, rfl, hs⟩ := befriends_of_linkClass hr hsplit hbefore hlinked
      have hfresh : ∀ k ∈ before, k.name ≠ c.name := by
        have hnodup := hr.nodup_names
        rw [hsplit, List.map_append, List.nodup_append] at hnodup
        exact fun k hk => hnodup.2.2 k.name (List.mem_map_of_mem hk) c.name (by simp)
      rw [← befriend_append friends hfresh] at h
      refine ih (by simp [hsplit]) ?_ h
      intro k hk f
      rcases List.mem_append.mp hk with hk | hk
      · rw [Function.update_of_ne (hfresh k hk)]
        exact hbefore k hk f
      · rw [List.mem_singleton] at hk
        subst hk
        rw [Function.update_self]
        exact hs f

/-- What linking does to the classes of a registry. -/
theorem exists_befriended_of_link (hr : r.classes.WellOrdered) (h : r.link = .ok p) :
    ∃ friends, p.classes = r.classes.befriend friends ∧
      r.Befriended friends r.classes.classes := by
  obtain ⟨classes, hclasses, -, rfl⟩ := link_eq_ok_iff.mp h
  have hnone : r.Befriended (fun _ => ∅) [] := nofun
  exact befriended_of_foldlM hr rfl hnone hclasses

theorem exists_map_of_link (hr : r.Reachable) (h : r.link = .ok p) :
    ∃ g, ClassInfo.ChangesFriends g ∧ p.classes = r.classes.map g := by
  obtain ⟨friends, hclasses, -⟩ := exists_befriended_of_link hr.wellOrdered h
  exact ⟨_, changesFriends_befriend friends, hclasses⟩

end Registry

theorem Program.Linked.wellOrdered {p : Program} (h : p.Linked) : p.classes.WellOrdered := by
  obtain ⟨r, hr, hlink⟩ := h
  obtain ⟨g, hg, hclasses⟩ := Registry.exists_map_of_link hr hlink
  rw [hclasses]
  exact hr.wellOrdered.map hg

namespace Registry

variable {r : Registry} {f : Friend} {a c : ClassInfo} {p : Program}

theorem find?_befriend (r : Registry) (friends : String → FriendSet) (name : String) :
    (r.classes.befriend friends).find? name =
      (r.classes.find? name).map fun c => { c with friends := friends c.name } :=
  ClassTable.find?_map (changesFriends_befriend friends) r.classes name

theorem mem_friends_iff_befriends (hr : r.Reachable) (h : r.link = .ok p)
    (hc : c ∈ p.classes.classes) : f ∈ c.friends ↔ ∃ name ∈ c.order, r.Befriends name f := by
  obtain ⟨friends, hclasses, hfriends⟩ := exists_befriended_of_link hr.wellOrdered h
  rw [hclasses] at hc
  obtain ⟨k, hk, rfl⟩ := ClassTable.mem_map.mp hc
  exact hfriends k hk f

theorem befriends_iff_of_link (hr : r.Reachable) (h : r.link = .ok p) {name : String} :
    r.Befriends name f ↔
      ∃ k, p.classes.find? name = some k ∧ ∃ ref ∈ k.declaredFriends, r.Denotes ref f := by
  obtain ⟨friends, hclasses, -⟩ := exists_befriended_of_link hr.wellOrdered h
  rw [hclasses, find?_befriend]
  constructor
  · rintro ⟨k, hk, hdeclared⟩
    exact ⟨_, Option.map_eq_some_iff.mpr ⟨k, hk, rfl⟩, hdeclared⟩
  · rintro ⟨k, hk, hdeclared⟩
    obtain ⟨j, hj, rfl⟩ := Option.map_eq_some_iff.mp hk
    exact ⟨j, hj, hdeclared⟩

theorem friends_subset_of_order_subset (hr : r.Reachable) (h : r.link = .ok p)
    (ha : a ∈ p.classes.classes) (hc : c ∈ p.classes.classes) (hsub : a.order ⊆ c.order)
    (hf : f ∈ a.friends) : f ∈ c.friends := by
  obtain ⟨name, hname, hbf⟩ := (mem_friends_iff_befriends hr h ha).mp hf
  exact (mem_friends_iff_befriends hr h hc).mpr ⟨name, hsub hname, hbf⟩

/-- The friends of a class of a linked program are what the classes of its resolution order declare,
in view of everything that is declared in the end, and among them are those of its ancestors. -/
theorem friends_linked (hr : r.Reachable) (h : r.link = .ok p) (hc : c ∈ p.classes.classes) :
    (∀ f, f ∈ c.friends ↔
      ∃ k ∈ p.classes.lineage c, ∃ ref ∈ k.declaredFriends, r.Denotes ref f) ∧
    ∀ a ∈ p.classes.select c.ancestors, c.friends.includes a.friends = true := by
  have hordered : p.classes.WellOrdered := Program.Linked.wellOrdered ⟨r, hr, h⟩
  refine ⟨?_, ?_⟩
  · intro f
    rw [mem_friends_iff_befriends hr h hc,
      ClassTable.lineage_eq_select (hordered.find?_self hc)]
    constructor
    · rintro ⟨name, hname, hbf⟩
      obtain ⟨k, hk, hdeclared⟩ := (befriends_iff_of_link hr h).mp hbf
      exact ⟨k, List.mem_filterMap.mpr ⟨name, hname, hk⟩, hdeclared⟩
    · rintro ⟨k, hk, hdeclared⟩
      obtain ⟨name, hname, hk⟩ := List.mem_filterMap.mp hk
      exact ⟨name, hname, (befriends_iff_of_link hr h).mpr ⟨k, hk, hdeclared⟩⟩
  · intro a ha
    have hsub := (hordered.monotone c hc a ha).subset
    refine FriendSet.includes_iff.mpr fun f hf => ?_
    exact friends_subset_of_order_subset hr h (ClassTable.mem_classes_of_mem_select ha) hc hsub hf

end Registry

/-! ### Ledgers -/

/-- The body of the function that audits. -/
def ledgerAudit : Body := fun frame =>
  match frame.arg "ledger" with
  | .ok ledger => .request (.get ledger "__total")
  | .error fault => .done (.error fault)

/-- A ledger with these friends, a journal that is a ledger, and a function that audits ledgers. -/
def ledgerDecls (friends : List FriendRef) : List Declaration :=
  [.cls { ({ name := "Ledger" : ClassDecl }.field "__total" (.type (.primitive .int))) with
      friends },
    .cls ({ name := "Journal" : ClassDecl }.extend "Ledger"),
    .function
      { name := "audit"
        callable :=
          { params := [{ name := "ledger", type := some (.type (.cls "Ledger")) }]
            returns := some (.type .any)
            body := some ledgerAudit } }]

namespace Registry

/-- Audits may look into ledgers. -/
def ledgers : Registry :=
  (({} : Registry).acceptAll (ledgerDecls [.named "audit"])).toOption.getD {}

end Registry

namespace Program

def ledgers : Program := Registry.ledgers.link.toOption.getD {}

end Program

namespace Registry

theorem reachable_ledgers : ledgers.Reachable := by
  have hok : (({} : Registry).acceptAll (ledgerDecls [.named "audit"])).isOk = true := by cbv
  exact (Reachable.empty {}).acceptAll (eq_ok_of_isOk hok {})

theorem link_ledgers : ledgers.link = .ok Program.ledgers := by
  have hok : ledgers.link.isOk = true := by cbv
  exact eq_ok_of_isOk hok {}

end Registry

theorem Program.linked_ledgers : Program.ledgers.Linked :=
  ⟨Registry.ledgers, Registry.reachable_ledgers, Registry.link_ledgers⟩

namespace Registry

/-- The function is declared behind the ledger that trusts it, and a journal trusts it as well. -/
theorem friends_linked_journal : ∃ c ∈ Program.ledgers.classes.classes, c.name = "Journal" ∧
    c.declaredFriends = [] ∧ Friend.function "audit" ∈ c.friends := by
  have hjournal : (Program.ledgers.classes.find? "Journal").any (fun c =>
      c.declaredFriends.isEmpty && (Program.ledgers.classes.lineage c).any fun k =>
        k.declaredFriends.contains (.named "audit")) = true := by cbv
  have hknown : ledgers.hasFunction "audit" = true := by cbv
  obtain ⟨c, hfind, hjournal⟩ := (Option.any_eq_true _ _).mp hjournal
  have hc := List.mem_of_find?_eq_some hfind
  obtain ⟨hnone, hsome⟩ := Bool.and_eq_true_iff.mp hjournal
  obtain ⟨k, hk, href⟩ := List.any_eq_true.mp hsome
  refine ⟨c, hc, ClassTable.name_of_find? hfind, List.isEmpty_iff.mp hnone, ?_⟩
  exact ((friends_linked reachable_ledgers link_ledgers hc).1 _).mpr
    ⟨k, hk, .named "audit", by simpa using href, .function (.inl hknown)⟩

end Registry

end GuardedObjects
