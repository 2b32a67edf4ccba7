import GuardedObjects.Proofs.Registry.Friends

/-!
# What linking asks for

A registry can be linked if every declared friend can be looked up and, where the rules are
enforced, every class that a declared type mentions is declared. In the program each class is found
with its own friends and those that its bases are found with.
-/

namespace GuardedObjects

namespace Registry

variable {r : Registry} {strict : Bool} {c : ClassInfo} {p : Program} {e : DeclarationError}

/-- Every declared friend can be looked up. -/
def FriendsResolve (r : Registry) : Prop :=
  ∀ c ∈ r.classes.classes, ∀ ref ∈ c.declaredFriends,
    ∃ fs, r.resolveFriend r.config.isStrict c.name ref = .ok fs

theorem exists_ownFriends_iff :
    (∃ own, r.ownFriends strict c = .ok own) ↔
      ∀ ref ∈ c.declaredFriends, ∃ fs, r.resolveFriend strict c.name ref = .ok fs := by
  rw [← exists_mapM_eq_ok_iff]
  simp only [ownFriends, map_eq_ok_iff]
  constructor
  · rintro ⟨_, fs, hfs, -⟩
    exact ⟨fs, hfs⟩
  · rintro ⟨fs, hfs⟩
    exact ⟨_, fs, hfs, rfl⟩

theorem exists_linkClass_iff (linked : ClassTable) (c : ClassInfo) :
    (∃ linked', r.linkClass strict linked c = .ok linked') ↔
      ∀ ref ∈ c.declaredFriends, ∃ fs, r.resolveFriend strict c.name ref = .ok fs := by
  rw [← exists_ownFriends_iff]
  constructor
  · rintro ⟨_, h⟩
    obtain ⟨own, hown, -⟩ := bind_eq_ok_iff.mp h
    exact ⟨own, hown⟩
  · rintro ⟨own, hown⟩
    exact ⟨_, by rw [linkClass, hown, ok_bind]; rfl⟩

theorem exists_linkClasses_iff :
    (∃ classes, r.classes.classes.foldlM (r.linkClass r.config.isStrict) ∅ = .ok classes) ↔
      r.FriendsResolve :=
  exists_foldlM_eq_ok_iff exists_linkClass_iff

theorem exists_link_iff :
    (∃ p, r.link = .ok p) ↔
      r.FriendsResolve ∧ (r.config.mode = .enforced → r.unresolvedType? = none) := by
  simp only [link_eq_ok_iff, ← exists_linkClasses_iff]
  constructor
  · rintro ⟨_, classes, hclasses, htypes, -⟩
    exact ⟨⟨classes, hclasses⟩, htypes⟩
  · rintro ⟨⟨classes, hclasses⟩, htypes⟩
    exact ⟨_, classes, hclasses, htypes, rfl⟩

/-- Where friends are in order, the first type that is not is what linking reports. -/
theorem link_eq_error (hmode : r.config.mode = .enforced) (hfriends : r.FriendsResolve)
    (h : r.unresolvedType? = some e) : r.link = .error e := by
  obtain ⟨classes, hclasses⟩ := exists_linkClasses_iff.mpr hfriends
  rw [link, hclasses, ok_bind]
  simp only [hmode, h]
  rfl

theorem unresolvedType?_eq_none_iff :
    r.unresolvedType? = none ↔
      ∀ m ∈ r.typedMembers, ∀ name ∈ m.2.classNames, r.classes.contains name = true := by
  simp [unresolvedType?, List.findSome?_eq_none_iff, List.find?_eq_none]

theorem mem_typedMembers_iff {m : String × Ty} :
    m ∈ r.typedMembers ↔
      (∃ c ∈ r.classes.classes, m ∈ c.typedMembers) ∨ ∃ f ∈ r.functions, m ∈ f.typedMembers := by
  simp only [typedMembers, List.mem_append, List.mem_flatMap, List.mem_mergeSort]

/-! ### Linked classes -/

end Registry

/-- The class with these friends of its own and those of its bases. -/
def ClassInfo.befriended (c : ClassInfo) (own : List Friend) (bases : List ClassInfo) : ClassInfo :=
  { c with friends := (bases.map ClassInfo.friends).foldl (· ∪ ·) (FriendSet.ofList own) }

theorem ClassTable.contains_iff_mem_names {t : ClassTable} {name : String} :
    t.contains name = true ↔ name ∈ t.classes.map ClassInfo.name := by
  rw [contains, find?, List.find?_isSome, List.mem_map]
  simp only [decide_eq_true_eq]

namespace Registry

variable {r : Registry} {strict : Bool} {c : ClassInfo} {p : Program}

/-- The classes linked so far are these, each with its own friends and those that its bases are
linked with. -/
structure LinkedUpTo (r : Registry) (strict : Bool) (before : List ClassInfo)
    (linked : ClassTable) : Prop where
  names : linked.classes.map ClassInfo.name = before.map ClassInfo.name
  found : ∀ c ∈ before, ∃ own, r.ownFriends strict c = .ok own ∧
    linked.find? c.name = some (c.befriended own (linked.select c.bases))

theorem contains_bases (hr : r.classes.WellOrdered) {before after : List ClassInfo}
    (hsplit : r.classes.classes = before ++ c :: after) {linked : ClassTable}
    (hnames : ∀ k ∈ before, k.name ∈ linked.classes.map ClassInfo.name) :
    ∀ name ∈ c.bases, linked.contains name = true := by
  intro name hname
  obtain ⟨k, hk, hfind⟩ := hr.earlier before c after hsplit name (List.mem_append_left _ hname)
  rw [ClassTable.contains_iff_mem_names, ← ClassTable.name_of_find? hfind]
  exact hnames k hk

theorem LinkedUpTo.step (hr : r.classes.WellOrdered) {before after : List ClassInfo}
    (hsplit : r.classes.classes = before ++ c :: after) {linked linked' : ClassTable}
    (h : r.LinkedUpTo strict before linked) (hlink : r.linkClass strict linked c = .ok linked') :
    r.LinkedUpTo strict (before ++ [c]) linked' := by
  obtain ⟨own, hown, hlink⟩ := bind_eq_ok_iff.mp hlink
  cases hlink
  have hnames : ∀ k ∈ before, k.name ∈ linked.classes.map ClassInfo.name := by
    rw [h.names]
    exact fun k hk => List.mem_map_of_mem hk
  have hfresh : linked.find? c.name = none := by
    have hnodup := hr.nodup_names
    rw [hsplit, List.map_append, List.nodup_append] at hnodup
    have hnot : ¬linked.contains c.name = true := by
      rw [ClassTable.contains_iff_mem_names, h.names]
      exact fun hmem => hnodup.2.2 c.name hmem c.name (by simp) rfl
    simpa [ClassTable.contains] using hnot
  refine ⟨by simp [ClassTable.push, h.names], ?_⟩
  intro k hk
  rcases List.mem_append.mp hk with hk | hk
  -- The bases of an earlier class are earlier still, so it is linked as it was.
  · obtain ⟨own', hown', hfind⟩ := h.found k hk
    obtain ⟨earlier, later, rfl⟩ := List.append_of_mem hk
    have hsplit' : r.classes.classes = earlier ++ k :: (later ++ c :: after) := by simp [hsplit]
    have hbases := contains_bases hr hsplit' fun j hj => hnames j (List.mem_append_left _ hj)
    refine ⟨own', hown', ?_⟩
    rw [ClassTable.select_push hbases]
    exact ClassTable.find?_push_of_some hfind
  · rw [List.mem_singleton.mp hk]
    refine ⟨own, hown, ?_⟩
    rw [ClassTable.select_push (contains_bases hr hsplit hnames), ClassTable.find?_push, hfresh,
      Option.none_or, if_pos rfl]
    rfl

theorem LinkedUpTo.foldlM (hr : r.classes.WellOrdered) {before after : List ClassInfo}
    (hsplit : r.classes.classes = before ++ after) {linked linked' : ClassTable}
    (h : r.LinkedUpTo strict before linked)
    (hlink : after.foldlM (r.linkClass strict) linked = .ok linked') :
    r.LinkedUpTo strict r.classes.classes linked' := by
  induction after generalizing before linked with
  | nil =>
      cases hlink
      rw [hsplit, List.append_nil]
      exact h
  | cons c after ih =>
      rw [List.foldlM_cons] at hlink
      obtain ⟨linked₁, hlinked, hlink⟩ := bind_eq_ok_iff.mp hlink
      exact ih (by simp [hsplit]) (h.step hr hsplit hlinked) hlink

theorem LinkedUpTo.find?_eq_none {linked : ClassTable}
    (h : r.LinkedUpTo strict r.classes.classes linked) {name : String}
    (hnone : r.classes.find? name = none) : linked.find? name = none := by
  have hiff : linked.contains name = true ↔ r.classes.contains name = true := by
    rw [ClassTable.contains_iff_mem_names, h.names, ClassTable.contains_iff_mem_names]
  rw [← Option.not_isSome_iff_eq_none] at hnone ⊢
  exact fun hsome => hnone (hiff.mp hsome)

theorem linkedUpTo_of_link (hr : r.classes.WellOrdered) (h : r.link = .ok p) :
    r.LinkedUpTo r.config.isStrict r.classes.classes p.classes := by
  obtain ⟨classes, hclasses, -, rfl⟩ := link_eq_ok_iff.mp h
  have hnone : r.LinkedUpTo r.config.isStrict [] ∅ := ⟨rfl, nofun⟩
  exact hnone.foldlM hr rfl hclasses

end Registry

end GuardedObjects
