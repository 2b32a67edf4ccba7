import GuardedObjects.Proofs.Registry.Linking

/-!
# Declared friends that are left out

Some of the declared friends of all classes are left out. The same declarations are accepted then,
and a class loses only friends that nothing in the registry is known as, as long as every declared
friend stays that names something there.
-/

namespace GuardedObjects

/-! ### Leaving friends out -/

/-- The declaration with those of its friends that are to be kept. -/
def ClassDecl.keepFriends (keep : FriendRef → Bool) (d : ClassDecl) : ClassDecl :=
  { d with friends := d.friends.filter keep }

def Declaration.keepFriends (keep : FriendRef → Bool) : Declaration → Declaration
  | .cls d => .cls (d.keepFriends keep)
  | .function d => .function d

def ClassInfo.keepFriends (keep : FriendRef → Bool) (c : ClassInfo) : ClassInfo :=
  { c with declaredFriends := c.declaredFriends.filter keep }

theorem ClassInfo.changesFriends_keepFriends (keep : FriendRef → Bool) :
    ChangesFriends (keepFriends keep) := fun _ => rfl

theorem ClassDecl.resolve_keepFriends (keep : FriendRef → Bool) {d : ClassDecl}
    {ancestors : List String} {c : ClassInfo} (h : d.resolve ancestors = .ok c) :
    (d.keepFriends keep).resolve ancestors = .ok (c.keepFriends keep) := by
  unfold resolve at h ⊢
  simp only [ClassDecl.keepFriends] at h ⊢
  split at h
  · cases h
  · obtain ⟨attributes, hattributes, h⟩ := bind_eq_ok_iff.mp h
    obtain ⟨methods, hmethods, h⟩ := bind_eq_ok_iff.mp h
    cases h
    rw [hattributes, ok_bind, hmethods]
    rfl

namespace Registry

variable {r r' : Registry} {keep : FriendRef → Bool}

def keepFriends (keep : FriendRef → Bool) (r : Registry) : Registry :=
  { r with classes := r.classes.map (ClassInfo.keepFriends keep) }

theorem find?_keepFriends (name : String) :
    (r.keepFriends keep).classes.find? name =
      (r.classes.find? name).map (ClassInfo.keepFriends keep) :=
  ClassTable.find?_map (ClassInfo.changesFriends_keepFriends keep) r.classes name

theorem contains_keepFriends (name : String) :
    (r.keepFriends keep).classes.contains name = r.classes.contains name :=
  ClassTable.contains_map (ClassInfo.changesFriends_keepFriends keep) r.classes name

theorem resolve_keepFriends {d : ClassDecl} {c : ClassInfo} (h : r.resolve d = .ok c) :
    (r.keepFriends keep).resolve (d.keepFriends keep) = .ok (c.keepFriends keep) := by
  obtain ⟨bases, hbases, h⟩ := bind_eq_ok_iff.mp h
  have hkept : (r.keepFriends keep).basesOf (d.keepFriends keep) =
      .ok (bases.map (ClassInfo.keepFriends keep)) := by
    refine mapM_map (l := d.bases) ?_ hbases
    intro base b hb
    rw [find?_keepFriends]
    cases hfind : r.classes.find? base with
    | none =>
        rw [hfind] at hb
        cases hb
    | some k =>
        rw [hfind] at hb
        cases hb
        rfl
  have hmerge : ancestorsOf (bases.map (ClassInfo.keepFriends keep)) = ancestorsOf bases := by
    rw [ancestorsOf, List.map_map, List.map_map]
    rfl
  rw [resolve, hkept, ok_bind]
  simp only [hmerge]
  split at h
  · cases h
  · exact ClassDecl.resolve_keepFriends keep h

theorem accept_keepFriends {d : Declaration} (h : r.accept d = .ok r') :
    (r.keepFriends keep).accept (d.keepFriends keep) = .ok (r'.keepFriends keep) := by
  cases d with
  | cls d =>
      obtain ⟨⟨c, r₁⟩, hd, rfl⟩ := map_eq_ok_iff.mp h
      obtain ⟨hfresh, hc, hreview, rfl⟩ := declare_eq_ok_iff.mp hd
      have hkept : (r.keepFriends keep).classes.review? r.rules (c.keepFriends keep) = none := by
        rw [← hreview]
        exact ClassTable.review?_map (ClassInfo.changesFriends_keepFriends keep) _ c r.rules
      refine map_eq_ok_iff.mpr ⟨(c.keepFriends keep, _), declare_eq_ok_iff.mpr
        ⟨(contains_keepFriends d.name).trans hfresh, resolve_keepFriends hc, hkept, rfl⟩, ?_⟩
      simp [keepFriends, ClassTable.map, ClassTable.push]
  | function d =>
      obtain ⟨⟨f, r₁⟩, hd, rfl⟩ := map_eq_ok_iff.mp h
      obtain ⟨hfresh, hf, hreview, rfl⟩ := declareFunction_eq_ok_iff.mp hd
      exact map_eq_ok_iff.mpr
        ⟨(f, _), declareFunction_eq_ok_iff.mpr ⟨hfresh, hf, hreview, rfl⟩, rfl⟩

theorem acceptAll_keepFriends {ds : List Declaration} (h : r.acceptAll ds = .ok r') :
    (r.keepFriends keep).acceptAll (ds.map (Declaration.keepFriends keep)) =
      .ok (r'.keepFriends keep) := by
  rw [acceptAll, List.foldlM_map]
  exact foldlM_map accept_keepFriends h

/-! ### Lenient linking -/

theorem exists_resolveFriend_lenient (r : Registry) (owner : String) (ref : FriendRef) :
    ∃ fs, r.resolveFriend false owner ref = .ok fs := by
  cases ref with
  | named name =>
      cases hclass : r.classes.contains name <;> cases hfunction : r.hasFunction name <;>
        exact ⟨_, by simp only [resolveFriend, hclass, hfunction]; rfl⟩
  | specified friend => exact ⟨[friend], rfl⟩

/-- Where friends are not looked up strictly, linking stops at no friend. -/
theorem exists_link_of_lenient (hstrict : r.config.isStrict = false)
    (htypes : r.config.mode = .enforced → r.unresolvedType? = none) : ∃ p, r.link = .ok p := by
  refine exists_link_iff.mpr ⟨?_, htypes⟩
  intro c _ ref _
  rw [hstrict]
  exact exists_resolveFriend_lenient r c.name ref

theorem unresolvedType?_keepFriends :
    (r.keepFriends keep).unresolvedType? = r.unresolvedType? := by
  have hmembers : (r.keepFriends keep).typedMembers = r.typedMembers := by
    simp only [typedMembers, keepFriends, ClassTable.map, List.flatMap_map]
    rfl
  simp only [unresolvedType?, hmembers, contains_keepFriends]

theorem exists_link_keepFriends (keep : FriendRef → Bool) {p : Program}
    (hstrict : r.config.isStrict = false) (h : r.link = .ok p) :
    ∃ p', (r.keepFriends keep).link = .ok p' := by
  obtain ⟨-, -, htypes, -⟩ := link_eq_ok_iff.mp h
  refine exists_link_of_lenient hstrict ?_
  intro hmode
  rw [unresolvedType?_keepFriends]
  exact htypes hmode

/-! ### Friends that stay -/

theorem hasFriend_keepFriends (keep : FriendRef → Bool) (r : Registry) (f : Friend) :
    (r.keepFriends keep).hasFriend f = r.hasFriend f := by
  cases f with
  | function name => rfl
  | cls name => exact contains_keepFriends name
  | method owner name =>
      have hkept := ClassInfo.changesFriends_keepFriends keep
      exact ClassTable.any_method?_map hkept r.classes owner name

theorem denotes_keepFriends {ref : FriendRef} {f : Friend} :
    (r.keepFriends keep).Denotes ref f ↔ r.Denotes ref f := by
  cases ref with
  | named name =>
      rw [denotes_named_iff, denotes_named_iff, contains_keepFriends]
      rfl
  | specified friend => rw [denotes_specified_iff, denotes_specified_iff]

/-- The declared friend names a class, a function or a method that a class can be asked for. -/
def knows (r : Registry) : FriendRef → Bool
  | .named name => r.classes.contains name || r.hasFunction name
  | .specified friend => r.hasFriend friend

theorem knows_of_denotes {ref : FriendRef} {f : Friend} (h : r.Denotes ref f)
    (hf : r.hasFriend f = true) : r.knows ref = true := by
  cases h with
  | cls => exact Bool.or_eq_true_iff.mpr (.inl hf)
  | function => exact Bool.or_eq_true_iff.mpr (.inr hf)
  | specified => exact hf

/-- A friend that is known is declared after as before, if no declared friend is left out that names
something. -/
theorem befriends_keepFriends (hkeep : ∀ ref, r.knows ref = true → keep ref = true)
    {f : Friend} (hf : r.hasFriend f = true) {name : String} :
    (r.keepFriends keep).Befriends name f ↔ r.Befriends name f := by
  unfold Befriends
  rw [find?_keepFriends]
  simp only [denotes_keepFriends]
  constructor
  · rintro ⟨k, hk, ref, href, hd⟩
    obtain ⟨j, hj, rfl⟩ := Option.map_eq_some_iff.mp hk
    exact ⟨j, hj, ref, (List.mem_filter.mp href).1, hd⟩
  · rintro ⟨k, hk, ref, href, hd⟩
    have hkept := hkeep ref (knows_of_denotes hd hf)
    exact ⟨_, Option.map_eq_some_iff.mpr ⟨k, hk, rfl⟩, ref, List.mem_filter.mpr ⟨href, hkept⟩, hd⟩

theorem mem_friends_keepFriends (hkeep : ∀ ref, r.knows ref = true → keep ref = true)
    {p p' : Program} (hr : r.Reachable) (h : r.link = .ok p) (hr' : (r.keepFriends keep).Reachable)
    (h' : (r.keepFriends keep).link = .ok p') {c c' : ClassInfo} (hc : c ∈ p.classes.classes)
    (hc' : c' ∈ p'.classes.classes) (horder : c'.order = c.order) {f : Friend}
    (hf : r.hasFriend f = true) : f ∈ c'.friends ↔ f ∈ c.friends := by
  rw [mem_friends_iff_befriends hr h hc, mem_friends_iff_befriends hr' h' hc', horder]
  simp only [befriends_keepFriends hkeep hf]

end Registry

end GuardedObjects
