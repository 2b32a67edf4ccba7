import GuardedObjects.Proofs.Access.Privacy
import GuardedObjects.Proofs.Registry.Friends

/-!
# Access to subclasses

Whoever may use a protected member on objects of a class may use it on objects of its subclasses,
by the same rule or by another one, and the friends of a class find its private members on objects
of its subclasses as well.
-/

namespace GuardedObjects

namespace MemberSite

variable {a c : ClassInfo} {m : MemberSite} {caller : Caller} {grant : Grant}

theorem isSome_grant?_of_granted (h : Granted c m caller grant) :
    (grant? c m caller).isSome = true := by
  rw [Option.isSome_iff_ne_none]
  intro hnone
  unfold grant? at hnone
  split_ifs at hnone with hfunction
  -- In each case that is left no rule has fired, although one holds.
  split at hnone
  · rename_i receiver hr
    split_ifs at hnone with hsame hprot hcls hmethod
    cases h with
    | friendFunction hf hfriend => simp [hf, hfriend] at hfunction
    | sameClass hr' hdeclares =>
        rw [hr] at hr'
        cases hr'
        simp [hdeclares] at hsame
    | inherited hr' hvis hsub =>
        rw [hr] at hr'
        cases hr'
        simp [hvis, hsub] at hprot
    | friendClass hr' hfriend =>
        rw [hr] at hr'
        cases hr'
        exact hcls hfriend
    | friendMethod hr' hfriend =>
        rw [hr] at hr'
        cases hr'
        exact hmethod hfriend
  · rename_i declaring hr hor
    split_ifs at hnone with hmethod
    cases h with
    | friendFunction hf hfriend => simp [hf, hfriend] at hfunction
    | friendMethod hor' hfriend =>
        rw [hor] at hor'
        cases hor'
        exact hmethod hfriend
    | _ hr' _ => rw [hr] at hr'; cases hr'
  · rename_i hr hor
    cases h with
    | friendFunction hf hfriend => simp [hf, hfriend] at hfunction
    | friendMethod hor' _ => rw [hor] at hor'; cases hor'
    | _ hr' _ => rw [hr] at hr'; cases hr'

/-- The class `c` has what the rules ask of the class `a` or of a subclass of it. -/
structure Extends (c a : ClassInfo) : Prop where
  order : a.order ⊆ c.order
  friends : ∀ f ∈ a.friends, f ∈ c.friends

namespace Extends

variable (h : Extends c a)

include h

theorem isSubclassOf {cls : String} (ha : a.isSubclassOf cls = true) :
    c.isSubclassOf cls = true := by
  have hmem : cls ∈ a.order := by simpa [ClassInfo.isSubclassOf] using ha
  simpa [ClassInfo.isSubclassOf] using h.order hmem

-- Objects of the class itself are objects of another class now, so the rule may be another one.
theorem granted_prot (hg : Granted a m caller grant) (m' : MemberSite)
    (hm : m'.visibility = .prot) :
    ∃ grant', Granted c m' caller grant' := by
  cases hg with
  | friendFunction hf hfriend => exact ⟨_, .friendFunction hf (h.friends _ hfriend)⟩
  | sameClass hr _ =>
      have hself : a.isSubclassOf a.name = true := by simp [ClassInfo.isSubclassOf, ClassInfo.order]
      exact ⟨_, .inherited hr hm (h.isSubclassOf hself)⟩
  | inherited hr _ hsub => exact ⟨_, .inherited hr hm (h.isSubclassOf hsub)⟩
  | friendClass hr hfriend => exact ⟨_, .friendClass hr (h.friends _ hfriend)⟩
  | friendMethod hr hfriend => exact ⟨_, .friendMethod hr (h.friends _ hfriend)⟩

theorem granted_friend (hg : Granted a m caller grant) (hfriend : grant.isFriend = true)
    (m' : MemberSite) : Granted c m' caller grant := by
  cases hg with
  | friendFunction hf hmem => exact .friendFunction hf (h.friends _ hmem)
  | friendClass hr hmem => exact .friendClass hr (h.friends _ hmem)
  | friendMethod hr hmem => exact .friendMethod hr (h.friends _ hmem)
  | sameClass | inherited => cases hfriend

end Extends

-- A grant to the class of the caller asks that this class declares the member, and one to friends
-- takes the nearest class that declares it.
theorem exists_key_of_granted {t : ClassTable} {member : String}
    (hg : Granted c (locate t c member caller) caller grant)
    (hpriv : Visibility.ofName member = .priv)
    (hd : (t.declaringClass? c member).isSome = true) (fallback : String) :
    ∃ k ∈ t.lineage c, k.declares member = true ∧
      (locate t c member caller).key (some grant) fallback = .priv k.name member := by
  have hvis : (locate t c member caller).visibility = .priv := hpriv
  obtain ⟨k, hk⟩ := Option.isSome_iff_exists.mp hd
  have hfriend (hf : grant.isFriend = true) : ∃ k ∈ t.lineage c, k.declares member = true ∧
      (locate t c member caller).key (some grant) fallback = .priv k.name member := by
    refine ⟨k, List.mem_of_find?_eq_some hk, by simpa using List.find?_some hk, ?_⟩
    simp [key, hf, locate, hpriv, hk]
  cases hg with
  | friendFunction | friendClass | friendMethod => exact hfriend rfl
  | inherited _ hprot _ =>
      rw [hvis] at hprot
      cases hprot
  | sameClass _ hdeclares =>
      have hlexical := hdeclares.resolve_left fun hne => hne hvis
      simp only [locate, Option.any_eq_true] at hlexical
      obtain ⟨j, hj, hdeclares⟩ := hlexical
      obtain ⟨declaring, -, hclass⟩ := Option.bind_eq_some_iff.mp hj
      refine ⟨j, List.mem_of_find?_eq_some hclass, hdeclares, ?_⟩
      simp [key, Grant.isFriend, locate, hpriv, hj]

end MemberSite

namespace Program

variable {p : Program} {a c : ClassInfo}

/-- The rule by which a caller may use a member on objects of a class. -/
def grant? (p : Program) (caller : Caller) (c : ClassInfo) (member : String) : Option Grant :=
  (MemberSite.locate p.classes c member caller).grant? c caller

theorem Linked.extends (hp : p.Linked) (hc : c ∈ p.classes.classes)
    (ha : a ∈ p.classes.lineage c) : MemberSite.Extends c a := by
  have hordered := hp.wellOrdered
  have hat := ClassTable.mem_classes_of_mem_lineage (hordered.find?_self hc) ha
  have hsub := hordered.order_subset hc ha
  obtain ⟨r, hr, hlink⟩ := hp
  exact ⟨hsub, fun f hf => Registry.friends_subset_of_order_subset hr hlink hat hc hsub hf⟩

theorem Linked.isSome_declaringClass? (hp : p.Linked) (hc : c ∈ p.classes.classes)
    (ha : a ∈ p.classes.lineage c) {member : String}
    (hd : (p.classes.declaringClass? a member).isSome = true) :
    (p.classes.declaringClass? c member).isSome = true := by
  rw [ClassTable.declaringClass?, List.find?_isSome] at hd ⊢
  obtain ⟨k, hk, hdeclares⟩ := hd
  exact ⟨k, hp.wellOrdered.lineage_subset hc ha hk, hdeclares⟩

/-- Where a rule grants a private member, it is read under the key of that rule, if there is any
class that declares it. -/
theorem readKey_of_grant? (hmode : p.mode = .enforced) {caller : Caller} {member : String}
    {grant : Grant} (hg : p.grant? caller c member = some grant)
    (hpriv : Visibility.ofName member = .priv) :
    p.readKey caller c member =
      if (p.classes.declaringClass? c member).isSome then
        .ok ((MemberSite.locate p.classes c member caller).key (some grant) c.name)
      else .error (.undefinedMember c.name member) := by
  have hcaller : caller ≠ .reflection := by
    rintro rfl
    rw [grant?, MemberSite.grant?_reflection] at hg
    cases hg
  rw [grant?] at hg
  simp only [readKey, MemberSite.authorizeRead, hmode, hg]
  cases hd : p.classes.declaringClass? c member <;>
    simp [MemberSite.locate, hpriv, hd, Visibility.isRestricted, hcaller]

/-- In an enforced program, a caller that may use a protected member on objects of a class may use
it on objects of every subclass. A friend that may use a private member there is never denied it on
objects of a subclass, and where the class or an ancestor of it declares the member, the friend is
led to a declaration of it. -/
theorem Linked.access_inherited (hp : p.Linked) (hmode : p.mode = .enforced)
    (hc : c ∈ p.classes.classes) (ha : a ∈ p.classes.lineage c) (caller : Caller)
    (member : String) :
    (Visibility.ofName member = .prot → (p.grant? caller a member).isSome = true →
      (p.grant? caller c member).isSome = true) ∧
    (Visibility.ofName member = .priv → ∀ grant, p.grant? caller a member = some grant →
      grant.isFriend = true →
        (∀ owner name, p.readKey caller c member ≠ .error (.accessDenied owner name)) ∧
        ((p.classes.declaringClass? a member).isSome = true →
          ∃ k ∈ p.classes.lineage c, k.declares member = true ∧
            p.readKey caller c member = .ok (.priv k.name member))) := by
  have hext := hp.extends hc ha
  refine ⟨?_, ?_⟩
  · intro hprot hsome
    obtain ⟨grant, hgrant⟩ := Option.isSome_iff_exists.mp hsome
    have hgranted := MemberSite.granted_of_grant? hgrant
    obtain ⟨grant', hgranted'⟩ :=
      hext.granted_prot hgranted (MemberSite.locate p.classes c member caller) hprot
    exact MemberSite.isSome_grant?_of_granted hgranted'
  · intro hpriv grant hgrant hfriend
    have hgranted := hext.granted_friend (MemberSite.granted_of_grant? hgrant) hfriend
      (MemberSite.locate p.classes c member caller)
    obtain ⟨grant', hgrant'⟩ :=
      Option.isSome_iff_exists.mp (MemberSite.isSome_grant?_of_granted hgranted)
    have hread := readKey_of_grant? hmode hgrant' hpriv
    refine ⟨?_, ?_⟩
    · intro owner name
      rw [hread]
      split <;> exact nofun
    · intro hd
      have hdc := hp.isSome_declaringClass? hc ha hd
      obtain ⟨k, hk, hdeclares, hkey⟩ := MemberSite.exists_key_of_granted
        (MemberSite.granted_of_grant? hgrant') hpriv hdc c.name
      exact ⟨k, hk, hdeclares, by rw [hread, if_pos hdc, hkey]⟩

/-- The function that a ledger trusts reads the total of a journal, which is a ledger. -/
theorem access_inherited_journal : ∃ c ∈ ledgers.classes.classes, c.name = "Journal" ∧
    (∃ a ∈ ledgers.classes.lineage c, a.name = "Ledger" ∧
      ledgers.grant? (.function "audit") a "__total" = some .friendFunction) ∧
    ∃ k ∈ ledgers.classes.lineage c, k.declares "__total" = true ∧
      ledgers.readKey (.function "audit") c "__total" = .ok (.priv k.name "__total") := by
  have hmode : ledgers.mode = .enforced := by cbv
  have hjournal : (ledgers.classes.find? "Journal").any (fun c =>
      (ledgers.classes.lineage c).any fun a => a.name = "Ledger" ∧
        ledgers.grant? (.function "audit") a "__total" = some .friendFunction ∧
          (ledgers.classes.declaringClass? a "__total").isSome) = true := by cbv
  obtain ⟨c, hfind, hjournal⟩ := (Option.any_eq_true _ _).mp hjournal
  obtain ⟨a, ha, hledger⟩ := List.any_eq_true.mp hjournal
  obtain ⟨hname, hgrant, hd⟩ := of_decide_eq_true hledger
  have hc := List.mem_of_find?_eq_some hfind
  have hread := (linked_ledgers.access_inherited hmode hc ha (.function "audit") "__total").2
    (by decide) .friendFunction hgrant rfl
  exact ⟨c, hc, ClassTable.name_of_find? hfind, ⟨a, ha, hname, hgrant⟩, hread.2 hd⟩

end Program

end GuardedObjects
