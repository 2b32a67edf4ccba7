import GuardedObjects.Proofs.Registry.Submission

/-!
# Overriding

Where the rules are enforced, a class overrides what it inherits only where that is virtual or
abstract. The rule asks this of the nearest declaration that each base has. By induction it holds
of the declarations behind these as well, except for those that a nearer one hides which does not
descend from them.
-/

namespace GuardedObjects

theorem Rule.badOverride?_eq_none {t : ClassTable} {c b : ClassInfo} {n : String} {m : Callable}
    (h : badOverrideIn? t c = none) (hm : c.method? n = some m) (hname : m.name = n)
    (hspecial : Visibility.ofName n ≠ .special) (hb : b ∈ t.select c.bases) :
    badOverride? t c m b = none := by
  rw [badOverrideIn?, List.findSome?_eq_none_iff] at h
  have hentry := h (n, m) (Table.mem_of_find?_eq_some hm)
  have hfree : m.isSpecial = false := by simpa [Callable.isSpecial, hname] using hspecial
  rw [hfree, if_neg (by decide), List.findSome?_eq_none_iff] at hentry
  exact hentry b hb

/-- The class declares the name as a method that its subclasses may override. -/
def ClassInfo.Opens (a : ClassInfo) (n : String) : Prop :=
  ∃ m, a.method? n = some m ∧ m.markers.isOverridable = true

namespace ClassTable

/-- What the class `a` declares under a name is out of sight for `d`. Every base of `d` that
descends from `a` has the name from a nearer class, and if that class descends from `a` itself, the
declaration is out of sight for it as well. -/
inductive HiddenFrom (t : ClassTable) (n : String) (a : ClassInfo) : ClassInfo → Prop
  | behind {d b₀ : ClassInfo} :
      b₀ ∈ t.select d.bases → b₀.isSubclassOf a.name = true →
      (∀ b ∈ t.select d.bases, b.isSubclassOf a.name = true →
        ∀ k, t.declaringClass? b n = some k → k.name ≠ a.name) →
      (∀ b ∈ t.select d.bases, b.isSubclassOf a.name = true →
        ∀ k, t.declaringClass? b n = some k → k.isSubclassOf a.name = true →
          HiddenFrom t n a k) →
      HiddenFrom t n a d

variable {t : ClassTable} {n : String} {a c d k : ClassInfo}

/-- A class that is declared later brings nothing hidden into sight. -/
theorem HiddenFrom.push (ht : t.Closed) (h : t.HiddenFrom n a d)
    (hd : ∀ name ∈ d.bases, t.contains name = true) : (t.push c).HiddenFrom n a d := by
  induction h with
  | behind hb₀ hsub hnearer _ ih =>
      have hbases := select_push (c := c) hd
      have hold {b k : ClassInfo} {names : List String} (hb : b ∈ t.select names)
          (hk : (t.push c).declaringClass? b n = some k) :
          t.declaringClass? b n = some k ∧ k ∈ t.classes := by
        have hb := mem_classes_of_mem_select hb
        rw [ht.declaringClass?_push hb] at hk
        exact ⟨hk, ht.mem_of_declaringClass? hb hk⟩
      refine .behind (hbases ▸ hb₀) hsub ?_ ?_
      · intro b hb hba k hk
        rw [hbases] at hb
        obtain ⟨hk, -⟩ := hold hb hk
        exact hnearer b hb hba k hk
      · intro b hb hba k hk hka
        rw [hbases] at hb
        obtain ⟨hk, hkt⟩ := hold hb hk
        exact ih b hb hba k hk hka (ht.bases k hkt)

/-- A class that keeps all rules keeps each of them. -/
theorem violation_eq_none (h : t.review? Rule.all c = none) (rule : Rule) :
    rule.classViolation? t c = none := by
  rw [review?, List.findSome?_eq_none_iff] at h
  exact h rule (by cases rule <;> decide)

theorem opens_of_nearest (h : Rule.badOverrideIn? t c = none) {m : Callable}
    (hm : c.method? n = some m) (hname : m.name = n) (hspecial : Visibility.ofName n ≠ .special)
    {b : ClassInfo} (hb : b ∈ t.select c.bases) (hk : t.declaringClass? b n = some k) :
    k.Opens n := by
  have hbad := Rule.badOverride?_eq_none h hm hname hspecial hb
  simp only [Rule.badOverride?, hname, hk] at hbad
  split at hbad
  · rename_i hany
    obtain ⟨m', hm', hopen⟩ := (Option.any_eq_true _ _).mp hany
    exact ⟨m', hm', hopen⟩
  · cases hbad

/-- Whatever a class of the table overrides was open to that, or is out of sight for it. -/
def Disciplined (t : ClassTable) : Prop :=
  ∀ d ∈ t.classes, ∀ n, (d.method? n).isSome = true → Visibility.ofName n ≠ .special →
    ∀ a ∈ t.select d.ancestors, a.declares n = true → a.Opens n ∨ t.HiddenFrom n a d

theorem Closed.opens_or_hidden (ht : t.Closed) (hold : t.Disciplined) (hc : t.Fits c)
    (hreview : Rule.badOverrideIn? t c = none) {m : Callable} (hm : c.method? n = some m)
    (hname : m.name = n) (hspecial : Visibility.ofName n ≠ .special)
    (ha : a ∈ t.select c.ancestors) (hdeclares : a.declares n = true) :
    a.Opens n ∨ t.HiddenFrom n a c := by
  have hat := mem_classes_of_mem_select ha
  have hnearest {b k : ClassInfo} (hb : b ∈ t.select c.bases)
      (hk : t.declaringClass? b n = some k) : k ∈ t.classes ∧ k.Opens n :=
    ⟨ht.mem_of_declaringClass? (mem_classes_of_mem_select hb) hk,
      opens_of_nearest hreview hm hname hspecial hb hk⟩
  by_cases hopens : a.Opens n
  · exact .inl hopens
  · obtain ⟨name, hmem, hfind⟩ := List.mem_filterMap.mp ha
    obtain ⟨b₀, hb₀, hsub⟩ := hc.inherited name hmem
    rw [← name_of_find? hfind] at hsub
    -- The nearest declarations are open, so that of `a` is none of them.
    have hnearer {b k : ClassInfo} (hb : b ∈ t.select c.bases)
        (hk : t.declaringClass? b n = some k) : k.name ≠ a.name := by
      intro heq
      obtain ⟨hkt, hkopens⟩ := hnearest hb hk
      have hka := ht.find? k hkt
      rw [heq, ht.find? a hat] at hka
      cases hka
      exact hopens hkopens
    refine .inr (.behind hb₀ hsub (fun b hb _ k hk => hnearer hb hk) ?_)
    intro b hb _ k hk hka
    obtain ⟨hkt, m', hm', -⟩ := hnearest hb hk
    have hak := ht.mem_select_ancestors hat hka (hnearer hb hk)
    have hkn : (k.method? n).isSome = true := by rw [hm']; rfl
    exact (hold k hkt n hkn hspecial a hak hdeclares).resolve_left hopens

theorem Disciplined.push (ht : t.Closed) (hold : t.Disciplined) (hc : t.Fits c)
    (hreview : Rule.badOverrideIn? t c = none)
    (hnames : ∀ n m, c.method? n = some m → m.name = n) : (t.push c).Disciplined := by
  intro d hd n hn hspecial a ha hdeclares
  rcases mem_push.mp hd with hd | rfl
  · rw [select_push (ht.ancestors d hd)] at ha
    exact (hold d hd n hn hspecial a ha hdeclares).imp_right fun h => h.push ht (ht.bases d hd)
  · obtain ⟨m, hm⟩ := Option.isSome_iff_exists.mp hn
    rw [select_push fun _ hname => ht.ancestors_of_fits hc hname] at ha
    have hnew := ht.opens_or_hidden hold hc hreview hm (hnames n m hm) hspecial ha hdeclares
    exact hnew.imp_right fun h => h.push ht hc.bases

end ClassTable

namespace Registry

variable {r : Registry}

theorem Reachable.disciplined (h : r.Reachable) (hmode : r.config.mode = .enforced) :
    r.classes.Disciplined := by
  induction h with
  | empty config =>
      intro d hd
      simp [EmptyCollection.emptyCollection] at hd
  | @declare r r' d c hr hd ih =>
      have hfits := fits_of_declare hd
      have hallowed := (hr.declare hd).allAccepted
      obtain ⟨-, -, hreview, rfl⟩ := declare_eq_ok_iff.mp hd
      rw [rules_of_enforced (r := r) hmode] at hreview
      refine (ih hmode).push hr.closed hfits (ClassTable.violation_eq_none hreview .virtualOverride) ?_
      intro n m hm
      exact (hallowed.methods c (ClassTable.mem_push.mpr (.inr rfl)) n m hm).name_eq
  | declareFunction _ hd ih =>
      obtain ⟨-, -, -, rfl⟩ := declareFunction_eq_ok_iff.mp hd
      exact ih hmode

/-- In a registry that enforces the rules, what a class overrides in an ancestor of whatever depth
is there a method that is virtual or abstract, unless the class has it out of sight. -/
theorem Reachable.overridden_opens (h : r.Reachable) (hmode : r.config.mode = .enforced)
    {d a : ClassInfo} {n : String} (hd : d ∈ r.classes.classes)
    (hn : (d.method? n).isSome = true) (hspecial : Visibility.ofName n ≠ .special)
    (ha : a ∈ r.classes.select d.ancestors) (hdeclares : a.declares n = true) :
    (∃ m, a.method? n = some m ∧ m.markers.isOverridable = true) ∨
      r.classes.HiddenFrom n a d :=
  h.disciplined hmode d hd n hn hspecial a ha hdeclares

/-! ### Walking robots -/

def robots : Registry := (({} : Registry).acceptAll robotDecls).toOption.getD {}

theorem reachable_robots : robots.Reachable := by
  have hok : (({} : Registry).acceptAll robotDecls).isOk = true := by cbv
  exact (Reachable.empty {}).acceptAll (eq_ok_of_isOk hok {})

theorem mode_robots : robots.config.mode = .enforced := by cbv

theorem exists_drone : ∃ d ∈ robots.classes.classes, (d.method? "move").isSome = true ∧
    ∃ a ∈ robots.classes.select d.ancestors, ∃ m, a.method? "move" = some m ∧
      m.markers.isOverridable = false := by
  have hdrone : (robots.classes.find? "Drone").any (fun d =>
      (d.method? "move").isSome && d.ancestors.contains "Runner") = true := by cbv
  have hrunner : (robots.classes.find? "Runner").any (fun a =>
      (a.method? "move").any fun m => !m.markers.isOverridable) = true := by cbv
  obtain ⟨d, hd, hdrone⟩ := (Option.any_eq_true _ _).mp hdrone
  obtain ⟨a, ha, hrunner⟩ := (Option.any_eq_true _ _).mp hrunner
  obtain ⟨m, hm, hclosed⟩ := (Option.any_eq_true _ _).mp hrunner
  obtain ⟨hmove, hanc⟩ := Bool.and_eq_true_iff.mp hdrone
  refine ⟨d, List.mem_of_find?_eq_some hd, hmove, a, ?_, m, hm, by simpa using hclosed⟩
  exact List.mem_filterMap.mpr ⟨"Runner", by simpa using hanc, ha⟩

/-- A declaration that is accepted may override a method that is neither virtual nor abstract. -/
theorem exists_closed_overridden : ∃ (r : Registry) (d a : ClassInfo) (n : String) (m : Callable),
    r.Reachable ∧ r.config.mode = .enforced ∧ d ∈ r.classes.classes ∧
      (d.method? n).isSome = true ∧ Visibility.ofName n ≠ .special ∧
      a ∈ r.classes.select d.ancestors ∧ a.method? n = some m ∧
      m.markers.isOverridable = false := by
  obtain ⟨d, hd, hmove, a, ha, m, hm, hclosed⟩ := exists_drone
  exact ⟨robots, d, a, "move", m, reachable_robots, mode_robots, hd, hmove, by decide, ha, hm,
    hclosed⟩

theorem Reachable.overridden_opens_robots : ∃ d ∈ robots.classes.classes,
    ∃ a ∈ robots.classes.select d.ancestors, (d.method? "move").isSome = true ∧
      (a.method? "move").isSome = true ∧ robots.classes.HiddenFrom "move" a d := by
  obtain ⟨d, hd, hmove, a, ha, m, hm, hclosed⟩ := exists_drone
  have hdeclares := ClassInfo.declares_of_method? hm
  have hhidden : robots.classes.HiddenFrom "move" a d := by
    rcases Reachable.overridden_opens reachable_robots mode_robots hd hmove (by decide) ha
      hdeclares with ⟨m', hm', hopen⟩ | hhidden
    · rw [hm] at hm'
      cases hm'
      rw [hclosed] at hopen
      cases hopen
    · exact hhidden
  exact ⟨d, hd, a, ha, hmove, by rw [hm]; rfl, hhidden⟩

end Registry

end GuardedObjects
