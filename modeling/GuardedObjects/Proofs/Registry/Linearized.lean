import GuardedObjects.Proofs.Registry.Overriding

/-!
# Linearized bases

Whether classes can be the bases of one class is decided by merging their resolution orders. That
succeeds exactly where some list of classes keeps all of these orders and that of the bases
themselves. The ancestors that it gives are such a list, with the classes of the orders and no
others.
-/

namespace GuardedObjects

namespace ClassTable

variable {t : ClassTable} {c : ClassInfo} {bases order : List ClassInfo} {names : List String}

/-- A list of classes in which a class with these bases can have its ancestors: it holds no class
twice and keeps the order of the bases and the resolution order of each of them. -/
structure Linearizes (t : ClassTable) (bases order : List ClassInfo) : Prop where
  nodup : order.Nodup
  keeps : bases.Sublist order
  lineages : ∀ b ∈ bases, (t.lineage b).Sublist order

theorem map_name_select (h : ∀ name ∈ names, t.contains name = true) :
    (t.select names).map ClassInfo.name = names := by
  induction names with
  | nil => rfl
  | cons name names ih =>
      obtain ⟨c, -, hc⟩ := mem_classes_of_contains (h name List.mem_cons_self)
      have hrest := ih fun name hname => h name (List.mem_cons_of_mem _ hname)
      rw [select, List.filterMap_cons, hc, List.map_cons, name_of_find? hc]
      exact congrArg (name :: ·) hrest

theorem Closed.contains_order (h : t.Closed) (hc : c ∈ t.classes) :
    ∀ name ∈ c.order, t.contains name = true := by
  intro name hname
  rcases List.mem_cons.mp hname with rfl | hname
  · rw [contains, h.find? c hc]
    rfl
  · exact h.ancestors c hc name hname

theorem Closed.map_name_lineage (h : t.Closed) (hc : c ∈ t.classes) :
    (t.lineage c).map ClassInfo.name = c.order := by
  rw [lineage_eq_select (h.find? c hc)]
  exact map_name_select (h.contains_order hc)

theorem Closed.select_map_name (h : t.Closed) {cs : List ClassInfo} (hcs : cs ⊆ t.classes) :
    t.select (cs.map ClassInfo.name) = cs := by
  have hfind : ∀ c ∈ cs, (t.find? ∘ ClassInfo.name) c = some c := fun c hc => h.find? c (hcs hc)
  rw [select, List.filterMap_map, List.filterMap_congr hfind, List.filterMap_some]

/-- Classes of the table that are kept in a list are kept, by their names, in that of the classes of
the table there. -/
theorem Linearizes.exists_names (h : t.Closed) (hnames : (t.classes.map ClassInfo.name).Nodup)
    (hbases : bases ⊆ t.classes) (hl : t.Linearizes bases order) :
    ∃ names : List String, names.Nodup ∧ (bases.map ClassInfo.name).Sublist names ∧
      ∀ b ∈ bases, b.order.Sublist names := by
  classical
  have hkept {cs : List ClassInfo} (hcs : cs ⊆ t.classes) (hsub : cs.Sublist order) :
      (cs.map ClassInfo.name).Sublist ((order.filter (· ∈ t.classes)).map ClassInfo.name) := by
    have hself : cs.filter (· ∈ t.classes) = cs :=
      List.filter_eq_self.mpr fun c hc => by simpa using hcs hc
    rw [← hself]
    exact (hsub.filter _).map _
  refine ⟨(order.filter (· ∈ t.classes)).map ClassInfo.name, ?_, hkept hbases hl.keeps, ?_⟩
  · refine (hl.nodup.filter _).map_on ?_
    intro a ha b hb hab
    exact List.inj_on_of_nodup_map hnames (by simpa using (List.mem_filter.mp ha).2)
      (by simpa using (List.mem_filter.mp hb).2) hab
  · intro b hb
    have hbt := hbases hb
    rw [← h.map_name_lineage hbt]
    exact hkept (fun k hk => mem_classes_of_mem_lineage (h.find? b hbt) hk) (hl.lineages b hb)

theorem Closed.linearizes_select (h : t.Closed) (hbases : bases ⊆ t.classes)
    (hnodup : names.Nodup) (hfound : ∀ name ∈ names, t.contains name = true)
    (hsub : (bases.map ClassInfo.name).Sublist names)
    (horders : ∀ b ∈ bases, b.order.Sublist names) : t.Linearizes bases (t.select names) where
  nodup := by
    rw [← map_name_select hfound] at hnodup
    exact hnodup.of_map
  keeps := by
    rw [← h.select_map_name hbases]
    exact hsub.filterMap t.find?
  lineages := by
    intro b hb
    rw [lineage_eq_select (h.find? b (hbases hb))]
    exact (horders b hb).filterMap t.find?

end ClassTable

namespace Registry

variable {r : Registry} {bases : List ClassInfo} {names : List String} {name : String}

theorem exists_ancestorsOf_iff :
    (∃ names, ancestorsOf bases = some names) ↔
      ∃ names : List String, names.Nodup ∧ (bases.map ClassInfo.name).Sublist names ∧
        ∀ b ∈ bases, b.order.Sublist names := by
  rw [ancestorsOf]
  refine Linearization.exists_merge_iff.trans (exists_congr fun names => ?_)
  apply and_congr_right
  intro _
  simp [or_imp, forall_and, and_comm]

/-- The ancestors are the classes of the resolution orders of the bases. -/
theorem mem_ancestorsOf_iff (h : ancestorsOf bases = some names) :
    name ∈ names ↔ ∃ b ∈ bases, name ∈ b.order := by
  rw [Linearization.mem_merge_iff h]
  constructor
  · rintro ⟨l, hl, hname⟩
    rcases List.mem_append.mp hl with hl | hl
    · obtain ⟨b, hb, rfl⟩ := List.mem_map.mp hl
      exact ⟨b, hb, hname⟩
    · rw [List.mem_singleton.mp hl] at hname
      obtain ⟨b, hb, rfl⟩ := List.mem_map.mp hname
      exact ⟨b, hb, List.mem_cons_self⟩
  · rintro ⟨b, hb, hname⟩
    exact ⟨b.order, List.mem_append_left _ (List.mem_map_of_mem hb), hname⟩

theorem linearizes_of_ancestorsOf (ht : r.classes.Closed) (hbases : bases ⊆ r.classes.classes)
    (h : ancestorsOf bases = some names) :
    (∀ name ∈ names, r.classes.contains name = true) ∧
      r.classes.Linearizes bases (r.classes.select names) := by
  have hfound : ∀ name ∈ names, r.classes.contains name = true := by
    intro name hname
    obtain ⟨b, hb, hname⟩ := (mem_ancestorsOf_iff h).mp hname
    exact ht.contains_order (hbases hb) name hname
  refine ⟨hfound, ht.linearizes_select hbases (Linearization.nodup_merge h) hfound ?_ ?_⟩
  · exact Linearization.sublist_merge h (List.mem_append_right _ (List.mem_singleton_self _))
  · intro b hb
    exact Linearization.sublist_merge h (List.mem_append_left _ (List.mem_map_of_mem hb))

/-- Classes of a registry have ancestors in common if and only if there is a list of classes for
them that keeps all orders, and the ancestors are such a list then, with the classes of the
resolution orders and no others. -/
theorem Reachable.ancestorsOf_linearizes (h : r.Reachable) (hbases : bases ⊆ r.classes.classes) :
    ((∃ names, ancestorsOf bases = some names) ↔ ∃ order, r.classes.Linearizes bases order) ∧
    ∀ names, ancestorsOf bases = some names →
      ∃ order, order.map ClassInfo.name = names ∧ r.classes.Linearizes bases order ∧
        ∀ c, c ∈ order ↔ ∃ b ∈ bases, c ∈ r.classes.lineage b := by
  have ht := h.closed
  refine ⟨⟨?_, ?_⟩, ?_⟩
  · rintro ⟨names, hnames⟩
    exact ⟨_, (linearizes_of_ancestorsOf ht hbases hnames).2⟩
  · rintro ⟨order, horder⟩
    exact exists_ancestorsOf_iff.mpr (horder.exists_names ht h.wellOrdered.nodup_names hbases)
  · intro names hnames
    obtain ⟨hfound, hlinear⟩ := linearizes_of_ancestorsOf ht hbases hnames
    refine ⟨r.classes.select names, ClassTable.map_name_select hfound, hlinear, ?_⟩
    intro c
    constructor
    · intro hc
      obtain ⟨name, hname, hfind⟩ := List.mem_filterMap.mp hc
      obtain ⟨b, hb, hname⟩ := (mem_ancestorsOf_iff hnames).mp hname
      refine ⟨b, hb, ?_⟩
      rw [ClassTable.lineage_eq_select (ht.find? b (hbases hb))]
      exact List.mem_filterMap.mpr ⟨name, hname, hfind⟩
    · rintro ⟨b, hb, hc⟩
      exact (hlinear.lineages b hb).subset hc

/-- A robot can come before the walker that it is, and not behind it. -/
theorem Reachable.ancestorsOf_linearizes_robots :
    ∃ walker ∈ robots.classes.classes, ∃ robot ∈ robots.classes.classes,
      (¬∃ order, robots.classes.Linearizes [walker, robot] order) ∧
      ∃ order, robots.classes.Linearizes [robot, walker] order ∧
        order.map ClassInfo.name = ["Robot", "Walker", "Runner"] := by
  have hboth : (robots.classes.find? "Walker").any (fun walker =>
      (robots.classes.find? "Robot").any fun robot =>
        ancestorsOf [walker, robot] == none &&
          ancestorsOf [robot, walker] == some ["Robot", "Walker", "Runner"]) = true := by cbv
  obtain ⟨walker, hwalker, hboth⟩ := (Option.any_eq_true _ _).mp hboth
  obtain ⟨robot, hrobot, hboth⟩ := (Option.any_eq_true _ _).mp hboth
  obtain ⟨hbehind, hbefore⟩ := Bool.and_eq_true_iff.mp hboth
  have hwalker := List.mem_of_find?_eq_some hwalker
  have hrobot := List.mem_of_find?_eq_some hrobot
  have hdeclared : [walker, robot] ⊆ robots.classes.classes := by simp [hwalker, hrobot]
  have hreversed : [robot, walker] ⊆ robots.classes.classes := by simp [hwalker, hrobot]
  refine ⟨walker, hwalker, robot, hrobot, ?_, ?_⟩
  · rw [← (Reachable.ancestorsOf_linearizes reachable_robots hdeclared).1, eq_of_beq hbehind]
    rintro ⟨names, hnames⟩
    cases hnames
  · obtain ⟨order, hnames, horder, -⟩ :=
      (Reachable.ancestorsOf_linearizes reachable_robots hreversed).2 _ (eq_of_beq hbefore)
    exact ⟨order, horder, hnames⟩

end Registry

end GuardedObjects
