import GuardedObjects.Proofs.Registry.Entries
import GuardedObjects.Proofs.Table

/-!
# Override markers

Where the rules are enforced, a callable is marked as an override if and only if its class descends
from one that declares the name in some form. One rule looks for this in all ancestors, the other
in what each base has under the name. Both see the same, as the ancestors of a class are its bases
and what these descend from.
-/

namespace GuardedObjects

theorem ClassInfo.declares_eq_true_iff {c : ClassInfo} {n : String} :
    c.declares n = true ↔
      (c.method? n).isSome = true ∨ (c.attribute? n).isSome = true ∨ (c.value? n).isSome = true := by
  simp only [declares, Table.contains_eq_isSome_find?, Bool.or_eq_true, attribute?, method?, value?]
  tauto

namespace ClassTable

variable {t : ClassTable} {c a b k : ClassInfo} {n : String} {m : Callable}

/-- The class extends the other one, or a class that does so, at whatever depth. -/
def DescendsFrom (t : ClassTable) : ClassInfo → ClassInfo → Prop :=
  Relation.TransGen fun c b => b ∈ t.select c.bases

namespace WellOrdered

variable (h : t.WellOrdered)

include h

theorem mem_select_order (hb : b ∈ t.classes) :
    a ∈ t.select b.order ↔ a = b ∨ a ∈ t.select b.ancestors := by
  rw [← lineage_eq_select (h.find?_self hb), lineage, List.mem_cons]

/-- An ancestor is a base or an ancestor of a base. -/
theorem mem_select_ancestors_iff (hc : c ∈ t.classes) :
    a ∈ t.select c.ancestors ↔ ∃ b ∈ t.select c.bases, a = b ∨ a ∈ t.select b.ancestors := by
  constructor
  · intro ha
    obtain ⟨name, hname, hfind⟩ := List.mem_filterMap.mp ha
    obtain ⟨b, hb, hname⟩ := (h.inherited c hc name).mp hname
    have hmem : a ∈ t.select b.order := List.mem_filterMap.mpr ⟨name, hname, hfind⟩
    exact ⟨b, hb, (h.mem_select_order (mem_classes_of_mem_select hb)).mp hmem⟩
  · rintro ⟨b, hb, ha⟩
    have ha := (h.mem_select_order (mem_classes_of_mem_select hb)).mpr ha
    obtain ⟨name, hname, hfind⟩ := List.mem_filterMap.mp ha
    exact List.mem_filterMap.mpr ⟨name, (h.inherited c hc name).mpr ⟨b, hb, hname⟩, hfind⟩

/-- The ancestors of a class are the classes that it descends from. -/
theorem descendsFrom_iff (hc : c ∈ t.classes) :
    t.DescendsFrom c a ↔ a ∈ t.select c.ancestors := by
  constructor
  · intro hdescends
    induction hdescends using Relation.TransGen.head_induction_on with
    | single hb => exact (h.mem_select_ancestors_iff hc).mpr ⟨_, hb, .inl rfl⟩
    | head hb _ ih =>
        have ha := ih (mem_classes_of_mem_select hb)
        exact (h.mem_select_ancestors_iff hc).mpr ⟨_, hb, .inr ha⟩
  -- The bases of a class stand in front of it.
  · refine h.induction (P := fun c => a ∈ t.select c.ancestors → t.DescendsFrom c a) ?_ c hc
    intro c hc ih ha
    obtain ⟨b, hb, ha⟩ := (h.mem_select_ancestors_iff hc).mp ha
    obtain ⟨name, hname, hfind⟩ := List.mem_filterMap.mp hb
    rcases ha with rfl | ha
    · exact .single hb
    · exact .head hb (ih name (List.mem_append_left _ hname) b hfind ha)

end WellOrdered

end ClassTable

namespace Rule

variable {t : ClassTable} {c a b : ClassInfo} {n : String} {m : Callable}

theorem danglingOverride?_eq_none_iff :
    danglingOverride? t c = none ↔
      ∀ n m, c.method? n = some m → m.markers.isOverride = true →
        ∃ a ∈ t.select c.ancestors, a.declares n = true := by
  simp only [danglingOverride?, Option.map_eq_none_iff, List.find?_eq_none, Prod.forall,
    ← Table.find?_eq_some_iff, ClassInfo.method?]
  simp

/-- What a base has under a name, from whatever class, is overridden with a marker only. -/
theorem isOverride_of_base (h : badOverrideIn? t c = none) (hm : c.method? n = some m)
    (hname : m.name = n) (hspecial : Visibility.ofName n ≠ .special) (hb : b ∈ t.select c.bases)
    (ha : a ∈ t.lineage b) (hdeclares : a.declares n = true) : m.markers.isOverride = true := by
  have hbad := badOverride?_eq_none h hm hname hspecial hb
  have hsome : (t.declaringClass? b n).isSome = true :=
    List.find?_isSome.mpr ⟨a, ha, hdeclares⟩
  obtain ⟨k, hk⟩ := Option.isSome_iff_exists.mp hsome
  simp only [badOverride?, hname, hk] at hbad
  split at hbad
  · split at hbad
    · assumption
    · cases hbad
  · cases hbad

end Rule

namespace Registry

variable {r : Registry} {d : ClassInfo} {n : String} {m : Callable}

/-- In a registry that enforces the rules, a callable without a special name is marked as an
override if and only if its class descends from one that declares the name, be it as a method, as an
attribute or as a value. -/
theorem Reachable.isOverride_iff_inherited (h : r.Reachable) (hmode : r.config.mode = .enforced)
    (hd : d ∈ r.classes.classes) (hm : d.method? n = some m)
    (hspecial : Visibility.ofName n ≠ .special) :
    m.markers.isOverride = true ↔
      ∃ a, r.classes.DescendsFrom d a ∧
        ((a.method? n).isSome = true ∨ (a.attribute? n).isSome = true ∨
          (a.value? n).isSome = true) := by
  have hordered := h.wellOrdered
  have hreview := h.review?_eq_none hd
  rw [rules_of_enforced hmode] at hreview
  simp only [hordered.descendsFrom_iff hd, ← ClassInfo.declares_eq_true_iff]
  constructor
  · intro hmark
    have hdangling := ClassTable.violation_eq_none hreview .danglingOverride
    exact Rule.danglingOverride?_eq_none_iff.mp hdangling n m hm hmark
  · rintro ⟨a, ha, hdeclares⟩
    have hbad := ClassTable.violation_eq_none hreview .virtualOverride
    obtain ⟨b, hb, ha⟩ := (hordered.mem_select_ancestors_iff hd).mp ha
    exact Rule.isOverride_of_base hbad hm (h.allAccepted.methods d hd n m hm).name_eq hspecial hb
      (List.mem_cons.mpr ha) hdeclares

/-- A drone marks the way in which it moves as its own, for a walker two steps up has one. -/
theorem Reachable.isOverride_iff_inherited_robots :
    ∃ d ∈ robots.classes.classes, ∃ m, d.method? "move" = some m ∧
      m.markers.isOverride = true ∧ ∃ a, robots.classes.DescendsFrom d a ∧
        ((a.method? "move").isSome = true ∨ (a.attribute? "move").isSome = true ∨
          (a.value? "move").isSome = true) := by
  have hdrone : (robots.classes.find? "Drone").any (fun d =>
      (d.method? "move").any fun m => m.markers.isOverride) = true := by cbv
  obtain ⟨d, hd, hmove⟩ := (Option.any_eq_true _ _).mp hdrone
  obtain ⟨m, hm, hmark⟩ := (Option.any_eq_true _ _).mp hmove
  have hmem := List.mem_of_find?_eq_some hd
  have hiff := Reachable.isOverride_iff_inherited reachable_robots mode_robots hmem hm (by decide)
  exact ⟨d, hmem, m, hm, hmark, hiff.mp hmark⟩

end Registry

end GuardedObjects
