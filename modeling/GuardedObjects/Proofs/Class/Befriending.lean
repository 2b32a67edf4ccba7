import GuardedObjects.Proofs.Class.Hierarchy
import GuardedObjects.Access
import GuardedObjects.Review

/-!
# Tables with other friends

What is found in a table of classes, how a member is located there and what a review says of a
class do not depend on whom the classes have as friends.
-/

namespace GuardedObjects

namespace ClassInfo

/-- The class with all about its friends left out. -/
def friendless (c : ClassInfo) : ClassInfo := { c with declaredFriends := [], friends := ∅ }

/-- Nothing of a class is changed but its friends. -/
def ChangesFriends (g : ClassInfo → ClassInfo) : Prop := ∀ c, (g c).friendless = c.friendless

theorem ChangesFriends.comp {g k : ClassInfo → ClassInfo} (hg : ChangesFriends g)
    (hk : ChangesFriends k) : ChangesFriends (g ∘ k) := fun c => (hg (k c)).trans (hk c)

namespace ChangesFriends

variable {g : ClassInfo → ClassInfo} (hg : ChangesFriends g) (c : ClassInfo)

include hg

theorem name : (g c).name = c.name := congrArg (·.name) (hg c)

theorem bases : (g c).bases = c.bases := congrArg (·.bases) (hg c)

theorem ancestors : (g c).ancestors = c.ancestors := congrArg (·.ancestors) (hg c)

theorem order : (g c).order = c.order := congrArg (·.order) (hg c)

theorem isSubclassOf (name : String) : (g c).isSubclassOf name = c.isSubclassOf name :=
  congrArg (·.isSubclassOf name) (hg c)

theorem attribute? (member : String) : (g c).attribute? member = c.attribute? member :=
  congrArg (·.attribute? member) (hg c)

theorem methods : (g c).methods = c.methods := congrArg (·.methods) (hg c)

theorem values : (g c).values = c.values := congrArg (·.values) (hg c)

theorem method? (member : String) : (g c).method? member = c.method? member :=
  congrArg (·.method? member) (hg c)

theorem declares (member : String) : (g c).declares member = c.declares member :=
  congrArg (·.declares member) (hg c)

end ChangesFriends

end ClassInfo

open ClassInfo (ChangesFriends)

namespace ClassTable

def map (g : ClassInfo → ClassInfo) (t : ClassTable) : ClassTable := ⟨t.classes.map g⟩

theorem map_map (g k : ClassInfo → ClassInfo) (t : ClassTable) :
    (t.map k).map g = t.map (g ∘ k) := by
  rw [map, map, List.map_map]
  rfl

theorem mem_map {g : ClassInfo → ClassInfo} {t : ClassTable} {c : ClassInfo} :
    c ∈ (t.map g).classes ↔ ∃ k ∈ t.classes, g k = c := List.mem_map

theorem mem_map_of_mem (g : ClassInfo → ClassInfo) {t : ClassTable} {c : ClassInfo}
    (hc : c ∈ t.classes) : g c ∈ (t.map g).classes := List.mem_map_of_mem hc

variable {g : ClassInfo → ClassInfo} (hg : ChangesFriends g) (t : ClassTable) (c : ClassInfo)

include hg

theorem find?_map (name : String) : (t.map g).find? name = (t.find? name).map g := by
  have hname : (fun c : ClassInfo => decide (c.name = name)) ∘ g =
      fun c : ClassInfo => decide (c.name = name) := by
    funext c
    simp only [Function.comp, hg.name]
  rw [find?, map, List.find?_map, hname]
  rfl

theorem contains_map (name : String) : (t.map g).contains name = t.contains name := by
  rw [contains, find?_map hg, Option.isSome_map]
  rfl

theorem select_map (names : List String) : (t.map g).select names = (t.select names).map g := by
  have hfind : (t.map g).find? = fun name => (t.find? name).map g := funext (find?_map hg t)
  rw [select, select, List.map_filterMap, hfind]

theorem lineage_map : (t.map g).lineage (g c) = (t.lineage c).map g := by
  rw [lineage, lineage, hg.ancestors, select_map hg, List.map_cons]

theorem method?_map (member : String) : (t.map g).method? (g c) member = t.method? c member := by
  rw [ClassTable.method?, lineage_map hg, List.findSome?_map]
  refine congrArg (List.findSome? · _) ?_
  funext k
  exact hg.method? k member

theorem any_method?_map (owner member : String) :
    (((t.map g).find? owner).any fun c => ((t.map g).method? c member).isSome) =
      (t.find? owner).any fun c => (t.method? c member).isSome := by
  simp only [find?_map hg, Option.any_map, method?_map hg]

theorem lineageClass?_map (name : String) :
    (t.map g).lineageClass? (g c) name = (t.lineageClass? c name).map g := by
  rw [lineageClass?, lineage_map hg, List.find?_map, lineageClass?]
  congr 2
  funext k
  simp only [Function.comp, hg.name]

theorem declaringClass?_map (member : String) :
    (t.map g).declaringClass? (g c) member = (t.declaringClass? c member).map g := by
  rw [declaringClass?, lineage_map hg, List.find?_map, declaringClass?]
  congr 2
  funext k
  simp only [Function.comp, hg.declares]

theorem WellOrdered.map (h : t.WellOrdered) : (t.map g).WellOrdered where
  nodup_names := by
    have hnames : (t.map g).classes.map ClassInfo.name = t.classes.map ClassInfo.name := by
      rw [ClassTable.map, List.map_map]
      exact List.map_congr_left fun c _ => hg.name c
    rw [hnames]
    exact h.nodup_names
  find?_iff := by
    intro name c
    constructor
    · intro hfind
      exact ⟨List.mem_of_find?_eq_some hfind, name_of_find? hfind⟩
    · rintro ⟨hc, rfl⟩
      obtain ⟨k, hk, rfl⟩ := mem_map.mp hc
      rw [find?_map hg, hg.name, (h.find?_iff k.name k).mpr ⟨hk, rfl⟩, Option.map_some]
  earlier := by
    intro before c after hsplit name hname
    obtain ⟨before, rest, hclasses, rfl, hrest⟩ := List.map_eq_append_iff.mp hsplit
    obtain ⟨c, after, rfl, rfl, rfl⟩ := List.map_eq_cons_iff.mp hrest
    rw [hg.bases, hg.ancestors] at hname
    obtain ⟨k, hk, hfind⟩ := h.earlier before c after hclasses name hname
    exact ⟨g k, List.mem_map_of_mem hk, by rw [find?_map hg, hfind, Option.map_some]⟩
  head_order := fun _ _ => rfl
  nodup_order := by
    intro c hc
    obtain ⟨k, hk, rfl⟩ := mem_map.mp hc
    rw [hg.order]
    exact h.nodup_order k hk
  inherited := by
    intro c hc name
    obtain ⟨k, hk, rfl⟩ := mem_map.mp hc
    rw [hg.ancestors, hg.bases, select_map hg, h.inherited k hk name]
    constructor
    · rintro ⟨b, hb, hname⟩
      exact ⟨g b, List.mem_map_of_mem hb, by rwa [hg.order]⟩
    · rintro ⟨b', hb', hname⟩
      obtain ⟨b, hb, rfl⟩ := List.mem_map.mp hb'
      exact ⟨b, hb, by rwa [hg.order] at hname⟩
  transitive := by
    intro c hc a ha
    obtain ⟨k, hk, rfl⟩ := mem_map.mp hc
    rw [hg.ancestors, select_map hg] at ha
    obtain ⟨a, ha', rfl⟩ := List.mem_map.mp ha
    rw [hg.ancestors, hg.ancestors]
    exact h.transitive k hk a ha'
  monotone := by
    intro c hc a ha
    obtain ⟨k, hk, rfl⟩ := mem_map.mp hc
    rw [hg.ancestors, select_map hg] at ha
    obtain ⟨a, ha', rfl⟩ := List.mem_map.mp ha
    rw [hg.order, hg.order]
    exact h.monotone k hk a ha'

theorem badOverride?_map (m : Callable) (b : ClassInfo) :
    Rule.badOverride? (t.map g) (g c) m (g b) = Rule.badOverride? t c m b := by
  rw [Rule.badOverride?, declaringClass?_map hg, Rule.badOverride?]
  cases t.declaringClass? b m.name with
  | none => rfl
  | some k => simp only [Option.map_some, hg.name, hg.method?]

theorem badOverrideIn?_map :
    Rule.badOverrideIn? (t.map g) (g c) = Rule.badOverrideIn? t c := by
  simp only [Rule.badOverrideIn?, hg.methods, hg.bases, select_map hg, List.findSome?_map,
    Function.comp_def, badOverride?_map hg]

theorem danglingOverride?_map :
    Rule.danglingOverride? (t.map g) (g c) = Rule.danglingOverride? t c := by
  simp only [Rule.danglingOverride?, hg.methods, hg.ancestors, hg.name, select_map hg, List.any_map,
    Function.comp_def, hg.declares]

theorem unimplemented?_map (name : String) :
    Rule.unimplemented? (t.map g) (g c) name = Rule.unimplemented? t c name := by
  have howner : firstOwner? (·.method? name) ((t.select c.ancestors).map g) =
      (firstOwner? (·.method? name) (t.select c.ancestors)).map fun e => (g e.1, e.2) := by
    simp only [firstOwner?, List.findSome?_map, List.map_findSome?, Function.comp_def, hg.method?,
      Option.map_map]
  rw [Rule.unimplemented?, hg.methods, hg.ancestors, select_map hg, howner, Rule.unimplemented?]
  cases firstOwner? (·.method? name) (t.select c.ancestors) with
  | none => rfl
  | some e => simp only [Option.map_some, hg.name]

theorem unimplementedIn?_map :
    Rule.unimplementedIn? (t.map g) (g c) = Rule.unimplementedIn? t c := by
  have hnames (a : ClassInfo) : Rule.abstractNames (g a) = Rule.abstractNames a := by
    rw [Rule.abstractNames, hg.methods, Rule.abstractNames]
  have hclass : Rule.unimplemented? (t.map g) (g c) = Rule.unimplemented? t c :=
    funext (unimplemented?_map hg t c)
  simp only [Rule.unimplementedIn?, hg.ancestors, select_map hg, List.findSome?_map,
    Function.comp_def, hnames, hclass]

/-- The rules do not ask about friends. -/
theorem review?_map (rules : List Rule) :
    (t.map g).review? rules (g c) = t.review? rules c := by
  have hrule (rule : Rule) :
      rule.classViolation? (t.map g) (g c) = rule.classViolation? t c := by
    cases rule with
    | virtualOverride => exact badOverrideIn?_map hg t c
    | danglingOverride => exact danglingOverride?_map hg t c
    | abstractImplementation => exact unimplementedIn?_map hg t c
    | missingAttributeType =>
        simp only [Rule.classViolation?, Rule.untypedValue?, hg.values, hg.attribute?, hg.name]
    | missingParameterType | unnecessaryParameterType | missingReturnType =>
        simp only [Rule.classViolation?, hg.methods]
  simp only [review?, hrule]

end ClassTable

/-- A member is located among what the classes declare, whoever their friends are. -/
theorem MemberSite.locate_map {g : ClassInfo → ClassInfo} (hg : ChangesFriends g) (t : ClassTable)
    (c : ClassInfo) (member : String) (caller : Caller) :
    locate (t.map g) (g c) member caller = locate t c member caller := by
  have hname : ClassInfo.name ∘ g = ClassInfo.name := funext hg.name
  have hlexical : (caller.declaring?.bind fun cls => (t.map g).lineageClass? (g c) cls) =
      (caller.declaring?.bind fun cls => t.lineageClass? c cls).map g := by
    simp only [ClassTable.lineageClass?_map hg, Option.map_bind, Function.comp_def]
  simp only [locate, hlexical, ClassTable.declaringClass?_map hg, Option.map_map, Option.any_map,
    hname, hg.declares]

end GuardedObjects
