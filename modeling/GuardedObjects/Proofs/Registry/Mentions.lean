import GuardedObjects.Proofs.Listing
import GuardedObjects.Proofs.Registry.Entries
import GuardedObjects.Proofs.Registry.Linking
import GuardedObjects.Proofs.Table

/-!
# Mentioned classes

A declared type has its place: in an attribute, a parameter or a result, of a class or of a
function. A class name has its place within the type, which is a path from the type down to the
name. Linking goes through the mentions of classes in the order of their places and reports the
first class that is not declared, if there is one.
-/

namespace GuardedObjects

/-! ### Within a type -/

namespace Ty

def children : Ty → List Ty
  | .generic _ args => args
  | .union alternatives => alternatives
  | .const t => [t]
  | .any | .primitive _ | .cls _ | .noValue => []

/-- The type that stands within another one at the end of a path. Each step goes to the child of
that number, counted from the left. -/
def at? (t : Ty) : List Nat → Option Ty
  | [] => some t
  | i :: path => (t.children[i]?).bind (·.at? path)

theorem classNamesOf_eq_flatMap (ts : List Ty) : classNamesOf ts = ts.flatMap classNames := by
  induction ts with
  | nil => rfl
  | cons t ts ih => rw [classNamesOf, List.flatMap_cons, ih]

/-- The names within the children, if the type itself is no name. -/
theorem lists_children {t : Ty} (hself : ∀ name, t ≠ .cls name)
    (h : ∀ u ∈ t.children,
      Lists (· < ·) (fun path name => u.at? path = some (.cls name)) u.classNames) :
    Lists (· < ·) (fun path name => t.at? path = some (.cls name))
      (t.children.flatMap classNames) := by
  refine (((Lists.of_index t.children).flatMap h).place (fun q => q.1 :: q.2) ?_).congr
    fun path name => ?_
  -- A path goes to one of the children first, and from there it is a path of that child.
  · rintro _ _ (⟨_, _, hlt⟩ | ⟨_, hlt⟩)
    · exact List.cons_lt_cons_iff.mpr (.inl hlt)
    · exact List.cons_lt_cons_iff.mpr (.inr ⟨rfl, hlt⟩)
  · cases path with
    | nil => simp [at?, hself]
    | cons i path => simp [at?, Option.bind_eq_some_iff]

mutual

/-- The class names of a type are listed from left to right. -/
theorem lists_classNames : ∀ t : Ty,
    Lists (· < ·) (fun path name => t.at? path = some (.cls name)) t.classNames
  | .cls name => by
      refine ⟨[([], name)], List.pairwise_singleton _ _, rfl, fun path n => ?_⟩
      cases path <;> simp [at?, children, eq_comm]
  | .generic base args => by
      rw [classNames, classNamesOf_eq_flatMap]
      exact lists_children (t := .generic base args) nofun (lists_of_mem args)
  | .union ts => by
      rw [classNames, classNamesOf_eq_flatMap]
      exact lists_children (t := .union ts) nofun (lists_of_mem ts)
  | .const t => by
      have h := lists_children (t := .const t) nofun (by
        intro u hu
        rw [List.mem_singleton.mp hu]
        exact lists_classNames t)
      rwa [children, List.flatMap_singleton] at h
  | .any => lists_children (t := .any) nofun nofun
  | .primitive kind => lists_children (t := .primitive kind) nofun nofun
  | .noValue => lists_children (t := .noValue) nofun nofun

theorem lists_of_mem : ∀ ts : List Ty, ∀ t ∈ ts,
    Lists (· < ·) (fun path name => t.at? path = some (.cls name)) t.classNames
  | [] => nofun
  | t :: ts => List.forall_mem_cons.mpr ⟨lists_classNames t, lists_of_mem ts⟩

end

end Ty

/-! ### Among the declared types -/

/-- Where a callable declares a type. -/
inductive CallablePlace where
  | parameter (index : Nat)
  | result

/-- Where a class declares a type. -/
inductive ClassPlace where
  | attribute (name : String)
  | method (name : String) (place : CallablePlace)

/-- Where a registry declares a type. Classes are counted in the order of declaration. -/
inductive TypePlace where
  | cls (index : Nat) (place : ClassPlace)
  | function (name : String) (place : CallablePlace)

/-- Parameters come in their order, and then the result. -/
inductive CallablePlace.Before : CallablePlace → CallablePlace → Prop
  | parameters {i j : Nat} : i < j → Before (.parameter i) (.parameter j)
  | parameterResult {i : Nat} : Before (.parameter i) .result

/-- Attributes come by name, and then methods by name. -/
inductive ClassPlace.Before : ClassPlace → ClassPlace → Prop
  | attributes {a b : String} : a < b → Before (.attribute a) (.attribute b)
  | attributeMethod {a m : String} {p : CallablePlace} : Before (.attribute a) (.method m p)
  | methods {m n : String} {p q : CallablePlace} : m < n → Before (.method m p) (.method n q)
  | method {m : String} {p q : CallablePlace} : p.Before q → Before (.method m p) (.method m q)

/-- Classes come in the order of declaration, and then functions by name. -/
inductive TypePlace.Before : TypePlace → TypePlace → Prop
  | classes {i j : Nat} {p q : ClassPlace} : i < j → Before (.cls i p) (.cls j q)
  | cls {i : Nat} {p q : ClassPlace} : p.Before q → Before (.cls i p) (.cls i q)
  | classFunction {i : Nat} {p : ClassPlace} {f : String} {q : CallablePlace} :
      Before (.cls i p) (.function f q)
  | functions {f g : String} {p q : CallablePlace} : f < g → Before (.function f p) (.function g q)
  | function {f : String} {p q : CallablePlace} :
      p.Before q → Before (.function f p) (.function f q)

theorem CallablePlace.Before.asymm {p q : CallablePlace} (h : p.Before q) : ¬q.Before p := by
  intro h'
  cases h with
  | parameters hlt =>
      cases h' with
      | parameters hlt' => exact lt_asymm hlt hlt'
  | parameterResult => cases h'

theorem ClassPlace.Before.asymm {p q : ClassPlace} (h : p.Before q) : ¬q.Before p := by
  intro h'
  cases h with
  | attributes hlt =>
      cases h' with
      | attributes hlt' => exact lt_asymm hlt hlt'
  | attributeMethod => cases h'
  | methods hlt =>
      cases h' with
      | methods hlt' => exact lt_asymm hlt hlt'
      | method => exact lt_irrefl _ hlt
  | method hp =>
      cases h' with
      | methods hlt => exact lt_irrefl _ hlt
      | method hp' => exact hp.asymm hp'

theorem TypePlace.Before.asymm {p q : TypePlace} (h : p.Before q) : ¬q.Before p := by
  intro h'
  cases h with
  | classes hlt =>
      cases h' with
      | classes hlt' => exact lt_asymm hlt hlt'
      | cls => exact lt_irrefl _ hlt
  | cls hp =>
      cases h' with
      | classes hlt => exact lt_irrefl _ hlt
      | cls hp' => exact hp.asymm hp'
  | classFunction => cases h'
  | functions hlt =>
      cases h' with
      | functions hlt' => exact lt_asymm hlt hlt'
      | function => exact lt_irrefl _ hlt
  | function hp =>
      cases h' with
      | functions hlt => exact lt_irrefl _ hlt
      | function hp' => exact hp.asymm hp'

/-- The type that is declared at a place, with the name of the member that it is declared for. -/
def Callable.typeAt? (m : Callable) : CallablePlace → Option (String × Ty)
  | .parameter i =>
    (m.params[i]?).bind fun x => x.type.map (s!"{m.qualifiedName}.{x.name}", ·)
  | .result => m.returns.map (m.qualifiedName, ·)

def ClassInfo.typeAt? (c : ClassInfo) : ClassPlace → Option (String × Ty)
  | .attribute name => (c.attribute? name).map (s!"{c.name}.{name}", ·)
  | .method name place => (c.method? name).bind (·.typeAt? place)

def Registry.typeAt? (r : Registry) : TypePlace → Option (String × Ty)
  | .cls i place => (r.classes.classes[i]?).bind (·.typeAt? place)
  | .function name place => (r.function? name).bind (·.typeAt? place)

theorem Callable.lists_typedMembers (m : Callable) :
    Lists CallablePlace.Before (fun q x => m.typeAt? q = some x) m.typedMembers := by
  have hparams := (Lists.of_index m.params).filterMap
    (g := fun x => x.type.map (s!"{m.qualifiedName}.{x.name}", ·))
  have hresult := (Lists.toList m.returns).map (g := (m.qualifiedName, ·))
  refine ((hparams.place CallablePlace.parameter ?_).append
    (hresult.place (fun _ => .result) nofun) ?_).congr fun q x => ?_
  · exact .parameters
  · rintro _ _ _ _ ⟨i, rfl, -⟩ ⟨_, rfl, -⟩
    exact .parameterResult
  · cases q with
    | parameter i => simp [typeAt?, Option.bind_eq_some_iff]
    | result => simp [typeAt?]

theorem Table.lists_sorted {α : Type} (t : Table String α) :
    Lists (· < ·) (fun k e => t.find? e.1 = some e.2 ∧ e.1 = k) t.sorted :=
  (Lists.of_sorted t.nodup_keys).congr fun k e => by rw [Table.find?_eq_some_iff]

theorem ClassInfo.lists_typedMembers (c : ClassInfo) :
    Lists ClassPlace.Before (fun q x => c.typeAt? q = some x) c.typedMembers := by
  have hattributes := c.attributes.lists_sorted.map (g := fun e => (s!"{c.name}.{e.1}", e.2))
  have hmethods := c.methods.lists_sorted.flatMap fun e _ => e.2.lists_typedMembers
  refine ((hattributes.place ClassPlace.attribute ?_).append
    (hmethods.place (fun q => .method q.1 q.2) ?_) ?_).congr fun q x => ?_
  · exact .attributes
  · rintro _ _ (⟨_, _, hlt⟩ | ⟨_, hlt⟩)
    · exact .methods hlt
    · exact .method hlt
  · rintro _ _ _ _ ⟨_, rfl, -⟩ ⟨_, rfl, -⟩
    exact .attributeMethod
  · rcases q with name | ⟨name, place⟩
    · simp [typeAt?, attribute?]
    · simp [typeAt?, method?, Option.bind_eq_some_iff]

namespace Registry

variable {r : Registry}

theorem Reachable.lists_typedMembers (h : r.Reachable) :
    Lists TypePlace.Before (fun q x => r.typeAt? q = some x) r.typedMembers := by
  have hclasses := (Lists.of_index r.classes.classes).flatMap fun c _ => c.lists_typedMembers
  have hfunctions := (Lists.of_sorted h.nodup_functions).flatMap fun f _ => f.lists_typedMembers
  refine ((hclasses.place (fun q => .cls q.1 q.2) ?_).append
    (hfunctions.place (fun q => .function q.1 q.2) ?_) ?_).congr fun q x => ?_
  · rintro _ _ (⟨_, _, hlt⟩ | ⟨_, hlt⟩)
    · exact .classes hlt
    · exact .cls hlt
  · rintro _ _ (⟨_, _, hlt⟩ | ⟨_, hlt⟩)
    · exact .functions hlt
    · exact .function hlt
  · rintro _ _ _ _ ⟨_, rfl, -⟩ ⟨_, rfl, -⟩
    exact .classFunction
  · cases q with
    | cls i place => simp [typeAt?, Option.bind_eq_some_iff]
    | function name place =>
        simp [typeAt?, Option.bind_eq_some_iff, function?, find?_key_eq_some_iff h.nodup_functions]

/-! ### What linking reports -/

/-- At a path within the type that a member is declared with at some place stands the name of a
class. -/
def Mentions (r : Registry) (place : TypePlace) (path : List Nat) (member name : String) : Prop :=
  ∃ ty, r.typeAt? place = some (member, ty) ∧ ty.at? path = some (.cls name)

/-- The mention of a class that is not declared which comes in front of all others. -/
structure FirstUndeclared (r : Registry) (place : TypePlace) (path : List Nat)
    (member name : String) : Prop where
  mentioned : r.Mentions place path member name
  undeclared : r.classes.contains name = false
  first : ∀ place' path' member' name', r.Mentions place' path' member' name' →
    r.classes.contains name' = false → place.Before place' ∨ place' = place ∧ path ≤ path'

theorem FirstUndeclared.unique {place place' : TypePlace} {path path' : List Nat}
    {member member' name name' : String} (h : r.FirstUndeclared place path member name)
    (h' : r.FirstUndeclared place' path' member' name') : member = member' ∧ name = name' := by
  -- None of the two can stand in front of the other, so they stand in one place.
  rcases h.first _ _ _ _ h'.mentioned h'.undeclared with hbefore | ⟨rfl, hle⟩
  · rcases h'.first _ _ _ _ h.mentioned h.undeclared with hbefore' | ⟨rfl, -⟩
    · exact absurd hbefore' hbefore.asymm
    · exact absurd hbefore hbefore.asymm
  · rcases h'.first _ _ _ _ h.mentioned h.undeclared with hbefore' | ⟨-, hle'⟩
    · exact absurd hbefore' hbefore'.asymm
    · cases le_antisymm hle hle'
      obtain ⟨ty, hty, hname⟩ := h.mentioned
      obtain ⟨ty', hty', hname'⟩ := h'.mentioned
      cases hty.symm.trans hty'
      cases hname.symm.trans hname'
      exact ⟨rfl, rfl⟩

/-- The class names of all declared types, each with the member that it stands for. -/
def mentions (r : Registry) : List (String × String) :=
  r.typedMembers.flatMap fun m => m.2.classNames.map (m.1, ·)

theorem unresolvedType?_eq_find? :
    r.unresolvedType? =
      (r.mentions.find? fun m => !r.classes.contains m.2).map fun m => .unresolvedType m.1 m.2 := by
  rw [mentions, List.find?_flatMap, List.map_findSome?, unresolvedType?]
  refine findSome?_congr fun m _ => ?_
  simp [List.find?_map, Function.comp_def]

theorem Reachable.lists_mentions (h : r.Reachable) :
    Lists (Prod.Lex TypePlace.Before (· < ·)) (fun q m => r.Mentions q.1 q.2 m.1 m.2)
      r.mentions := by
  refine (h.lists_typedMembers.flatMap fun m _ => m.2.lists_classNames.map).congr fun q x => ?_
  constructor
  · rintro ⟨⟨member, ty⟩, hty, name, hname, rfl⟩
    exact ⟨ty, hty, hname⟩
  · rintro ⟨ty, hty, hname⟩
    exact ⟨(x.1, ty), hty, x.2, hname, rfl⟩

theorem Reachable.contains_of_mentions (h : r.Reachable) (hnone : r.unresolvedType? = none)
    {place : TypePlace} {path : List Nat} {member name : String}
    (hm : r.Mentions place path member name) : r.classes.contains name = true := by
  rw [unresolvedType?_eq_find?, Option.map_eq_none_iff, List.find?_eq_none] at hnone
  have hmem : (member, name) ∈ r.mentions := h.lists_mentions.mem_iff.mpr ⟨(place, path), hm⟩
  simpa using hnone (member, name) hmem

theorem Reachable.firstUndeclared (h : r.Reachable) {e : DeclarationError}
    (he : r.unresolvedType? = some e) :
    ∃ place path member name, e = .unresolvedType member name ∧
      r.FirstUndeclared place path member name := by
  rw [unresolvedType?_eq_find?] at he
  obtain ⟨⟨member, name⟩, hfind, rfl⟩ := Option.map_eq_some_iff.mp he
  obtain ⟨⟨place, path⟩, hm, hundeclared, hfirst⟩ := h.lists_mentions.find?_eq_some hfind
  refine ⟨place, path, member, name, rfl, hm, by simpa using hundeclared, ?_⟩
  intro place' path' member' name' hm' hundeclared'
  rcases hfirst (place', path') (member', name') hm' (by simpa using hundeclared') with heq | hlt
  · cases heq
    exact .inr ⟨rfl, le_refl _⟩
  · rcases hlt with ⟨_, _, hbefore⟩ | ⟨_, hpath⟩
    · exact .inl hbefore
    · exact .inr ⟨rfl, le_of_lt hpath⟩

/-- A registry that enforces the rules, and whose friends are in order, can be linked if and only if
every class that is mentioned at any depth of any declared type is declared. What linking reports
otherwise is the first mention of a class that is not. -/
theorem Reachable.link_closes_types (h : r.Reachable) (hmode : r.config.mode = .enforced)
    (hfriends : r.FriendsResolve) :
    ((∃ p, r.link = .ok p) ↔
      ∀ place path member name, r.Mentions place path member name →
        r.classes.contains name = true) ∧
    ∀ e, r.link = .error e ↔
      ∃ place path member name, e = .unresolvedType member name ∧
        r.FirstUndeclared place path member name := by
  cases hunresolved : r.unresolvedType? with
  | none =>
      obtain ⟨p, hp⟩ := exists_link_iff.mpr ⟨hfriends, fun _ => hunresolved⟩
      refine ⟨⟨fun _ _ _ _ _ => h.contains_of_mentions hunresolved, fun _ => ⟨p, hp⟩⟩, ?_⟩
      intro e
      constructor
      · intro he
        cases hp.symm.trans he
      · rintro ⟨_, _, _, _, -, hfirst⟩
        cases hfirst.undeclared.symm.trans (h.contains_of_mentions hunresolved hfirst.mentioned)
  | some violation =>
      have hlink := link_eq_error hmode hfriends hunresolved
      obtain ⟨place, path, member, name, rfl, hfirst⟩ := h.firstUndeclared hunresolved
      refine ⟨⟨?_, ?_⟩, ?_⟩
      · rintro ⟨p, hp⟩
        cases hlink.symm.trans hp
      · intro hall
        cases hfirst.undeclared.symm.trans (hall _ _ _ _ hfirst.mentioned)
      · intro e
        constructor
        · intro he
          cases hlink.symm.trans he
          exact ⟨place, path, member, name, rfl, hfirst⟩
        · rintro ⟨_, _, _, _, rfl, hfirst'⟩
          obtain ⟨rfl, rfl⟩ := hfirst.unique hfirst'
          exact hlink

/-! ### A yard -/

/-- A yard is declared with cranes and a driver, and neither is. -/
def yardDecls : List Declaration :=
  [.cls ((({ name := "Yard" : ClassDecl }.field "cranes"
        (.type (.generic .list [.union [.cls "Yard", .const (.cls "Crane")]]))).method "hire"
      { moveDecl ∅ with returns := some (.type (.cls "Driver")) }))]

def yards : Registry := (({} : Registry).acceptAll yardDecls).toOption.getD {}

theorem reachable_yards : yards.Reachable := by
  have hok : (({} : Registry).acceptAll yardDecls).isOk = true := by cbv
  exact (Reachable.empty {}).acceptAll (eq_ok_of_isOk hok {})

theorem Reachable.link_closes_types_yards :
    yards.link = .error (.unresolvedType "Yard.cranes" "Crane") ∧
      ∃ place path, yards.FirstUndeclared place path "Yard.cranes" "Crane" := by
  have hmode : yards.config.mode = .enforced := by cbv
  have hnone : yards.classes.classes.all (·.declaredFriends.isEmpty) = true := by cbv
  have hfriends : yards.FriendsResolve := by
    intro c hc ref href
    have hempty := List.isEmpty_iff.mp (List.all_eq_true.mp hnone c hc)
    rw [hempty] at href
    cases href
  have hunresolved : yards.unresolvedType? = some (.unresolvedType "Yard.cranes" "Crane") := by cbv
  have hlink := link_eq_error hmode hfriends hunresolved
  obtain ⟨place, path, _, _, heq, hfirst⟩ :=
    ((Reachable.link_closes_types reachable_yards hmode hfriends).2 _).mp hlink
  cases heq
  exact ⟨hlink, place, path, hfirst⟩

end Registry

end GuardedObjects
