import GuardedObjects.Proofs.Registry.Entries
import GuardedObjects.Proofs.Registry.Linking
import GuardedObjects.Proofs.Table

/-!
# The order of declarations

Declarations may be handed in in any order in which no class comes before a base of it. What becomes
of each of them is the same in all these orders: it is examined against its bases and what they
descend from, and of these the registry has at that time what it will have in the end. The registry
of the end is therefore described without any order, and so is the program that it links to.
-/

namespace GuardedObjects

/-- Declarations with keys of their own, among which no class stands in front of a base of it. -/
structure Declaration.Ordered (ds : List Declaration) : Prop where
  nodup : (ds.map Declaration.key).Nodup
  bases_first : ds.Pairwise fun d e => ∀ base ∈ d.bases, e.key ≠ .cls base

instance (ds : List Declaration) : Decidable (Declaration.Ordered ds) :=
  decidable_of_iff
    ((ds.map Declaration.key).Nodup ∧ ds.Pairwise fun d e => ∀ base ∈ d.bases, e.key ≠ .cls base)
    ⟨fun h => ⟨h.1, h.2⟩, fun h => ⟨h.nodup, h.bases_first⟩⟩

/-- The registry that declarations lead to, each of them accepted or not. -/
def Registry.submitted (config : Config) (ds : List Declaration) : Registry :=
  ({ config } : Registry).submitAll ds

namespace Declaration.Ordered

variable {before after : List Declaration} {d : Declaration}

theorem fresh (h : Ordered (before ++ d :: after)) : ∀ e ∈ before, e.key ≠ d.key := by
  have hnodup := h.nodup
  rw [List.map_append, List.nodup_append] at hnodup
  exact fun e he => hnodup.2.2 e.key (List.mem_map_of_mem he) d.key (by simp)

theorem behind (h : Ordered (before ++ d :: after)) :
    ∀ e ∈ after, ∀ base ∈ d.bases, e.key ≠ .cls base :=
  (List.pairwise_cons.mp (List.pairwise_append.mp h.bases_first).2.1).1

end Declaration.Ordered

namespace Registry

variable {r r' : Registry} {config : Config} {d : Declaration} {ds ds' : List Declaration}
  {e : Entry} {key : EntryKey} {c : ClassInfo} {name : String}

theorem reachable_submitted (config : Config) (ds : List Declaration) :
    (submitted config ds).Reachable :=
  (Reachable.empty config).submitAll ds

theorem config_submitted (config : Config) (ds : List Declaration) :
    (submitted config ds).config = config :=
  config_submitAll _ ds

theorem submitted_append (config : Config) (before after : List Declaration) :
    submitted config (before ++ after) = (submitted config before).submitAll after :=
  List.foldl_append ..

theorem lookup?_cls_eq_some_iff :
    r.lookup? (.cls name) = some (.cls c) ↔ r.classes.find? name = some c := by
  simp [lookup?]

theorem find?_congr (h : r.lookup? (.cls name) = r'.lookup? (.cls name)) :
    r.classes.find? name = r'.classes.find? name :=
  Option.map_injective (fun _ _ => Entry.cls.inj) h

theorem find?_submitAll (h : r.classes.contains name = true) :
    (r.submitAll ds).classes.find? name = r.classes.find? name := by
  obtain ⟨c, hc⟩ := Option.isSome_iff_exists.mp h
  have hkept : (r.submitAll ds).lookup? (.cls name) = some (.cls c) :=
    lookup?_submitAll_of_some (lookup?_cls_eq_some_iff.mpr hc)
  rw [lookup?_cls_eq_some_iff.mp hkept, hc]

/-- No declaration that is handed in later touches what this one is examined against. -/
theorem Reachable.agree_submitAll (hr : r.Reachable) {after : List Declaration}
    (hafter : ∀ e ∈ after, ∀ base ∈ d.bases, e.key ≠ .cls base) :
    r.classes.Agree (r.submitAll (d :: after)).classes d.bases where
  find? := by
    intro base hbase
    cases hcontains : r.classes.contains base with
    | true => exact (find?_submitAll hcontains).symm
    | false =>
        -- Behind this declaration the base could come under its own name only, and it is rejected.
        have hrejected : ∀ e, r.examine d ≠ .ok e := by
          intro e he
          cases hcontains.symm.trans (contains_of_examine he base hbase)
        have hsubmit : r.submitAll (d :: after) = r.submitAll after := by
          rw [Registry.submitAll, List.foldl_cons, submit_of_rejected hrejected, Registry.submitAll]
        rw [hsubmit]
        exact find?_congr (lookup?_submitAll_of_ne fun e he => hafter e he base hbase).symm
  ancestors := by
    intro b hb a ha
    have hcontains := hr.closed.ancestors b (ClassTable.mem_classes_of_mem_select hb) a ha
    exact (find?_submitAll hcontains).symm

/-- Wherever a declaration stands, it is examined as it would be in the end. -/
theorem examine_submitted {before after : List Declaration}
    (h : Declaration.Ordered (before ++ d :: after)) :
    (submitted config before).examine d = (submitted config (before ++ d :: after)).examine d := by
  rw [submitted_append]
  apply examine_congr (config_submitAll _ _).symm
  exact (reachable_submitted config before).agree_submitAll h.behind

theorem lookup?_submitted_eq_none {before after : List Declaration}
    (h : Declaration.Ordered (before ++ d :: after)) :
    (submitted config before).lookup? d.key = none := by
  refine (lookup?_submitAll_of_ne h.fresh).trans ?_
  cases d.key <;> rfl

/-- The entries of the registry are the declarations with which nothing is wrong in its view. -/
theorem lookup?_submitted_eq_some_iff (h : Declaration.Ordered ds) :
    (submitted config ds).lookup? key = some e ↔
      ∃ d ∈ ds, d.key = key ∧ (submitted config ds).examine d = .ok e := by
  constructor
  · intro hkey
    obtain ⟨before, d, after, rfl, hdkey, he⟩ :=
      exists_examine_of_lookup? hkey (by cases key <;> rfl)
    exact ⟨d, by simp, hdkey, examine_submitted h ▸ he⟩
  · rintro ⟨d, hd, rfl, he⟩
    obtain ⟨before, after, rfl⟩ := List.append_of_mem hd
    rw [← examine_submitted h] at he
    have hfree : (submitted config before).lookup? d.key = none := lookup?_submitted_eq_none h
    have hadded : ((submitted config before).submit d).lookup? d.key = some e := by
      rw [submit_of_accepted hfree he, lookup?_add, hfree, Option.none_or,
        if_pos (key_of_examine he)]
    rw [submitted_append, submitAll, List.foldl_cons]
    exact lookup?_submitAll_of_some hadded

/-! ### Two orders of the same declarations -/

/-- The same classes and functions, in whatever order. -/
structure Alike (r r' : Registry) : Prop where
  config : r.config = r'.config
  lookup? : ∀ key, r.lookup? key = r'.lookup? key

section

variable (h : Declaration.Ordered ds) (h' : Declaration.Ordered ds') (hperm : ds.Perm ds')

include h h' hperm

-- By induction over the hierarchy: once the bases and ancestors of a class are the same in both
-- registries, so is what its declaration describes.
theorem find?_submitted_of_perm :
    ∀ c ∈ (submitted config ds).classes.classes,
      (submitted config ds').classes.find? c.name = some c := by
  have hr := reachable_submitted config ds
  refine hr.wellOrdered.induction fun c hc ih => ?_
  have hfind := hr.wellOrdered.find?_self hc
  obtain ⟨d, hd, hkey, he⟩ :=
    (lookup?_submitted_eq_some_iff h).mp (lookup?_cls_eq_some_iff.mpr hfind)
  have hbases := bases_of_examine he
  have hsame {name : String} (hname : name ∈ c.bases ++ c.ancestors)
      (hcontains : (submitted config ds).classes.contains name = true) :
      (submitted config ds).classes.find? name = (submitted config ds').classes.find? name := by
    obtain ⟨k, hk⟩ := Option.isSome_iff_exists.mp hcontains
    have hk' := ih name hname k hk
    rw [ClassTable.name_of_find? hk] at hk'
    rw [hk, hk']
  have hagree : (submitted config ds).classes.Agree (submitted config ds').classes d.bases := by
    rw [← hbases]
    constructor
    · intro base hbase
      exact hsame (List.mem_append_left _ hbase) (hr.closed.bases c hc base hbase)
    · intro b hb a ha
      have hac := (hr.wellOrdered.inherited c hc a).mpr ⟨b, hb, List.mem_cons_of_mem _ ha⟩
      exact hsame (List.mem_append_right _ hac) (hr.closed.ancestors c hc a hac)
  rw [examine_congr ((config_submitted config ds).trans (config_submitted config ds').symm)
    hagree] at he
  have hentry := (lookup?_submitted_eq_some_iff h').mpr ⟨d, hperm.mem_iff.mp hd, hkey, he⟩
  exact lookup?_cls_eq_some_iff.mp hentry

theorem find?_submitted_eq (name : String) :
    (submitted config ds).classes.find? name = (submitted config ds').classes.find? name := by
  refine Option.ext fun c => ?_
  constructor
  · intro hfind
    have hfound := find?_submitted_of_perm h h' hperm c (List.mem_of_find?_eq_some hfind)
    rwa [ClassTable.name_of_find? hfind] at hfound
  · intro hfind
    have hfound := find?_submitted_of_perm h' h hperm.symm c (List.mem_of_find?_eq_some hfind)
    rwa [ClassTable.name_of_find? hfind] at hfound

theorem alike_submitted : (submitted config ds).Alike (submitted config ds') where
  config := (config_submitted config ds).trans (config_submitted config ds').symm
  lookup? := by
    intro key
    refine Option.ext fun e => ?_
    have hexamine (d : Declaration) :
        (submitted config ds).examine d = (submitted config ds').examine d :=
      examine_congr ((config_submitted config ds).trans (config_submitted config ds').symm)
        ⟨fun name _ => find?_submitted_eq h h' hperm name,
          fun _ _ name _ => find?_submitted_eq h h' hperm name⟩
    simp only [lookup?_submitted_eq_some_iff h, lookup?_submitted_eq_some_iff h', hperm.mem_iff,
      hexamine]

end

/-! ### Linking -/

namespace Alike

variable (ha : r.Alike r')

include ha

theorem find?_eq : r.classes.find? = r'.classes.find? :=
  funext fun name => find?_congr (ha.lookup? (.cls name))

theorem function?_eq : r.function? = r'.function? := by
  funext name
  exact Option.map_injective (fun _ _ => Entry.function.inj) (ha.lookup? (.function name))

theorem examine_eq (d : Declaration) : r.examine d = r'.examine d :=
  examine_congr ha.config ⟨fun name _ => congrFun ha.find?_eq name,
    fun _ _ name _ => congrFun ha.find?_eq name⟩

theorem contains_eq : r.classes.contains = r'.classes.contains := by
  funext name
  rw [ClassTable.contains, ClassTable.contains, ha.find?_eq]

theorem hasFriend_eq : r.hasFriend = r'.hasFriend := by
  funext f
  cases f with
  | function name => rw [hasFriend, hasFriend, hasFunction, hasFunction, ha.function?_eq]
  | cls name => rw [hasFriend, hasFriend, ha.contains_eq]
  | method owner name =>
      simp only [hasFriend, ClassTable.method?, ClassTable.lineage, ClassTable.select, ha.find?_eq]

theorem resolveFriend_eq : r.resolveFriend = r'.resolveFriend := by
  funext strict owner ref
  cases ref with
  | named name =>
      simp only [resolveFriend, ha.contains_eq, hasFunction, ha.function?_eq]
  | specified friend => simp only [resolveFriend, ha.hasFriend_eq]

theorem mem_classes_iff (hr : r.Reachable) (hr' : r'.Reachable) :
    c ∈ r.classes.classes ↔ c ∈ r'.classes.classes := by
  have hself {r : Registry} (hr : r.Reachable) :
      c ∈ r.classes.classes ↔ r.classes.find? c.name = some c := by
    simp [hr.wellOrdered.find?_iff]
  rw [hself hr, hself hr', ha.find?_eq]

theorem mem_functions_iff (hr : r.Reachable) (hr' : r'.Reachable) {f : Callable} :
    f ∈ r.functions ↔ f ∈ r'.functions := by
  have hself {r : Registry} (hr : r.Reachable) :
      f ∈ r.functions ↔ r.function? f.name = some f := by
    rw [function?, find?_key_eq_some_iff hr.nodup_functions]
    simp
  rw [hself hr, hself hr', ha.function?_eq]

theorem exists_link_iff (hr : r.Reachable) (hr' : r'.Reachable) :
    (∃ p, r.link = .ok p) ↔ ∃ p, r'.link = .ok p := by
  simp only [Registry.exists_link_iff, FriendsResolve, unresolvedType?_eq_none_iff,
    mem_typedMembers_iff, ha.mem_classes_iff hr hr', ha.mem_functions_iff hr hr', ha.config,
    ha.resolveFriend_eq, ha.contains_eq]

-- The friends of a class are put together from its own and those of its bases, so the induction is
-- over the hierarchy once more.
theorem find?_link (hr : r.Reachable) (hr' : r'.Reachable) {p p' : Program}
    (hp : r.link = .ok p) (hp' : r'.link = .ok p') (name : String) :
    p.classes.find? name = p'.classes.find? name := by
  have hlinked := linkedUpTo_of_link hr.wellOrdered hp
  have hlinked' := linkedUpTo_of_link hr'.wellOrdered hp'
  have hclass : ∀ c ∈ r.classes.classes, p.classes.find? c.name = p'.classes.find? c.name := by
    refine hr.wellOrdered.induction fun c hc ih => ?_
    obtain ⟨own, hown, hfind⟩ := hlinked.found c hc
    obtain ⟨own', hown', hfind'⟩ := hlinked'.found c ((ha.mem_classes_iff hr hr').mp hc)
    rw [ownFriends, ← ha.resolveFriend_eq, ← ha.config] at hown'
    cases hown.symm.trans hown'
    have hbases : p.classes.select c.bases = p'.classes.select c.bases := by
      refine ClassTable.select_congr fun base hbase => ?_
      obtain ⟨k, hk⟩ := Option.isSome_iff_exists.mp (hr.closed.bases c hc base hbase)
      rw [← ClassTable.name_of_find? hk]
      exact ih base (List.mem_append_left _ hbase) k hk
    rw [hfind, hfind', hbases]
  cases hfind : r.classes.find? name with
  | some c =>
      rw [← ClassTable.name_of_find? hfind]
      exact hclass c (List.mem_of_find?_eq_some hfind)
  | none =>
      rw [hlinked.find?_eq_none hfind, hlinked'.find?_eq_none (ha.find?_eq ▸ hfind)]

end Alike

end Registry

/-- The same classes with the same friends, and the same functions, in whatever order. -/
structure Program.Alike (p p' : Program) : Prop where
  config : p.config = p'.config
  find? : ∀ name, p.classes.find? name = p'.classes.find? name
  function? : ∀ name, p.function? name = p'.function? name
  classes : p.classes.classes.Perm p'.classes.classes
  functions : p.functions.Perm p'.functions

namespace Registry

variable {r r' : Registry} {d : Declaration} {ds ds' : List Declaration}

theorem Alike.link (ha : r.Alike r') (hr : r.Reachable) (hr' : r'.Reachable) {p p' : Program}
    (hp : r.link = .ok p) (hp' : r'.link = .ok p') : p.Alike p' := by
  obtain ⟨hconfig, hfunctions, -⟩ := mem_classes_of_link hp
  obtain ⟨hconfig', hfunctions', -⟩ := mem_classes_of_link hp'
  have hordered : p.classes.WellOrdered := Program.Linked.wellOrdered ⟨r, hr, hp⟩
  have hordered' : p'.classes.WellOrdered := Program.Linked.wellOrdered ⟨r', hr', hp'⟩
  have hfind := ha.find?_link hr hr' hp hp'
  constructor
  case config => rw [hconfig, hconfig', ha.config]
  case find? => exact hfind
  case function? =>
    intro name
    rw [Program.function?, Program.function?, hfunctions, hfunctions']
    exact congrFun ha.function?_eq name
  case classes =>
    refine (List.perm_ext_iff_of_nodup hordered.nodup_names.of_map
      hordered'.nodup_names.of_map).mpr fun c => ?_
    have hiff := hordered.find?_iff c.name c
    have hiff' := hordered'.find?_iff c.name c
    rw [hfind, hiff'] at hiff
    simpa using hiff.symm
  case functions =>
    rw [hfunctions, hfunctions']
    exact (List.perm_ext_iff_of_nodup hr.nodup_functions.of_map
      hr'.nodup_functions.of_map).mpr fun f => ha.mem_functions_iff hr hr'

/-- The order in which declarations are handed in does not matter, as long as no class comes before
a base of it. Each becomes the same entry or is rejected for the same reason, and the registries
link alike or not at all. -/
theorem submitted_order_immaterial (config : Config) (h : Declaration.Ordered ds)
    (h' : Declaration.Ordered ds') (hperm : ds.Perm ds') :
    (∀ d before after before' after', ds = before ++ d :: after → ds' = before' ++ d :: after' →
      (submitted config before).verdict d = (submitted config before').verdict d) ∧
    ((∃ p, (submitted config ds).link = .ok p) ↔ ∃ p, (submitted config ds').link = .ok p) ∧
    ∀ p p', (submitted config ds).link = .ok p → (submitted config ds').link = .ok p' →
      p.Alike p' := by
  have hr := reachable_submitted config ds
  have hr' := reachable_submitted config ds'
  have ha : (submitted config ds).Alike (submitted config ds') := alike_submitted h h' hperm
  refine ⟨?_, ha.exists_link_iff hr hr', fun p p' hp hp' => ha.link hr hr' hp hp'⟩
  rintro d before after before' after' rfl rfl
  rw [verdict_of_free (lookup?_submitted_eq_none h),
    verdict_of_free (lookup?_submitted_eq_none h'), examine_submitted h, examine_submitted h',
    ha.examine_eq]

/-- The audit may be declared in front of the ledger that it is a friend of and asks for. -/
theorem submitted_order_immaterial_ledgers : ∃ p p',
    (submitted {} (ledgerDecls [.named "audit"])).link = .ok p ∧
      (submitted {} ((ledgerDecls [.named "audit"]).rotate 2)).link = .ok p' ∧ p.Alike p' := by
  have h : Declaration.Ordered (ledgerDecls [.named "audit"]) := by decide
  have h' : Declaration.Ordered ((ledgerDecls [.named "audit"]).rotate 2) := by decide
  have hok : (submitted {} (ledgerDecls [.named "audit"])).link.isOk = true := by cbv
  obtain ⟨p, hp⟩ := exists_eq_ok_of_isOk hok
  obtain ⟨-, hlink, halike⟩ := submitted_order_immaterial {} h h' (List.rotate_perm _ 2).symm
  obtain ⟨p', hp'⟩ := hlink.mp ⟨p, hp⟩
  exact ⟨p, p', hp, hp', halike p p' hp hp'⟩

end Registry

end GuardedObjects
