import GuardedObjects.Proofs.Registry.Linearized

/-!
# Entries of a registry

The classes and functions of a registry are its entries, each under a key of its own. A declaration
becomes an entry if its key is free and nothing is wrong with it, which the configuration and the
classes that it descends from decide. An entry stays whatever is handed in after it.
-/

namespace GuardedObjects

inductive EntryKey where
  | cls (name : String)
  | function (name : String)
deriving DecidableEq, Repr

inductive Entry where
  | cls (c : ClassInfo)
  | function (f : Callable)

def Entry.key : Entry → EntryKey
  | .cls c => .cls c.name
  | .function f => .function f.name

namespace Declaration

/-- The key that the entry of a declaration takes. -/
def key : Declaration → EntryKey
  | .cls d => .cls d.name
  | .function d => .function d.name

def bases : Declaration → List String
  | .cls d => d.bases
  | .function _ => []

end Declaration

namespace Registry

def lookup? (r : Registry) : EntryKey → Option Entry
  | .cls name => (r.classes.find? name).map .cls
  | .function name => (r.function? name).map .function

def add (r : Registry) : Entry → Registry
  | .cls c => { r with classes := r.classes.push c }
  | .function f => { r with functions := r.functions ++ [f] }

/-- The entry that a declaration describes, if nothing is wrong with it. -/
def examine (r : Registry) : Declaration → Except DeclarationError Entry
  | .cls d => do
    let c ← r.resolve d
    match r.classes.review? r.rules c with
    | some violation => throw violation
    | none => return .cls c
  | .function d => do
    let f ← d.resolve
    match f.review? r.rules with
    | some violation => throw violation
    | none => return .function f

/-- The entry that a declaration becomes, or why it is not accepted. -/
def verdict (r : Registry) : Declaration → Except DeclarationError Entry
  | .cls d => (fun declared => .cls declared.1) <$> r.declare d
  | .function d => (fun declared => .function declared.1) <$> r.declareFunction d

variable {r r' : Registry} {d : Declaration} {ds : List Declaration} {e : Entry} {key : EntryKey}

theorem lookup?_add (r : Registry) (e : Entry) (key : EntryKey) :
    (r.add e).lookup? key = (r.lookup? key).or (if e.key = key then some e else none) := by
  cases e with
  | cls c =>
      cases key with
      | cls name =>
          simp only [lookup?, add, ClassTable.find?_push, Entry.key, EntryKey.cls.injEq]
          cases r.classes.find? name <;> split <;> rfl
      | function name => simp [lookup?, add, Entry.key, function?]
  | function f =>
      cases key with
      | cls name => simp [lookup?, add, Entry.key]
      | function name =>
          simp only [lookup?, add, function?, List.find?_append, Entry.key, EntryKey.function.injEq]
          cases r.functions.find? fun g => g.name = name <;> by_cases h : f.name = name <;>
            simp [h]

theorem isSome_lookup?_cls {name : String} :
    (r.lookup? (.cls name)).isSome = r.classes.contains name := Option.isSome_map

theorem isSome_lookup?_function {name : String} :
    (r.lookup? (.function name)).isSome = r.hasFunction name := Option.isSome_map

theorem key_of_examine (h : r.examine d = .ok e) : e.key = d.key := by
  cases d with
  | cls d =>
      obtain ⟨c, hc, h⟩ := bind_eq_ok_iff.mp h
      split at h <;> cases h
      rw [Entry.key, (shape_of_resolve hc).1, Declaration.key]
  | function d =>
      obtain ⟨f, hf, h⟩ := bind_eq_ok_iff.mp h
      split at h <;> cases h
      rw [Entry.key, (FunctionDecl.declaredAs_of_resolve hf).name_eq, Declaration.key]

/-- Where its key is free, nothing but its own flaws keeps a declaration out. -/
theorem verdict_of_free (h : r.lookup? d.key = none) : r.verdict d = r.examine d := by
  cases d with
  | cls d =>
      have hfree : r.classes.contains d.name = false := by
        rw [← isSome_lookup?_cls, show r.lookup? (.cls d.name) = none from h]
        rfl
      simp only [verdict, declare, hfree, examine]
      cases r.resolve d with
      | error e => rfl
      | ok c =>
          simp only [ok_bind]
          cases r.classes.review? r.rules c <;> rfl
  | function d =>
      have hfree : r.hasFunction d.name = false := by
        rw [← isSome_lookup?_function, show r.lookup? (.function d.name) = none from h]
        rfl
      simp only [verdict, declareFunction, hfree, examine]
      cases d.resolve with
      | error e => rfl
      | ok f =>
          simp only [ok_bind]
          cases f.review? r.rules <;> rfl

theorem verdict_eq_ok_iff :
    r.verdict d = .ok e ↔ r.lookup? d.key = none ∧ r.examine d = .ok e := by
  constructor
  · intro h
    have hfree : r.lookup? d.key = none := by
      rw [← Option.not_isSome_iff_eq_none]
      cases d with
      | cls d =>
          obtain ⟨⟨c, r'⟩, hd, -⟩ := map_eq_ok_iff.mp h
          rw [Declaration.key, isSome_lookup?_cls, (declare_eq_ok_iff.mp hd).1]
          exact Bool.false_ne_true
      | function d =>
          obtain ⟨⟨f, r'⟩, hd, -⟩ := map_eq_ok_iff.mp h
          rw [Declaration.key, isSome_lookup?_function, (declareFunction_eq_ok_iff.mp hd).1]
          exact Bool.false_ne_true
    exact ⟨hfree, verdict_of_free hfree ▸ h⟩
  · rintro ⟨hfree, h⟩
    rw [verdict_of_free hfree, h]

theorem accept_eq_map_verdict : r.accept d = r.add <$> r.verdict d := by
  cases d with
  | cls d =>
      simp only [accept, verdict]
      cases hd : r.declare d with
      | error e => rfl
      | ok declared =>
          obtain ⟨-, -, -, hr⟩ := declare_eq_ok_iff.mp hd
          exact congrArg Except.ok hr
  | function d =>
      simp only [accept, verdict]
      cases hd : r.declareFunction d with
      | error e => rfl
      | ok declared =>
          obtain ⟨-, -, -, hr⟩ := declareFunction_eq_ok_iff.mp hd
          exact congrArg Except.ok hr

/-! ### Handing in -/

theorem submit_of_accepted (hfree : r.lookup? d.key = none) (h : r.examine d = .ok e) :
    r.submit d = r.add e := by
  rw [submit, accept_eq_map_verdict, verdict_eq_ok_iff.mpr ⟨hfree, h⟩]
  rfl

theorem submit_of_rejected (h : ∀ e, r.examine d ≠ .ok e) : r.submit d = r := by
  rw [submit, accept_eq_map_verdict]
  cases hverdict : r.verdict d with
  | error err => rfl
  | ok e => exact absurd (verdict_eq_ok_iff.mp hverdict).2 (h e)

theorem submit_cases (r : Registry) (d : Declaration) :
    r.submit d = r ∨
      ∃ e, r.lookup? d.key = none ∧ r.examine d = .ok e ∧ r.submit d = r.add e := by
  rw [submit, accept_eq_map_verdict]
  cases hverdict : r.verdict d with
  | error err => exact .inl rfl
  | ok e =>
      obtain ⟨hfree, h⟩ := verdict_eq_ok_iff.mp hverdict
      exact .inr ⟨e, hfree, h, rfl⟩

theorem lookup?_submit_of_some (h : r.lookup? key = some e) :
    (r.submit d).lookup? key = some e := by
  rcases r.submit_cases d with heq | ⟨e', -, -, heq⟩
  · rwa [heq]
  · rw [heq, lookup?_add, h, Option.some_or]

theorem lookup?_submit_of_ne (h : d.key ≠ key) : (r.submit d).lookup? key = r.lookup? key := by
  rcases r.submit_cases d with heq | ⟨e', -, he', heq⟩
  · rw [heq]
  · rw [heq, lookup?_add, key_of_examine he', if_neg h, Option.or_none]

theorem lookup?_submitAll_of_some (h : r.lookup? key = some e) :
    (r.submitAll ds).lookup? key = some e := by
  induction ds generalizing r with
  | nil => exact h
  | cons d ds ih => exact ih (lookup?_submit_of_some h)

theorem lookup?_submitAll_of_ne (h : ∀ d ∈ ds, d.key ≠ key) :
    (r.submitAll ds).lookup? key = r.lookup? key := by
  induction ds generalizing r with
  | nil => rfl
  | cons d ds ih =>
      rw [List.forall_mem_cons] at h
      exact (ih h.2).trans (lookup?_submit_of_ne h.1)

/-- An entry that was not there at first is what a declaration was found to describe. -/
theorem exists_examine_of_lookup? (h : (r.submitAll ds).lookup? key = some e)
    (hnone : r.lookup? key = none) :
    ∃ before d after, ds = before ++ d :: after ∧ d.key = key ∧
      (r.submitAll before).examine d = .ok e := by
  induction ds generalizing r with
  | nil =>
      cases hnone.symm.trans h
  | cons d ds ih =>
      cases hd : (r.submit d).lookup? key with
      | none =>
          obtain ⟨before, d', after, rfl, hkey, he⟩ := ih h hd
          exact ⟨d :: before, d', after, rfl, hkey, he⟩
      | some e' =>
          cases (lookup?_submitAll_of_some hd).symm.trans h
          rcases r.submit_cases d with heq | ⟨e', -, he', heq⟩
          · rw [heq, hnone] at hd
            cases hd
          · rw [heq, lookup?_add, hnone, Option.none_or] at hd
            split at hd
            · rename_i hkey
              cases hd
              exact ⟨[], d, ds, rfl, (key_of_examine he').symm.trans hkey, he'⟩
            · cases hd

end Registry

/-! ### What a declaration is examined against -/

theorem findSome?_congr {α β : Type} {f g : α → Option β} {l : List α} (h : ∀ a ∈ l, f a = g a) :
    l.findSome? f = l.findSome? g := by
  rw [← List.head?_filterMap, List.filterMap_congr h, List.head?_filterMap]

namespace ClassTable

/-- The tables hold the same classes under these names, and the same ancestors of these classes. -/
structure Agree (t t' : ClassTable) (names : List String) : Prop where
  find? : ∀ name ∈ names, t.find? name = t'.find? name
  ancestors : ∀ b ∈ t.select names, ∀ a ∈ b.ancestors, t.find? a = t'.find? a

variable {t t' : ClassTable} {c : ClassInfo}

theorem select_congr {names : List String} (h : ∀ name ∈ names, t.find? name = t'.find? name) :
    t.select names = t'.select names :=
  List.filterMap_congr h

theorem badOverrideIn?_congr (hbases : t.select c.bases = t'.select c.bases)
    (hlineages : ∀ b ∈ t.select c.bases, t.lineage b = t'.lineage b) :
    Rule.badOverrideIn? t c = Rule.badOverrideIn? t' c := by
  rw [Rule.badOverrideIn?, Rule.badOverrideIn?, ← hbases]
  refine findSome?_congr fun e _ => ?_
  refine congrArg (ite _ none) (findSome?_congr fun b hb => ?_)
  rw [Rule.badOverride?, Rule.badOverride?, declaringClass?, declaringClass?, hlineages b hb]

theorem unimplementedIn?_congr (hancestors : t.select c.ancestors = t'.select c.ancestors) :
    Rule.unimplementedIn? t c = Rule.unimplementedIn? t' c := by
  have hname : Rule.unimplemented? t c = Rule.unimplemented? t' c := by
    funext n
    rw [Rule.unimplemented?, Rule.unimplemented?, hancestors]
  rw [Rule.unimplementedIn?, Rule.unimplementedIn?, hancestors, hname]

/-- The rules ask about the bases of a class, their resolution orders and its ancestors, and about
nothing else in the table. -/
theorem review?_congr (hbases : t.select c.bases = t'.select c.bases)
    (hlineages : ∀ b ∈ t.select c.bases, t.lineage b = t'.lineage b)
    (hancestors : t.select c.ancestors = t'.select c.ancestors) (rules : List Rule) :
    t.review? rules c = t'.review? rules c := by
  refine findSome?_congr fun rule _ => ?_
  cases rule with
  | virtualOverride => exact badOverrideIn?_congr hbases hlineages
  | danglingOverride =>
      simp only [Rule.classViolation?, Rule.danglingOverride?, hancestors]
  | abstractImplementation => exact unimplementedIn?_congr hancestors
  | _ => rfl

end ClassTable

namespace Registry

variable {r r' : Registry} {d : Declaration}

theorem resolve_congr {d : ClassDecl}
    (h : ∀ name ∈ d.bases, r.classes.find? name = r'.classes.find? name) :
    r.resolve d = r'.resolve d := by
  have hbases : r.basesOf d = r'.basesOf d := by
    refine mapM_congr fun name hname => ?_
    rw [h name hname]
  rw [resolve, resolve, hbases]

theorem review?_congr_of_resolve {d : ClassDecl} {c : ClassInfo} (hc : r.resolve d = .ok c)
    (h : r.classes.Agree r'.classes d.bases) (rules : List Rule) :
    r.classes.review? rules c = r'.classes.review? rules c := by
  obtain ⟨-, hbases, -, hmerge⟩ := shape_of_resolve hc
  refine ClassTable.review?_congr ?_ ?_ ?_ rules
  · rw [hbases]
    exact ClassTable.select_congr h.find?
  · intro b hb
    rw [hbases] at hb
    rw [ClassTable.lineage, ClassTable.lineage, ClassTable.select_congr (h.ancestors b hb)]
  -- An ancestor is a base or an ancestor of a base.
  · refine ClassTable.select_congr fun name hname => ?_
    obtain ⟨b, hb, hname⟩ := (mem_ancestorsOf_iff hmerge).mp hname
    rcases List.mem_cons.mp hname with rfl | hname
    · obtain ⟨base, hbase, hfind⟩ := List.mem_filterMap.mp hb
      rw [ClassTable.name_of_find? hfind]
      exact h.find? base hbase
    · exact h.ancestors b hb name hname

/-- A class that was accepted keeps the rules whatever is declared after it. -/
theorem Reachable.review?_eq_none (h : r.Reachable) {c : ClassInfo} (hc : c ∈ r.classes.classes) :
    r.classes.review? r.rules c = none := by
  induction h with
  | empty config => cases hc
  | @declare r r' d k hr hd ih =>
      have hfits := fits_of_declare hd
      have ht := hr.closed
      obtain ⟨-, -, hreview, rfl⟩ := declare_eq_ok_iff.mp hd
      have hlineages {names : List String} {b : ClassInfo} (hb : b ∈ r.classes.select names) :
          r.classes.lineage b = (r.classes.push k).lineage b :=
        (ht.lineage_push (ClassTable.mem_classes_of_mem_select hb)).symm
      have hkept (hbases : ∀ name ∈ c.bases, r.classes.contains name = true)
          (hancestors : ∀ name ∈ c.ancestors, r.classes.contains name = true) :
          (r.classes.push k).review? r.rules c = r.classes.review? r.rules c :=
        (ClassTable.review?_congr (ClassTable.select_push hbases).symm (fun _ => hlineages)
          (ClassTable.select_push hancestors).symm r.rules).symm
      rcases ClassTable.mem_push.mp hc with hc | rfl
      · exact (hkept (ht.bases c hc) (ht.ancestors c hc)).trans (ih hc)
      · exact (hkept hfits.bases fun _ hname => ht.ancestors_of_fits hfits hname).trans hreview
  | declareFunction _ hd ih =>
      obtain ⟨-, -, -, rfl⟩ := declareFunction_eq_ok_iff.mp hd
      exact ih hc

/-- What a declaration describes is decided by the configuration, the bases and what these descend
from. -/
theorem examine_congr (hconfig : r.config = r'.config)
    (h : r.classes.Agree r'.classes d.bases) : r.examine d = r'.examine d := by
  have hrules : r.rules = r'.rules := by rw [rules, rules, hconfig]
  cases d with
  | cls d =>
      rw [examine, examine, hrules, ← resolve_congr h.find?]
      cases hc : r.resolve d with
      | error err => rfl
      | ok c => rw [ok_bind, ok_bind, review?_congr_of_resolve hc h]
  | function d => rw [examine, examine, hrules]

/-- A class that is accepted extends classes of the registry. -/
theorem contains_of_examine {e : Entry} (h : r.examine d = .ok e) :
    ∀ name ∈ d.bases, r.classes.contains name = true := by
  cases d with
  | cls d =>
      obtain ⟨c, hc, -⟩ := bind_eq_ok_iff.mp h
      exact (shape_of_resolve hc).2.2.1
  | function d => exact nofun

theorem bases_of_examine {c : ClassInfo} (h : r.examine d = .ok (.cls c)) : c.bases = d.bases := by
  cases d with
  | cls d =>
      obtain ⟨c, hc, h⟩ := bind_eq_ok_iff.mp h
      split at h <;> cases h
      exact (shape_of_resolve hc).2.1
  | function d =>
      obtain ⟨f, -, h⟩ := bind_eq_ok_iff.mp h
      split at h <;> cases h

theorem Reachable.nodup_functions (h : r.Reachable) : (r.functions.map Callable.name).Nodup := by
  induction h with
  | empty config => exact List.nodup_nil
  | declare _ hd ih =>
      obtain ⟨-, -, -, rfl⟩ := declare_eq_ok_iff.mp hd
      exact ih
  | @declareFunction r r' d f _ hd ih =>
      obtain ⟨hfresh, hf, -, rfl⟩ := declareFunction_eq_ok_iff.mp hd
      have hname := (FunctionDecl.declaredAs_of_resolve hf).name_eq
      rw [hasFunction, function?, Option.isSome_eq_false_iff, Option.isNone_iff_eq_none,
        List.find?_eq_none] at hfresh
      rw [List.map_append, List.nodup_append]
      refine ⟨ih, by simp, ?_⟩
      intro x hx y hy
      obtain ⟨g, hg, rfl⟩ := List.mem_map.mp hx
      rw [List.map_singleton, List.mem_singleton] at hy
      rw [hy, hname]
      simpa using hfresh g hg

end Registry

end GuardedObjects
