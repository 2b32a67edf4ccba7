import Mathlib
import GuardedObjects.Program.Basic
import GuardedObjects.Proofs.Call.Signature

/-!
# Linked programs

Which registries declarations can lead to, which programs these link to, and what every callable
of such a program has been checked for: it stands under its own name in the class that owns it,
its parameters have different names, and where rules are enforced its types are complete.
-/

namespace GuardedObjects

/-! ### Callables -/

/-- What every declared callable has in common. -/
structure Callable.DeclaredAs (m : Callable) (name : String) (owner : Option String) : Prop where
  name_eq : m.name = name
  owner_eq : m.owner = owner
  nodup_params : (m.params.map Param.name).Nodup

/-- Every regular parameter and the result have a type. -/
structure Callable.IsTyped (m : Callable) : Prop where
  params : ∀ x ∈ m.params, x.kind = .regular → x.type.isSome
  returns : m.returns.isSome

/-- What every callable has in common that is accepted in a mode. -/
structure Callable.Accepted (mode : Mode) (m : Callable) (name : String)
    (owner : Option String) : Prop extends m.DeclaredAs name owner where
  typed : mode = .enforced → m.IsTyped

/-- Every method is accepted under its name in its class, and every function under its name. -/
structure AllAccepted (mode : Mode) (classes : List ClassInfo) (functions : List Callable) :
    Prop where
  methods : ∀ c ∈ classes, ∀ n m, c.method? n = some m → m.Accepted mode n (some c.name)
  functions : ∀ f ∈ functions, f.Accepted mode f.name none

/-- What a declaration of a callable has to be like, and the callable that it becomes. -/
theorem CallableDecl.resolve_eq_ok {d : CallableDecl} {owner : Option String} {name : String}
    {m : Callable} (h : d.resolve owner name = .ok m) :
    (d.body.isNone = true → d.markers.isAbstract = true) ∧
      SignatureProblem.first? d.params = none ∧
      ∃ callable receiverType params returns,
        d.params.mapM (fun x => x.resolve callable) = .ok params ∧
        m = { name, owner, kind := d.kind, receiverType, params, returns, markers := d.markers,
              body := d.body } := by
  unfold CallableDecl.resolve at h
  simp only at h
  split at h
  · cases h
  · rename_i hbody
    split at h
    · cases h
    · rename_i hfirst
      obtain ⟨receiverType, -, h⟩ := bind_eq_ok_iff.mp h
      obtain ⟨params, hparams, h⟩ := bind_eq_ok_iff.mp h
      obtain ⟨returns, -, h⟩ := bind_eq_ok_iff.mp h
      cases h
      refine ⟨by simpa using hbody, ?_, _, receiverType, params, returns, hparams, rfl⟩
      cases hf : SignatureProblem.first? d.params with
      | none => rfl
      | some problem => exact absurd hf (hfirst problem)

theorem CallableDecl.declaredAs_of_resolve {d : CallableDecl} {owner : Option String}
    {name : String} {m : Callable} (h : d.resolve owner name = .ok m) :
    m.DeclaredAs name owner := by
  obtain ⟨-, hfirst, _, _, params, _, hparams, rfl⟩ := resolve_eq_ok h
  refine ⟨rfl, rfl, ?_⟩
  exact (isSignature_of_resolve hfirst hparams).nodup_names

theorem FunctionDecl.declaredAs_of_resolve {d : FunctionDecl} {m : Callable}
    (h : d.resolve = .ok m) : m.DeclaredAs d.name none :=
  CallableDecl.declaredAs_of_resolve h

theorem FunctionDecl.kind_of_resolve {d : FunctionDecl} {m : Callable} (h : d.resolve = .ok m) :
    m.kind = .function := by
  obtain ⟨-, -, _, _, _, _, -, rfl⟩ := CallableDecl.resolve_eq_ok h
  rfl

theorem Callable.isTyped_of_rules {m : Callable} (hp : Rule.untypedParameter? m = none)
    (hr : Rule.untypedResult? m = none) : m.IsTyped where
  params := by
    intro x hx hk
    rw [Rule.untypedParameter?, Option.map_eq_none_iff, List.find?_eq_none] at hp
    have := hp x hx
    cases ht : x.type with
    | none => simp [hk, ht] at this
    | some t => rfl
  returns := by
    unfold Rule.untypedResult? at hr
    split at hr
    · cases hr
    · cases ht : m.returns with
      | none => simp_all
      | some t => rfl

theorem Callable.isTyped_of_review {m : Callable} (h : m.review? Rule.all = none) :
    m.IsTyped := by
  rw [Callable.review?, List.findSome?_eq_none_iff] at h
  exact isTyped_of_rules (h .missingParameterType (by decide)) (h .missingReturnType (by decide))

/-! ### Classes -/

theorem Table.exists_mem_of_go {ε κ α β : Type} {f : κ → α → Except ε β} {l : List (κ × α)}
    {r : { r : List (κ × β) // r.map Prod.fst = l.map Prod.fst }}
    (h : Table.traverse.go f l = .ok r) : ∀ e ∈ r.1, ∃ a, f e.1 a = .ok e.2 := by
  induction l with
  | nil =>
      cases h
      simp
  | cons e l ih =>
      rw [Table.traverse.go] at h
      obtain ⟨b, hb, h⟩ := bind_eq_ok_iff.mp h
      obtain ⟨⟨rest, hkeys⟩, hrest, h⟩ := bind_eq_ok_iff.mp h
      cases h
      intro e' he'
      rcases List.mem_cons.mp he' with rfl | he'
      · exact ⟨e.2, hb⟩
      · exact ih hrest e' he'

theorem Table.exists_mem_of_traverse {ε κ α β : Type} {f : κ → α → Except ε β} {t : Table κ α}
    {u : Table κ β} (h : t.traverse f = .ok u) : ∀ e ∈ u.entries, ∃ a, f e.1 a = .ok e.2 := by
  obtain ⟨⟨entries, hkeys⟩, hgo, h⟩ := bind_eq_ok_iff.mp h
  cases h
  exact Table.exists_mem_of_go hgo

theorem ClassDecl.exists_resolve_of_method? {d : ClassDecl} {ancestors : List String}
    {c : ClassInfo} (h : d.resolve ancestors = .ok c) {n : String} {m : Callable}
    (hm : c.method? n = some m) : ∃ decl : CallableDecl, decl.resolve (some c.name) n = .ok m := by
  unfold ClassDecl.resolve at h
  simp only at h
  split at h
  · cases h
  · obtain ⟨attributes, -, h⟩ := bind_eq_ok_iff.mp h
    obtain ⟨methods, hmethods, h⟩ := bind_eq_ok_iff.mp h
    cases h
    exact Table.exists_mem_of_traverse hmethods _ (Table.mem_of_find?_eq_some hm)

theorem ClassDecl.declaredAs_of_resolve {d : ClassDecl} {ancestors : List String} {c : ClassInfo}
    (h : d.resolve ancestors = .ok c) {n : String} {m : Callable} (hm : c.method? n = some m) :
    m.DeclaredAs n (some c.name) := by
  obtain ⟨decl, hdecl⟩ := exists_resolve_of_method? h hm
  exact CallableDecl.declaredAs_of_resolve hdecl

theorem ClassTable.isTyped_of_review {t : ClassTable} {c : ClassInfo}
    (h : t.review? Rule.all c = none) {n : String} {m : Callable} (hm : c.method? n = some m) :
    m.IsTyped := by
  rw [ClassTable.review?, List.findSome?_eq_none_iff] at h
  have hentry := Table.mem_of_find?_eq_some hm
  have hparams := h .missingParameterType (by decide)
  have hresult := h .missingReturnType (by decide)
  simp only [Rule.classViolation?, List.findSome?_eq_none_iff] at hparams hresult
  exact Callable.isTyped_of_rules (hparams _ hentry) (hresult _ hentry)

/-! ### Registries -/

namespace Registry

/-- The registries that declarations make of an empty one. -/
inductive Reachable : Registry → Prop
  | empty (config : Config) : Reachable { config }
  | declare {r r' : Registry} {d : ClassDecl} {c : ClassInfo} :
      Reachable r → r.declare d = .ok (c, r') → Reachable r'
  | declareFunction {r r' : Registry} {d : FunctionDecl} {f : Callable} :
      Reachable r → r.declareFunction d = .ok (f, r') → Reachable r'

theorem declare_eq_ok {r r' : Registry} {d : ClassDecl} {c : ClassInfo}
    (h : r.declare d = .ok (c, r')) :
    r.resolve d = .ok c ∧ r.classes.review? r.rules c = none ∧
      r' = { r with classes := r.classes.push c } := by
  unfold declare at h
  simp only at h
  split at h
  · cases h
  · obtain ⟨c', hc, h⟩ := bind_eq_ok_iff.mp h
    split at h
    · cases h
    · rename_i hreview
      cases h
      exact ⟨hc, hreview, rfl⟩

theorem declareFunction_eq_ok {r r' : Registry} {d : FunctionDecl} {f : Callable}
    (h : r.declareFunction d = .ok (f, r')) :
    d.resolve = .ok f ∧ f.review? r.rules = none ∧
      r' = { r with functions := r.functions ++ [f] } := by
  unfold declareFunction at h
  simp only at h
  split at h
  · cases h
  · obtain ⟨f', hf, h⟩ := bind_eq_ok_iff.mp h
    split at h
    · cases h
    · rename_i hreview
      cases h
      exact ⟨hf, hreview, rfl⟩

theorem rules_of_enforced {r : Registry} (h : r.config.mode = .enforced) : r.rules = Rule.all := by
  rw [rules, h]

theorem resolve_eq_ok {r : Registry} {d : ClassDecl} {c : ClassInfo} (h : r.resolve d = .ok c) :
    ∃ bases ancestors, r.basesOf d = .ok bases ∧ ancestorsOf bases = some ancestors ∧
      d.resolve ancestors = .ok c := by
  obtain ⟨bases, hbases, h⟩ := bind_eq_ok_iff.mp h
  split at h
  · cases h
  · exact ⟨bases, _, hbases, ‹_›, h⟩

theorem accepted_of_resolve {r : Registry} {d : ClassDecl} {c : ClassInfo}
    (h : r.resolve d = .ok c) (hreview : r.classes.review? r.rules c = none) {n : String}
    {m : Callable} (hm : c.method? n = some m) : m.Accepted r.config.mode n (some c.name) := by
  obtain ⟨_, _, -, -, h⟩ := resolve_eq_ok h
  refine ⟨ClassDecl.declaredAs_of_resolve h hm, ?_⟩
  intro hmode
  rw [rules_of_enforced hmode] at hreview
  exact ClassTable.isTyped_of_review hreview hm

theorem Reachable.allAccepted {r : Registry} (h : r.Reachable) :
    AllAccepted r.config.mode r.classes.classes r.functions := by
  induction h with
  | empty config => exact ⟨by simp [EmptyCollection.emptyCollection], by simp⟩
  | @declare r r' d c _ hd ih =>
      obtain ⟨hc, hreview, rfl⟩ := declare_eq_ok hd
      refine ⟨?_, ih.functions⟩
      intro k hk n m hm
      rcases List.mem_append.mp hk with hk | hk
      · exact ih.methods k hk n m hm
      · rw [List.mem_singleton] at hk
        subst hk
        exact accepted_of_resolve hc hreview hm
  | @declareFunction r r' d f _ hd ih =>
      obtain ⟨hf, hreview, rfl⟩ := declareFunction_eq_ok hd
      refine ⟨ih.methods, ?_⟩
      intro g hg
      rcases List.mem_append.mp hg with hg | hg
      · exact ih.functions g hg
      · rw [List.mem_singleton] at hg
        subst hg
        have hdecl := FunctionDecl.declaredAs_of_resolve hf
        refine ⟨⟨rfl, hdecl.owner_eq, hdecl.nodup_params⟩, ?_⟩
        intro hmode
        rw [rules_of_enforced (r := r) hmode] at hreview
        exact Callable.isTyped_of_review hreview

theorem Reachable.kind_of_mem_functions {r : Registry} (h : r.Reachable) {f : Callable}
    (hf : f ∈ r.functions) : f.kind = .function := by
  induction h with
  | empty config => cases hf
  | declare _ hd ih =>
      obtain ⟨-, -, rfl⟩ := declare_eq_ok hd
      exact ih hf
  | declareFunction _ hd ih =>
      obtain ⟨hg, -, rfl⟩ := declareFunction_eq_ok hd
      rcases List.mem_append.mp hf with hf | hf
      · exact ih hf
      · rw [List.mem_singleton.mp hf]
        exact FunctionDecl.kind_of_resolve hg

theorem link_eq_ok_iff {r : Registry} {p : Program} :
    r.link = .ok p ↔
      ∃ classes, r.classes.classes.foldlM (r.linkClass r.config.isStrict) ∅ = .ok classes ∧
        (r.config.mode = .enforced → r.unresolvedType? = none) ∧
        p = { config := r.config, classes, functions := r.functions } := by
  rw [link, bind_eq_ok_iff]
  refine exists_congr fun classes => and_congr_right fun _ => ?_
  have hdone {q : Program} : (.ok q : Except DeclarationError Program) = .ok p ↔ p = q :=
    ⟨fun h => (Except.ok.inj h).symm, fun h => h ▸ rfl⟩
  by_cases hmode : r.config.mode = .enforced
  · cases hv : r.unresolvedType? with
    | some violation =>
        refine ⟨?_, fun h => absurd (h.1 hmode) nofun⟩
        simp only [hmode]
        exact nofun
    | none =>
        simp only [hmode]
        exact hdone.trans (iff_and_self.mpr fun _ _ => trivial)
  · simp only [hmode]
    exact hdone.trans (iff_and_self.mpr fun _ => nofun)

/-- Linking changes nothing about a class but its friends. -/
theorem mem_classes_of_link {r : Registry} {p : Program} (h : r.link = .ok p) :
    p.config = r.config ∧ p.functions = r.functions ∧
      ∀ c ∈ p.classes.classes, ∃ k ∈ r.classes.classes, c = { k with friends := c.friends } := by
  obtain ⟨classes, hclasses, -, rfl⟩ := link_eq_ok_iff.mp h
  refine ⟨rfl, rfl, ?_⟩
  refine foldlM_invariant (I := fun t => ∀ c ∈ t.classes, ∃ k ∈ r.classes.classes,
    c = { k with friends := c.friends }) ?_ (by simp [EmptyCollection.emptyCollection]) hclasses
  intro linked k linked' hk ih hlink c hc
  obtain ⟨own, -, hlink⟩ := bind_eq_ok_iff.mp hlink
  cases hlink
  rcases List.mem_append.mp hc with hc | hc
  · exact ih c hc
  · rw [List.mem_singleton] at hc
    exact ⟨k, hk, by rw [hc]⟩

end Registry

/-! ### Programs -/

/-- The programs that declarations make up. -/
def Program.Linked (p : Program) : Prop := ∃ r : Registry, r.Reachable ∧ r.link = .ok p

theorem Program.Linked.allAccepted {p : Program} (h : p.Linked) :
    AllAccepted p.mode p.classes.classes p.functions := by
  obtain ⟨r, hr, hlink⟩ := h
  obtain ⟨hconfig, hfunctions, hclasses⟩ := Registry.mem_classes_of_link hlink
  have hacc := hr.allAccepted
  rw [Program.mode, hconfig, hfunctions]
  refine ⟨?_, hacc.functions⟩
  intro c hc n m hm
  obtain ⟨k, hk, heq⟩ := hclasses c hc
  rw [heq] at hm ⊢
  exact hacc.methods k hk n m hm

theorem Program.Linked.kind_of_mem_functions {p : Program} (h : p.Linked) {f : Callable}
    (hf : f ∈ p.functions) : f.kind = .function := by
  obtain ⟨r, hr, hlink⟩ := h
  rw [(Registry.mem_classes_of_link hlink).2.1] at hf
  exact hr.kind_of_mem_functions hf

/-! ### A linked program -/

/-- The body of the constructor of `vaultDecl`. -/
def vaultKeeps : Body := fun frame =>
  match frame.arg "code" with
  | .ok v => .request (.setSelf "__code" v)
  | .error fault => .done (.error fault)

def vaultTells : Body := fun _ => .request (.getSelf "__code")

/-- Objects of this class keep the code that they are made with, and tell it. -/
def vaultDecl : ClassDecl :=
  (({ name := "Vault" : ClassDecl }.field "__code" (.type (.const (.primitive .int)))).constructor
    { params := [{ name := "code", type := some (.type (.primitive .int)) }]
      returns := some (.type .noValue)
      body := some vaultKeeps }).method "code"
    { returns := some (.type (.primitive .int)), body := some vaultTells }

/-- The program of that class. -/
def Program.vault : Program :=
  let linked := ({} : Registry).declare vaultDecl >>= fun declared => declared.2.link
  linked.toOption.getD {}

theorem Program.linked_vault : Program.vault.Linked := by
  have hok : (({} : Registry).declare vaultDecl >>= fun declared => declared.2.link).isOk =
      true := by cbv
  obtain ⟨p, hp⟩ := exists_eq_ok_of_isOk hok
  have heq : Program.vault = p := by
    rw [Program.vault, hp]
    rfl
  obtain ⟨declared, hd, hl⟩ := bind_eq_ok_iff.mp hp
  exact ⟨declared.2, .declare (.empty {}) hd, heq ▸ hl⟩

theorem Program.mode_vault : Program.vault.mode = .enforced := by cbv

end GuardedObjects
