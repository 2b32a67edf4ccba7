import GuardedObjects.Proofs.Registry.Linked

/-!
# Lists of declarations

A program is given by a configuration and a list of declarations. A laxer configuration accepts more
lists, and whatever a stricter one accepts and links becomes the same classes and functions there.
-/

namespace GuardedObjects

inductive Declaration where
  | cls (decl : ClassDecl)
  | function (decl : FunctionDecl)

namespace Registry

def accept (r : Registry) : Declaration → Except DeclarationError Registry
  | .cls d => Prod.snd <$> r.declare d
  | .function d => Prod.snd <$> r.declareFunction d

/-- Declares one after the other, and stops at the first declaration that is not accepted. -/
def acceptAll (r : Registry) (ds : List Declaration) : Except DeclarationError Registry :=
  ds.foldlM accept r

theorem Reachable.accept {r r' : Registry} (hr : r.Reachable) {d : Declaration}
    (h : r.accept d = .ok r') : r'.Reachable := by
  cases d with
  | cls d =>
      obtain ⟨⟨c, r₁⟩, hd, rfl⟩ := map_eq_ok_iff.mp h
      exact .declare hr hd
  | function d =>
      obtain ⟨⟨f, r₁⟩, hd, rfl⟩ := map_eq_ok_iff.mp h
      exact .declareFunction hr hd

theorem Reachable.acceptAll {r r' : Registry} (hr : r.Reachable) {ds : List Declaration}
    (h : r.acceptAll ds = .ok r') : r'.Reachable :=
  foldlM_invariant (I := Reachable) (fun _ hr hd => hr.accept hd) hr h

theorem declare_eq_ok_iff {r r' : Registry} {d : ClassDecl} {c : ClassInfo} :
    r.declare d = .ok (c, r') ↔
      r.classes.contains d.name = false ∧ r.resolve d = .ok c ∧
        r.classes.review? r.rules c = none ∧ r' = { r with classes := r.classes.push c } := by
  constructor
  · intro h
    refine ⟨?_, declare_eq_ok h⟩
    unfold declare at h
    simp only at h
    split at h
    · cases h
    · rename_i hfresh
      exact Bool.eq_false_iff.mpr hfresh
  · rintro ⟨hfresh, hc, hreview, rfl⟩
    simp only [declare, hfresh, hc, ok_bind]
    rw [hreview]
    rfl

theorem declareFunction_eq_ok_iff {r r' : Registry} {d : FunctionDecl} {f : Callable} :
    r.declareFunction d = .ok (f, r') ↔
      r.hasFunction d.name = false ∧ d.resolve = .ok f ∧ f.review? r.rules = none ∧
        r' = { r with functions := r.functions ++ [f] } := by
  constructor
  · intro h
    refine ⟨?_, declareFunction_eq_ok h⟩
    unfold declareFunction at h
    simp only at h
    split at h
    · cases h
    · rename_i hfresh
      exact Bool.eq_false_iff.mpr hfresh
  · rintro ⟨hfresh, hf, hreview, rfl⟩
    simp only [declareFunction, hfresh, hf, ok_bind]
    rw [hreview]
    rfl

theorem config_of_accept {r r' : Registry} {d : Declaration} (h : r.accept d = .ok r') :
    r'.config = r.config := by
  cases d with
  | cls d =>
      obtain ⟨⟨c, r₁⟩, hd, rfl⟩ := map_eq_ok_iff.mp h
      obtain ⟨-, -, -, rfl⟩ := declare_eq_ok_iff.mp hd
      rfl
  | function d =>
      obtain ⟨⟨f, r₁⟩, hd, rfl⟩ := map_eq_ok_iff.mp h
      obtain ⟨-, -, -, rfl⟩ := declareFunction_eq_ok_iff.mp hd
      rfl

theorem config_of_acceptAll {r r' : Registry} {ds : List Declaration}
    (h : r.acceptAll ds = .ok r') : r'.config = r.config :=
  foldlM_invariant (I := fun r₁ => r₁.config = r.config)
    (fun _ hr hd => (config_of_accept hd).trans hr) rfl h

/-! ### Under a laxer configuration -/

/-- The same declarations under another configuration. -/
def withConfig (r : Registry) (config : Config) : Registry := { r with config }

end Registry

/-- Whatever the configuration `lax` asks of declarations, the other asks as well. -/
structure Config.Laxer (lax config : Config) : Prop where
  mode : lax.mode = .enforced → config.mode = .enforced
  strict : lax.isStrict = true → config.isStrict = true

theorem Config.laxer_of_passthrough {lax : Config} (h : lax.mode = .passthrough)
    (config : Config) : lax.Laxer config where
  mode := by
    intro hmode
    cases h.symm.trans hmode
  strict := by
    rw [Config.isStrict, h]
    exact fun hno => absurd hno Bool.false_ne_true

theorem Config.laxer_of_lenient (config : Config) :
    ({ config with strictFriends := false } : Config).Laxer config where
  mode := id
  strict := by
    rw [Config.isStrict, Bool.and_false]
    exact fun hno => absurd hno Bool.false_ne_true

namespace Registry

variable {r r' : Registry} {config : Config}

theorem rules_withConfig_subset (hlax : config.Laxer r.config) :
    (r.withConfig config).rules ⊆ r.rules := by
  cases hmode : config.mode with
  | passthrough => simp [rules, withConfig, hmode]
  | enforced =>
      rw [rules_of_enforced (hlax.mode hmode), rules_of_enforced (r := r.withConfig config) hmode]
      exact List.Subset.refl _

theorem accept_withConfig (hlax : config.Laxer r.config) {d : Declaration}
    (h : r.accept d = .ok r') : (r.withConfig config).accept d = .ok (r'.withConfig config) := by
  have hrules := rules_withConfig_subset hlax
  cases d with
  | cls d =>
      obtain ⟨⟨c, r₁⟩, hd, rfl⟩ := map_eq_ok_iff.mp h
      obtain ⟨hfresh, hc, hreview, rfl⟩ := declare_eq_ok_iff.mp hd
      refine map_eq_ok_iff.mpr ⟨(c, _), declare_eq_ok_iff.mpr ⟨hfresh, hc, ?_, rfl⟩, rfl⟩
      rw [ClassTable.review?, List.findSome?_eq_none_iff] at hreview ⊢
      exact fun rule hrule => hreview rule (hrules hrule)
  | function d =>
      obtain ⟨⟨f, r₁⟩, hd, rfl⟩ := map_eq_ok_iff.mp h
      obtain ⟨hfresh, hf, hreview, rfl⟩ := declareFunction_eq_ok_iff.mp hd
      refine map_eq_ok_iff.mpr ⟨(f, _), declareFunction_eq_ok_iff.mpr ⟨hfresh, hf, ?_, rfl⟩, rfl⟩
      rw [Callable.review?, List.findSome?_eq_none_iff] at hreview ⊢
      exact fun rule hrule => hreview rule (hrules hrule)

theorem acceptAll_withConfig (hlax : config.Laxer r.config) {ds : List Declaration}
    (h : r.acceptAll ds = .ok r') :
    (r.withConfig config).acceptAll ds = .ok (r'.withConfig config) := by
  induction ds generalizing r with
  | nil =>
      cases h
      rfl
  | cons d ds ih =>
      rw [acceptAll, List.foldlM_cons] at h ⊢
      obtain ⟨r₁, hd, h⟩ := bind_eq_ok_iff.mp h
      rw [accept_withConfig hlax hd, ok_bind]
      exact ih (config_of_accept hd ▸ hlax) h

/-- Where a strict lookup finds a friend, one that is not strict finds the same. -/
theorem resolveFriend_of_strict {strict : Bool} {owner : String} {ref : FriendRef}
    {fs : List Friend} (h : r.resolveFriend strict owner ref = .ok fs) :
    r.resolveFriend false owner ref = .ok fs := by
  cases strict with
  | false => exact h
  | true =>
      cases ref with
      | named name =>
          simp only [resolveFriend] at h ⊢
          split at h
          · exact h
          · exact h
          · cases h
          · cases h
      | specified friend =>
          simp only [resolveFriend] at h ⊢
          split at h
          · cases h
          · exact h

theorem resolveFriend_mono {strict strict' : Bool} (hstrict : strict' = true → strict = true)
    {owner : String} {ref : FriendRef} {fs : List Friend}
    (h : r.resolveFriend strict owner ref = .ok fs) :
    r.resolveFriend strict' owner ref = .ok fs := by
  cases strict' with
  | false => exact resolveFriend_of_strict h
  | true => rwa [hstrict rfl] at h

theorem linkClass_withConfig {strict strict' : Bool} (hstrict : strict' = true → strict = true)
    {linked linked' : ClassTable} {c : ClassInfo} (h : r.linkClass strict linked c = .ok linked') :
    (r.withConfig config).linkClass strict' linked c = .ok linked' := by
  obtain ⟨own, hown, h⟩ := bind_eq_ok_iff.mp h
  obtain ⟨fs, hfs, rfl⟩ := map_eq_ok_iff.mp hown
  have hown' : (r.withConfig config).ownFriends strict' c = .ok fs.flatten :=
    map_eq_ok_iff.mpr ⟨fs, mapM_mono (resolveFriend_mono hstrict) hfs, rfl⟩
  rw [linkClass, hown', ok_bind]
  exact h

theorem link_withConfig (hlax : config.Laxer r.config) {p : Program} (h : r.link = .ok p) :
    (r.withConfig config).link = .ok { p with config } := by
  obtain ⟨classes, hclasses, htypes, rfl⟩ := link_eq_ok_iff.mp h
  refine link_eq_ok_iff.mpr ⟨classes, ?_, fun hmode => htypes (hlax.mode hmode), rfl⟩
  exact foldlM_map (t := id) (linkClass_withConfig hlax.strict) hclasses

end Registry

/-! ### Programs -/

namespace Program

/-- The program that a list of declarations makes up. -/
def declared (config : Config) (ds : List Declaration) : Except DeclarationError Program :=
  ({ config } : Registry).acceptAll ds >>= Registry.link

theorem linked_of_declared {config : Config} {ds : List Declaration} {p : Program}
    (h : declared config ds = .ok p) : p.Linked := by
  obtain ⟨r, hr, hlink⟩ := bind_eq_ok_iff.mp h
  exact ⟨r, (Registry.Reachable.empty config).acceptAll hr, hlink⟩

/-- The same classes and functions under another configuration. -/
def withConfig (p : Program) (config : Config) : Program := { p with config }

/-- A list of declarations that makes up a program makes up the same classes and functions, with
the same friends, under a configuration that asks for less. -/
theorem declared_of_laxer {config config' : Config} (hlax : config'.Laxer config)
    {ds : List Declaration} {p : Program} (h : declared config ds = .ok p) :
    declared config' ds = .ok (p.withConfig config') := by
  obtain ⟨r, hr, hlink⟩ := bind_eq_ok_iff.mp h
  have hconfig : r.config = config := Registry.config_of_acceptAll hr
  have hr' := Registry.acceptAll_withConfig hlax hr
  have hlink' := Registry.link_withConfig (hconfig ▸ hlax) hlink
  exact bind_eq_ok_iff.mpr ⟨_, hr', hlink'⟩

theorem declared_withConfig {config config' : Config} (hmode : config'.mode = .passthrough)
    {ds : List Declaration} {p : Program} (h : declared config ds = .ok p) :
    declared config' ds = .ok (p.withConfig config') :=
  declared_of_laxer (Config.laxer_of_passthrough hmode config) h

end Program

end GuardedObjects
