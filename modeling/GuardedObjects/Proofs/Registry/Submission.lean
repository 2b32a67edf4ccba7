import GuardedObjects.Proofs.Class.Hierarchy
import GuardedObjects.Proofs.Registry.Declarations
import GuardedObjects.Session

/-!
# Submitting declarations

Whatever declarations are handed in and in whatever order, whether each is accepted or not, the
classes of the registry form a hierarchy.
-/

namespace GuardedObjects

theorem ClassDecl.shape_of_resolve {d : ClassDecl} {ancestors : List String} {c : ClassInfo}
    (h : d.resolve ancestors = .ok c) :
    c.name = d.name ∧ c.bases = d.bases ∧ c.ancestors = ancestors := by
  unfold ClassDecl.resolve at h
  simp only at h
  split at h
  · cases h
  · obtain ⟨attributes, -, h⟩ := bind_eq_ok_iff.mp h
    obtain ⟨methods, -, h⟩ := bind_eq_ok_iff.mp h
    cases h
    exact ⟨rfl, rfl, rfl⟩

namespace Registry

variable {r r' : Registry} {d : ClassDecl} {c : ClassInfo}

theorem map_find?_of_basesOf {bases : List ClassInfo} (h : r.basesOf d = .ok bases) :
    d.bases.map r.classes.find? = bases.map some := by
  have hmap : bases.map some = d.bases.map r.classes.find? := by
    refine map_eq_map_of_mapM_eq_ok ?_ h
    intro base b hb
    split at hb
    · rename_i c hc
      cases hb
      exact hc.symm
    · cases hb
  exact hmap.symm

/-- A class that is resolved has its declared name and bases, the bases are in the registry, and its
ancestors are a merge of their resolution orders. -/
theorem shape_of_resolve (h : r.resolve d = .ok c) :
    c.name = d.name ∧ c.bases = d.bases ∧ (∀ name ∈ d.bases, r.classes.contains name = true) ∧
      ancestorsOf (r.classes.select d.bases) = some c.ancestors := by
  obtain ⟨bases, ancestors, hbases, hmerge, h⟩ := resolve_eq_ok h
  obtain ⟨hname, hcbases, hcancestors⟩ := ClassDecl.shape_of_resolve h
  have hfind := map_find?_of_basesOf hbases
  have hselect : r.classes.select d.bases = bases := by
    have := congrArg (List.filterMap id) hfind
    simpa [List.filterMap_map, ClassTable.select] using this
  rw [hselect, hcancestors]
  refine ⟨hname, hcbases, ?_, hmerge⟩
  intro name hmem
  have hfound := List.mem_map_of_mem (f := r.classes.find?) hmem
  rw [hfind] at hfound
  obtain ⟨b, -, hb⟩ := List.mem_map.mp hfound
  rw [ClassTable.contains, ← hb]
  rfl

/-- The bases of a declared class were declared before, and its ancestors are a merge of their
resolution orders. -/
theorem ancestorsOf_of_declare (h : r.declare d = .ok (c, r')) :
    (∀ name ∈ c.bases, r.classes.contains name = true) ∧
      ancestorsOf (r.classes.select c.bases) = some c.ancestors := by
  obtain ⟨-, hc, -, -⟩ := declare_eq_ok_iff.mp h
  obtain ⟨-, hbases, hshape⟩ := shape_of_resolve hc
  rw [hbases]
  exact hshape

theorem name_of_declare (h : r.declare d = .ok (c, r')) : c.name = d.name := by
  obtain ⟨-, hc, -, -⟩ := declare_eq_ok_iff.mp h
  exact (shape_of_resolve hc).1

theorem fits_of_declare (h : r.declare d = .ok (c, r')) : r.classes.Fits c := by
  obtain ⟨hfresh, -, -, -⟩ := declare_eq_ok_iff.mp h
  obtain ⟨hbases, hmerge⟩ := ancestorsOf_of_declare h
  refine ⟨by rw [name_of_declare h]; exact hfresh, hbases, ?_⟩
  intro name hmem
  obtain ⟨order, horder, hin⟩ := Linearization.mem_of_mem_merge hmerge hmem
  rcases List.mem_append.mp horder with horder | horder
  · obtain ⟨b, hb, rfl⟩ := List.mem_map.mp horder
    exact ⟨b, hb, by simpa [ClassInfo.isSubclassOf] using hin⟩
  · rw [List.mem_singleton] at horder
    subst horder
    obtain ⟨b, hb, rfl⟩ := List.mem_map.mp hin
    exact ⟨b, hb, by simp [ClassInfo.isSubclassOf, ClassInfo.order]⟩

theorem merges_of_declare (h : r.declare d = .ok (c, r')) : r.classes.Merges c := by
  obtain ⟨-, hmerge⟩ := ancestorsOf_of_declare h
  refine ⟨Linearization.nodup_merge hmerge, ?_⟩
  intro b hb
  exact Linearization.sublist_merge hmerge (List.mem_append_left _ (List.mem_map_of_mem hb))

theorem Reachable.closed (h : r.Reachable) : r.classes.Closed := by
  induction h with
  | empty config => exact ⟨by simp [EmptyCollection.emptyCollection],
      by simp [EmptyCollection.emptyCollection], by simp [EmptyCollection.emptyCollection]⟩
  | declare _ hd ih =>
      have hfits := fits_of_declare hd
      obtain ⟨-, -, -, rfl⟩ := declare_eq_ok_iff.mp hd
      exact ih.push hfits
  | declareFunction _ hd ih =>
      obtain ⟨-, -, -, rfl⟩ := declareFunction_eq_ok_iff.mp hd
      exact ih

theorem Reachable.wellOrdered (h : r.Reachable) : r.classes.WellOrdered := by
  induction h with
  | empty config =>
      refine ⟨List.nodup_nil, ?_, ?_, nofun, nofun, nofun, nofun, nofun⟩
      · exact fun _ _ => ⟨nofun, nofun⟩
      · intro before c after h
        cases before <;> cases h
  | declare hr hd ih =>
      have hfits := fits_of_declare hd
      have hmerges := merges_of_declare hd
      obtain ⟨-, -, -, rfl⟩ := declare_eq_ok_iff.mp hd
      exact ih.push hr.closed hfits hmerges
  | declareFunction _ hd ih =>
      obtain ⟨-, -, -, rfl⟩ := declareFunction_eq_ok_iff.mp hd
      exact ih

/-- Hands a declaration in. One that is not accepted changes nothing. -/
def submit (r : Registry) (d : Declaration) : Registry := (r.accept d).toOption.getD r

def submitAll (r : Registry) (ds : List Declaration) : Registry := ds.foldl submit r

theorem Reachable.submit (hr : r.Reachable) (d : Declaration) : (r.submit d).Reachable := by
  rw [Registry.submit]
  cases hd : r.accept d with
  | error err => exact hr
  | ok r' => exact hr.accept hd

theorem Reachable.submitAll (hr : r.Reachable) (ds : List Declaration) :
    (r.submitAll ds).Reachable := by
  induction ds generalizing r with
  | nil => exact hr
  | cons d ds ih => exact ih (hr.submit d)

theorem config_submit (r : Registry) (d : Declaration) : (r.submit d).config = r.config := by
  rw [submit]
  cases hd : r.accept d with
  | error err => rfl
  | ok r' => exact config_of_accept hd

theorem config_submitAll (r : Registry) (ds : List Declaration) :
    (r.submitAll ds).config = r.config := by
  induction ds generalizing r with
  | nil => rfl
  | cons d ds ih => exact (ih (r.submit d)).trans (r.config_submit d)

end Registry

/-! ### Sessions -/

namespace Session

/-- Hands a declaration in. -/
def submit : Declaration → SessionM Unit
  | .cls d => do
    let _ ← declare d
    return
  | .function d => do
    let _ ← declareFunction d
    return

/-- The session once the declarations were handed in one after the other, each of them accepted or
not. -/
def after (s : Session) (ds : List Declaration) : Session :=
  ds.foldl (fun s d => ((submit d).run.run s).2) s

variable {s : Session} {r : Registry} {α β : Type}

theorem registry_bind_apply (h : s.stage = .declaring r) (f : Registry → SessionM α) :
    (registry >>= f).run.run s = (f r).run.run s := by
  obtain ⟨stage, world, vars⟩ := s
  subst h
  rfl

theorem ofDeclaration_bind_apply (x : Except DeclarationError α) (f : α → SessionM β)
    (s : Session) :
    (ofDeclaration x >>= f).run.run s =
      match x with
      | .error e => (.error (.declaration e), s)
      | .ok a => (f a).run.run s := by
  cases x <;> rfl

/-- A declaration that is accepted changes the registry, and one that is not changes nothing. -/
theorem submit_apply (h : s.stage = .declaring r) (d : Declaration) :
    (submit d).run.run s =
      match r.accept d with
      | .error e => (.error (.declaration e), s)
      | .ok r' => (.ok (), { s with stage := .declaring r' }) := by
  cases d with
  | cls d =>
      simp only [submit, declare, bind_assoc, registry_bind_apply h, ofDeclaration_bind_apply,
        Registry.accept]
      cases r.declare d <;> rfl
  | function d =>
      simp only [submit, declareFunction, bind_assoc, registry_bind_apply h,
        ofDeclaration_bind_apply, Registry.accept]
      cases r.declareFunction d <;> rfl

theorem stage_submit (hs : s.stage = .declaring r) (d : Declaration) :
    ((submit d).run.run s).2.stage = .declaring (r.submit d) := by
  rw [submit_apply hs, Registry.submit]
  cases r.accept d with
  | error e => exact hs
  | ok r' => rfl

theorem stage_after (hs : s.stage = .declaring r) (ds : List Declaration) :
    (s.after ds).stage = .declaring (r.submitAll ds) := by
  induction ds generalizing s r with
  | nil => exact hs
  | cons d ds ih => exact ih (stage_submit hs d)

theorem exists_reachable_after (hs : s.stage = .declaring r) (hr : r.Reachable)
    (ds : List Declaration) :
    ∃ r', (s.after ds).stage = .declaring r' ∧ r'.Reachable :=
  ⟨r.submitAll ds, stage_after hs ds, hr.submitAll ds⟩

/-- Whatever was declared before, the classes of a session are well ordered, and a declaration that
is rejected leaves the session as it was. -/
theorem declarations_ordered (config : Config) (ds : List Declaration) :
    ∃ r, ((start config).after ds).stage = .declaring r ∧ r.classes.WellOrdered ∧
      ∀ d e s', (submit d).run.run ((start config).after ds) = (.error e, s') →
        s' = (start config).after ds := by
  obtain ⟨r, hs, hr⟩ := exists_reachable_after (s := start config) rfl (.empty config) ds
  refine ⟨r, hs, hr.wellOrdered, ?_⟩
  intro d e s' h
  rw [submit_apply hs] at h
  split at h
  · cases h
    rfl
  · cases h

end Session

/-! ### Walking robots -/

namespace Registry

def moveDecl (markers : Markers) : CallableDecl where
  returns := some (.type .noValue)
  markers := markers
  body := some fun _ => .done (.ok .none)

/-- Robots walk before they run. A drone moves in another way, which a walker lets it do and a
runner does not. -/
def robotDecls : List Declaration :=
  [.cls (({ name := "Walker" : ClassDecl }).method "move" (moveDecl { isVirtual := true })),
    .cls (({ name := "Runner" : ClassDecl }).method "move" (moveDecl ∅)),
    .cls ((({ name := "Robot" : ClassDecl }).extend "Walker").extend "Runner"),
    .cls ((({ name := "Drone" : ClassDecl }).extend "Robot").method "move"
      (moveDecl { isOverride := true }))]

/-- The walker that a mech is would stand before and behind the robot that it is. -/
def mechDecl : ClassDecl := (({ name := "Mech" : ClassDecl }).extend "Walker").extend "Robot"

/-- A mech is declared before there are robots, and again among them. -/
def mixedDecls : List Declaration :=
  .cls mechDecl :: robotDecls.take 3 ++ .cls mechDecl :: robotDecls.drop 3

def mixed : Registry := ({} : Registry).submitAll mixedDecls

end Registry

namespace Session

/-- The mech is rejected each time. The drone stands behind the robot, and has its ancestors in its
order. -/
theorem declarations_ordered_robots : ∃ robot drone,
    ((start {}).after Registry.mixedDecls).stage = .declaring Registry.mixed ∧
      Registry.mixed.classes.classes.map ClassInfo.name = ["Walker", "Runner", "Robot", "Drone"] ∧
      Registry.mixed.classes.find? "Robot" = some robot ∧
      Registry.mixed.classes.find? "Drone" = some drone ∧
      drone.order = ["Drone", "Robot", "Walker", "Runner"] ∧
      (∃ before after, Registry.mixed.classes.classes = before ++ drone :: after ∧
        robot ∈ before) ∧
      robot.ancestors ⊆ drone.ancestors ∧ robot.order.Sublist drone.order ∧
      ∃ e, (submit (.cls Registry.mechDecl)).run.run ((start {}).after Registry.mixedDecls) =
        (.error e, (start {}).after Registry.mixedDecls) := by
  have hstage : ((start {}).after Registry.mixedDecls).stage = .declaring Registry.mixed :=
    stage_after rfl Registry.mixedDecls
  obtain ⟨r, hs, hordered, hkept⟩ := declarations_ordered {} Registry.mixedDecls
  cases hs.symm.trans hstage
  have hnames : Registry.mixed.classes.classes.map ClassInfo.name =
      ["Walker", "Runner", "Robot", "Drone"] := by cbv
  have hrobot : (Registry.mixed.classes.find? "Robot").isSome = true := by cbv
  have hdrone : (Registry.mixed.classes.find? "Drone").any (fun drone =>
      drone.order == ["Drone", "Robot", "Walker", "Runner"]) = true := by cbv
  have hmech : ((submit (.cls Registry.mechDecl)).run.run
      ((start {}).after Registry.mixedDecls)).1.isOk = false := by cbv
  obtain ⟨robot, hrobot⟩ := Option.isSome_iff_exists.mp hrobot
  obtain ⟨drone, hdrone, horder⟩ := (Option.any_eq_true _ _).mp hdrone
  have horder := eq_of_beq horder
  obtain ⟨hmem, -⟩ := (hordered.find?_iff _ _).mp hdrone
  have hancestor : "Robot" ∈ drone.ancestors := by
    have htail : drone.ancestors = ["Robot", "Walker", "Runner"] := (List.cons.inj horder).2
    rw [htail]
    exact List.mem_cons_self
  have hselected : robot ∈ Registry.mixed.classes.select drone.ancestors :=
    List.mem_filterMap.mpr ⟨"Robot", hancestor, hrobot⟩
  have hclosed := hordered.transitive drone hmem robot hselected
  have hmonotone := hordered.monotone drone hmem robot hselected
  refine ⟨robot, drone, hstage, hnames, hrobot, hdrone, horder, ?_, hclosed, hmonotone, ?_⟩
  · obtain ⟨before, after, hsplit⟩ := List.append_of_mem hmem
    obtain ⟨k, hk, hfind⟩ := hordered.earlier before drone after hsplit "Robot"
      (List.mem_append_right _ hancestor)
    cases hrobot.symm.trans hfind
    exact ⟨before, after, hsplit, hk⟩
  · rcases h : (submit (.cls Registry.mechDecl)).run.run ((start {}).after Registry.mixedDecls) with
      ⟨e | _, s'⟩
    · rw [hkept (.cls Registry.mechDecl) e s' h]
      exact ⟨e, rfl⟩
    · rw [h] at hmech
      cases hmech

end Session

end GuardedObjects
