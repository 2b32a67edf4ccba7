import GuardedObjects.Declaration.Resolution
import GuardedObjects.Proofs.Except

/-!
# Signatures

What a parameter list is checked for: the names differ, at most one parameter takes the positional
arguments that are left over, and nothing stands behind one that takes the keyword arguments that
are left over.
-/

namespace GuardedObjects

def ParamDecl.heading (x : ParamDecl) : String × ParamKind := (x.name, x.kind)

def Param.heading (x : Param) : String × ParamKind := (x.name, x.kind)

/-- What a parameter has to be like in view of one that stands behind it. -/
structure MayPrecede (x y : String × ParamKind) : Prop where
  name_ne : x.1 ≠ y.1
  not_keywords : x.2 ≠ .keywords
  once : x.2 = .positionals → y.2 ≠ .positionals

def IsSignature (headings : List (String × ParamKind)) : Prop := headings.Pairwise MayPrecede

namespace SignatureProblem

theorem of?_eq_none_iff {earlier : List ParamDecl} {x : ParamDecl} :
    of? earlier x = none ↔ ∀ y ∈ earlier, MayPrecede y.heading x.heading := by
  have hany {P : ParamDecl → Prop} [DecidablePred P] :
      earlier.any (fun y => P y) = true ↔ ∃ y ∈ earlier, P y := by
    simp
  rw [of?]
  constructor
  · intro h y hy
    split at h
    · cases h
    · rename_i hname
      split at h
      · cases h
      · rename_i hkeywords
        split at h
        · cases h
        · rename_i honce
          rw [hany] at hname hkeywords
          rw [Bool.and_eq_true, decide_eq_true_eq, hany] at honce
          exact ⟨fun heq => hname ⟨y, hy, heq⟩, fun heq => hkeywords ⟨y, hy, heq⟩,
            fun hfirst hsecond => honce ⟨hsecond, y, hy, hfirst⟩⟩
  · intro h
    rw [if_neg, if_neg, if_neg]
    · rw [Bool.and_eq_true, decide_eq_true_eq, hany]
      rintro ⟨hsecond, y, hy, hfirst⟩
      exact (h y hy).once hfirst hsecond
    · rw [hany]
      rintro ⟨y, hy, heq⟩
      exact (h y hy).not_keywords heq
    · rw [hany]
      rintro ⟨y, hy, heq⟩
      exact (h y hy).name_ne heq

theorem go_eq_none_iff {earlier params : List ParamDecl} :
    first?.go earlier params = none ↔ IsSignature (params.map ParamDecl.heading) ∧
      ∀ y ∈ earlier, ∀ x ∈ params, MayPrecede y.heading x.heading := by
  induction params generalizing earlier with
  | nil => simp [first?.go, IsSignature]
  | cons x params ih =>
      rw [first?.go, Option.or_eq_none_iff, of?_eq_none_iff, ih, IsSignature, IsSignature,
        List.map_cons, List.pairwise_cons, List.forall_mem_map]
      simp only [List.forall_mem_cons, forall_and]
      constructor
      · rintro ⟨hx, hrest, hnew, hold⟩
        exact ⟨⟨hnew, hrest⟩, hx, hold⟩
      · rintro ⟨⟨hnew, hrest⟩, hx, hold⟩
        exact ⟨hx, hrest, hnew, hold⟩

/-- Nothing is wrong with a parameter list if and only if it is a signature. -/
theorem first?_eq_none_iff {params : List ParamDecl} :
    first? params = none ↔ IsSignature (params.map ParamDecl.heading) := by
  rw [first?, go_eq_none_iff]
  simp

end SignatureProblem

theorem ParamDecl.heading_of_resolve {x : ParamDecl} {callable : String} {y : Param}
    (h : x.resolve callable = .ok y) : y.heading = x.heading := by
  obtain ⟨type, -, h⟩ := bind_eq_ok_iff.mp h
  cases h
  rfl

/-- Parameters keep their names and kinds when their types are read. -/
theorem isSignature_of_resolve {decls : List ParamDecl} {callable : String} {params : List Param}
    (hdecls : SignatureProblem.first? decls = none)
    (h : decls.mapM (fun x => x.resolve callable) = .ok params) :
    IsSignature (params.map Param.heading) := by
  rw [map_eq_map_of_mapM_eq_ok ParamDecl.heading_of_resolve h]
  exact SignatureProblem.first?_eq_none_iff.mp hdecls

namespace IsSignature

variable {params : List Param} {x : Param}

theorem nodup_names (h : IsSignature (params.map Param.heading)) :
    (params.map Param.name).Nodup := by
  rw [IsSignature, List.pairwise_map] at h
  rw [List.Nodup, List.pairwise_map]
  exact h.imp MayPrecede.name_ne

/-- No two collectors of a signature are of one kind. -/
theorem collector_once (h : IsSignature (params.map Param.heading)) (kind : ParamKind)
    (hkind : kind.isCollector = true) :
    params.Pairwise fun x y => x.kind = kind → y.kind ≠ kind := by
  rw [IsSignature, List.pairwise_map] at h
  refine h.imp fun {x y} hxy => ?_
  cases kind with
  | regular => cases hkind
  | positionals => exact hxy.once
  | keywords => exact fun hx => absurd hx hxy.not_keywords

end IsSignature

/-- What packing a parcel takes: an item and how many of it, more items, whether it is urgent, and
labels. -/
def parcelDecls : List ParamDecl :=
  [{ name := "item" },
    { name := "count", default := some (.int 1) },
    { name := "rest", kind := .positionals },
    { name := "urgent", default := some (.bool false) },
    { name := "labels", kind := .keywords }]

def parcelParams : List Param :=
  [{ name := "item" },
    { name := "count", default := some (.int 1) },
    { name := "rest", kind := .positionals },
    { name := "urgent", default := some (.bool false) },
    { name := "labels", kind := .keywords }]

theorem first?_parcelDecls : SignatureProblem.first? parcelDecls = none := by decide

theorem resolve_parcelDecls :
    parcelDecls.mapM (fun x => x.resolve "Post.pack") = .ok parcelParams := rfl

end GuardedObjects
