import Mathlib.Data.List.Forall2

/-!
# Results and errors

Where a composed computation gives a result, every part of it does, and where it fails, one part
does.
-/

namespace GuardedObjects

variable {ε ε' α β γ : Type}

@[simp] theorem ok_bind (a : α) (f : α → Except ε β) : (.ok a : Except ε α) >>= f = f a := rfl

theorem bind_eq_ok_iff {x : Except ε α} {f : α → Except ε β} {b : β} :
    x >>= f = .ok b ↔ ∃ a, x = .ok a ∧ f a = .ok b := by
  cases x with
  | error e => simp [bind, Except.bind]
  | ok a => simp [bind, Except.bind]

theorem bind_eq_error_iff {x : Except ε α} {f : α → Except ε β} {e : ε} :
    x >>= f = .error e ↔ x = .error e ∨ ∃ a, x = .ok a ∧ f a = .error e := by
  cases x with
  | error e' => simp [bind, Except.bind]
  | ok a => simp [bind, Except.bind]

theorem exists_eq_ok_of_isOk {x : Except ε α} (h : x.isOk = true) : ∃ a, x = .ok a := by
  cases x with
  | error e => cases h
  | ok a => exact ⟨a, rfl⟩

theorem eq_ok_of_isOk {x : Except ε α} (h : x.isOk = true) (a : α) :
    x = .ok (x.toOption.getD a) := by
  obtain ⟨b, rfl⟩ := exists_eq_ok_of_isOk h
  rfl

theorem toOption_eq_some_iff {x : Except ε α} {a : α} : x.toOption = some a ↔ x = .ok a := by
  constructor
  · intro h
    cases x with
    | error e => cases h
    | ok b =>
        cases h
        rfl
  · rintro rfl
    rfl

theorem map_eq_ok_iff {f : α → β} {x : Except ε α} {b : β} :
    f <$> x = .ok b ↔ ∃ a, x = .ok a ∧ f a = b := by
  cases x with
  | error e => simp [Functor.map, Except.map]
  | ok a => simp [Functor.map, Except.map]

theorem map_eq_error_iff {f : α → β} {x : Except ε α} {e : ε} :
    f <$> x = .error e ↔ x = .error e := by
  cases x with
  | error e' => simp [Functor.map, Except.map]
  | ok a => simp [Functor.map, Except.map]

theorem mapError_eq_ok_iff {x : Except ε α} {f : ε → ε'} {a : α} :
    x.mapError f = .ok a ↔ x = .ok a := by
  cases x with
  | error e => constructor <;> intro h <;> cases h
  | ok b => constructor <;> intro h <;> cases h <;> rfl

theorem mapError_eq_error_iff {x : Except ε α} {f : ε → ε'} {e : ε'} :
    x.mapError f = .error e ↔ ∃ e', x = .error e' ∧ f e' = e := by
  constructor
  · intro h
    cases x with
    | error e' => exact ⟨e', rfl, Except.error.inj h⟩
    | ok a => cases h
  · rintro ⟨e', rfl, rfl⟩
    rfl

theorem map_eq_map_of_mapM_eq_ok {f : α → Except ε β} {g : α → γ} {g' : β → γ}
    (hf : ∀ {a b}, f a = .ok b → g' b = g a) {l : List α} {r : List β} (h : l.mapM f = .ok r) :
    r.map g' = l.map g := by
  induction l generalizing r with
  | nil =>
      cases h
      rfl
  | cons a l ih =>
      rw [List.mapM_cons] at h
      obtain ⟨b, hb, h⟩ := bind_eq_ok_iff.mp h
      obtain ⟨bs, hbs, h⟩ := bind_eq_ok_iff.mp h
      cases h
      rw [List.map_cons, List.map_cons, hf hb, ih hbs]

/-- What the lists hold together that the items of a list give. -/
theorem mem_flatten_of_mapM {f : α → Except ε (List β)} {P : α → β → Prop}
    (hf : ∀ a bs, f a = .ok bs → ∀ b, b ∈ bs ↔ P a b) {l : List α} {r : List (List β)}
    (h : l.mapM f = .ok r) {b : β} : b ∈ r.flatten ↔ ∃ a ∈ l, P a b := by
  induction l generalizing r with
  | nil =>
      cases h
      simp
  | cons a l ih =>
      rw [List.mapM_cons] at h
      obtain ⟨bs, hbs, h⟩ := bind_eq_ok_iff.mp h
      obtain ⟨rest, hrest, h⟩ := bind_eq_ok_iff.mp h
      cases h
      rw [List.flatten_cons, List.mem_append, hf a bs hbs, ih hrest]
      simp

/-- A step that has a counterpart wherever it succeeds takes a list to the counterparts of its
results. -/
theorem mapM_map {f : α → Except ε β} {g : α → Except ε γ} {t : β → γ} {l : List α}
    (hfg : ∀ {a b}, f a = .ok b → g a = .ok (t b)) {bs : List β} (h : l.mapM f = .ok bs) :
    l.mapM g = .ok (bs.map t) := by
  induction l generalizing bs with
  | nil =>
      cases h
      rfl
  | cons a l ih =>
      rw [List.mapM_cons] at h ⊢
      obtain ⟨b, hb, h⟩ := bind_eq_ok_iff.mp h
      obtain ⟨bs', hbs, h⟩ := bind_eq_ok_iff.mp h
      cases h
      rw [hfg hb, ok_bind, ih hbs]
      rfl

theorem mapM_congr {f g : α → Except ε β} {l : List α} (h : ∀ a ∈ l, f a = g a) :
    l.mapM f = l.mapM g := by
  induction l with
  | nil => rfl
  | cons a l ih =>
      rw [List.forall_mem_cons] at h
      rw [List.mapM_cons, List.mapM_cons, h.1, ih h.2]

theorem mapM_mono {f g : α → Except ε β} {l : List α}
    (hfg : ∀ {a b}, f a = .ok b → g a = .ok b) {bs : List β} (h : l.mapM f = .ok bs) :
    l.mapM g = .ok bs := by
  simpa using mapM_map (t := id) hfg h

/-- Where two steps relate their results, they relate those of a list item by item. -/
theorem forall₂_of_mapM_of_mapM {R : β → γ → Prop} {f : α → Except ε β} {g : α → Except ε γ}
    {l : List α} (hR : ∀ a ∈ l, ∀ b c, f a = .ok b → g a = .ok c → R b c) {bs : List β}
    {cs : List γ} (hf : l.mapM f = .ok bs) (hg : l.mapM g = .ok cs) : List.Forall₂ R bs cs := by
  induction l generalizing bs cs with
  | nil =>
      cases hf
      cases hg
      exact .nil
  | cons a l ih =>
      rw [List.forall_mem_cons] at hR
      rw [List.mapM_cons] at hf hg
      obtain ⟨b, hb, hf⟩ := bind_eq_ok_iff.mp hf
      obtain ⟨bs, hbs, hf⟩ := bind_eq_ok_iff.mp hf
      obtain ⟨c, hc, hg⟩ := bind_eq_ok_iff.mp hg
      obtain ⟨cs, hcs, hg⟩ := bind_eq_ok_iff.mp hg
      cases hf
      cases hg
      exact .cons (hR.1 b c hb hc) (ih hR.2 hbs hcs)

theorem forall₂_of_mapM_eq_ok {R : α → β → Prop} {f : α → Except ε β} {l : List α}
    (hR : ∀ a ∈ l, ∀ b, f a = .ok b → R a b) {bs : List β} (h : l.mapM f = .ok bs) :
    List.Forall₂ R l bs := by
  have hl : l.mapM (fun a => (pure a : Except ε α)) = .ok l := by
    rw [List.mapM_pure, List.map_id']
    rfl
  refine forall₂_of_mapM_of_mapM ?_ hl h
  intro a ha _ b hself hb
  cases hself
  exact hR a ha b hb

theorem exists_mapM_eq_ok_iff {f : α → Except ε β} {l : List α} :
    (∃ bs, l.mapM f = .ok bs) ↔ ∀ a ∈ l, ∃ b, f a = .ok b := by
  induction l with
  | nil => exact ⟨fun _ => nofun, fun _ => ⟨[], rfl⟩⟩
  | cons a l ih =>
      rw [List.forall_mem_cons, ← ih, List.mapM_cons]
      constructor
      · rintro ⟨bs, h⟩
        obtain ⟨b, hb, h⟩ := bind_eq_ok_iff.mp h
        obtain ⟨bs', hbs, -⟩ := bind_eq_ok_iff.mp h
        exact ⟨⟨b, hb⟩, bs', hbs⟩
      · rintro ⟨⟨b, hb⟩, bs, hbs⟩
        exact ⟨b :: bs, by rw [hb, ok_bind, hbs]; rfl⟩

/-- A step that has a counterpart wherever it succeeds takes a fold to the counterpart of its
result. -/
theorem foldlM_map {f : β → α → Except ε β} {g : γ → α → Except ε γ} {t : β → γ}
    (hstep : ∀ {b a b'}, f b a = .ok b' → g (t b) a = .ok (t b')) {l : List α} {b b' : β}
    (h : l.foldlM f b = .ok b') : l.foldlM g (t b) = .ok (t b') := by
  induction l generalizing b with
  | nil =>
      cases h
      rfl
  | cons a l ih =>
      rw [List.foldlM_cons] at h ⊢
      obtain ⟨b₁, hb₁, h⟩ := bind_eq_ok_iff.mp h
      have hg := hstep hb₁
      rw [hg, ok_bind]
      exact ih h

/-- Where the accumulator does not decide whether a step succeeds, a fold does if all steps do. -/
theorem exists_foldlM_eq_ok_iff {f : β → α → Except ε β} {P : α → Prop}
    (hf : ∀ b a, (∃ b', f b a = .ok b') ↔ P a) {l : List α} {b : β} :
    (∃ b', l.foldlM f b = .ok b') ↔ ∀ a ∈ l, P a := by
  induction l generalizing b with
  | nil => exact ⟨fun _ => nofun, fun _ => ⟨b, rfl⟩⟩
  | cons a l ih =>
      rw [List.forall_mem_cons, List.foldlM_cons]
      constructor
      · rintro ⟨b', h⟩
        obtain ⟨b₁, hb₁, h⟩ := bind_eq_ok_iff.mp h
        exact ⟨(hf b a).mp ⟨b₁, hb₁⟩, ih.mp ⟨b', h⟩⟩
      · rintro ⟨ha, hl⟩
        obtain ⟨b₁, hb₁⟩ := (hf b a).mpr ha
        rw [hb₁, ok_bind]
        exact ih.mpr hl

/-- What every step of a fold keeps holds of its result. -/
theorem foldlM_invariant {f : β → α → Except ε β} {I : β → Prop} {l : List α}
    (hstep : ∀ {b a b'}, a ∈ l → I b → f b a = .ok b' → I b') {b b' : β} (hb : I b)
    (h : l.foldlM f b = .ok b') : I b' := by
  induction l generalizing b with
  | nil =>
      cases h
      exact hb
  | cons a l ih =>
      rw [List.foldlM_cons] at h
      obtain ⟨b₁, hb₁, h⟩ := bind_eq_ok_iff.mp h
      exact ih (fun ha => hstep (List.mem_cons_of_mem _ ha)) (hstep (by simp) hb hb₁) h

end GuardedObjects
