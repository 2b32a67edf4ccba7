import GuardedObjects.Annotation.Parser
import GuardedObjects.Proofs.Except

/-!
# Texts and their tokens

A text spells a token sequence if it consists of the texts of the tokens, with spaces between them
at will, and no identifier runs into an identifier character. It lays the tokens where they stand in
it. The scan finds the tokens that a text spells, at the offsets at which it lays them, and no
others.
-/

namespace GuardedObjects

/-- The name of an identifier has the form of one. -/
def Token.WellFormed : Token → Prop
  | .ident name => isIdentifier name.toList = true
  | _ => True

/-- No identifier that stands before the text goes on with it. -/
def EndsIdent (s : List Char) : Prop := ∀ c ∈ s.head?, isIdentPart c = false

theorem endsIdent_nil : EndsIdent [] := nofun

theorem endsIdent_cons {c : Char} {s : List Char} (hc : isIdentPart c = false) :
    EndsIdent (c :: s) := by
  rintro c' ⟨⟩
  exact hc

inductive Spells : List Char → List Token → Prop where
  | nil : Spells [] []
  | space {c : Char} {s : List Char} {ts : List Token} (hc : Lexeme.isSpace c = true)
      (h : Spells s ts) : Spells (c :: s) ts
  | token {t : Token} {s : List Char} {ts : List Token} (hform : t.WellFormed)
      (hends : ∀ name, t = .ident name → EndsIdent s) (h : Spells s ts) :
      Spells (t.text.toList ++ s) (t :: ts)

/-! ### The first token -/

section

variable {s rest : List Char} {t : Token} {offset : Nat}

theorem isSpace_of_isIdentStart {c : Char} (h : isIdentStart c = true) :
    Lexeme.isSpace c = false := by
  rw [Bool.eq_false_iff]
  intro hspace
  simp only [Lexeme.isSpace, Bool.or_eq_true, decide_eq_true_eq] at hspace
  rcases hspace with ((rfl | rfl) | rfl) | rfl <;> exact absurd h (by decide)

/-- A token begins with no space. -/
theorem Token.WellFormed.exists_text (h : t.WellFormed) :
    ∃ c cs, t.text.toList = c :: cs ∧ Lexeme.isSpace c = false := by
  cases t with
  | ident name =>
      change isIdentifier name.toList = true at h
      change ∃ c cs, name.toList = c :: cs ∧ _
      cases hname : name.toList with
      | nil => simp [hname, isIdentifier] at h
      | cons c cs =>
          simp only [hname, isIdentifier, Bool.and_eq_true] at h
          exact ⟨c, cs, rfl, isSpace_of_isIdentStart h.1⟩
  | openBracket => exact ⟨_, _, rfl, by decide⟩
  | closeBracket => exact ⟨_, _, rfl, by decide⟩
  | comma => exact ⟨_, _, rfl, by decide⟩
  | pipe => exact ⟨_, _, rfl, by decide⟩
  | ellipsis => exact ⟨_, _, rfl, by decide⟩

theorem isIdentifier_append {name more : List Char} (h : isIdentifier name = true)
    (hmore : more.all isIdentPart = true) : isIdentifier (name ++ more) = true := by
  cases name with
  | nil => simp [isIdentifier] at h
  | cons c cs =>
      simp only [isIdentifier, List.cons_append, Bool.and_eq_true, List.all_append] at h ⊢
      exact ⟨h.1, h.2, hmore⟩

theorem first?_ident {name : String} (hname : isIdentifier name.toList = true) (hs : EndsIdent s) :
    Lexeme.first? (name.toList ++ s) = some (.ident name, s) := by
  cases hcs : name.toList with
  | nil => simp [hcs, isIdentifier] at hname
  | cons c cs =>
      simp only [hcs, isIdentifier, Bool.and_eq_true, List.all_eq_true] at hname
      obtain ⟨hc, hpart⟩ := hname
      have htake : (cs ++ s).takeWhile isIdentPart = cs := by
        rw [List.takeWhile_append_of_pos hpart]
        cases s with
        | nil => simp
        | cons d s => simp [hs d rfl]
      have hdrop : (cs ++ s).dropWhile isIdentPart = s := by
        rw [List.dropWhile_append_of_pos hpart]
        cases s with
        | nil => rfl
        | cons d s => simp [hs d rfl]
      rw [List.cons_append]
      unfold Lexeme.first?
      split
      case h_6 heq =>
        cases heq
        rw [if_pos hc, htake, hdrop, ← hcs, String.ofList_toList]
      case h_7 heq => cases heq
      -- The other tokens begin with characters that begin no identifier.
      all_goals
        next heq =>
          obtain ⟨rfl, -⟩ := List.cons.inj heq
          exact absurd hc (by decide)

theorem first?_text_append (hform : t.WellFormed) (hends : ∀ name, t = .ident name → EndsIdent s) :
    Lexeme.first? (t.text.toList ++ s) = some (t, s) := by
  cases t with
  | ident name => exact first?_ident hform (hends name rfl)
  | openBracket => rfl
  | closeBracket => rfl
  | comma => rfl
  | pipe => rfl
  | ellipsis => rfl

theorem endsIdent_dropWhile (s : List Char) : EndsIdent (s.dropWhile isIdentPart) := by
  intro c hc
  have hhead := List.head?_dropWhile_not isIdentPart s
  rw [Option.mem_def.mp hc] at hhead
  exact hhead

theorem of_first? (h : Lexeme.first? s = some (t, rest)) :
    t.WellFormed ∧ (∀ name, t = .ident name → EndsIdent rest) ∧ s = t.text.toList ++ rest := by
  unfold Lexeme.first? at h
  split at h
  case h_6 c cs _ _ _ _ _ =>
    split at h
    next hc =>
      cases h
      refine ⟨by simp [Token.WellFormed, isIdentifier, hc], fun _ _ => endsIdent_dropWhile cs, ?_⟩
      simp [Token.text]
    · cases h
  all_goals cases h
  all_goals
    refine ⟨trivial, ?_, rfl⟩
    intro name ht
    cases ht

theorem first?_eq_some_iff : Lexeme.first? s = some (t, rest) ↔
    t.WellFormed ∧ (∀ name, t = .ident name → EndsIdent rest) ∧ s = t.text.toList ++ rest := by
  constructor
  · exact of_first?
  · rintro ⟨hform, hends, rfl⟩
    exact first?_text_append hform hends

/-- Where the text of a token stands, a token is found, and it is at least as long. -/
theorem exists_first?_of_text (hform : t.WellFormed) (s : List Char) :
    ∃ t' rest, Lexeme.first? (t.text.toList ++ s) = some (t', rest) ∧ rest.length ≤ s.length := by
  by_cases hident : ∃ name, t = .ident name
  · obtain ⟨name, rfl⟩ := hident
    -- The identifier may go on behind the name, and what is found is all of it.
    have hlong : isIdentifier (String.ofList (name.toList ++ s.takeWhile isIdentPart)).toList =
        true := by
      rw [String.toList_ofList]
      exact isIdentifier_append hform List.all_takeWhile
    have hfound := first?_ident hlong (endsIdent_dropWhile s)
    rw [String.toList_ofList, List.append_assoc, List.takeWhile_append_dropWhile] at hfound
    exact ⟨_, _, hfound, Lexeme.length_dropWhile_le isIdentPart s⟩
  · have hfound := first?_text_append (s := s) hform (fun name ht => absurd ⟨name, ht⟩ hident)
    exact ⟨t, s, hfound, Nat.le_refl _⟩

/-- No token is found only where the text of no token stands. -/
theorem first?_eq_none_iff :
    Lexeme.first? s = none ↔ ∀ t : Token, t.WellFormed → ¬ t.text.toList <+: s := by
  constructor
  · rintro hnone t hform ⟨rest, rfl⟩
    obtain ⟨t', rest', hfound, -⟩ := exists_first?_of_text hform rest
    exact nomatch hnone.symm.trans hfound
  · intro h
    cases hfirst : Lexeme.first? s with
    | none => rfl
    | some found =>
        obtain ⟨hform, -, hs⟩ := of_first? hfirst
        exact absurd ⟨_, hs.symm⟩ (h _ hform)

end

/-! ### The whole text -/

theorem scan_of_first? {s rest : List Char} {t : Token} (h : Lexeme.first? s = some (t, rest))
    (hspace : ∀ c ∈ s.head?, Lexeme.isSpace c = false) (offset : Nat) :
    Lexeme.scan offset s =
      (⟨t, offset⟩ :: ·) <$> Lexeme.scan (offset + t.text.utf8ByteSize) rest := by
  cases s with
  | nil => cases h
  | cons c s =>
      rw [Lexeme.scan, if_neg (by simp [hspace c rfl])]
      split
      next hnone => cases h.symm.trans hnone
      next hsome =>
        cases h.symm.trans hsome
        rfl

theorem scan_of_first?_eq_none {c : Char} {s : List Char} (h : Lexeme.first? (c :: s) = none)
    (hc : Lexeme.isSpace c = false) (offset : Nat) :
    Lexeme.scan offset (c :: s) = .error offset := by
  rw [Lexeme.scan, if_neg (by simp [hc])]
  split
  next => rfl
  next hsome => cases h.symm.trans hsome

/-- The text, whose first character stands at an offset, consists of these tokens, each at its place,
with spaces between them at will. -/
inductive Lays : Nat → List Char → List Lexeme → Prop where
  | nil {offset : Nat} : Lays offset [] []
  | space {offset : Nat} {c : Char} {s : List Char} {tokens : List Lexeme}
      (hc : Lexeme.isSpace c = true) (h : Lays (offset + c.utf8Size) s tokens) :
      Lays offset (c :: s) tokens
  | token {offset : Nat} {t : Token} {s : List Char} {tokens : List Lexeme} (hform : t.WellFormed)
      (hends : ∀ name, t = .ident name → EndsIdent s)
      (h : Lays (offset + t.text.utf8ByteSize) s tokens) :
      Lays offset (t.text.toList ++ s) (⟨t, offset⟩ :: tokens)

theorem lays_of_scan {offset : Nat} {s : List Char} {tokens : List Lexeme}
    (h : Lexeme.scan offset s = .ok tokens) : Lays offset s tokens := by
  induction offset, s using Lexeme.scan.induct generalizing tokens with
  | case1 offset =>
      rw [Lexeme.scan] at h
      cases h
      exact .nil
  | case2 offset c s hc ih =>
      rw [Lexeme.scan, if_pos hc] at h
      exact .space hc (ih h)
  | case3 offset c s hc hnone =>
      rw [scan_of_first?_eq_none hnone (by simpa using hc)] at h
      cases h
  | case4 offset c s hc t rest hsome _ ih =>
      rw [scan_of_first? hsome (by simpa using hc)] at h
      obtain ⟨tokens, hscan, rfl⟩ := map_eq_ok_iff.mp h
      obtain ⟨hform, hends, hs⟩ := first?_eq_some_iff.mp hsome
      rw [hs]
      exact .token hform hends (ih hscan)

theorem Lays.scan {offset : Nat} {s : List Char} {tokens : List Lexeme}
    (h : Lays offset s tokens) : Lexeme.scan offset s = .ok tokens := by
  induction h with
  | nil => rw [Lexeme.scan]
  | space hc _ ih => rw [Lexeme.scan, if_pos hc, ih]
  | token hform hends _ ih =>
      obtain ⟨c, cs, htext, hc⟩ := hform.exists_text
      rw [scan_of_first? (first?_text_append hform hends), ih]
      · rfl
      · rw [htext]
        rintro c' ⟨⟩
        exact hc

/-- The scan finds exactly the tokens that the text consists of, each at its place. -/
theorem scan_eq_ok_iff {offset : Nat} {s : List Char} {tokens : List Lexeme} :
    Lexeme.scan offset s = .ok tokens ↔ Lays offset s tokens :=
  ⟨lays_of_scan, Lays.scan⟩

theorem Lays.spells {offset : Nat} {s : List Char} {tokens : List Lexeme}
    (h : Lays offset s tokens) : Spells s (tokens.map Lexeme.token) := by
  induction h with
  | nil => exact .nil
  | space hc _ ih => exact .space hc ih
  | token hform hends _ ih => exact .token hform hends ih

theorem Spells.exists_lays {s : List Char} {ts : List Token} (h : Spells s ts) (offset : Nat) :
    ∃ tokens, Lays offset s tokens ∧ tokens.map Lexeme.token = ts := by
  induction h generalizing offset with
  | nil => exact ⟨[], .nil, rfl⟩
  | space hc _ ih =>
      obtain ⟨tokens, hlays, htokens⟩ := ih _
      exact ⟨tokens, .space hc hlays, htokens⟩
  | token hform hends _ ih =>
      obtain ⟨tokens, hlays, rfl⟩ := ih _
      exact ⟨_, .token hform hends hlays, rfl⟩

theorem Spells.wellFormed {s : List Char} {ts : List Token} (h : Spells s ts) :
    ∀ t ∈ ts, t.WellFormed := by
  induction h with
  | nil => exact nofun
  | space _ _ ih => exact ih
  | token hform _ _ ih => exact List.forall_mem_cons.mpr ⟨hform, ih⟩

theorem tokenize_eq_ok_iff {source : String} {tokens : List Lexeme} :
    Ty.tokenize source = .ok tokens ↔ Lays 0 source.toList tokens := by
  rw [← scan_eq_ok_iff, Ty.tokenize]
  cases Lexeme.scan 0 source.toList with
  | ok found => simp
  | error offset => exact ⟨nofun, nofun⟩

theorem tokenize_of_spells {source : String} {ts : List Token} (h : Spells source.toList ts) :
    ∃ tokens, Ty.tokenize source = .ok tokens ∧ tokens.map Lexeme.token = ts := by
  obtain ⟨tokens, hlays, htokens⟩ := h.exists_lays 0
  exact ⟨tokens, tokenize_eq_ok_iff.mpr hlays, htokens⟩

/-- Every token that is found has the form of its kind. -/
theorem wellFormed_of_tokenize {source : String} {tokens : List Lexeme}
    (h : Ty.tokenize source = .ok tokens) : ∀ l ∈ tokens, l.token.WellFormed := by
  have hform := (tokenize_eq_ok_iff.mp h).spells.wellFormed
  exact fun l hl => hform l.token (List.mem_map_of_mem hl)

/-! ### Pieces of a text -/

theorem Spells.ident {name : String} {s : List Char} {ts : List Token} (h : Spells s ts)
    (hname : isIdentifier name.toList = true) (hs : EndsIdent s) :
    Spells (name.toList ++ s) (.ident name :: ts) :=
  .token (t := .ident name) hname (fun _ _ => hs) h

/-- In front of whatever text that no identifier goes on with, `text` spells `ts`. -/
def Writes (text : String) (ts : List Token) : Prop :=
  ∀ ⦃s : List Char⦄ ⦃us : List Token⦄, EndsIdent s → Spells s us →
    Spells (text.toList ++ s) (ts ++ us)

theorem Writes.spells {text : String} {ts : List Token} (h : Writes text ts) :
    Spells text.toList ts := by
  simpa using h endsIdent_nil .nil

theorem writes_ident {name : String} (h : isIdentifier name.toList = true) :
    Writes name [.ident name] :=
  fun _ _ hs hspells => hspells.ident h hs

/-- The text ends an identifier in front of it, and in front of whatever text it spells `ts`. -/
structure Separates (text : String) (ts : List Token) : Prop where
  ends (s : List Char) : EndsIdent (text.toList ++ s)
  spells {s : List Char} {us : List Token} : Spells s us → Spells (text.toList ++ s) (ts ++ us)

theorem separates_bar : Separates " | " [.pipe] where
  ends _ := endsIdent_cons (by decide)
  spells h := .space (by decide) (.token (t := .pipe) trivial nofun (.space (by decide) h))

theorem separates_comma : Separates ", " [.comma] where
  ends _ := endsIdent_cons (by decide)
  spells h := .token (t := .comma) trivial nofun (.space (by decide) h)

theorem separates_closeBracket : Separates "]" [.closeBracket] where
  ends _ := endsIdent_cons (by decide)
  spells h := .token (t := .closeBracket) trivial nofun h

theorem separates_ellipsis : Separates ", ...]" [.comma, .ellipsis, .closeBracket] where
  ends _ := endsIdent_cons (by decide)
  spells h :=
    separates_comma.spells (.token (t := .ellipsis) trivial nofun (separates_closeBracket.spells h))

theorem Writes.separated {a b separator : String} {x y ts : List Token} (ha : Writes a x)
    (hb : Writes b y) (h : Separates separator ts) :
    Writes (a ++ (separator ++ b)) (x ++ (ts ++ y)) := by
  intro s us hs hspells
  simp only [String.toList_append, List.append_assoc]
  exact ha (h.ends _) (h.spells (hb hs hspells))

/-- Brackets around a piece, behind a name. -/
theorem Writes.bracketed {name a closing : String} {x ts : List Token} (ha : Writes a x)
    (hname : isIdentifier name.toList = true) (h : Separates closing ts) :
    Writes (name ++ "[" ++ a ++ closing) (.ident name :: .openBracket :: (x ++ ts)) := by
  intro s us hs hspells
  have hinside := ha (h.ends s) (h.spells hspells)
  have hopen := Spells.token (t := .openBracket) trivial nofun hinside
  simp only [String.toList_append, List.append_assoc, List.cons_append]
  exact hopen.ident hname (endsIdent_cons (by decide))

end GuardedObjects
