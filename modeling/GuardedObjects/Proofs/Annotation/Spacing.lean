import GuardedObjects.Proofs.Annotation.LongestMatch
import GuardedObjects.Proofs.Annotation.Outcome

/-!
# Spaces carry no meaning

Two texts with the same tokens are read alike: both denote the same type, or both are refused with
the same error, which can only differ in where it is.
-/

namespace GuardedObjects

/-- The error without its place. -/
def AnnotationError.unplaced : AnnotationError → AnnotationError
  | .unexpectedCharacter source _ => .unexpectedCharacter source 0
  | .unexpectedToken found expected _ => .unexpectedToken found expected 0
  | e => e

section

variable {α α' β β' : Type}

/-- Related results, or errors that differ in their places at most. -/
inductive Alike (R : α → β → Prop) : Except AnnotationError α → Except AnnotationError β → Prop where
  | ok {a : α} {b : β} (h : R a b) : Alike R (.ok a) (.ok b)
  | error {e e' : AnnotationError} (h : e.unplaced = e'.unplaced) : Alike R (.error e) (.error e')

variable {R : α → β → Prop} {S : α' → β' → Prop} {x : Except AnnotationError α}
  {y : Except AnnotationError β}

theorem Alike.refl (x : Except AnnotationError α) : Alike Eq x x := by
  cases x with
  | error e => exact .error rfl
  | ok a => exact .ok rfl

theorem Alike.bind {f : α → Except AnnotationError α'} {g : β → Except AnnotationError β'}
    (h : Alike R x y) (hfg : ∀ a b, x = .ok a → R a b → Alike S (f a) (g b)) :
    Alike S (x >>= f) (y >>= g) := by
  cases h with
  | ok h => exact hfg _ _ rfl h
  | error h => exact .error h

theorem Alike.map {f : α → α'} {g : β → β'} (h : Alike R x y) (hfg : ∀ a b, R a b → S (f a) (g b)) :
    Alike S (f <$> x) (g <$> y) := by
  cases h with
  | ok h => exact .ok (hfg _ _ h)
  | error h => exact .error h

end

namespace Ty

section

variable (name : String) (offset offset' : Nat) (args : Option TypeArgs)

theorem alike_closedArgs : Alike Eq (closedArgs name offset args) (closedArgs name offset' args) := by
  rcases args with _ | ⟨types, _ | _⟩
  · exact .refl _
  · exact .refl _
  · exact .error rfl

theorem alike_soleArg : Alike Eq (soleArg name offset args) (soleArg name offset' args) := by
  rw [soleArg, soleArg]
  apply (alike_closedArgs name offset offset' args).bind
  rintro types _ - rfl
  exact .refl _

theorem alike_ofContainer (base : Container) :
    Alike Eq (ofContainer name offset base args) (ofContainer name offset' base args) := by
  cases args with
  | none => exact .refl _
  | some args =>
      rw [ofContainer, ofContainer]
      cases containerOf base args.isOpen with
      | none => exact .error rfl
      | some base => exact .refl _

theorem alike_ofTerm : Alike Eq (ofTerm name offset args) (ofTerm name offset' args) := by
  rw [ofTerm, ofTerm]
  cases TypeWord.ofName name with
  | container base => exact alike_ofContainer name offset offset' args base
  | optional => exact (alike_soleArg name offset offset' args).map fun a b => congrArg _
  | const => exact (alike_soleArg name offset offset' args).map fun a b => congrArg _
  | union => exact (alike_closedArgs name offset offset' args).map fun a b => congrArg _
  | _ => exact .refl _

end

/-- The same value in front of the same tokens. -/
def SameRead {α : Type} (p q : α × List Lexeme) : Prop :=
  p.1 = q.1 ∧ p.2.map Lexeme.token = q.2.map Lexeme.token

theorem alike_closeBracket {tokens tokens' : List Lexeme}
    (h : tokens.map Lexeme.token = tokens'.map Lexeme.token) :
    Alike SameRead (outcome (closeBracket tokens)) (outcome (closeBracket tokens')) := by
  rcases tokens with _ | ⟨⟨token, offset⟩, rest⟩
  · obtain rfl := List.map_eq_nil_iff.mp h.symm
    exact .error rfl
  · obtain ⟨offset', rest', rfl, hrest⟩ := exists_lexeme_of_map_eq_cons h.symm
    cases token with
    | closeBracket => exact .ok ⟨rfl, hrest.symm⟩
    | _ => exact .error rfl

-- The induction follows the parser, as that for its soundness does.
mutual

theorem alike_parseTerms {tokens tokens' : List Lexeme}
    (h : tokens.map Lexeme.token = tokens'.map Lexeme.token) :
    Alike SameRead (outcome (parseTerms tokens)) (outcome (parseTerms tokens')) := by
  rw [outcome_parseTerms, outcome_parseTerms]
  apply (alike_parseTerm h).bind
  rintro ⟨t, rest⟩ ⟨_, rest'⟩ hread ⟨rfl, hrest⟩
  have hlt := length_lt_of_outcome hread
  rcases rest with _ | ⟨⟨token, offset⟩, after⟩
  · obtain rfl := List.map_eq_nil_iff.mp hrest.symm
    exact .ok ⟨rfl, rfl⟩
  · obtain ⟨offset', after', rfl, hafter⟩ := exists_lexeme_of_map_eq_cons hrest.symm
    cases token with
    | pipe => exact (alike_parseTerms hafter.symm).map fun p q hpq => ⟨by rw [hpq.1], hpq.2⟩
    | _ => exact .ok ⟨rfl, hrest⟩
termination_by (tokens.length, 1)
decreasing_by
  · exact Prod.Lex.right _ (by decide)
  · simp only [List.length_cons] at hlt
    exact Prod.Lex.left _ _ (by omega)

theorem alike_parseTerm {tokens tokens' : List Lexeme}
    (h : tokens.map Lexeme.token = tokens'.map Lexeme.token) :
    Alike SameRead (outcome (parseTerm tokens)) (outcome (parseTerm tokens')) := by
  rcases htokens : tokens with _ | ⟨⟨token, offset⟩, rest⟩ <;> rw [htokens] at h
  · obtain rfl := List.map_eq_nil_iff.mp h.symm
    rw [outcome_parseTerm_nil]
    exact .error rfl
  obtain ⟨offset', rest', rfl, hrest⟩ := exists_lexeme_of_map_eq_cons h.symm
  by_cases hident : ∃ name, token = .ident name
  · obtain ⟨name, rfl⟩ := hident
    rw [outcome_parseTerm_ident, outcome_parseTerm_ident]
    have hbare : Alike SameRead ((fun t => (t, rest)) <$> ofTerm name offset none)
        ((fun t => (t, rest')) <$> ofTerm name offset' none) :=
      (alike_ofTerm name offset offset' none).map fun t t' ht => ⟨ht, hrest.symm⟩
    rcases rest with _ | ⟨⟨next, o⟩, after⟩
    · obtain rfl := List.map_eq_nil_iff.mp hrest
      exact hbare
    · obtain ⟨o', after', rfl, hafter⟩ := exists_lexeme_of_map_eq_cons hrest
      cases next with
      | openBracket =>
          apply (alike_parseArgs hafter.symm).bind
          rintro ⟨args, last⟩ ⟨_, last'⟩ - ⟨rfl, hlast⟩
          exact (alike_ofTerm name offset offset' (some args)).map fun t t' ht => ⟨ht, hlast⟩
      | _ => exact hbare
  · have hnot : ∀ name, token ≠ .ident name := fun name htoken => hident ⟨name, htoken⟩
    rw [outcome_parseTerm_of_not_ident hnot, outcome_parseTerm_of_not_ident hnot]
    exact .error rfl
termination_by (tokens.length, 0)
decreasing_by
  subst htokens
  simp only [List.length_cons]
  exact Prod.Lex.left _ _ (by omega)

theorem alike_parseArgs {tokens tokens' : List Lexeme}
    (h : tokens.map Lexeme.token = tokens'.map Lexeme.token) :
    Alike SameRead (outcome (parseArgs tokens)) (outcome (parseArgs tokens')) := by
  have htype : Alike SameRead (outcome (parseType tokens)) (outcome (parseType tokens')) := by
    rw [outcome_parseType, outcome_parseType]
    exact (alike_parseTerms h).map fun p q hpq => ⟨by rw [hpq.1], hpq.2⟩
  rw [outcome_parseArgs, outcome_parseArgs]
  apply htype.bind
  rintro ⟨t, rest⟩ ⟨_, rest'⟩ hread ⟨rfl, hrest⟩
  have hlt := length_lt_of_outcome hread
  have hclose : Alike SameRead ((fun p => (TypeArgs.mk [t] false, p.2)) <$> outcome (closeBracket rest))
      ((fun p => (TypeArgs.mk [t] false, p.2)) <$> outcome (closeBracket rest')) :=
    (alike_closeBracket hrest).map fun p q hpq => ⟨rfl, hpq.2⟩
  rcases rest with _ | ⟨⟨token, offset⟩, after⟩
  · obtain rfl := List.map_eq_nil_iff.mp hrest.symm
    exact hclose
  obtain ⟨offset', after', rfl, hafter⟩ := exists_lexeme_of_map_eq_cons hrest.symm
  cases token with
  | comma =>
      have hmore : Alike SameRead
          ((fun p => (TypeArgs.mk (t :: p.1.types) p.1.isOpen, p.2)) <$> outcome (parseArgs after))
          ((fun p => (TypeArgs.mk (t :: p.1.types) p.1.isOpen, p.2)) <$> outcome (parseArgs after')) :=
        (alike_parseArgs hafter.symm).map fun p q hpq => ⟨by rw [hpq.1], hpq.2⟩
      rcases after with _ | ⟨⟨next, o⟩, last⟩
      · obtain rfl := List.map_eq_nil_iff.mp hafter
        exact hmore
      · obtain ⟨o', last', rfl, hlast⟩ := exists_lexeme_of_map_eq_cons hafter
        cases next with
        | ellipsis => exact (alike_closeBracket hlast.symm).map fun p q hpq => ⟨rfl, hpq.2⟩
        | _ => exact hmore
  | _ => exact hclose
termination_by (tokens.length, 3)
decreasing_by
  · exact Prod.Lex.right _ (by decide)
  · simp only [List.length_cons] at hlt
    exact Prod.Lex.left _ _ (by omega)

end

theorem alike_ofLexemes {tokens tokens' : List Lexeme}
    (h : tokens.map Lexeme.token = tokens'.map Lexeme.token) :
    Alike Eq (ofLexemes tokens) (ofLexemes tokens') := by
  by_cases hnil : tokens = []
  · subst hnil
    obtain rfl := List.map_eq_nil_iff.mp h.symm
    exact .refl _
  · have hnil' : tokens' ≠ [] := by
      rintro rfl
      exact hnil (List.map_eq_nil_iff.mp h)
    rw [ofLexemes_of_ne_nil hnil, ofLexemes_of_ne_nil hnil', outcome_parseType, outcome_parseType]
    have htype : Alike SameRead ((fun p => (ofAlternatives p.1, p.2)) <$> outcome (parseTerms tokens))
        ((fun p => (ofAlternatives p.1, p.2)) <$> outcome (parseTerms tokens')) :=
      (alike_parseTerms h).map fun p q hpq => ⟨by rw [hpq.1], hpq.2⟩
    apply htype.bind
    rintro ⟨t, rest⟩ ⟨_, rest'⟩ - ⟨rfl, hrest⟩
    rcases rest with _ | ⟨⟨token, offset⟩, after⟩
    · obtain rfl := List.map_eq_nil_iff.mp hrest.symm
      exact .ok rfl
    · obtain ⟨offset', after', rfl, -⟩ := exists_lexeme_of_map_eq_cons hrest.symm
      exact .error rfl

/-- Texts with the same tokens are read alike. -/
theorem ofText_of_tokens {source source' : String} {tokens tokens' : List Lexeme}
    (hsource : tokenize source = .ok tokens) (hsource' : tokenize source' = .ok tokens')
    (h : tokens.map Lexeme.token = tokens'.map Lexeme.token) :
    Alike Eq (ofText source) (ofText source') := by
  rw [ofText, ofText, hsource, hsource', ok_bind, ok_bind]
  exact alike_ofLexemes h

/-- However the longest match is found, a text is cut in one way. Its tokens stand in it in their
order, each where it says, apart from each other and with spaces only around them; or the text has a
character that is no space and begins no token, behind a text that is cut. A text is cut into given
tokens exactly if it is them with spaces around them, and how many spaces there are makes no
difference to what it denotes, or to why it denotes nothing. -/
theorem tokenize_lossless (m : LongestMatch) (source : String) :
    m.tokenize source = tokenize source ∧
      (∀ tokens, tokenize source = .ok tokens → Tiles 0 source.toUTF8 tokens) ∧
      (∀ e, tokenize source = .error e → ∃ before c after,
        StopsAt source before c after ∧ e = .unexpectedCharacter source before.utf8ByteSize) ∧
      (∀ ts, (∃ tokens, tokenize source = .ok tokens ∧ tokens.map Lexeme.token = ts) ↔
        ∃ w : Spread, w.WellSpaced ∧ w.tokens = ts ∧ w.text = source.toList) ∧
      ∀ source' tokens tokens', tokenize source = .ok tokens → tokenize source' = .ok tokens' →
        tokens.map Lexeme.token = tokens'.map Lexeme.token →
        Alike Eq (ofText source) (ofText source') :=
  ⟨m.tokenize_eq source, fun _ => tiles_of_tokenize, fun _ => exists_stopsAt_of_tokenize,
    fun _ => exists_tokenize_iff, fun _ _ _ => ofText_of_tokens⟩

theorem tokenize_lossless_leaves :
    (tokenize " Leaf |\tint" = .ok [⟨.ident "Leaf", 1⟩, ⟨.pipe, 6⟩, ⟨.ident "int", 8⟩] ∧
        Tiles 0 " Leaf |\tint".toUTF8 [⟨.ident "Leaf", 1⟩, ⟨.pipe, 6⟩, ⟨.ident "int", 8⟩]) ∧
      (tokenize "Leaf é" = .error (.unexpectedCharacter "Leaf é" 5) ∧
        ∃ before c after, StopsAt "Leaf é" before c after ∧
          AnnotationError.unexpectedCharacter "Leaf é" 5 =
            .unexpectedCharacter "Leaf é" before.utf8ByteSize) ∧
      (tokenize "list [ , ]" = .ok
          [⟨.ident "list", 0⟩, ⟨.openBracket, 5⟩, ⟨.comma, 7⟩, ⟨.closeBracket, 9⟩] ∧
        tokenize "list[,]" = .ok
          [⟨.ident "list", 0⟩, ⟨.openBracket, 4⟩, ⟨.comma, 5⟩, ⟨.closeBracket, 6⟩] ∧
        Alike Eq (ofText "list [ , ]") (ofText "list[,]")) := by
  have hleaf : tokenize " Leaf |\tint" =
      .ok [⟨.ident "Leaf", 1⟩, ⟨.pipe, 6⟩, ⟨.ident "int", 8⟩] := by cbv
  have hstop : tokenize "Leaf é" = .error (.unexpectedCharacter "Leaf é" 5) := by cbv
  have hwide : tokenize "list [ , ]" =
      .ok [⟨.ident "list", 0⟩, ⟨.openBracket, 5⟩, ⟨.comma, 7⟩, ⟨.closeBracket, 9⟩] := by cbv
  have hnarrow : tokenize "list[,]" =
      .ok [⟨.ident "list", 0⟩, ⟨.openBracket, 4⟩, ⟨.comma, 5⟩, ⟨.closeBracket, 6⟩] := by cbv
  refine ⟨⟨hleaf, ?_⟩, ⟨hstop, ?_⟩, hwide, hnarrow, ?_⟩
  · exact (tokenize_lossless Lexeme.longestMatch " Leaf |\tint").2.1 _ hleaf
  · exact (tokenize_lossless Lexeme.longestMatch "Leaf é").2.2.1 _ hstop
  · exact (tokenize_lossless Lexeme.longestMatch "list [ , ]").2.2.2.2 _ _ _ hwide hnarrow rfl

end Ty

end GuardedObjects
