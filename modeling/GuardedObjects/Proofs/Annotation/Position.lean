import GuardedObjects.Proofs.Annotation.Layout
import GuardedObjects.Proofs.Annotation.Outcome

/-!
# Where errors point

An error that reports a token gives the offset of that token, with one exception: an ellipsis that
is refused because of the word in front of the brackets is reported where that word stands.
-/

namespace GuardedObjects

/-- Words that may have arguments, but none that end in an ellipsis. -/
def TypeWord.RefusesEllipsis : TypeWord → Prop
  | .container base => base ≠ .tuple
  | .optional | .const | .union => True
  | .primitive _ | .noValue | .any | .cls => False

/-- The tokens hold a term whose name stands at `offset` and whose arguments end in an ellipsis, at
`place`, which the name does not take. -/
def RefusedEllipsis (tokens : List Lexeme) (offset place : Nat) : Prop :=
  ∃ (before inside after : List Lexeme) (name : String) (bracket : Nat) (φ : ArgsPhrase)
    (args : TypeArgs),
    tokens = before ++ ⟨.ident name, offset⟩ :: ⟨.openBracket, bracket⟩ ::
      (inside ++ ⟨.ellipsis, place⟩ :: after) ∧
    φ.tokens = inside.map Lexeme.token ++ [.ellipsis] ∧ φ.args? = some args ∧
    (TypeWord.ofName name).RefusesEllipsis

theorem RefusedEllipsis.mono {tokens tokens' : List Lexeme} {offset place : Nat}
    (h : RefusedEllipsis tokens' offset place) (hsuffix : tokens' <:+ tokens) :
    RefusedEllipsis tokens offset place := by
  obtain ⟨front, rfl⟩ := hsuffix
  obtain ⟨before, inside, after, name, bracket, φ, args, rfl, hφ⟩ := h
  exact ⟨front ++ before, inside, after, name, bracket, φ, args, by rw [List.append_assoc], hφ⟩

/-- The tokens account for an error that reports a token. -/
def Blames (tokens : List Lexeme) : AnnotationError → Prop
  | .unexpectedToken found expected offset => ⟨found, offset⟩ ∈ tokens ∨
      found = .ellipsis ∧ expected = .typeName ∧ ∃ place, RefusedEllipsis tokens offset place
  | _ => True

theorem Blames.mono {tokens tokens' : List Lexeme} {e : AnnotationError} (h : Blames tokens' e)
    (hsuffix : tokens' <:+ tokens) : Blames tokens e := by
  cases e with
  | unexpectedToken found expected offset =>
      rcases h with hmem | ⟨hfound, hexpected, place, hrefused⟩
      · exact .inl (hsuffix.mem hmem)
      · exact .inr ⟨hfound, hexpected, place, hrefused.mono hsuffix⟩
  | _ => trivial

section

variable {α β : Type} {tokens tokens' : List Lexeme}

/-- A part of the parser stops within the tokens, or fails with an error that they account for. -/
inductive Accounts (tokens : List Lexeme) : Except AnnotationError (α × List Lexeme) → Prop where
  | ok {v : α} {rest : List Lexeme} (h : rest <:+ tokens) : Accounts tokens (.ok (v, rest))
  | error {e : AnnotationError} (h : Blames tokens e) : Accounts tokens (.error e)

theorem Accounts.mono {x : Except AnnotationError (α × List Lexeme)} (h : Accounts tokens' x)
    (hsuffix : tokens' <:+ tokens) : Accounts tokens x := by
  cases h with
  | ok h => exact .ok (h.trans hsuffix)
  | error h => exact .error (h.mono hsuffix)

theorem Accounts.suffix {v : α} {rest : List Lexeme} {x : Except AnnotationError (α × List Lexeme)}
    (h : Accounts tokens x) (hx : x = .ok (v, rest)) : rest <:+ tokens := by
  subst hx
  cases h with
  | ok h => exact h

theorem Accounts.bind {x : Except AnnotationError (α × List Lexeme)}
    {f : α × List Lexeme → Except AnnotationError (β × List Lexeme)} (h : Accounts tokens x)
    (hf : ∀ v rest, x = .ok (v, rest) → rest <:+ tokens → Accounts tokens (f (v, rest))) :
    Accounts tokens (x >>= f) := by
  cases h with
  | ok h => exact hf _ _ rfl h
  | error h => exact .error h

theorem Accounts.map {x : Except AnnotationError (α × List Lexeme)} (h : Accounts tokens x)
    (f : α → β) : Accounts tokens ((fun p => (f p.1, p.2)) <$> x) := by
  cases h with
  | ok h => exact .ok h
  | error h => exact .error h

end

namespace Ty

/-! ### Refused words -/

section

variable {name : String} {offset place : Nat} {args : Option TypeArgs} {found : Token}
  {expected : Expectation}

/-- What is reported is the ellipsis in which the arguments end, where the name stands. -/
def ReportsEllipsis (offset : Nat) (args : Option TypeArgs) (found : Token)
    (expected : Expectation) (place : Nat) : Prop :=
  found = .ellipsis ∧ expected = .typeName ∧ place = offset ∧ ∃ as ∈ args, as.isOpen = true

theorem closedArgs_eq_unexpected
    (h : closedArgs name offset args = .error (.unexpectedToken found expected place)) :
    ReportsEllipsis offset args found expected place := by
  rcases args with _ | ⟨types, _ | _⟩
  · cases h
  · cases h
  · cases h
    exact ⟨rfl, rfl, rfl, _, rfl, rfl⟩

theorem soleArg_eq_unexpected
    (h : soleArg name offset args = .error (.unexpectedToken found expected place)) :
    ReportsEllipsis offset args found expected place := by
  rcases bind_eq_error_iff.mp h with h | ⟨types, -, h⟩
  · exact closedArgs_eq_unexpected h
  · split at h <;> cases h

theorem containerOf_eq_none {base : Container} {isOpen : Bool}
    (h : containerOf base isOpen = none) : isOpen = true ∧ base ≠ .tuple := by
  cases isOpen with
  | false => cases base <;> cases h
  | true =>
      refine ⟨rfl, ?_⟩
      rintro rfl
      cases h

theorem ofContainer_eq_unexpected {base : Container}
    (h : ofContainer name offset base args = .error (.unexpectedToken found expected place)) :
    ReportsEllipsis offset args found expected place ∧ base ≠ .tuple := by
  rcases args with _ | ⟨types, isOpen⟩
  · cases h
  · rw [ofContainer] at h
    cases hbase : containerOf base isOpen with
    | none =>
        rw [hbase] at h
        cases h
        obtain ⟨hopen, hne⟩ := containerOf_eq_none hbase
        exact ⟨⟨rfl, rfl, rfl, _, rfl, hopen⟩, hne⟩
    | some base' =>
        rw [hbase] at h
        dsimp only at h
        split at h
        · cases h
        · split at h <;> cases h

theorem bare_ne_unexpected (t : Ty) :
    bare t name args ≠ .error (.unexpectedToken found expected place) := by
  cases args <;> exact nofun

/-- The only token that a word refuses is an ellipsis, and it is reported where the word stands. -/
theorem ofTerm_eq_unexpected
    (h : ofTerm name offset args = .error (.unexpectedToken found expected place)) :
    ReportsEllipsis offset args found expected place ∧
      (TypeWord.ofName name).RefusesEllipsis := by
  unfold ofTerm at h
  split at h
  next hword => exact absurd h (bare_ne_unexpected _)
  next base hword =>
    rw [hword]
    exact ofContainer_eq_unexpected h
  next hword => exact absurd h (bare_ne_unexpected _)
  next hword => exact absurd h (bare_ne_unexpected _)
  next hword =>
    rw [hword]
    exact ⟨soleArg_eq_unexpected (map_eq_error_iff.mp h), trivial⟩
  next hword =>
    rw [hword]
    exact ⟨soleArg_eq_unexpected (map_eq_error_iff.mp h), trivial⟩
  next hword =>
    rw [hword]
    exact ⟨closedArgs_eq_unexpected (map_eq_error_iff.mp h), trivial⟩
  next hword => exact absurd h (bare_ne_unexpected _)

end

/-- Arguments that end in an ellipsis end in its token. -/
theorem exists_tokens_of_isOpen (φ : ArgsPhrase) {args : TypeArgs} (hφ : φ.args? = some args)
    (hopen : args.isOpen = true) : ∃ ts, φ.tokens = ts ++ [.ellipsis] := by
  cases φ with
  | last t =>
      obtain ⟨t', -, rfl⟩ := ArgsPhrase.args?_last.mp hφ
      cases hopen
  | ellipsis t =>
      exact ⟨t.tokens ++ [.comma], by rw [ArgsPhrase.tokens, List.append_assoc]; rfl⟩
  | comma t rest =>
      obtain ⟨t', more, -, hmore, rfl⟩ := ArgsPhrase.args?_comma.mp hφ
      obtain ⟨ts, hts⟩ := exists_tokens_of_isOpen rest hmore hopen
      exact ⟨t.tokens ++ .comma :: ts, by rw [ArgsPhrase.tokens, hts, List.append_assoc]; rfl⟩

/-! ### What the parts of the parser report -/

section

variable {tokens : List Lexeme}

theorem accounts_closeBracket (tokens : List Lexeme) :
    Accounts tokens (outcome (closeBracket tokens)) := by
  rcases tokens with _ | ⟨⟨token, offset⟩, rest⟩
  · exact .error trivial
  · cases token with
    | closeBracket => exact .ok (List.suffix_cons _ _)
    | _ => exact .error (.inl List.mem_cons_self)

theorem accounts_ofTerm_none (name : String) (offset : Nat) (rest : List Lexeme) :
    Accounts (⟨.ident name, offset⟩ :: rest)
      ((fun t => (t, rest)) <$> ofTerm name offset none) := by
  cases hterm : ofTerm name offset none with
  | ok t => exact .ok (List.suffix_cons _ _)
  | error e =>
      apply Accounts.error
      cases e with
      | unexpectedToken found expected place =>
          obtain ⟨⟨-, -, -, as, has, -⟩, -⟩ := ofTerm_eq_unexpected hterm
          cases has
      | _ => trivial

theorem accounts_ofTerm_some {name : String} {offset bracket : Nat} {after rest : List Lexeme}
    {args : TypeArgs} (hargs : Reads (parseArgs after) args rest) (hrest : rest <:+ after) :
    Accounts (⟨.ident name, offset⟩ :: ⟨.openBracket, bracket⟩ :: after)
      ((fun t => (t, rest)) <$> ofTerm name offset (some args)) := by
  cases hterm : ofTerm name offset (some args) with
  | ok t => exact .ok (hrest.trans ((List.suffix_cons _ _).trans (List.suffix_cons _ _)))
  | error e =>
      apply Accounts.error
      cases e with
      | unexpectedToken found expected place =>
          obtain ⟨⟨rfl, rfl, rfl, as, has, hopen⟩, hword⟩ := ofTerm_eq_unexpected hterm
          cases has
          obtain ⟨φ, hφ, htokens⟩ := exists_phrase_of_args hargs
          obtain ⟨ts, hts⟩ := exists_tokens_of_isOpen φ hφ hopen
          rw [hts, List.append_assoc, List.map_eq_append_iff] at htokens
          obtain ⟨inside, tail, rfl, hinside, htail⟩ := htokens
          obtain ⟨o, close, rfl, -⟩ := exists_lexeme_of_map_eq_cons htail
          refine .inr ⟨rfl, rfl, o, [], inside, close, name, bracket, φ, args, rfl, ?_, hφ, hword⟩
          rw [hts, hinside]
      | _ => trivial

end

-- The induction follows the parser, as that for its soundness does.
mutual

theorem accounts_parseTerms (tokens : List Lexeme) :
    Accounts tokens (outcome (parseTerms tokens)) := by
  rw [outcome_parseTerms]
  apply (accounts_parseTerm tokens).bind
  intro t rest hread hsuffix
  have hlt := length_lt_of_outcome hread
  rcases rest with _ | ⟨⟨token, offset⟩, after⟩
  · exact .ok hsuffix
  · cases token with
    | pipe =>
        have hafter := (List.suffix_cons _ _).trans hsuffix
        exact ((accounts_parseTerms after).map (t :: ·)).mono hafter
    | _ => exact .ok hsuffix
termination_by (tokens.length, 1)
decreasing_by
  · exact Prod.Lex.right _ (by decide)
  · simp only [List.length_cons] at hlt
    exact Prod.Lex.left _ _ (by omega)

theorem accounts_parseTerm (tokens : List Lexeme) :
    Accounts tokens (outcome (parseTerm tokens)) := by
  rcases htokens : tokens with _ | ⟨⟨token, offset⟩, rest⟩
  · rw [outcome_parseTerm_nil]
    exact .error trivial
  by_cases hident : ∃ name, token = .ident name
  · obtain ⟨name, rfl⟩ := hident
    rw [outcome_parseTerm_ident]
    rcases rest with _ | ⟨⟨next, bracket⟩, after⟩
    · exact accounts_ofTerm_none name offset []
    · cases next with
      | openBracket =>
          have hargs := accounts_parseArgs after
          have hafter : after <:+ ⟨.ident name, offset⟩ :: ⟨.openBracket, bracket⟩ :: after :=
            (List.suffix_cons _ _).trans (List.suffix_cons _ _)
          apply (hargs.mono hafter).bind
          intro args last hread _
          exact accounts_ofTerm_some (outcome_eq_ok_iff.mp hread) (hargs.suffix hread)
      | _ => exact accounts_ofTerm_none name offset _
  · have hnot : ∀ name, token ≠ .ident name := fun name htoken => hident ⟨name, htoken⟩
    rw [outcome_parseTerm_of_not_ident hnot]
    exact .error (.inl List.mem_cons_self)
termination_by (tokens.length, 0)
decreasing_by
  subst htokens
  simp only [List.length_cons]
  exact Prod.Lex.left _ _ (by omega)

theorem accounts_parseArgs (tokens : List Lexeme) :
    Accounts tokens (outcome (parseArgs tokens)) := by
  have htype : Accounts tokens (outcome (parseType tokens)) := by
    rw [outcome_parseType]
    exact (accounts_parseTerms tokens).map ofAlternatives
  rw [outcome_parseArgs]
  apply htype.bind
  intro t rest hread hsuffix
  have hlt := length_lt_of_outcome hread
  have hclose : Accounts tokens
      ((fun p => (TypeArgs.mk [t] false, p.2)) <$> outcome (closeBracket rest)) :=
    ((accounts_closeBracket rest).map fun _ => TypeArgs.mk [t] false).mono hsuffix
  rcases rest with _ | ⟨⟨token, offset⟩, after⟩
  · exact hclose
  cases token with
  | comma =>
      have hafter := (List.suffix_cons _ _).trans hsuffix
      have hmore : Accounts tokens
          ((fun p => (TypeArgs.mk (t :: p.1.types) p.1.isOpen, p.2)) <$>
            outcome (parseArgs after)) :=
        ((accounts_parseArgs after).map fun more =>
          TypeArgs.mk (t :: more.types) more.isOpen).mono hafter
      rcases after with _ | ⟨⟨next, o⟩, last⟩
      · exact hmore
      · cases next with
        | ellipsis =>
            exact ((accounts_closeBracket last).map fun _ => TypeArgs.mk [t] true).mono
              ((List.suffix_cons _ _).trans hafter)
        | _ => exact hmore
  | _ => exact hclose
termination_by (tokens.length, 3)
decreasing_by
  · exact Prod.Lex.right _ (by decide)
  · simp only [List.length_cons] at hlt
    exact Prod.Lex.left _ _ (by omega)

end

/-! ### Whole annotations -/

theorem blames_of_ofLexemes {tokens : List Lexeme} {e : AnnotationError}
    (h : ofLexemes tokens = .error e) : Blames tokens e := by
  by_cases hnil : tokens = []
  · subst hnil
    cases h
    trivial
  rw [ofLexemes_of_ne_nil hnil, outcome_parseType] at h
  have htype := (accounts_parseTerms tokens).map ofAlternatives
  rcases bind_eq_error_iff.mp h with h | ⟨⟨t, rest⟩, hread, h⟩
  · rw [h] at htype
    cases htype with
    | error h => exact h
  · have hsuffix := htype.suffix hread
    cases rest with
    | nil => cases h
    | cons extra rest =>
        cases h
        exact .inl (hsuffix.mem List.mem_cons_self)

end Ty

/-- A refused ellipsis is not where it is reported, but further on. -/
theorem Tiles.of_refusedEllipsis {start offset place : Nat} {text : ByteArray}
    {tokens : List Lexeme} (h : Tiles start text tokens)
    (hrefused : RefusedEllipsis tokens offset place) :
    offset < place ∧ ⟨.ellipsis, place⟩ ∈ tokens ∧ ⟨.ellipsis, offset⟩ ∉ tokens := by
  obtain ⟨before, inside, after, name, bracket, φ, args, rfl, -⟩ := hrefused
  have hincreasing := h.increasing
  rw [List.pairwise_append] at hincreasing
  obtain ⟨-, htail, hbefore⟩ := hincreasing
  have hhead := (List.pairwise_cons.mp htail).1
  refine ⟨hhead ⟨.ellipsis, place⟩ (by simp), by simp, ?_⟩
  intro hmem
  rcases List.mem_append.mp hmem with hmem | hmem
  · have hlt := hbefore _ hmem _ List.mem_cons_self
    exact absurd hlt (Nat.lt_irrefl offset)
  · rcases List.mem_cons.mp hmem with heq | hmem
    · cases heq
    · exact absurd (hhead _ hmem) (Nat.lt_irrefl offset)

namespace Ty

/-- An error that reports a token gives the byte offset at which a token of the text starts, and the
text of that token, which stands there, is the one reported. The exception is an ellipsis behind the
arguments of a word that takes none: it stands further on than the error says, which gives the
offset of the word. -/
theorem error_position {source : String} {found : Token} {expected : Expectation} {offset : Nat}
    (h : ofText source = .error (.unexpectedToken found expected offset)) :
    ∃ tokens, tokenize source = .ok tokens ∧
      (⟨found, offset⟩ ∈ tokens ∧
          source.toUTF8.extract offset (offset + found.text.utf8ByteSize) = found.text.toUTF8 ∨
        found = .ellipsis ∧ expected = .typeName ∧ ⟨found, offset⟩ ∉ tokens ∧
          ∃ place, offset < place ∧ ⟨found, place⟩ ∈ tokens ∧
            RefusedEllipsis tokens offset place) := by
  rw [ofText] at h
  rcases bind_eq_error_iff.mp h with h | ⟨tokens, hsource, h⟩
  · obtain ⟨before, c, after, -, he⟩ := exists_stopsAt_of_tokenize h
    cases he
  have htiles := tiles_of_tokenize hsource
  refine ⟨tokens, hsource, ?_⟩
  rcases blames_of_ofLexemes h with hmem | ⟨rfl, rfl, place, hrefused⟩
  · have hread := htiles.reads ⟨found, offset⟩ hmem
    exact .inl ⟨hmem, hread⟩
  · obtain ⟨hlt, hplace, hnot⟩ := htiles.of_refusedEllipsis hrefused
    exact .inr ⟨rfl, rfl, hnot, place, hlt, hplace, hrefused⟩

theorem error_position_leaves :
    ofText "list[int leaf]" = .error (.unexpectedToken (.ident "leaf") .closingBracket 9) ∧
      ∃ tokens, tokenize "list[int leaf]" = .ok tokens ∧
        (⟨.ident "leaf", 9⟩ ∈ tokens ∧
            "list[int leaf]".toUTF8.extract 9 (9 + "leaf".utf8ByteSize) = "leaf".toUTF8 ∨
          Token.ident "leaf" = .ellipsis ∧ Expectation.closingBracket = .typeName ∧
            ⟨.ident "leaf", 9⟩ ∉ tokens ∧ ∃ place, 9 < place ∧ ⟨.ident "leaf", place⟩ ∈ tokens ∧
              RefusedEllipsis tokens 9 place) := by
  have h : ofText "list[int leaf]" =
      .error (.unexpectedToken (.ident "leaf") .closingBracket 9) := by cbv
  have hposition := error_position h
  rw [Token.text] at hposition
  exact ⟨h, hposition⟩

/-- The word of a refused ellipsis is reported for it. -/
theorem exists_misplaced_ellipsis :
    ∃ source found expected offset tokens,
      ofText source = .error (.unexpectedToken found expected offset) ∧
        tokenize source = .ok tokens ∧ ⟨found, offset⟩ ∉ tokens := by
  refine ⟨"list[int, ...]", .ellipsis, .typeName, 0,
    [⟨.ident "list", 0⟩, ⟨.openBracket, 4⟩, ⟨.ident "int", 5⟩, ⟨.comma, 8⟩, ⟨.ellipsis, 10⟩,
      ⟨.closeBracket, 13⟩], by cbv, by cbv, by decide⟩

end Ty

end GuardedObjects
