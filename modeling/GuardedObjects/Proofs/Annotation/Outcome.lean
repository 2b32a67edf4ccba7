import GuardedObjects.Proofs.Annotation.Parsing

/-!
# What the parts of the parser come to

The parts of the parser prove that they use up tokens. Without these proofs, what a part comes to is
one equation in what the parts come to that it is made of, results and errors alike.
-/

namespace GuardedObjects

namespace Ty

section

variable {α : Type} {tokens : List Lexeme}

/-- The value that is read and the tokens behind it. -/
def outcome (x : Except AnnotationError (Parsed α tokens)) :
    Except AnnotationError (α × List Lexeme) :=
  (fun p => (p.value, p.rest)) <$> x

theorem outcome_eq_ok_iff {x : Except AnnotationError (Parsed α tokens)} {v : α}
    {rest : List Lexeme} : outcome x = .ok (v, rest) ↔ Reads x v rest := by
  rw [outcome, map_eq_ok_iff]
  constructor
  · rintro ⟨⟨v, rest, h⟩, rfl, heq⟩
    cases heq
    exact ⟨h, rfl⟩
  · rintro ⟨h, rfl⟩
    exact ⟨_, rfl, rfl⟩

end

theorem outcome_parseType (tokens : List Lexeme) : outcome (parseType tokens) =
    (fun p => (ofAlternatives p.1, p.2)) <$> outcome (parseTerms tokens) := by
  rw [parseType]
  cases parseTerms tokens <;> rfl

/-- The terms behind a term, if a bar follows it. -/
def moreTerms (t : Ty) : List Lexeme → Except AnnotationError (List Ty × List Lexeme)
  | ⟨.pipe, _⟩ :: rest => (fun p => (t :: p.1, p.2)) <$> outcome (parseTerms rest)
  | rest => .ok ([t], rest)

theorem outcome_parseTerms (tokens : List Lexeme) : outcome (parseTerms tokens) =
    outcome (parseTerm tokens) >>= fun p => moreTerms p.1 p.2 := by
  rw [parseTerms]
  cases parseTerm tokens with
  | error e => rfl
  | ok p =>
      obtain ⟨t, _ | ⟨⟨token, offset⟩, rest⟩, h⟩ := p
      · rfl
      · cases token with
        | pipe =>
            change outcome (parseTerms rest >>= _) = _ <$> outcome (parseTerms rest)
            cases parseTerms rest <;> rfl
        | _ => rfl

/-- A term behind its name: with its arguments if a bracket follows. -/
def termOf (name : String) (offset : Nat) :
    List Lexeme → Except AnnotationError (Ty × List Lexeme)
  | ⟨.openBracket, _⟩ :: rest => outcome (parseArgs rest) >>= fun p =>
      (fun t => (t, p.2)) <$> ofTerm name offset (some p.1)
  | rest => (fun t => (t, rest)) <$> ofTerm name offset none

theorem outcome_parseTerm_ident (name : String) (offset : Nat) (rest : List Lexeme) :
    outcome (parseTerm (⟨.ident name, offset⟩ :: rest)) = termOf name offset rest := by
  by_cases hopen : ∃ offset' after, rest = ⟨.openBracket, offset'⟩ :: after
  · obtain ⟨offset', after, rfl⟩ := hopen
    rw [parseTerm, termOf]
    cases parseArgs after with
    | error e => rfl
    | ok args =>
        change outcome (ofTerm name offset (some args.value) >>= _) = _ <$> _
        cases ofTerm name offset (some args.value) <;> rfl
  · have hrest : ∀ offset' after, rest = ⟨.openBracket, offset'⟩ :: after → False :=
      fun offset' after h => hopen ⟨offset', after, h⟩
    rw [parseTerm, termOf]
    · cases ofTerm name offset none <;> rfl
    · exact hrest
    · exact hrest

theorem outcome_parseTerm_nil :
    outcome (parseTerm []) = .error (.unexpectedEnd .typeName) := by
  rw [parseTerm]
  rfl

theorem outcome_parseTerm_of_not_ident {found : Token} (h : ∀ name, found ≠ .ident name)
    (offset : Nat) (rest : List Lexeme) : outcome (parseTerm (⟨found, offset⟩ :: rest)) =
      .error (.unexpectedToken found .typeName offset) := by
  rw [parseTerm]
  · rfl
  · exact fun name _ _ _ hfound => h name hfound
  · exact fun name hfound => h name hfound

/-- The arguments behind an argument, or the bracket that closes them. -/
def moreArgs (t : Ty) : List Lexeme → Except AnnotationError (TypeArgs × List Lexeme)
  | ⟨.comma, _⟩ :: ⟨.ellipsis, _⟩ :: rest =>
      (fun p => (⟨[t], true⟩, p.2)) <$> outcome (closeBracket rest)
  | ⟨.comma, _⟩ :: rest =>
      (fun p => (⟨t :: p.1.types, p.1.isOpen⟩, p.2)) <$> outcome (parseArgs rest)
  | rest => (fun p => (⟨[t], false⟩, p.2)) <$> outcome (closeBracket rest)

theorem outcome_parseArgs (tokens : List Lexeme) : outcome (parseArgs tokens) =
    outcome (parseType tokens) >>= fun p => moreArgs p.1 p.2 := by
  rw [parseArgs]
  cases parseType tokens with
  | error e => rfl
  | ok p =>
      obtain ⟨t, rest, h⟩ := p
      change outcome _ = moreArgs t rest
      rcases rest with _ | ⟨⟨token, offset⟩, rest⟩
      · rfl
      · cases token with
        | comma =>
            rcases rest with _ | ⟨⟨token', offset'⟩, rest⟩
            · change outcome (parseArgs [] >>= _) = _ <$> outcome (parseArgs [])
              cases parseArgs [] <;> rfl
            · cases token' with
              | ellipsis =>
                  change outcome (closeBracket rest >>= _) = _ <$> outcome (closeBracket rest)
                  cases closeBracket rest <;> rfl
              | _ =>
                  change outcome (parseArgs (_ :: rest) >>= _) = _ <$> outcome (parseArgs _)
                  cases parseArgs (_ :: rest) <;> rfl
        | _ => rfl

/-- Behind a whole type nothing may stand. -/
def atEnd (p : Ty × List Lexeme) : Except AnnotationError Ty :=
  match p.2 with
  | [] => .ok p.1
  | extra :: _ => .error (.unexpectedToken extra.token .finish extra.offset)

theorem ofLexemes_of_ne_nil {tokens : List Lexeme} (h : tokens ≠ []) :
    ofLexemes tokens = outcome (parseType tokens) >>= atEnd := by
  rw [ofLexemes, if_neg (by simpa using h)]
  cases parseType tokens with
  | error e => rfl
  | ok p => obtain ⟨t, _ | ⟨extra, rest⟩, hlt⟩ := p <;> rfl

theorem length_lt_of_outcome {α : Type} {tokens rest : List Lexeme} {v : α}
    {x : Except AnnotationError (Parsed α tokens)} (h : outcome x = .ok (v, rest)) :
    rest.length < tokens.length := by
  obtain ⟨hlt, -⟩ := outcome_eq_ok_iff.mp h
  exact hlt

end Ty

end GuardedObjects
