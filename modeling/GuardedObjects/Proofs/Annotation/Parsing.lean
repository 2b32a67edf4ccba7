import GuardedObjects.Proofs.Annotation.Grammar
import GuardedObjects.Proofs.Except
import GuardedObjects.Ty.Printer

/-!
# The parser reads the grammar

What the parser reads from the front of a token sequence is a phrase of the grammar, as far as it
goes, with the meaning of that phrase; and it reads every phrase that has a meaning and that the
tokens behind it cannot prolong. An annotation is therefore read exactly if its tokens derive from
the grammar and every word in it has the arguments that it takes.
-/

namespace GuardedObjects

/-! ### The words -/

theorem TypeWord.ofName_ne_varTuple (name : String) : ofName name ≠ .container .varTuple := by
  unfold ofName
  split <;> nofun

theorem TypeWord.ofName_text {base : Container} (h : base ≠ .varTuple) :
    ofName base.text = .container base := by
  cases base with
  | varTuple => exact absurd rfl h
  | _ => rfl

namespace Ty

variable {name : String} {offset : Nat} {args : Option TypeArgs} {t : Ty} {ts : List Ty}

theorem bare_eq_ok {t' : Ty} : bare t name args = .ok t' ↔ args = none ∧ t = t' := by
  cases args <;> simp [bare]

theorem closedArgs_eq_ok : closedArgs name offset args = .ok ts ↔ args = some ⟨ts, false⟩ := by
  match args with
  | none => exact ⟨nofun, nofun⟩
  | some ⟨types, true⟩ => exact ⟨nofun, nofun⟩
  | some ⟨types, false⟩ => simp [closedArgs]

theorem soleArg_eq_ok : soleArg name offset args = .ok t ↔ args = some ⟨[t], false⟩ := by
  rw [soleArg, bind_eq_ok_iff]
  constructor
  · rintro ⟨ts, hts, h⟩
    split at h
    · cases h
      exact closedArgs_eq_ok.mp hts
    · cases h
  · rintro rfl
    exact ⟨[t], rfl, rfl⟩

theorem ofContainer_eq_ok {base : Container} :
    ofContainer name offset base args = .ok t ↔ args = none ∧ .generic base [] = t ∨
      ∃ as base', args = some as ∧ containerOf base as.isOpen = some base' ∧
        (∀ n ∈ base'.arity, as.types.length = n) ∧ .generic base' as.types = t := by
  cases args with
  | none => simp [ofContainer]
  | some as =>
      rw [ofContainer]
      cases hbase : containerOf base as.isOpen with
      | none => simp [hbase]
      | some base' =>
          cases harity : base'.arity with
          | none => simp [hbase, harity]
          | some n => simp [hbase, harity, ite_eq_iff]

/-- A term means what the table of words says. -/
theorem ofTerm_eq_ok :
    ofTerm name offset args = .ok t ↔ (TypeWord.ofName name).type? name args = some t := by
  have hword := TypeWord.ofName_ne_varTuple name
  unfold ofTerm
  generalize TypeWord.ofName name = word at hword ⊢
  cases word with
  | primitive kind => rw [bare_eq_ok, TypeWord.type?_primitive]
  | container base => rw [ofContainer_eq_ok, TypeWord.type?_container (by simpa using hword)]
  | noValue => rw [bare_eq_ok, TypeWord.type?_noValue]
  | any => rw [bare_eq_ok, TypeWord.type?_any]
  | optional => simp only [map_eq_ok_iff, soleArg_eq_ok, TypeWord.type?_optional]
  | const => simp only [map_eq_ok_iff, soleArg_eq_ok, TypeWord.type?_const]
  | union => simp only [map_eq_ok_iff, closedArgs_eq_ok, TypeWord.type?_union]
  | cls => rw [bare_eq_ok, TypeWord.type?_cls]

/-! ### What each part of the parser reads

Each part is inverted once, and the matches on the tokens that are left, which carry proofs, are
not opened again. -/

section

variable {α : Type} {tokens rest : List Lexeme} {terms : List Ty} {args : TypeArgs}

/-- A value is read from the front of the tokens, with `rest` after it. -/
def Reads (outcome : Except AnnotationError (Parsed α tokens)) (v : α) (rest : List Lexeme) :
    Prop :=
  ∃ h, outcome = .ok ⟨v, rest, h⟩

theorem reads_closeBracket {u : Unit} :
    Reads (closeBracket tokens) u rest ↔ ∃ offset, tokens = ⟨.closeBracket, offset⟩ :: rest := by
  unfold closeBracket
  constructor
  · rintro ⟨h, hok⟩
    split at hok
    · cases hok
    · cases hok
      exact ⟨_, rfl⟩
    · cases hok
  · rintro ⟨offset, rfl⟩
    exact ⟨_, rfl⟩

theorem reads_parseType :
    Reads (parseType tokens) t rest ↔
      ∃ terms, Reads (parseTerms tokens) terms rest ∧ ofAlternatives terms = t := by
  rw [parseType]
  constructor
  · rintro ⟨h, hok⟩
    obtain ⟨⟨terms, rest', h'⟩, hterms, hok⟩ := bind_eq_ok_iff.mp hok
    cases hok
    exact ⟨terms, ⟨h', hterms⟩, rfl⟩
  · rintro ⟨terms, ⟨h, hterms⟩, rfl⟩
    exact ⟨h, by rw [hterms]; rfl⟩

theorem reads_parseTerms :
    Reads (parseTerms tokens) terms rest ↔ ∃ t mid, Reads (parseTerm tokens) t mid ∧
      ((∃ offset after more, mid = ⟨.pipe, offset⟩ :: after ∧ Reads (parseTerms after) more rest ∧
          t :: more = terms) ∨
        (∀ offset after, mid ≠ ⟨.pipe, offset⟩ :: after) ∧ mid = rest ∧ [t] = terms) := by
  rw [parseTerms]
  constructor
  · rintro ⟨h, hok⟩
    obtain ⟨⟨t, mid, hmid⟩, hterm, hok⟩ := bind_eq_ok_iff.mp hok
    refine ⟨t, mid, ⟨hmid, hterm⟩, ?_⟩
    dsimp only at hok
    split at hok
    · obtain ⟨⟨more, rest', h'⟩, hmore, hok⟩ := bind_eq_ok_iff.mp hok
      cases hok
      exact .inl ⟨_, _, more, rfl, ⟨h', hmore⟩, rfl⟩
    next hpipe =>
      cases hok
      refine .inr ⟨?_, rfl, rfl⟩
      rintro offset after rfl
      exact hpipe _ _ _ rfl HEq.rfl
  · rintro ⟨t, mid, ⟨hmid, hterm⟩, ⟨offset, after, more, rfl, ⟨h, hmore⟩, rfl⟩ | ⟨hpipe, rfl, rfl⟩⟩
    · refine ⟨by simp only [List.length_cons] at hmid; omega, ?_⟩
      rw [hterm, ok_bind]
      dsimp only
      rw [hmore]
      rfl
    · refine ⟨hmid, ?_⟩
      rw [hterm, ok_bind]
      dsimp only
      split
      · exact absurd rfl (hpipe _ _)
      · rfl

theorem reads_parseTerm :
    Reads (parseTerm tokens) t rest ↔ ∃ name offset,
      (∃ offset' after args, tokens = ⟨.ident name, offset⟩ :: ⟨.openBracket, offset'⟩ :: after ∧
          Reads (parseArgs after) args rest ∧ ofTerm name offset (some args) = .ok t) ∨
        tokens = ⟨.ident name, offset⟩ :: rest ∧
          (∀ offset' after, rest ≠ ⟨.openBracket, offset'⟩ :: after) ∧
          ofTerm name offset none = .ok t := by
  constructor
  · rintro ⟨h, hok⟩
    unfold parseTerm at hok
    split at hok
    · cases hok
    · obtain ⟨⟨args, rest', h'⟩, hargs, hok⟩ := bind_eq_ok_iff.mp hok
      obtain ⟨t', ht, hok⟩ := bind_eq_ok_iff.mp hok
      cases hok
      exact ⟨_, _, .inl ⟨_, _, args, rfl, ⟨h', hargs⟩, ht⟩⟩
    next hopen =>
      obtain ⟨t', ht, hok⟩ := bind_eq_ok_iff.mp hok
      cases hok
      exact ⟨_, _, .inr ⟨rfl, fun _ _ => hopen _ _, ht⟩⟩
    · cases hok
  · rintro ⟨name, offset, ⟨offset', after, args, rfl, ⟨h, hargs⟩, ht⟩ | ⟨rfl, hopen, ht⟩⟩
    · refine ⟨by simp only [List.length_cons]; omega, ?_⟩
      rw [parseTerm, hargs, ok_bind, ht]
      rfl
    · refine ⟨by simp, ?_⟩
      rw [parseTerm, ht]
      · rfl
      · exact hopen

theorem reads_parseArgs :
    Reads (parseArgs tokens) args rest ↔ ∃ t mid, Reads (parseType tokens) t mid ∧
      ((∃ o o' o'', mid = ⟨.comma, o⟩ :: ⟨.ellipsis, o'⟩ :: ⟨.closeBracket, o''⟩ :: rest ∧
          ⟨[t], true⟩ = args) ∨
        (∃ o after more, mid = ⟨.comma, o⟩ :: after ∧
          (∀ o' after', after ≠ ⟨.ellipsis, o'⟩ :: after') ∧ Reads (parseArgs after) more rest ∧
          ⟨t :: more.types, more.isOpen⟩ = args) ∨
        ∃ o, mid = ⟨.closeBracket, o⟩ :: rest ∧ ⟨[t], false⟩ = args) := by
  rw [parseArgs]
  constructor
  · rintro ⟨h, hok⟩
    obtain ⟨⟨t, mid, hmid⟩, ht, hok⟩ := bind_eq_ok_iff.mp hok
    refine ⟨t, mid, ⟨hmid, ht⟩, ?_⟩
    dsimp only at hok
    split at hok
    · obtain ⟨⟨u, rest', h'⟩, hclose, hok⟩ := bind_eq_ok_iff.mp hok
      cases hok
      obtain ⟨offset, rfl⟩ := reads_closeBracket.mp ⟨h', hclose⟩
      exact .inl ⟨_, _, _, rfl, rfl⟩
    next hellipsis =>
      obtain ⟨⟨more, rest', h'⟩, hmore, hok⟩ := bind_eq_ok_iff.mp hok
      cases hok
      refine .inr (.inl ⟨_, _, more, rfl, ?_, ⟨h', hmore⟩, rfl⟩)
      rintro o' after' rfl
      exact hellipsis _ _ _ rfl HEq.rfl
    · obtain ⟨⟨u, rest', h'⟩, hclose, hok⟩ := bind_eq_ok_iff.mp hok
      cases hok
      obtain ⟨offset, rfl⟩ := reads_closeBracket.mp ⟨h', hclose⟩
      exact .inr (.inr ⟨_, rfl, rfl⟩)
  · rintro ⟨t, mid, ⟨hmid, ht⟩, hmore⟩
    rcases hmore with ⟨o, o', o'', rfl, rfl⟩ | ⟨o, after, more, rfl, hellipsis, ⟨h, hmore⟩, rfl⟩ |
      ⟨o, rfl, rfl⟩
    · refine ⟨by simp only [List.length_cons] at hmid; omega, ?_⟩
      rw [ht, ok_bind]
      rfl
    · refine ⟨by simp only [List.length_cons] at hmid; omega, ?_⟩
      rw [ht, ok_bind]
      dsimp only
      split
      next heq _ =>
        cases heq
        exact absurd rfl (hellipsis _ _)
      next heq _ =>
        cases heq
        rw [hmore]
        rfl
      next hcomma => exact (hcomma _ _ _ rfl HEq.rfl).elim
    · refine ⟨by simp only [List.length_cons] at hmid; omega, ?_⟩
      rw [ht, ok_bind]
      rfl

end

/-! ### Soundness -/

-- The induction follows the parser: on the number of tokens, and then on the level of the grammar.
mutual

/-- What is read as terms derives from the grammar as a phrase that means these terms. -/
theorem exists_phrase_of_terms {tokens rest : List Lexeme} {terms : List Ty}
    (h : Reads (parseTerms tokens) terms rest) :
    ∃ φ : TypePhrase, φ.terms? = some terms ∧
      tokens.map Lexeme.token = φ.tokens ++ rest.map Lexeme.token := by
  obtain ⟨t, mid, hterm, hmore⟩ := reads_parseTerms.mp h
  obtain ⟨ψ, hψ, htokens⟩ := exists_phrase_of_term hterm
  rcases hmore with ⟨offset, after, more, rfl, hmore, rfl⟩ | ⟨-, rfl, rfl⟩
  · obtain ⟨φ, hφ, hafter⟩ := exists_phrase_of_terms hmore
    refine ⟨.bar ψ φ, TypePhrase.terms?_bar.mpr ⟨t, more, hψ, hφ, rfl⟩, ?_⟩
    rw [htokens, List.map_cons, hafter, TypePhrase.tokens, List.append_assoc, List.cons_append]
  · exact ⟨.term ψ, TypePhrase.terms?_term.mpr ⟨t, hψ, rfl⟩, htokens⟩
termination_by (tokens.length, 1)
decreasing_by
  · exact Prod.Lex.right _ (by decide)
  · obtain ⟨hlt, -⟩ := hterm
    simp only [List.length_cons] at hlt
    exact Prod.Lex.left _ _ (by omega)

theorem exists_phrase_of_term {tokens rest : List Lexeme} {t : Ty}
    (h : Reads (parseTerm tokens) t rest) :
    ∃ φ : TermPhrase, φ.type? = some t ∧
      tokens.map Lexeme.token = φ.tokens ++ rest.map Lexeme.token := by
  obtain ⟨name, offset, ⟨offset', after, args, rfl, hargs, ht⟩ | ⟨rfl, -, ht⟩⟩ :=
    reads_parseTerm.mp h
  · obtain ⟨ψ, hψ, hafter⟩ := exists_phrase_of_args hargs
    refine ⟨.applied name ψ, TermPhrase.type?_applied.mpr ⟨args, hψ, ofTerm_eq_ok.mp ht⟩, ?_⟩
    simp only [List.map_cons, hafter, TermPhrase.tokens, List.cons_append, List.append_assoc,
      List.nil_append]
  · exact ⟨.name name, ofTerm_eq_ok.mp ht, rfl⟩
termination_by (tokens.length, 0)
decreasing_by
  subst tokens
  exact Prod.Lex.left _ _ (by simp only [List.length_cons]; omega)

theorem exists_phrase_of_args {tokens rest : List Lexeme} {args : TypeArgs}
    (h : Reads (parseArgs tokens) args rest) :
    ∃ φ : ArgsPhrase, φ.args? = some args ∧
      tokens.map Lexeme.token = φ.tokens ++ .closeBracket :: rest.map Lexeme.token := by
  obtain ⟨t, mid, ht, hmore⟩ := reads_parseArgs.mp h
  obtain ⟨terms, hterms, hmeans⟩ := reads_parseType.mp ht
  obtain ⟨ψ, hψ, htokens⟩ := exists_phrase_of_terms hterms
  have htype : ψ.type? = some t := TypePhrase.type?_eq_some.mpr ⟨terms, hψ, hmeans⟩
  rcases hmore with ⟨o, o', o'', rfl, rfl⟩ | ⟨o, after, more, rfl, -, hmore, rfl⟩ | ⟨o, rfl, rfl⟩
  · refine ⟨.ellipsis ψ, ArgsPhrase.args?_ellipsis.mpr ⟨t, htype, rfl⟩, ?_⟩
    rw [htokens, ArgsPhrase.tokens, List.append_assoc]
    rfl
  · obtain ⟨φ, hφ, hafter⟩ := exists_phrase_of_args hmore
    refine ⟨.comma ψ φ, ArgsPhrase.args?_comma.mpr ⟨t, more, htype, hφ, rfl⟩, ?_⟩
    rw [htokens, List.map_cons, hafter, ArgsPhrase.tokens, List.append_assoc, List.cons_append]
  · exact ⟨.last ψ, ArgsPhrase.args?_last.mpr ⟨t, htype, rfl⟩, htokens⟩
termination_by (tokens.length, 3)
decreasing_by
  · exact Prod.Lex.right _ (by decide)
  · obtain ⟨hlt, -⟩ := hterms
    simp only [List.length_cons] at hlt
    exact Prod.Lex.left _ _ (by omega)

end

/-! ### Completeness -/

theorem exists_lexeme_of_map_eq_cons {tokens : List Lexeme} {t : Token} {ts : List Token}
    (h : tokens.map Lexeme.token = t :: ts) :
    ∃ offset after, tokens = ⟨t, offset⟩ :: after ∧ after.map Lexeme.token = ts := by
  obtain ⟨⟨t, offset⟩, after, rfl, rfl, hafter⟩ := List.map_eq_cons_iff.mp h
  exact ⟨offset, after, rfl, hafter⟩

mutual

/-- A phrase is read with its meaning in front of tokens that cannot go on with it. -/
theorem reads_of_typePhrase (φ : TypePhrase) {front : List Lexeme} (rest : List Lexeme)
    {terms : List Ty} (hfront : front.map Lexeme.token = φ.tokens)
    (hrest : EndsType (rest.map Lexeme.token)) (hφ : φ.terms? = some terms) :
    Reads (parseTerms (front ++ rest)) terms rest := by
  cases φ with
  | term ψ =>
      obtain ⟨t, ht, rfl⟩ := TypePhrase.terms?_term.mp hφ
      have hread := reads_of_termPhrase ψ rest hfront hrest.1 ht
      refine reads_parseTerms.mpr ⟨t, rest, hread, .inr ⟨?_, rfl, rfl⟩⟩
      rintro offset after rfl
      exact hrest.2 rfl
  | bar ψ φ =>
      obtain ⟨t, more, ht, hmore, rfl⟩ := TypePhrase.terms?_bar.mp hφ
      obtain ⟨head, tail, rfl, hhead, htail⟩ := List.map_eq_append_iff.mp hfront
      obtain ⟨offset, after, rfl, hafter⟩ := exists_lexeme_of_map_eq_cons htail
      have hread := reads_of_termPhrase ψ (⟨.pipe, offset⟩ :: (after ++ rest)) hhead
        (endsTerm_pipe _) ht
      have hreads := reads_of_typePhrase φ rest hafter hrest hmore
      rw [List.append_assoc, List.cons_append]
      exact reads_parseTerms.mpr ⟨t, _, hread, .inl ⟨offset, _, more, rfl, hreads, rfl⟩⟩

theorem reads_of_termPhrase (φ : TermPhrase) {front : List Lexeme} (rest : List Lexeme) {t : Ty}
    (hfront : front.map Lexeme.token = φ.tokens) (hrest : EndsTerm (rest.map Lexeme.token))
    (hφ : φ.type? = some t) : Reads (parseTerm (front ++ rest)) t rest := by
  cases φ with
  | name name =>
      obtain ⟨offset, tail, rfl, htail⟩ := exists_lexeme_of_map_eq_cons hfront
      obtain rfl := List.map_eq_nil_iff.mp htail
      refine reads_parseTerm.mpr ⟨name, offset, .inr ⟨rfl, ?_, ofTerm_eq_ok.mpr hφ⟩⟩
      rintro offset' after rfl
      exact hrest rfl
  | applied name ψ =>
      obtain ⟨args, hargs, ht⟩ := TermPhrase.type?_applied.mp hφ
      obtain ⟨offset, tail, rfl, htail⟩ := exists_lexeme_of_map_eq_cons hfront
      obtain ⟨offset', after, rfl, hafter⟩ := exists_lexeme_of_map_eq_cons htail
      have hread := reads_of_argsPhrase ψ rest hafter hargs
      exact reads_parseTerm.mpr
        ⟨name, offset, .inl ⟨offset', _, args, rfl, hread, ofTerm_eq_ok.mpr ht⟩⟩

theorem reads_of_argsPhrase (φ : ArgsPhrase) {front : List Lexeme} (rest : List Lexeme)
    {args : TypeArgs} (hfront : front.map Lexeme.token = φ.tokens ++ [.closeBracket])
    (hφ : φ.args? = some args) :
    Reads (parseArgs (front ++ rest)) args rest := by
  obtain ⟨inside, close, rfl, hinside, hclose⟩ := List.map_eq_append_iff.mp hfront
  obtain ⟨o, tail, rfl, htail⟩ := exists_lexeme_of_map_eq_cons hclose
  obtain rfl := List.map_eq_nil_iff.mp htail
  rw [List.append_assoc, List.cons_append, List.nil_append]
  cases φ with
  | last ψ =>
      obtain ⟨t, ht, rfl⟩ := ArgsPhrase.args?_last.mp hφ
      obtain ⟨terms, hterms, hmeans⟩ := TypePhrase.type?_eq_some.mp ht
      have hread := reads_of_typePhrase ψ (⟨.closeBracket, o⟩ :: rest) hinside
        (endsType_closeBracket _) hterms
      exact reads_parseArgs.mpr
        ⟨t, _, reads_parseType.mpr ⟨terms, hread, hmeans⟩, .inr (.inr ⟨o, rfl, rfl⟩)⟩
  | ellipsis ψ =>
      obtain ⟨t, ht, rfl⟩ := ArgsPhrase.args?_ellipsis.mp hφ
      obtain ⟨terms, hterms, hmeans⟩ := TypePhrase.type?_eq_some.mp ht
      obtain ⟨head, tail, rfl, hhead, htail⟩ := List.map_eq_append_iff.mp hinside
      obtain ⟨o', dots, rfl, hdots⟩ := exists_lexeme_of_map_eq_cons htail
      obtain ⟨o'', none, rfl, hnone⟩ := exists_lexeme_of_map_eq_cons hdots
      obtain rfl := List.map_eq_nil_iff.mp hnone
      have hread := reads_of_typePhrase ψ
        (⟨.comma, o'⟩ :: ⟨.ellipsis, o''⟩ :: ⟨.closeBracket, o⟩ :: rest) hhead (endsType_comma _)
        hterms
      rw [List.append_assoc]
      exact reads_parseArgs.mpr
        ⟨t, _, reads_parseType.mpr ⟨terms, hread, hmeans⟩, .inl ⟨o', o'', o, rfl, rfl⟩⟩
  | comma ψ φ =>
      obtain ⟨t, more, ht, hmore, rfl⟩ := ArgsPhrase.args?_comma.mp hφ
      obtain ⟨terms, hterms, hmeans⟩ := TypePhrase.type?_eq_some.mp ht
      obtain ⟨head, tail, rfl, hhead, htail⟩ := List.map_eq_append_iff.mp hinside
      obtain ⟨o', after, rfl, hafter⟩ := exists_lexeme_of_map_eq_cons htail
      have hread := reads_of_typePhrase ψ (⟨.comma, o'⟩ :: (after ++ ⟨.closeBracket, o⟩ :: rest))
        hhead (endsType_comma _) hterms
      have hinner :
          List.map Lexeme.token (after ++ [⟨.closeBracket, o⟩]) = φ.tokens ++ [.closeBracket] := by
        rw [List.map_append, hafter]
        rfl
      have hreads := reads_of_argsPhrase φ rest hinner hmore
      rw [List.append_assoc] at hreads ⊢
      refine reads_parseArgs.mpr ⟨t, _, reads_parseType.mpr ⟨terms, hread, hmeans⟩,
        .inr (.inl ⟨o', _, more, rfl, ?_, hreads, rfl⟩)⟩
      -- The parser would take an ellipsis for the end, but no argument begins with one.
      intro o'' after' heq
      have htokens := congrArg (List.map Lexeme.token) heq
      rw [List.map_append, hafter] at htokens
      exact φ.tokens_append_ne_ellipsis htokens

end

/-! ### Whole annotations -/

theorem ofLexemes_eq_ok {tokens : List Lexeme} {t : Ty} :
    ofLexemes tokens = .ok t ↔ tokens ≠ [] ∧ Reads (parseType tokens) t [] := by
  cases tokens with
  | nil => exact ⟨nofun, fun h => absurd rfl h.1⟩
  | cons l ls =>
      unfold ofLexemes
      simp only [List.isEmpty_cons, Bool.false_eq_true, if_false, ne_eq, reduceCtorEq,
        not_false_eq_true, true_and, bind_eq_ok_iff]
      constructor
      · rintro ⟨⟨t', rest, h⟩, hread, hok⟩
        cases rest with
        | nil =>
            cases hok
            exact ⟨h, hread⟩
        | cons extra rest => cases hok
      · rintro ⟨h, hread⟩
        exact ⟨_, hread, rfl⟩

/-- The phrase derives the tokens of the text, of which there is at least one. -/
def Derives (φ : TypePhrase) (source : String) : Prop :=
  ∃ tokens, tokenize source = .ok tokens ∧ tokens ≠ [] ∧ φ.tokens = tokens.map Lexeme.token

theorem Derives.unique {φ φ' : TypePhrase} {source : String} (h : Derives φ source)
    (h' : Derives φ' source) : φ = φ' := by
  obtain ⟨tokens, hsource, -, htokens⟩ := h
  obtain ⟨tokens', hsource', -, htokens'⟩ := h'
  cases hsource.symm.trans hsource'
  exact TypePhrase.tokens_injective (htokens.trans htokens'.symm)

/-- A text denotes a type exactly if a phrase that denotes the type derives its tokens. -/
theorem ofText_eq_ok {source : String} {t : Ty} :
    ofText source = .ok t ↔ ∃ φ, Derives φ source ∧ φ.type? = some t := by
  simp only [ofText, bind_eq_ok_iff, ofLexemes_eq_ok]
  constructor
  · rintro ⟨tokens, hsource, hne, hread⟩
    obtain ⟨terms, hterms, hmeans⟩ := reads_parseType.mp hread
    obtain ⟨φ, hφ, htokens⟩ := exists_phrase_of_terms hterms
    rw [List.map_nil, List.append_nil] at htokens
    exact ⟨φ, ⟨tokens, hsource, hne, htokens.symm⟩,
      TypePhrase.type?_eq_some.mpr ⟨terms, hφ, hmeans⟩⟩
  · rintro ⟨φ, ⟨tokens, hsource, hne, htokens⟩, ht⟩
    obtain ⟨terms, hφ, hmeans⟩ := TypePhrase.type?_eq_some.mp ht
    have hread := reads_of_typePhrase φ [] htokens.symm endsType_nil hφ
    rw [List.append_nil] at hread
    exact ⟨tokens, hsource, hne, reads_parseType.mpr ⟨terms, hread, hmeans⟩⟩

end Ty

end GuardedObjects
