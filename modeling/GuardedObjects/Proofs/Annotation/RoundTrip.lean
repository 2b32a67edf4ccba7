import Mathlib
import GuardedObjects.Proofs.Annotation.Lexing
import GuardedObjects.Proofs.Annotation.Parsing
import GuardedObjects.Proofs.Ty.Splicing

/-!
# Reading types back

The text of a type that an annotation denotes is read back as the type, but for unions that stand
directly inside unions: their brackets are not in the text, and so their alternatives are read in
their place.
-/

namespace GuardedObjects

/-! ### What annotations denote -/

namespace Ty

/-- What a term may denote: its alternatives, of which there is at least one, are denotable. -/
def IsTerm (t : Ty) : Prop := t.alternatives ≠ [] ∧ ∀ a ∈ t.alternatives, a.Denotable

variable {t : Ty} {ts : List Ty}

theorem isTerm_union (hne : ts ≠ []) (h : ∀ t ∈ ts, t.Denotable) : (union ts).IsTerm := ⟨hne, h⟩

theorem Denotable.isTerm (h : t.Denotable) : t.IsTerm := by
  by_cases hplain : t.IsPlain
  · rw [IsTerm, hplain.alternatives]
    exact ⟨by simp, by simpa using h⟩
  · cases h with
    | union htwo hts => exact isTerm_union (List.ne_nil_of_length_pos (by omega)) hts
    | _ => exact absurd nofun hplain

theorem denotable_ofAlternatives (hne : ts ≠ []) (h : ∀ t ∈ ts, t.IsTerm) :
    (ofAlternatives ts).Denotable := by
  have hall : ∀ a ∈ ts.flatMap alternatives, a.Denotable := by
    intro a ha
    obtain ⟨t, ht, ha⟩ := List.mem_flatMap.mp ha
    exact (h t ht).2 a ha
  have hsome : ts.flatMap alternatives ≠ [] := by
    obtain ⟨t, ht⟩ := List.exists_mem_of_ne_nil ts hne
    intro hnil
    exact (h t ht).1 (List.flatMap_eq_nil_iff.mp hnil t ht)
  rw [ofAlternatives]
  split
  next heq => exact hall _ (by simp [heq])
  next hmany =>
    refine .union ?_ hall
    rcases hlist : ts.flatMap alternatives with _ | ⟨a, _ | ⟨b, rest⟩⟩
    · exact absurd hlist hsome
    · exact absurd hlist (hmany a)
    · simp

/-- A word with a name in front of denotable arguments denotes a term. -/
theorem isTerm_of_word {name : String} {args : Option TypeArgs}
    (hname : isIdentifier name.toList = true)
    (hargs : ∀ as ∈ args, as.types ≠ [] ∧ ∀ t ∈ as.types, t.Denotable)
    (h : (TypeWord.ofName name).type? name args = some t) : t.IsTerm := by
  have hbase := TypeWord.ofName_ne_varTuple name
  generalize hword : TypeWord.ofName name = word at h hbase
  cases word with
  | primitive kind =>
      obtain ⟨-, rfl⟩ := TypeWord.type?_primitive.mp h
      exact (Denotable.primitive kind).isTerm
  | any =>
      obtain ⟨-, rfl⟩ := TypeWord.type?_any.mp h
      exact Denotable.any.isTerm
  | noValue =>
      obtain ⟨-, rfl⟩ := TypeWord.type?_noValue.mp h
      exact Denotable.noValue.isTerm
  | cls =>
      obtain ⟨-, rfl⟩ := TypeWord.type?_cls.mp h
      exact (Denotable.cls hname hword).isTerm
  | container base =>
      have hne : base ≠ .varTuple := by simpa using hbase
      obtain ⟨-, rfl⟩ | ⟨as, base', rfl, -, harity, rfl⟩ := (TypeWord.type?_container hne).mp h
      · exact (Denotable.bare hne).isTerm
      · obtain ⟨has, htypes⟩ := hargs as rfl
        exact (Denotable.generic has harity htypes).isTerm
  | optional =>
      obtain ⟨a, rfl, rfl⟩ := TypeWord.type?_optional.mp h
      have ha := (hargs _ rfl).2 a (by simp)
      exact isTerm_union (by simp) (List.forall_mem_cons.mpr ⟨ha, by simpa using .noValue⟩)
  | const =>
      obtain ⟨a, rfl, rfl⟩ := TypeWord.type?_const.mp h
      have ha := (hargs _ rfl).2 a (by simp)
      exact (Denotable.const ha).isTerm
  | union =>
      obtain ⟨ts, rfl, rfl⟩ := TypeWord.type?_union.mp h
      obtain ⟨has, htypes⟩ := hargs _ rfl
      exact isTerm_union has htypes

end Ty

mutual

theorem TypePhrase.isTerm (φ : TypePhrase) {ts : List Ty} (hform : ∀ t ∈ φ.tokens, t.WellFormed)
    (h : φ.terms? = some ts) : ts ≠ [] ∧ ∀ t ∈ ts, t.IsTerm := by
  cases φ with
  | term ψ =>
      obtain ⟨t, ht, rfl⟩ := TypePhrase.terms?_term.mp h
      exact ⟨by simp, by simpa using ψ.isTerm hform ht⟩
  | bar ψ φ =>
      obtain ⟨t, more, ht, hmore, rfl⟩ := TypePhrase.terms?_bar.mp h
      have hhead := ψ.isTerm (fun t ht => hform t (by simp [TypePhrase.tokens, ht])) ht
      have htail := φ.isTerm (fun t ht => hform t (by simp [TypePhrase.tokens, ht])) hmore
      exact ⟨by simp, List.forall_mem_cons.mpr ⟨hhead, htail.2⟩⟩

theorem TermPhrase.isTerm (φ : TermPhrase) {t : Ty} (hform : ∀ t ∈ φ.tokens, t.WellFormed)
    (h : φ.type? = some t) : t.IsTerm := by
  cases φ with
  | name name =>
      have hname : (Token.ident name).WellFormed := hform _ (by simp [TermPhrase.tokens])
      exact Ty.isTerm_of_word hname (by simp) h
  | applied name ψ =>
      obtain ⟨as, has, ht⟩ := TermPhrase.type?_applied.mp h
      have hname : (Token.ident name).WellFormed := hform _ (by simp [TermPhrase.tokens])
      have hargs := ψ.denotable (fun t ht => hform t (by simp [TermPhrase.tokens, ht])) has
      refine Ty.isTerm_of_word hname ?_ ht
      rintro as ⟨⟩
      exact hargs

theorem ArgsPhrase.denotable (φ : ArgsPhrase) {as : TypeArgs}
    (hform : ∀ t ∈ φ.tokens, t.WellFormed) (h : φ.args? = some as) :
    as.types ≠ [] ∧ ∀ t ∈ as.types, t.Denotable := by
  cases φ with
  | last ψ =>
      obtain ⟨t, ht, rfl⟩ := ArgsPhrase.args?_last.mp h
      obtain ⟨ts, hts, rfl⟩ := TypePhrase.type?_eq_some.mp ht
      obtain ⟨hne, hterms⟩ := ψ.isTerm hform hts
      exact ⟨by simp, by simpa using Ty.denotable_ofAlternatives hne hterms⟩
  | ellipsis ψ =>
      obtain ⟨t, ht, rfl⟩ := ArgsPhrase.args?_ellipsis.mp h
      obtain ⟨ts, hts, rfl⟩ := TypePhrase.type?_eq_some.mp ht
      obtain ⟨hne, hterms⟩ := ψ.isTerm (fun t ht => hform t (by simp [ArgsPhrase.tokens, ht])) hts
      exact ⟨by simp, by simpa using Ty.denotable_ofAlternatives hne hterms⟩
  | comma ψ φ =>
      obtain ⟨t, more, ht, hmore, rfl⟩ := ArgsPhrase.args?_comma.mp h
      obtain ⟨ts, hts, rfl⟩ := TypePhrase.type?_eq_some.mp ht
      obtain ⟨hne, hterms⟩ := ψ.isTerm (fun t ht => hform t (by simp [ArgsPhrase.tokens, ht])) hts
      obtain ⟨-, hrest⟩ := φ.denotable (fun t ht => hform t (by simp [ArgsPhrase.tokens, ht])) hmore
      have hfirst := Ty.denotable_ofAlternatives hne hterms
      exact ⟨by simp, List.forall_mem_cons.mpr ⟨hfirst, hrest⟩⟩

end

/-- An annotation denotes nothing but denotable types. -/
theorem Ty.denotable_of_ofText {source : String} {t : Ty} (h : Ty.ofText source = .ok t) :
    t.Denotable := by
  obtain ⟨φ, ⟨tokens, hsource, -, htokens⟩, ht⟩ := Ty.ofText_eq_ok.mp h
  obtain ⟨ts, hts, rfl⟩ := TypePhrase.type?_eq_some.mp ht
  have hform : ∀ t ∈ φ.tokens, t.WellFormed := by
    rw [htokens]
    exact List.forall_mem_map.mpr (wellFormed_of_tokenize hsource)
  obtain ⟨hne, hterms⟩ := φ.isTerm hform hts
  exact Ty.denotable_ofAlternatives hne hterms

/-! ### Phrases for texts -/

/-- The terms of one phrase and then, behind a bar, those of another. -/
def TypePhrase.or : TypePhrase → TypePhrase → TypePhrase
  | .term t, rest => .bar t rest
  | .bar t more, rest => .bar t (more.or rest)

theorem TypePhrase.tokens_or :
    ∀ φ ψ : TypePhrase, (φ.or ψ).tokens = φ.tokens ++ .pipe :: ψ.tokens
  | .term t, ψ => rfl
  | .bar t φ, ψ => by
      rw [TypePhrase.or, tokens, tokens, tokens_or φ ψ, List.append_assoc, List.cons_append]

theorem TypePhrase.terms?_or {ψ : TypePhrase} {us : List Ty} (hψ : ψ.terms? = some us) :
    ∀ {φ : TypePhrase} {ts : List Ty}, φ.terms? = some ts → (φ.or ψ).terms? = some (ts ++ us)
  | .term t, ts, h => by
      obtain ⟨t', ht, rfl⟩ := terms?_term.mp h
      exact terms?_bar.mpr ⟨t', us, ht, hψ, rfl⟩
  | .bar t φ, ts, h => by
      obtain ⟨t', more, ht, hmore, rfl⟩ := terms?_bar.mp h
      exact terms?_bar.mpr ⟨t', more ++ us, ht, terms?_or hψ hmore, rfl⟩

namespace Ty

/-- The phrase has the spliced alternatives of the type as its terms, and the text of the type
spells it. -/
structure WrittenAs (t : Ty) (φ : TypePhrase) : Prop where
  terms : φ.terms? = some t.spliced.alternatives
  writes : Writes t.text φ.tokens

theorem exists_writtenAs_of_word {t : Ty} (hform : isIdentifier t.text.toList = true)
    (hword : (TypeWord.ofName t.text).type? t.text none = some t)
    (hspliced : t.spliced.alternatives = [t]) : ∃ φ, t.WrittenAs φ :=
  ⟨.term (.name t.text), hspliced ▸ TypePhrase.terms?_term.mpr ⟨t, hword, rfl⟩,
    writes_ident hform⟩

theorem exists_typePhrase {ts : List Ty} (hne : ts ≠ []) (h : ∀ t ∈ ts, ∃ φ, t.WrittenAs φ) :
    ∃ φ : TypePhrase, φ.terms? = some (splicedAlternatives ts) ∧
      Writes (textOf " | " ts) φ.tokens := by
  induction ts with
  | nil => exact absurd rfl hne
  | cons t ts ih =>
      obtain ⟨⟨ψ, hψ⟩, hts⟩ := List.forall_mem_cons.mp h
      by_cases hnil : ts = []
      · subst hnil
        refine ⟨ψ, ?_, ?_⟩
        · rw [hψ.terms, splicedAlternatives, splicedAlternatives, List.append_nil]
        · rw [textOf_singleton]
          exact hψ.writes
      · obtain ⟨φ, hφ, hrest⟩ := ih hnil hts
        refine ⟨ψ.or φ, TypePhrase.terms?_or hφ hψ.terms, ?_⟩
        rw [textOf_cons _ _ hnil, TypePhrase.tokens_or]
        exact hψ.writes.separated hrest separates_bar

theorem WrittenAs.type? {t : Ty} {φ : TypePhrase} (h : t.WrittenAs φ) (ht : t.Denotable) :
    φ.type? = some t.spliced :=
  TypePhrase.type?_eq_some.mpr ⟨_, h.terms, ht.ofAlternatives_spliced⟩

theorem exists_argsPhrase {ts : List Ty} (hne : ts ≠ []) (hts : ∀ t ∈ ts, t.Denotable)
    (h : ∀ t ∈ ts, ∃ φ, t.WrittenAs φ) :
    ∃ ψ : ArgsPhrase, ψ.args? = some ⟨splicedAll ts, false⟩ ∧ Writes (textOf ", " ts) ψ.tokens := by
  induction ts with
  | nil => exact absurd rfl hne
  | cons t ts ih =>
      obtain ⟨⟨φ, hφ⟩, hrest⟩ := List.forall_mem_cons.mp h
      obtain ⟨ht, hts⟩ := List.forall_mem_cons.mp hts
      by_cases hnil : ts = []
      · subst hnil
        refine ⟨.last φ, ArgsPhrase.args?_last.mpr ⟨_, hφ.type? ht, rfl⟩, ?_⟩
        rw [textOf_singleton]
        exact hφ.writes
      · obtain ⟨ψ, hψ, hwrites⟩ := ih hnil hts hrest
        refine ⟨.comma φ ψ, ArgsPhrase.args?_comma.mpr ⟨_, _, hφ.type? ht, hψ, rfl⟩, ?_⟩
        rw [textOf_cons _ _ hnil]
        exact hφ.writes.separated hwrites separates_comma

theorem length_splicedAll (ts : List Ty) : (splicedAll ts).length = ts.length := by
  induction ts with
  | nil => rfl
  | cons t ts ih => rw [splicedAll, List.length_cons, List.length_cons, ih]

theorem containerOf_false {base : Container} (h : base ≠ .varTuple) :
    containerOf base false = some base := by
  cases base <;> rfl

theorem exists_writtenAs_generic {base : Container} {args : List Ty} (hbase : base ≠ .varTuple)
    (hne : args ≠ []) (harity : ∀ n ∈ base.arity, args.length = n)
    (hargs : ∀ t ∈ args, t.Denotable) (h : ∀ t ∈ args, ∃ φ, t.WrittenAs φ) :
    ∃ φ, (generic base args).WrittenAs φ := by
  obtain ⟨ψ, hψ, hwrites⟩ := exists_argsPhrase hne hargs h
  have hword : (TypeWord.ofName base.text).type? base.text (some ⟨splicedAll args, false⟩) =
      some (.generic base (splicedAll args)) := by
    rw [TypeWord.ofName_text hbase, TypeWord.type?_container hbase]
    exact .inr ⟨_, base, rfl, containerOf_false hbase, by rwa [length_splicedAll], rfl⟩
  have hterm := TermPhrase.type?_applied.mpr ⟨_, hψ, hword⟩
  refine ⟨.term (.applied base.text ψ), TypePhrase.terms?_term.mpr ⟨_, hterm, rfl⟩, ?_⟩
  rw [text, if_neg (by simpa using hne), if_neg hbase]
  exact hwrites.bracketed (by cases base <;> decide) separates_closeBracket

theorem WrittenAs.varTuple {t : Ty} {φ : TypePhrase} (h : t.WrittenAs φ) (ht : t.Denotable) :
    (generic .varTuple [t]).WrittenAs (.term (.applied "tuple" (.ellipsis φ))) := by
  have hellipsis := ArgsPhrase.args?_ellipsis.mpr ⟨_, h.type? ht, rfl⟩
  have hterm : (TermPhrase.applied "tuple" (.ellipsis φ)).type? =
      some (.generic .varTuple [t.spliced]) := TermPhrase.type?_applied.mpr ⟨_, hellipsis, rfl⟩
  refine ⟨TypePhrase.terms?_term.mpr ⟨_, hterm, rfl⟩, ?_⟩
  rw [text, if_neg (by simp), if_pos rfl, textOf_singleton]
  simp only [TypePhrase.tokens, TermPhrase.tokens, ArgsPhrase.tokens, List.append_assoc]
  exact h.writes.bracketed (by decide) separates_ellipsis

theorem WrittenAs.const {t : Ty} {φ : TypePhrase} (h : t.WrittenAs φ) (ht : t.Denotable) :
    t.const.WrittenAs (.term (.applied "const" (.last φ))) := by
  have hlast := ArgsPhrase.args?_last.mpr ⟨_, h.type? ht, rfl⟩
  have hterm : (TermPhrase.applied "const" (.last φ)).type? = some t.spliced.const :=
    TermPhrase.type?_applied.mpr ⟨_, hlast, rfl⟩
  have htext : t.const.text = "const" ++ "[" ++ t.text ++ "]" := by
    rw [text]
    rfl
  refine ⟨TypePhrase.terms?_term.mpr ⟨_, hterm, rfl⟩, ?_⟩
  rw [htext]
  exact h.writes.bracketed (by decide) separates_closeBracket

/-- Every denotable type has a phrase that its text spells. -/
theorem Denotable.exists_writtenAs {t : Ty} (h : t.Denotable) : ∃ φ, t.WrittenAs φ := by
  induction h with
  | any => exact exists_writtenAs_of_word (by decide) rfl rfl
  | primitive kind => cases kind <;> exact exists_writtenAs_of_word (by decide) rfl rfl
  | noValue => exact exists_writtenAs_of_word (by decide) rfl rfl
  | cls hform hword => exact exists_writtenAs_of_word hform (by rw [text, hword]; rfl) rfl
  | @bare base hbase =>
      cases base with
      | varTuple => exact absurd rfl hbase
      | _ => exact exists_writtenAs_of_word (by decide) rfl rfl
  | @generic base args hne harity hargs ih =>
      by_cases hbase : base = .varTuple
      · subst hbase
        obtain ⟨t, rfl⟩ := List.length_eq_one_iff.mp (harity 1 rfl)
        obtain ⟨φ, hφ⟩ := ih t (by simp)
        exact ⟨_, hφ.varTuple (hargs t (by simp))⟩
      · exact exists_writtenAs_generic hbase hne harity hargs ih
  | union htwo hts ih =>
      obtain ⟨φ, hφ, hwrites⟩ := exists_typePhrase (List.ne_nil_of_length_pos (by omega)) ih
      exact ⟨φ, hφ, hwrites⟩
  | const ht ih =>
      obtain ⟨φ, hφ⟩ := ih
      exact ⟨_, hφ.const ht⟩

theorem Denotable.reads_back {t : Ty} (h : t.Denotable) : ofText t.text = .ok t.spliced := by
  obtain ⟨φ, hφ⟩ := h.exists_writtenAs
  obtain ⟨tokens, hsource, htokens⟩ := tokenize_of_spells hφ.writes.spells
  refine ofText_eq_ok.mpr ⟨φ, ⟨tokens, hsource, ?_, htokens.symm⟩, hφ.type? h⟩
  rintro rfl
  obtain ⟨name, ts, hne⟩ := φ.exists_tokens_eq_cons
  exact nomatch htokens.trans hne

/-- What an annotation denotes is read back from its text, with nested unions spliced. The spliced
type has the same text, and so it is read back as it is; and it is const, no value or names a class
where the type does. -/
theorem ofText_text {source : String} {t : Ty} (h : ofText source = .ok t) :
    ofText t.text = .ok t.spliced ∧ t.spliced.text = t.text ∧
      ofText t.spliced.text = .ok t.spliced ∧ t.spliced.isConst = t.isConst ∧
      t.spliced.isNoValue = t.isNoValue ∧ t.spliced.classNames = t.classNames := by
  have hdenotable := denotable_of_ofText h
  have hback := hdenotable.reads_back
  have htext := hdenotable.text_spliced
  exact ⟨hback, htext, by rw [htext, hback], isConst_spliced t, isNoValue_spliced t,
    classNames_spliced t⟩

theorem ofText_text_leaves :
    ofText "Union[Optional[Leaf], int]" =
        .ok (.union [.union [.cls "Leaf", .noValue], .primitive .int]) ∧
      ofText "Leaf | None | int" = .ok (.union [.cls "Leaf", .noValue, .primitive .int]) := by
  have h : ofText "Union[Optional[Leaf], int]" =
      .ok (.union [.union [.cls "Leaf", .noValue], .primitive .int]) := by cbv
  exact ⟨h, (ofText_text h).1⟩

end Ty

end GuardedObjects
