import GuardedObjects.Annotation.Parser
import Mathlib.Logic.Basic

/-!
# The grammar of annotations

A phrase is a derivation of a token sequence by the grammar

    type  := term ('|' term)*
    term  := IDENT ('[' args ']')?
    args  := type (',' type)* (',' '...')?

It says nothing of what the identifiers mean, and so it denotes a type only where every identifier
stands with as many arguments as its word takes. No token sequence has two derivations.
-/

namespace GuardedObjects

mutual

inductive TypePhrase where
  | term (t : TermPhrase)
  /-- A term and, behind a bar, more of them. -/
  | bar (t : TermPhrase) (rest : TypePhrase)

inductive TermPhrase where
  | name (name : String)
  /-- A name with arguments between brackets. -/
  | applied (name : String) (args : ArgsPhrase)

inductive ArgsPhrase where
  | last (t : TypePhrase)
  /-- The last argument, with an ellipsis behind it. -/
  | ellipsis (t : TypePhrase)
  | comma (t : TypePhrase) (rest : ArgsPhrase)

end

/-! ### Tokens of a phrase -/

mutual

def TypePhrase.tokens : TypePhrase → List Token
  | .term t => t.tokens
  | .bar t rest => t.tokens ++ .pipe :: rest.tokens

def TermPhrase.tokens : TermPhrase → List Token
  | .name name => [.ident name]
  | .applied name args => .ident name :: .openBracket :: (args.tokens ++ [.closeBracket])

def ArgsPhrase.tokens : ArgsPhrase → List Token
  | .last t => t.tokens
  | .ellipsis t => t.tokens ++ [.comma, .ellipsis]
  | .comma t rest => t.tokens ++ .comma :: rest.tokens

end

/-! ### Meaning -/

/-- The type that a word denotes under a name, without brackets or with arguments between brackets.
Primitives, `any`, `None` and classes take no brackets. Containers may do without; a list or a set
takes one argument, a dict two, and a tuple any number, or one with an ellipsis. An optional and a
const take one argument, and a union at least one. -/
def TypeWord.type? (name : String) : TypeWord → Option TypeArgs → Option Ty
  | .primitive kind, none => some (.primitive kind)
  | .any, none => some .any
  | .noValue, none => some .noValue
  | .cls, none => some (.cls name)
  | .container base, none => some (.generic base [])
  | .container .list, some ⟨[t], false⟩ => some (.generic .list [t])
  | .container .set, some ⟨[t], false⟩ => some (.generic .set [t])
  | .container .dict, some ⟨[k, v], false⟩ => some (.generic .dict [k, v])
  | .container .tuple, some ⟨ts, false⟩ => some (.generic .tuple ts)
  | .container .tuple, some ⟨[t], true⟩ => some (.generic .varTuple [t])
  | .optional, some ⟨[t], false⟩ => some (.optional t)
  | .const, some ⟨[t], false⟩ => some (.const t)
  | .union, some ⟨ts, false⟩ => some (.union ts)
  | _, _ => none

namespace TypeWord

variable {name : String} {args : Option TypeArgs} {t : Ty}

theorem type?_primitive {kind : Primitive} :
    (primitive kind).type? name args = some t ↔ args = none ∧ .primitive kind = t := by
  cases args <;> simp [type?]

theorem type?_any : any.type? name args = some t ↔ args = none ∧ .any = t := by
  cases args <;> simp [type?]

theorem type?_noValue : noValue.type? name args = some t ↔ args = none ∧ .noValue = t := by
  cases args <;> simp [type?]

theorem type?_cls : cls.type? name args = some t ↔ args = none ∧ .cls name = t := by
  cases args <;> simp [type?]

theorem type?_optional :
    optional.type? name args = some t ↔ ∃ a, args = some ⟨[a], false⟩ ∧ .optional a = t := by
  rcases args with _ | ⟨_ | ⟨a, _ | ⟨b, ts⟩⟩, _ | _⟩ <;> simp [type?]

theorem type?_const :
    const.type? name args = some t ↔ ∃ a, args = some ⟨[a], false⟩ ∧ .const a = t := by
  rcases args with _ | ⟨_ | ⟨a, _ | ⟨b, ts⟩⟩, _ | _⟩ <;> simp [type?]

theorem type?_union :
    union.type? name args = some t ↔ ∃ ts, args = some ⟨ts, false⟩ ∧ .union ts = t := by
  rcases args with _ | ⟨ts, _ | _⟩ <;> simp [type?]

/-- A container stands without brackets, or with as many arguments as the container takes that the
ending makes of it. -/
theorem type?_container {base : Container} (hbase : base ≠ .varTuple) :
    (container base).type? name args = some t ↔ args = none ∧ .generic base [] = t ∨
      ∃ as base', args = some as ∧ Ty.containerOf base as.isOpen = some base' ∧
        (∀ n ∈ base'.arity, as.types.length = n) ∧ .generic base' as.types = t := by
  -- No container takes more than two arguments, but for the tuple, which takes all.
  rcases args with _ | ⟨_ | ⟨a, _ | ⟨b, _ | ⟨c, ts⟩⟩⟩, _ | _⟩ <;> cases base <;>
    simp [type?, Ty.containerOf, Container.arity] at hbase ⊢

end TypeWord

mutual

/-- The types of the terms of a phrase. -/
def TypePhrase.terms? : TypePhrase → Option (List Ty)
  | .term t => do return [← t.type?]
  | .bar t rest => do return (← t.type?) :: (← rest.terms?)

/-- The type that a term denotes, if all its words have as many arguments as they take. -/
def TermPhrase.type? : TermPhrase → Option Ty
  | .name name => (TypeWord.ofName name).type? name none
  | .applied name args => do (TypeWord.ofName name).type? name (some (← args.args?))

def ArgsPhrase.args? : ArgsPhrase → Option TypeArgs
  | .last t => do return ⟨[.ofAlternatives (← t.terms?)], false⟩
  | .ellipsis t => do return ⟨[.ofAlternatives (← t.terms?)], true⟩
  | .comma t rest => do
    let t := Ty.ofAlternatives (← t.terms?)
    let more ← rest.args?
    return ⟨t :: more.types, more.isOpen⟩

end

/-- The type that a phrase denotes: unions among its terms are spliced into it, and a single
alternative stands for itself. -/
def TypePhrase.type? (t : TypePhrase) : Option Ty := t.terms?.map .ofAlternatives

theorem TypePhrase.terms?_term {t : TermPhrase} {ts : List Ty} :
    (term t).terms? = some ts ↔ ∃ t', t.type? = some t' ∧ [t'] = ts := by
  simp [terms?, Option.bind_eq_some_iff]

theorem TypePhrase.terms?_bar {t : TermPhrase} {rest : TypePhrase} {ts : List Ty} :
    (bar t rest).terms? = some ts ↔
      ∃ t' more, t.type? = some t' ∧ rest.terms? = some more ∧ t' :: more = ts := by
  simp [terms?, Option.bind_eq_some_iff]

theorem TermPhrase.type?_applied {name : String} {args : ArgsPhrase} {t : Ty} :
    (applied name args).type? = some t ↔
      ∃ as, args.args? = some as ∧ (TypeWord.ofName name).type? name (some as) = some t := by
  simp [type?, Option.bind_eq_some_iff]

theorem TypePhrase.type?_eq_some {t : TypePhrase} {t' : Ty} :
    t.type? = some t' ↔ ∃ ts, t.terms? = some ts ∧ .ofAlternatives ts = t' := by
  simp [type?]

theorem ArgsPhrase.args?_last {t : TypePhrase} {as : TypeArgs} :
    (last t).args? = some as ↔ ∃ t', t.type? = some t' ∧ ⟨[t'], false⟩ = as := by
  simp [args?, TypePhrase.type?_eq_some, Option.bind_eq_some_iff]

theorem ArgsPhrase.args?_ellipsis {t : TypePhrase} {as : TypeArgs} :
    (ellipsis t).args? = some as ↔ ∃ t', t.type? = some t' ∧ ⟨[t'], true⟩ = as := by
  simp [args?, TypePhrase.type?_eq_some, Option.bind_eq_some_iff]

theorem ArgsPhrase.args?_comma {t : TypePhrase} {rest : ArgsPhrase} {as : TypeArgs} :
    (comma t rest).args? = some as ↔ ∃ t' more, t.type? = some t' ∧ rest.args? = some more ∧
      ⟨t' :: more.types, more.isOpen⟩ = as := by
  simp [args?, TypePhrase.type?_eq_some, Option.bind_eq_some_iff]

/-! ### One derivation for a token sequence -/

theorem TermPhrase.exists_tokens_eq_cons (t : TermPhrase) :
    ∃ name ts, t.tokens = .ident name :: ts := by
  cases t with
  | name name => exact ⟨name, [], rfl⟩
  | applied name args => exact ⟨name, _, rfl⟩

theorem TypePhrase.exists_tokens_eq_cons (t : TypePhrase) :
    ∃ name ts, t.tokens = .ident name :: ts := by
  cases t with
  | term t => exact t.exists_tokens_eq_cons
  | bar t rest =>
      obtain ⟨name, ts, h⟩ := t.exists_tokens_eq_cons
      exact ⟨name, ts ++ .pipe :: rest.tokens, by rw [TypePhrase.tokens, h, List.cons_append]⟩

theorem ArgsPhrase.exists_tokens_eq_cons (args : ArgsPhrase) :
    ∃ name ts, args.tokens = .ident name :: ts := by
  cases args with
  | last t => exact t.exists_tokens_eq_cons
  | ellipsis t =>
      obtain ⟨name, ts, h⟩ := t.exists_tokens_eq_cons
      exact ⟨name, ts ++ [.comma, .ellipsis], by rw [ArgsPhrase.tokens, h, List.cons_append]⟩
  | comma t rest =>
      obtain ⟨name, ts, h⟩ := t.exists_tokens_eq_cons
      exact ⟨name, ts ++ .comma :: rest.tokens, by rw [ArgsPhrase.tokens, h, List.cons_append]⟩

/-- An ellipsis is no argument. -/
theorem ArgsPhrase.tokens_append_ne_ellipsis (args : ArgsPhrase) {x y : List Token} :
    args.tokens ++ x ≠ .ellipsis :: y := by
  obtain ⟨name, ts, h⟩ := args.exists_tokens_eq_cons
  rw [h]
  exact nofun

/-- The tokens cannot go on with arguments. -/
def EndsTerm (ts : List Token) : Prop := ts.head? ≠ some .openBracket

/-- The tokens can go on neither with arguments nor with another term. -/
def EndsType (ts : List Token) : Prop := EndsTerm ts ∧ ts.head? ≠ some .pipe

theorem endsTerm_pipe (ts : List Token) : EndsTerm (.pipe :: ts) := nofun

theorem endsType_nil : EndsType [] := ⟨nofun, nofun⟩

theorem endsType_comma (ts : List Token) : EndsType (.comma :: ts) := ⟨nofun, nofun⟩

theorem endsType_closeBracket (ts : List Token) : EndsType (.closeBracket :: ts) := ⟨nofun, nofun⟩

-- The tokens behind the phrases are part of the statement: where one phrase ends and the other goes
-- on, the token in question tells them apart.
mutual

theorem TypePhrase.eq_of_tokens_append (t t' : TypePhrase) {x x' : List Token} (hx : EndsType x)
    (hx' : EndsType x') (h : t.tokens ++ x = t'.tokens ++ x') : t = t' ∧ x = x' := by
  cases t with
  | term t =>
      cases t' with
      | term t' =>
          obtain ⟨rfl, rfl⟩ := t.eq_of_tokens_append t' hx.1 hx'.1 h
          exact ⟨rfl, rfl⟩
      | bar t' rest' =>
          simp only [TypePhrase.tokens, List.append_assoc, List.cons_append] at h
          obtain ⟨-, rfl⟩ := t.eq_of_tokens_append t' hx.1 (endsTerm_pipe _) h
          exact absurd rfl hx.2
  | bar t rest =>
      simp only [TypePhrase.tokens, List.append_assoc, List.cons_append] at h
      cases t' with
      | term t' =>
          obtain ⟨-, rfl⟩ := t.eq_of_tokens_append t' (endsTerm_pipe _) hx'.1 h
          exact absurd rfl hx'.2
      | bar t' rest' =>
          simp only [TypePhrase.tokens, List.append_assoc, List.cons_append] at h
          obtain ⟨rfl, hrest⟩ := t.eq_of_tokens_append t' (endsTerm_pipe _) (endsTerm_pipe _) h
          obtain ⟨rfl, rfl⟩ := rest.eq_of_tokens_append rest' hx hx' (List.cons.inj hrest).2
          exact ⟨rfl, rfl⟩

theorem TermPhrase.eq_of_tokens_append (t t' : TermPhrase) {x x' : List Token} (hx : EndsTerm x)
    (hx' : EndsTerm x') (h : t.tokens ++ x = t'.tokens ++ x') : t = t' ∧ x = x' := by
  cases t with
  | name name =>
      cases t' with
      | name name' =>
          cases h
          exact ⟨rfl, rfl⟩
      | applied name' args' =>
          cases h
          exact absurd rfl hx
  | applied name args =>
      cases t' with
      | name name' =>
          cases h
          exact absurd rfl hx'
      | applied name' args' =>
          simp only [TermPhrase.tokens, List.cons_append, List.append_assoc, List.nil_append,
            List.cons.injEq, Token.ident.injEq, true_and] at h
          obtain ⟨rfl, h⟩ := h
          obtain ⟨rfl, rfl⟩ := args.eq_of_tokens_append args' h
          exact ⟨rfl, rfl⟩

theorem ArgsPhrase.eq_of_tokens_append (args args' : ArgsPhrase) {x x' : List Token}
    (h : args.tokens ++ .closeBracket :: x = args'.tokens ++ .closeBracket :: x') :
    args = args' ∧ x = x' := by
  cases args with
  | last t =>
      cases args' with
      | last t' =>
          obtain ⟨rfl, hrest⟩ := t.eq_of_tokens_append t' (endsType_closeBracket _)
            (endsType_closeBracket _) h
          exact ⟨rfl, (List.cons.inj hrest).2⟩
      | ellipsis t' =>
          simp only [ArgsPhrase.tokens, List.append_assoc, List.cons_append] at h
          exact nomatch (t.eq_of_tokens_append t' (endsType_closeBracket _) (endsType_comma _) h).2
      | comma t' rest' =>
          simp only [ArgsPhrase.tokens, List.append_assoc, List.cons_append] at h
          exact nomatch (t.eq_of_tokens_append t' (endsType_closeBracket _) (endsType_comma _) h).2
  | ellipsis t =>
      simp only [ArgsPhrase.tokens, List.append_assoc, List.cons_append, List.nil_append] at h
      cases args' with
      | last t' =>
          exact nomatch (t.eq_of_tokens_append t' (endsType_comma _) (endsType_closeBracket _) h).2
      | ellipsis t' =>
          simp only [ArgsPhrase.tokens, List.append_assoc, List.cons_append, List.nil_append] at h
          obtain ⟨rfl, hrest⟩ := t.eq_of_tokens_append t' (endsType_comma _) (endsType_comma _) h
          cases hrest
          exact ⟨rfl, rfl⟩
      | comma t' rest' =>
          simp only [ArgsPhrase.tokens, List.append_assoc, List.cons_append] at h
          obtain ⟨-, hrest⟩ := t.eq_of_tokens_append t' (endsType_comma _) (endsType_comma _) h
          exact absurd (List.cons.inj hrest).2.symm rest'.tokens_append_ne_ellipsis
  | comma t rest =>
      simp only [ArgsPhrase.tokens, List.append_assoc, List.cons_append] at h
      cases args' with
      | last t' =>
          exact nomatch (t.eq_of_tokens_append t' (endsType_comma _) (endsType_closeBracket _) h).2
      | ellipsis t' =>
          simp only [ArgsPhrase.tokens, List.append_assoc, List.cons_append, List.nil_append] at h
          obtain ⟨-, hrest⟩ := t.eq_of_tokens_append t' (endsType_comma _) (endsType_comma _) h
          exact absurd (List.cons.inj hrest).2 rest.tokens_append_ne_ellipsis
      | comma t' rest' =>
          simp only [ArgsPhrase.tokens, List.append_assoc, List.cons_append] at h
          obtain ⟨rfl, hrest⟩ := t.eq_of_tokens_append t' (endsType_comma _) (endsType_comma _) h
          obtain ⟨rfl, rfl⟩ := rest.eq_of_tokens_append rest' (List.cons.inj hrest).2
          exact ⟨rfl, rfl⟩

end

/-- No token sequence has two derivations. -/
theorem TypePhrase.tokens_injective : Function.Injective TypePhrase.tokens := by
  intro t t' h
  exact (t.eq_of_tokens_append t' endsType_nil endsType_nil (by rw [h])).1

end GuardedObjects
