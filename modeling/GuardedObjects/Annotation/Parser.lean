import GuardedObjects.Annotation.Error
import GuardedObjects.Ty.Basic

/-!
# Reading annotations

`Ty.ofText` reads a type by the grammar

    type  := term ('|' term)*
    term  := IDENT ('[' args ']')?
    args  := type (',' type)* (',' '...')?

in which the identifier of a term decides how many arguments it takes. Every step returns the
tokens that it left, with a proof that it took some.
-/

namespace GuardedObjects

/-- The arguments between the brackets of a term; `isOpen` when they end in an ellipsis. -/
structure TypeArgs where
  types : List Ty
  isOpen : Bool

/-- What an identifier means at the head of a term. -/
inductive TypeWord where
  | primitive (kind : Primitive)
  | container (base : Container)
  | noValue
  | any
  | optional
  | const
  | union
  | cls

def TypeWord.ofName : String → TypeWord
  | "int" | "Int" => .primitive .int
  | "float" | "Float" => .primitive .float
  | "str" | "Str" => .primitive .str
  | "bool" | "Bool" => .primitive .bool
  | "bytes" | "Bytes" => .primitive .bytes
  | "list" | "List" => .container .list
  | "set" | "Set" => .container .set
  | "dict" | "Dict" => .container .dict
  | "tuple" | "Tuple" => .container .tuple
  | "None" | "NoReturn" => .noValue
  | "any" | "Any" => .any
  | "optional" | "Optional" => .optional
  | "const" | "Const" | "final" | "Final" => .const
  | "union" | "Union" => .union
  | _ => .cls

namespace Ty

/-- The type of a term that has to stand without brackets. -/
def bare (t : Ty) (name : String) : Option TypeArgs → Except AnnotationError Ty
  | none => .ok t
  | some _ => .error (.notGeneric name)

/-- The arguments of a term that has to have some and no ellipsis. An ellipsis is reported at the
offset of the term's name. -/
def closedArgs (name : String) (offset : Nat) : Option TypeArgs → Except AnnotationError (List Ty)
  | none => .error (.argumentCount name 1 0)
  | some ⟨_, true⟩ => .error (.unexpectedToken .ellipsis .typeName offset)
  | some ⟨types, false⟩ => .ok types

/-- The argument of a term that has to have exactly one. -/
def soleArg (name : String) (offset : Nat) (args : Option TypeArgs) :
    Except AnnotationError Ty := do
  match ← closedArgs name offset args with
  | [t] => return t
  | types => throw (.argumentCount name 1 types.length)

/-- The container that a word stands for with the given ending: an ellipsis turns the tuple into
the one of any length, and nothing else takes an ellipsis. -/
def containerOf (base : Container) (isOpen : Bool) : Option Container :=
  match base, isOpen with
  | .tuple, true => some .varTuple
  | _, true => none
  | base, false => some base

def ofContainer (name : String) (offset : Nat) (base : Container) :
    Option TypeArgs → Except AnnotationError Ty
  | none => .ok (.generic base [])
  | some args =>
    match containerOf base args.isOpen with
    | none => .error (.unexpectedToken .ellipsis .typeName offset)
    | some base =>
      match base.arity with
      | none => .ok (.generic base args.types)
      | some arity =>
        if args.types.length = arity then .ok (.generic base args.types)
        else .error (.argumentCount name arity args.types.length)

/-- The type of the term that has this name at this offset and these arguments. -/
def ofTerm (name : String) (offset : Nat) (args : Option TypeArgs) : Except AnnotationError Ty :=
  match TypeWord.ofName name with
  | .primitive kind => bare (.primitive kind) name args
  | .container base => ofContainer name offset base args
  | .noValue => bare .noValue name args
  | .any => bare .any name args
  | .optional => optional <$> soleArg name offset args
  | .const => const <$> soleArg name offset args
  | .union => union <$> closedArgs name offset args
  | .cls => bare (.cls name) name args

end Ty

/-- A value read from the front of `tokens`, with the tokens after it. -/
structure Parsed (α : Type) (tokens : List Lexeme) where
  value : α
  rest : List Lexeme
  length_lt : rest.length < tokens.length

namespace Parsed

variable {α : Type} {tokens tokens' : List Lexeme}

def widen (p : Parsed α tokens) (h : tokens.length ≤ tokens'.length) : Parsed α tokens' :=
  ⟨p.value, p.rest, Nat.lt_of_lt_of_le p.length_lt h⟩

end Parsed

namespace Ty

/-- The tokens after the closing bracket that has to stand here. -/
def closeBracket : (tokens : List Lexeme) → Except AnnotationError (Parsed Unit tokens)
  | [] => .error (.unexpectedEnd .closingBracket)
  | ⟨.closeBracket, _⟩ :: rest => .ok ⟨(), rest, by simp⟩
  | ⟨found, offset⟩ :: _ => .error (.unexpectedToken found .closingBracket offset)

mutual

def parseType (tokens : List Lexeme) : Except AnnotationError (Parsed Ty tokens) := do
  let terms ← parseTerms tokens
  return ⟨ofAlternatives terms.value, terms.rest, terms.length_lt⟩
termination_by (tokens.length, 2)

def parseTerms (tokens : List Lexeme) : Except AnnotationError (Parsed (List Ty) tokens) := do
  let ⟨term, rest, h⟩ ← parseTerm tokens
  match rest, h with
  | ⟨.pipe, _⟩ :: rest, h =>
    have hlt : rest.length < tokens.length := by simp only [List.length_cons] at h; omega
    let more ← parseTerms rest
    return ⟨term :: more.value, more.rest, Nat.lt_trans more.length_lt hlt⟩
  | rest, h => return ⟨[term], rest, h⟩
termination_by (tokens.length, 1)

/-- One term, with its arguments if a bracket follows its name. -/
def parseTerm : (tokens : List Lexeme) → Except AnnotationError (Parsed Ty tokens)
  | [] => .error (.unexpectedEnd .typeName)
  | ⟨.ident name, offset⟩ :: ⟨.openBracket, _⟩ :: rest => do
    let args ← parseArgs rest
    let t ← ofTerm name offset (some args.value)
    return ⟨t, args.rest, by have := args.length_lt; simp only [List.length_cons]; omega⟩
  | ⟨.ident name, offset⟩ :: rest => do
    let t ← ofTerm name offset none
    return ⟨t, rest, by simp⟩
  | ⟨found, offset⟩ :: _ => .error (.unexpectedToken found .typeName offset)
termination_by tokens => (tokens.length, 0)

/-- The arguments after an opening bracket, and the bracket that closes them. -/
def parseArgs (tokens : List Lexeme) : Except AnnotationError (Parsed TypeArgs tokens) := do
  let ⟨t, rest, h⟩ ← parseType tokens
  match rest, h with
  | ⟨.comma, _⟩ :: ⟨.ellipsis, _⟩ :: rest, h =>
    let close ← closeBracket rest
    return ⟨⟨[t], true⟩, close.rest, by
      have := close.length_lt; simp only [List.length_cons] at h; omega⟩
  | ⟨.comma, _⟩ :: rest, h =>
    have hlt : rest.length < tokens.length := by simp only [List.length_cons] at h; omega
    let more ← parseArgs rest
    return ⟨⟨t :: more.value.types, more.value.isOpen⟩, more.rest, Nat.lt_trans more.length_lt hlt⟩
  | rest, h =>
    let close ← closeBracket rest
    return ⟨⟨[t], false⟩, close.rest, Nat.lt_trans close.length_lt h⟩
termination_by (tokens.length, 3)

end

def ofLexemes (tokens : List Lexeme) : Except AnnotationError Ty :=
  if tokens.isEmpty then .error .empty
  else do
    let parsed ← parseType tokens
    match parsed.rest with
    | [] => return parsed.value
    | extra :: _ => throw (.unexpectedToken extra.token .finish extra.offset)

/-- The tokens of an annotation. -/
def tokenize (source : String) : Except AnnotationError (List Lexeme) :=
  match Lexeme.scan 0 source.toList with
  | .ok tokens => .ok tokens
  | .error offset => .error (.unexpectedCharacter source offset)

/-- The type that an annotation denotes. -/
def ofText (source : String) : Except AnnotationError Ty := do
  ofLexemes (← tokenize source)

end Ty

end GuardedObjects
