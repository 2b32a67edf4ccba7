import GuardedObjects.Text.Identifier

/-!
# Tokens of annotations

`Lexeme.scan` cuts a text into tokens, each with the byte offset at which it starts. Space, tab,
carriage return and line feed separate tokens and are skipped; any other character has to begin a
token, and the scan stops at the first one that does not.
-/

namespace GuardedObjects

inductive Token where
  | ident (name : String)
  | openBracket
  | closeBracket
  | comma
  | pipe
  | ellipsis
deriving DecidableEq, Repr

def Token.text : Token → String
  | .ident name => name
  | .openBracket => "["
  | .closeBracket => "]"
  | .comma => ","
  | .pipe => "|"
  | .ellipsis => "..."

structure Lexeme where
  token : Token
  offset : Nat
deriving DecidableEq, Repr

namespace Lexeme

def isSpace (c : Char) : Bool := c = ' ' || c = '\t' || c = '\r' || c = '\n'

/-- The first token of a text that does not start with a space, and the text after it. -/
def first? : List Char → Option (Token × List Char)
  | '[' :: rest => some (.openBracket, rest)
  | ']' :: rest => some (.closeBracket, rest)
  | ',' :: rest => some (.comma, rest)
  | '|' :: rest => some (.pipe, rest)
  | '.' :: '.' :: '.' :: rest => some (.ellipsis, rest)
  | c :: rest =>
    if isIdentStart c then
      some (.ident (String.ofList (c :: rest.takeWhile isIdentPart)), rest.dropWhile isIdentPart)
    else none
  | [] => none

theorem length_dropWhile_le (p : Char → Bool) (s : List Char) :
    (s.dropWhile p).length ≤ s.length :=
  (List.dropWhile_sublist p).length_le

theorem length_lt_of_first? {s rest : List Char} {t : Token} (h : first? s = some (t, rest)) :
    rest.length < s.length := by
  unfold first? at h
  split at h
  case h_6 c r _ _ _ _ _ =>
    split at h
    · cases h
      have := length_dropWhile_le isIdentPart r
      simp only [List.length_cons]
      omega
    · cases h
  all_goals first | (cases h; simp only [List.length_cons]; omega) | cases h

/-- The tokens of `s`, whose first character stands at `offset`, or the offset of the first
character that is no space and begins no token. -/
def scan (offset : Nat) : List Char → Except Nat (List Lexeme)
  | [] => .ok []
  | c :: s =>
    if isSpace c then scan (offset + c.utf8Size) s
    else
      match h : first? (c :: s) with
      | none => .error offset
      | some (t, rest) => do
        have := length_lt_of_first? h
        return ⟨t, offset⟩ :: (← scan (offset + t.text.utf8ByteSize) rest)
termination_by s => s.length
decreasing_by
  · exact Nat.lt_succ_self _
  · assumption

end Lexeme

end GuardedObjects
