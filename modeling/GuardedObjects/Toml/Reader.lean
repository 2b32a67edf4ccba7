/-!
# Readers

A reader takes a beginning off a text and leaves the rest, or fails. Which character a reader fails
at is not kept.
-/

namespace GuardedObjects.Toml

abbrev Reader := StateT (List Char) Option

namespace Reader

variable {α : Type}

def peek? : Reader (Option Char) := fun s => some (s.head?, s)

def char (c : Char) : Reader Unit
  | d :: rest => if d = c then some ((), rest) else none
  | [] => none

def chars : List Char → Reader Unit
  | [] => pure ()
  | c :: cs => do char c; chars cs

/-- Takes off the characters up to the first that `p` refuses. -/
def takeWhile (p : Char → Bool) : Reader (List Char) := fun s => some (s.span p)

def takeSome (p : Char → Bool) : Reader (List Char) := do
  let cs ← takeWhile p
  if cs.isEmpty then failure else return cs

def exactly (n : Nat) (p : Char → Bool) : Reader (List Char) := fun s =>
  let cs := s.take n
  if cs.length = n && cs.all p then some (cs, s.drop n) else none

/-- Reads items as long as there is one that takes something off. -/
def many (item : Reader α) : Reader (List α) := fun s =>
  match item s with
  | none => some ([], s)
  | some (a, rest) =>
    if rest.length < s.length then (many item rest).map fun (as, rest) => (a :: as, rest)
    else some ([], s)
termination_by s => s.length

def separated (separator : Reader Unit) (item : Reader α) : Reader (List α) := do
  let first ← item
  return first :: (← many (do separator; item))

/-- The value of a reader that takes the whole text off. -/
def whole? (reader : Reader α) (text : List Char) : Option α :=
  match reader text with
  | some (a, []) => some a
  | _ => none

end Reader

end GuardedObjects.Toml
