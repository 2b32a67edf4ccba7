import GuardedObjects.Toml.Scalar

/-!
# Items and tables

What a document is made of, and the rules by which it grows: no key is given twice, and a table is
extended only in the way in which it was introduced. The operations give none where a rule forbids
them.
-/

namespace GuardedObjects.Toml

/-- How a table was introduced. -/
inductive Origin where
  /-- By a header of its own, or as the document itself. -/
  | header
  /-- By a longer header. -/
  | implied
  /-- By a dotted key. -/
  | dotted
deriving DecidableEq, Repr

inductive Item where
  | text (s : String)
  | scalar (x : Scalar)
  | array (items : List Item)
  /-- A table that is written in braces, and is complete. -/
  | braces (entries : List (String × Item))
  | table (origin : Origin) (entries : List (String × Item))
  /-- The tables that share a header in double brackets. -/
  | tables (elements : List (List (String × Item)))

abbrev Entries := List (String × Item)

namespace Entries

def find? (es : Entries) (key : String) : Option Item := es.lookup key

def put (es : Entries) (key : String) (item : Item) : Entries :=
  es.filter (fun e => e.1 ≠ key) ++ [(key, item)]

/-- Changes the table that a path leads to, where `f` is also told how it was introduced. Tables
on the way that are missing are introduced as `missing`; a dotted path does not go through tables
that have a header, and no path goes through braces. -/
def alter (missing : Origin) (f : Origin → Entries → Option Entries) :
    List String → Origin → Entries → Option Entries
  | [], origin, es => f origin es
  | key :: path, _, es =>
    match find? es key with
    | none => (alter missing f path missing []).map fun sub => put es key (.table missing sub)
    | some (.table origin sub) =>
      if missing = .dotted && origin = .header then none
      else (alter missing f path origin sub).map fun sub => put es key (.table origin sub)
    | some (.tables elements) => do
      let last ← elements.getLast?
      let sub ← alter missing f path .header last
      return put es key (.tables (elements.dropLast ++ [sub]))
    | some _ => none

def add (key : String) (item : Item) (es : Entries) : Option Entries :=
  if (find? es key).isSome then none else some (put es key item)

def addDotted (path : List String) (key : String) (item : Item) (es : Entries) : Option Entries :=
  let addLast (origin : Origin) (es : Entries) : Option Entries :=
    if decide (origin = .dotted) = path.isEmpty then none else add key item es
  alter .dotted addLast path .header es

/-- Opens the table of a header. It is new, or was only implied before. -/
def openTable (path : List String) (key : String) (es : Entries) : Option Entries :=
  let openLast (es : Entries) : Option Entries :=
    match find? es key with
    | none => some (put es key (.table .header []))
    | some (.table .implied sub) => some (put es key (.table .header sub))
    | some _ => none
  alter .implied (fun _ es => openLast es) path .header es

def openElement (path : List String) (key : String) (es : Entries) : Option Entries :=
  let openLast (es : Entries) : Option Entries :=
    match find? es key with
    | none => some (put es key (.tables [[]]))
    | some (.tables elements) => some (put es key (.tables (elements ++ [[]])))
    | some _ => none
  alter .implied (fun _ es => openLast es) path .header es

end Entries

end GuardedObjects.Toml
