import GuardedObjects.Toml.Item
import GuardedObjects.Toml.Quoted

/-!
# Documents

A TOML 1.0 document is a list of statements, one to a line: headers, which open tables, and keys
with their items, which go into the table opened last. `Document.ofText?` reads the statements and
then carries them out.
-/

namespace GuardedObjects.Toml

/-- A key of several parts, the last one apart. -/
structure KeyPath where
  path : List String
  last : String

inductive Statement where
  | table (key : KeyPath)
  | element (key : KeyPath)
  | entry (key : KeyPath) (item : Item)

/-- Arrays and braces nest less deep than this, and keys have fewer parts. -/
def nestingLimit : Nat := 80

namespace Reader

/-! ### Keys -/

def keyPart : Reader String :=
  basic <|> literal <|> String.ofList <$> takeSome fun c => c.isAlphanum || c = '_' || c = '-'

def key : Reader KeyPath := do
  let parts ← separated (char '.') (do blanks; let part ← keyPart; blanks; return part)
  match parts.getLast? with
  | some last =>
    if parts.length < nestingLimit then return { path := parts.dropLast, last } else failure
  | none => failure

/-! ### Items -/

/-- A scalar of one word, or a date and a time with a space between them. -/
def scalar : Reader Scalar := do
  let word ← takeSome Scalar.isWordChar
  match ← get with
  | ' ' :: rest =>
    let (second, rest) := rest.span Scalar.isWordChar
    if Scalar.isDate word && Scalar.isTimeWithOffset second then
      set rest
      return .datetime
  | _ => pure ()
  match Scalar.ofWord? word with
  | some x => return x
  | none => failure

def gap : Reader Unit := do
  blanks
  let _ ← many (do (newline <|> do comment; newline); blanks)

def array (item : Reader Item) : Reader (List Item) := do
  char '['
  let items ← optional do
    let items ← separated (char ',') (do gap; let x ← item; gap; return x)
    let _ ← optional (char ',')
    return items
  gap
  char ']'
  return items.getD []

def keyed (item : Reader Item) : Reader (KeyPath × Item) := do
  let k ← key
  char '='
  blanks
  return (k, ← item)

def braces (item : Reader Item) : Reader Entries := do
  char '{'
  let pairs ← optional (separated (char ',') (do let e ← keyed item; blanks; return e))
  blanks
  char '}'
  (pairs.getD []).foldlM (fun es (k, x) => StateT.lift (es.addDotted k.path k.last x)) []

/-- An item with arrays and braces nested at most `depth` deep. -/
def item : Nat → Reader Item
  | 0 => .text <$> quoted <|> .scalar <$> scalar
  | depth + 1 => do
    match ← peek? with
    | some '[' => .array <$> array (item depth)
    | some '{' => .braces <$> braces (item depth)
    | _ => .text <$> quoted <|> .scalar <$> scalar

/-! ### Statements -/

def header : Reader Statement :=
  (do chars ['[', '[']; let k ← key; chars [']', ']']; return .element k) <|>
    (do char '['; let k ← key; char ']'; return .table k)

def entry : Reader Statement := do
  let (k, x) ← keyed (item (nestingLimit - 1))
  return .entry k x

def lineBreak : Reader Unit := do
  match ← get with
  | [] => pure ()
  | _ => newline

/-- A line, which may hold nothing but a comment. -/
def line : Reader (Option Statement) := do
  blanks
  let statement ← optional (header <|> entry)
  blanks
  let _ ← optional comment
  lineBreak
  return statement

def statements : Reader (List Statement) := do return (← many line).filterMap id

end Reader

structure Document where
  entries : Entries := []
  /-- Leads to the table that was opened last. -/
  current : List String := []

namespace Document

def perform (d : Document) : Statement → Option Document
  | .table k => do
    return { entries := ← d.entries.openTable k.path k.last, current := k.path ++ [k.last] }
  | .element k => do
    return { entries := ← d.entries.openElement k.path k.last, current := k.path ++ [k.last] }
  | .entry k x => do
    let add (_ : Origin) (es : Entries) := es.addDotted k.path k.last x
    return { d with entries := ← d.entries.alter .implied add d.current .header }

/-- The document that a text writes. A byte order mark in front does not count. -/
def ofText? (text : String) : Option Document := do
  let chars := text.toList
  let chars := if chars.head? = some '\ufeff' then chars.drop 1 else chars
  let statements ← Reader.statements.whole? chars
  statements.foldlM perform {}

end Document

end GuardedObjects.Toml
