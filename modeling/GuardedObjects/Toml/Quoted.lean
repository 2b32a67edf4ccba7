import GuardedObjects.Toml.Reader
import GuardedObjects.Toml.Scalar

/-!
# Quoted text

Basic text stands between double quotes and knows escapes, literal text stands between single
quotes and knows none. Either may run over several lines between triple quotes; a newline right
behind the opening quotes does not count.
-/

namespace GuardedObjects.Toml.Reader

/-! ### Blanks, comments and line ends -/

/-- A character that may stand in comments and, quotes and backslash apart, in quoted text. -/
def isPrintable (c : Char) : Bool := c = '\t' || (' ' ≤ c && c ≠ '\x7f')

def blanks : Reader Unit := do let _ ← takeWhile fun c => c = ' ' || c = '\t'

def newline : Reader Unit := char '\n' <|> chars ['\r', '\n']

def comment : Reader Unit := do
  char '#'
  let _ ← takeWhile isPrintable

/-! ### Escapes -/

def codePoint (digits : Nat) : Reader (List Char) := do
  let n := Scalar.natOfDigits 16 (← exactly digits Scalar.isHexDigit)
  if n.isValidChar then return [Char.ofNat n] else failure

def escapeOf? : Char → Option Char
  | 'b' => some '\x08'
  | 'f' => some '\x0c'
  | 'n' => some '\n'
  | 'r' => some '\r'
  | 't' => some '\t'
  | '\\' => some '\\'
  | '"' => some '"'
  | _ => none

def escape : Reader (List Char) := do
  char '\\'
  match ← get with
  | 'u' :: rest => do set rest; codePoint 4
  | 'U' :: rest => do set rest; codePoint 8
  | c :: rest => do
    set rest
    match escapeOf? c with
    | some d => return [d]
    | none => failure
  | [] => failure

/-- A backslash at the end of a line takes away the newline and all blanks and newlines behind. -/
def continuation : Reader (List Char) := do
  char '\\'
  blanks
  newline
  let _ ← many (newline <|> char ' ' <|> char '\t')
  return []

/-! ### Text on one line -/

def basicRun : Reader (List Char) := takeSome fun c => isPrintable c && c ≠ '"' && c ≠ '\\'

def literalRun : Reader (List Char) := takeSome fun c => isPrintable c && c ≠ '\''

def basic : Reader String := do
  char '"'
  let parts ← many (basicRun <|> escape)
  char '"'
  return String.ofList parts.flatten

def literal : Reader String := do
  char '\''
  let run ← takeWhile fun c => isPrintable c && c ≠ '\''
  char '\''
  return String.ofList run

/-! ### Text on several lines -/

def innerQuotes (quote : Char) : Reader (List Char) := do
  let run ← takeSome (· = quote)
  if run.length ≤ 2 then return run else failure

/-- Closing quotes, with up to two in front of them that belong to the text. -/
def closingQuotes (quote : Char) : Reader (List Char) := do
  let run ← takeWhile (· = quote)
  if 3 ≤ run.length && run.length ≤ 5 then return run.drop 3 else failure

def lineEnd : Reader (List Char) := do newline; return ['\n']

/-- Text between triple quotes, made of parts, newlines and quotes. -/
def multiline (quote : Char) (part : Reader (List Char)) : Reader String := do
  chars [quote, quote, quote]
  let _ ← optional newline
  let parts ← many (part <|> lineEnd <|> innerQuotes quote)
  return String.ofList (parts.flatten ++ (← closingQuotes quote))

def quoted : Reader String :=
  multiline '"' (basicRun <|> continuation <|> escape) <|> basic <|>
    multiline '\'' literalRun <|> literal

end GuardedObjects.Toml.Reader
