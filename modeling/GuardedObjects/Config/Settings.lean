import GuardedObjects.Config
import GuardedObjects.Toml.Document

/-!
# Settings

A configuration is read from the table `discipline` of a TOML document. What is not set keeps its
default, and keys that mean nothing are ignored. The table may also be given as an array of the
mode and the strictness, in this order.
-/

namespace GuardedObjects

/-- Why there is no configuration. -/
inductive ConfigError where
  /-- There is no file, or it is not in UTF-8. -/
  | unreadable
  /-- The text is no document, or a setting has a wrong value. -/
  | malformed
deriving DecidableEq, Repr

def ConfigError.kind : ConfigError → String
  | .unreadable => "Io"
  | .malformed => "Parse"

namespace Config

open Toml (Item)

def isVoid : Item → Bool
  | .array items => items.isEmpty
  | .braces entries | .table _ entries => entries.isEmpty
  | .tables elements => elements.isEmpty
  | .text _ | .scalar _ => false

/-- The mode that an item stands for: its word as a text, or as the only key of a table, and then
with nothing behind it. -/
def modeOf? : Item → Option Mode
  | .text word => Mode.ofText? word
  | .braces [(word, item)] | .table _ [(word, item)] =>
    if isVoid item then Mode.ofText? word else none
  | _ => none

def strictnessOf? : Item → Option Bool
  | .scalar (.boolean b) => some b
  | _ => none

/-- The configuration with these settings, as far as they are given. -/
def ofSettings? (mode strictness : Option Item) : Option Config := do
  let mode ← mode.mapM modeOf?
  let strictness ← strictness.mapM strictnessOf?
  return { mode := mode.getD .enforced, strictFriends := strictness.getD true }

/-- The configuration that the item of `discipline` holds. A date sets nothing. -/
def ofItem? : Item → Option Config
  | .braces entries | .table _ entries =>
    ofSettings? (entries.lookup "mode") (entries.lookup "strict-friends")
  | .array items => ofSettings? items[0]? items[1]?
  | .tables elements =>
    ofSettings? (elements[0]?.map (.table .header)) (elements[1]?.map (.table .header))
  | .scalar .datetime => some {}
  | .text _ | .scalar _ => none

def ofText? (text : String) : Option Config := do
  let document ← Toml.Document.ofText? text
  match document.entries.lookup "discipline" with
  | none => return {}
  | some item => ofItem? item

def ofText (text : String) : Except ConfigError Config :=
  match ofText? text with
  | some config => .ok config
  | none => .error .malformed

def ofFile (content : Option ByteArray) : Except ConfigError Config :=
  match content.bind String.fromUTF8? with
  | some text => ofText text
  | none => .error .unreadable

end Config

end GuardedObjects
