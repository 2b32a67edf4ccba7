import GuardedObjects.Text.Blank
import GuardedObjects.Text.Identifier

/-!
# Friends

A class names the functions, classes and methods that may use its restricted members. A friend
written as a text may leave open whether it is a class or a function; linking decides that.
-/

namespace GuardedObjects

inductive Friend where
  | function (name : String)
  | cls (name : String)
  | method (owner name : String)
deriving DecidableEq, Repr

def Friend.text : Friend → String
  | .function name | .cls name => name
  | .method owner name => s!"{owner}.{name}"

inductive FriendRef where
  /-- A class or a function. -/
  | named (name : String)
  | specified (friend : Friend)
deriving DecidableEq, Repr

namespace FriendRef

def text : FriendRef → String
  | .named name => name
  | .specified friend => friend.text

/-- Reads one identifier, or two with a point in between, with blanks around them. -/
def ofText? (source : String) : Option FriendRef :=
  let s := trimBlank source.toList
  match s.dropWhile (· ≠ '.') with
  | [] => if isIdentifier s then some (.named (String.ofList s)) else none
  | _ :: method =>
    let owner := s.takeWhile (· ≠ '.')
    if isIdentifier owner && isIdentifier method then
      some (.specified (.method (String.ofList owner) (String.ofList method)))
    else none

end FriendRef

/-- A finite set of friends, seen through membership. -/
structure FriendSet where
  members : List Friend := []
  nodup : members.Nodup := by exact List.nodup_nil

namespace FriendSet

instance : EmptyCollection FriendSet := ⟨{}⟩

instance : Inhabited FriendSet := ⟨∅⟩

instance : Membership Friend FriendSet := ⟨fun s f => f ∈ s.members⟩

instance (f : Friend) (s : FriendSet) : Decidable (f ∈ s) :=
  inferInstanceAs (Decidable (f ∈ s.members))

def size (s : FriendSet) : Nat := s.members.length

def isEmpty (s : FriendSet) : Bool := s.members.isEmpty

def insert (s : FriendSet) (f : Friend) : FriendSet :=
  if h : f ∈ s.members then s else ⟨f :: s.members, List.nodup_cons.mpr ⟨h, s.nodup⟩⟩

def insertMany (s : FriendSet) (fs : List Friend) : FriendSet := fs.foldl insert s

def ofList (fs : List Friend) : FriendSet := insertMany ∅ fs

instance : Union FriendSet := ⟨fun s t => s.insertMany t.members⟩

def includes (s t : FriendSet) : Bool := t.members.all fun f => f ∈ s

def same (s t : FriendSet) : Bool := s.includes t && t.includes s

@[simp] theorem mem_insert {f g : Friend} {s : FriendSet} : f ∈ s.insert g ↔ f = g ∨ f ∈ s := by
  by_cases h : g ∈ s.members
  · have hs : s.insert g = s := by simp [insert, h]
    rw [hs]
    refine ⟨.inr, ?_⟩
    rintro (rfl | hf)
    · exact h
    · exact hf
  · have hs : (s.insert g).members = g :: s.members := by simp [insert, h]
    show f ∈ (s.insert g).members ↔ f = g ∨ f ∈ s.members
    simp [hs]

@[simp] theorem mem_insertMany {f : Friend} {s : FriendSet} {fs : List Friend} :
    f ∈ s.insertMany fs ↔ f ∈ s ∨ f ∈ fs := by
  induction fs generalizing s with
  | nil => simp [insertMany]
  | cons g fs ih =>
    have h : s.insertMany (g :: fs) = (s.insert g).insertMany fs := rfl
    rw [h, ih, mem_insert, List.mem_cons]
    exact ⟨fun h => by rcases h with (h | h) | h <;> simp [h],
      fun h => by rcases h with h | h | h <;> simp [h]⟩

@[simp] theorem mem_union {f : Friend} {s t : FriendSet} : f ∈ s ∪ t ↔ f ∈ s ∨ f ∈ t :=
  mem_insertMany

end FriendSet

end GuardedObjects
