import GuardedObjects.Proofs.Annotation.Layout

/-!
# The longest match

The notation has a pattern for spaces, one for identifiers and one for each of the other tokens.
However the longest text that some pattern takes is found, taking it from left to right finds the
tokens of the text, and stops at the same character if there is one to stop at.
-/

namespace GuardedObjects

/-- What the pattern of a token takes, or with no token the pattern of spaces, of which it takes at
least one. -/
def Takes : Option Token → List Char → Prop
  | none, taken => taken ≠ [] ∧ ∀ c ∈ taken, Lexeme.isSpace c = true
  | some t, taken => t.WellFormed ∧ taken = t.text.toList

theorem Takes.exists_cons {p : Option Token} {taken : List Char} (h : Takes p taken) :
    ∃ c cs, taken = c :: cs ∧ Lexeme.isSpace c = p.isNone := by
  cases p with
  | none =>
      obtain ⟨c, cs, rfl⟩ := List.exists_cons_of_ne_nil h.1
      exact ⟨c, cs, rfl, h.2 c (by simp)⟩
  | some t =>
      obtain ⟨hform, rfl⟩ := h
      exact hform.exists_text

/-- A way to find what a pattern takes from the front of a text, and the text behind it. It finds a
pattern wherever there is one, and of all patterns the one that takes the most. -/
structure LongestMatch where
  next : List Char → Option (Option Token × List Char)
  takes {s rest : List Char} {p : Option Token} (h : next s = some (p, rest)) :
    ∃ taken, s = taken ++ rest ∧ Takes p taken
  longest {s rest taken' rest' : List Char} {p p' : Option Token} (h : next s = some (p, rest))
    (hs : s = taken' ++ rest') (h' : Takes p' taken') : rest.length ≤ rest'.length
  found {taken rest : List Char} {p : Option Token} (h : Takes p taken) :
    next (taken ++ rest) ≠ none

namespace LongestMatch

variable (m : LongestMatch)

theorem length_lt {s rest : List Char} {p : Option Token} (h : m.next s = some (p, rest)) :
    rest.length < s.length := by
  obtain ⟨taken, rfl, htakes⟩ := m.takes h
  obtain ⟨c, cs, rfl, -⟩ := htakes.exists_cons
  simp only [List.cons_append, List.length_cons, List.length_append]
  omega

/-- The tokens of a text that starts at an offset, found by the longest match from left to right, or
the offset at which there is none. -/
def scan (offset : Nat) : List Char → Except Nat (List Lexeme)
  | [] => .ok []
  | c :: s =>
    match h : m.next (c :: s) with
    | none => .error offset
    | some (none, rest) =>
      have := m.length_lt h
      let taken := (c :: s).take ((c :: s).length - rest.length)
      scan (offset + (String.ofList taken).utf8ByteSize) rest
    | some (some t, rest) => do
      have := m.length_lt h
      return ⟨t, offset⟩ :: (← scan (offset + t.text.utf8ByteSize) rest)
termination_by s => s.length
decreasing_by
  · exact this
  · exact this

def tokenize (source : String) : Except AnnotationError (List Lexeme) :=
  match m.scan 0 source.toList with
  | .ok tokens => .ok tokens
  | .error offset => .error (.unexpectedCharacter source offset)

theorem eq_of_text {t t' : Token} (h : t.WellFormed) (h' : t'.WellFormed)
    (htext : t.text.toList = t'.text.toList) : t = t' := by
  have hfirst := first?_text_append h fun _ _ => endsIdent_nil
  have hfirst' := first?_text_append h' fun _ _ => endsIdent_nil
  rw [htext, hfirst'] at hfirst
  cases hfirst
  rfl

variable {m}

/-- A longest match that is a token is the one that the scan takes. -/
theorem first?_eq_some_of_next {s rest : List Char} {t : Token}
    (h : m.next s = some (some t, rest)) : Lexeme.first? s = some (t, rest) := by
  obtain ⟨taken, rfl, hform, rfl⟩ := m.takes h
  obtain ⟨t', rest', hfirst, hle⟩ := exists_first?_of_text hform rest
  obtain ⟨hform', -, hs⟩ := of_first? hfirst
  have htakes : Takes (some t') t'.text.toList := ⟨hform', rfl⟩
  have hge := m.longest h hs htakes
  obtain ⟨htext, rfl⟩ := List.append_inj' hs (Nat.le_antisymm hge hle)
  rw [hfirst, eq_of_text hform hform' htext]

theorem first?_eq_none_of_next {s : List Char} (h : m.next s = none) :
    Lexeme.first? s = none := by
  rw [first?_eq_none_iff]
  rintro t hform ⟨rest, rfl⟩
  exact m.found (p := some t) ⟨hform, rfl⟩ h

end LongestMatch

theorem scan_spaces {gap : List Char} (hgap : ∀ c ∈ gap, Lexeme.isSpace c = true) (offset : Nat)
    (s : List Char) : Lexeme.scan offset (gap ++ s) =
      Lexeme.scan (offset + (String.ofList gap).utf8ByteSize) s := by
  induction gap generalizing offset with
  | nil => rfl
  | cons c gap ih =>
      obtain ⟨hc, hgap⟩ := List.forall_mem_cons.mp hgap
      rw [List.cons_append, Lexeme.scan, if_pos hc, ih hgap, ← String.size_toByteArray,
        ← String.size_toByteArray, String.toByteArray_ofList, String.toByteArray_ofList,
        List.utf8Encode_cons, ByteArray.size_append, size_utf8Encode_singleton, Nat.add_assoc]

namespace LongestMatch

variable (m : LongestMatch)

/-- The longest match from left to right finds what the scan finds. -/
theorem scan_eq (offset : Nat) (s : List Char) : m.scan offset s = Lexeme.scan offset s := by
  induction offset, s using LongestMatch.scan.induct m with
  | case1 offset => rw [scan, Lexeme.scan]
  | case2 offset c s hnext =>
      have hspace : Lexeme.isSpace c = false := by
        rw [Bool.eq_false_iff]
        intro hc
        have htakes : Takes none [c] := ⟨by simp, by simpa using hc⟩
        exact m.found htakes hnext
      rw [scan_of_first?_eq_none (first?_eq_none_of_next hnext) hspace, scan]
      split
      next => rfl
      next hsome => cases hnext.symm.trans hsome
      next hsome => cases hnext.symm.trans hsome
  | case3 offset c s rest hnext _ taken ih =>
      obtain ⟨gap, hs, -, hgap⟩ := m.takes hnext
      obtain rfl : gap = taken := by
        simp only [taken, hs, List.length_append, Nat.add_sub_cancel, List.take_left]
      rw [hs, scan_spaces hgap, ← ih, ← hs, scan]
      split
      next hnone => cases hnext.symm.trans hnone
      next hsome =>
        cases hnext.symm.trans hsome
        rfl
      next hsome => cases hnext.symm.trans hsome
  | case4 offset c s t rest hnext _ ih =>
      have hfirst := first?_eq_some_of_next hnext
      obtain ⟨taken, hs, htakes⟩ := m.takes hnext
      obtain ⟨d, ds, rfl, hd⟩ := htakes.exists_cons
      obtain ⟨rfl, -⟩ := List.cons.inj hs
      rw [scan_of_first? hfirst (by simpa using hd), ← ih, scan]
      split
      next hnone => cases hnext.symm.trans hnone
      next hsome => cases hnext.symm.trans hsome
      next hsome =>
        cases hnext.symm.trans hsome
        rfl

theorem tokenize_eq (source : String) : m.tokenize source = Ty.tokenize source := by
  rw [tokenize, scan_eq]
  unfold Ty.tokenize
  cases Lexeme.scan 0 source.toList with
  | ok tokens => rfl
  | error offset => rfl

end LongestMatch

/-! ### A longest match -/

namespace Lexeme

/-- All spaces that stand at the front, and otherwise the first token. -/
def nextPiece : List Char → Option (Option Token × List Char)
  | [] => none
  | c :: s =>
    if isSpace c then some (none, s.dropWhile isSpace)
    else (first? (c :: s)).map fun found => (some found.1, found.2)

variable {s rest : List Char} {p : Option Token}

theorem nextPiece_eq_some (h : nextPiece s = some (p, rest)) :
    (p = none ∧ rest = s.dropWhile isSpace ∧ ∃ c cs, s = c :: cs ∧ isSpace c = true) ∨
      ∃ t, p = some t ∧ first? s = some (t, rest) ∧ ∃ c cs, s = c :: cs ∧ isSpace c = false := by
  unfold nextPiece at h
  split at h
  · cases h
  next c cs =>
    split at h
    next hc =>
      cases h
      exact .inl ⟨rfl, by simp [hc], c, cs, rfl, hc⟩
    next hc =>
      obtain ⟨⟨t, rest'⟩, hfirst, hfound⟩ := Option.map_eq_some_iff.mp h
      cases hfound
      exact .inr ⟨t, rfl, hfirst, c, cs, rfl, by simpa using hc⟩

theorem takes_of_nextPiece (h : nextPiece s = some (p, rest)) :
    ∃ taken, s = taken ++ rest ∧ Takes p taken := by
  rcases nextPiece_eq_some h with ⟨rfl, rfl, c, cs, rfl, hc⟩ | ⟨t, rfl, hfirst, -⟩
  · refine ⟨(c :: cs).takeWhile isSpace, List.takeWhile_append_dropWhile.symm, ?_, ?_⟩
    · simp [hc]
    · exact List.all_eq_true.mp List.all_takeWhile
  · obtain ⟨hform, -, rfl⟩ := of_first? hfirst
    exact ⟨_, rfl, hform, rfl⟩

theorem nextPiece_longest {taken' rest' : List Char} {p' : Option Token}
    (h : nextPiece s = some (p, rest)) (hs : s = taken' ++ rest') (h' : Takes p' taken') :
    rest.length ≤ rest'.length := by
  obtain ⟨d, ds, hd, hspace⟩ := h'.exists_cons
  rcases nextPiece_eq_some h with ⟨rfl, rfl, c, cs, rfl, hc⟩ | ⟨t, rfl, hfirst, c, cs, rfl, hc⟩
  · cases p' with
    | none =>
        rw [hs, List.dropWhile_append_of_pos h'.2]
        exact length_dropWhile_le isSpace rest'
    | some t' =>
        rw [hd] at hs
        obtain ⟨rfl, -⟩ := List.cons.inj hs
        exact nomatch hc.symm.trans hspace
  · cases p' with
    | none =>
        rw [hd] at hs
        obtain ⟨rfl, -⟩ := List.cons.inj hs
        exact nomatch hc.symm.trans hspace
    | some t' =>
        obtain ⟨hform, rfl⟩ := h'
        obtain ⟨t'', rest'', hfirst', hle⟩ := exists_first?_of_text hform rest'
        rw [hs, hfirst'] at hfirst
        cases hfirst
        exact hle

theorem nextPiece_ne_none {taken rest : List Char} {p : Option Token} (h : Takes p taken) :
    nextPiece (taken ++ rest) ≠ none := by
  obtain ⟨c, cs, rfl, hc⟩ := h.exists_cons
  cases p with
  | none =>
      rw [List.cons_append, nextPiece, if_pos (by simp [hc])]
      exact nofun
  | some t =>
      obtain ⟨hform, htext⟩ := h
      obtain ⟨t', rest', hfirst, -⟩ := exists_first?_of_text hform rest
      rw [← htext] at hfirst
      rw [List.cons_append, nextPiece, if_neg (by simp [hc]), ← List.cons_append, hfirst]
      exact nofun

def longestMatch : LongestMatch where
  next := nextPiece
  takes := takes_of_nextPiece
  longest := nextPiece_longest
  found := nextPiece_ne_none

end Lexeme

end GuardedObjects
