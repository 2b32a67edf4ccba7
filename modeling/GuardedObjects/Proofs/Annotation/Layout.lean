import GuardedObjects.Proofs.Annotation.Lexing
import Mathlib

/-!
# Where tokens stand

The tokens of a text lie in it one behind the other, each where its offset says, and everything
between them is space.
-/

namespace GuardedObjects

/-- The offset behind the token. -/
def Lexeme.stop (l : Lexeme) : Nat := l.offset + l.token.text.utf8ByteSize

def Token.IsIdent : Token → Prop
  | .ident _ => True
  | _ => False

/-- Space, tab, carriage return and line feed. -/
def spaceBytes : List UInt8 := [0x20, 0x09, 0x0D, 0x0A]

/-- From an offset on, a text consists of these tokens and of spaces. -/
structure Tiles (start : Nat) (text : ByteArray) (tokens : List Lexeme) : Prop where
  within : ∀ l ∈ tokens, start ≤ l.offset
  increasing : tokens.Pairwise fun l m => l.offset < m.offset
  disjoint : tokens.Pairwise fun l m => l.stop ≤ m.offset
  /-- At its offset stands the text of the token. -/
  reads : ∀ l ∈ tokens, text.extract l.offset l.stop = l.token.text.toUTF8
  /-- What is not in a token is space. -/
  blank : ∀ i (h : i < text.size), start ≤ i → (∀ l ∈ tokens, i < l.offset ∨ l.stop ≤ i) →
    text[i] ∈ spaceBytes
  /-- There is a space between an identifier and an identifier that comes next. -/
  apart : tokens.IsChain fun l m => l.token.IsIdent → m.token.IsIdent →
    ∃ i, ∃ h : i < text.size, l.stop ≤ i ∧ i < m.offset ∧ text[i] ∈ spaceBytes

namespace Tiles

variable {start : Nat} {text : ByteArray} {tokens : List Lexeme}

theorem nil (h : text.size = start) : Tiles start text [] where
  within := nofun
  increasing := .nil
  disjoint := .nil
  reads := nofun
  blank i hi hstart := by omega
  apart := .nil

theorem space (hlt : start < text.size) (hspace : text[start] ∈ spaceBytes)
    (h : Tiles (start + 1) text tokens) : Tiles start text tokens where
  within l hl := Nat.le_of_succ_le (h.within l hl)
  increasing := h.increasing
  disjoint := h.disjoint
  reads := h.reads
  blank i hi hstart hout := by
    rcases Nat.eq_or_lt_of_le hstart with rfl | hlater
    · exact hspace
    · exact h.blank i hi hlater hout
  apart := h.apart

theorem token {t : Token} (hpos : 0 < t.text.utf8ByteSize)
    (hread : text.extract start (start + t.text.utf8ByteSize) = t.text.toUTF8)
    (hnext : t.IsIdent → ∀ m ∈ tokens.head?, m.token.IsIdent →
      ∃ i, ∃ h : i < text.size,
        start + t.text.utf8ByteSize ≤ i ∧ i < m.offset ∧ text[i] ∈ spaceBytes)
    (h : Tiles (start + t.text.utf8ByteSize) text tokens) :
    Tiles start text (⟨t, start⟩ :: tokens) where
  within := by
    refine List.forall_mem_cons.mpr ⟨Nat.le_refl start, fun l hl => ?_⟩
    have hl := h.within l hl
    omega
  increasing := by
    refine List.pairwise_cons.mpr ⟨fun l hl => ?_, h.increasing⟩
    have hl := h.within l hl
    dsimp only
    omega
  disjoint := List.pairwise_cons.mpr ⟨h.within, h.disjoint⟩
  reads := List.forall_mem_cons.mpr ⟨hread, h.reads⟩
  blank i hi hstart hout := by
    obtain ⟨hhead, hrest⟩ := List.forall_mem_cons.mp hout
    have hlater : start + t.text.utf8ByteSize ≤ i := hhead.resolve_left (Nat.not_lt.mpr hstart)
    exact h.blank i hi hlater hrest
  apart := by
    cases tokens with
    | nil => exact .singleton _
    | cons m rest =>
        exact List.isChain_cons_cons.mpr ⟨fun ht hm => hnext ht m rfl hm, h.apart⟩

end Tiles

/-! ### The tokens of a text -/

theorem Token.WellFormed.size_pos {t : Token} (h : t.WellFormed) : 0 < t.text.utf8ByteSize := by
  obtain ⟨c, cs, htext, -⟩ := h.exists_text
  rw [Nat.pos_iff_ne_zero, ne_eq, String.utf8ByteSize_eq_zero_iff]
  intro hempty
  rw [hempty] at htext
  cases htext

/-- A space takes one byte. -/
theorem utf8Encode_of_isSpace {c : Char} (h : Lexeme.isSpace c = true) :
    c.utf8Size = 1 ∧ ∃ b ∈ spaceBytes, [c].utf8Encode = [b].toByteArray := by
  simp only [Lexeme.isSpace, Bool.or_eq_true, decide_eq_true_eq] at h
  rcases h with ((rfl | rfl) | rfl) | rfl
  · exact ⟨by decide, 0x20, by decide, by decide⟩
  · exact ⟨by decide, 0x09, by decide, by decide⟩
  · exact ⟨by decide, 0x0D, by decide, by decide⟩
  · exact ⟨by decide, 0x0A, by decide, by decide⟩

/-- Behind any bytes, the byte of a space stands where they end. -/
theorem exists_space_byte {c : Char} (h : Lexeme.isSpace c = true) (front : ByteArray)
    (s : List Char) : ∃ hlt : front.size < (front ++ (c :: s).utf8Encode).size,
      (front ++ (c :: s).utf8Encode)[front.size] ∈ spaceBytes := by
  obtain ⟨-, b, hb, hbytes⟩ := utf8Encode_of_isSpace h
  have hsize : front.size < (front ++ (c :: s).utf8Encode).size := by
    have hone : [b].toByteArray.size = 1 := List.size_toByteArray
    rw [List.utf8Encode_cons, hbytes, ByteArray.size_append, ByteArray.size_append, hone]
    omega
  refine ⟨hsize, ?_⟩
  have hbyte : (front ++ (c :: s).utf8Encode)[front.size] = b := by
    simp only [List.utf8Encode_cons, hbytes]
    rw [ByteArray.getElem_append_right (Nat.le_refl _), ByteArray.getElem_append_left (by simp)]
    simp
  rwa [hbyte]

/-- An identifier goes on with an identifier. -/
theorem not_endsIdent_text {t : Token} {s : List Char} (hform : t.WellFormed) (ht : t.IsIdent) :
    ¬ EndsIdent (t.text.toList ++ s) := by
  intro hends
  cases t with
  | ident name =>
      change isIdentifier name.toList = true at hform
      change EndsIdent (name.toList ++ s) at hends
      cases hname : name.toList with
      | nil => simp [hname, isIdentifier] at hform
      | cons c cs =>
          simp only [hname, isIdentifier, Bool.and_eq_true] at hform
          rw [hname] at hends
          have hc : isIdentPart c = false := hends c rfl
          rw [isIdentPart_of_isIdentStart hform.1] at hc
          cases hc
  | _ => exact ht.elim

/-- Behind an identifier there is a space before the next one. -/
theorem Lays.space_of_ident {offset : Nat} {s : List Char} {m : Lexeme} {tokens : List Lexeme}
    (h : Lays offset s (m :: tokens)) (hends : EndsIdent s) (hm : m.token.IsIdent) :
    ∃ c rest, s = c :: rest ∧ Lexeme.isSpace c = true ∧
      Lays (offset + c.utf8Size) rest (m :: tokens) := by
  cases h with
  | space hc h => exact ⟨_, _, rfl, hc, h⟩
  | token hform _ _ => exact absurd hends (not_endsIdent_text hform hm)

theorem Lays.le_offset {offset : Nat} {s : List Char} {tokens : List Lexeme}
    (h : Lays offset s tokens) : ∀ l ∈ tokens, offset ≤ l.offset := by
  induction h with
  | nil => exact nofun
  | space _ _ ih => exact fun l hl => Nat.le_of_add_right_le (ih l hl)
  | token _ _ _ ih =>
      exact List.forall_mem_cons.mpr ⟨Nat.le_refl _, fun l hl => Nat.le_of_add_right_le (ih l hl)⟩

theorem endsIdent_of_isIdent {t : Token} {s : List Char} (ht : t.IsIdent)
    (hends : ∀ name, t = .ident name → EndsIdent s) : EndsIdent s := by
  cases t with
  | ident name => exact hends name rfl
  | _ => exact ht.elim

theorem extract_between (front middle rest : ByteArray) :
    (front ++ middle ++ rest).extract front.size (front.size + middle.size) = middle := by
  rw [← ByteArray.size_append, ByteArray.extract_append_size_left]
  exact ByteArray.extract_append_eq_right rfl ByteArray.size_append

/-- Tokens stand where they are laid, whatever bytes are in front of them. -/
theorem Lays.tiles {offset : Nat} {s : List Char} {tokens : List Lexeme} (h : Lays offset s tokens)
    {front : ByteArray} (hfront : front.size = offset) :
    Tiles offset (front ++ s.utf8Encode) tokens := by
  induction h generalizing front with
  | nil =>
      apply Tiles.nil
      simpa using hfront
  | @space offset c s tokens hc _ ih =>
      subst hfront
      obtain ⟨hone, b, -, hbytes⟩ := utf8Encode_of_isSpace hc
      obtain ⟨hlt, hspace⟩ := exists_space_byte hc front s
      have hsize : (front ++ [c].utf8Encode).size = front.size + c.utf8Size := by
        rw [hbytes, hone, ByteArray.size_append]
        simp
      have hrest := ih hsize
      rw [ByteArray.append_assoc, ← List.utf8Encode_cons, hone] at hrest
      exact .space hlt hspace hrest
  | @token offset t s tokens hform hends h ih =>
      subst hfront
      have hsize : (front ++ t.text.toByteArray).size = front.size + t.text.utf8ByteSize := by
        rw [ByteArray.size_append, String.size_toByteArray]
      have hrest := ih hsize
      have hbytes : front ++ (t.text.toList ++ s).utf8Encode =
          front ++ t.text.toByteArray ++ s.utf8Encode := by
        rw [List.utf8Encode_append, String.utf8Encode_toList, ByteArray.append_assoc]
      rw [hbytes]
      refine .token hform.size_pos (extract_between front _ _) ?_ hrest
      intro ht m hm hident
      obtain ⟨rest, rfl⟩ := List.head?_eq_some_iff.mp hm
      obtain ⟨c, s, rfl, hc, hlays⟩ := h.space_of_ident (endsIdent_of_isIdent ht hends) hident
      obtain ⟨hlt, hspace⟩ := exists_space_byte hc (front ++ t.text.toByteArray) s
      have hpos := c.utf8Size_pos
      have hoffset := hlays.le_offset m (by simp)
      exact ⟨_, hlt, Nat.le_of_eq hsize.symm, by omega, hspace⟩

theorem tiles_of_tokenize {source : String} {tokens : List Lexeme}
    (h : Ty.tokenize source = .ok tokens) : Tiles 0 source.toUTF8 tokens := by
  have hlays := tokenize_eq_ok_iff.mp h
  have htiles : Tiles 0 (ByteArray.empty ++ source.toList.utf8Encode) tokens := hlays.tiles rfl
  rwa [ByteArray.empty_append, String.utf8Encode_toList] at htiles

/-! ### Texts that hold something else -/

theorem size_utf8Encode_singleton (c : Char) : [c].utf8Encode.size = c.utf8Size := by
  rw [List.utf8Encode_singleton, List.size_toByteArray, String.length_utf8EncodeChar]

theorem EndsIdent.of_append {s more : List Char} (h : EndsIdent (s ++ more)) : EndsIdent s := by
  intro c hc
  apply h
  rw [List.head?_append_of_ne_nil]
  · exact hc
  · rintro rfl
    cases hc

/-- Where the scan stops, a character stands that is no space and begins no token, and the text in
front of it consists of tokens and spaces. -/
theorem scan_eq_error {offset place : Nat} {s : List Char}
    (h : Lexeme.scan offset s = .error place) :
    ∃ before c after, s = before ++ c :: after ∧ place = offset + before.utf8Encode.size ∧
      Lexeme.isSpace c = false ∧ Lexeme.first? (c :: after) = none ∧
      ∃ tokens, Lays offset before tokens := by
  induction offset, s using Lexeme.scan.induct with
  | case1 offset =>
      rw [Lexeme.scan] at h
      cases h
  | case2 offset c s hc ih =>
      rw [Lexeme.scan, if_pos hc] at h
      obtain ⟨before, d, after, rfl, rfl, hd, hnone, tokens, hlays⟩ := ih h
      refine ⟨c :: before, d, after, rfl, ?_, hd, hnone, tokens, .space hc hlays⟩
      rw [List.utf8Encode_cons, ByteArray.size_append, size_utf8Encode_singleton]
      omega
  | case3 offset c s hc hnone =>
      have hspace : Lexeme.isSpace c = false := by simpa using hc
      rw [scan_of_first?_eq_none hnone hspace] at h
      cases h
      exact ⟨[], c, s, rfl, rfl, hspace, hnone, [], .nil⟩
  | case4 offset c s hc t rest hsome _ ih =>
      rw [scan_of_first? hsome (by simpa using hc)] at h
      obtain ⟨hform, hends, hs⟩ := first?_eq_some_iff.mp hsome
      cases hscan : Lexeme.scan (offset + t.text.utf8ByteSize) rest with
      | ok tokens =>
          rw [hscan] at h
          cases h
      | error place' =>
          rw [hscan] at h
          cases h
          obtain ⟨before, d, after, rfl, rfl, hd, hnone, tokens, hlays⟩ := ih hscan
          refine ⟨t.text.toList ++ before, d, after, by rw [hs, List.append_assoc], ?_, hd, hnone,
            _, .token hform (fun name ht => (hends name ht).of_append) hlays⟩
          rw [List.utf8Encode_append, ByteArray.size_append, String.utf8Encode_toList,
            String.size_toByteArray]
          omega

/-- A text is not cut into tokens because of a character that is no space and begins no token. The
error gives the byte offset of that character, and the text in front of it is cut. -/
structure StopsAt (source : String) (before : String) (c : Char) (after : List Char) : Prop where
  source_eq : source.toList = before.toList ++ c :: after
  not_space : Lexeme.isSpace c = false
  no_token : ∀ t : Token, t.WellFormed → ¬ t.text.toList <+: c :: after
  tokenized : ∃ tokens, Ty.tokenize before = .ok tokens

theorem exists_stopsAt_of_tokenize {source : String} {e : AnnotationError}
    (h : Ty.tokenize source = .error e) : ∃ before c after,
      StopsAt source before c after ∧ e = .unexpectedCharacter source before.utf8ByteSize := by
  unfold Ty.tokenize at h
  split at h
  next => cases h
  next hscan =>
    cases h
    obtain ⟨before, c, after, hs, rfl, hc, hnone, tokens, hlays⟩ := scan_eq_error hscan
    refine ⟨String.ofList before, c, after, ⟨?_, hc, first?_eq_none_iff.mp hnone, tokens, ?_⟩, ?_⟩
    · rw [hs, String.toList_ofList]
    · rwa [tokenize_eq_ok_iff, String.toList_ofList]
    · rw [← String.size_toByteArray, String.toByteArray_ofList, Nat.zero_add]

/-! ### Texts with given tokens -/

/-- Tokens, each with the spaces in front of it, and the spaces at the end. -/
structure Spread where
  pieces : List (List Char × Token)
  tail : List Char

namespace Spread

def tokens (w : Spread) : List Token := w.pieces.map Prod.snd

def text (w : Spread) : List Char :=
  w.pieces.flatMap (fun p => p.1 ++ p.2.text.toList) ++ w.tail

/-- The tokens have the form of their kinds, nothing but spaces is around them, and there is a space
at least between identifiers that are neighbours. -/
structure WellSpaced (w : Spread) : Prop where
  wellFormed : ∀ p ∈ w.pieces, p.2.WellFormed
  spaces : ∀ p ∈ w.pieces, ∀ c ∈ p.1, Lexeme.isSpace c = true
  tail : ∀ c ∈ w.tail, Lexeme.isSpace c = true
  apart : w.pieces.IsChain fun p q => p.2.IsIdent → q.2.IsIdent → q.1 ≠ []

end Spread

theorem Spells.spaces {s : List Char} {ts : List Token} (h : Spells s ts) {gap : List Char}
    (hgap : ∀ c ∈ gap, Lexeme.isSpace c = true) : Spells (gap ++ s) ts := by
  induction gap with
  | nil => exact h
  | cons c gap ih =>
      obtain ⟨hc, hgap⟩ := List.forall_mem_cons.mp hgap
      exact .space hc (ih hgap)

theorem isIdentPart_of_isSpace {c : Char} (h : Lexeme.isSpace c = true) :
    isIdentPart c = false := by
  simp only [Lexeme.isSpace, Bool.or_eq_true, decide_eq_true_eq] at h
  rcases h with ((rfl | rfl) | rfl) | rfl <;> decide

theorem endsIdent_of_spaces {gap s : List Char} (hgap : ∀ c ∈ gap, Lexeme.isSpace c = true)
    (hs : gap = [] → EndsIdent s) : EndsIdent (gap ++ s) := by
  cases gap with
  | nil => exact hs rfl
  | cons c gap => exact endsIdent_cons (isIdentPart_of_isSpace (hgap c (by simp)))

/-- Only an identifier goes on with an identifier. -/
theorem endsIdent_text {t : Token} (s : List Char) (h : ¬ t.IsIdent) :
    EndsIdent (t.text.toList ++ s) := by
  cases t with
  | ident name => exact absurd trivial h
  | _ => exact endsIdent_cons (by decide)

theorem Spread.WellSpaced.spells {w : Spread} (h : w.WellSpaced) : Spells w.text w.tokens := by
  obtain ⟨pieces, tail⟩ := w
  induction pieces with
  | nil => simpa [text, tokens] using Spells.nil.spaces h.tail
  | cons p pieces ih =>
      obtain ⟨hform, hforms⟩ := List.forall_mem_cons.mp h.wellFormed
      obtain ⟨hspaces, hrest⟩ := List.forall_mem_cons.mp h.spaces
      have hspells := ih ⟨hforms, hrest, h.tail, h.apart.tail⟩
      have hends : ∀ name, p.2 = .ident name → EndsIdent (text ⟨pieces, tail⟩) := by
        intro name hp
        cases pieces with
        | nil => simpa [text] using endsIdent_of_spaces (s := []) h.tail fun _ => endsIdent_nil
        | cons q pieces =>
            have hapart := (List.isChain_cons_cons.mp h.apart).1 (by rw [hp]; trivial)
            simp only [text, List.flatMap_cons, List.append_assoc]
            apply endsIdent_of_spaces (hrest q (by simp))
            intro hnil
            exact endsIdent_text _ fun hq => hapart hq hnil
      have htext : text ⟨p :: pieces, tail⟩ = p.1 ++ (p.2.text.toList ++ text ⟨pieces, tail⟩) := by
        simp only [text, List.flatMap_cons, List.append_assoc]
      rw [htext]
      exact (Spells.token hform hends hspells).spaces hspaces

theorem Spells.exists_spread {s : List Char} {ts : List Token} (h : Spells s ts) :
    ∃ w : Spread, w.WellSpaced ∧ w.tokens = ts ∧ w.text = s := by
  induction h with
  | nil => exact ⟨⟨[], []⟩, ⟨nofun, nofun, nofun, .nil⟩, rfl, rfl⟩
  | @space c s ts hc _ ih =>
      obtain ⟨⟨pieces, tail⟩, hw, rfl, rfl⟩ := ih
      cases pieces with
      | nil =>
          have htail : ∀ d ∈ c :: tail, Lexeme.isSpace d = true :=
            List.forall_mem_cons.mpr ⟨hc, hw.tail⟩
          exact ⟨⟨[], c :: tail⟩, ⟨nofun, nofun, htail, .nil⟩, rfl, rfl⟩
      | cons p pieces =>
          obtain ⟨hspaces, hrest⟩ := List.forall_mem_cons.mp hw.spaces
          have hgap : ∀ d ∈ c :: p.1, Lexeme.isSpace d = true :=
            List.forall_mem_cons.mpr ⟨hc, hspaces⟩
          refine ⟨⟨(c :: p.1, p.2) :: pieces, tail⟩, ⟨?_, ?_, hw.tail, ?_⟩, rfl, rfl⟩
          · exact List.forall_mem_cons.mpr (List.forall_mem_cons.mp hw.wellFormed)
          · exact List.forall_mem_cons.mpr ⟨hgap, hrest⟩
          · cases pieces with
            | nil => exact .singleton _
            | cons q pieces => exact List.isChain_cons_cons.mpr (List.isChain_cons_cons.mp hw.apart)
  | @token t s ts hform hends _ ih =>
      obtain ⟨⟨pieces, tail⟩, hw, rfl, rfl⟩ := ih
      refine ⟨⟨([], t) :: pieces, tail⟩, ⟨?_, ?_, hw.tail, ?_⟩, rfl, ?_⟩
      · exact List.forall_mem_cons.mpr ⟨hform, hw.wellFormed⟩
      · exact List.forall_mem_cons.mpr ⟨nofun, hw.spaces⟩
      · cases pieces with
        | nil => exact .singleton _
        | cons q pieces =>
            refine List.isChain_cons_cons.mpr ⟨fun ht hq hnil => ?_, hw.apart⟩
            have hs := endsIdent_of_isIdent ht hends
            simp only [Spread.text, List.flatMap_cons, hnil, List.nil_append,
              List.append_assoc] at hs
            exact not_endsIdent_text (hw.wellFormed q (by simp)) hq hs
      · simp only [Spread.text, List.flatMap_cons, List.nil_append, List.append_assoc]

/-- A text is cut into given tokens exactly if it consists of them with spaces around them. -/
theorem exists_tokenize_iff {source : String} {ts : List Token} :
    (∃ tokens, Ty.tokenize source = .ok tokens ∧ tokens.map Lexeme.token = ts) ↔
      ∃ w : Spread, w.WellSpaced ∧ w.tokens = ts ∧ w.text = source.toList := by
  constructor
  · rintro ⟨tokens, hsource, rfl⟩
    exact (tokenize_eq_ok_iff.mp hsource).spells.exists_spread
  · rintro ⟨w, hw, rfl, htext⟩
    apply tokenize_of_spells
    rw [← htext]
    exact hw.spells

end GuardedObjects
