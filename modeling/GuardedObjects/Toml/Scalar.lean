/-!
# Numbers, dates and booleans

A scalar that is not quoted is written as one word, or as a date and a time with a space between
them. Configurations hold no numbers and no dates, so of these only the kind is kept; but numbers
that do not fit into 64 bits and dates that no calendar has are refused.
-/

namespace GuardedObjects.Toml

inductive Scalar where
  | boolean (b : Bool)
  | number
  | datetime
deriving DecidableEq, Repr

namespace Scalar

def isHexDigit (c : Char) : Bool :=
  c.isDigit || ('a' ≤ c && c ≤ 'f') || ('A' ≤ c && c ≤ 'F')

def isWordChar (c : Char) : Bool := c.isAlphanum || "_+-.:".contains c

/-! ### Numbers -/

/-- Digits with single underscores between some of them, which are left out. -/
def digits? (isDigit : Char → Bool) : List Char → Option (List Char)
  | [] => none
  | [c] => if isDigit c then some [c] else none
  | c :: '_' :: rest => if isDigit c then (c :: ·) <$> digits? isDigit rest else none
  | c :: rest => if isDigit c then (c :: ·) <$> digits? isDigit rest else none

def digitValue (c : Char) : Nat :=
  if c.isDigit then c.toNat - '0'.toNat
  else if c.isLower then c.toNat - 'a'.toNat + 10
  else c.toNat - 'A'.toNat + 10

def natOfDigits (base : Nat) (digits : List Char) : Nat :=
  digits.foldl (fun n c => base * n + digitValue c) 0

def sign : List Char → Bool × List Char
  | '+' :: rest => (false, rest)
  | '-' :: rest => (true, rest)
  | word => (false, word)

/-- Decimal digits that do not start with a needless zero. -/
def decimal? (word : List Char) : Option (List Char) :=
  (digits? Char.isDigit word).filter fun digits => digits.length = 1 || digits.head? ≠ some '0'

/-- An integer of 64 bits: decimal with an optional sign, or with a base and no sign. -/
def isInteger (word : List Char) : Bool :=
  let based (base : Nat) (isDigit : Char → Bool) (rest : List Char) : Bool :=
    (digits? isDigit rest).any fun digits => natOfDigits base digits < Nat.pow 2 63
  match word with
  | '0' :: 'x' :: rest => based 16 isHexDigit rest
  | '0' :: 'o' :: rest => based 8 (fun c => '0' ≤ c && c ≤ '7') rest
  | '0' :: 'b' :: rest => based 2 (fun c => c = '0' || c = '1') rest
  | _ =>
    let (negative, unsigned) := sign word
    (decimal? unsigned).any fun digits =>
      let n := natOfDigits 10 digits
      if negative then n ≤ Nat.pow 2 63 else n < Nat.pow 2 63

/-- The binary64 number nearest to `m * 10 ^ e` is finite. The greatest finite one is
`2 ^ 1024 - 2 ^ 971`, and numbers from the middle between it and `2 ^ 1024` on are rounded up. -/
def roundsToFinite (m : Nat) (e : Int) : Bool :=
  let bound := Nat.pow 2 1024 - Nat.pow 2 970
  let magnitude : Int := (Nat.toDigits 10 m).length + e
  if m = 0 || magnitude ≤ 308 then true
  else if 310 ≤ magnitude then false
  else m * Nat.pow 10 e.toNat < bound * Nat.pow 10 (-e).toNat

/-- A fraction, an exponent or both behind decimal digits. -/
def isUnsignedFloat (negative : Bool) (word : List Char) : Bool :=
  let (mantissa, exponent) := word.span fun c => c ≠ 'e' && c ≠ 'E'
  let (whole, fraction) := mantissa.span (· ≠ '.')
  let fraction? := if fraction.isEmpty then some [] else digits? Char.isDigit (fraction.drop 1)
  let (negativeExponent, exponentDigits) := sign (exponent.drop 1)
  let exponent? :=
    if exponent.isEmpty then some ['0'] else digits? Char.isDigit exponentDigits
  match decimal? whole, fraction?, exponent? with
  | some whole, some fraction, some exponentDigits =>
    let e : Int := natOfDigits 10 exponentDigits
    (mantissa.length < word.length || whole.length < mantissa.length) &&
      (negative || roundsToFinite (natOfDigits 10 (whole ++ fraction))
        ((if negativeExponent then -e else e) - fraction.length))
  | _, _, _ => false

/-- A binary64 number. Positive ones have to be finite after rounding, unless infinity is
asked for. -/
def isFloat (word : List Char) : Bool :=
  let (negative, unsigned) := sign word
  unsigned = "inf".toList || unsigned = "nan".toList || isUnsignedFloat negative unsigned

/-! ### Dates and times -/

def inRange (lo hi : Nat) (a b : Char) : Bool :=
  a.isDigit && b.isDigit && lo ≤ natOfDigits 10 [a, b] && natOfDigits 10 [a, b] ≤ hi

def daysInMonth (year month : Nat) : Nat :=
  if month = 2 then
    if year % 4 = 0 && (year % 100 ≠ 0 || year % 400 = 0) then 29 else 28
  else if month = 4 || month = 6 || month = 9 || month = 11 then 30
  else 31

def isDate : List Char → Bool
  | [y₁, y₂, y₃, y₄, '-', m₁, m₂, '-', d₁, d₂] =>
    let year := [y₁, y₂, y₃, y₄]
    year.all Char.isDigit && inRange 1 12 m₁ m₂ &&
      inRange 1 (daysInMonth (natOfDigits 10 year) (natOfDigits 10 [m₁, m₂])) d₁ d₂
  | _ => false

/-- What follows a time of day, which ends with seconds or a fraction of them. -/
def afterTime? : List Char → Option (List Char)
  | h₁ :: h₂ :: ':' :: m₁ :: m₂ :: ':' :: s₁ :: s₂ :: rest =>
    if inRange 0 23 h₁ h₂ && inRange 0 59 m₁ m₂ && inRange 0 60 s₁ s₂ then
      match rest with
      | '.' :: c :: rest => if c.isDigit then some (rest.dropWhile Char.isDigit) else none
      | _ => some rest
    else none
  | _ => none

def isOffset : List Char → Bool
  | ['Z'] | ['z'] => true
  | [s, h₁, h₂, ':', m₁, m₂] => (s = '+' || s = '-') && inRange 0 23 h₁ h₂ && inRange 0 59 m₁ m₂
  | _ => false

def isTime (word : List Char) : Bool := afterTime? word = some []

def isTimeWithOffset (word : List Char) : Bool :=
  (afterTime? word).any fun rest => rest.isEmpty || isOffset rest

def isDatetime (word : List Char) : Bool :=
  isTime word || isDate (word.take 10) &&
    match word.drop 10 with
    | [] => true
    | c :: rest => (c = 'T' || c = 't') && isTimeWithOffset rest

def ofWord? (word : List Char) : Option Scalar :=
  if word = "true".toList then some (.boolean true)
  else if word = "false".toList then some (.boolean false)
  else if isDatetime word then some .datetime
  else if isInteger word || isFloat word then some .number
  else none

end Scalar

end GuardedObjects.Toml
