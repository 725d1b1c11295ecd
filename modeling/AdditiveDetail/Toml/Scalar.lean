/-
The values of TOML that are written without marks: booleans, integers,
floating-point numbers, dates and times. Each reader takes the whole of a
word, so that a word which is none of these is refused and never half
read.

# Outline and value

A number is told by its outline, and only then is its value worked out.
A word with the outline of a number and no value, such as `1e999` or a
base without digits, is an `unreadable` value and not a fault of the
document.
-/
import AdditiveDetail.Binary.Rounding
import AdditiveDetail.Toml.Text
import AdditiveDetail.Toml.Value

namespace AdditiveDetail

-- one power on naturals, whatever else is imported
attribute [local instance(high)] instPowNat

namespace Toml

-- ==================================================================== digits

/-- Take a sign off: whether it is a minus, and the rest. -/
def takeSign : List Char → Bool × List Char
  | '-' :: rest => (true, rest)
  | '+' :: rest => (false, rest)
  | s => (false, s)

def signed (negative : Bool) (n : Nat) : Int :=
  if negative then -n else n

/-- Whether underscores stand only between digits. -/
def underscoresSeparate (isDigit : Char → Bool) (s : List Char) : Bool :=
  go false s
where
  /-- Look on, given whether a digit stands right before. -/
  go (afterDigit : Bool) : List Char → Bool
    | [] => true
    | '_' :: rest => afterDigit && rest.head?.any isDigit && go false rest
    | c :: rest => go (isDigit c) rest

/-- Whether a character is a hexadecimal digit. -/
def isHexDigit (c : Char) : Bool := (hexValue? c).isSome

/-- Whether a character is a digit of a base. -/
def isDigitOf (base : Nat) (c : Char) : Bool :=
  (hexValue? c).any fun d => d < base

/-- The number that digits of a base give, if they are digits of it, there
is one, and the number is below a limit. -/
def digitsBelow? (limit base : Nat) (s : List Char) : Option Nat :=
  if s.isEmpty then none
  else
    s.foldlM (fun n c => do
      let d ← hexValue? c
      if d < base ∧ base * n + d < limit then some (base * n + d)
      else none) 0

def withoutUnderscores (s : List Char) : List Char := s.filter (· ≠ '_')

-- ================================================================== integers

/-- Whether an integer can be held in 128 bits, with or without sign. -/
def isHeld (i : Int) : Bool := -2 ^ (127 : Nat) ≤ i && i < 2 ^ (128 : Nat)

/-- The value of a word with the outline of an integer. -/
def integerValue (base : Nat) (negative : Bool) (s : List Char) : Value :=
  match digitsBelow? (2 ^ (128 : Nat)) base (withoutUnderscores s) with
  | some n =>
      let i := signed negative n
      if isHeld i then .integer i else .unreadable
  | none => .unreadable

/-- An integer of a base that is not ten, behind the letter for the base.
There may be no digit at all. -/
def basedInteger? (base : Nat) (s : List Char) : Option Value :=
  if s.all (fun c => c = '_' || isDigitOf base c)
      && underscoresSeparate isHexDigit s then
    some (integerValue base false s)
  else none

/-- An integer of base ten, behind its sign. What follows the digits in
front of the first underscore is not looked at, save for underscores. -/
def plainInteger? (negative : Bool) (s : List Char) : Option Value :=
  if (s.head? ≠ some '0' || s.length = 1)
      && underscoresSeparate isHexDigit s then
    some (integerValue 10 negative s)
  else none

-- ==================================================== floating-point numbers

/-- The number that decimal digits give. -/
def ofDigits (digits : List Char) : Nat :=
  digits.foldl (fun n c => 10 * n + (c.toNat - '0'.toNat)) 0

/-- Digits that round like the given ones, the first of which is not zero.
A number halfway between two neighbours has fewer than eight hundred
digits, so of the digits behind these it only matters whether one is not
zero. -/
def significant (digits : List Char) : List Char :=
  let front := digits.take 800
  if (digits.drop 800).all (· = '0') then front else front ++ ['1']

/-- The number `digits * 10 ^ exponent`, unless it is too great. A number
with an exponent out of all proportion is not computed. -/
def decimal? (negative : Bool) (digits : List Char) (exponent : Int) :
    Option Binary64 :=
  let digits := digits.dropWhile (· = '0')
  let size := exponent + digits.length
  if digits.isEmpty ∨ size < -400 then some (.zero negative)
  else if 400 < size then none
  else
    let digits := significant digits
    let x : Binary64 :=
      .ofDecimal negative (ofDigits digits) (size - digits.length)
    if x.isFinite then some x else none

/-- Take digits off, at least one, with underscores among them. -/
def takeDigits? (s : List Char) : Option (List Char × List Char) :=
  let isPart (c : Char) : Bool := c = '_' || c.isDigit
  let digits := withoutUnderscores (s.takeWhile isPart)
  if digits.isEmpty then none else some (digits, s.dropWhile isPart)

/-- Take a fraction off, if one stands here: its digits. -/
def takeFraction? : List Char → Option (List Char × List Char)
  | '.' :: rest => takeDigits? rest
  | s => some ([], s)

/-- The size of an exponent. Once it has reached `2 ^ 16`, further digits do
not make it greater. -/
def exponentSize (digits : List Char) : Nat :=
  digits.foldl (fun n c =>
    if n < 2 ^ (16 : Nat) then 10 * n + (c.toNat - '0'.toNat) else n) 0

/-- Take an exponent off, if one stands here. -/
def takeExponent? : List Char → Option (Int × List Char)
  | [] => some (0, [])
  | c :: rest =>
      if c = 'e' || c = 'E' then do
        let (negative, rest) := takeSign rest
        let (digits, rest) ← takeDigits? rest
        return (signed negative (exponentSize digits), rest)
      else some (0, c :: rest)

/-- A floating-point number behind its sign: a whole part, then a
fraction, an exponent or both. -/
def float? (negative : Bool) (s : List Char) : Option Value := do
  let (whole, rest) ← takeDigits? s
  let (fraction, rest) ← takeFraction? rest
  let (exponent, rest) ← takeExponent? rest
  if (s.head? ≠ some '0' || whole.length = 1) && rest.isEmpty
      && underscoresSeparate Char.isDigit s then
    match decimal? negative (whole ++ fraction)
        (exponent - fraction.length) with
    | some x => some (.float x)
    | none => some .unreadable
  else none

-- ============================================================ dates and times

/-- Two decimal digits as a number. -/
def twoDigits? (a b : Char) : Option Nat :=
  if a.isDigit && b.isDigit then
    some (10 * (a.toNat - '0'.toNat) + (b.toNat - '0'.toNat))
  else none

/-- Days of a month. -/
def monthDays (year month : Nat) : Nat :=
  let leap := year % 4 = 0 ∧ (year % 100 ≠ 0 ∨ year % 400 = 0)
  if month = 2 then if leap then 29 else 28
  else if month = 4 ∨ month = 6 ∨ month = 9 ∨ month = 11 then 30
  else 31

/-- What stands behind a date, if one stands here. -/
def afterDate? : List Char → Option (List Char)
  | y₁ :: y₂ :: y₃ :: y₄ :: '-' :: m₁ :: m₂ :: '-' :: d₁ :: d₂ :: rest => do
      let century ← twoDigits? y₁ y₂
      let year ← twoDigits? y₃ y₄
      let month ← twoDigits? m₁ m₂
      let day ← twoDigits? d₁ d₂
      if 1 ≤ month ∧ month ≤ 12 ∧ 1 ≤ day
          ∧ day ≤ monthDays (100 * century + year) month then
        some rest
      else none
  | _ => none

/-- What stands behind an hour and a minute, if they stand here. -/
def afterMinutes? : List Char → Option (List Char)
  | h₁ :: h₂ :: ':' :: m₁ :: m₂ :: rest => do
      let hour ← twoDigits? h₁ h₂
      let minute ← twoDigits? m₁ m₂
      if hour ≤ 23 ∧ minute ≤ 59 then some rest else none
  | _ => none

/-- What stands behind a time of day, if one stands here. Seconds, with or
without a fraction, may be missing. -/
def afterTime? (s : List Char) : Option (List Char) := do
  match ← afterMinutes? s with
  | ':' :: s₁ :: s₂ :: rest =>
      let second ← twoDigits? s₁ s₂
      if 60 < second then none
      else
        match rest with
        | '.' :: c :: rest' =>
            if c.isDigit then some (rest'.dropWhile Char.isDigit) else none
        | _ => some rest
  | rest => some rest

/-- Whether a word is an offset from universal time, or empty. -/
def isOffset : List Char → Bool
  | [] => true
  | ['Z'] => true
  | ['z'] => true
  | '+' :: rest => afterMinutes? rest = some []
  | '-' :: rest => afterMinutes? rest = some []
  | _ => false

/-- Whether a character stands between a date and a time. -/
def joinsTime (c : Char) : Bool := c = 'T' || c = 't' || c = ' '

/-- Whether a word is a date, a time of day, or both. -/
def isMoment (s : List Char) : Bool :=
  match afterDate? s with
  | some [] => true
  | some (c :: rest) =>
      joinsTime c &&
        match afterTime? rest with
        | some offset => isOffset offset
        | none => false
  | none => afterTime? s = some []

-- ===================================================================== words

/-- A character that ends a word. -/
def endsWord (c : Char) : Bool :=
  isBlank c || "\r\n#=,[]\x7b\x7d".toList.contains c

def isWordChar (c : Char) : Bool := !endsWord c

/-- Whether blanks are followed by more of a word. What starts like a
string or with a point is none. -/
def continues (s : List Char) : Bool :=
  match s.dropWhile isBlank with
  | c :: _ => isWordChar c && c ≠ '"' && c ≠ '\'' && c ≠ '.'
  | [] => false

/-- Take a word off. Blanks in front of more characters of a word belong
to it, such as the one between a date and a time. -/
def takeWord (s : List Char) : List Char × List Char :=
  go false s
where
  /-- Take off what is left of a word, given whether blanks that stand here
  are known to belong to it. -/
  go (inside : Bool) : List Char → List Char × List Char
    | [] => ([], [])
    | c :: rest =>
        if isWordChar c then
          let (word, rest) := go false rest
          (c :: word, rest)
        else if isBlank c && (inside || continues rest) then
          let (word, rest) := go true rest
          (c :: word, rest)
        else ([], c :: rest)

/-- The value of a word that starts with a digit behind its sign. What
follows the digits in front tells which kind it is. -/
def digitValue? (word : List Char) (negative : Bool) (s : List Char) :
    Option Value :=
  let rest := s.dropWhile Char.isDigit
  let startsWith (c : Char) : Bool := rest.head? = some c
  if rest.isEmpty then plainInteger? negative s
  else if startsWith '-' || startsWith ':' || rest.contains ' ' then
    if isMoment word then some .moment else none
  else if rest.any fun c => c = '.' || c = 'e' || c = 'E' then
    float? negative s
  else if startsWith '_' then plainInteger? negative s
  else none

/-- The value that a word is. -/
def scalarValue? (word : List Char) : Option Value :=
  if word = "true".toList then some (.boolean true)
  else if word = "false".toList then some (.boolean false)
  else
    let (negative, s) := takeSign word
    let hasSign : Bool := s.length < word.length
    match s with
    | ['i', 'n', 'f'] => some (.float (.infinity negative))
    | ['n', 'a', 'n'] => some (.float .nan)
    | '0' :: 'x' :: rest => if hasSign then none else basedInteger? 16 rest
    | '0' :: 'o' :: rest => if hasSign then none else basedInteger? 8 rest
    | '0' :: 'b' :: rest => if hasSign then none else basedInteger? 2 rest
    | c :: _ =>
        if c.isDigit then digitValue? word negative s else none
    | [] => none

end Toml

end AdditiveDetail
