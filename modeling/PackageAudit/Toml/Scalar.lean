import PackageAudit.Binary64.Decimal
import PackageAudit.Text.Digits
import PackageAudit.Toml.Value

/-!
# Toml.Scalar — numbers, dates and truth values of a settings file

* `Toml.scalar?` — the value that a word spells.
-/

namespace PackageAudit

namespace Toml

/-! ## Numbers -/

/-- The digits of a number, without the underscores that may stand between two of them. -/
def digits? (isDigit : Char → Bool) (word : List Char) : Option (List Char) :=
  let runs := word.splitOn '_'
  if runs.all fun run => !run.isEmpty && run.all isDigit then some runs.flatten else none

/-- The value of a digit of any base. -/
def digitValue (c : Char) : Nat :=
  if c.isDigit then c.toNat - '0'.toNat else c.toLower.toNat - 'a'.toNat + 10

/-- The number of a run of digits. -/
def numberOf (base : Nat) (digits : List Char) : Nat :=
  digits.foldl (fun n c => base * n + digitValue c) 0

/-- One more than the greatest number of 128 bits. -/
def integerBound : Int :=
  0x100000000000000000000000000000000

/-- The integers of 128 bits, with or without sign. -/
def integer? (n : Int) : Option Toml :=
  if -(integerBound / 2) ≤ n ∧ n < integerBound then some (.integer n) else none

/-- Whether a character is a digit of a base up to sixteen. -/
def isDigitOf (base : Nat) (c : Char) : Bool :=
  c.isAlphanum && digitValue c < base

/-- A number without sign, in a base that its second character names. -/
def based? : List Char → Option Toml
  | '0' :: mark :: word =>
    match mark with
    | 'x' => read 16 word
    | 'o' => read 8 word
    | 'b' => read 2 word
    | _ => none
  | _ => none
where
  read (base : Nat) (word : List Char) : Option Toml :=
    (digits? (isDigitOf base) word).bind fun ds => integer? (numberOf base ds)

/-- The sign in front of a word, and the rest of it. -/
def signed (word : List Char) : Bool × List Char :=
  match word with
  | '-' :: rest => (true, rest)
  | '+' :: rest => (false, rest)
  | _ => (false, word)

/-- The digits in front of the point, which have no zero in front. -/
def whole? (word : List Char) : Option (List Char) :=
  (digits? Char.isDigit word).filter fun ds => ds.length == 1 || ds.head? != some '0'

/-- An integer in decimal digits. -/
def decimal? (word : List Char) : Option Toml :=
  let (negative, word) := signed word
  (whole? word).bind fun ds =>
    integer? (if negative then -(numberOf 10 ds : Int) else numberOf 10 ds)

/-- The exponent of a float. -/
def exponent? (word : List Char) : Option Int :=
  let (negative, word) := signed word
  (digits? Char.isDigit word).map fun ds =>
    if negative then -(numberOf 10 ds : Int) else numberOf 10 ds

/-- The parts of a float in front of the letter of its exponent, and behind. -/
def splitExponent (word : List Char) : List Char × Option (List Char) :=
  match word.span fun c => c != 'e' && c != 'E' with
  | (front, []) => (front, none)
  | (front, _ :: behind) => (front, some behind)

/-- A float with digits, which must have a point or an exponent and not be too large. -/
def digitFloat? (word : List Char) : Option Toml := do
  let (front, behind) := splitExponent word
  let power ← match behind with
    | none => some 0
    | some word => exponent? word
  let (ds, places) ← match front.span (· != '.') with
    | (word, []) => if behind.isSome then (whole? word).map (·, 0) else none
    | (word, _ :: fraction) => do
      let ds ← whole? word
      let more ← digits? Char.isDigit fraction
      pure (ds ++ more, more.length)
  if (Binary64.ofDecimal false ⟨numberOf 10 ds, power - (places : Int)⟩).isFinite then some .float
  else none

/-- A float. -/
def float? (word : List Char) : Option Toml :=
  let (_, word) := signed word
  if word = ['i', 'n', 'f'] ∨ word = ['n', 'a', 'n'] then some .float else digitFloat? word

/-! ## Dates and times -/

/-- A number of exactly two digits that is at most `most`. -/
def twoDigits (most : Nat) (word : List Char) : Bool :=
  word.length == 2 && word.all Char.isDigit && numberOf 10 word ≤ most

/-- The number of days of a month. -/
def daysOf (year month : Nat) : Nat :=
  if month = 2 then
    if (year % 4 = 0 ∧ year % 100 ≠ 0) ∨ year % 400 = 0 then 29 else 28
  else if month = 4 ∨ month = 6 ∨ month = 9 ∨ month = 11 then 30
  else 31

/-- Year, month and day. -/
def isDate (word : List Char) : Bool :=
  match word.splitOn '-' with
  | [year, month, day] =>
    year.length == 4 && year.all Char.isDigit &&
      twoDigits 12 month && 0 < numberOf 10 month &&
      twoDigits (daysOf (numberOf 10 year) (numberOf 10 month)) day && 0 < numberOf 10 day
  | _ => false

/-- Hours, minutes and seconds, and perhaps parts of a second. -/
def isTime (word : List Char) : Bool :=
  match word.splitOn ':' with
  | [hour, minute, second] =>
    let (second, parts) := second.span (· != '.')
    twoDigits 23 hour && twoDigits 59 minute && twoDigits 60 second &&
      match parts with
      | [] => true
      | _ :: parts => !parts.isEmpty && parts.all Char.isDigit
  | _ => false

/-- The distance from the time of the zero meridian. -/
def isOffset (word : List Char) : Bool :=
  match word with
  | [mark] => mark == 'Z' || mark == 'z'
  | sign :: word =>
    (sign == '+' || sign == '-') &&
      match word.splitOn ':' with
      | [hour, minute] => twoDigits 23 hour && twoDigits 59 minute
      | _ => false
  | [] => false

/-- A time of day, with or without an offset. -/
def isOffsetTime (word : List Char) : Bool :=
  let (time, offset) := word.span fun c => c.isDigit || c == ':' || c == '.'
  isTime time && (offset.isEmpty || isOffset offset)

/-- What separates a date from a time. -/
def isDateMark (c : Char) : Bool :=
  c == 'T' || c == 't' || c == ' '

/-- A date, a time, or both. -/
def date? (word : List Char) : Option Toml :=
  let isMoment := match word.span fun c => !isDateMark c with
    | (word, []) => isDate word || isTime word
    | (day, _ :: time) => isDate day && isOffsetTime time
  if isMoment then some .date else none

/-! ## Words -/

/-- The value that a word spells. -/
def scalar? (word : List Char) : Option Toml :=
  if word = ['t', 'r', 'u', 'e'] then some (.boolean true)
  else if word = ['f', 'a', 'l', 's', 'e'] then some (.boolean false)
  else (decimal? word).or ((based? word).or ((float? word).or (date? word)))

end Toml

end PackageAudit
