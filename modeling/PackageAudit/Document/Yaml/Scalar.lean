import PackageAudit.Binary64.Decimal
import PackageAudit.Document.Json.Text
import PackageAudit.Document.Value
import PackageAudit.Document.Yaml.Token
import PackageAudit.Text.Digits

/-!
# Document.Yaml.Scalar — scalars of a YAML text

* `Yaml.readQuoted` — a text in double quotes;
* `Yaml.plainValue` — the value of an unquoted scalar: null, truth values and numbers in the
  spellings of the core schema, anything else a string;
* `Yaml.scalar` — the value behind a key or a dash.
-/

namespace PackageAudit

namespace Yaml

/-! ## Quoted scalars -/

/-- The characters with an escape of two characters. -/
def shortEscape? : Char → Option Char
  | '"' => some '"'
  | '\\' => some '\\'
  | '/' => some '/'
  | ' ' => some ' '
  | '0' => some '\x00'
  | 'a' => some '\x07'
  | 'b' => some '\x08'
  | 't' => some '\t'
  | 'n' => some '\n'
  | 'v' => some '\x0b'
  | 'f' => some '\x0c'
  | 'r' => some '\r'
  | 'e' => some '\x1b'
  | 'N' => some '\u0085'
  | '_' => some '\u00a0'
  | 'L' => some '\u2028'
  | 'P' => some '\u2029'
  | _ => none

/-- How many hexadecimal digits follow the letter of an escape. -/
def escapeWidth : Char → Nat
  | 'x' => 2
  | 'u' => 4
  | 'U' => 8
  | _ => 0

/-- The value of a digit in the bases up to sixteen. -/
def digitValue? (base : Nat) (c : Char) : Option Nat :=
  let value? :=
    if c.isDigit then some (c.toNat - '0'.toNat)
    else if 'a' ≤ c ∧ c ≤ 'f' then some (c.toNat - 'a'.toNat + 10)
    else if 'A' ≤ c ∧ c ≤ 'F' then some (c.toNat - 'A'.toNat + 10)
    else none
  value?.filter (· < base)

/-- The number that digits of a base stand for. -/
def digitsValue? (base : Nat) (cs : List Char) : Option Nat :=
  cs.foldlM (fun n c => (digitValue? base c).map (base * n + ·)) 0

/-- The character that a run of exactly `width` digits numbers. -/
def numbered? (width : Nat) (digits : List Char) : Option Char :=
  if width = 0 ∨ digits.length ≠ width then none
  else (digitsValue? 16 digits).bind Utf8.scalar?

/--
The rest of a quoted text from `cs` on, where `front` holds what is already read, last first; with
what follows the closing quote. Columns are those of the line, and a missing quote is reported at
`opened`.
-/
def readQuotedFrom (opened column : Nat) (front cs : List Char) : Column (String × List Char) :=
  match cs with
  | [] => .error (.unterminatedString, opened)
  | '"' :: rest => .ok (.ofList front.reverse, rest)
  | '\\' :: code :: rest =>
    match shortEscape? code with
    | some c => readQuotedFrom opened (column + 2) (c :: front) rest
    | none =>
      let width := escapeWidth code
      match numbered? width (rest.take width) with
      | some c => readQuotedFrom opened (column + 2 + width) (c :: front) (rest.drop width)
      | none => .error (.invalidEscape (.ofList ('\\' :: code :: rest.take width)), column)
  | ['\\'] => .error (.unterminatedString, opened)
  | c :: rest => readQuotedFrom opened (column + 1) (c :: front) rest
  termination_by cs.length

/-- The quoted text whose opening quote stood at `column`, read from behind that quote. -/
def readQuoted (column : Nat) (cs : List Char) : Column (String × List Char) :=
  readQuotedFrom column (column + 1) [] cs

/-! ## Plain scalars -/

/-- Faults that the first characters of a plain scalar or key decide. -/
def indicatorFault? : List Char → Option YamlFault
  | [] => none
  | c :: rest =>
    let apart := rest.head?.all (· == ' ')
    match c with
    | '|' | '>' => some .blockScalar
    | '&' => some .anchor
    | '*' => some .reference
    | '!' => some .tag
    | '\'' => some .singleQuoted
    | '[' | '{' | ']' | '}' | ',' => some .flowCollection
    | '?' => if apart then some .complexKey else none
    | '-' => if apart then some .unexpectedSequenceEntry else none
    | '@' => some (.reservedIndicator '@')
    | '\x60' => some (.reservedIndicator '\x60')
    | _ => none

/-- Names with a value of their own. -/
def namedValue? (text : String) : Option Value :=
  match text with
  | "~" | "null" | "Null" | "NULL" => some .null
  | "true" | "True" | "TRUE" => some (.bool true)
  | "false" | "False" | "FALSE" => some (.bool false)
  | ".inf" | ".Inf" | ".INF" | "+.inf" | "+.Inf" | "+.INF" =>
    some (.number (.float (.infinite false)))
  | "-.inf" | "-.Inf" | "-.INF" => some (.number (.float (.infinite true)))
  | ".nan" | ".NaN" | ".NAN" => some (.number (.float .nan))
  | _ => none

/-- Whether other capitals would make the text one of the names with a value of their own. -/
def isAmbiguous (text : String) : Bool :=
  ["null", "true", "false", ".inf", "+.inf", "-.inf", ".nan"].contains (text.map Char.toLower)

/-- An integer in base eight or sixteen, a double if it takes up to 128 bits, nothing beyond. -/
def radixNumber? (base : Nat) (digits : List Char) : Option Number :=
  if digits.isEmpty then none
  else
    (digitsValue? base digits).bind fun (n : Nat) =>
      if Number.inRange n then some (.int n)
      else if n < 0x100000000000000000000000000000000 then some (.float (.ofInt n))
      else none

/-- The sign and what follows it. -/
def splitSign : List Char → Bool × List Char
  | '-' :: rest => (true, rest)
  | '+' :: rest => (false, rest)
  | cs => (false, cs)

/-- What stands before and behind the first character of a kind, which itself is dropped. -/
def splitAt? (p : Char → Bool) (cs : List Char) : List Char × Option (List Char) :=
  (cs.takeWhile (!p ·), (cs.dropWhile (!p ·)).tail?)

/-- A numeral with point or exponent, without its sign; digits may be missing on one side. -/
def decimal? (cs : List Char) : Option Decimal :=
  let (mantissa, exponent) := splitAt? (fun c => c == 'e' || c == 'E') cs
  let (whole, fraction) := splitAt? (· == '.') mantissa
  let fraction := fraction.getD []
  let allDigits := fun (ds : List Char) => ds.all Char.isDigit
  if allDigits whole ∧ allDigits fraction ∧ ¬ (whole.isEmpty ∧ fraction.isEmpty) then
    let digits := Digits.value (whole ++ fraction)
    match exponent.map splitSign with
    | none => some ⟨digits, -(fraction.length : Int)⟩
    | some (negative, ds) =>
      if ds.isEmpty ∨ ¬ allDigits ds then none
      else
        let power : Int := Digits.value ds
        some ⟨digits, (if negative then -power else power) - fraction.length⟩
  else none

/-- The integer that a run of digits spells. -/
def integer? (negative : Bool) (digits : List Char) : Option Int :=
  if digits ≠ [] ∧ digits.all Char.isDigit then
    let magnitude : Int := Digits.value digits
    some (if negative then -magnitude else magnitude)
  else none

/-- An integer in base ten that fits, else a numeral read as a double. -/
def decimalNumber? (cs : List Char) : Option Number :=
  let (negative, unsigned) := splitSign cs
  match (integer? negative unsigned).filter Number.inRange with
  | some n => some (.int n)
  | none => (decimal? unsigned).map fun d => .float (.ofDecimal negative d)

/-- The number that a plain scalar spells. -/
def number? : List Char → Option Number
  | '0' :: 'x' :: digits => radixNumber? 16 digits
  | '0' :: 'o' :: digits => radixNumber? 8 digits
  | cs => decimalNumber? cs

/-- The value of a plain scalar. -/
def plainValue (cs : List Char) : Except YamlFault Value :=
  let text := String.ofList cs
  match namedValue? text with
  | some value => .ok value
  | none =>
    if isAmbiguous text then .error (.ambiguousLiteral text)
    else
      match number? cs with
      | some n => .ok (.number n)
      | none => .ok (.string text)

/-! ## Scalars -/

/-- Whether a text is a pair of brackets with nothing but spaces in it. -/
def isEmptyFlow (left right : Char) : List Char → Bool
  | c :: rest => c == left && rest.getLast? == some right && rest.dropLast.all (· == ' ')
  | [] => false

/-- What precedes the first colon that ends a key, and what follows that colon. -/
def splitColonFrom (front : List Char) : List Char → Option (List Char × List Char)
  | [] => none
  | c :: rest =>
    if c = ':' ∧ rest.head?.all (· == ' ') then some (front.reverse, rest)
    else splitColonFrom (c :: front) rest

/-- What precedes the first colon with a space or nothing behind it, and what follows the colon. -/
def splitColon? (cs : List Char) : Option (List Char × List Char) :=
  splitColonFrom [] cs

/-- The value of a scalar that stands at `column`. -/
def scalar (column : Nat) (cs : List Char) : Column Value :=
  match cs with
  | '"' :: quoted =>
    match readQuoted column quoted with
    | .error e => .error e
    | .ok (text, []) => .ok (.string text)
    | .ok (_, rest) => .error (.trailingContent, column + (cs.length - rest.length))
  | cs =>
    if isEmptyFlow '[' ']' cs then .ok (.array [])
    else if isEmptyFlow '{' '}' cs then .ok (.object [] [])
    else
      match indicatorFault? cs, splitColon? cs with
      | some fault, _ => .error (fault, column)
      | none, some (before, _) => .error (.mappingValueNotAllowed, column + before.length)
      | none, none => (plainValue cs).mapError (·, column)

end Yaml

end PackageAudit
