import PackageAudit.Binary64.Decimal
import PackageAudit.Document.Json.Options
import PackageAudit.Text.Digits

/-!
# Document.Json.Number — number literals of a JSON text

* `Json.Literal` — the parts of a literal;
* `Json.Literal.value` — its value: an integer if it looks like one and fits, else a double;
* `Json.readNumber` — the literal at the head of the input.
-/

namespace PackageAudit

namespace Json

/-- A number literal: sign, digits before the point, digits behind it, and the power of ten. -/
structure Literal where
  negative : Bool
  whole : Bytes
  fraction : Option Bytes
  /-- Whether the exponent is negative, and its digits. -/
  exponent : Option (Bool × Bytes)

namespace Literal

/-- The number that a run of digits stands for. -/
def digits (ds : Bytes) : Nat :=
  Digits.value (ds.map Char.ofUInt8)

/-- The number as digits times a power of ten. -/
def decimal (l : Literal) : Decimal :=
  let fraction := l.fraction.getD []
  let power : Int :=
    match l.exponent with
    | some (true, ds) => -(digits ds : Int)
    | some (false, ds) => digits ds
    | none => 0
  ⟨digits (l.whole ++ fraction), power - fraction.length⟩

/-- The value of a literal; an integer out of range is a double. -/
def value (l : Literal) : Number :=
  let n : Int := if l.negative then -(digits l.whole : Int) else digits l.whole
  if l.fraction.isNone ∧ l.exponent.isNone ∧ Number.inRange n then .int n
  else .float (.ofDecimal l.negative l.decimal)

end Literal

def isDigit (b : UInt8) : Bool :=
  (Char.ofUInt8 b).isDigit

theorem length_dropDigits_le (s : Bytes) : (s.dropWhile isDigit).length ≤ s.length :=
  (List.dropWhile_sublist _).length_le

/-- The sign of an exponent, if there is one, and what follows. -/
def readSign (s : Bytes) : Bool × Bytes :=
  match after? '-' s, after? '+' s with
  | some rest, _ => (true, rest)
  | none, some rest => (false, rest)
  | none, none => (false, s)

theorem length_readSign_le (s : Bytes) : (readSign s).2.length ≤ s.length := by
  unfold readSign
  grind [length_of_after?]

/-- What follows the letter of an exponent. -/
def afterExponentMark? (s : Bytes) : Option Bytes :=
  match after? 'e' s with
  | some rest => some rest
  | none => after? 'E' s

theorem length_of_afterExponentMark? {s r : Bytes} (h : afterExponentMark? s = some r) :
    s.length = r.length + 1 := by
  unfold afterExponentMark? at h
  grind [length_of_after?]

/-- What follows a minus sign, or all if there is none. -/
def dropMinus (s : Bytes) : Bytes :=
  match after? '-' s with
  | some rest => rest
  | none => s

theorem length_dropMinus_le (s : Bytes) : (dropMinus s).length ≤ s.length := by
  unfold dropMinus
  grind [length_of_after?]

/-- The complaint about the literal from `start` up to `rest`. -/
def malformed (start rest : Bytes) : JsonFault × Bytes :=
  (.malformedNumber (excerpt start rest), start)

/-- The exponent at `s`, if one stands there, ends the literal that began at `start`. -/
def readExponent (start : Bytes) (l : Literal) (s : Bytes) (h : s.length < start.length) :
    Leaf (Reading start Number) :=
  match hmark : afterExponentMark? s with
  | none => .ok ⟨l.value, s, h⟩
  | some more =>
    let sign := readSign more
    let ds := sign.2.takeWhile isDigit
    let rest := sign.2.dropWhile isDigit
    if ds.isEmpty then .error (malformed start rest)
    else
      .ok ⟨Literal.value ⟨l.negative, l.whole, l.fraction, some (sign.1, ds)⟩, rest, by
        have := length_of_afterExponentMark? hmark
        have : sign.2.length ≤ more.length := length_readSign_le more
        have : rest.length ≤ sign.2.length := length_dropDigits_le sign.2
        omega⟩

/--
The number at the head of `s`. Zeros in front and a point without digits on one side are refused
unless the rules allow them; an exponent needs digits under any rules.
-/
def readNumber (o : JsonOptions) (s : Bytes) : Leaf (Reading s Number) :=
  let negative := (after? '-' s).isSome
  let s₁ := dropMinus s
  have h₁ : s₁.length ≤ s.length := length_dropMinus_le s
  let whole := s₁.takeWhile isDigit
  let s₂ := s₁.dropWhile isDigit
  have h₂ : whole.length + s₂.length = s₁.length := by
    rw [← List.length_append, List.takeWhile_append_dropWhile]
  if 1 < whole.length ∧ whole.head? = some 0x30 ∧ ¬ o.leadingZeros then .error (.leadingZero, s)
  else
    match hpoint : after? '.' s₂ with
    | none =>
      if h : whole = [] then .error (malformed s s₂)
      else
        have := List.length_pos_iff.2 h
        readExponent s ⟨negative, whole, none, none⟩ s₂ (by omega)
    | some s₃ =>
      let fraction := s₃.takeWhile isDigit
      let s₄ := s₃.dropWhile isDigit
      have : s₄.length ≤ s₃.length := length_dropDigits_le s₃
      have := length_of_after? hpoint
      if (whole.isEmpty ∨ fraction.isEmpty) ∧ ¬ o.malformedDecimals then .error (malformed s s₄)
      else readExponent s ⟨negative, whole, some fraction, none⟩ s₄ (by omega)

end Json

end PackageAudit
