import Mathlib.Data.Nat.Digits.Defs
import PackageAudit.Document.Json.Number
import PackageAudit.Text.Utf8

/-!
# Proofs.Document.Json.Grammar — JSON texts and what they stand for

The grammar of RFC 8259 over bytes, stated without the reader: each relation says which bytes spell
which thing.

* `Json.Numeral`, `Json.Denotes` — the literals of numbers, and the number a literal stands for;
* `Json.LooseNumeral`, `Json.Literal.Allowed` — the literals under relaxed rules;
* `Json.Character`, `Json.StringText` — the spellings of one character, and of a quoted string;
* `Json.Spelled` — values, elements and members, with blanks where the grammar has them;
* `Value.nesting`, `Value.KeysDistinct` — the two limits that the grammar does not express.
-/

namespace PackageAudit

namespace Json

/-- Spaces, tabs and line ends only. -/
def Blank (s : Bytes) : Prop :=
  ∀ b ∈ s, b = 0x20 ∨ b = 0x09 ∨ b = 0x0A ∨ b = 0x0D

/-! ## Numbers -/

def Digit (b : UInt8) : Prop :=
  '0'.toNat ≤ b.toNat ∧ b.toNat ≤ '9'.toNat

instance : DecidablePred Digit := fun b =>
  inferInstanceAs (Decidable ('0'.toNat ≤ b.toNat ∧ b.toNat ≤ '9'.toNat))

/-- One digit or more. -/
def Digits (ds : Bytes) : Prop :=
  ds ≠ [] ∧ ∀ b ∈ ds, Digit b

/-- The number that decimal digits stand for, the first digit being the greatest. -/
def natural (ds : Bytes) : Nat :=
  Nat.ofDigits 10 (ds.reverse.map fun b => b.toNat - '0'.toNat)

/-- The digits before the point: zero alone, or no zero in front. -/
def Whole (ds : Bytes) : Prop :=
  Digits ds ∧ (ds.head? = some '0'.toUInt8 → ds.length = 1)

inductive Fraction : Option Bytes → Bytes → Prop where
  | none : Fraction none []
  | some {ds : Bytes} (h : Digits ds) : Fraction (some ds) ('.'.toUInt8 :: ds)

/-- The sign of an exponent, negative or not. -/
inductive ExponentSign : Bool → Bytes → Prop where
  | none : ExponentSign false []
  | plus : ExponentSign false ['+'.toUInt8]
  | minus : ExponentSign true ['-'.toUInt8]

inductive Exponent : Option (Bool × Bytes) → Bytes → Prop where
  | none : Exponent none []
  | some {mark : UInt8} {negative : Bool} {sign ds : Bytes}
      (hmark : mark = 'e'.toUInt8 ∨ mark = 'E'.toUInt8) (hsign : ExponentSign negative sign)
      (h : Digits ds) : Exponent (some (negative, ds)) (mark :: (sign ++ ds))

/-- The minus sign of a number. -/
def minus (negative : Bool) : Bytes :=
  if negative then ['-'.toUInt8] else []

/-- The text of a number literal. -/
inductive Numeral : Literal → Bytes → Prop where
  | mk {negative : Bool} {whole f e : Bytes} {fraction : Option Bytes}
      {exponent : Option (Bool × Bytes)} (hw : Whole whole) (hf : Fraction fraction f)
      (he : Exponent exponent e) :
      Numeral ⟨negative, whole, fraction, exponent⟩ (minus negative ++ (whole ++ (f ++ e)))

/-- A point with any number of digits behind it. -/
inductive LooseFraction : Option Bytes → Bytes → Prop where
  | none : LooseFraction none []
  | some {ds : Bytes} (h : ∀ b ∈ ds, Digit b) : LooseFraction (some ds) ('.'.toUInt8 :: ds)

/-- The text of a number literal if no rule holds: a point may stand without digits. -/
inductive LooseNumeral : Literal → Bytes → Prop where
  | mk {negative : Bool} {whole f e : Bytes} {fraction : Option Bytes}
      {exponent : Option (Bool × Bytes)} (hw : ∀ b ∈ whole, Digit b)
      (hf : LooseFraction fraction f) (hne : whole ≠ [] ∨ fraction ≠ none)
      (he : Exponent exponent e) :
      LooseNumeral ⟨negative, whole, fraction, exponent⟩ (minus negative ++ (whole ++ (f ++ e)))

/-- What the rules ask of a literal. -/
structure Literal.Allowed (o : JsonOptions) (l : Literal) : Prop where
  zeros : o.leadingZeros = true ∨ (l.whole.head? = some '0'.toUInt8 → l.whole.length = 1)
  point : o.malformedDecimals = true ∨ (l.whole ≠ [] ∧ l.fraction ≠ some [])

/-- The bytes that go on with a literal. -/
inductive Literal.GoesOn (l : Literal) : UInt8 → Prop where
  | digit {b : UInt8} (h : Digit b) : GoesOn l b
  | point (hf : l.fraction = none) (he : l.exponent = none) : GoesOn l '.'.toUInt8
  | mark {b : UInt8} (he : l.exponent = none) (h : b = 'e'.toUInt8 ∨ b = 'E'.toUInt8) : GoesOn l b

/-- A literal ends in front of `rest`. -/
def Literal.Ends (l : Literal) (rest : Bytes) : Prop :=
  ∀ b, rest.head? = some b → ¬ l.GoesOn b

/-- The digits before the point as an integer. -/
def Literal.integer (l : Literal) : Int :=
  if l.negative then -(natural l.whole : Int) else natural l.whole

/-- Integers of 64 bits with sign. -/
def Fits (n : Int) : Prop :=
  -2 ^ 63 ≤ n ∧ n < 2 ^ 63

instance : DecidablePred Fits := fun n =>
  inferInstanceAs (Decidable (-2 ^ 63 ≤ n ∧ n < 2 ^ 63))

/-- The number of a literal: an integer if it looks like one and fits, else the nearest double. -/
inductive Denotes : Literal → Number → Prop where
  | int {l : Literal} (hf : l.fraction = none) (he : l.exponent = none) (h : Fits l.integer) :
      Denotes l (.int l.integer)
  | float {l : Literal} (h : l.fraction ≠ none ∨ l.exponent ≠ none ∨ ¬ Fits l.integer) :
      Denotes l (.float (.ofDecimal l.negative l.decimal))

/-! ## Strings -/

inductive HexDigit : Nat → UInt8 → Prop where
  | decimal {n : Nat} (h : n < 10) : HexDigit n (.ofNat ('0'.toNat + n))
  | lower {n : Nat} (h : n < 6) : HexDigit (10 + n) (.ofNat ('a'.toNat + n))
  | upper {n : Nat} (h : n < 6) : HexDigit (10 + n) (.ofNat ('A'.toNat + n))

/-- Four digits of base sixteen. -/
inductive HexUnit : Nat → Bytes → Prop where
  | mk {m n p q : Nat} {a b c d : UInt8} (ha : HexDigit m a) (hb : HexDigit n b)
      (hc : HexDigit p c) (hd : HexDigit q d) :
      HexUnit (((m * 16 + n) * 16 + p) * 16 + q) [a, b, c, d]

/-- The letters that stand for a character behind a backslash. -/
def shortEscapes : List (Char × Char) :=
  [('"', '"'), ('\\', '\\'), ('/', '/'), ('b', '\x08'), ('f', '\x0c'), ('n', '\n'), ('r', '\r'),
    ('t', '\t')]

/-- A backslash and a letter, in front of what belongs to them. -/
def escape (letter : Char) (s : Bytes) : Bytes :=
  '\\'.toUInt8 :: letter.toUInt8 :: s

/--
The spellings of one character inside quotes. As a character is no surrogate, a single numbered
escape cannot spell one, and a pair spells a character past U+FFFF.
-/
inductive Character : Char → Bytes → Prop where
  | plain {c : Char} (hlow : 0x20 ≤ c.toNat) (hquote : c ≠ '"') (hslash : c ≠ '\\') :
      Character c (Utf8.encodeChar c)
  | short {letter c : Char} (h : (letter, c) ∈ shortEscapes) : Character c (escape letter [])
  | unit {c : Char} {ds : Bytes} (h : HexUnit c.toNat ds) : Character c (escape 'u' ds)
  | pair {c : Char} {high low : Nat} {ds es : Bytes} (hds : HexUnit high ds)
      (hes : HexUnit low es) (hhigh : 0xD800 ≤ high ∧ high ≤ 0xDBFF)
      (hlow : 0xDC00 ≤ low ∧ low ≤ 0xDFFF)
      (hc : c.toNat = 0x10000 + (high - 0xD800) * 0x400 + (low - 0xDC00)) :
      Character c (escape 'u' ds ++ escape 'u' es)

inductive Characters : List Char → Bytes → Prop where
  | nil : Characters [] []
  | cons {c : Char} {cs : List Char} {s t : Bytes} (hc : Character c s) (hcs : Characters cs t) :
      Characters (c :: cs) (s ++ t)

/-- A string in quotes. -/
inductive StringText : String → Bytes → Prop where
  | mk {cs : List Char} {s : Bytes} (h : Characters cs s) :
      StringText (.ofList cs) ('"'.toUInt8 :: (s ++ ['"'.toUInt8]))

/-! ## Values -/

/-- The parts of a text that hold values. -/
inductive Phrase where
  | value (v : Value)
  /-- A value with blanks around it. -/
  | item (v : Value)
  | items (vs : List Value)
  | members (ms : List (String × Value))

/-- A key with blanks around it, and the colon. -/
inductive KeyText : String → Bytes → Prop where
  | mk {k : String} {w s w' : Bytes} (hw : Blank w) (hk : StringText k s) (hw' : Blank w') :
      KeyText k (w ++ (s ++ (w' ++ [':'.toUInt8])))

/-- The bytes that spell a part of a text; elements and members stand in their order. -/
inductive Spelled : Phrase → Bytes → Prop where
  | null : Spelled (.value .null) (Utf8.encode ['n', 'u', 'l', 'l'])
  | true : Spelled (.value (.bool true)) (Utf8.encode ['t', 'r', 'u', 'e'])
  | false : Spelled (.value (.bool false)) (Utf8.encode ['f', 'a', 'l', 's', 'e'])
  | number {l : Literal} {n : Number} {s : Bytes} (hs : Numeral l s) (hn : Denotes l n) :
      Spelled (.value (.number n)) s
  | string {k : String} {s : Bytes} (hs : StringText k s) : Spelled (.value (.string k)) s
  | emptyArray {w : Bytes} (hw : Blank w) :
      Spelled (.value (.array [])) ('['.toUInt8 :: (w ++ [']'.toUInt8]))
  | array {vs : List Value} {s : Bytes} (hs : Spelled (.items vs) s) :
      Spelled (.value (.array vs)) ('['.toUInt8 :: (s ++ [']'.toUInt8]))
  | emptyObject {w : Bytes} (hw : Blank w) :
      Spelled (.value (.object [] [])) ('\x7b'.toUInt8 :: (w ++ ['\x7d'.toUInt8]))
  | object {ms : List (String × Value)} {s : Bytes} (hs : Spelled (.members ms) s) :
      Spelled (.value (.object ms [])) ('\x7b'.toUInt8 :: (s ++ ['\x7d'.toUInt8]))
  | item {v : Value} {w s w' : Bytes} (hw : Blank w) (hs : Spelled (.value v) s)
      (hw' : Blank w') : Spelled (.item v) (w ++ (s ++ w'))
  | lastItem {v : Value} {s : Bytes} (hs : Spelled (.item v) s) : Spelled (.items [v]) s
  | moreItems {v : Value} {vs : List Value} {s t : Bytes} (hs : Spelled (.item v) s)
      (ht : Spelled (.items vs) t) : Spelled (.items (v :: vs)) (s ++ ','.toUInt8 :: t)
  | lastMember {k : String} {v : Value} {p s : Bytes} (hp : KeyText k p)
      (hs : Spelled (.item v) s) : Spelled (.members [(k, v)]) (p ++ s)
  | moreMembers {k : String} {v : Value} {ms : List (String × Value)} {p s t : Bytes}
      (hp : KeyText k p) (hs : Spelled (.item v) s) (ht : Spelled (.members ms) t) :
      Spelled (.members ((k, v) :: ms)) (p ++ (s ++ ','.toUInt8 :: t))

/-- A JSON text: one value with blanks around it. -/
def Spells (s : Bytes) (v : Value) : Prop :=
  Spelled (.item v) s

end Json

/-! ## Limits -/

namespace Value

mutual

/-- How many arrays and objects lie in each other. -/
def nesting : Value → Nat
  | array items => 1 + nestingAll items
  | object members _ => 1 + nestingMembers members
  | _ => 0

def nestingAll : List Value → Nat
  | [] => 0
  | v :: vs => max (nesting v) (nestingAll vs)

def nestingMembers : List (String × Value) → Nat
  | [] => 0
  | (_, v) :: ms => max (nesting v) (nestingMembers ms)

end

mutual

/-- No object of the tree has a key twice. -/
def KeysDistinct : Value → Prop
  | array items => AllKeysDistinct items
  | object members _ => (members.map Prod.fst).Nodup ∧ MembersKeysDistinct members
  | _ => True

def AllKeysDistinct : List Value → Prop
  | [] => True
  | v :: vs => KeysDistinct v ∧ AllKeysDistinct vs

def MembersKeysDistinct : List (String × Value) → Prop
  | [] => True
  | (_, v) :: ms => KeysDistinct v ∧ MembersKeysDistinct ms

end

end Value

end PackageAudit
