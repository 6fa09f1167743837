import PackageAudit.Document.Json.Options

/-!
# Document.Json.Text — strings of a JSON text

* `Json.readEscape` — an escape sequence, a pair of surrogates being one character;
* `Json.readText` — the characters up to the closing quote.
-/

namespace PackageAudit

namespace Json

/-! ## Escape sequences -/

/-- The value of a hexadecimal digit. -/
def hexValue? (b : UInt8) : Option Nat :=
  let c := Char.ofUInt8 b
  if c.isDigit then some (c.toNat - '0'.toNat)
  else if 'a' ≤ c ∧ c ≤ 'f' then some (c.toNat - 'a'.toNat + 10)
  else if 'A' ≤ c ∧ c ≤ 'F' then some (c.toNat - 'A'.toNat + 10)
  else none

/-- The value of four hexadecimal digits. -/
def hexUnit? (a b c d : UInt8) : Option Nat := do
  let a ← hexValue? a
  let b ← hexValue? b
  let c ← hexValue? c
  let d ← hexValue? d
  pure (((a * 16 + b) * 16 + c) * 16 + d)

/--
The four digits at `s`, which belong to the escape sequence at `escape`. A complaint about the
digits names the whole sequence.
-/
def readUnit (escape s : Bytes) : Leaf (Reading s Nat) :=
  match s with
  | a :: b :: c :: d :: rest =>
    match hexUnit? a b c d with
    | some n => .ok (Reading.head n).behind.behind.behind
    | none => .error (.invalidEscape (excerpt escape rest), escape)
  | s => .error (.unexpectedEnd, s)

def isHighSurrogate (n : Nat) : Bool := 0xD800 ≤ n && n ≤ 0xDBFF

def isLowSurrogate (n : Nat) : Bool := 0xDC00 ≤ n && n ≤ 0xDFFF

/-- The character of a pair of surrogates. -/
def pairValue (high low : Nat) : Nat :=
  0x10000 + (high - 0xD800) * 1024 + (low - 0xDC00)

/-- What follows the two characters that start a numbered escape. -/
def afterNumbered? (s : Bytes) : Option Bytes :=
  (after? '\\' s).bind (after? 'u')

theorem lt_of_afterNumbered? {s r : Bytes} (h : afterNumbered? s = some r) :
    r.length < s.length := by
  obtain ⟨t, ht, hr⟩ := Option.bind_eq_some_iff.1 h
  exact Nat.lt_trans (lt_of_after? hr) (lt_of_after? ht)

/-- A surrogate that stands alone. -/
def loneSurrogate (o : JsonOptions) (unit : Nat) (escape rest : Bytes)
    (h : rest.length < escape.length) : Leaf (Reading escape Char) :=
  if o.invalidUnicode then .ok ⟨'\uFFFD', rest, h⟩
  else
    .error (.invalidUnicode ("unpaired surrogate \\u" ++ (hexNumber 4 unit).toUpper), escape)

/-- The numbered escape at `escape`, whose digits are at `digits`. -/
def readNumbered (o : JsonOptions) (escape digits : Bytes) (h : digits.length < escape.length) :
    Leaf (Reading escape Char) := do
  let first ← readUnit escape digits
  have hfirst := Nat.lt_trans first.shorter h
  if isHighSurrogate first.value then
    match hnext : afterNumbered? first.rest with
    | some more =>
      let second ← readUnit first.rest more
      if isLowSurrogate second.value then
        match Utf8.scalar? (pairValue first.value second.value) with
        | some c =>
          have hmore := Nat.lt_trans (lt_of_afterNumbered? hnext) hfirst
          pure ⟨c, second.rest, Nat.lt_trans second.shorter hmore⟩
        | none => loneSurrogate o first.value escape first.rest hfirst
      else loneSurrogate o first.value escape first.rest hfirst
    | none => loneSurrogate o first.value escape first.rest hfirst
  else
    match Utf8.scalar? first.value with
    | some c => pure ⟨c, first.rest, hfirst⟩
    | none => loneSurrogate o first.value escape first.rest hfirst

/-- The characters with an escape of two characters. -/
def shortEscape? (b : UInt8) : Option Char :=
  match Char.ofUInt8 b with
  | '"' => some '"'
  | '\\' => some '\\'
  | '/' => some '/'
  | 'b' => some '\x08'
  | 'f' => some '\x0c'
  | 'n' => some '\n'
  | 'r' => some '\r'
  | 't' => some '\t'
  | _ => none

/-- The escape sequence whose backslash is the first byte of `s`. -/
def readEscape (o : JsonOptions) (s : Bytes) : Leaf (Reading s Char) :=
  match s with
  | _ :: b :: rest =>
    match shortEscape? b with
    | some c => .ok (Reading.head c).behind
    | none =>
      if Char.ofUInt8 b = 'u' then
        readNumbered o (_ :: b :: rest) rest (Nat.lt_succ_of_lt (Nat.lt_succ_self _))
      else .error (.invalidEscape (excerpt s rest), s)
  | [_] => .error (.unexpectedEnd, [])
  | [] => .error (.unexpectedEnd, [])

/-! ## Strings -/

/-- One character of a string that is neither its end nor an escape. -/
def readPlain (o : JsonOptions) (b : UInt8) (rest : Bytes) : Leaf (Reading (b :: rest) Char) :=
  if b < 0x20 then
    if o.controlCharacters then .ok (.head (Char.ofUInt8 b))
    else .error (.controlCharacter b.toNat, b :: rest)
  else
    match h : Utf8.decodeChar (b :: rest) with
    | some (c, rest) => .ok ⟨c, rest, Utf8.length_lt_of_decodeChar h⟩
    | none =>
      if o.invalidUnicode then .ok (.head '\uFFFD')
      else
        .error
          (.invalidUnicode ("invalid UTF-8 sequence starting with byte 0x" ++ hexNumber 2 b.toNat),
            b :: rest)

/--
The characters up to the closing quote; reading stands at `s`, with the characters since `start`
backwards in `front`.
-/
def readTextFrom (o : JsonOptions) (start : Bytes) (front : List Char) (s : Bytes)
    (h : s.length ≤ start.length) : Leaf (Reading start String) :=
  match s with
  | [] => .error (.unexpectedEnd, [])
  | b :: rest =>
    if Char.ofUInt8 b = '"' then .ok ⟨.ofList front.reverse, rest, h⟩
    else
      match if Char.ofUInt8 b = '\\' then readEscape o (b :: rest) else readPlain o b rest with
      | .error e => .error e
      | .ok r =>
        have hshort := r.shorter
        readTextFrom o start (r.value :: front) r.rest (Nat.le_trans (Nat.le_of_lt hshort) h)
  termination_by s.length
  decreasing_by exact hshort

/-- The string whose opening quote has just been passed. -/
def readText (o : JsonOptions) (s : Bytes) : Leaf (Reading s String) :=
  readTextFrom o s [] s (Nat.le_refl _)

end Json

end PackageAudit
