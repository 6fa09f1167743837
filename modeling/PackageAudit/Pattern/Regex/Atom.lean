import PackageAudit.Pattern.Regex.Syntax
import PackageAudit.Text.Digits
import PackageAudit.Text.Utf8
import PackageAudit.Unicode.Property

/-!
# Pattern.Regex.Atom — escapes and numbers of regular expressions

In verbose mode blanks and comments between the characters of an expression do not count; every
reader here takes a flag that says so.

* `Regex.skip` — blanks and comments that do not count;
* `Regex.readEscape` — what stands behind a backslash;
* `Regex.readNumber` — a number of a repetition.
-/

namespace PackageAudit

namespace Pattern

namespace Regex

/-! ## Blanks -/

/-- The rest behind blanks and comments; `comment` says that one is open. -/
def skipFrom (comment : Bool) : List Char → List Char
  | [] => []
  | c :: rest =>
    if comment then skipFrom (c != '\n') rest
    else if c = '#' then skipFrom true rest
    else if Property.whiteSpace.has c then skipFrom false rest
    else c :: rest

def skip (verbose : Bool) (s : List Char) : List Char :=
  if verbose then skipFrom false s else s

theorem length_skipFrom_le (comment : Bool) (s : List Char) :
    (skipFrom comment s).length ≤ s.length := by
  induction s generalizing comment with
  | nil => simp [skipFrom]
  | cons c rest ih =>
    have := ih (c != '\n')
    have := ih true
    have := ih false
    unfold skipFrom
    grind

theorem length_skip_le (verbose : Bool) (s : List Char) : (skip verbose s).length ≤ s.length := by
  unfold skip
  have := length_skipFrom_le false s
  grind

theorem length_of_skip {verbose : Bool} {s rest : List Char} {c : Char}
    (h : skip verbose s = c :: rest) : rest.length < s.length :=
  Nat.lt_of_lt_of_le (h ▸ Nat.lt_succ_self _) (length_skip_le verbose s)

/-! ## Numbers -/

/-- The value of a hexadecimal digit. -/
def hexValue? (c : Char) : Option Nat :=
  if c.isDigit then some (c.toNat - '0'.toNat)
  else if 'a' ≤ c ∧ c ≤ 'f' then some (c.toNat - 'a'.toNat + 10)
  else if 'A' ≤ c ∧ c ≤ 'F' then some (c.toNat - 'A'.toNat + 10)
  else none

/-- The character with a number, for an escape. -/
def numbered (n : Nat) : Except Fault Char :=
  match Utf8.scalar? n with
  | some c => .ok c
  | none => .error .hexadecimal

/-- A given count of hexadecimal digits, behind those that make up `n`. -/
def readHex (verbose : Bool) (count n : Nat) (s : List Char) :
    Except Fault (OptionalReading s Nat) :=
  match count, s with
  | 0, s => .ok ⟨n, s, Nat.le_refl _⟩
  | _ + 1, [] => .error .unexpectedEnd
  | count + 1, c :: rest =>
    match hexValue? c with
    | none => .error .hexadecimal
    | some d =>
      have := length_skip_le verbose rest
      (readHex verbose count (16 * n + d) (skip verbose rest)).map fun r =>
        ⟨r.value, r.rest, by have := r.notLonger; simp only [List.length_cons]; omega⟩

/-- Hexadecimal digits up to a closing brace, behind those that make up `n`, if there were any. -/
def readBracedHex (verbose : Bool) (n : Option Nat) (s : List Char) :
    Except Fault (OptionalReading s Nat) :=
  match s with
  | [] => .error .unexpectedEnd
  | c :: rest =>
    have := length_skip_le verbose rest
    if c = '}' then
      match n with
      | none => .error .hexadecimal
      | some n => .ok ⟨n, skip verbose rest, by simp only [List.length_cons]; omega⟩
    else
      match hexValue? c with
      | none => .error .hexadecimal
      | some d =>
        (readBracedHex verbose (some (16 * n.getD 0 + d)) (skip verbose rest)).map fun r =>
          ⟨r.value, r.rest, by have := r.notLonger; simp only [List.length_cons]; omega⟩
  termination_by s.length
  decreasing_by simp only [List.length_cons]; omega

/-- The digits of a number, those before being `digits` backwards, and the rest behind blanks. -/
def readDigits (verbose : Bool) (digits s : List Char) : OptionalReading s (List Char) :=
  match s with
  | [] => ⟨digits.reverse, [], Nat.le_refl _⟩
  | c :: rest =>
    if c.isDigit then
      have := length_skip_le verbose rest
      let r := readDigits verbose (c :: digits) (skip verbose rest)
      ⟨r.value, r.rest, by have := r.notLonger; simp only [List.length_cons]; omega⟩
    else ⟨digits.reverse, c :: rest, Nat.le_refl _⟩
  termination_by s.length
  decreasing_by simp only [List.length_cons]; omega

/-- What follows blanks. -/
def dropBlanks (s : List Char) : List Char :=
  s.dropWhile (Property.whiteSpace.has ·)

/-- A number of 32 bits with any blanks around it. -/
def readNumber (verbose : Bool) (s : List Char) : Except Fault (OptionalReading s Nat) :=
  have h₁ : (dropBlanks s).length ≤ s.length := (List.dropWhile_sublist _).length_le
  let digits := readDigits verbose [] (dropBlanks s)
  have h₂ := digits.notLonger
  have h₃ : (dropBlanks digits.rest).length ≤ digits.rest.length :=
    (List.dropWhile_sublist _).length_le
  have h₄ := length_skip_le verbose (dropBlanks digits.rest)
  let n := Digits.value digits.value
  if digits.value.isEmpty ∨ 0x100000000 ≤ n then .error .count
  else .ok ⟨n, skip verbose (dropBlanks digits.rest), by omega⟩

/-! ## Escapes -/

/-- A numbered character, `count` digits without braces, whose letter has been passed. -/
def readNumbered (verbose : Bool) (count : Nat) (s : List Char) :
    Except Fault (OptionalReading s Char) := do
  have := length_skip_le verbose s
  match h : skip verbose s with
  | [] => .error .unexpectedEnd
  | '{' :: rest =>
    have := length_skip_le verbose rest
    let r ← readBracedHex verbose none (skip verbose rest)
    have := r.notLonger
    let c ← numbered r.value
    pure ⟨c, r.rest, by grind⟩
  | c :: rest =>
    let r ← readHex verbose count 0 (c :: rest)
    have := r.notLonger
    let c ← numbered r.value
    pure ⟨c, r.rest, by grind⟩

/-- A property by its name, or with a value set apart by `!=`, `:` or `=`. -/
def query (negated : Bool) (name : List Char) : Bool × Query :=
  let rec splitNot (front : List Char) : List Char → Option (List Char × List Char)
    | '!' :: '=' :: rest => some (front.reverse, rest)
    | c :: rest => splitNot (c :: front) rest
    | [] => none
  let split (mark : Char) : Option (List Char × List Char) :=
    if name.contains mark then
      some (name.takeWhile (· != mark), (name.dropWhile (· != mark)).drop 1)
    else none
  match splitNot [] name, split ':', split '=' with
  | some (p, v), _, _ => (!negated, .value (.ofList p) (.ofList v))
  | none, some (p, v), _ => (negated, .value (.ofList p) (.ofList v))
  | none, none, some (p, v) => (negated, .value (.ofList p) (.ofList v))
  | none, none, none => (negated, .name (.ofList name))

/-- The characters up to a closing brace, those before being `name` backwards. -/
def readBraced (verbose : Bool) (name s : List Char) :
    Except Fault (OptionalReading s (List Char)) :=
  match s with
  | [] => .error .unexpectedEnd
  | c :: rest =>
    have := length_skip_le verbose rest
    if c = '}' then .ok (Reading.head name.reverse).toOptional
    else
      (readBraced verbose (c :: name) (skip verbose rest)).map fun r =>
        ⟨r.value, r.rest, by have := r.notLonger; simp only [List.length_cons]; omega⟩
  termination_by s.length
  decreasing_by simp only [List.length_cons]; omega

/-- A property of characters, whose letter has been passed. -/
def readProperty (verbose negated : Bool) (s : List Char) :
    Except Fault (OptionalReading s Atom) := do
  have := length_skip_le verbose s
  match h : skip verbose s with
  | [] => .error .unexpectedEnd
  | '{' :: rest =>
    have := length_skip_le verbose rest
    let r ← readBraced verbose [] (skip verbose rest)
    have := r.notLonger
    let (negated, q) := query negated r.value
    pure ⟨.property negated q, r.rest, by grind⟩
  | c :: rest =>
    if c = '\\' then .error .property
    else
      have := length_skip_le verbose rest
      pure ⟨.property negated (.name (String.singleton c)), skip verbose rest, by grind⟩

/-- Characters of the names of special word edges. -/
def isEdgeChar (c : Char) : Bool :=
  c.isAlpha || c == '-'

/-- The name of a special word edge, those characters before being `name` backwards. -/
def readEdgeName (verbose : Bool) (name s : List Char) : OptionalReading s (List Char) :=
  match s with
  | [] => ⟨name.reverse, [], Nat.le_refl _⟩
  | c :: rest =>
    if isEdgeChar c then
      have := length_skip_le verbose rest
      let r := readEdgeName verbose (c :: name) (skip verbose rest)
      ⟨r.value, r.rest, by have := r.notLonger; simp only [List.length_cons]; omega⟩
    else ⟨name.reverse, c :: rest, Nat.le_refl _⟩
  termination_by s.length
  decreasing_by simp only [List.length_cons]; omega

/-- Which word edge is meant: a name in braces may follow; braces around digits are a repetition. -/
def readWordEdge (verbose : Bool) (s : List Char) : Except Fault (OptionalReading s Anchor) :=
  match s with
  | '{' :: rest =>
    have := length_skip_le verbose rest
    let name := readEdgeName verbose [] (skip verbose rest)
    have := name.notLonger
    if (skip verbose rest).isEmpty then .error .wordEdge
    else if name.value.isEmpty then .ok ⟨.wordEdge, '{' :: rest, Nat.le_refl _⟩
    else
      match h : name.rest with
      | '}' :: rest' =>
        have h' : rest'.length ≤ ('{' :: rest).length := by
          rw [h] at this
          simp only [List.length_cons] at this ⊢
          omega
        match String.ofList name.value with
        | "start" => .ok ⟨.wordStart, rest', h'⟩
        | "end" => .ok ⟨.wordEnd, rest', h'⟩
        | "start-half" => .ok ⟨.wordStartHalf, rest', h'⟩
        | "end-half" => .ok ⟨.wordEndHalf, rest', h'⟩
        | _ => .error .wordEdge
      | _ => .error .wordEdge
  | s => .ok ⟨.wordEdge, s, Nat.le_refl _⟩

/-- Characters that stand for themselves behind a backslash. -/
def isEscapable (c : Char) : Bool :=
  c.toNat < 0x80 && !c.isAlphanum && c != '<' && c != '>'

/-- What a letter behind a backslash means, where nothing more belongs to it. -/
def letterAtom? : Char → Option Atom
  | 'd' => some (.perl false .digit)
  | 'D' => some (.perl true .digit)
  | 's' => some (.perl false .space)
  | 'S' => some (.perl true .space)
  | 'w' => some (.perl false .word)
  | 'W' => some (.perl true .word)
  | 'a' => some (.literal ⟨'\x07', false⟩)
  | 'f' => some (.literal ⟨'\x0c', false⟩)
  | 't' => some (.literal ⟨'\t', false⟩)
  | 'n' => some (.literal ⟨'\n', false⟩)
  | 'r' => some (.literal ⟨'\r', false⟩)
  | 'v' => some (.literal ⟨'\x0b', false⟩)
  | 'A' => some (.anchor .textStart)
  | 'z' => some (.anchor .textEnd)
  | 'B' => some (.anchor .noWordEdge)
  | '<' => some (.anchor .wordStart)
  | '>' => some (.anchor .wordEnd)
  | _ => none

/-- The meaning of the letter `c` behind a backslash, with what belongs to it. -/
def readEscaped (verbose : Bool) (c : Char) (rest : List Char) :
    Except Fault (OptionalReading rest Atom) :=
  let literal (byte : Bool) (r : OptionalReading rest Char) : OptionalReading rest Atom :=
    ⟨.literal ⟨r.value, byte⟩, r.rest, r.notLonger⟩
  match c with
  | 'x' => (readNumbered verbose 2 rest).map (literal ((skip verbose rest).head? != some '{'))
  | 'u' => (readNumbered verbose 4 rest).map (literal false)
  | 'U' => (readNumbered verbose 8 rest).map (literal false)
  | 'p' => readProperty verbose false rest
  | 'P' => readProperty verbose true rest
  | 'b' => (readWordEdge verbose rest).map fun r => ⟨.anchor r.value, r.rest, r.notLonger⟩
  | c =>
    match letterAtom? c with
    | some a => .ok ⟨a, rest, Nat.le_refl _⟩
    | none =>
      if c.isDigit then .error .backReference
      else if isEscapable c then .ok ⟨.literal ⟨c, false⟩, rest, Nat.le_refl _⟩
      else .error .escape

/-- What stands behind a backslash. -/
def readEscape (verbose : Bool) (s : List Char) : Except Fault (Reading s Atom) :=
  match s with
  | [] => .error .unexpectedEnd
  | c :: rest =>
    (readEscaped verbose c rest).map fun r => ⟨r.value, r.rest, Nat.lt_succ_of_le r.notLonger⟩

end Regex

end Pattern

end PackageAudit
