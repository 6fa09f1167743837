import PackageAudit.Text.Utf8

/-!
# Url.Punycode — names of any script in ASCII letters and digits

The characters beyond ASCII of a name are written behind those in it, in ascending order, each by
how far it is from the one before. The distances are numbers in base 36, whose digits have weights
that adapt to the distances so far.

* `Punycode.encode` — a name in ASCII;
* `Punycode.decode` — the name, if there is one.
-/

namespace PackageAudit

namespace Punycode

def base : Nat := 36

/-- The first character beyond ASCII. -/
def start : Nat := 128

/-- The bias of the first distance. -/
def firstBias : Nat := 72

/-- From which digit on the digit at a position ends a number. -/
def threshold (position bias : Nat) : Nat :=
  max 1 (min 26 (position - bias))

theorem threshold_pos (position bias : Nat) : 1 ≤ threshold position bias := by
  unfold threshold; omega

theorem threshold_le (position bias : Nat) : threshold position bias ≤ 26 := by
  unfold threshold; omega

/-- Bring a distance down to the size of one digit; the bias grows with each step. -/
def shrink (bias distance : Nat) : Nat :=
  if h : 455 < distance then shrink (bias + base) (distance / 35)
  else bias + base * distance / (distance + 38)
  termination_by distance

/-- The bias after a distance, with `count` characters written. -/
def adapt (distance count : Nat) (first : Bool) : Nat :=
  let half := if first then distance / 700 else distance / 2
  shrink 0 (half + half / count)

/-! ## Writing -/

def digit (n : Nat) : Char :=
  if n < 26 then Char.ofNat (97 + n) else Char.ofNat (22 + n)

/-- The digits of a distance, from a position on. -/
def digits (bias position distance : Nat) : List Char :=
  let t := threshold position bias
  if _h : distance < t then [digit distance]
  else
    have := threshold_pos position bias
    digit (t + (distance - t) % (base - t)) ::
      digits bias (position + base) ((distance - t) / (base - t))
  termination_by distance
  decreasing_by
    have := Nat.div_le_self (distance - threshold position bias) (base - threshold position bias)
    omega

/-- A name being written. -/
structure Draft where
  /-- What is written, backwards. -/
  out : List Char
  distance : Nat
  bias : Nat
  /-- The number of characters that are written. -/
  count : Nat

/-- Pass a character of the name, or write it if it is the one whose turn it is. -/
def pass (plain turn : Nat) (d : Draft) (c : Char) : Draft :=
  if c.toNat < turn then { d with distance := d.distance + 1 }
  else if c.toNat = turn then
    ⟨(digits d.bias base d.distance).reverse ++ d.out, 0,
      adapt d.distance (d.count + 1) (d.count == plain), d.count + 1⟩
  else d

/-- Write the characters whose turn it is, one after the other; `next` is the least one left. -/
def writeAll (name : List Char) (plain : Nat) : List Nat → Nat → Draft → Draft
  | [], _, d => d
  | turn :: rest, next, d =>
    let d := name.foldl (pass plain turn)
      { d with distance := d.distance + (turn - next) * (d.count + 1) }
    writeAll name plain rest (turn + 1) { d with distance := d.distance + 1 }

/-- The characters beyond ASCII, in ascending order, each once. -/
def turns (name : List Char) : List Nat :=
  ((name.map Char.toNat).filter (start ≤ ·)).eraseDups.mergeSort

/-- A name in ASCII. -/
def encode (name : List Char) : List Char :=
  let plain := name.filter (·.toNat < start)
  let front := if plain.isEmpty then [] else plain ++ ['-']
  let draft := ⟨[], 0, firstBias, plain.length⟩
  front ++ (writeAll name plain.length (turns name) start draft).out.reverse

/-! ## Reading -/

def digitValue? (c : Char) : Option Nat :=
  if c.isDigit then some (c.toNat - 22)
  else if c.isAlpha then some (c.toLower.toNat - 97)
  else none

/-- The distance at the head of `s`, and what follows it. -/
def readDistance (bias position weight distance : Nat) : List Char → Option (Nat × List Char)
  | [] => none
  | c :: rest => do
    let d ← digitValue? c
    let t := threshold position bias
    let distance := distance + d * weight
    if d < t then pure (distance, rest)
    else readDistance bias (position + base) (weight * (base - t)) distance rest

theorem length_of_readDistance {bias position weight distance n : Nat} {s r : List Char}
    (h : readDistance bias position weight distance s = some (n, r)) : r.length < s.length := by
  induction s generalizing position weight distance with
  | nil => simp [readDistance] at h
  | cons c rest ih =>
    simp only [readDistance, Option.bind_eq_bind, Option.bind_eq_some_iff] at h
    obtain ⟨d, _, h⟩ := h
    split at h
    · simp at h
      simp [h.2]
    · have := ih h
      simp
      omega

/-- Put the characters that the distances in `s` stand for into a name. -/
def readAll (name : List Char) (next place bias : Nat) (first : Bool) (s : List Char) :
    Option (List Char) :=
  if s.isEmpty then some name
  else
    match h : readDistance bias base 1 0 s with
    | none => none
    | some (distance, rest) =>
      have := length_of_readDistance h
      let count := name.length + 1
      let reached := place + distance
      let code := next + reached / count
      match Utf8.scalar? code with
      | none => none
      | some c =>
        let spot := reached % count
        let name := name.take spot ++ c :: name.drop spot
        readAll name code (spot + 1) (adapt distance count first) false rest
  termination_by s.length

/-- The name that an ASCII text stands for. -/
def decode (s : List Char) : Option (List Char) :=
  let behind := (s.reverse.takeWhile (· != '-')).reverse
  let plain := s.take (s.length - behind.length - 1)
  readAll plain start 0 firstBias true behind

end Punycode

end PackageAudit
