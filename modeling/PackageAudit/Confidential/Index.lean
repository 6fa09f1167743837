import PackageAudit.Confidential.Rules
import PackageAudit.Digest.Endian

/-!
# Confidential.Index — the published index of content that must not be shipped

An index is a sequence of bytes: a mark and a count, the digests of the starts of the entries in
ascending order, the digests of their whole contents, their lengths, and rules as JSON.

* `Index.parse` — the index of a sequence of bytes, or why it is none;
* `Index.encode` — the bytes of entries and rules;
* `Index.candidates` — the entries with a given digest of their start.
-/

namespace PackageAudit

namespace Confidential

/-- Why bytes are no index. -/
inductive Fault where
  | truncated (length needed : Nat)
  | badMagic (found : UInt32)
  | unsorted (index : Nat)
  | invalidRules (reason : String)
  | invalidPattern (pattern reason : String)
  deriving DecidableEq

def Fault.message : Fault → String
  | truncated length needed => s!"baseline too short: {length} bytes, need at least {needed}"
  | badMagic found => "baseline magic mismatch: found 0x" ++ hexNumber 8 found.toNat
  | unsorted index => s!"baseline prefix hashes are not sorted at entry {index}"
  | invalidRules reason => s!"baseline trailer is invalid: {reason}"
  | invalidPattern pattern reason =>
    "baseline pattern " ++ Quoted.text pattern ++ " is invalid: " ++ reason

/-- A confidential content: digests of its start and its whole, and its length. -/
structure Secret where
  start : UInt64
  full : UInt64
  length : UInt32
  deriving DecidableEq

/-- An index of confidential content. -/
structure Index where
  secrets : List Secret
  pathPatterns : PathRules
  contentIgnore : PathRules
  contentRules : List ContentRule
  keywords : Option Pattern.Expr

namespace Index

/-- The number that an index starts with. -/
def magic : UInt32 := 0x31584943

def headerLength : Nat := 8

/-! ## Sections -/

/-- The first `count` groups of `width` bytes; those before are in `found`, backwards. -/
def groupsFrom (width : Nat) (found : List Bytes) : Nat → Bytes → List Bytes
  | 0, _ => found.reverse
  | count + 1, s => groupsFrom width (s.take width :: found) count (s.drop width)

/-- The first `count` groups of `width` bytes. -/
def groups (width count : Nat) (s : Bytes) : List Bytes :=
  groupsFrom width [] count s

/-- The entries of three sections of one length. -/
def secretsOf (starts fulls : List UInt64) (lengths : List UInt32) : List Secret :=
  (starts.zip (fulls.zip lengths)).map fun (start, full, length) => ⟨start, full, length⟩

/-- The position of the first number that is less than the one before it. -/
def descentFrom (position : Nat) (before : UInt64) : List UInt64 → Option Nat
  | [] => none
  | x :: rest => if x < before then some position else descentFrom (position + 1) x rest

def descent? : List UInt64 → Option Nat
  | [] => none
  | x :: rest => descentFrom 1 x rest

/-! ## Reading -/

/-- Read the patterns of rules: those of content rules first, one rule after the other. -/
def compile (secrets : List Secret) (rules : RuleText) : Except Fault Index := do
  let paths (texts : List String) :=
    (PathRules.ofTexts texts).mapError fun text => Fault.invalidPattern text "no path pattern"
  let contentRules ← rules.contentRules.mapM fun (texts, regex) => do
    let selected ← paths texts
    let regex ← (Pattern.Regex.ofText regex).mapError fun _ =>
      Fault.invalidPattern regex "no regular expression"
    pure (⟨selected, regex⟩ : ContentRule)
  let pathPatterns ← paths rules.pathPatterns
  let contentIgnore ← paths rules.contentIgnore
  pure ⟨secrets, pathPatterns, contentIgnore, contentRules, Keywords.expr? rules.keywords⟩

/-- The index of a sequence of bytes. -/
def parse (blob : Bytes) : Except Fault Index :=
  let length := blob.length
  if length < headerLength then .error (.truncated length headerLength)
  else if Endian.word32 (blob.take 4) ≠ magic then
    .error (.badMagic (Endian.word32 (blob.take 4)))
  else
    let count := Endian.number ((blob.drop 4).take 4)
    let needed := headerLength + 20 * count
    if length < needed then .error (.truncated length needed)
    else
      let body := blob.drop headerLength
      let starts := (groups 8 count body).map Endian.word64
      let fulls := (groups 8 count (body.drop (8 * count))).map Endian.word64
      let lengths := (groups 4 count (body.drop (16 * count))).map Endian.word32
      match descent? starts with
      | some index => .error (.unsorted index)
      | none =>
        match RuleText.ofText? (blob.drop needed) with
        | none => .error (.invalidRules "no rules")
        | some rules => compile (secretsOf starts fulls lengths) rules

/-! ## Writing -/

/-- The bytes of entries, in the order of their starts, and of the text of rules. -/
def encode (secrets : List Secret) (rules : Bytes) : Bytes :=
  let sorted := secrets.mergeSort fun a b => a.start ≤ b.start
  Endian.bytes 4 magic.toNat ++ Endian.bytes 4 (min secrets.length 0xFFFFFFFF) ++
    sorted.flatMap (fun s => Endian.bytes 8 s.start.toNat) ++
    sorted.flatMap (fun s => Endian.bytes 8 s.full.toNat) ++
    sorted.flatMap (fun s => Endian.bytes 4 s.length.toNat) ++ rules

/-! ## Searching -/

def size (i : Index) : Nat := i.secrets.length

/-- The entries whose start has the given digest, in the order of the index. -/
def candidates (i : Index) (start : UInt64) : List Secret :=
  (i.secrets.dropWhile (·.start < start)).takeWhile (·.start == start)

end Index

end Confidential

end PackageAudit
