import PackageAudit.Unicode.Case
import PackageAudit.Unicode.Category
import PackageAudit.Url.Basic
import PackageAudit.Url.Percent
import PackageAudit.Url.Punycode

/-!
# Url.Host — hosts of addresses

* `Host.ipv4` — four numbers, written as one to four numbers of base eight, ten or sixteen;
* `Host.ipv6` — eight numbers of base sixteen, of which one run of zeros may be left out;
* `Host.domain` — a name in ASCII, for a name of any script;
* `Host.special`, `Host.opaqueText` — the host of an address, by the kind of its scheme.
-/

namespace PackageAudit

namespace Host

/-! ## Four numbers -/

/-- A number with the mark of its base; nothing behind the mark of base sixteen is zero. -/
def number? (s : List Char) : Option Nat :=
  match s with
  | [] => none
  | '0' :: 'x' :: ds | '0' :: 'X' :: ds => read 16 ds
  | '0' :: d :: ds => read 8 (d :: ds)
  | ds => read 10 ds
where
  read (base : Nat) (ds : List Char) : Option Nat :=
    ds.foldlM (fun n c => do
      let d ← Percent.digitValue? c
      if d < base then some (base * n + d) else none) 0

/-- The parts of a name, without an empty last one. -/
def parts (name : List Char) : List (List Char) :=
  let parts := name.splitOn '.'
  if 1 < parts.length ∧ parts.getLast? = some [] then parts.dropLast else parts

/-- Whether the last part of a name is a number, so that the name must be an address. -/
def endsInNumber (name : List Char) : Bool :=
  match (parts name).getLast? with
  | some last => !last.isEmpty && (last.all Char.isDigit || (number? last).isSome)
  | none => false

/-- The address that one to four numbers stand for; the last one fills what is left of it. -/
def ipv4Value? (numbers : List Nat) : Option Nat :=
  match numbers.reverse with
  | [] => none
  | last :: before =>
    if before.length < 4 ∧ before.all (· < 256) ∧ last < Nat.pow 256 (4 - before.length) then
      let front := before.reverse.foldl (fun n part => 256 * n + part) 0
      some (front * Nat.pow 256 (4 - before.length) + last)
    else none

/-- An address as four numbers. -/
def ipv4Text (n : Nat) : List Char :=
  let parts := [n / 0x1000000, n / 0x10000 % 256, n / 0x100 % 256, n % 256]
  (".".intercalate (parts.map toString)).toList

/-- The written form of an address of four numbers. -/
def ipv4 (name : List Char) : Except UrlFault (List Char) :=
  match ((parts name).mapM number?).bind ipv4Value? with
  | some n => .ok (ipv4Text n)
  | none => .error .ipv4

/-! ## Eight numbers -/

/-- One to four digits of base sixteen. -/
def piece? (s : List Char) : Option Nat :=
  if s.isEmpty ∨ 4 < s.length then none
  else s.foldlM (fun n c => (Percent.digitValue? c).map (16 * n + ·)) 0

/-- A number below 256 without zeros in front. -/
def octet? (s : List Char) : Option Nat :=
  if s.isEmpty ∨ 3 < s.length ∨ ¬ s.all Char.isDigit ∨ (1 < s.length ∧ s.head? = some '0') then none
  else
    let n := s.foldl (fun n c => 10 * n + (c.toNat - 48)) 0
    if n < 256 then some n else none

/-- Four numbers that stand for the last two of eight. -/
def embedded? (s : List Char) : Option (List Nat) := do
  match ← (s.splitOn '.').mapM octet? with
  | [a, b, c, d] => pure [256 * a + b, 256 * c + d]
  | _ => none

/-- The numbers of a part of an address; the last ones may be written as four numbers. -/
def pieces? (last : Bool) (s : List Char) : Option (List Nat) :=
  if s.isEmpty then some []
  else
    let groups := s.splitOn ':'
    match groups.getLast? with
    | some group =>
      if last ∧ group.contains '.' then do
        pure ((← groups.dropLast.mapM piece?) ++ (← embedded? group))
      else groups.mapM piece?
    | none => none

/-- The parts in front of the first two colons in a row, and behind. -/
def splitGap (front : List Char) : List Char → Option (List Char × List Char)
  | ':' :: ':' :: rest => some (front.reverse, rest)
  | c :: rest => splitGap (c :: front) rest
  | [] => none

/-- The eight numbers of an address. -/
def ipv6Value? (s : List Char) : Option (List Nat) :=
  match splitGap [] s with
  | none => (pieces? true s).filter (·.length == 8)
  | some (front, back) => do
    let front ← pieces? false front
    let back ← pieces? true back
    let count := front.length + back.length
    if count < 8 then pure (front ++ List.replicate (8 - count) 0 ++ back) else none

/-- The number of zeros at the head of a list. -/
def zeros (ns : List Nat) : Nat :=
  (ns.takeWhile (· == 0)).length

/-- The longest run of zeros, as its place and its length; the first one of several. -/
def longestGap (ns : List Nat) : Nat × Nat :=
  (List.range ns.length).foldl
    (fun best place =>
      let run := zeros (ns.drop place)
      if best.2 < run then (place, run) else best)
    (0, 0)

def hexText (n : Nat) : String :=
  .ofList (Nat.toDigits 16 n)

/-- An address of eight numbers, the longest run of at least two zeros left out. -/
def ipv6Text (ns : List Nat) : List Char :=
  let groups (ns : List Nat) := ":".intercalate (ns.map hexText)
  let (place, run) := longestGap ns
  (if run < 2 then groups ns
    else groups (ns.take place) ++ "::" ++ groups (ns.drop (place + run))).toList

/-- An address of eight numbers between brackets. -/
def ipv6 (s : List Char) : Except UrlFault (List Char) :=
  match s with
  | '[' :: rest =>
    if rest.getLast? = some ']' then
      match ipv6Value? rest.dropLast with
      | some ns => .ok ('[' :: (ipv6Text ns ++ [']']))
      | none => .error .ipv6
    else .error .ipv6
  | _ => .error .ipv6

/-! ## Names -/

/-- ASCII characters that no name may have. -/
def isForbidden (c : Char) : Bool :=
  c.toNat ≤ 0x20 || c.toNat == 0x7F ||
    ['#', '/', ':', '<', '>', '?', '@', '[', '\\', ']', '^', '|', '%'].contains c

/-- Characters that names are written without. -/
def isIgnored (c : Char) : Bool :=
  [0xAD, 0x34F, 0x200B, 0x2060, 0x2064, 0xFEFF].contains c.toNat ||
    (0x180B ≤ c.toNat && c.toNat ≤ 0x180D) || (0xFE00 ≤ c.toNat && c.toNat ≤ 0xFE0F)

/-- Characters that cannot stand in names. -/
def unusable : CodePoints :=
  Category.membersOf [.control, .surrogate, .privateUse, .unassigned, .lineSeparator,
    .paragraphSeparator, .spaceSeparator, .format]

/-- A character as names have it: in lower case, of usual width. -/
def mapped (c : Char) : Char :=
  if 0xFF01 ≤ c.toNat ∧ c.toNat ≤ 0xFF5E then (Char.ofNat (c.toNat - 0xFEE0)).toLower
  else if c = '\u3002' ∨ c = '\uFF0E' ∨ c = '\uFF61' then '.'
  else if c.toNat < 0x80 then c.toLower
  else Case.mapChar Case.lowerRuns c

/-- Whether a character beyond ASCII can stand in a name. -/
def isUsable (c : Char) : Bool :=
  c != '\uFFFD' && (c == '\u200C' || c == '\u200D' || !unusable.has c)

def isMark (c : Char) : Bool :=
  (Category.membersOf [.nonspacingMark, .spacingMark, .enclosingMark]).has c

/-- Whether a text beyond ASCII can be a part of a name. -/
def isLabel (label : List Char) : Bool :=
  label.all (fun c => c.toNat < 0x80 || isUsable c) && !label.head?.any isMark

/-- A part of a name in ASCII. -/
def label (s : List Char) : Except UrlFault (List Char) :=
  if s.all (·.toNat < 0x80) then
    if ['x', 'n', '-', '-'].isPrefixOf s then
      match Punycode.decode (s.drop 4) with
      | some name =>
        if isLabel name && name.any (0x80 ≤ ·.toNat) && name.all (fun c => mapped c == c) then .ok s
        else .error .domain
      | none => .error .domain
    else .ok s
  else if isLabel s then .ok (['x', 'n', '-', '-'] ++ Punycode.encode s)
  else .error .domain

/-- A name in ASCII, for a name of any script. -/
def domain (name : List Char) : Except UrlFault (List Char) := do
  let name := (name.filter (!isIgnored ·)).map mapped
  if name.any isForbidden then .error .domain
  else
    let labels ← (name.splitOn '.').mapM label
    pure (['.'].intercalate labels)

/-! ## Hosts -/

/-- The host of an address whose scheme is one of services. -/
def special (s : List Char) : Except UrlFault (List Char) := do
  if s.head? = some '[' then ipv6 s
  else
    match Utf8.decode (Percent.decode s) with
    | none => .error .domain
    | some name =>
      let name ← domain name
      if name.isEmpty then .error .emptyHost
      else if endsInNumber name then ipv4 name
      else pure name

/-- ASCII characters that no host may have. -/
def isBarred (c : Char) : Bool :=
  ['\x00', '\t', '\n', '\r', ' ', '#', '/', ':', '<', '>', '?', '@', '[', '\\', ']', '^',
    '|'].contains c

/-- The host of an address with any other scheme. -/
def opaqueText (s : List Char) : Except UrlFault (List Char) :=
  if s.head? = some '[' then ipv6 s
  else if s.any isBarred then .error .hostCharacter
  else .ok (Percent.encode .controls s)

end Host

end PackageAudit
