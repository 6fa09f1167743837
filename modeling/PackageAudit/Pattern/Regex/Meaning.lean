import PackageAudit.Pattern.Expr
import PackageAudit.Pattern.Regex.Reader
import PackageAudit.Unicode.Case
import PackageAudit.Unicode.Script

/-!
# Pattern.Regex.Meaning — regular expressions as patterns

* `Flags` — what is switched on where a part of an expression stands;
* `Class.chars` — the characters of a set;
* `Node.toExpr` — the pattern of an expression, with the flags that hold behind it;
* `Regex.compile` — the pattern of a text.
-/

namespace PackageAudit

namespace Pattern

namespace Regex

/-! ## Flags -/

/-- Flags as they stand at a part of an expression. -/
structure Flags where
  caseInsensitive : Bool
  multiLine : Bool
  dotAll : Bool
  swapGreed : Bool
  unicode : Bool
  crlf : Bool

namespace Flags

/-- The flags at the start: Unicode is on, all else off. -/
def initial : Flags := ⟨false, false, false, false, true, false⟩

def set (f : Flags) (flag : Flag) (on : Bool) : Flags :=
  match flag with
  | .caseInsensitive => { f with caseInsensitive := on }
  | .multiLine => { f with multiLine := on }
  | .dotAll => { f with dotAll := on }
  | .swapGreed => { f with swapGreed := on }
  | .unicode => { f with unicode := on }
  | .crlf => { f with crlf := on }
  | .verbose => f

def change (f : Flags) (c : FlagChange) : Flags :=
  c.foldl (fun f (flag, on) => f.set flag on) f

end Flags

/-! ## Sets -/

/-- A name of a property in lower case, without blanks, separators and a leading `is`. -/
def plainName (name : String) : String :=
  let cs := name.toList
  let isMarked := (cs.take 2).map Char.toLower == ['i', 's']
  let kept := (if isMarked then cs.drop 2 else cs).filter fun c =>
    c != ' ' && c != '_' && c != '-' && c.toNat < 0x80
  let plain := kept.map Char.toLower
  if isMarked && plain == ['c'] then "isc" else .ofList plain

/-- The members of a general category; the code points that are no characters make up none. -/
def categoryNamed? (name : String) : Option CodePoints :=
  match name with
  | "any" => some .all
  | "assigned" => some Category.unassigned.members.complement
  | "ascii" => some ⟨[(0, 0x7F)]⟩
  | "cs" | "surrogate" => none
  | name => (Category.named? name).map Category.membersOf

/-- The characters that a query asks for. -/
def Query.chars? : Query → Option CodePoints
  | .name text =>
    let plain := plainName text
    (Property.named? plain).orElse fun _ =>
      (categoryNamed? plain).orElse fun _ => Script.named? plain
  | .value key text =>
    let plain := plainName text
    match plainName key with
    | "gc" | "generalcategory" => categoryNamed? plain
    | "sc" | "script" => Script.named? plain
    | "scx" | "scriptextensions" => Script.usedWith? plain
    | _ => none

/-- Letters of ASCII with their partners. -/
def closeAscii (s : CodePoints) : CodePoints :=
  let shifted (low high : Nat) (shift : Nat → Nat) : List (Nat × Nat) :=
    (s.inter ⟨[(low, high)]⟩).ranges.map fun (a, b) => (shift a, shift b)
  .unions [s, .ofRanges (shifted 0x41 0x5A (· + 0x20)), .ofRanges (shifted 0x61 0x7A (· - 0x20))]

/-- A set as the flags want it: without regard to case, and negated. -/
def Flags.adjust (f : Flags) (negated : Bool) (s : CodePoints) : Except Fault CodePoints :=
  let closed :=
    if ¬ f.caseInsensitive then s else if f.unicode then Case.close s else closeAscii s
  if f.unicode then .ok (if negated then closed.complement else closed)
  else
    let bytes := if negated then CodePoints.diff ⟨[(0, 0xFF)]⟩ closed else closed
    if bytes.ranges.all fun r => r.2 < 0x80 then .ok bytes else .error .notText

/-- The code of a literal inside a set. -/
def Flags.code (f : Flags) (l : Literal) : Except Fault Nat :=
  if f.unicode ∨ l.char.toNat < 0x80 then .ok l.char.toNat
  else .error (if l.byte then .notText else .unicodeOnly)

/-- The characters of a class of digits, blanks or word characters. -/
def Flags.perl (f : Flags) (negated : Bool) (kind : Perl) : Except Fault CodePoints :=
  let base : CodePoints :=
    match kind, f.unicode with
    | .digit, true => Category.decimalNumber.members
    | .space, true => Property.whiteSpace
    | .word, true => Property.word
    | .digit, false => ⟨[(0x30, 0x39)]⟩
    | .space, false => ⟨[(0x09, 0x0D), (0x20, 0x20)]⟩
    | .word, false => ⟨[(0x30, 0x39), (0x41, 0x5A), (0x5F, 0x5F), (0x61, 0x7A)]⟩
  { f with caseInsensitive := false }.adjust negated base

/-- The characters with a property. -/
def Flags.property (f : Flags) (negated : Bool) (query : Query) : Except Fault CodePoints :=
  if ¬ f.unicode then .error .unicodeOnly
  else
    match query.chars? with
    | some s => f.adjust negated s
    | none => .error .property

mutual

/-- The characters of a set. -/
def Class.chars (f : Flags) : Class → Except Fault CodePoints
  | .literal l => do pure (.singleton (← f.code l))
  | .range low high => do pure ⟨[(← f.code low, ← f.code high)]⟩
  | .named negated ranges => f.adjust negated ⟨ranges⟩
  | .perl negated kind => f.perl negated kind
  | .property negated query => f.property negated query
  | .brackets negated inner => do f.adjust negated (← inner.chars f)
  | .union parts => Class.charsAll f parts
  | .binary op left right => do
    let l ← f.adjust false (← left.chars f)
    let r ← f.adjust false (← right.chars f)
    match op with
    | .intersection => pure (l.inter r)
    | .difference => pure (l.diff r)
    | .symmetricDifference => pure (l.symmDiff r)

def Class.charsAll (f : Flags) : List Class → Except Fault CodePoints
  | [] => .ok .empty
  | c :: cs => do pure ((← c.chars f).union (← Class.charsAll f cs))

end

/-! ## Parts without parts -/

/-- A set as a pattern; its number comes later. -/
def ofSet (s : CodePoints) : Expr := .set 0 s

def Flags.literal (f : Flags) (l : Literal) : Except Fault Expr :=
  if l.byte ∧ ¬ f.unicode ∧ 0x80 ≤ l.char.toNat then .error .notText
  else
    let s := CodePoints.singleton l.char.toNat
    .ok <| ofSet <|
      if ¬ f.caseInsensitive then s else if f.unicode then Case.close s else closeAscii s

def Flags.anchor (f : Flags) (a : Anchor) : Look :=
  let ascii := !f.unicode
  match a with
  | .lineStart =>
    if f.multiLine then (if f.crlf then .returnLineStart else .lineStart) else .textStart
  | .lineEnd => if f.multiLine then (if f.crlf then .returnLineEnd else .lineEnd) else .textEnd
  | .textStart => .textStart
  | .textEnd => .textEnd
  | .wordEdge => .wordEdge ascii
  | .noWordEdge => .noWordEdge ascii
  | .wordStart => .wordStart ascii
  | .wordEnd => .wordEnd ascii
  | .wordStartHalf => .wordStartHalf ascii
  | .wordEndHalf => .wordEndHalf ascii

def Flags.atom (f : Flags) : Atom → Except Fault Expr
  | .literal l => f.literal l
  | .anchor a => .ok (.look (f.anchor a))
  | .perl negated kind => (f.perl negated kind).map ofSet
  | .property negated query => (f.property negated query).map ofSet

def Flags.dot (f : Flags) : Except Fault Expr :=
  if ¬ f.unicode then .error .notText
  else if f.dotAll then .ok (ofSet .all)
  else if f.crlf then .ok (ofSet (CodePoints.complement ⟨[(0x0A, 0x0A), (0x0D, 0x0D)]⟩))
  else .ok (ofSet (CodePoints.complement ⟨[(0x0A, 0x0A)]⟩))

/-! ## Size -/

/-- How many bytes a pattern may take when it is laid out as a machine. -/
def sizeLimit : Nat := 10 * 0x100000

/-- Bytes of the states that read one character of a set, by experience. -/
def setSize (s : CodePoints) : Nat :=
  s.ranges.foldl (fun n r => n + if r.2 < 0x80 then 8 else 23) 32

/-- Bytes of the states of a pattern, by experience. -/
def size : Expr → Nat
  | .empty => 0
  | .set _ s => setSize s
  | .look _ => 32
  | .seq e f => size e + size f
  | .either e f => size e + size f + 48
  | .star _ e => size e + 48
  | .plus _ e => size e + 48

/-- Repeat a pattern, unless it becomes too large. -/
def repeated (greedy : Bool) (least : Nat) (most : Option Nat) (e : Expr) : Except Fault Expr :=
  if sizeLimit < (size e + 1) * max least (most.getD 0) then .error .tooLarge
  else .ok (e.repeated greedy least most)

/-! ## Expressions -/

mutual

/-- The pattern of a part under flags, and the flags that hold behind it in the same group. -/
def Node.toExpr (f : Flags) : Node → Except Fault (Expr × Flags)
  | .empty => .ok (.empty, f)
  | .flags change => .ok (.empty, f.change change)
  | .dot => do pure (← f.dot, f)
  | .atom a => do pure (← f.atom a, f)
  | .brackets negated inner => do pure (ofSet (← f.adjust negated (← inner.chars f)), f)
  | .repeated greedy least most body => do
    let (e, f') ← body.toExpr f
    pure (← Regex.repeated (greedy != f.swapGreed) least most e, f')
  | .group _ change body => do
    let (e, _) ← body.toExpr (f.change change)
    pure (e, f)
  | .concat parts => do
    let (es, f') ← Node.toExprs f parts
    pure (.seqs es, f')
  | .choice branches => do
    let (es, f') ← Node.toExprs f branches
    pure (.choice es, f')

/-- The patterns of parts that stand one behind the other. -/
def Node.toExprs (f : Flags) : List Node → Except Fault (List Expr × Flags)
  | [] => .ok ([], f)
  | n :: ns => do
    let (e, f') ← n.toExpr f
    let (es, f'') ← Node.toExprs f' ns
    pure (e :: es, f'')

end

/-- The pattern of a text. -/
def compile (text : String) : Except Fault Expr := do
  let node ← read text.toList
  let (e, _) ← node.toExpr .initial
  if sizeLimit < size e then throw .tooLarge
  pure e.numbered

end Regex

/-- A regular expression with its text. -/
structure Regex where
  text : String
  expr : Expr

/-- The regular expression of a text. -/
def Regex.ofText (text : String) : Except Regex.Fault Regex :=
  (Regex.compile text).map (⟨text, ·⟩)

end Pattern

end PackageAudit
