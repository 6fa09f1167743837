import PackageAudit.Pattern.Search
import PackageAudit.Text.Utf8

/-!
# Pattern.Glob — file name patterns

`?` is one byte of a name, `*` any number of them, `[…]` one byte of a class, `{…}` one of several
alternatives. `**` between slashes, or at an end, spans directories. A backslash takes the next
character as it is.

* `Glob.Token` — the parts of a pattern;
* `Glob.parse` — the parts of a text;
* `Glob.accepts` — whether a path matches as a whole.

Paths are matched byte by byte.
-/

namespace PackageAudit

namespace Pattern

namespace Glob

/-- Why a text is no pattern. -/
inductive Fault where
  | unclosedClass
  | invalidRange (low high : Char)
  | unopenedAlternates
  | unclosedAlternates
  | danglingEscape
  deriving DecidableEq

inductive Token where
  | literal (c : Char)
  /-- One byte that is no slash. -/
  | any
  /-- Bytes that are no slash. -/
  | star
  /-- Directories at the start of the pattern, or none. -/
  | leading
  /-- Everything below a directory. -/
  | trailing
  /-- Directories between two names, or none. -/
  | between
  | anyOf (negated : Bool) (ranges : List (Char × Char))
  | alternates (branches : List (List Token))

/-! ## Classes -/

/-- The rest of a class and what follows it; `ranges` is what is read so far, backwards. -/
def readClass (first inRange : Bool) (ranges : List (Char × Char)) :
    List Char → Except Fault (List (Char × Char) × List Char)
  | [] => .error .unclosedClass
  | c :: rest =>
    if c = ']' ∧ ¬ first then
      .ok ((if inRange then ('-', '-') :: ranges else ranges).reverse, rest)
    else if c = '-' ∧ ¬ first ∧ ¬ inRange then readClass false true ranges rest
    else
      match inRange, ranges with
      | true, (low, _) :: before =>
        if c < low then .error (.invalidRange low c)
        else readClass false false ((low, c) :: before) rest
      | _, ranges => readClass false false ((c, c) :: ranges) rest

theorem length_of_readClass {first inRange : Bool} {ranges out : List (Char × Char)}
    {s r : List Char} (h : readClass first inRange ranges s = .ok (out, r)) :
    r.length < s.length := by
  induction s generalizing first inRange ranges with
  | nil => simp [readClass] at h
  | cons c rest ih =>
    unfold readClass at h
    simp only [List.length_cons]
    split at h
    · grind
    · split at h
      · have := ih h; omega
      · split at h
        · split at h
          · simp at h
          · have := ih h; omega
        · have := ih h; omega

/-! ## Patterns -/

/-- What is being read: the branches of an open group and the tokens of the one under way. -/
structure Open where
  /-- Complete branches, last first. -/
  branches : List (List Token)
  /-- Tokens of the branch under way, last first. -/
  tokens : List Token

namespace Open

def start : Open := ⟨[], []⟩

def push (o : Open) (t : Token) : Open :=
  { o with tokens := t :: o.tokens }

/-- Start another branch. -/
def branch (o : Open) : Open :=
  ⟨o.tokens.reverse :: o.branches, []⟩

/-- The group as one token. -/
def close (o : Open) : Token :=
  .alternates (o.branch.branches.reverse)

end Open

/--
Two stars behind the character `before` and in front of `rest`. They span directories only where a
slash or an end stands on each side; the slashes then belong to them.
-/
def readStars (inGroup : Bool) (before : Option Char) (tokens : List Token) (rest : List Char) :
    List Token × List Char :=
  let plain := (.star :: .star :: tokens, rest)
  let spanning (t : Token) (tokens : List Token) : List Token :=
    match tokens with
    | .leading :: more => .leading :: more
    | .trailing :: more => .trailing :: more
    | _ :: more => t :: more
    | [] => [t]
  match tokens with
  | [] =>
    match rest with
    | [] => ([.leading], [])
    | '/' :: more => ([.leading], more)
    | _ => plain
  | tokens =>
    if before = some '/' ∨ (inGroup ∧ (before = some ',' ∨ before = some '{')) then
      match rest with
      | [] => (spanning .trailing tokens, [])
      | '/' :: more => (spanning .between tokens, more)
      | c :: more =>
        if inGroup ∧ (c = ',' ∨ c = '}') then (spanning .trailing tokens, c :: more) else plain
    else plain

theorem length_readStars_le (inGroup : Bool) (before : Option Char) (tokens : List Token)
    (rest : List Char) : (readStars inGroup before tokens rest).2.length ≤ rest.length := by
  unfold readStars
  grind

/--
The tokens of the rest of a pattern. `groups` are the open groups, innermost first, and `top` is
what is being read in the innermost one, or outside of all.
-/
def readFrom (groups : List Open) (top : Open) (before : Option Char) (s : List Char) :
    Except Fault (List Token) :=
  match s with
  | [] => if groups.isEmpty then .ok top.tokens.reverse else .error .unclosedAlternates
  | '?' :: rest => readFrom groups (top.push .any) (some '?') rest
  | '*' :: '*' :: rest =>
    have := length_readStars_le (!groups.isEmpty) before top.tokens rest
    let stars := readStars (!groups.isEmpty) before top.tokens rest
    readFrom groups { top with tokens := stars.1 }
      (some (if stars.2.length < rest.length then '/' else '*')) stars.2
  | '*' :: rest => readFrom groups (top.push .star) (some '*') rest
  | '[' :: rest =>
    let negated := rest.head? == some '!' || rest.head? == some '^'
    match h : readClass true false [] (if negated then rest.drop 1 else rest) with
    | .error e => .error e
    | .ok (ranges, more) =>
      have : more.length < rest.length + 1 := by
        have := length_of_readClass h
        have : (rest.drop 1).length ≤ rest.length := by simp
        grind
      readFrom groups (top.push (.anyOf negated ranges)) (some ']') more
  | '{' :: rest => readFrom (top :: groups) .start (some '{') rest
  | '}' :: rest =>
    match groups with
    | [] => .error .unopenedAlternates
    | outer :: groups => readFrom groups (outer.push top.close) (some '}') rest
  | ',' :: rest =>
    readFrom groups (if groups.isEmpty then top.push (.literal ',') else top.branch) (some ',') rest
  | '\\' :: c :: rest => readFrom groups (top.push (.literal c)) (some c) rest
  | ['\\'] => .error .danglingEscape
  | c :: rest => readFrom groups (top.push (.literal c)) (some c) rest
  termination_by s.length

/-- The tokens of a pattern. -/
def parse (text : List Char) : Except Fault (List Token) :=
  readFrom [] .start none text

/-! ## Meaning -/

/-- The bytes but the slash. -/
def nameBytes : CodePoints := ⟨[(0, 0x2E), (0x30, 0xFF)]⟩

def byteSet (ranges : List (Nat × Nat)) : Expr := .set 0 (.ofRanges ranges)

def anyBytes : Expr := .star true (byteSet [(0, 0xFF)])

def slash : Expr := byteSet [(0x2F, 0x2F)]

/-- The bytes of a character, one after the other. -/
def charExpr (c : Char) : Expr :=
  .seqs ((Utf8.encodeChar c).map fun b => byteSet [(b.toNat, b.toNat)])

/--
The bytes that a range of a class stands for: the bytes of its ends, and those between the last byte
of the one and the first byte of the other.
-/
def rangeBytes (r : Char × Char) : List (Nat × Nat) :=
  let low := (Utf8.encodeChar r.1).map UInt8.toNat
  let high := (Utf8.encodeChar r.2).map UInt8.toNat
  let ends := (low ++ high).map fun b => (b, b)
  if r.1 = r.2 then ends
  else
    match low.getLast?, high.head? with
    | some a, some b => (a, b) :: ends
    | _, _ => ends

mutual

/-- The pattern of a token over bytes; a group that says nothing is left out. -/
def Token.exprs : Token → List Expr
  | literal c => [charExpr c]
  | any => [.set 0 nameBytes]
  | star => [.star true (.set 0 nameBytes)]
  | leading => [.either (.optional true slash) (.seq anyBytes slash)]
  | trailing => [slash, anyBytes]
  | between => [.either slash (.seqs [slash, anyBytes, slash])]
  | anyOf negated ranges =>
    let bytes := CodePoints.ofRanges (ranges.flatMap rangeBytes)
    [.set 0 (if negated then CodePoints.diff ⟨[(0, 0xFF)]⟩ bytes else bytes)]
  | alternates branches =>
    match Token.branchExprs branches with
    | [] => []
    | es => [.choice es]

/-- The patterns of tokens one after the other. -/
def Token.sequence : List Token → List Expr
  | [] => []
  | t :: ts => t.exprs ++ Token.sequence ts

/-- The patterns of the branches; a branch that says nothing is left out. -/
def Token.branchExprs : List (List Token) → List Expr
  | [] => []
  | b :: bs =>
    match Token.sequence b with
    | [] => Token.branchExprs bs
    | es => .seqs es :: Token.branchExprs bs

end

/-- The pattern of a whole; two stars alone match anything. -/
def toExpr (tokens : List Token) : Expr :=
  match tokens with
  | [.leading] => anyBytes.numbered
  | tokens => (Expr.seqs (Token.sequence tokens)).numbered

end Glob

/-- A file name pattern, ready to be matched. -/
structure Glob where
  expr : Expr

namespace Glob

/-- The pattern of a text. -/
def ofText (text : List Char) : Except Fault Glob :=
  (parse text).map fun tokens => ⟨toExpr tokens⟩

/-- Whether a path as a whole matches. -/
def accepts (g : Glob) (path : List Char) : Bool :=
  g.expr.accepts ((Utf8.encode path).map Char.ofUInt8)

end Glob

end Pattern

end PackageAudit
