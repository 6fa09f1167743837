import PackageAudit.Unicode.Property

/-!
# Pattern.Expr — patterns over characters, and how they can begin

* `Expr` — sets of characters, conditions on a place, and their combinations;
* `Look.holds` — a condition on the characters around a place;
* `Expr.heads` — the ways in which a match can begin at a place, best first.
-/

namespace PackageAudit

namespace Pattern

/-- A place between characters, by the characters on its two sides. -/
structure Place where
  before : Option Char
  after : Option Char

/-! ## Conditions -/

/-- Conditions on a place. -/
inductive Look where
  | textStart
  | textEnd
  | lineStart
  | lineEnd
  /-- The start of a line where a carriage return ends one, too. -/
  | returnLineStart
  /-- The end of a line where a carriage return ends one, too. -/
  | returnLineEnd
  | wordEdge (ascii : Bool)
  | noWordEdge (ascii : Bool)
  | wordStart (ascii : Bool)
  | wordEnd (ascii : Bool)
  /-- No word before. -/
  | wordStartHalf (ascii : Bool)
  /-- No word behind. -/
  | wordEndHalf (ascii : Bool)
  deriving DecidableEq

/-- Characters of words, of the ASCII ones only if asked for. -/
def isWordChar (ascii : Bool) (c : Char) : Bool :=
  if c.toNat < 0x80 then c.isAlphanum || c == '_' else !ascii && Property.word.has c

/-- Whether a condition holds at a place. -/
def Look.holds (l : Look) (p : Place) : Bool :=
  let word (ascii : Bool) (side : Option Char) := side.any (isWordChar ascii)
  match l with
  | textStart => p.before.isNone
  | textEnd => p.after.isNone
  | lineStart => p.before.all (· == '\n')
  | lineEnd => p.after.all (· == '\n')
  | returnLineStart =>
    p.before.all fun c => c == '\n' || (c == '\r' && p.after != some '\n')
  | returnLineEnd =>
    p.after.all fun c => c == '\r' || (c == '\n' && p.before != some '\r')
  | wordEdge ascii => word ascii p.before != word ascii p.after
  | noWordEdge ascii => word ascii p.before == word ascii p.after
  | wordStart ascii => !word ascii p.before && word ascii p.after
  | wordEnd ascii => word ascii p.before && !word ascii p.after
  | wordStartHalf ascii => !word ascii p.before
  | wordEndHalf ascii => !word ascii p.after

/-! ## Expressions -/

/-- A pattern. The sets in one pattern carry different numbers. -/
inductive Expr where
  /-- The empty text. -/
  | empty
  /-- One character of a set. -/
  | set (number : Nat) (chars : CodePoints)
  /-- The empty text where a condition holds. -/
  | look (condition : Look)
  | seq (first second : Expr)
  /-- Either of two, the first preferred. -/
  | either (first second : Expr)
  /-- Any number of matches that are not empty; greedy repetition prefers more of them. -/
  | star (greedy : Bool) (body : Expr)
  /-- A match, and then any number of matches that are not empty. -/
  | plus (greedy : Bool) (body : Expr)

namespace Expr

/-- A way in which a match begins: with nothing, or with a character of a numbered set. -/
inductive Head where
  | done
  | step (number : Nat) (chars : CodePoints) (rest : Expr)

def Head.isDone : Head → Bool
  | done => true
  | step _ _ _ => false

/-- One pattern and then another. -/
def followedBy : Expr → Expr → Expr
  | empty, f => f
  | e, f => seq e f

/-- All of `first`, and what `second` adds: nothing can be reached twice by the empty text. -/
def orElse (first second : List Head) : List Head :=
  first ++ if first.any Head.isDone then second.filter (!·.isDone) else second

/-- The ways in which a match can begin at a place, best first; the empty text at most once. -/
def heads (p : Place) : Expr → List Head
  | empty => [.done]
  | set number chars => [.step number chars empty]
  | look condition => if condition.holds p then [.done] else []
  | seq first second =>
    (heads p first).flatMap fun
      | .done => heads p second
      | .step number chars rest => [.step number chars (rest.followedBy second)]
  | either first second => orElse (heads p first) (heads p second)
  | star greedy body =>
    let steps := (heads p body).flatMap fun
      | .done => []
      | .step number chars rest => [.step number chars (rest.followedBy (star greedy body))]
    if greedy then steps ++ [.done] else .done :: steps
  | plus greedy body =>
    (heads p body).map fun
      | .done => .done
      | .step number chars rest => .step number chars (rest.followedBy (star greedy body))

/-! ## Building -/

/-- Patterns one after the other. -/
def seqs : List Expr → Expr
  | [] => empty
  | [e] => e
  | e :: rest => seq e (seqs rest)

/-- One of several patterns, earlier ones preferred. -/
def choice : List Expr → Expr
  | [] => empty
  | [e] => e
  | e :: rest => either e (choice rest)

/-- Nothing or a match, a match preferred if greedy. -/
def optional (greedy : Bool) (e : Expr) : Expr :=
  if greedy then either e empty else either empty e

/-- Whether every match takes a character. -/
def isProper : Expr → Bool
  | empty => false
  | set _ _ => true
  | look _ => false
  | seq e f => isProper e || isProper f
  | either e f => isProper e && isProper f
  | star _ _ => false
  | plus _ e => isProper e

/-- Any number of matches; a body that may match nothing gets its chance to do so first. -/
def many (greedy : Bool) (e : Expr) : Expr :=
  if e.isProper then star greedy e else optional greedy (plus greedy e)

/-- The same pattern `n` times over. -/
def times (n : Nat) (e : Expr) : Expr :=
  seqs (List.replicate n e)

/-- Up to `n` matches. -/
def upTo (greedy : Bool) (e : Expr) : Nat → Expr
  | 0 => empty
  | 1 => optional greedy e
  | n + 1 => optional greedy (seq e (upTo greedy e n))

/-- At least `least` matches, and at most `most` if there is a bound. -/
def repeated (greedy : Bool) (least : Nat) (most : Option Nat) (e : Expr) : Expr :=
  match least, most with
  | 0, none => many greedy e
  | n + 1, none => if n = 0 then plus greedy e else seq (times n e) (plus greedy e)
  | least, some most =>
    if most ≤ least then times least e
    else if least = 0 then upTo greedy e most
    else seq (times least e) (upTo greedy e (most - least))

/-- The same pattern with its sets numbered from `next` up, and the first number not used. -/
def numberFrom (next : Nat) : Expr → Expr × Nat
  | empty => (empty, next)
  | set _ chars => (set next chars, next + 1)
  | look condition => (look condition, next)
  | seq e f =>
    let (e, next) := numberFrom next e
    let (f, next) := numberFrom next f
    (seq e f, next)
  | either e f =>
    let (e, next) := numberFrom next e
    let (f, next) := numberFrom next f
    (either e f, next)
  | star greedy e =>
    let (e, next) := numberFrom next e
    (star greedy e, next)
  | plus greedy e =>
    let (e, next) := numberFrom next e
    (plus greedy e, next)

/-- The same pattern, each set with a number of its own. -/
def numbered (e : Expr) : Expr :=
  (numberFrom 0 e).1

end Expr

end Pattern

end PackageAudit
