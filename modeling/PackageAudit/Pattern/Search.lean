import PackageAudit.Pattern.Expr

/-!
# Pattern.Search — matches of a pattern in a text

All alternatives advance together, one character at a time, in the order in which they are
preferred. Two that wait for the same set of the pattern go on in the same way, so only the better
one is kept.

* `Expr.find` — the match that starts first, and of those the preferred one;
* `Expr.accepts` — whether a text as a whole is a match.
-/

namespace PackageAudit

namespace Pattern

/-- An alternative under way: where it started, the set it passed last, what it still needs. -/
structure Thread where
  start : Nat
  passed : Nat
  rest : Expr

namespace Expr

/-- The first threads of their sets, in order; those of the numbers in `seen` are left out. -/
def distinctThreads (seen : List Nat) : List Thread → List Thread
  | [] => []
  | t :: rest =>
    if seen.contains t.passed then distinctThreads seen rest
    else t :: distinctThreads (t.passed :: seen) rest

/-- Alternatives under way, best first, and the best match so far as start and end. -/
structure State where
  threads : List Thread
  found : Option (Nat × Nat)

/-- A thread and the ways in which it can go on at a place. -/
def Thread.heads (p : Place) (t : Thread) : List (Nat × Head) :=
  (t.rest.heads p).map (t.start, ·)

/-- The threads that one more character leaves of the given heads. -/
def step (c : Char) (heads : List (Nat × Head)) : List Thread :=
  distinctThreads [] <| heads.filterMap fun
    | (_, .done) => none
    | (start, .step number chars rest) => if chars.has c then some ⟨start, number, rest⟩ else none

/--
What the alternatives wait for at position `i`, down to the first complete one, and the match found
so far. A new match starts only where none was found yet.
-/
def survey (e : Expr) (state : State) (i : Nat) (place : Place) :
    List (Nat × Head) × Option (Nat × Nat) :=
  let fresh := if state.found.isNone then (e.heads place).map (i, ·) else []
  let heads := state.threads.flatMap (Thread.heads place) ++ fresh
  let waiting := heads.takeWhile (!·.2.isDone)
  match heads.drop waiting.length with
  | (start, _) :: _ => (waiting, some (start, i))
  | [] => (waiting, state.found)

/-- Search on from position `i`, behind the character `before`. -/
def searchFrom (e : Expr) (state : State) (i : Nat) (before : Option Char) :
    List Char → Option (Nat × Nat)
  | [] => (survey e state i ⟨before, none⟩).2
  | c :: rest =>
    let (waiting, found) := survey e state i ⟨before, some c⟩
    let threads := step c waiting
    if found.isSome && threads.isEmpty then found
    else searchFrom e ⟨threads, found⟩ (i + 1) (some c) rest

/-- Where the first match starts and ends. -/
def span? (e : Expr) (text : List Char) : Option (Nat × Nat) :=
  searchFrom e ⟨[], none⟩ 0 none text

/-- The first match. -/
def find? (e : Expr) (text : List Char) : Option (List Char) :=
  (e.span? text).map fun (start, stop) => (text.drop start).take (stop - start)

/-- Whether the text has a match. -/
def isMatch (e : Expr) (text : List Char) : Bool :=
  (e.span? text).isSome

/-- Whether the rest of a text is a match for one of several alternatives. -/
def acceptsFrom (before : Option Char) (threads : List Thread) : List Char → Bool
  | [] => (threads.flatMap (Thread.heads ⟨before, none⟩)).any (·.2.isDone)
  | c :: rest =>
    let threads := step c (threads.flatMap (Thread.heads ⟨before, some c⟩))
    !threads.isEmpty && acceptsFrom (some c) threads rest

/-- Whether a text as a whole is a match. -/
def accepts (e : Expr) (text : List Char) : Bool :=
  acceptsFrom none [⟨0, 0, e⟩] text

end Expr

end Pattern

end PackageAudit
