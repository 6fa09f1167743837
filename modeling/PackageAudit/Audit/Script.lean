import PackageAudit.Audit.Batch

/-!
# Audit.Script — checkers that are written down as lists of actions

* `Action` — one thing that a checker does;
* `Script` — what a checker does first, with every file, and at the end;
* `Script.checker` — the checker that does so.

Texts of actions may refer to the file, the pass and the checker they are used for.
-/

namespace PackageAudit

/-- One thing that a checker does. -/
inductive Action where
  /-- Report a finding; if `lenient`, go on even where that breaks the rules of reporting. -/
  | finding (lenient : Bool) (check message : String)
  /-- Leave out a rule, likewise. -/
  | leaveOut (lenient : Bool) (check reason : String)
  | leaveOutRest (reason : String)
  | relyOn (name : String) (content : Bytes)
  | precondition (message : String)
  | contract (message : String)
  | needManifest
  | tellName (check : String)
  | tellTarget (check : String)
  | tellEntries (check : String)
  | tellSize (check path : String)
  | tellLength (check path : String)
  | tellStart (check path : String) (count : Nat)
  | relyOnIndex (name : String)
  | whenPath (path : String) (actions : List Action)
  | whenPass (pass : Nat) (actions : List Action)
  deriving Inhabited

namespace Action

/-- What texts of actions may refer to. -/
structure Scope where
  checker : String
  path : String
  pass : Nat

namespace Scope

/-- A text with what it refers to. -/
def fill (scope : Scope) (text : String) : String :=
  ((text.replace "\x7bpath\x7d" scope.path).replace "\x7bpass\x7d" (toString scope.pass)).replace
    "\x7bchecker\x7d" scope.checker

def rule (scope : Scope) (check : String) : CheckId := ⟨scope.fill check⟩

end Scope

mutual

/-- Do one thing. -/
def perform (s : Subject) (scope : Scope) : Action → Check Unit
  | finding lenient check message =>
    .report (scope.rule check) (scope.fill message) fun answer =>
      if lenient then pure () else .unlessBreach answer
  | leaveOut lenient check reason =>
    .skip (scope.rule check) (scope.fill reason) fun answer =>
      if lenient then pure () else .unlessBreach answer
  | leaveOutRest reason => .leaveOutRest (scope.fill reason)
  | relyOn name content => .relyOn (scope.fill name) content
  | precondition message => .stop (.precondition (scope.fill message))
  | contract message => .stop (.contract (.invalidRegistry (scope.fill message)))
  | needManifest => do
    let _ ← Check.ofManifest s.manifest
    pure ()
  | tellName check => do
    let manifest ← Check.ofManifest s.manifest
    let name ← Check.ofManifest manifest.name
    .finding (scope.rule check) name
  | tellTarget check =>
    .finding (scope.rule check) ((s.target.minimum.map Platform.text).getD "none")
  | tellEntries check =>
    .finding (scope.rule check) (",".intercalate (s.entries.entries.map (·.path)))
  | tellSize check path => do
    let path := scope.fill path
    let size ← Check.ofFile (s.source.size path)
    .finding (scope.rule check) s!"{path}={size}"
  | tellLength check path => do
    let path := scope.fill path
    let content ← Check.ofFile (s.source.read path)
    .finding (scope.rule check) s!"{path}:{content.length}"
  | tellStart check path count => do
    let start ← Check.ofFile (s.source.readStart (scope.fill path) count)
    .finding (scope.rule check) (Endian.hex start)
  | relyOnIndex name =>
    match s.baselines.index with
    | .ok content => .relyOn (scope.fill name) content
    | .error _ => .leaveOutRest "network unavailable"
  | whenPath path actions =>
    if scope.path = scope.fill path then performAll s scope actions else pure ()
  | whenPass pass actions => if scope.pass = pass then performAll s scope actions else pure ()

/-- Do one thing after the other. -/
def performAll (s : Subject) (scope : Scope) : List Action → Check Unit
  | [] => pure ()
  | action :: rest => do
    perform s scope action
    performAll s scope rest

end

end Action

/-- A checker as lists of actions; without actions for files and the end it does not see files. -/
structure Script where
  name : String
  checks : List String
  build : List Action
  file : Option (List Action)
  finish : Option (List Action)
  passes : Nat

/-- The checker that acts as a script says. -/
def Script.checker (t : Script) : Checker where
  name := t.name
  checks := t.checks.map CheckId.mk
  State := Unit
  build s := do
    Action.performAll s ⟨t.name, "", 0⟩ t.build
    pure (if t.file.isNone && t.finish.isNone then none else some ())
  passes _ := t.passes
  visit s e pass _ := Action.performAll s ⟨t.name, e.path, pass⟩ (t.file.getD [])
  finish s _ := Action.performAll s ⟨t.name, "", 0⟩ (t.finish.getD [])

end PackageAudit
