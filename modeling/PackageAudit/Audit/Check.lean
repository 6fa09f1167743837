import PackageAudit.Audit.Error
import PackageAudit.Baseline.Service
import PackageAudit.Manifest
import PackageAudit.Package.EntrySet
import PackageAudit.Package.Source

/-!
# Audit.Check — what checkers do

A checker looks at a package and reports what it finds. Its work is a tree of calls: each call
says what becomes of it next, for every answer that the call may get. What the calls do is left to
the audit, which keeps their results.

* `Check` — work with calls in it, and how work is put behind work;
* `Subject` — what checkers look at;
* `Checker` — a named checker with the rules it may report under.
-/

namespace PackageAudit

/-- Why a checker gives up. -/
inductive Stop where
  /-- It cannot be applied; all its rules fail with this message. -/
  | precondition (message : String)
  /-- It has no business with the audit any more. -/
  | contract (error : AuditError)
  deriving DecidableEq

namespace Stop

def message : Stop → String
  | precondition message => message
  | contract error => error.message

/-- A manifest that cannot be used. -/
def ofManifest (e : ManifestError) : Stop := .precondition e.message

/-- A file that cannot be used. -/
def ofPackage (e : PackageError) : Stop := .precondition e.message

end Stop

/-- Work of a checker: a value, the end of the work, or a call and what follows on its answer. -/
inductive Check (α : Type) where
  | done (value : α)
  | stop (cause : Stop)
  /-- Report a finding; the answer is the error if that breaks the rules of reporting. -/
  | report (check : CheckId) (message : String) (next : Option AuditError → Check α)
  /-- Leave out a rule; the answer is the error if that breaks the rules of reporting. -/
  | skip (check : CheckId) (reason : String) (next : Option AuditError → Check α)
  /-- Leave out all rules that have no finding and are not left out already. -/
  | skipAll (reason : String) (next : Unit → Check α)
  /-- Note a content that the checker relies on. -/
  | record (name : String) (content : Bytes) (next : Unit → Check α)

namespace Check

/-- Put work behind work. -/
def andThen {α β : Type} : Check α → (α → Check β) → Check β
  | done value, f => f value
  | stop cause, _ => .stop cause
  | report check message next, f => .report check message fun answer => (next answer).andThen f
  | skip check reason next, f => .skip check reason fun answer => (next answer).andThen f
  | skipAll reason next, f => .skipAll reason fun u => (next u).andThen f
  | record name content next, f => .record name content fun u => (next u).andThen f

instance : Monad Check where
  pure := done
  bind := andThen

/-- Go on unless a call broke the rules of reporting. -/
def unlessBreach : Option AuditError → Check Unit
  | none => done ()
  | some error => stop (.contract error)

/-- Report a finding. -/
def finding (check : CheckId) (message : String) : Check Unit :=
  report check message unlessBreach

/-- Leave out a rule. -/
def leaveOut (check : CheckId) (reason : String) : Check Unit :=
  skip check reason unlessBreach

/-- Leave out all rules that nothing is known about yet. -/
def leaveOutRest (reason : String) : Check Unit :=
  skipAll reason done

/-- Note a content that the checker relies on. -/
def relyOn (name : String) (content : Bytes) : Check Unit :=
  record name content done

/-- The value of a result, or the end of the work if there is none. -/
def orStop {ε α : Type} (cause : ε → Stop) : Except ε α → Check α
  | .ok a => done a
  | .error e => stop (cause e)

/-- A file's answer; a file that cannot be used ends the work. -/
def ofFile {α : Type} (x : Except PackageError α) : Check α :=
  orStop .ofPackage x

/-- A part of the manifest; a manifest that cannot be used ends the work. -/
def ofManifest {α : Type} (x : Except ManifestError α) : Check α :=
  orStop .ofManifest x

end Check

/-- What checkers look at. -/
structure Subject where
  source : Source
  baselines : Baselines
  manifest : Except ManifestError Manifest
  entries : EntrySet

namespace Subject

/-- The manifest of a package. -/
def manifestOf (source : Source) : Except ManifestError Manifest :=
  if source.contains Manifest.path then
    match source.read Manifest.path with
    | .ok content => Manifest.parse content
    | .error (.fileNotFound _) => .error .missing
    | .error e => .error (.unreadable e.message)
  else .error .missing

/-- The platform that a manifest goes by; an unusable manifest declares none. -/
def targetOf : Except ManifestError Manifest → Target
  | .ok manifest => manifest.target
  | .error _ => ⟨none⟩

/-- What there is to look at in a package. -/
def of (source : Source) (baselines : Baselines) : Subject :=
  let manifest := manifestOf source
  ⟨source, baselines, manifest, .ofFiles (targetOf manifest) source.files⟩

def target (s : Subject) : Target :=
  targetOf s.manifest

end Subject

/-- A checker: what it does first, with every file in each pass, and at the end. -/
structure Checker where
  name : String
  /-- The rules that it may report under. -/
  checks : List CheckId
  /-- What it keeps from one file to the next. -/
  State : Type
  /-- What it does before it sees files; without a state it sees none. -/
  build : Subject → Check (Option State)
  /-- How many times it goes through the files. -/
  passes : State → Nat
  visit : Subject → Entry → Nat → State → Check State
  finish : Subject → State → Check Unit

/-- A checker that does all of its work at once. -/
def Checker.single (name : String) (checks : List CheckId) (work : Subject → Check Unit) :
    Checker where
  name := name
  checks := checks
  State := Unit
  build s := do work s; pure none
  passes _ := 0
  visit _ _ _ := pure
  finish _ := pure

end PackageAudit
