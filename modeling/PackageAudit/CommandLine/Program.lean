import PackageAudit.Baseline.Registry
import PackageAudit.CommandLine.Arguments
import PackageAudit.CommandLine.Display
import PackageAudit.Config.Location
import PackageAudit.Problem

/-!
# CommandLine.Program — a run of the program

* `Surroundings` — all that a run can see of the world;
* `Program.variableNames`, `Program.paths` — the parts of the world that a run looks at;
* `Program.run` — what the program writes for a command line, and how it ends.

Settings come from a file, then from variables, then from the command line; the later ones win.
-/

namespace PackageAudit

/-- All that a run can see of the world. -/
structure Surroundings where
  disk : Disk
  environment : Environment
  transport : Transport
  /-- Whether the result goes to a terminal. -/
  terminal : Bool

/-- How a run ends. -/
inductive ExitStatus where
  /-- No rule is broken. -/
  | passed
  /-- A rule is broken. -/
  | failed
  /-- The run could not be completed. -/
  | broken
  deriving DecidableEq

def ExitStatus.code : ExitStatus → Nat
  | passed => 0
  | failed => 1
  | broken => 2

/-- What a run leaves behind. -/
structure Output where
  status : ExitStatus
  /-- What it writes as its result. -/
  result : String
  /-- What it tells the user aside from that. -/
  remarks : String
  deriving DecidableEq

namespace Program

/-- The variables that a run looks at. -/
def variableNames : List String :=
  Environment.variableNames ++ Config.variableTable.map Prod.fst ++ Display.variableNames

/-- The paths that a run looks at: those of its settings and of its package. -/
def paths (e : Environment) (i : Invocation) : List Bytes :=
  let package := match i.command with
    | .check directory _ _ => [textBytes directory]
    | .listChecks => []
  ((i.config.map textBytes).or (Config.location? e)).toList ++ package

/-! ## Texts -/

def versionText : String :=
  programName ++ " " ++ programVersion ++ "\n"

def usageText : String :=
  String.join
    ["Validate a package directory before publishing\n\n",
      "Usage: pkgcheck [OPTIONS] <COMMAND>\n\n",
      "Commands:\n",
      "  check <DIR>      Run every check over a package directory\n",
      "    --offline        Skip checks that need a service\n",
      "    --exclude <ID>   Report a check as skipped (repeatable)\n",
      "  list-checks, ls  List every check and the checker that owns it\n",
      "  help             Show this text\n\n",
      "Options:\n",
      "  --json           Write JSON\n",
      "  --debug          Tell what is being done\n",
      "  --color <WHEN>   Colours: always, auto, never\n",
      "  --config <PATH>  Use another settings file\n",
      "  -h, --help       Show this text\n",
      "  -V, --version    Show the version\n"]

/-- A problem as it is told at the end of a run. -/
def problemText : Problem → String
  | .config e => s!"Configuration error: {e.message}\n  Hint: {e.hint}"
  | p =>
    let hint := match p.hint? with
      | some hint => "\n  Hint: " ++ hint
      | none => ""
    let retry := if p.isRetryable then "\n  Retry: safe to retry this operation." else ""
    p.message ++ "\n  Code: " ++ p.code ++ hint ++ retry

/-! ## Commands -/

/-- The settings of a run. -/
def settings (s : Surroundings) (i : Invocation) : Except Problem Config := do
  let file ← (Config.load s.disk s.environment i.config).mapError .config
  let (merged, fault) := file.merge s.environment.lookup
  fault.mapError .config
  pure (i.adjust merged)

/-- The audit of all rules but those that settings leave out. -/
def auditOf (c : Config) : Except Problem Audit :=
  match Audit.ofCheckers Rules.checkers with
  | .error e => .error (.audit e)
  | .ok all =>
    match all.exclude c.exclude with
    | .ok audit => .ok audit
    | .error (.invalidCheckId name) => .error (.config (.invalidValue "checks.exclude" name))
    | .error e => .error (.audit e)

/-- The report on the package in a directory. -/
def check (s : Surroundings) (c : Config) (directory : String) : Except Problem Report :=
  match auditOf c with
  | .error p => .error p
  | .ok audit => do
    let package ← (DirectoryPackage.ofDisk s.disk (textBytes directory)).mapError .package
    let baselines ← (Baselines.ofConfig c s.transport).mapError .network
    (audit.run (package.source s.disk) baselines).mapError .audit

/-- What a command writes, and how it ends. -/
def perform (s : Surroundings) (i : Invocation) : Except Problem (ExitStatus × String) := do
  let c ← settings s i
  let display := Display.ofConfig c s.environment s.terminal
  match i.command with
  | .listChecks => pure (.passed, Rules.display display)
  | .check directory _ _ => do
    let report ← check s c directory
    pure (if report.passed then .passed else .failed, report.display display)

/-- What the program says of itself if it is asked to tell what it does. -/
def opening (i : Invocation) : String :=
  if i.debug then "starting " ++ versionText else ""

/-- What the program writes for the words of a command line, and how it ends. -/
def run (s : Surroundings) (words : List String) : Output :=
  match Invocation.parse words with
  | .error .help => ⟨.passed, usageText, ""⟩
  | .error .version => ⟨.passed, versionText, ""⟩
  | .error (.fault fault) => ⟨.broken, "", "error: " ++ fault.message ++ "\n\n" ++ usageText⟩
  | .ok i =>
    match perform s i with
    | .ok (status, result) => ⟨status, result, opening i⟩
    | .error p => ⟨.broken, "", opening i ++ "Error: " ++ problemText p ++ "\n"⟩

end Program

end PackageAudit
