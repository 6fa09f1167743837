import PackageAudit.Audit.Error
import PackageAudit.Confidential.Index
import PackageAudit.Config.Error
import PackageAudit.Manifest
import PackageAudit.Network.Error
import PackageAudit.Package.Path

/-!
# Problem — anything that can go wrong, as users see it

* `Problem` — an error of any part of the program;
* `Problem.message`, `Problem.hint?`, `Problem.code`, `Problem.isRetryable` — what users are told.

Errors of the network and of settings speak for themselves; all others say which part they are from.
-/

namespace PackageAudit

/-- An error of any part of the program. -/
inductive Problem where
  | document (error : DocumentError)
  | package (error : PackageError)
  | manifest (error : ManifestError)
  | network (error : NetworkError)
  | baseline (fault : Confidential.Fault)
  | config (error : ConfigError)
  | audit (error : AuditError)
  deriving DecidableEq

namespace Problem

/-- The error with the part that it is from. -/
def text : Problem → String
  | document e => "document error: " ++ e.message
  | package e => "package error: " ++ e.message
  | manifest e => "manifest error: " ++ e.message
  | network e => "network error: " ++ e.message
  | baseline e => "baseline error: " ++ e.message
  | config e => "config error: " ++ e.message
  | audit e => "engine error: " ++ e.message

/-- The error as users are told of it. -/
def message : Problem → String
  | network e => e.message
  | config e => e.message
  | p => p.text

/-- What the user can do about it. -/
def hint? : Problem → Option String
  | network e => e.hint?
  | config e => some e.hint
  | manifest e => e.hint?
  | audit _ => some "This is a defect in a checker module; please report it."
  | _ => none

/-- A name for the cause that does not change. -/
def code : Problem → String
  | document _ => "error.document"
  | package _ => "error.package"
  | manifest _ => "error.manifest"
  | network e => e.code
  | baseline _ => "error.baseline"
  | config e => e.code
  | audit _ => "error.engine"

/-- Whether trying again may help. -/
def isRetryable : Problem → Bool
  | network e => e.isRetryable
  | _ => false

end Problem

end PackageAudit
