import PackageAudit.Text.Quoted

/-!
# Package.Path — paths that can name a file of a package

* `PathText.fault?` — why a path names no file of any package;
* `PackageError` — why a package, or a file of it, cannot be used.
-/

namespace PackageAudit

/-- Why a package, or a file of it, cannot be used. -/
inductive PackageError where
  | rootNotFound (path : String)
  | fileNotFound (path : String)
  | readFailed (path message : String)
  | invalidPath (path reason : String)
  | duplicatePath (path : String)
  deriving DecidableEq

namespace PackageError

def message : PackageError → String
  | rootNotFound path => s!"package root not found: {path}"
  | fileNotFound path => s!"file not found in package: {path}"
  | readFailed path message => s!"failed to read {path}: {message}"
  | invalidPath path reason => "invalid package path " ++ Quoted.text path ++ ": " ++ reason
  | duplicatePath path => s!"duplicate package path: {path}"

end PackageError

/-- What keeps a path from naming a file. -/
inductive PathFault where
  | empty
  | absolute
  | backslash
  | emptyName
  | relativeName
  deriving DecidableEq

def PathFault.message : PathFault → String
  | empty => "path is empty"
  | absolute => "path must be relative"
  | backslash => "path must use '/' separators"
  | emptyName => "empty path component"
  | relativeName => "relative path component"

namespace PathText

/-- What is wrong with a name between slashes. -/
def nameFault? : List Char → Option PathFault
  | [] => some .emptyName
  | ['.'] => some .relativeName
  | ['.', '.'] => some .relativeName
  | _ => none

/-- The first thing that is wrong with a path. -/
def fault? (path : List Char) : Option PathFault :=
  if path.isEmpty then some .empty
  else if path.head? == some '/' then some .absolute
  else if path.contains '\\' then some .backslash
  else (path.splitOn '/').findSome? nameFault?

end PathText

/-- Accept the paths that can name a file of a package. -/
def validatePath (path : String) : Except PackageError Unit :=
  match PathText.fault? path.toList with
  | some fault => .error (.invalidPath path fault.message)
  | none => .ok ()

end PackageAudit
