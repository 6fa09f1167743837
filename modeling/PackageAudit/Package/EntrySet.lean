import PackageAudit.Package.Entry
import PackageAudit.Text.Sorted

/-!
# Package.EntrySet — the files of a package and the directories around them

A package lists files only; each path in front of a slash of a file's path is a directory.

* `EntrySet.ofFiles` — the entries of a file list, in the order of their paths, each path once;
* `EntrySet.get?` — the entry of a path.
-/

namespace PackageAudit

/-- Entries in strictly increasing order of their paths. -/
structure EntrySet where
  entries : List Entry

namespace EntrySet

/-- The paths in front of the slashes of a path; what is passed already is in `front`, backwards. -/
def ancestorsFrom (front : List Char) : List Char → List String
  | [] => []
  | c :: rest =>
    if c = '/' then .ofList front.reverse :: ancestorsFrom (c :: front) rest
    else ancestorsFrom (c :: front) rest

/-- The directories that a path lies in, outermost first. -/
def ancestors (path : String) : List String :=
  ancestorsFrom [] path.toList

/-- The entries of a list of files; a path that is a file and a directory counts as the file. -/
def ofFiles (target : Target) (files : List String) : EntrySet :=
  ⟨(Sorted.ofList (files ++ files.flatMap ancestors)).map fun path =>
    Entry.classify target (!files.contains path) path⟩

def get? (s : EntrySet) (path : String) : Option Entry :=
  s.entries.find? (·.path == path)

def contains (s : EntrySet) (path : String) : Bool :=
  (s.get? path).isSome

def size (s : EntrySet) : Nat :=
  s.entries.length

end EntrySet

end PackageAudit
