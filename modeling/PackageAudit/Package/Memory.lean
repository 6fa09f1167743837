import PackageAudit.Package.Source

/-!
# Package.Memory — packages held in memory

* `MemoryPackage` — contents under their paths, in the order of the paths;
* `MemoryPackage.insert` — one more file, under a valid path that is not there yet;
* `MemoryPackage.source` — access to the files.
-/

namespace PackageAudit

/-- Contents under strictly increasing paths. -/
structure MemoryPackage where
  contents : List (String × Bytes)
  deriving DecidableEq

namespace MemoryPackage

def empty : MemoryPackage := ⟨[]⟩

def files (p : MemoryPackage) : List String :=
  p.contents.map Prod.fst

def get? (p : MemoryPackage) (path : String) : Option Bytes :=
  p.contents.lookup path

/-- Put a content in front of the first path that is greater. -/
def place (path : String) (content : Bytes) : List (String × Bytes) → List (String × Bytes)
  | [] => [(path, content)]
  | file :: rest =>
    if path < file.1 then (path, content) :: file :: rest else file :: place path content rest

/-- Add a file. -/
def insert (p : MemoryPackage) (path : String) (content : Bytes) :
    Except PackageError MemoryPackage := do
  validatePath path
  if (p.get? path).isSome then .error (.duplicatePath path)
  else .ok ⟨place path content p.contents⟩

/-- The package of a list of files. -/
def ofFiles (files : List (String × Bytes)) : Except PackageError MemoryPackage :=
  files.foldlM (fun p file => p.insert file.1 file.2) empty

/-- The content of a file. -/
def read (p : MemoryPackage) (path : String) : Except PackageError Bytes :=
  match p.get? path with
  | some content => .ok content
  | none => .error (.fileNotFound path)

/-- Access to the files. -/
def source (p : MemoryPackage) : Source where
  files := p.files
  contains path := (p.get? path).isSome
  read := p.read
  openFile path := (p.read path).map Stream.ofBytes
  size path := (p.read path).map List.length
  readStart path count := (p.read path).map (List.take count)

end MemoryPackage

end PackageAudit
