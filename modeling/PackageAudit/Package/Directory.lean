import PackageAudit.Package.FileTree
import PackageAudit.Package.Source

/-!
# Package.Directory — packages that are a directory on a disk

* `Listing.files` — the files below a directory, links followed, with the first thing that stops
  the listing;
* `DirectoryPackage.ofDisk` — the package below a directory;
* `DirectoryPackage.source` — access to its files, on a disk as it is then.

A link to a directory that is being listed would never end, so it stops the listing.
-/

namespace PackageAudit

/-- The text that a path is shown as. -/
def shownPath (path : Bytes) : String :=
  .ofList (Utf8.decodeLossy path)

/-- A path behind another one, with one slash between them. -/
def joinPath (front rest : Bytes) : Bytes :=
  if front = [] ∨ front.getLast? = some FilePath.slash then front ++ rest
  else front ++ FilePath.slash :: rest

namespace Listing

/-- Where a listing stands. -/
structure Position where
  /-- The directory on the disk. -/
  place : List FileName
  /-- The names that led to it from the root, last one first. -/
  trail : List FileName
  /-- The directories being listed, with the names that led to each. -/
  entered : List (List FileName × List FileName)

namespace Position

/-- The position in a directory under a name. -/
def enter (p : Position) (name : FileName) (place : List FileName) : Position :=
  ⟨place, name :: p.trail, (place, name :: p.trail) :: p.entered⟩

end Position

/-- The path of a trail, below the root of the package. -/
def relative (trail : List FileName) : Bytes :=
  (trail.reverse.intersperse [FilePath.slash]).flatten

/-- The path of a trail, with the path of the root. -/
def fullPath (root : Bytes) (trail : List FileName) : Bytes :=
  if trail.isEmpty then root else joinPath root (relative trail)

/-- Something that stops a listing at a trail. -/
def stop {α : Type} (root : Bytes) (trail : List FileName) (message : String → String) :
    Except PackageError α :=
  let path := shownPath (fullPath root trail)
  .error (.readFailed path (message path))

/-- Add a file, whose path must be a text. -/
def addFile (found : List String) (trail : List FileName) : Except PackageError (List String) :=
  match Utf8.decode (relative trail) with
  | some path => .ok (.ofList path :: found)
  | none => .error (.invalidPath (shownPath (relative trail)) "path is not valid UTF-8")

/--
Add the files below parts of a directory. Every link to a directory leads out of those being
listed, so there cannot be more such links on a trail than there are directories; `links` counts
those that are left.
-/
def filesOf (disk : Disk) (root : Bytes) (links : Nat) (position : Position) (found : List String) :
    List (FileName × FileTree) → Except PackageError (List String)
  | [] => .ok found
  | (name, .file _) :: rest => do
    let found ← addFile found (name :: position.trail)
    filesOf disk root links position found rest
  | (name, .directory parts) :: rest => do
    let inside := position.enter name (position.place ++ [name])
    let found ← filesOf disk root links inside found parts
    filesOf disk root links position found rest
  | (name, .link target) :: rest => do
    let trail := name :: position.trail
    match disk.resolveFrom position.place target with
    | .error fault =>
      stop root trail fun path => s!"IO error for operation on {path}: {fault.message}"
    | .ok place =>
      match disk.tree.at? place with
      | some (.file _) =>
        let found ← addFile found trail
        filesOf disk root links position found rest
      | some (.directory parts) =>
        match position.entered.lookup place, links with
        | some above, _ =>
          stop root trail fun path =>
            s!"File system loop found: {path} points to an ancestor " ++
              shownPath (fullPath root above)
        | none, links + 1 =>
          let found ← filesOf disk root links (position.enter name place) found parts
          filesOf disk root (links + 1) position found rest
        | none, 0 => filesOf disk root 0 position found rest
      | _ => filesOf disk root links position found rest
  termination_by parts => (links, sizeOf parts)

/-- The files below a directory at a place of the disk, in no particular order. -/
def files (disk : Disk) (root : Bytes) (place : List FileName) :
    Except PackageError (List String) :=
  let parts := ((disk.tree.at? place).getD .empty).parts
  filesOf disk root disk.tree.directories ⟨place, [], [(place, [])]⟩ [] parts

end Listing

/-- A directory and the files that were listed below it, in the order of their paths. -/
structure DirectoryPackage where
  root : Bytes
  files : List String

namespace DirectoryPackage

/-- The package below a directory. -/
def ofDisk (disk : Disk) (root : Bytes) : Except PackageError DirectoryPackage :=
  match disk.resolve root with
  | .error _ => .error (.rootNotFound (shownPath root))
  | .ok place =>
    if (disk.tree.at? place).any FileTree.isDirectory then do
      let files ← Listing.files disk root place
      .ok ⟨root, files.mergeSort fun a b => decide (a ≤ b)⟩
    else .error (.rootNotFound (shownPath root))

/-- The content of a listed file. -/
def read (p : DirectoryPackage) (disk : Disk) (path : String) : Except PackageError Bytes :=
  if p.files.contains path then
    Source.failed path ((disk.read (joinPath p.root (textBytes path))).mapError DiskFault.message)
  else .error (.fileNotFound path)

/-- Access to the listed files. -/
def source (p : DirectoryPackage) (disk : Disk) : Source :=
  let openFile := fun path => (p.read disk path).map Stream.ofBytes
  { files := p.files
    contains := p.files.contains
    read := p.read disk
    openFile
    size := fun path => (p.read disk path).map List.length
    readStart := Source.startThrough openFile }

end DirectoryPackage

end PackageAudit
