import PackageAudit.Text.Utf8

/-!
# Package.FileTree — files, directories and symbolic links on a disk

* `FileTree` — a file, a link, or a directory with named parts;
* `FileTree.insert`, `FileTree.erase` — change what stands at a list of names;
* `Disk` — a tree and the directory in it that relative paths start from;
* `Disk.resolve` — the place that a path leads to, through links.

Names are bytes, since a disk does not ask for them to be text.
-/

namespace PackageAudit

/-- The name of a part of a directory. -/
abbrev FileName := Bytes

/-- What stands under a name on a disk. -/
inductive FileTree where
  | file (content : Bytes)
  | link (target : Bytes)
  | directory (parts : List (FileName × FileTree))

namespace FileTree

def empty : FileTree := .directory []

/-- The parts of a directory; anything else has none. -/
def parts : FileTree → List (FileName × FileTree)
  | directory parts => parts
  | _ => []

def isDirectory : FileTree → Bool
  | directory _ => true
  | _ => false

/-- What stands at a list of names, links not followed. -/
def at? (t : FileTree) : List FileName → Option FileTree
  | [] => some t
  | name :: rest =>
    match t.parts.lookup name with
    | some part => part.at? rest
    | none => none

/-- Put a part under its name, at the end if the name is new. -/
def put (name : FileName) (part : FileTree) :
    List (FileName × FileTree) → List (FileName × FileTree)
  | [] => [(name, part)]
  | other :: rest =>
    if other.1 = name then (name, part) :: rest else other :: put name part rest

/-- Put something at a list of names, with directories on the way to it. -/
def insert : FileTree → List FileName → FileTree → FileTree
  | _, [], new => new
  | t, name :: rest, new =>
    .directory (put name (insert ((t.parts.lookup name).getD empty) rest new) t.parts)

/-- Remove what stands at a list of names. -/
def erase : FileTree → List FileName → FileTree
  | t, [] => t
  | t, [name] => .directory (t.parts.filter fun part => part.1 != name)
  | t, name :: rest =>
    match t.parts.lookup name with
    | some part => .directory (put name (part.erase rest) t.parts)
    | none => t

mutual

/-- The number of directories in a tree. -/
def directories : FileTree → Nat
  | file _ => 0
  | link _ => 0
  | directory parts => directoriesOf parts + 1

def directoriesOf : List (FileName × FileTree) → Nat
  | [] => 0
  | (_, part) :: rest => part.directories + directoriesOf rest

end

end FileTree

/-- Why a disk refuses to read. -/
inductive DiskFault where
  | notFound
  | notDirectory
  | isDirectory
  | tooManyLinks
  deriving DecidableEq

/-- A refusal in the words of the operating system, with its number there. -/
def DiskFault.message : DiskFault → String
  | notFound => "No such file or directory (os error 2)"
  | notDirectory => "Not a directory (os error 20)"
  | isDirectory => "Is a directory (os error 21)"
  | tooManyLinks => "Too many levels of symbolic links (os error 40)"

namespace FilePath

def slash : UInt8 := 47

def isAbsolute (path : Bytes) : Bool :=
  path.head? == some slash

/-- The names between the slashes of a path. -/
def names (path : Bytes) : List FileName :=
  path.splitOn slash

end FilePath

/-- A tree of files, and the directory that relative paths start from. -/
structure Disk where
  tree : FileTree
  here : List FileName

namespace Disk

/-- The number of links that one path may lead through. -/
def maxLinks : Nat := 40

/-- Follow names from a directory; `links` more links may be on the way. -/
def follow (tree : FileTree) (links : Nat) (place : List FileName) :
    List FileName → Except DiskFault (List FileName)
  | [] => .ok place
  | name :: rest =>
    if !(tree.at? place).any FileTree.isDirectory then .error .notDirectory
    else if name = [] ∨ name = [46] then follow tree links place rest
    else if name = [46, 46] then follow tree links place.dropLast rest
    else
      match tree.at? (place ++ [name]) with
      | none => .error .notFound
      | some (.link target) =>
        match links with
        | 0 => .error .tooManyLinks
        | links + 1 =>
          follow tree links (if FilePath.isAbsolute target then [] else place)
            (FilePath.names target ++ rest)
      | some _ => follow tree links (place ++ [name]) rest
  termination_by names => (links, names.length)

/-- The place that a path leads to from a directory. -/
def resolveFrom (d : Disk) (place : List FileName) (path : Bytes) :
    Except DiskFault (List FileName) :=
  if path = [] then .error .notFound
  else follow d.tree maxLinks (if FilePath.isAbsolute path then [] else place) (FilePath.names path)

/-- The place that a path leads to. -/
def resolve (d : Disk) (path : Bytes) : Except DiskFault (List FileName) :=
  d.resolveFrom d.here path

/-- The content of the file that a path leads to. -/
def read (d : Disk) (path : Bytes) : Except DiskFault Bytes := do
  match d.tree.at? (← d.resolve path) with
  | some (.file content) => .ok content
  | some (.directory _) => .error .isDirectory
  | _ => .error .notFound

/-- Whether a path leads to a directory. -/
def isDirectory (d : Disk) (path : Bytes) : Bool :=
  match d.resolve path with
  | .ok place => (d.tree.at? place).any FileTree.isDirectory
  | .error _ => false

/-- Whether a path leads to anything. -/
def leadsTo (d : Disk) (path : Bytes) : Bool :=
  match d.resolve path with
  | .ok place => (d.tree.at? place).isSome
  | .error _ => false

end Disk

end PackageAudit
