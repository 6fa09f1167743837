import PackageAudit.CommandLine.Program

/-!
# Main — the program

The program copies the part of the disk that its command line speaks of, runs on the copy, and
writes what the run leaves behind. No service is reached from here, so the rules that need one are
left out of the report as they are without a network.
-/

namespace PackageAudit

/-- A copy of a part of the disk. -/
structure Snapshot where
  tree : FileTree
  /-- The directories whose parts are copied. -/
  copied : List String

namespace Snapshot

/-- The names of a path. -/
def namesOf (path : String) : List FileName :=
  (FilePath.names (textBytes path)).filter (· ≠ [])

/-- Put a part at a path. -/
def put (s : Snapshot) (path : String) (part : FileTree) : Snapshot :=
  { s with tree := s.tree.insert (namesOf path) part }

/-- Put a directory at a path unless something stands there. -/
def putDirectory (s : Snapshot) (path : String) : Snapshot :=
  if (s.tree.at? (namesOf path)).isSome then s else s.put path .empty

/-- Copy what a path leads to, and whatever the links below it lead to. -/
partial def copy (s : Snapshot) (path : String) : IO Snapshot := do
  let place ← IO.FS.realPath path
  let name := place.toString
  match (← place.metadata).type with
  | .file => return s.put name (.file (← IO.FS.readBinFile place).toList)
  | .dir =>
    if s.copied.contains name then return s
    let mut s := { s.putDirectory name with copied := name :: s.copied }
    for entry in ← place.readDir do
      let part := entry.path
      match (← part.symlinkMetadata).type with
      | .symlink =>
        match ← (IO.FS.realPath part).toBaseIO with
        | .ok target =>
          s ← copy (s.put part.toString (.link (textBytes target.toString))) target.toString
        | .error _ => s := s.put part.toString (.link [])
      | _ => s ← copy s part.toString
    return s
  | _ => return s

/-- Copy what a path leads to, with the directories and links on the way there. -/
def follow (s : Snapshot) (path : String) : IO Snapshot := do
  let mut s := s
  let mut front := if path.startsWith "/" then "/" else "."
  for name in path.splitOn "/" do
    if name != "" then
      match ← (IO.FS.realPath front).toBaseIO with
      | .error _ => return s
      | .ok place =>
        let part := place / name
        match ← part.symlinkMetadata.toBaseIO with
        | .error _ => return s
        | .ok found =>
          if found.type == .symlink then
            match ← (IO.FS.realPath part).toBaseIO with
            | .error _ => return s.put part.toString (.link [])
            | .ok target => s := s.put part.toString (.link (textBytes target.toString))
          else if found.type == .dir && name != "." && name != ".." then
            s := s.putDirectory part.toString
      front := front ++ "/" ++ name
  copy s path

end Snapshot

/-- All that a command line lets the program see. -/
def surroundings (words : List String) : IO Surroundings := do
  let values ← Program.variableNames.mapM fun name => do pure (name, ← IO.getEnv name)
  let environment : Environment := ⟨fun name => (values.lookup name).join, none⟩
  let here := (← IO.currentDir).toString
  let mut snapshot : Snapshot := (Snapshot.mk .empty []).putDirectory here
  if let .ok i := Invocation.parse words then
    for path in Program.paths environment i do
      snapshot ← snapshot.follow (shownPath path)
  pure ⟨⟨snapshot.tree, Snapshot.namesOf here⟩, environment, .unreachable,
    ← (← IO.getStdout).isTty⟩

end PackageAudit

open PackageAudit in
/-- Run on what the command line lets the program see. -/
def main (words : List String) : IO UInt32 := do
  let output := Program.run (← surroundings words) words
  IO.print output.result
  IO.eprint output.remarks
  pure (.ofNat output.status.code)
