import PackageAudit.Package.Path
import PackageAudit.Text.Utf8

/-!
# Package.Source — access to the files of a package

A package lists the paths of its files and answers requests for each of them.

* `Stream` — what reading a file piece by piece yields: bytes, and perhaps a failure behind them;
* `Source` — the files and the answers of a package;
* `Source.startThrough` — the first bytes of a file, by way of its stream.
-/

namespace PackageAudit

/-- The bytes that a stream yields, and what stops it before the end of the file. -/
structure Stream where
  content : Bytes
  failure : Option String

namespace Stream

/-- A stream that reaches the end of the file. -/
def ofBytes (content : Bytes) : Stream := ⟨content, none⟩

/-- All bytes, or why there are more than can be read. -/
def readAll (s : Stream) : Except String Bytes :=
  match s.failure with
  | none => .ok s.content
  | some message => .error message

/-- The first `count` bytes; a failure behind them does not matter. -/
def readStart (s : Stream) (count : Nat) : Except String Bytes :=
  let start := s.content.take count
  if start.length < count then
    match s.failure with
    | none => .ok start
    | some message => .error message
  else .ok start

end Stream

/-- Access to the files of a package, which stay as they are while it is looked at. -/
structure Source where
  /-- The paths of the files, without directories. -/
  files : List String
  contains : String → Bool
  read : String → Except PackageError Bytes
  openFile : String → Except PackageError Stream
  size : String → Except PackageError Nat
  readStart : String → Nat → Except PackageError Bytes

namespace Source

/-- A failure of the stream of a file. -/
def failed {α : Type} (path : String) (x : Except String α) : Except PackageError α :=
  x.mapError (PackageError.readFailed path)

/-- The first bytes of a file, by way of its stream. -/
def startThrough (openFile : String → Except PackageError Stream) (path : String) (count : Nat) :
    Except PackageError Bytes := do
  let stream ← openFile path
  failed path (stream.readStart count)

end Source

end PackageAudit
