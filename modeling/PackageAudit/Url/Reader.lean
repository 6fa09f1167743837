import PackageAudit.Url.Host

/-!
# Url.Reader — reading addresses

* `SchemeKind` — what the scheme of an address says about its form;
* `UrlPath.settle` — a name joins a path, where `.` and `..` lead elsewhere;
* `Url.parse` — the address that a text stands for.
-/

namespace PackageAudit

/-- What a scheme says about the form of an address. -/
inductive SchemeKind where
  /-- A service with a host. -/
  | service
  | file
  | other
  deriving DecidableEq

namespace SchemeKind

/-- Schemes of services, with the port that each of them means. -/
def services : List (List Char × Nat) :=
  [("http".toList, 80), ("https".toList, 443), ("ws".toList, 80), ("wss".toList, 443),
    ("ftp".toList, 21)]

def of (scheme : List Char) : SchemeKind :=
  if scheme = "file".toList then .file
  else if (services.lookup scheme).isSome then .service
  else .other

/-- Whether a backslash is as good as a slash. -/
def hasBackslash (k : SchemeKind) : Bool :=
  k != .other

/-- Whether a character separates the names of a path. -/
def isSlash (k : SchemeKind) (c : Char) : Bool :=
  c == '/' || (k.hasBackslash && c == '\\')

end SchemeKind

namespace UrlPath

/-! ## Paths -/

/-- A letter and a colon, or a bar in its stead. -/
def isDrive : List Char → Bool
  | [letter, mark] => letter.isAlpha && (mark == ':' || mark == '|')
  | _ => false

/-- A name that stands for the names it is among. -/
def isHere (name : List Char) : Bool :=
  name == ['.'] || name.map Char.toLower == ['%', '2', 'e']

/-- A name that leads back. -/
def isBack (name : List Char) : Bool :=
  let name := name.map Char.toLower
  ["..", ".%2e", "%2e.", "%2e%2e"].any fun back => name == back.toList

/-- A path without its last name; a drive stays. -/
def shorten (kind : SchemeKind) (names : List (List Char)) : List (List Char) :=
  match kind, names with
  | .file, [drive] => if isDrive drive && drive.getLast? == some ':' then [drive] else []
  | _, names => names.dropLast

/-- A path with another name behind it; `last` if nothing follows the name. -/
def settle (kind : SchemeKind) (last : Bool) (names : List (List Char)) (name : List Char) :
    List (List Char) :=
  let ending := if last then [[]] else []
  if isBack name then shorten kind names ++ ending
  else if isHere name then names ++ ending
  else if kind = .file ∧ names.isEmpty ∧ isDrive name then names ++ [name.take 1 ++ [':']]
  else names ++ [name]

/-- A path without empty names in front. -/
def dropEmpty : List (List Char) → List (List Char)
  | [] :: name :: rest => dropEmpty (name :: rest)
  | names => names

/-- Characters that end a path. -/
def endsPath (c : Char) : Bool :=
  c == '?' || c == '#'

/-- The names at the head of `s`, behind those read before. -/
def readNames (kind : SchemeKind) (set : PercentSet) (names : List (List Char)) (s : List Char) :
    List (List Char) × List Char :=
  let inName (c : Char) := !kind.isSlash c && !endsPath c
  let name := Percent.encode set (s.takeWhile inName)
  match h : s.dropWhile inName with
  | [] => (settle kind true names name, [])
  | c :: rest =>
    have : (c :: rest).length ≤ s.length := h ▸ (List.dropWhile_sublist inName (l := s)).length_le
    if kind.isSlash c then readNames kind set (settle kind false names name) rest
    else (settle kind true names name, c :: rest)
  termination_by s.length
  decreasing_by grind

/-- The path at the head of `s`, and what follows it. -/
def read (kind : SchemeKind) (s : List Char) : UrlPath × List Char :=
  let (names, rest) := readNames kind .path [] s
  (.segments (if kind = .file then dropEmpty names else names), rest)

end UrlPath

namespace Url

/-! ## Whom the address leads to -/

/-- What stands in front of the last mark of credentials, and behind it. -/
def splitCredentials (s : List Char) : Option (List Char × List Char) :=
  match s.reverse.span (· != '@') with
  | (_, []) => none
  | (behind, _ :: front) => some (front.reverse, behind.reverse)

/-- Name and password in their written form, if there are any. -/
def credentials? (s : List Char) : Option (List Char) :=
  let encode := Percent.encode .credentials
  match s.span (· != ':') with
  | ([], []) => none
  | (name, []) => some (encode name)
  | ([], [_]) => none
  | (name, [_]) => some (encode name)
  | (name, _ :: password) => some (encode name ++ ':' :: encode password)

/-- The host at the head of `s`, and what follows it; a colon may stand between brackets. -/
def spanHost (kind : SchemeKind) (bracket : Bool) : List Char → List Char × List Char
  | [] => ([], [])
  | c :: rest =>
    if (c = ':' ∧ ¬ bracket) ∨ kind.isSlash c ∨ UrlPath.endsPath c then ([], c :: rest)
    else
      let inside := if c = '[' then true else if c = ']' then false else bracket
      let (host, more) := spanHost kind inside rest
      (c :: host, more)

/-- The host of an address. -/
def readHost (kind : SchemeKind) (host : List Char) : Except UrlFault (List Char) :=
  if kind = .other then Host.opaqueText host
  else if host.isEmpty then .error .emptyHost
  else Host.special host

/-- The port at the head of `s`, unless it is the one that the scheme means. -/
def readPort (scheme : List Char) (s : List Char) : Except UrlFault (Option Nat × List Char) :=
  match s with
  | ':' :: rest =>
    let ds := rest.takeWhile Char.isDigit
    let rest := rest.dropWhile Char.isDigit
    let port := ds.foldl (fun n c => 10 * n + (c.toNat - 48)) 0
    if 0x10000 ≤ port then .error .port
    else if rest.head?.any fun c => !(['/', '\\', '?', '#'].contains c) then .error .port
    else if ds.isEmpty ∨ SchemeKind.services.lookup scheme = some port then .ok (none, rest)
    else .ok (some port, rest)
  | s => .ok (none, s)

/-- Whom the address leads to, behind the slashes. -/
def readAuthority (scheme : List Char) (kind : SchemeKind) (s : List Char) :
    Except UrlFault (Authority × List Char) := do
  let inside (c : Char) := !kind.isSlash c && !UrlPath.endsPath c
  let front := s.takeWhile inside
  let behind := s.dropWhile inside
  let (user, hostPort) := match splitCredentials front with
    | some (user, hostPort) => (some user, hostPort)
    | none => (none, front)
  if user = some [] ∧ hostPort.isEmpty ∧ ¬ behind.isEmpty then .error .emptyHost
  else
    let credentials := user.bind credentials?
    let (text, more) := spanHost kind false (hostPort ++ behind)
    let host ← readHost kind text
    if host.isEmpty ∧ (more.head? = some ':' ∨ credentials.isSome) then .error .emptyHost
    else
      let (port, rest) ← readPort scheme more
      pure (⟨credentials, host, port⟩, rest)

/-! ## What follows the path -/

/-- Question and fragment at the head of `s`. -/
def readRest (kind : SchemeKind) (s : List Char) : Option (List Char) × Option (List Char) :=
  let fragment (s : List Char) := match s with
    | '#' :: rest => some (Percent.encode .fragment rest)
    | _ => none
  match s with
  | '?' :: rest =>
    let set := if kind = .other then PercentSet.query else PercentSet.specialQuery
    (some (Percent.encode set (rest.takeWhile (· != '#'))), fragment (rest.dropWhile (· != '#')))
  | s => (none, fragment s)

/-- An address of its parts, and of what follows its path. -/
def finish (scheme : List Char) (authority : Option Authority) (path : UrlPath)
    (rest : List Char) : Url :=
  let (query, fragment) := readRest (.of scheme) rest
  ⟨scheme, authority, path, query, fragment⟩

/-! ## Addresses -/

/-- What follows the first slash of a path. -/
def dropSlash (kind : SchemeKind) (s : List Char) : List Char :=
  match s with
  | c :: rest => if kind.isSlash c then rest else s
  | [] => []

/-- An address with somebody that it leads to, behind the slashes. -/
def readHosted (scheme : List Char) (kind : SchemeKind) (s : List Char) : Except UrlFault Url := do
  let (authority, rest) ← readAuthority scheme kind s
  if kind = .other ∧ (rest.isEmpty ∨ rest.head?.any UrlPath.endsPath) then
    pure (finish scheme authority (.segments []) rest)
  else
    let (path, rest) := UrlPath.read kind (dropSlash kind rest)
    pure (finish scheme authority path rest)

/-- An address of a file, behind the colon. -/
def readFile (scheme : List Char) (s : List Char) : Except UrlFault Url := do
  let here (host : List Char) (s : List Char) : Url :=
    let (path, rest) := UrlPath.read .file (dropSlash .file s)
    finish scheme (some ⟨none, host, none⟩) path rest
  match s with
  | a :: b :: rest =>
    if SchemeKind.file.isSlash a && SchemeKind.file.isSlash b then
      let inHost (c : Char) := !SchemeKind.file.isSlash c && !UrlPath.endsPath c
      let host := rest.takeWhile inHost
      if UrlPath.isDrive host then pure (here [] rest)
      else
        let host ← if host.isEmpty then pure [] else Host.special host
        pure (here (if host = "localhost".toList then [] else host) (rest.dropWhile inHost))
    else pure (here [] s)
  | s => pure (here [] s)

/-- An address behind its scheme and the colon. -/
def readScheme (scheme : List Char) (s : List Char) : Except UrlFault Url :=
  let kind := SchemeKind.of scheme
  match kind, s with
  | .file, s => readFile scheme s
  | .service, s => readHosted scheme kind (s.dropWhile kind.isSlash)
  | .other, '/' :: '/' :: rest => readHosted scheme kind rest
  | .other, '/' :: rest =>
    let (path, rest) := UrlPath.read kind rest
    .ok (finish scheme none path rest)
  | .other, s =>
    let text := s.takeWhile (!UrlPath.endsPath ·)
    let rest := s.dropWhile (!UrlPath.endsPath ·)
    .ok (finish scheme none (.plain (Percent.encode .controls text)) rest)

/-- Characters that a scheme has behind its first letter. -/
def isSchemeChar (c : Char) : Bool :=
  c.isAlphanum || c == '+' || c == '-' || c == '.'

/-- A text without the control characters and spaces around it. -/
def trimControls (s : List Char) : List Char :=
  let blank (c : Char) := c.toNat ≤ 0x20
  ((s.dropWhile blank).reverse.dropWhile blank).reverse

/-- Characters that do not count, wherever they stand. -/
def isSkipped (c : Char) : Bool :=
  c == '\t' || c == '\n' || c == '\r'

/-- The address that a text stands for. -/
def parse (s : List Char) : Except UrlFault Url :=
  let s := (trimControls s).filter (!isSkipped ·)
  let scheme := s.takeWhile isSchemeChar
  match s.dropWhile isSchemeChar with
  | ':' :: rest =>
    if scheme.head?.any Char.isAlpha then readScheme (scheme.map Char.toLower) rest
    else .error .relative
  | _ => .error .relative

/-! ## Addresses below an address -/

/-- Whether names can be put behind the path. -/
def isBase (u : Url) : Bool :=
  match u.path with
  | .segments _ => true
  | .plain _ => false

/-- A path without an empty last name. -/
def openEnd (names : List (List Char)) : List (List Char) :=
  if 1 < names.length ∧ names.getLast? = some [] then names.dropLast else names

/-- Put a name behind a path, whatever characters it has. Only `.` and `..` cannot be names. -/
def addName (kind : SchemeKind) (names : List (List Char)) (name : List Char) : List (List Char) :=
  if name = ['.'] ∨ name = ['.', '.'] then names
  else
    let set := if kind = .other then PercentSet.segment else PercentSet.specialSegment
    let names := if names = [[]] then [] else names
    let names := UrlPath.settle kind true names (Percent.encode set (name.filter (!isSkipped ·)))
    if kind = .file then UrlPath.dropEmpty names else names

/-- The address of names below an address, if it can have any. -/
def below? (u : Url) (names : List String) : Option Url :=
  match u.path with
  | .plain _ => none
  | .segments path =>
    some { u with
      path := .segments ((names.map String.toList).foldl (addName (.of u.scheme)) (openEnd path)) }

end Url

end PackageAudit
