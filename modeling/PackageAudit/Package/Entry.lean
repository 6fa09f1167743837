import PackageAudit.Platform

/-!
# Package.Entry — one path of a package

* `PathText` — the parts of a path: components, file name, extension;
* `Entry` — a path with what its names say about it;
* `Entry.classify` — the entry of a path, for a given platform.
-/

namespace PackageAudit

namespace PathText

/-- The names between the slashes. -/
def components (path : List Char) : List (List Char) :=
  path.splitOn '/'

/-- The last name. -/
def filename (path : List Char) : List Char :=
  (components path).getLast?.getD []

/-- ASCII letters in lower case, all else unchanged. -/
def lower (cs : List Char) : List Char :=
  cs.map Char.toLower

/-- What stands behind the last dot of a name, unless that dot begins the name. -/
def extension (name : List Char) : List Char :=
  let behind := (name.reverse.takeWhile (· != '.')).reverse
  if behind.length + 1 < name.length then behind else []

/-- Whether a name keeps what it names out of sight. -/
def isHiddenName (name : List Char) : Bool :=
  name.head? == some '.' || name.getLast? == some '~' || lower name == ['c', 'v', 's']

/-- Whether a path is out of sight: by one of its names, or as a temporary file. -/
def isHidden (path : List Char) : Bool :=
  (components path).any isHiddenName || ['.', 't', 'm', 'p'].isSuffixOf (lower path)

/-- Extensions of plugin directories, with the release that introduced each. -/
def pluginExtensions : List (String × Option Platform) :=
  [("bundle", none), ("framework", none), ("plugin", none), ("xcframework", some ⟨2021, 2⟩),
    ("androidlib", some ⟨2021, 2⟩)]

/-- Whether a directory of this name is a plugin as a whole. -/
def isPluginName (target : Target) (name : List Char) : Bool :=
  let ext := String.ofList (lower (extension name))
  pluginExtensions.any fun (plugin, since) => plugin == ext && since.all target.reaches

/-- Whether a path lies in a plugin directory. -/
def inPlugin (target : Target) (path : List Char) : Bool :=
  (components path).dropLast.any (isPluginName target)

end PathText

/-- A path of a package. -/
structure Entry where
  path : String
  isDirectory : Bool
  /-- The path with ASCII letters in lower case. -/
  lower : String
  isHidden : Bool
  inPlugin : Bool
  deriving DecidableEq

namespace Entry

/-- The entry of a path. -/
def classify (target : Target) (isDirectory : Bool) (path : String) : Entry where
  path := path
  isDirectory := isDirectory
  lower := .ofList (PathText.lower path.toList)
  isHidden := PathText.isHidden path.toList
  inPlugin := PathText.inPlugin target path.toList

def components (e : Entry) : List String :=
  (PathText.components e.path.toList).map String.ofList

def filename (e : Entry) : String :=
  .ofList (PathText.filename e.path.toList)

/-- The extension as it is spelled. -/
def rawExtension (e : Entry) : String :=
  .ofList (PathText.extension (PathText.filename e.path.toList))

/-- The extension in lower case. -/
def extension (e : Entry) : String :=
  .ofList (PathText.lower (PathText.extension (PathText.filename e.path.toList)))

/-- Whether the entry accompanies another one. -/
def isCompanion (e : Entry) : Bool :=
  ['.', 'm', 'e', 't', 'a'].isSuffixOf e.path.toList

end Entry

end PackageAudit
