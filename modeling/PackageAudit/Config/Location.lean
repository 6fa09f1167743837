import PackageAudit.Config.Basic
import PackageAudit.Package.Directory

/-!
# Config.Location — where settings are kept

* `Config.location?` — the file in which a user keeps settings;
* `Config.load` — the settings of a chosen file, or of the file of the user if there is one.
-/

namespace PackageAudit

/-- The variables of a process, and the home directory of its user. -/
structure Environment where
  /-- The value of a variable, if it is set. -/
  lookup : String → Option String
  /-- The home directory of the account, which holds unless a variable names another one. -/
  accountHome : Option String

namespace Environment

/-- The variables that tell where settings are kept. -/
def variableNames : List String :=
  ["HOME", "XDG_CONFIG_HOME"]

/-- The home directory of the user. An empty name is none. -/
def home? (e : Environment) : Option Bytes :=
  match (e.lookup "HOME").filter (· ≠ "") with
  | some home => some (textBytes home)
  | none => e.accountHome.map textBytes

/-- The directory in which programs keep settings. A variable counts if its path is absolute. -/
def settings? (e : Environment) : Option Bytes :=
  match ((e.lookup "XDG_CONFIG_HOME").map textBytes).filter FilePath.isAbsolute with
  | some directory => some directory
  | none => e.home?.map fun home => joinPath home (textBytes ".config")

end Environment

namespace Config

/-- The file in which a user keeps settings. -/
def location? (e : Environment) : Option Bytes :=
  e.settings?.map fun directory => joinPath directory (textBytes "pkgcheck/config.toml")

/-- The settings of the file at a path. -/
def loadFile (disk : Disk) (path : Bytes) : Except ConfigError Config :=
  ofFile (shownPath path) (disk.read path).toOption

/-- The settings of a chosen file, or of the file of the user if there is one. -/
def load (disk : Disk) (e : Environment) : Option String → Except ConfigError Config
  | some chosen => loadFile disk (textBytes chosen)
  | none =>
    match location? e with
    | none => .error (.notFound "config directory")
    | some path => if disk.leadsTo path then loadFile disk path else .ok standard

end Config

end PackageAudit
