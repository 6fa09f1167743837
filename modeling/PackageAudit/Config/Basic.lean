import PackageAudit.Config.Error
import PackageAudit.Text.Utf8
import PackageAudit.Toml.Reader
import PackageAudit.Unicode.Property

/-!
# Config — settings of the program

Settings come from defaults, then a file, then variables, then the command line; the later ones
win.

* `Config` — the settings;
* `Config.ofFile` — the settings of a file;
* `Config.merge` — settings with those of variables over them;
* `Config.validate` — whether they can be used.
-/

namespace PackageAudit

/-- How a report is written. -/
inductive OutputFormat where
  | text
  | json
  deriving DecidableEq

namespace OutputFormat

def name : OutputFormat → String
  | text => "text"
  | json => "json"

def named? (s : String) : Option OutputFormat :=
  [text, json].find? (·.name == s)

end OutputFormat

/-- When a report is coloured. -/
inductive ColorChoice where
  | always
  | auto
  | never
  deriving DecidableEq

namespace ColorChoice

def name : ColorChoice → String
  | always => "always"
  | auto => "auto"
  | never => "never"

def named? (s : String) : Option ColorChoice :=
  [always, auto, never].find? (·.name == s)

end ColorChoice

/-- Settings of the program. -/
structure Config where
  output : OutputFormat
  color : ColorChoice
  /-- Whether no service may be asked. -/
  offline : Bool
  /-- How long a request may take, in seconds. -/
  timeout : Nat
  /-- How long to wait before each further attempt, in milliseconds. -/
  retryDelays : List Nat
  /-- Where published manifests are. -/
  registryUrl : String
  /-- Where the lists of packages are that are built into releases. -/
  builtinsUrl : Option String
  /-- Where the index of confidential content is. -/
  indexUrl : Option String
  /-- Rules that are left out. -/
  exclude : List String
  deriving DecidableEq

namespace Config

/-- The settings without any file. -/
def standard : Config where
  output := .text
  color := .auto
  offline := false
  timeout := 30
  retryDelays := [10, 100, 1000, 10000]
  registryUrl := "https://packages.unity.com"
  builtinsUrl := none
  indexUrl := none
  exclude := []

/-! ## Files -/

/-- The settings of each section of a file. -/
def sections : List (String × List String) :=
  [("general", ["output", "color"]),
    ("network", ["offline", "timeout_secs", "retry_delays_ms"]),
    ("baselines", ["registry_url", "builtins_url", "confidential_url"]),
    ("checks", ["exclude"])]

/-- The values of a section; none of them is there if the section is not. -/
def sectionFields? (file : TomlTable) (sect : String × List String) : Option (List (Option Toml)) :=
  match file.lookup sect.1 with
  | some value => value.fields? sect.2
  | none => some (sect.2.map fun _ => none)

def text? : Toml → Option String
  | .string s => some s
  | _ => none

def flag? : Toml → Option Bool
  | .boolean b => some b
  | _ => none

/-- A number of 64 bits without sign. -/
def number? : Toml → Option Nat
  | .integer n => if 0 ≤ n ∧ n < 0x10000000000000000 then some n.toNat else none
  | _ => none

def list? {α : Type} (f : Toml → Option α) : Toml → Option (List α)
  | .array _ items => items.mapM f
  | _ => none

/-- A choice by its name, or by a table with nothing but an empty value under the name. -/
def choice? {α : Type} (named? : String → Option α) : Toml → Option α
  | .string s => named? s
  | .table _ [(name, .table _ [])] => named? name
  | .table _ [(name, .array _ [])] => named? name
  | _ => none

/-- The value of a setting, or the default if it is not there. -/
def setting {α : Type} (f : Toml → Option α) (standard : α) : Option Toml → Option α
  | some value => f value
  | none => some standard

/-- The settings of a file, defaults for what it leaves out. -/
def ofTable? (file : TomlTable) : Option Config := do
  match ← sections.mapM (sectionFields? file) with
  | [[output, color], [offline, timeout, delays], [registry, builtins, index], [exclude]] =>
    pure {
      output := ← setting (choice? OutputFormat.named?) standard.output output
      color := ← setting (choice? ColorChoice.named?) standard.color color
      offline := ← setting flag? standard.offline offline
      timeout := ← setting number? standard.timeout timeout
      retryDelays := ← setting (list? number?) standard.retryDelays delays
      registryUrl := ← setting text? standard.registryUrl registry
      builtinsUrl := ← setting (fun v => (text? v).map some) none builtins
      indexUrl := ← setting (fun v => (text? v).map some) none index
      exclude := ← setting (list? text?) standard.exclude exclude }
  | _ => none

/-! ## Validity -/

/-- A text without white space around it. -/
def trim (s : List Char) : List Char :=
  let blank (c : Char) := Property.whiteSpace.has c
  ((s.dropWhile blank).reverse.dropWhile blank).reverse

/-- Whether a text has anything but white space. -/
def isBlank (s : String) : Bool :=
  (trim s.toList).isEmpty

/-- Settings of the right form that cannot be used all the same. -/
def validate (c : Config) : Except ConfigError Unit :=
  if c.timeout = 0 then .error (.invalid "network.timeout_secs must be positive")
  else if isBlank c.registryUrl then
    .error (.invalid "baselines.registry_url must not be empty")
  else .ok ()

/-- The settings of a content; the reason why it is none is not told. -/
def ofText (s : List Char) : Except ConfigError Config :=
  match (Toml.parse s).bind ofTable? with
  | none => .error (.parse "")
  | some c => do
    c.validate
    pure c

/-- The settings of the file at a path, if it has a content; a file that is no text is none. -/
def ofFile (path : String) (content : Option Bytes) : Except ConfigError Config :=
  match content.bind Utf8.decode with
  | none => .error (.notFound path)
  | some s => ofText s

/-! ## Variables -/

/-- The value of a flag. -/
def flagWord? (s : String) : Option Bool :=
  if ["true", "1", "yes"].contains s then some true
  else if ["false", "0", "no"].contains s then some false
  else none

/-- The names between the commas of a text. -/
def names (s : String) : List String :=
  ((s.toList.splitOn ',').map fun name => String.ofList (trim name)).filter (· ≠ "")

/-- Add a rule to those that are left out, unless it is among them. -/
def addExclude (c : Config) (name : String) : Config :=
  if c.exclude.contains name then c else { c with exclude := c.exclude ++ [name] }

/-- The variables that hold settings, and what each of them sets. -/
def variableTable : List (String × (Config → String → Option Config)) :=
  [("PKGCHECK_OUTPUT", fun c s => (OutputFormat.named? s).map fun output => { c with output }),
    ("PKGCHECK_OFFLINE", fun c s => (flagWord? s).map fun offline => { c with offline }),
    ("PKGCHECK_REGISTRY_URL", fun c s =>
      if isBlank s then none else some { c with registryUrl := s }),
    ("PKGCHECK_EXCLUDE", fun c s => some ((names s).foldl addExclude c))]

/-- Settings with those of some variables over them, up to a value that cannot be used. -/
def mergeFrom (lookup : String → Option String) (c : Config) :
    List (String × (Config → String → Option Config)) → Config × Except ConfigError Unit
  | [] => (c, .ok ())
  | (name, put) :: rest =>
    match lookup name with
    | none => mergeFrom lookup c rest
    | some value =>
      match put c value with
      | some c => mergeFrom lookup c rest
      | none => (c, .error (.invalidValue name value))

/-- Settings with those of the variables over them, up to a value that cannot be used. -/
def merge (lookup : String → Option String) (c : Config) : Config × Except ConfigError Unit :=
  mergeFrom lookup c variableTable

end Config

end PackageAudit
