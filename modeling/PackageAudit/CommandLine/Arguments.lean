import PackageAudit.Config.Basic

/-!
# CommandLine.Arguments — the words of a command line

* `Invocation` — a command and the options that were given with it;
* `Invocation.parse` — what words ask for, or why they ask for nothing;
* `Invocation.adjust` — settings with the options over them.

Options that hold for every command may stand before the command and behind it. Each flag and each
option with one value may be given once in either place; the one before the command wins.
-/

namespace PackageAudit

/-- What the program can do. -/
inductive Command where
  /-- Audit the package in a directory, without services if asked, and without some rules. -/
  | check (directory : String) (offline : Bool) (exclude : List String)
  /-- List the rules. -/
  | listChecks
  deriving DecidableEq

/-- A command and the options that hold for every command. -/
structure Invocation where
  command : Command
  json : Bool
  debug : Bool
  color : Option ColorChoice
  config : Option String
  deriving DecidableEq

/-! ## Words -/

/-- Options without a value. -/
inductive Flag where
  | json
  | debug
  | offline
  deriving DecidableEq

/-- Options with a value. -/
inductive Setting where
  | color
  | config
  | exclude
  deriving DecidableEq

/-- What a name behind two hyphens stands for. -/
inductive OptionKind where
  | flag (flag : Flag)
  | setting (setting : Setting)
  | help
  | version
  deriving DecidableEq

/-- Whose words are read: those before the command, or those behind it. -/
inductive Scope where
  | top
  | check
  | listChecks
  deriving DecidableEq

/-- Why words ask for nothing. -/
inductive UsageFault where
  | noCommand
  | unknownCommand (word : String)
  | unknownOption (word : String)
  | unexpected (word : String)
  | repeated (name : String)
  | noValue (name : String)
  | needlessValue (name : String)
  | invalidValue (name value : String)
  | noDirectory
  deriving DecidableEq

def UsageFault.message : UsageFault → String
  | noCommand => "a command is needed: check or list-checks"
  | unknownCommand word => "there is no command " ++ word
  | unknownOption word => "there is no option " ++ word ++ " here"
  | unexpected word => "nothing is expected here, but " ++ word ++ " is given"
  | repeated name => "--" ++ name ++ " is given twice"
  | noValue name => "--" ++ name ++ " needs a value"
  | needlessValue name => "--" ++ name ++ " takes no value"
  | invalidValue name value => value ++ " is no value of " ++ name
  | noDirectory => "check needs the directory of a package"

/-- What ends the reading of words before a command is complete. -/
inductive Halt where
  | help
  | version
  | fault (fault : UsageFault)
  deriving DecidableEq

namespace Flag

def name : Flag → String
  | json => "json"
  | debug => "debug"
  | offline => "offline"

end Flag

namespace Setting

def name : Setting → String
  | color => "color"
  | config => "config"
  | exclude => "exclude"

end Setting

namespace Scope

/-- The options that may stand in every place. -/
def sharedOptions : List (String × OptionKind) :=
  [("json", .flag .json), ("debug", .flag .debug), ("color", .setting .color),
    ("config", .setting .config), ("help", .help)]

def options : Scope → List (String × OptionKind)
  | top => ("version", .version) :: sharedOptions
  | check => [("offline", .flag .offline), ("exclude", .setting .exclude)] ++ sharedOptions
  | listChecks => sharedOptions

/-- What a letter behind one hyphen asks for. -/
def letter? (s : Scope) : Char → Option Halt
  | 'h' => some .help
  | 'V' => if s = top then some .version else none
  | _ => none

/-- The scope that a command opens. -/
def named? : String → Option Scope
  | "check" => some check
  | "list-checks" | "ls" => some listChecks
  | _ => none

end Scope

/-- A word by its form. -/
inductive Word where
  /-- Two hyphens alone: all that follows is no option. -/
  | divider
  | option (name : String) (value : Option String)
  | letters (first : Char)
  | plain
  deriving DecidableEq

/-- The form of a word; a hyphen alone is plain. -/
def Word.of (word : String) : Word :=
  match word.toList with
  | ['-', '-'] => divider
  | '-' :: '-' :: rest =>
    let name := String.ofList (rest.takeWhile (· != '='))
    match rest.dropWhile (· != '=') with
    | [] => option name none
    | _ :: value => option name (some (.ofList value))
  | '-' :: c :: _ => letters c
  | _ => plain

/-! ## Reading -/

/-- The words of one scope as far as they are read. -/
structure Draft where
  flags : List Flag
  color : Option ColorChoice
  config : Option String
  exclude : List String
  directory : Option String
  /-- An option that waits for its value. -/
  pending : Option Setting
  /-- Whether all that follows is no option. -/
  divided : Bool
  deriving DecidableEq

namespace Draft

def empty : Draft := ⟨[], none, none, [], none, none, false⟩

/-- Add a flag that is not yet there. -/
def addFlag (d : Draft) (flag : Flag) : Except UsageFault Draft :=
  if d.flags.contains flag then .error (.repeated flag.name)
  else .ok { d with flags := flag :: d.flags }

/-- Add a value; an option that takes one value must not have it yet. -/
def addValue (d : Draft) (setting : Setting) (value : String) : Except UsageFault Draft :=
  let d := { d with pending := none }
  match setting with
  | .exclude => .ok { d with exclude := d.exclude ++ [value] }
  | .color =>
    match d.color, ColorChoice.named? value with
    | some _, _ => .error (.repeated setting.name)
    | none, none => .error (.invalidValue setting.name value)
    | none, some color => .ok { d with color := some color }
  | .config =>
    if d.config.isSome then .error (.repeated setting.name)
    else if value = "" then .error (.invalidValue setting.name value)
    else .ok { d with config := some value }

/-- Add a word that is no option. -/
def addOperand (d : Draft) (scope : Scope) (word : String) : Except UsageFault Draft :=
  match scope with
  | .top => .error (.unknownCommand word)
  | .listChecks => .error (.unexpected word)
  | .check =>
    if d.directory.isSome then .error (.unexpected word)
    else if word = "" then .error (.invalidValue "the directory" word)
    else .ok { d with directory := some word }

/-- Add an option by its name. -/
def addOption (d : Draft) (scope : Scope) (name : String) (value : Option String) :
    Except Halt Draft :=
  match scope.options.lookup name, value with
  | none, _ => .error (.fault (.unknownOption ("--" ++ name)))
  | some (.setting setting), some value => (d.addValue setting value).mapError .fault
  | some (.setting setting), none => .ok { d with pending := some setting }
  | some _, some _ => .error (.fault (.needlessValue name))
  | some (.flag flag), none => (d.addFlag flag).mapError .fault
  | some .help, none => .error .help
  | some .version, none => .error .version

/-- Add a word. -/
def add (scope : Scope) (d : Draft) (word : String) : Except Halt Draft :=
  if d.divided then (d.addOperand scope word).mapError .fault
  else
    match Word.of word, d.pending with
    | .plain, some setting => (d.addValue setting word).mapError .fault
    | _, some setting => .error (.fault (.noValue setting.name))
    | .plain, none => (d.addOperand scope word).mapError .fault
    | .divider, none => .ok { d with divided := true }
    | .option name value, none => d.addOption scope name value
    | .letters c, none =>
      .error ((scope.letter? c).getD (.fault (.unknownOption word)))

/-- A draft that waits for nothing. -/
def settle (d : Draft) : Except Halt Draft :=
  match d.pending with
  | some setting => .error (.fault (.noValue setting.name))
  | none => .ok d

/-- All words of one scope. -/
def read (scope : Scope) (words : List String) : Except Halt Draft := do
  (← words.foldlM (add scope) empty).settle

end Draft

namespace Invocation

/-- The command of a scope. -/
def command? (scope : Scope) (inner : Draft) : Except UsageFault Command :=
  match scope, inner.directory with
  | .listChecks, _ => .ok .listChecks
  | .check, some directory => .ok (.check directory (inner.flags.contains .offline) inner.exclude)
  | .check, none => .error .noDirectory
  | .top, _ => .error .noCommand

/-- A command with the options before it and behind it. -/
def join (outer inner : Draft) (command : Command) : Invocation where
  command
  json := (outer.flags ++ inner.flags).contains .json
  debug := (outer.flags ++ inner.flags).contains .debug
  color := outer.color.or inner.color
  config := outer.config.or inner.config

/-- What words behind the word for help ask for. -/
def readHelp : List String → Halt
  | [] => .help
  | word :: rest =>
    match Scope.named? word, rest with
    | none, _ => if word = "help" then readHelp rest else .fault (.unknownCommand word)
    | some _, [] => .help
    | some _, other :: _ => .fault (.unknownCommand other)

/-- Read words up to the command, then those behind it. -/
def readFrom (outer : Draft) : List String → Except Halt Invocation
  | [] => do
    let _ ← outer.settle
    .error (.fault .noCommand)
  | word :: rest =>
    match outer.pending.isSome || outer.divided, Scope.named? word with
    | false, some scope => do
      let inner ← Draft.read scope rest
      let command ← (command? scope inner).mapError .fault
      pure (join outer inner command)
    | false, none =>
      if word = "help" then .error (readHelp rest)
      else do readFrom (← outer.add .top word) rest
    | true, _ => do readFrom (← outer.add .top word) rest

/-- What the words of a command line ask for. -/
def parse (words : List String) : Except Halt Invocation :=
  readFrom .empty words

/-! ## Settings -/

/-- The settings of one command alone. -/
def adjustFor : Command → Config → Config
  | .check _ offline exclude, c =>
    exclude.foldl Config.addExclude { c with offline := c.offline || offline }
  | .listChecks, c => c

/-- Settings with the options over them. -/
def adjust (i : Invocation) (c : Config) : Config :=
  adjustFor i.command
    { c with
      output := if i.json then .json else c.output
      color := i.color.getD c.color }

end Invocation

end PackageAudit
