import PackageAudit.Audit.Report
import PackageAudit.Config.Location
import PackageAudit.Document.Indented
import PackageAudit.Rules.Registry

/-!
# CommandLine.Display — what is shown to the user

* `Outcome.colored` — the word of an outcome in its colour;
* `Report.display` — a report in the chosen format;
* `Rules.display` — the list of all rules.

Only the word that starts the line of a rule is coloured.
-/

namespace PackageAudit

/-! ## Colours -/

/-- What a terminal is told before the word of an outcome. -/
def Outcome.colorCode : Outcome → String
  | pass => "\x1b[32m"
  | fail => "\x1b[31m\x1b[1m"
  | skip => "\x1b[33m"

/-- The word of an outcome in its colour. -/
def Outcome.colored (o : Outcome) : String :=
  o.colorCode ++ o.word ++ "\x1b[0m"

namespace Display

/-- A line with the word of the outcome in colour if it starts with that word and a blank. -/
def colorWord (line : List Char) (o : Outcome) : Option (List Char) :=
  let word := o.word.toList
  if (word ++ [' ']).isPrefixOf line then some (o.colored.toList ++ line.drop word.length) else none

/-- A line with the word of an outcome in colour. -/
def colorLine (line : List Char) : List Char :=
  ([Outcome.pass, .fail, .skip].findSome? (colorWord line)).getD line

/-- A line without the carriage return at its end. -/
def dropReturn (line : List Char) : List Char :=
  if line.getLast? = some '\r' then line.dropLast else line

/-- The lines of a text in which every line has an end. -/
def linesOf (text : List Char) : List (List Char) :=
  (text.splitOn '\n').dropLast.map dropReturn

/-- A text in which every line has an end, with the words of outcomes in colour. -/
def color (text : String) : String :=
  .ofList ((linesOf text.toList).flatMap fun line => colorLine line ++ ['\n'])

end Display

/-- How something is shown: as JSON or as text, and with colours or without. -/
structure Display where
  format : OutputFormat
  colored : Bool
  deriving DecidableEq

namespace Display

/-- The variables that tell what a terminal can show and its user wants to see. -/
def variableNames : List String :=
  ["NO_COLOR", "TERM", "CLICOLOR", "CLICOLOR_FORCE"]

/-- Whether a terminal shows colours and its user wants them. -/
def wantsColor (e : Environment) : Bool :=
  (e.lookup "NO_COLOR").isNone && (e.lookup "TERM").any (· != "dumb") &&
    (e.lookup "CLICOLOR" != some "0" || (e.lookup "CLICOLOR_FORCE").any (· != "0"))

/-- The display that settings ask for; unless they decide, only a terminal has colours. -/
def ofConfig (c : Config) (e : Environment) (terminal : Bool) : Display where
  format := c.output
  colored :=
    match c.color with
    | .always => true
    | .never => false
    | .auto => terminal && wantsColor e

end Display

/-! ## Reports and rules -/

/-- A report in the chosen format, every line ended. -/
def Report.display (r : Report) (d : Display) : String :=
  match d.format with
  | .json => r.value.renderIndented ++ "\n"
  | .text => if d.colored then Display.color r.render else r.render

namespace Rules

/-- Every rule with the name of its checker. -/
def listing : List (String × String) :=
  checkers.flatMap fun c => c.checks.map fun check => (check.text, c.name)

/-- The list of all rules in the chosen format, every line ended. -/
def display (d : Display) : String :=
  match d.format with
  | .json =>
    (Value.array (listing.map fun (check, checker) =>
      Report.record [("check", check), ("checker", checker)])).renderIndented ++ "\n"
  | .text => String.join (listing.map fun (check, checker) => check ++ "  " ++ checker ++ "\n")

end Rules

end PackageAudit
