import PackageAudit.Document.Error

/-!
# Document.Yaml.Token — the dashes and contents of the lines of a YAML text

* `Yaml.Token` — a dash that starts a sequence entry, or the content of a line, with its place;
* `Yaml.lineTokens` — the tokens of one line, comments and blanks around them dropped;
* `Yaml.tokens` — the tokens of a text.

Lines and columns count from zero here; `Yaml.fail` makes the error that counts from one.
-/

namespace PackageAudit

namespace Yaml

inductive Lexeme where
  /-- The dash in front of a sequence entry. -/
  | dash
  /-- What is left of a line; never empty. -/
  | content (text : List Char)
  deriving DecidableEq

/-- A lexeme and where it stands. -/
structure Token where
  lexeme : Lexeme
  line : Nat
  column : Nat
  deriving DecidableEq

/-- A fault at a line and a column that count from zero. -/
def fail {α : Type} (fault : YamlFault) (line column : Nat) : Except YamlError α :=
  .error ⟨fault, line + 1, column + 1⟩

/-- A fault and the column of its line. -/
abbrev Column (α : Type) := Except (YamlFault × Nat) α

/-! ## Content -/

/-- What the characters of a line's content belong to. -/
inductive Mode where
  /-- A scalar may start here, and a quote would open one. -/
  | ready
  /-- Inside a plain scalar. -/
  | plain
  /-- Inside a quoted scalar that opened at a column. -/
  | quoted (column : Nat)

/--
The content that starts at `column`, up to a comment or the end, blanks at its end dropped. The
characters already passed are in `front`, last first. Tabs are allowed in quotes only, and quotes
have to be closed on their line.
-/
def readContent (mode : Mode) (front : List Char) (column : Nat) (cs : List Char) :
    Column (List Char) :=
  match mode, cs with
  | .quoted opened, [] => .error (.unterminatedString, opened)
  | .quoted opened, [c] =>
    if c = '"' then .ok (c :: front).reverse else .error (.unterminatedString, opened)
  | .quoted opened, c :: d :: rest =>
    if c = '\\' then readContent (.quoted opened) (d :: c :: front) (column + 2) rest
    else
      readContent (if c = '"' then .plain else .quoted opened) (c :: front) (column + 1) (d :: rest)
  | _, [] => .ok (front.dropWhile (· == ' ')).reverse
  | mode, c :: rest =>
    if c = '#' ∧ front.head? = some ' ' then .ok (front.dropWhile (· == ' ')).reverse
    else if c = '\t' then .error (.tab, column)
    else
      let next : Mode :=
        match c, mode with
        | '"', .ready => .quoted column
        | ':', _ => if rest.head?.all (· == ' ') then .ready else .plain
        | ' ', mode => mode
        | _, _ => .plain
      readContent next (c :: front) (column + 1) rest
  termination_by cs.length

/-! ## Lines -/

/-- Whether an indicator that needs a blank behind it has one, or the end of the line. -/
def isApart (rest : List Char) : Bool :=
  rest.head?.all fun c => c == ' ' || c == '\t'

/-- Whether a line is a marker between documents. -/
def isMarker : List Char → Bool
  | '-' :: '-' :: '-' :: rest => isApart rest
  | '.' :: '.' :: '.' :: rest => isApart rest
  | _ => false

/--
The tokens of a line from its first character that is no blank, behind those in `found`. A dash
counts as one only when a blank or nothing follows.
-/
def readLine (line : Nat) (found : List Token) (column : Nat) (cs : List Char) :
    Column (List Token) :=
  match cs with
  | '-' :: rest =>
    if isApart rest then
      let found := ⟨.dash, line, column⟩ :: found
      have : (rest.dropWhile (· == ' ')).length ≤ rest.length :=
        (List.dropWhile_sublist _).length_le
      let next := rest.dropWhile (· == ' ')
      let column := column + 1 + (rest.length - next.length)
      match next.head? with
      | none | some '#' => .ok found
      | some '\t' => .error (.tab, column)
      | some _ => readLine line found column next
    else (readContent .ready [] column cs).map fun text => ⟨.content text, line, column⟩ :: found
  | cs => (readContent .ready [] column cs).map fun text => ⟨.content text, line, column⟩ :: found
  termination_by cs.length

/-- The tokens of a line in front of those in `found`, last first. -/
def lineTokens (line : Nat) (found : List Token) (cs : List Char) : Except YamlError (List Token) :=
  let margin := cs.takeWhile fun c => c == ' ' || c == '\t'
  let body := cs.drop margin.length
  match body.head? with
  | none | some '#' => .ok found
  | some first =>
    match margin.idxOf? '\t' with
    | some column => fail .tab line column
    | none =>
      if margin.isEmpty && isMarker body then fail .documentMarker line 0
      else if margin.isEmpty && first == '%' then fail .directive line 0
      else
        match readLine line found margin.length body with
        | .ok tokens => .ok tokens
        | .error (fault, column) => fail fault line column

/-! ## Texts -/

/-- The lines of a text without the marks between them; a carriage return may end a line. -/
def lines (cs : List Char) : List (List Char) :=
  (cs.splitOn '\n').map fun line => if line.getLast? = some '\r' then line.dropLast else line

/-- The tokens of the lines from number `line` on, in front of those in `found`, last first. -/
def tokensFrom (line : Nat) (found : List Token) : List (List Char) → Except YamlError (List Token)
  | [] => .ok found
  | cs :: rest =>
    match lineTokens line found cs with
    | .ok found => tokensFrom (line + 1) found rest
    | .error e => .error e

/-- The tokens of a text, in order. -/
def tokens (cs : List Char) : Except YamlError (List Token) :=
  (tokensFrom 0 [] (lines cs)).map List.reverse

end Yaml

end PackageAudit
