import PackageAudit.Document.Path
import PackageAudit.Text.Quoted

/-!
# Document.Error — why a text is no document, and what a document lacks

* `JsonError` — a rule of the JSON reader, the path of the value that was being read, and a byte
  offset;
* `YamlError` — a rule of the YAML reader, with line and column counted from one;
* `DocumentError` — either, or a value of another kind than was asked for.
-/

namespace PackageAudit

/-! ## JSON -/

/-- What the JSON reader refuses. -/
inductive JsonFault where
  | unexpectedEnd
  | unexpected (found expected : String)
  | trailingContent
  | leadingZero
  | malformedNumber (literal : String)
  | controlCharacter (code : Nat)
  | invalidEscape (sequence : String)
  | invalidUnicode (detail : String)
  | duplicateKey (key : String)
  | byteOrderMark
  | tooDeep (limit : Nat)
  deriving DecidableEq

/-- A number in base sixteen with at least `width` digits. -/
def hexNumber (width n : Nat) : String :=
  let digits := Nat.toDigits 16 n
  .ofList (List.replicate (width - digits.length) '0' ++ digits)

def JsonFault.message : JsonFault → String
  | unexpectedEnd => "unexpected end of input"
  | unexpected found expected => s!"unexpected {found}, expected {expected}"
  | trailingContent => "unexpected content after the top-level value"
  | leadingZero => "number has a leading zero"
  | malformedNumber literal => s!"malformed number: {literal}"
  | controlCharacter code =>
    "literal control character U+" ++ (hexNumber 4 code).toUpper ++ " in string"
  | invalidEscape sequence => s!"invalid escape sequence {sequence}"
  | invalidUnicode detail => s!"invalid Unicode: {detail}"
  | duplicateKey key => "duplicate key " ++ Quoted.text key
  | byteOrderMark => "byte order mark is not allowed"
  | tooDeep limit => s!"nesting exceeds {limit} levels"

/-- A fault with its place: the path of the value being read, and the offset of a byte. -/
structure JsonError where
  fault : JsonFault
  path : List Key
  offset : Nat
  deriving DecidableEq

def JsonError.message (e : JsonError) : String :=
  s!"{formatPath e.path}: {e.fault.message} (at byte {e.offset})"

/-! ## YAML -/

/-- What the YAML reader refuses. -/
inductive YamlFault where
  | invalidUtf8
  | tab
  | blockScalar
  | anchor
  | reference
  | tag
  | singleQuoted
  | flowCollection
  | complexKey
  | directive
  | documentMarker
  | reservedIndicator (indicator : Char)
  | ambiguousLiteral (literal : String)
  | duplicateKey (key : String)
  | mappingValueNotAllowed
  | expectedKey
  | unexpectedSequenceEntry
  | unexpectedIndentation
  | multiLineScalar
  | unterminatedString
  | invalidEscape (sequence : String)
  | trailingContent
  | tooDeep (limit : Nat)
  deriving DecidableEq

def YamlFault.message : YamlFault → String
  | invalidUtf8 => "invalid UTF-8 sequence"
  | tab => "tab characters are only allowed inside double-quoted scalars"
  | blockScalar => "block scalars are not supported"
  | anchor => "anchors are not supported"
  | reference => "aliases are not supported"
  | tag => "tags are not supported"
  | singleQuoted => "single-quoted scalars are not supported"
  | flowCollection => "flow collections other than [] and \x7b\x7d are not supported"
  | complexKey => "complex mapping keys are not supported"
  | directive => "directives are not supported"
  | documentMarker => "document markers are not supported"
  | reservedIndicator indicator =>
    "reserved indicator " ++ Quoted.char indicator ++ " cannot start a plain scalar"
  | ambiguousLiteral literal => "literal " ++ Quoted.text literal ++ " has ambiguous capitalization"
  | duplicateKey key => "duplicate key " ++ Quoted.text key
  | mappingValueNotAllowed => "mapping values are not allowed in this context"
  | expectedKey => "expected a mapping key"
  | unexpectedSequenceEntry => "sequence entry not allowed here"
  | unexpectedIndentation => "unexpected indentation"
  | multiLineScalar => "multi-line plain scalars are not supported"
  | unterminatedString => "unterminated double-quoted scalar"
  | invalidEscape sequence => s!"invalid escape sequence {sequence}"
  | trailingContent => "unexpected content after scalar"
  | tooDeep limit => s!"nesting deeper than {limit} levels"

/-- A fault with its place; line and column count from one. -/
structure YamlError where
  fault : YamlFault
  line : Nat
  column : Nat
  deriving DecidableEq

def YamlError.message (e : YamlError) : String :=
  s!"line {e.line}, column {e.column}: {e.fault.message}"

/-! ## Documents -/

/-- Why a document cannot be read, or a value of it not be used. -/
inductive DocumentError where
  | json (error : JsonError)
  | yaml (error : YamlError)
  | typeMismatch (path expected actual : String)
  deriving DecidableEq

def DocumentError.message : DocumentError → String
  | json e => e.message
  | yaml e => e.message
  | typeMismatch path expected actual => s!"{path}: expected {expected}, found {actual}"

end PackageAudit
