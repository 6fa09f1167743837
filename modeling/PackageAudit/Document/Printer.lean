import PackageAudit.Binary64.Layout
import PackageAudit.Document.Value

/-!
# Document.Printer — compact JSON text

* `Json.quote` — a string in quotes, with the short escapes where there is one;
* `Number.text` — digits of an integer, or the shortest text of a double;
* `Value.render` — a tree without any blank; a number that JSON cannot spell is written as `null`.
-/

namespace PackageAudit

namespace Json

/-! ## Strings -/

/-- A digit of base sixteen, in lower case. -/
def hexDigit (n : Nat) : Char :=
  if n < 10 then Char.ofNat ('0'.toNat + n) else Char.ofNat ('a'.toNat + (n - 10))

/-- A character inside quotes: quotes, backslashes and control characters are escaped. -/
def escapeChar (c : Char) : List Char :=
  match c with
  | '"' => ['\\', '"']
  | '\\' => ['\\', '\\']
  | '\n' => ['\\', 'n']
  | '\r' => ['\\', 'r']
  | '\t' => ['\\', 't']
  | '\x08' => ['\\', 'b']
  | '\x0c' => ['\\', 'f']
  | c =>
    if c.toNat < 0x20 then
      ['\\', 'u', '0', '0', hexDigit (c.toNat / 16), hexDigit (c.toNat % 16)]
    else [c]

/-- The characters of a quoted string. -/
def quoteChars (cs : List Char) : List Char :=
  '"' :: (cs.flatMap escapeChar ++ ['"'])

/-- A string in quotes. -/
def quote (s : String) : String :=
  .ofList (quoteChars s.toList)

end Json

/-! ## Values -/

/-- The text of a number for messages. -/
def Number.text : Number → String
  | int n => toString n
  | float x => .ofList (x.text Binary64.plain)

/-- The JSON text of a number; infinities and NaN have none. -/
def Number.render : Number → String
  | float x => if x.isFinite then Number.text (float x) else "null"
  | n => n.text

namespace Value

mutual

/-- The compact JSON text of a tree. -/
def render : Value → String
  | null => "null"
  | bool b => if b then "true" else "false"
  | number n => n.render
  | string s => Json.quote s
  | array items => "[" ++ ",".intercalate (renderAll items) ++ "]"
  | object members _ => "\x7b" ++ ",".intercalate (renderMembers members) ++ "\x7d"

def renderAll : List Value → List String
  | [] => []
  | v :: vs => render v :: renderAll vs

def renderMembers : List (String × Value) → List String
  | [] => []
  | (k, v) :: ms => (Json.quote k ++ ":" ++ render v) :: renderMembers ms

end

end Value

end PackageAudit
