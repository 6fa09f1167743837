import PackageAudit.Document.Reading
import PackageAudit.Text.Utf8

/-!
# Toml.Text — strings of a settings file

Strings in double quotes have escape sequences, strings in single quotes have none. Three quotes
start a string that may go over several lines.

* `Toml.readShort` — a string on one line;
* `Toml.readLong` — a string between three quotes;
* `Toml.readString` — either.
-/

namespace PackageAudit

namespace Toml

/-- Characters that may stand in strings and comments. -/
def isText (c : Char) : Bool :=
  c == '\t' || (0x20 ≤ c.toNat && c.toNat != 0x7F)

def isBlank (c : Char) : Bool :=
  c == ' ' || c == '\t'

/-! ## Escape sequences -/

/-- The value of a digit of base sixteen. -/
def hexValue? (c : Char) : Option Nat :=
  if c.isDigit then some (c.toNat - '0'.toNat)
  else if 'a' ≤ c.toLower ∧ c.toLower ≤ 'f' then some (c.toLower.toNat - 'a'.toNat + 10)
  else none

/-- The character with a number of exactly `count` digits at the head of `s`. -/
def readNumbered (count : Nat) (s : List Char) : Option Char := do
  let digits ← (s.take count).mapM hexValue?
  if digits.length = count then Utf8.scalar? (digits.foldl (fun n d => 16 * n + d) 0) else none

/-- The character of an escape sequence, behind its backslash. -/
def readEscape (s : List Char) : Option (Reading s Char) :=
  match s with
  | 'b' :: _ => some (.head '\x08')
  | 't' :: _ => some (.head '\t')
  | 'n' :: _ => some (.head '\n')
  | 'f' :: _ => some (.head '\x0c')
  | 'r' :: _ => some (.head '\r')
  | '"' :: _ => some (.head '"')
  | '\\' :: _ => some (.head '\\')
  | 'u' :: rest => (readNumbered 4 rest).map (.headAnd 4)
  | 'U' :: rest => (readNumbered 8 rest).map (.headAnd 8)
  | _ => none

/-! ## Strings on one line -/

/-- The rest of a string on one line, what is read of it in `found`, last character first. -/
def readShortFrom (quote : Char) (found : List Char) (s : List Char) :
    Option (Reading s (List Char)) :=
  match s with
  | [] => none
  | c :: rest =>
    if c = quote then some (.head found.reverse)
    else if c = '\\' ∧ quote = '"' then
      match readEscape rest with
      | some e =>
        have := e.shorter
        (readShortFrom quote (e.value :: found) e.rest).map fun r => (e.next r).behind
      | none => none
    else if isText c then (readShortFrom quote (c :: found) rest).map (·.behind)
    else none
  termination_by s.length

/-- The string on one line behind an opening quote. -/
def readShort (quote : Char) (s : List Char) : Option (Reading s (List Char)) :=
  readShortFrom quote [] s

/-! ## Strings over several lines -/

/-- What follows the blanks and line ends at the head of `s`. -/
def dropLines : List Char → List Char
  | '\r' :: '\n' :: rest => dropLines rest
  | c :: rest => if isBlank c ∨ c = '\n' then dropLines rest else c :: rest
  | [] => []

theorem length_dropLines_le (s : List Char) : (dropLines s).length ≤ s.length := by
  fun_induction dropLines s <;> grind

/-- Whether a line ends behind blanks. -/
def endsLine (s : List Char) : Bool :=
  match s.dropWhile isBlank with
  | '\n' :: _ => true
  | '\r' :: '\n' :: _ => true
  | _ => false

/-- The number of quotes at the head of `s`, of which no more than five belong to one string. -/
def quotesAt (quote : Char) (s : List Char) : Nat :=
  min 5 (s.takeWhile (· == quote)).length

/--
The rest of a string between three quotes, what is read of it in `found`, last character first. Up
to two quotes may stand in front of the closing ones. A backslash at the end of a line joins it to
the next text.
-/
def readLongFrom (quote : Char) (found : List Char) (s : List Char) :
    Option (Reading s (List Char)) :=
  match s with
  | [] => none
  | c :: rest =>
    if c = quote then
      let quotes := quotesAt quote (c :: rest)
      if 3 ≤ quotes then
        some (.headAnd (quotes - 1) (List.replicate (quotes - 3) quote ++ found).reverse)
      else (readLongFrom quote (c :: found) rest).map (·.behind)
    else if c = '\\' ∧ quote = '"' then
      if endsLine rest then
        have h := length_dropLines_le rest
        (readLongFrom quote found (dropLines rest)).map fun r => (r.widen h).behind
      else
        match readEscape rest with
        | some e =>
          have := e.shorter
          (readLongFrom quote (e.value :: found) e.rest).map fun r => (e.next r).behind
        | none => none
    else if c = '\n' ∨ isText c then
      (readLongFrom quote (c :: found) rest).map (·.behind)
    else if c = '\r' ∧ rest.head? = some '\n' then
      (readLongFrom quote found rest).map (·.behind)
    else none
  termination_by s.length
  decreasing_by all_goals grind [length_dropLines_le]

/-- A line end right behind the opening quotes does not count. -/
def dropLineEnd : List Char → List Char
  | '\n' :: rest => rest
  | '\r' :: '\n' :: rest => rest
  | s => s

theorem length_dropLineEnd_le (s : List Char) : (dropLineEnd s).length ≤ s.length := by
  unfold dropLineEnd
  split <;> grind

/-- The string behind three opening quotes. -/
def readLong (quote : Char) (s : List Char) : Option (Reading s (List Char)) :=
  (readLongFrom quote [] (dropLineEnd s)).map (·.widen (length_dropLineEnd_le s))

/-! ## Strings -/

/-- The string that starts with the quote at the head of `s`. -/
def readString (s : List Char) : Option (Reading s String) :=
  match s with
  | [] => none
  | quote :: rest =>
    if quote = '"' ∨ quote = '\'' then
      if rest.take 2 = [quote, quote] then
        (readLong quote (rest.drop 2)).map fun r =>
          ((r.map String.ofList).widen (List.drop_sublist 2 rest).length_le).behind
      else (readShort quote rest).map fun r => (r.map String.ofList).behind
    else none

end Toml

end PackageAudit
