import PackageAudit.Document.Json.Options
import PackageAudit.Document.Node
import PackageAudit.Document.Yaml.Scalar

/-!
# Document.Yaml.Reader — the reader of a small part of YAML

Block mappings and sequences, scalars on one line, and the empty flow collections. Everything else
is refused, so that no fuller reader could see another tree in an accepted text.

* `Yaml.readNode` — the node at the head of the tokens, with what follows it;
* `Yaml.read` — the document of a text;
* `Yaml.parse` — the document of a text that has to be valid UTF-8.
-/

namespace PackageAudit

namespace Yaml

/-! ## Entries of mappings -/

/-- A key, and the text of its value on the same line with the column of that text. -/
structure Entry where
  key : String
  value : Option (List Char × Nat)

/-- What stands behind the colon of an entry at `column`. -/
def entryValue? (column : Nat) (rest : List Char) : Option (List Char × Nat) :=
  let value := rest.dropWhile (· == ' ')
  if value.isEmpty then none else some (value, column + (rest.length - value.length))

/-- The entry whose key is in quotes, if a colon follows the key. -/
def quotedEntry? (column : Nat) (cs quoted : List Char) : Column (Option Entry) := do
  let (key, behind) ← readQuoted column quoted
  match behind.dropWhile (· == ' ') with
  | ':' :: rest =>
    if rest.head?.all (· == ' ') then
      pure (some ⟨key, entryValue? (column + (cs.length - rest.length)) rest⟩)
    else pure none
  | _ => pure none

/-- The entry that a content at `column` is, if it is one. -/
def splitEntry (column : Nat) (cs : List Char) : Column (Option Entry) :=
  match cs with
  | '"' :: quoted => quotedEntry? column cs quoted
  | cs =>
    if cs.head? = some '?' ∧ cs.tail.head?.all (· == ' ') then .error (.complexKey, column)
    else
      match splitColon? cs with
      | none => .ok none
      | some (before, rest) =>
        let key := (before.reverse.dropWhile (· == ' ')).reverse
        if key.isEmpty then .error (.expectedKey, column)
        else
          match indicatorFault? cs with
          | some fault => .error (fault, column)
          | none =>
            .ok (some ⟨.ofList key, entryValue? (column + (cs.length - rest.length)) rest⟩)

/-- Place a fault of a content on its line. -/
def onLine {α : Type} (line : Nat) : Column α → Except YamlError α
  | .ok a => .ok a
  | .error (fault, column) => fail fault line column

/-! ## Blocks -/

/--
What follows a node must not stand deeper than the block at `indent`: the node is complete by its
own form.
-/
def checkDedent (indent : Nat) : List Token → Except YamlError Unit
  | [] => .ok ()
  | next :: _ =>
    if indent < next.column then
      match next.lexeme with
      | .dash => fail .unexpectedIndentation next.line next.column
      | .content text =>
        match splitEntry next.column text with
        | .ok none => fail .multiLineScalar next.line next.column
        | _ => fail .unexpectedIndentation next.line next.column
    else .ok ()

/-- Whether a token is a dash at a column. -/
def isDashAt (column : Nat) (token : Token) : Bool :=
  token.column == column && token.lexeme == .dash

mutual

/-- The node whose first token is `first`, `depth` being the number of collections around it. -/
def readNode (depth : Nat) (first : Token) (rest : List Token) :
    Except YamlError (Reading (first :: rest) Value) :=
  match first.lexeme with
  | .dash =>
    if Json.maxDepth ≤ depth then fail (.tooDeep Json.maxDepth) first.line first.column
    else readItems (depth + 1) first.column (first :: rest) [] rest (by simp)
  | .content text =>
    match onLine first.line (splitEntry first.column text) with
    | .error e => .error e
    | .ok none =>
      match onLine first.line (scalar first.column text) with
      | .ok value => .ok ⟨value, rest, by simp⟩
      | .error e => .error e
    | .ok (some entry) =>
      if Json.maxDepth ≤ depth then fail (.tooDeep Json.maxDepth) first.line first.column
      else readMembers (depth + 1) first.column (first :: rest) [] first entry rest (by simp)
  termination_by 3 * rest.length + 3

/-- The node at the head of `s` if its first token belongs to it, else null. -/
def readBlock (depth : Nat) (belongs : Token → Bool) (s : List Token) :
    Except YamlError (OptionalReading s Value) :=
  match s with
  | [] => .ok ⟨.null, [], by simp⟩
  | first :: rest =>
    if belongs first then (readNode depth first rest).map Reading.toOptional
    else .ok ⟨.null, first :: rest, by simp⟩
  termination_by 3 * s.length + 1

/--
The entries of a sequence at column `indent` that began at `start`. The entries already read are
in `items`, last first, and `s` follows the dash of the next one.
-/
def readItems (depth indent : Nat) (start : List Token) (items : List Value) (s : List Token)
    (h : s.length < start.length) : Except YamlError (Reading start Value) :=
  match readBlock depth (fun t => indent < t.column) s with
  | .error e => .error e
  | .ok item =>
    have hitem := item.notLonger
    let items := item.value :: items
    match checkDedent indent item.rest, hrest : item.rest with
    | .error e, _ => .error e
    | .ok (), [] => .ok ⟨.array items.reverse, [], by simp only [List.length_nil]; omega⟩
    | .ok (), next :: more =>
      if isDashAt indent next then
        have : more.length < item.rest.length := by simp [hrest]
        readItems depth indent start items more (by omega)
      else .ok ⟨.array items.reverse, next :: more, by rw [← hrest]; omega⟩
  termination_by 3 * s.length + 2

/--
The entries of a mapping at column `indent` that began at `start`. The members already read are in
`members`, last first; the next entry is `entry`, whose token `s` follows. A sequence may stand at
the column of the key it belongs to.
-/
def readMembers (depth indent : Nat) (start : List Token) (members : List (String × Value))
    (token : Token) (entry : Entry) (s : List Token) (h : s.length < start.length) :
    Except YamlError (Reading start Value) :=
  if members.any fun member => member.1 == entry.key then
    fail (.duplicateKey entry.key) token.line token.column
  else
    let value : Except YamlError (OptionalReading s Value) :=
      match entry.value with
      | some (text, column) =>
        (onLine token.line (scalar column text)).map fun value => ⟨value, s, Nat.le_refl _⟩
      | none => readBlock depth (fun t => indent < t.column || isDashAt indent t) s
    match value with
    | .error e => .error e
    | .ok member =>
      have hmember := member.notLonger
      let members := (entry.key, member.value) :: members
      match checkDedent indent member.rest, hrest : member.rest with
      | .error e, _ => .error e
      | .ok (), [] => .ok ⟨.object members.reverse [], [], by simp only [List.length_nil]; omega⟩
      | .ok (), next :: more =>
        if next.column < indent then
          .ok ⟨.object members.reverse [], next :: more, by rw [← hrest]; omega⟩
        else
          match next.lexeme with
          | .dash => fail .unexpectedSequenceEntry next.line next.column
          | .content text =>
            match onLine next.line (splitEntry next.column text) with
            | .error e => .error e
            | .ok none => fail .expectedKey next.line next.column
            | .ok (some entry) =>
              have : more.length < member.rest.length := by simp [hrest]
              readMembers depth indent start members next entry more (by omega)
  termination_by 3 * s.length + 2

end

/-! ## Texts -/

/-- The tree of a text. -/
def readText (cs : List Char) : Except YamlError Value := do
  match ← tokens cs with
  | [] => pure .null
  | first :: rest =>
    let root ← readNode 0 first rest
    checkDedent first.column root.rest
    match root.rest with
    | [] => pure root.value
    | extra :: _ => fail .trailingContent extra.line extra.column

/-- A text without a byte order mark in front. -/
def dropMark : List Char → List Char
  | '\uFEFF' :: rest => rest
  | cs => cs

/-- The place behind a text. -/
def invalidUtf8 (front : List Char) : YamlError :=
  ⟨.invalidUtf8, front.count '\n' + 1, (front.reverse.takeWhile (· != '\n')).length + 1⟩

/--
The document of a text. Bytes that are no UTF-8 are an error, or read as U+FFFD where they are
allowed.
-/
def read (allowInvalidUtf8 : Bool) (s : Bytes) : Except YamlError Document :=
  match Utf8.split s with
  | (front, _ :: _) =>
    if allowInvalidUtf8 then (readText (dropMark (Utf8.decodeLossy s))).map Document.mk
    else .error (invalidUtf8 front)
  | (text, []) => (readText (dropMark text)).map Document.mk

/-- The document of a text that is valid UTF-8. -/
def parse (s : Bytes) : Except YamlError Document :=
  read false s

end Yaml

end PackageAudit
