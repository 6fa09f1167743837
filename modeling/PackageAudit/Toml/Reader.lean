import PackageAudit.Toml.Scalar
import PackageAudit.Toml.Text

/-!
# Toml.Reader — reading a settings file

* `Toml.readKey` — a key, of one or more parts;
* `Toml.readValue` — a value, in at most `maxDepth` arrays and tables;
* `Toml.parse` — the table that a whole text stands for.
-/

namespace PackageAudit

namespace Toml

/-- How deep arrays and tables may lie in each other. -/
def maxDepth : Nat := 80

/-! ## Between the parts -/

/-- What follows the blanks at the head of `s`. -/
def dropBlanks (s : List Char) : List Char :=
  s.dropWhile isBlank

theorem length_dropBlanks_le (s : List Char) : (dropBlanks s).length ≤ s.length :=
  (List.dropWhile_sublist _).length_le

/-- What follows the blanks and a comment at the head of `s`, up to the end of the line. -/
def dropComment (s : List Char) : List Char :=
  match dropBlanks s with
  | '#' :: rest => rest.dropWhile isText
  | rest => rest

theorem length_dropComment_le (s : List Char) : (dropComment s).length ≤ s.length := by
  have := length_dropBlanks_le s
  unfold dropComment
  split
  · next rest h =>
    have := (List.dropWhile_sublist isText (l := rest)).length_le
    grind
  · exact this

/-- What follows the end of a line. -/
def afterLineEnd? : List Char → Option (List Char)
  | '\n' :: rest => some rest
  | '\r' :: '\n' :: rest => some rest
  | _ => none

theorem length_of_afterLineEnd? {s r : List Char} (h : afterLineEnd? s = some r) :
    r.length < s.length := by
  unfold afterLineEnd? at h
  grind

/-- What follows blanks, comments and line ends. -/
def dropGaps (s : List Char) : List Char :=
  match h : afterLineEnd? (dropComment s) with
  | some rest =>
    have := length_of_afterLineEnd? h
    have := length_dropComment_le s
    dropGaps rest
  | none => dropComment s
  termination_by s.length

theorem length_dropGaps_le (s : List Char) : (dropGaps s).length ≤ s.length := by
  fun_induction dropGaps s with
  | case1 s rest h h₁ h₂ ih => omega
  | case2 s h => exact length_dropComment_le s

/-! ## Keys -/

/-- Characters of keys without quotes. -/
def isKeyChar (c : Char) : Bool :=
  c.isAlphanum || c == '_' || c == '-'

/-- A part of a key. -/
def readKeyPart (s : List Char) : Option (Reading s String) :=
  match s with
  | [] => none
  | c :: rest =>
    if c = '"' ∨ c = '\'' then (readShort c rest).map fun r => (r.map String.ofList).behind
    else if isKeyChar c then
      some ⟨.ofList (c :: rest.takeWhile isKeyChar), rest.dropWhile isKeyChar,
        Nat.lt_succ_of_le (List.dropWhile_sublist isKeyChar).length_le⟩
    else none

/-- A key: parts with points between them. -/
def readKey (s : List Char) : Option (Reading s (List String)) :=
  match readKeyPart s with
  | none => none
  | some part =>
    have := part.shorter
    match h : dropBlanks part.rest with
    | '.' :: more =>
      have h₁ := length_dropBlanks_le part.rest
      have h₂ := length_dropBlanks_le more
      have h₃ : (dropBlanks more).length < s.length := by simp [h] at h₁; omega
      (readKey (dropBlanks more)).map fun r => (r.map (part.value :: ·)).widen (Nat.le_of_lt h₃)
    | _ => some ⟨[part.value], part.rest, part.shorter⟩
  termination_by s.length

/-- What follows the sign between a key and its value. -/
def afterEquals? (s : List Char) : Option (List Char) :=
  match dropBlanks s with
  | '=' :: rest => some (dropBlanks rest)
  | _ => none

theorem length_of_afterEquals? {s r : List Char} (h : afterEquals? s = some r) :
    r.length < s.length := by
  have := length_dropBlanks_le s
  unfold afterEquals? at h
  split at h
  · next rest hs =>
    have := length_dropBlanks_le rest
    grind
  · simp at h

/-! ## Values -/

/-- Characters of numbers, dates and truth values. -/
def isWordChar (c : Char) : Bool :=
  c.isAlphanum || c == '_' || c == '+' || c == '-' || c == '.' || c == ':'

/-- The word at the head of `s`; a date and a time may have a blank between them. -/
def word (s : List Char) : List Char :=
  let first := s.takeWhile isWordChar
  if isDate first then
    match s.drop first.length with
    | ' ' :: rest =>
      match rest.takeWhile isWordChar with
      | [] => first
      | second => if second.head?.any Char.isDigit then first ++ ' ' :: second else first
    | _ => first
  else first

/-- The value that a word at the head of `s` spells. -/
def readWord (s : List Char) : Option (Reading s Toml) :=
  let w := word s
  if h : 0 < w.length ∧ 0 < s.length then
    (scalar? w).map fun value => ⟨value, s.drop w.length, by simp; omega⟩
  else none

mutual

/-- The value at the head of `s`. -/
def readValue (depth : Nat) (s : List Char) : Option (Reading s Toml) :=
  match s, depth with
  | '[' :: rest, depth + 1 =>
    (readItems depth [] rest).map (·.widen (by simp))
  | '[' :: _, 0 => none
  | '\x7b' :: rest, depth + 1 =>
    match h : dropBlanks rest with
    | '\x7d' :: rest' =>
      have := length_dropBlanks_le rest
      some ⟨.table .braces [], rest', by simp [h] at this; simp; omega⟩
    | _ => (readFields depth [] rest).map (·.widen (by simp))
  | '\x7b' :: _, 0 => none
  | s, _ =>
    if s.head? = some '"' ∨ s.head? = some '\'' then (readString s).map (·.map Toml.string)
    else readWord s
  termination_by (depth, 2 * s.length)

/-- The rest of an array, what is read of it in `found`, last item first. -/
def readItems (depth : Nat) (found : List Toml) (s : List Char) : Option (Reading s Toml) :=
  have h₀ := length_dropGaps_le s
  match hs : dropGaps s with
  | ']' :: rest => some ⟨.array false found.reverse, rest, by simp [hs] at h₀; omega⟩
  | start =>
    have h₁ : start.length ≤ s.length := by rw [← hs]; exact h₀
    match readValue depth start with
    | none => none
    | some item =>
      have := item.shorter
      have h₂ := length_dropGaps_le item.rest
      match hr : dropGaps item.rest with
      | ',' :: rest =>
        have h₃ : rest.length < s.length := by simp [hr] at h₂; omega
        (readItems depth (item.value :: found) rest).map (·.widen (Nat.le_of_lt h₃))
      | ']' :: rest =>
        some ⟨.array false (item.value :: found).reverse, rest, by simp [hr] at h₂; omega⟩
      | _ => none
  termination_by (depth, 2 * s.length + 1)

/-- The rest of a table between braces that has a member, what is read of it in `found`. -/
def readFields (depth : Nat) (found : TomlTable) (s : List Char) : Option (Reading s Toml) :=
  have h₀ := length_dropBlanks_le s
  match readKey (dropBlanks s) with
  | none => none
  | some key =>
    have h₁ := key.shorter
    match he : afterEquals? key.rest with
    | none => none
    | some start =>
      have h₂ := length_of_afterEquals? he
      match readValue depth start with
      | none => none
      | some item =>
        have h₃ := item.shorter
        have h₄ := length_dropBlanks_le item.rest
        match TomlTable.put item.value found key.value with
        | none => none
        | some found =>
          match hr : dropBlanks item.rest with
          | ',' :: rest =>
            have h₅ : rest.length < s.length := by simp [hr] at h₄; omega
            (readFields depth found rest).map (·.widen (Nat.le_of_lt h₅))
          | '\x7d' :: rest =>
            some ⟨.table .braces found, rest, by simp [hr] at h₄; omega⟩
          | _ => none
  termination_by (depth, 2 * s.length + 1)

end

/-! ## Lines -/

/-- A text under construction: the table of it all, and the keys of the last header. -/
structure Draft where
  root : TomlTable
  here : List String

/-- The keys between the brackets of a header; `brackets` close it. -/
def readHeader (brackets : List Char) (s : List Char) : Option (Reading s (List String)) :=
  have h₀ := length_dropBlanks_le s
  match readKey (dropBlanks s) with
  | none => none
  | some key =>
    let rest := dropBlanks key.rest
    if brackets.isPrefixOf rest then
      some ⟨key.value, rest.drop brackets.length, by
        have := key.shorter
        have := length_dropBlanks_le key.rest
        simp [rest]; omega⟩
    else none

/-- Start what a header names. -/
def Draft.start (d : Draft) (start : String → TomlTable → Option TomlTable) (keys : List String) :
    Option Draft := do
  let last ← keys.getLast?
  let root ← TomlTable.changeAt (start last) keys.dropLast d.root
  pure ⟨root, keys⟩

/-- Put a value into the table of the last header. -/
def Draft.put (d : Draft) (keys : List String) (value : Toml) : Option Draft := do
  let root ← TomlTable.changeAt (fun t => TomlTable.put value t keys) d.here d.root
  pure ⟨root, d.here⟩

/-- One header, or one key with its value. -/
def readExpression (d : Draft) (s : List Char) : Option (Reading s Draft) :=
  match s with
  | '[' :: '[' :: rest => do
    let r ← readHeader [']', ']'] rest
    let d ← d.start TomlTable.openElement r.value
    pure ⟨d, r.rest, by have := r.shorter; simp; omega⟩
  | '[' :: rest => do
    let r ← readHeader [']'] rest
    let d ← d.start TomlTable.openTable r.value
    pure ⟨d, r.rest, by have := r.shorter; simp; omega⟩
  | s => do
    let key ← readKey s
    match h : afterEquals? key.rest with
    | none => none
    | some start =>
      let item ← readValue maxDepth start
      let d ← d.put key.value item.value
      pure ⟨d, item.rest, by
        have := key.shorter
        have := length_of_afterEquals? h
        have := item.shorter
        omega⟩

/-- The headers, keys and values of the lines of `s`. -/
def readLines (d : Draft) (s : List Char) : Option TomlTable :=
  have h₀ := length_dropGaps_le s
  match hs : dropGaps s with
  | [] => some d.root
  | c :: rest =>
    match readExpression d (c :: rest) with
    | none => none
    | some r =>
      have h₁ : r.rest.length < s.length := Nat.lt_of_lt_of_le r.shorter (by rw [← hs]; exact h₀)
      have h₂ := length_dropComment_le r.rest
      if dropComment r.rest = [] then some r.value.root
      else
        match h : afterLineEnd? (dropComment r.rest) with
        | none => none
        | some more =>
          have h₃ := length_of_afterLineEnd? h
          readLines r.value more
  termination_by s.length

/-- The table that a text stands for; a mark of its byte order may stand in front of it. -/
def parse (s : List Char) : Option TomlTable :=
  match s with
  | '\uFEFF' :: rest => readLines ⟨[], []⟩ rest
  | s => readLines ⟨[], []⟩ s

end Toml

end PackageAudit
