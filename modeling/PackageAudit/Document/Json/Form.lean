import PackageAudit.Document.Json.Reader

/-!
# Document.Json.Form — values of which the form is known

A reader that knows what it looks for passes over everything else. Under a key that it does not know
there may be any JSON text, nested as deep as it may be and with broken characters in its strings.

* `Json.Form` — what to look for;
* `Json.skipValue` — pass over a value;
* `Json.readForm` — the value of a form at the head of the input;
* `Json.ofForm?` — the value of a whole text.
-/

namespace PackageAudit

namespace Json

/-! ## Marks and keys -/

/-- A mark behind blanks. -/
def mark? (c : Char) (s : Bytes) : Option (Reading s Unit) :=
  match h : after? c (skipBlanks s) with
  | some rest => some ⟨(), rest, Nat.lt_of_lt_of_le (lt_of_after? h) (length_skipBlanks_le s)⟩
  | none => none

/-- A key and the colon behind it. -/
def readKey (o : JsonOptions) (s : Bytes) : Option (Reading s String) := do
  let quote ← mark? '"' s
  let key ← (readText o quote.rest).toOption
  let colon ← mark? ':' key.rest
  some (quote.next (key.next (colon.map fun _ => key.value)))

/-! ## Rules -/

/-- Rules for what is read: a key that is no field may stand twice. -/
def known : JsonOptions := { JsonOptions.strict with duplicateKeys := true }

/-- Rules for what nobody reads: its characters may be broken as well. -/
def unknown : JsonOptions := { known with invalidUnicode := true }

/-! ## Passing over values -/

mutual

/-- Pass over the value at the head of `s`. -/
def skipValue (s : Bytes) : Option (Reading s Unit) :=
  match s with
  | [] => none
  | b :: rest =>
    if Char.ofUInt8 b = '\x7b' then
      match mark? '\x7d' rest with
      | some close => some close.behind
      | none => (skipMembers rest).map (·.behind)
    else if Char.ofUInt8 b = '[' then
      match mark? ']' rest with
      | some close => some close.behind
      | none => (skipItems rest).map (·.behind)
    else (readValue unknown ⟨0, []⟩ (b :: rest)).toOption.map fun r => r.map fun _ => ()
  termination_by 2 * s.length

/-- Pass over the elements of an array, up to its end. -/
def skipItems (s : Bytes) : Option (Reading s Unit) :=
  have hblank := length_skipBlanks_le s
  match skipValue (skipBlanks s) with
  | none => none
  | some r =>
    let item := r.widen hblank
    match mark? ',' item.rest with
    | some comma =>
      have := comma.shorter
      have := item.shorter
      (skipItems comma.rest).map fun more => item.next (comma.next more)
    | none => (mark? ']' item.rest).map item.next
  termination_by 2 * s.length + 1

/-- Pass over the members of an object, up to its end. -/
def skipMembers (s : Bytes) : Option (Reading s Unit) :=
  match readKey unknown s with
  | none => none
  | some key =>
    have hblank := length_skipBlanks_le key.rest
    have := key.shorter
    match skipValue (skipBlanks key.rest) with
    | none => none
    | some r =>
      let member := key.next (r.widen hblank)
      match mark? ',' member.rest with
      | some comma =>
        have := comma.shorter
        have := member.shorter
        (skipMembers comma.rest).map fun more => member.next (comma.next more)
      | none => (mark? '\x7d' member.rest).map member.next
  termination_by 2 * s.length + 1

end

/-! ## Values of a form -/

/-- A form of values. A record is an object, or an array of the values of its fields. -/
inductive Form where
  | text
  | list (items : Form)
  | record (fields : List (String × Form))

mutual

/-- The value of a form at the head of `s`, without what the form does not name. -/
def readForm (form : Form) (s : Bytes) : Option (Reading s Value) :=
  match s with
  | [] => none
  | b :: rest =>
    match form with
    | .text =>
      if Char.ofUInt8 b = '"' then
        (readText known rest).toOption.map fun r => (r.map .string).behind
      else none
    | .list items =>
      if Char.ofUInt8 b = '[' then
        (readArray (fun _ => some items) rest).map fun r => (r.map .array).behind
      else none
    | .record fields =>
      if Char.ofUInt8 b = '[' then
        (readArray (fun i => fields[i]?.map (·.2)) rest).map fun r => (r.map .array).behind
      else if Char.ofUInt8 b = '\x7b' then
        (readObject fields rest).map fun r => (r.map fun members => .object members []).behind
      else none
  termination_by 3 * s.length

/-- The elements of an array, each of the form that belongs to its position. -/
def readArray (form? : Nat → Option Form) (s : Bytes) : Option (Reading s (List Value)) :=
  match mark? ']' s with
  | some close => some (close.map fun _ => [])
  | none => readItemsOf form? 0 s
  termination_by 3 * s.length + 2

/-- The elements from index `index` on, up to the end of the array. -/
def readItemsOf (form? : Nat → Option Form) (index : Nat) (s : Bytes) :
    Option (Reading s (List Value)) :=
  match form? index with
  | none => none
  | some form =>
    have hblank := length_skipBlanks_le s
    match readForm form (skipBlanks s) with
    | none => none
    | some r =>
      let item := r.widen hblank
      match mark? ',' item.rest with
      | some comma =>
        have := comma.shorter
        have := item.shorter
        (readItemsOf form? (index + 1) comma.rest).map fun more =>
          item.next (comma.next (more.map (item.value :: ·)))
      | none => (mark? ']' item.rest).map fun close => item.next (close.map fun _ => [item.value])
  termination_by 3 * s.length + 1

/-- The fields of an object, of which none stands twice. -/
def readObject (fields : List (String × Form)) (s : Bytes) :
    Option (Reading s (List (String × Value))) :=
  match mark? '\x7d' s with
  | some close => some (close.map fun _ => [])
  | none => (readFields fields s).filter fun r => (r.value.map (·.1)).Nodup
  termination_by 3 * s.length + 2

/-- The members from `s` on that are fields, up to the end of the object. -/
def readFields (fields : List (String × Form)) (s : Bytes) :
    Option (Reading s (List (String × Value))) :=
  match readKey known s with
  | none => none
  | some key =>
    have hblank := length_skipBlanks_le key.rest
    have := key.shorter
    let value := skipBlanks key.rest
    let members : Option (Reading value (List (String × Value))) :=
      (fields.lookup key.value).elim ((skipValue value).map fun r => r.map fun _ => [])
        fun form => (readForm form value).map fun r => r.map fun v => [(key.value, v)]
    match members with
    | none => none
    | some r =>
      let member := key.next (r.widen hblank)
      match mark? ',' member.rest with
      | some comma =>
        have := comma.shorter
        have := member.shorter
        (readFields fields comma.rest).map fun more =>
          member.next (comma.next (more.map (member.value ++ ·)))
      | none =>
        (mark? '\x7d' member.rest).map fun close => member.next (close.map fun _ => member.value)
  termination_by 3 * s.length + 1

end

/-- The value of a text that is one value of a form, with blanks around it. -/
def ofForm? (form : Form) (s : Bytes) : Option Value :=
  ((readForm form (skipBlanks s)).filter fun r => (skipBlanks r.rest).isEmpty).map (·.value)

end Json

end PackageAudit
