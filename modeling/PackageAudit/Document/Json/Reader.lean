import PackageAudit.Document.Json.Number
import PackageAudit.Document.Json.Text
import PackageAudit.Document.Node

/-!
# Document.Json.Reader — the reader of JSON texts

* `Json.readValue` — one value at the head of the input, with what follows it;
* `Json.read` — a text that is one value and nothing else, under given rules;
* `Json.parse` — the same with every rule enforced.

The path of a fault is that of the value being read; a member's key belongs to its object until the
colon has been passed.
-/

namespace PackageAudit

namespace Json

/-- Place a fault of a string or a number at the path of the value being read. -/
def Leaf.under {α : Type} (path : List Key) : Leaf α → Except Stop α
  | .ok a => .ok a
  | .error (fault, place) => .error ⟨fault, path, place⟩

/-- Stop because something else than expected stands at `place`. -/
def stop {α : Type} (expected : String) (path : List Key) (place : Bytes) : Except Stop α :=
  .error ⟨unexpected expected place, path, place⟩

/-! ## Literal names -/

/-- What follows a given word. -/
def afterWord? : List Char → Bytes → Option Bytes
  | [], s => some s
  | c :: cs, s => (after? c s).bind (afterWord? cs)

theorem length_of_afterWord? {cs : List Char} {s r : Bytes} (h : afterWord? cs s = some r) :
    s.length = r.length + cs.length := by
  induction cs generalizing s with
  | nil => simp_all [afterWord?]
  | cons c cs ih =>
    obtain ⟨t, ht, hr⟩ := Option.bind_eq_some_iff.1 h
    have := length_of_after? ht
    have := ih hr
    simp only [List.length_cons]
    omega

theorem lt_of_afterWord? {c : Char} {cs : List Char} {s r : Bytes}
    (h : afterWord? (c :: cs) s = some r) : r.length < s.length := by
  have := length_of_afterWord? h
  simp only [List.length_cons] at this
  omega

/-- A value with a name of its own. -/
def readName (first : Char) (others : List Char) (value : Value) (path : List Key) (s : Bytes) :
    Except Stop (Reading s Value) :=
  match h : afterWord? (first :: others) s with
  | some rest => .ok ⟨value, rest, lt_of_afterWord? h⟩
  | none => stop "a value" path s

/-! ## Values -/

/-- The members of an object read so far, last first, and the values that were replaced. -/
structure Members where
  kept : List (String × Value)
  replaced : List (String × Value)

namespace Members

def isKey (m : Members) (name : String) : Bool :=
  m.kept.any fun member => member.1 == name

/-- Add a member; under a key that is already there it takes the place of the earlier one. -/
def put (m : Members) (name : String) (value : Value) : Members :=
  match Value.replace? m.kept name value with
  | some (kept, old) => ⟨kept, (name, old) :: m.replaced⟩
  | none => ⟨(name, value) :: m.kept, m.replaced⟩

/-- The object with these members. -/
def toValue (m : Members) : Value :=
  .object m.kept.reverse m.replaced.reverse

end Members

/-- How deep a value may still nest, and where it stands. -/
structure Site where
  depth : Nat
  path : List Key

mutual

/-- The value at the head of `s`. -/
def readValue (o : JsonOptions) (site : Site) (s : Bytes) : Except Stop (Reading s Value) :=
  match s with
  | [] => stop "a value" site.path []
  | b :: rest =>
    match Char.ofUInt8 b with
    | '{' =>
      if maxDepth ≤ site.depth then .error ⟨.tooDeep maxDepth, site.path, b :: rest⟩
      else
        have hblank := length_skipBlanks_le rest
        match h : after? '}' (skipBlanks rest) with
        | some rest' =>
          .ok ⟨.object [] [], rest', Nat.lt_succ_of_lt (Nat.lt_of_lt_of_le (lt_of_after? h) hblank)⟩
        | none => readMembers o site (b :: rest) ⟨[], []⟩ rest (Nat.lt_succ_self _)
    | '[' =>
      if maxDepth ≤ site.depth then .error ⟨.tooDeep maxDepth, site.path, b :: rest⟩
      else
        have hblank := length_skipBlanks_le rest
        match h : after? ']' (skipBlanks rest) with
        | some rest' =>
          .ok ⟨.array [], rest', Nat.lt_succ_of_lt (Nat.lt_of_lt_of_le (lt_of_after? h) hblank)⟩
        | none => readItems o site (b :: rest) 0 [] rest (Nat.lt_succ_self _)
    | '"' => (Leaf.under site.path (readText o rest)).map fun r => (r.map .string).behind
    | 't' => readName 't' ['r', 'u', 'e'] (.bool true) site.path (b :: rest)
    | 'f' => readName 'f' ['a', 'l', 's', 'e'] (.bool false) site.path (b :: rest)
    | 'n' => readName 'n' ['u', 'l', 'l'] .null site.path (b :: rest)
    | c =>
      if c == '-' || c.isDigit || (c == '.' && o.malformedDecimals) then
        (Leaf.under site.path (readNumber o (b :: rest))).map (·.map .number)
      else stop "a value" site.path (b :: rest)
  termination_by 2 * s.length

/-- The elements from index `index` on, of an array that began at `start`. -/
def readItems (o : JsonOptions) (site : Site) (start : Bytes) (index : Nat) (items : List Value)
    (s : Bytes) (h : s.length < start.length) : Except Stop (Reading start Value) :=
  have hblank := length_skipBlanks_le s
  match readValue o ⟨site.depth + 1, .index index :: site.path⟩ (skipBlanks s) with
  | .error e => .error e
  | .ok r =>
    let items := r.value :: items
    let next := skipBlanks r.rest
    have hnext : next.length < s.length :=
      Nat.lt_of_le_of_lt (length_skipBlanks_le r.rest) (Nat.lt_of_lt_of_le r.shorter hblank)
    match hcomma : after? ',' next with
    | some more =>
      have hmore := Nat.lt_trans (lt_of_after? hcomma) hnext
      readItems o site start (index + 1) items more (Nat.lt_trans hmore h)
    | none =>
      match hend : after? ']' next with
      | some rest =>
        .ok ⟨.array items.reverse, rest, Nat.lt_trans (Nat.lt_trans (lt_of_after? hend) hnext) h⟩
      | none => stop "',' or ']'" site.path next
  termination_by 2 * s.length + 1

/-- The members from `s` on, of an object that began at `start`. -/
def readMembers (o : JsonOptions) (site : Site) (start : Bytes) (members : Members) (s : Bytes)
    (h : s.length < start.length) : Except Stop (Reading start Value) :=
  let s₁ := skipBlanks s
  have h₁ : s₁.length ≤ s.length := length_skipBlanks_le s
  match hquote : after? '"' s₁ with
  | none => stop "a string key" site.path s₁
  | some s₂ =>
    match Leaf.under site.path (readText o s₂) with
    | .error e => .error e
    | .ok name =>
      let s₃ := skipBlanks name.rest
      have h₃ : s₃.length ≤ name.rest.length := length_skipBlanks_le name.rest
      match hcolon : after? ':' s₃ with
      | none => stop "':'" site.path s₃
      | some s₄ =>
        let path := .member name.value :: site.path
        if members.isKey name.value && !o.duplicateKeys then
          .error ⟨.duplicateKey name.value, path, s₁⟩
        else
          have h₂ : s₂.length < s.length := Nat.lt_of_lt_of_le (lt_of_after? hquote) h₁
          have h₄ : s₄.length < s.length :=
            Nat.lt_trans (Nat.lt_of_lt_of_le (lt_of_after? hcolon) h₃)
              (Nat.lt_trans name.shorter h₂)
          have h₅ := Nat.lt_of_le_of_lt (length_skipBlanks_le s₄) h₄
          match readValue o ⟨site.depth + 1, path⟩ (skipBlanks s₄) with
          | .error e => .error e
          | .ok r =>
            let members := members.put name.value r.value
            let next := skipBlanks r.rest
            have hnext : next.length < s.length :=
              Nat.lt_of_le_of_lt (length_skipBlanks_le r.rest) (Nat.lt_trans r.shorter h₅)
            match hcomma : after? ',' next with
            | some more =>
              have hmore := Nat.lt_trans (lt_of_after? hcomma) hnext
              readMembers o site start members more (Nat.lt_trans hmore h)
            | none =>
              match hend : after? '}' next with
              | some rest =>
                .ok ⟨members.toValue, rest, Nat.lt_trans (Nat.lt_trans (lt_of_after? hend) hnext) h⟩
              | none => stop "',' or '\x7d'" site.path next
  termination_by 2 * s.length + 1

end

/-! ## Texts -/

/-- The byte order mark. -/
def byteOrderMark : Bytes := [0xEF, 0xBB, 0xBF]

/-- A text that is one value with blanks around it. -/
def readTextOf (o : JsonOptions) (s : Bytes) : Except Stop Value :=
  let marked := byteOrderMark.isPrefixOf s
  if marked && !o.byteOrderMark then .error ⟨.byteOrderMark, [], s⟩
  else
    match readValue o ⟨0, []⟩ (skipBlanks (if marked then s.drop 3 else s)) with
    | .error e => .error e
    | .ok r =>
      match skipBlanks r.rest with
      | [] => .ok r.value
      | place => .error ⟨.trailingContent, [], place⟩

/-- The document of a JSON text under the given rules. -/
def read (o : JsonOptions) (s : Bytes) : Except JsonError Document :=
  match readTextOf o s with
  | .ok root => .ok ⟨root⟩
  | .error e => .error ⟨e.fault, e.path.reverse, s.length - e.place.length⟩

/-- The document of a JSON text under every rule. -/
def parse (s : Bytes) : Except JsonError Document :=
  read .strict s

end Json

end PackageAudit
