import PackageAudit.Proofs.Document.Yaml.Builder
import PackageAudit.Proofs.Document.Yaml.Located
import PackageAudit.Proofs.Document.Yaml.Positions

/-!
# Proofs.Document.Yaml.Assembly — blocks read by positions among tokens

The slots of a text are stored here by a reader that has the number of the next token and goes on
from there. It asks for tokens and slots by numbers, opens and closes collections, and may call
itself as often as it is allowed to.

* `Yaml.refuses`, `Yaml.buildText_error` — no slots are stored for what is refused;
* `Yaml.Positions.Cursor` — a place among tokens, and what may be done there;
* `Yaml.Positions.parse` — the reader;
* `Yaml.Positions.parseItems_eq`, `Yaml.Positions.parseMembers_eq` — the parts of a collection, if
  the nodes in it are stored as they are without positions;
* `Yaml.Positions.assembles` — every node, by induction on the number of tokens;
* `Yaml.Positions.reads_in_range` — so no token or slot is out of range, every collection ends
  behind the place where it began, and some number of calls is enough.
-/

namespace PackageAudit

namespace Yaml

variable {depth indent parent : Nat} {parent? : Option Nat} {key : Option Key} {b : Builder}
  {s start : List Token} {e : YamlError}

/-! ## Slots of refused tokens -/

/-- No slots are stored for a block that is refused, for the same reason. -/
def Refuses (s : List Token) : Prop :=
  ∀ ⦃depth belongs e⦄, readBlock depth belongs s = .error e →
    ∀ parent key b, buildBlock depth parent key b belongs s = .error e

theorem buildItems_error {vs : List Value} {h : s.length < start.length}
    (hblocks : ∀ t, t.length ≤ s.length → Refuses t)
    (hread : readItems depth indent start vs s h = .error e) (items : List Nat) (b : Builder) :
    buildItems depth indent parent start items b s h = .error e := by
  -- On the tokens that are left.
  induction hlength : s.length using Nat.strong_induction_on generalizing s vs items b with
  | _ n ih =>
  rw [buildItems]
  rcases of_readItems_error hread with hitem | ⟨⟨v, rest, hle⟩, hitem, hstep⟩
  · rw [hblocks s (Nat.le_refl _) hitem]
  obtain ⟨w, -, -, hbuild⟩ := builds s hitem
  rw [hbuild]
  dsimp only [OptionalReading.map]
  rcases hstep with hdedent | ⟨t, more, h', rfl, hdash, hmore⟩
  · split
    · next hfail =>
      cases hfail.symm.trans hdedent
      rfl
    · next hok => cases hdedent.symm.trans hok
    · next hok => cases hdedent.symm.trans hok
  · have hdedent : checkDedent indent (t :: more) = .ok () := by
      refine checkDedent_eq_ok.2 ?_
      rintro _ ⟨⟩
      exact Nat.le_of_eq (isDashAt_iff.1 hdash).1
    have hshort : more.length < s.length := Nat.lt_of_lt_of_le (Nat.lt_succ_self _) hle
    split
    · next hfail => cases hdedent.symm.trans hfail
    · next hnil => cases hnil
    next hcons =>
    cases hcons
    rw [if_pos hdash]
    exact ih _ (hlength ▸ hshort)
      (fun t ht => hblocks t (Nat.le_trans ht (Nat.le_of_lt hshort))) hmore _ _ rfl

theorem buildEntry_error {line : Nat} {entry : Entry} (hblocks : Refuses s)
    (hread : entry.read depth indent line s = .error e) (b : Builder) :
    buildEntry depth indent parent b line entry s = .error e := by
  unfold Entry.read at hread
  cases hentry : entry.value with
  | none =>
    rw [hentry] at hread
    rw [buildEntry, hentry]
    exact hblocks hread _ _ _
  | some inline =>
    rw [hentry] at hread
    rw [buildEntry, hentry]
    dsimp only
    rw [of_map_error hread]
    rfl

theorem buildMembers_error {members : List (String × Value)} {token : Token} {entry : Entry}
    {h : s.length < start.length} (hblocks : ∀ t, t.length ≤ s.length → Refuses t)
    (hread : readMembers depth indent start members token entry s h = .error e)
    {entries : List (String × Nat)}
    (hkeys : ∀ name, name ∈ entries.map Prod.fst ↔ name ∈ members.map Prod.fst) (b : Builder) :
    buildMembers depth indent parent start entries b token entry s h = .error e := by
  -- As for sequences. The keys in front of an entry are those of the tree.
  induction hlength : s.length using Nat.strong_induction_on
    generalizing s members token entry entries b with
  | _ n ih =>
  rw [buildMembers]
  have hrepeated : (entries.any fun member => member.1 == entry.key) = true ↔
      entry.key ∈ members.map Prod.fst := any_key_iff.trans (hkeys _)
  rcases of_readMembers_error hread with ⟨hmem, rfl⟩ | ⟨hnew, hvalue | ⟨⟨v, rest, hle⟩, hm, hstep⟩⟩
  · rw [if_pos (hrepeated.2 hmem)]
    rfl
  · rw [if_neg (mt hrepeated.1 hnew), buildEntry_error (hblocks s (Nat.le_refl _)) hvalue]
  obtain ⟨w, -, -, hbuild⟩ := buildEntry_of_read (builds s) hm
  rw [if_neg (mt hrepeated.1 hnew), hbuild]
  dsimp only [OptionalReading.map]
  -- What follows the entry is the same for both.
  rcases hstep with hmisfit | ⟨t, next, more, h', hfollows, hmore⟩
  · cases hmisfit with
    | deeper hdedent =>
      split
      · next hfail =>
        cases hfail.symm.trans hdedent
        rfl
      · next hok => cases hdedent.symm.trans hok
      · next hok => cases hdedent.symm.trans hok
    | dash hdedent hcolumn hdash =>
      split
      · next hfail => cases hdedent.symm.trans hfail
      · next hnil => cases hnil
      next hcons =>
      cases hcons
      rw [if_neg hcolumn, hdash]
      rfl
    | refused hdedent hcolumn htext hentry =>
      split
      · next hfail => cases hdedent.symm.trans hfail
      · next hnil => cases hnil
      next hcons =>
      cases hcons
      rw [if_neg hcolumn, htext]
      dsimp only
      rw [hentry]
    | scalar hdedent hcolumn htext hentry =>
      split
      · next hfail => cases hdedent.symm.trans hfail
      · next hnil => cases hnil
      next hcons =>
      cases hcons
      rw [if_neg hcolumn, htext]
      dsimp only
      rw [hentry]
      rfl
  · cases hfollows with
    | entry hdedent hcolumn htext hentry =>
    have hshort : more.length < s.length := Nat.lt_of_lt_of_le (Nat.lt_succ_self _) hle
    have hkeys' : ∀ name, name ∈ (entries ++ [(entry.key, b.next)]).map Prod.fst ↔
        name ∈ ((entry.key, v) :: members).map Prod.fst := by
      intro name
      rw [List.map_append, List.mem_append, hkeys, List.map_cons, List.mem_cons, or_comm]
      simp
    split
    · next hfail => cases hdedent.symm.trans hfail
    · next hnil => cases hnil
    next hcons =>
    cases hcons
    rw [if_neg hcolumn, htext]
    dsimp only
    rw [hentry]
    exact ih _ (hlength ▸ hshort)
      (fun t ht => hblocks t (Nat.le_trans ht (Nat.le_of_lt hshort))) hmore hkeys' _ rfl

theorem buildNode_error {first : Token} {rest : List Token}
    (hblocks : ∀ t, t.length ≤ rest.length → Refuses t)
    (hread : readNode depth first rest = .error e) (parent : Option Nat) (key : Option Key)
    (b : Builder) : buildNode depth parent key b first rest = .error e := by
  rw [readNode] at hread
  rw [buildNode]
  cases hlexeme : first.lexeme with
  | dash =>
    rw [hlexeme] at hread
    dsimp only at hread ⊢
    by_cases hdeep : Json.maxDepth ≤ depth
    · rw [if_pos hdeep] at hread ⊢
      cases hread
      rfl
    · rw [if_neg hdeep] at hread ⊢
      rw [buildItems_error hblocks hread]
      rfl
  | content text =>
    rw [hlexeme] at hread
    dsimp only at hread ⊢
    cases hentry : onLine first.line (splitEntry first.column text) with
    | error e' =>
      rw [hentry] at hread
      cases hread
      rfl
    | ok entry? =>
    rw [hentry] at hread
    cases entry? with
    | none =>
      dsimp only at hread ⊢
      cases hscalar : onLine first.line (scalar first.column text) with
      | error e' =>
        rw [hscalar] at hread
        cases hread
        rfl
      | ok value =>
        rw [hscalar] at hread
        cases hread
    | some entry =>
      dsimp only at hread ⊢
      by_cases hdeep : Json.maxDepth ≤ depth
      · rw [if_pos hdeep] at hread ⊢
        cases hread
        rfl
      · rw [if_neg hdeep] at hread ⊢
        rw [buildMembers_error hblocks hread fun _ => Iff.rfl]
        rfl

theorem refuses (s : List Token) : Refuses s := by
  -- The nodes in a block are read from fewer tokens.
  induction hlength : s.length using Nat.strong_induction_on generalizing s with
  | _ n ih =>
  intro depth belongs e hread parent key b
  rw [readBlock.eq_def] at hread
  split at hread
  · cases hread
  next first rest =>
  split at hread
  · next hbelongs =>
    rw [buildBlock, if_pos hbelongs,
      buildNode_error (fun t ht => ih _ (hlength ▸ Nat.lt_succ_of_le ht) t rfl)
        (of_map_error hread)]
    rfl
  · cases hread

theorem buildText_error {cs : List Char} (h : readText cs = .error e) :
    buildText cs = .error e := by
  unfold readText at h
  unfold buildText
  rcases of_bind_error h with htokens | ⟨ts, htokens, h⟩
  · rw [htokens]
    rfl
  rw [htokens]
  cases ts with
  | nil => cases h
  | cons first rest =>
  change buildNode 0 none none .empty first rest >>= _ = _
  rcases of_bind_error h with hroot | ⟨⟨v, behind, hshort⟩, hroot, h⟩
  · rw [buildNode_error (fun t _ => refuses t) hroot]
    rfl
  obtain ⟨w, -, -, hbuild⟩ := buildNode_of_readNode (fun t _ => builds t) hroot
  rw [hbuild]
  change checkDedent first.column behind >>= _ = _
  rcases of_bind_error h with hdedent | ⟨_, hdedent, h⟩
  · rw [hdedent]
    rfl
  rw [hdedent]
  cases behind with
  | nil => cases h
  | cons extra more => exact congrArg Except.error (Except.error.inj h)

/-! ## Slots of tokens that are read -/

section Stored

variable {b' : Builder} {belongs : Token → Bool}

theorem suffix_of_buildBlock {r : OptionalReading s Nat}
    (h : buildBlock depth parent? key b belongs s = .ok (r, b')) : r.rest <:+ s := by
  cases hread : readBlock depth belongs s with
  | error e => cases h.symm.trans (refuses s hread _ _ _)
  | ok found =>
    obtain ⟨w, -, -, hbuild⟩ := builds s hread
    cases h.symm.trans (hbuild _ _ _)
    exact suffix_of_readBlock hread

theorem suffix_of_buildNode {first : Token} {rest : List Token} {r : Reading (first :: rest) Nat}
    (h : buildNode depth parent? key b first rest = .ok (r, b')) : r.rest <:+ first :: rest := by
  have hblock : buildBlock depth parent? key b (fun _ => true) (first :: rest) =
      .ok (r.toOptional, b') := by
    rw [buildBlock, if_pos rfl, h]
    rfl
  exact suffix_of_buildBlock hblock

theorem suffix_of_buildEntry {line : Nat} {entry : Entry} {r : OptionalReading s Nat}
    (h : buildEntry depth indent parent b line entry s = .ok (r, b')) : r.rest <:+ s := by
  cases hread : entry.read depth indent line s with
  | error e => cases h.symm.trans (buildEntry_error (refuses s) hread _)
  | ok found =>
    obtain ⟨w, -, -, hbuild⟩ := buildEntry_of_read (builds s) hread
    cases h.symm.trans (hbuild _ _)
    exact Entry.suffix_of_read hread

/-- No slot is taken away while the entries of a sequence are stored. -/
theorem next_le_of_buildItems {h : s.length < start.length} {items : List Nat}
    {r : Reading start (List Nat)}
    (hbuilt : buildItems depth indent parent start items b s h = .ok (r, b')) :
    b.next ≤ b'.next := by
  cases hread : readItems depth indent start [] s h with
  | error e => cases hbuilt.symm.trans (buildItems_error (fun t _ => refuses t) hread _ _)
  | ok found =>
    obtain ⟨ws, -, -, hbuild⟩ := buildItems_of_readItems (fun t _ => builds t) hread
    cases hbuilt.symm.trans (hbuild _ _ _)
    exact Nat.le.intro Builder.next_append.symm

theorem next_le_of_buildMembers {h : s.length < start.length} {token : Token} {entry : Entry}
    {r : Reading start (List (String × Nat))}
    (hbuilt : buildMembers depth indent parent start [] b token entry s h = .ok (r, b')) :
    b.next ≤ b'.next := by
  cases hread : readMembers depth indent start [] token entry s h with
  | error e =>
    cases hbuilt.symm.trans
      (buildMembers_error (fun t _ => refuses t) hread (fun _ => Iff.rfl) _)
  | ok found =>
    obtain ⟨ws, -, -, -, -, hbuild⟩ := buildMembers_of_readMembers (fun t _ => builds t) hread
    cases hbuilt.symm.trans (hbuild _ [] _ fun _ => Iff.rfl)
    exact Nat.le.intro Builder.next_append.symm

end Stored

namespace Positions

open Checked

/-! ## The tokens of a text -/

/-- The tokens of the lines from number `line` on, in front of those in `found`, last first. -/
def lexLines (line : Nat) (found : List Token) :
    List (List Char) → Checked YamlError (List Token)
  | [] => pure found
  | chars :: rest => do lexLines (line + 1) (← lexLine line found chars) rest

/-- The tokens of a text, in order. -/
def lexText (cs : List Char) : Checked YamlError (List Token) :=
  return (← lexLines 0 [] (lines cs)).reverse

theorem lexLines_eq (line : Nat) (found : List Token) (rows : List (List Char)) :
    lexLines line found rows = ofExcept (tokensFrom line found rows) := by
  induction rows generalizing line found with
  | nil => rfl
  | cons chars rows ih =>
    rw [lexLines, lexLine_eq, tokensFrom]
    cases lineTokens line found chars with
    | error e => rfl
    | ok found => exact ih _ _

theorem lexText_eq (cs : List Char) : lexText cs = ofExcept (tokens cs) := by
  rw [lexText, lexLines_eq, tokens]
  cases tokensFrom 0 [] (lines cs) <;> rfl

/-! ## The reader of blocks -/

/-- A place among tokens, the number of collections around it, and the slots stored so far. -/
structure Cursor where
  tokens : List Token
  pos : Nat
  depth : Nat
  builder : Builder

namespace Cursor

/-- The token at the place, if it is not the end. -/
def peek (p : Cursor) : Option Token :=
  p.tokens[p.pos]?

def advance (p : Cursor) : Cursor :=
  { p with pos := p.pos + 1 }

/-- Refuse a text for one of its tokens. -/
def refuseAt {α : Type} (fault : YamlFault) (token : Token) : Checked YamlError α :=
  refuse ⟨fault, token.line + 1, token.column + 1⟩

/-- Open a collection at the token that is there. -/
def enter (p : Cursor) : Checked YamlError Cursor :=
  if Json.maxDepth < p.depth + 1 then do
    refuseAt (.tooDeep Json.maxDepth) (← item p.tokens p.pos)
  else pure { p with depth := p.depth + 1 }

/-- Store a slot; with its number. -/
def push (content : Content) (parent : Option Nat) (key : Option Key) (p : Cursor) : Nat × Cursor :=
  (p.builder.next, { p with builder := p.builder.push content parent key })

/-- Replace what a slot holds that is there. -/
def fill (number : Nat) (content : Content) (p : Cursor) : Checked YamlError Cursor :=
  if number < p.builder.next then pure { p with builder := p.builder.fill number content }
  else .error .outOfRange

/-- Close a collection that was opened at a place; it has to end behind it. -/
def close (start number : Nat) (content : Content) (p : Cursor) :
    Checked YamlError (Nat × Cursor) := do
  let p ← p.fill number content
  if start < p.pos then pure (number, { p with depth := p.depth - 1 }) else .error .stuck

/-- What follows a node must not stand deeper than the block at `indent`. -/
def checkDedent (indent : Nat) (p : Cursor) : Checked YamlError Unit :=
  match p.peek with
  | none => pure ()
  | some next =>
    if indent < next.column then
      match next.lexeme with
      | .dash => refuseAt .unexpectedIndentation next
      | .content text =>
        match splitEntry next.column text with
        | .ok none => refuseAt .multiLineScalar next
        | .ok (some _) => refuseAt .unexpectedIndentation next
        | .error stop =>
          .error (stop.map fun _ => ⟨.unexpectedIndentation, next.line + 1, next.column + 1⟩)
    else pure ()

end Cursor

open Cursor

mutual

/-- Store the node that begins at the token that is there. -/
def parseNode : Nat → Option Nat → Option Key → Cursor → Checked YamlError (Nat × Cursor)
  | 0, _, _, _ => .error .tooManyCalls
  | calls + 1, parent, key, p => do
    let token ← item p.tokens p.pos
    match token.lexeme with
    | .dash => parseSequence calls parent key token.column p
    | .content text =>
      match ← onLine token.line (splitEntry token.column text) with
      | some _ => parseMapping calls parent key token.column p
      | none =>
        let value ← onLine token.line (scalar token.column text)
        pure (p.advance.push (.ofFlat value) parent key)

/-- Store the sequence at a column. -/
def parseSequence :
    Nat → Option Nat → Option Key → Nat → Cursor → Checked YamlError (Nat × Cursor)
  | 0, _, _, _, _ => .error .tooManyCalls
  | calls + 1, parent, key, indent, p => do
    let (number, opened) := (← p.enter).push (.array []) parent key
    let (items, q) ← parseItems calls indent number [] opened
    q.close p.pos number (.array items)

/-- Store the entries of a sequence from the token that is there on. -/
def parseItems :
    Nat → Nat → Nat → List Nat → Cursor → Checked YamlError (List Nat × Cursor)
  | 0, _, _, _, _ => .error .tooManyCalls
  | calls + 1, indent, number, items, p =>
    match p.peek with
    | none => pure (items, p)
    | some token =>
      if token.column = indent ∧ token.lexeme = .dash then do
        let (item, q) ← parseItem calls indent number items.length p.advance
        parseItems calls indent number (items ++ [item]) q
      else pure (items, p)

/-- Store what stands behind the dash of a sequence entry. -/
def parseItem : Nat → Nat → Nat → Nat → Cursor → Checked YamlError (Nat × Cursor)
  | 0, _, _, _, _ => .error .tooManyCalls
  | calls + 1, indent, number, index, p =>
    let null := p.push (.scalar .null) (some number) (some (.index index))
    match p.peek with
    | none => pure null
    | some next =>
      if indent < next.column then do
        let (item, q) ← parseNode calls (some number) (some (.index index)) p
        q.checkDedent indent
        pure (item, q)
      else pure null

/-- Store the mapping at a column. -/
def parseMapping :
    Nat → Option Nat → Option Key → Nat → Cursor → Checked YamlError (Nat × Cursor)
  | 0, _, _, _, _ => .error .tooManyCalls
  | calls + 1, parent, key, indent, p => do
    let (number, opened) := (← p.enter).push (.object []) parent key
    let (members, q) ← parseMembers calls indent number [] opened
    q.close p.pos number (.object members)

/-- Store the entries of a mapping from the token that is there on. -/
def parseMembers : Nat → Nat → Nat → List (String × Nat) → Cursor →
    Checked YamlError (List (String × Nat) × Cursor)
  | 0, _, _, _, _ => .error .tooManyCalls
  | calls + 1, indent, number, members, p =>
    match p.peek with
    | none => pure (members, p)
    | some token =>
      if token.column < indent then pure (members, p)
      else if indent < token.column then refuseAt .unexpectedIndentation token
      else
        match token.lexeme with
        | .dash => refuseAt .unexpectedSequenceEntry token
        | .content text => do
          match ← onLine token.line (splitEntry token.column text) with
          | none => refuseAt .expectedKey token
          | some entry =>
            if members.any fun member => member.1 == entry.key then
              refuseAt (.duplicateKey entry.key) token
            else
              let (child, q) ← parseValue calls indent number token.line entry p.advance
              q.checkDedent indent
              parseMembers calls indent number (members ++ [(entry.key, child)]) q

/-- Store the value of an entry of a mapping at column `indent`. -/
def parseValue : Nat → Nat → Nat → Nat → Entry → Cursor → Checked YamlError (Nat × Cursor)
  | 0, _, _, _, _, _ => .error .tooManyCalls
  | calls + 1, indent, number, line, entry, p =>
    let key := some (.member entry.key)
    match entry.value with
    | some (text, column) => do
      let value ← onLine line (scalar column text)
      pure (p.push (.ofFlat value) (some number) key)
    | none =>
      let null := p.push (.scalar .null) (some number) key
      match p.peek with
      | none => pure null
      | some next =>
        if indent < next.column then parseNode calls (some number) key p
        else if next.column = indent ∧ next.lexeme = .dash then
          parseSequence calls (some number) key indent p
        else pure null

end

/-- Store the document that tokens are. -/
def parseDocument (calls : Nat) (p : Cursor) : Checked YamlError (Nat × Cursor) :=
  match p.peek with
  | none => pure (p.push (.scalar .null) none none)
  | some first => do
    let (root, q) ← parseNode calls none none p
    q.checkDedent first.column
    match q.peek with
    | some extra => refuseAt .trailingContent extra
    | none => pure (root, q)

/-- Store the document of a text. -/
def parseText (calls : Nat) (cs : List Char) : Checked YamlError (Nat × Cursor) := do
  parseDocument calls ⟨← lexText cs, 0, 0, .empty⟩

/-- The characters of a text in bytes, broken ones being refused or read as U+FFFD. -/
def decode (allowInvalidUtf8 : Bool) (s : Bytes) : Except YamlError (List Char) :=
  match Utf8.split s with
  | (front, _ :: _) =>
    if allowInvalidUtf8 then .ok (dropMark (Utf8.decodeLossy s)) else .error (invalidUtf8 front)
  | (text, []) => .ok (dropMark text)

/-- Store the document of a text in bytes. -/
def parse (calls : Nat) (allowInvalidUtf8 : Bool) (s : Bytes) :
    Checked YamlError (Nat × Cursor) :=
  ofExcept (decode allowInvalidUtf8 s) >>= parseText calls

/-! ## Places -/

variable {ls : List (List Char)} {p : Cursor} {t first : Token} {rest : List Token} {calls : Nat}

/-- So many tokens are left from the place on, and every token stands in its line. -/
structure Cursor.At (ls : List (List Char)) (p : Cursor) (s : List Token) : Prop where
  left : p.tokens.drop p.pos = s
  inside : p.pos ≤ p.tokens.length
  shown : ∀ t ∈ p.tokens, Shown ls t

/-- The place from which on given tokens are left, other slots being stored. -/
def Cursor.arrive (p : Cursor) (rest : List Token) (b : Builder) : Cursor :=
  { p with pos := p.tokens.length - rest.length, builder := b }

namespace Cursor

theorem At.peek (h : p.At ls s) : p.peek = s.head? := by
  rw [Cursor.peek, ← List.head?_drop, h.left]

theorem At.item (h : p.At ls (t :: s)) : (item p.tokens p.pos : Checked YamlError Token) = .ok t :=
  item_of_drop h.left

theorem At.length (h : p.At ls s) : p.tokens.length = p.pos + s.length := by
  rw [← h.left, List.length_drop, Nat.add_sub_cancel' h.inside]

theorem At.shown_head (h : p.At ls (t :: s)) : Shown ls t :=
  h.shown t (List.mem_of_mem_drop (h.left ▸ List.mem_cons_self))

theorem At.text_ne_nil {text : List Char} (h : p.At ls (t :: s))
    (htext : t.lexeme = .content text) : text ≠ [] := by
  have hne := h.shown_head.ne_nil
  rwa [htext] at hne

theorem At.arrive {b : Builder} (h : p.At ls s) (hrest : rest <:+ s) :
    (p.arrive rest b).At ls rest := by
  refine ⟨?_, Nat.sub_le _ _, h.shown⟩
  exact drop_of_suffix (hrest.trans (h.left ▸ List.drop_suffix _ _))

theorem At.advance_eq (h : p.At ls (t :: s)) : p.advance = p.arrive s p.builder := by
  have hlength := h.length
  rw [List.length_cons] at hlength
  rw [Cursor.advance, Cursor.arrive, show p.tokens.length - s.length = p.pos + 1 by omega]

theorem At.arrive_self (h : p.At ls s) (b : Builder) : p.arrive s b = { p with builder := b } := by
  rw [Cursor.arrive, h.length, Nat.add_sub_cancel]

theorem At.advance (h : p.At ls (t :: s)) : p.advance.At ls s := by
  rw [h.advance_eq]
  exact h.arrive (List.suffix_cons t s)

end Cursor


/-! ## The reader of blocks finds what the tokens are -/

variable {α : Type}

/-- What is built from the first tokens, with the place behind them. -/
def landed (p : Cursor) (x : Except YamlError (Reading s α × Builder)) :
    Checked YamlError (α × Cursor) :=
  ofExcept (x.map fun (r, b) => (r.value, p.arrive r.rest b))

/-- The same of a part that may be missing. -/
def landedOptional (p : Cursor) (x : Except YamlError (OptionalReading s α × Builder)) :
    Checked YamlError (α × Cursor) :=
  ofExcept (x.map fun (r, b) => (r.value, p.arrive r.rest b))

/--
Where the tokens begin with a node, it is stored as it is without positions, if enough calls may
lie in each other. A sequence may be asked for without looking at its dash.
-/
structure Assembles (ls : List (List Char)) (first : Token) (rest : List Token) : Prop where
  node : ∀ {p : Cursor} {calls : Nat}, p.At ls (first :: rest) → 4 * rest.length + 7 ≤ calls →
    ∀ parent key, parseNode calls parent key p =
      landed p (buildNode p.depth parent key p.builder first rest)
  sequence : ∀ {p : Cursor} {calls : Nat}, p.At ls (first :: rest) → 4 * rest.length + 6 ≤ calls →
    first.lexeme = .dash → ∀ parent key, parseSequence calls parent key first.column p =
      landed p (buildNode p.depth parent key p.builder first rest)

theorem checkDedent_eq (hs : p.At ls s) :
    p.checkDedent indent = ofExcept (Yaml.checkDedent indent s) := by
  rw [Cursor.checkDedent, hs.peek]
  cases s with
  | nil => rfl
  | cons t s =>
  rw [List.head?_cons, Yaml.checkDedent]
  dsimp only
  split
  swap
  · rfl
  cases hlexeme : t.lexeme with
  | dash => rfl
  | content text =>
    dsimp only
    rw [splitEntry_eq t.column (hs.text_ne_nil hlexeme)]
    cases Yaml.splitEntry t.column text with
    | error e => rfl
    | ok entry => cases entry <;> rfl

theorem buildBlock_nothing {belongs : Token → Bool}
    (h : ∀ t, s.head? = some t → belongs t = false) :
    buildBlock depth parent? key b belongs s =
      .ok (.nothing b.next, b.push (.scalar .null) parent? key) := by
  cases s with
  | nil =>
    rw [buildBlock]
    rfl
  | cons t s =>
    rw [buildBlock, if_neg (Bool.eq_false_iff.1 (h t rfl))]
    rfl

theorem landed_nothing (hs : p.At ls s) (content : Content) :
    landedOptional (s := s) p (.ok (.nothing p.builder.next, p.builder.push content parent? key)) =
      .ok (p.push content parent? key) := by
  have harrive := hs.arrive_self (p.builder.push content parent? key)
  rw [Cursor.push, ← harrive]
  rfl

theorem landed_buildBlock_nothing {belongs : Token → Bool} (hs : p.At ls s)
    (h : ∀ t, s.head? = some t → belongs t = false) :
    landedOptional p (buildBlock depth parent? key p.builder belongs s) =
      .ok (p.push (.scalar .null) parent? key) := by
  rw [buildBlock_nothing h]
  exact landed_nothing hs _

theorem parseItem_eq {number index : Nat} (hblocks : ∀ first rest, s = first :: rest →
    Assembles ls first rest) (hs : p.At ls s) (hcalls : 4 * s.length + 4 ≤ calls) :
    parseItem calls indent number index p =
      landedOptional p (buildBlock p.depth (some number) (some (.index index)) p.builder
        (fun t => indent < t.column) s) >>= fun (item, q) =>
          q.checkDedent indent >>= fun _ => .ok (item, q) := by
  obtain ⟨calls, rfl⟩ : ∃ n, calls = n + 1 := ⟨calls - 1, by omega⟩
  have hnull (h : ∀ t, s.head? = some t → ¬ indent < t.column) :
      landedOptional p (buildBlock p.depth (some number) (some (.index index)) p.builder
        (fun t => indent < t.column) s) >>= (fun (item, q) =>
          q.checkDedent indent >>= fun _ => .ok (item, q)) =
        .ok (p.push (.scalar .null) (some number) (some (.index index))) := by
    have hpushed : (p.push (.scalar .null) (some number) (some (.index index))).2.At ls s :=
      ⟨hs.left, hs.inside, hs.shown⟩
    have hdedent : Yaml.checkDedent indent s = .ok () :=
      checkDedent_eq_ok.2 fun t ht => Nat.le_of_not_lt (h t ht)
    rw [landed_buildBlock_nothing hs fun t ht => decide_eq_false (h t ht), ok_bind]
    dsimp only
    rw [checkDedent_eq hpushed, hdedent]
    rfl
  rw [parseItem, hs.peek]
  cases s with
  | nil => exact (hnull nofun).symm
  | cons t s =>
    by_cases hdeeper : indent < t.column
    · rw [List.head?_cons]
      dsimp only
      rw [List.length_cons] at hcalls
      rw [if_pos hdeeper, (hblocks t s rfl).node hs (by omega), buildBlock,
        if_pos (decide_eq_true hdeeper)]
      cases buildNode p.depth (some number) (some (.index index)) p.builder t s with
      | error e => rfl
      | ok found => rfl
    · rw [hnull]
      · exact if_neg hdeeper
      · rintro _ ⟨⟩
        exact hdeeper

/-- A sequence ends where no dash of its own is. -/
theorem parseItems_end {items : List Nat} (hs : p.At ls s) (hcalls : 0 < calls)
    (h : ∀ t, s.head? = some t → ¬ isDashAt indent t = true) :
    parseItems calls indent parent items p = .ok (items, p) := by
  obtain ⟨calls, rfl⟩ := Nat.exists_eq_add_one.2 hcalls
  rw [parseItems, hs.peek]
  cases s with
  | nil => rfl
  | cons t s => exact if_neg (mt isDashAt_iff.2 (h t rfl))

theorem parseItems_eq {h : s.length < start.length} {items : List Nat}
    (hblocks : ∀ first rest, rest.length < s.length → Assembles ls first rest)
    (hs : p.At ls (t :: s)) (ht : isDashAt indent t = true) (hcalls : 4 * s.length + 5 ≤ calls) :
    parseItems calls indent parent items p =
      landed p (buildItems p.depth indent parent start items p.builder s h) := by
  -- On the tokens that are left behind each dash.
  induction hlength : s.length using Nat.strong_induction_on
    generalizing s t items p calls with
  | _ n ih =>
  obtain ⟨calls, rfl⟩ : ∃ n, calls = n + 1 := ⟨calls - 1, by omega⟩
  have hinside : ∀ first rest, s = first :: rest → Assembles ls first rest := fun first rest hs =>
    hblocks first rest (by rw [hs]; exact Nat.lt_succ_self _)
  rw [parseItems, hs.peek, List.head?_cons, buildItems]
  dsimp only
  rw [if_pos (isDashAt_iff.1 ht), parseItem_eq hinside hs.advance (Nat.le_of_succ_le_succ hcalls)]
  change (landedOptional p.advance (buildBlock p.depth _ _ p.builder _ s) >>= _) >>= _ = _
  cases hblock : buildBlock p.depth (some parent) (some (.index items.length)) p.builder
    (fun t => indent < t.column) s with
  | error e => rfl
  | ok found =>
  obtain ⟨⟨v, rest, hle⟩, b⟩ := found
  have hq : (p.arrive rest b).At ls rest :=
    hs.arrive ((suffix_of_buildBlock hblock).trans (List.suffix_cons t s))
  change ((p.arrive rest b).checkDedent indent >>= fun _ => _) >>= _ = _
  rw [checkDedent_eq hq]
  dsimp only
  split
  · next hfail =>
    rw [hfail]
    rfl
  · next hdedent =>
    rw [hdedent]
    refine parseItems_end hq (by omega) ?_
    rintro _ ⟨⟩
  next next more hdedent =>
  rw [hdedent]
  split
  · next hdash =>
    have hshort : more.length < s.length := hle
    exact ih _ (hlength ▸ hshort)
      (fun first rest hrest => hblocks first rest (Nat.lt_trans hrest hshort)) hq hdash
      (by omega) rfl
  · next hdash =>
    refine parseItems_end hq (by omega) ?_
    rintro _ ⟨⟩
    exact hdash

theorem parseValue_eq {line : Nat} {entry : Entry} (hblocks : ∀ first rest, s = first :: rest →
    Assembles ls first rest) (hs : p.At ls s) (hentry : entry.StandsOn ls line)
    (hcalls : 4 * s.length + 4 ≤ calls) :
    parseValue calls indent parent line entry p =
      landedOptional p (buildEntry p.depth indent parent p.builder line entry s) := by
  obtain ⟨calls, rfl⟩ : ∃ n, calls = n + 1 := ⟨calls - 1, by omega⟩
  rw [parseValue, buildEntry]
  cases hvalue : entry.value with
  | some inline =>
    obtain ⟨text, column⟩ := inline
    obtain ⟨_, -, hshown⟩ := hentry
    dsimp only
    rw [scalar_eq column (hshown _ _ hvalue).1, onLine_ofExcept]
    cases Yaml.onLine line (Yaml.scalar column text) with
    | error e => rfl
    | ok value => exact (landed_nothing hs _).symm
  | none =>
  dsimp only
  rw [hs.peek]
  cases s with
  | nil =>
    refine (landed_buildBlock_nothing hs ?_).symm
    rintro _ ⟨⟩
  | cons t s =>
    rw [List.head?_cons]
    rw [List.length_cons] at hcalls
    dsimp only
    split
    · next hdeeper =>
      rw [(hblocks t s rfl).node hs (by omega), buildBlock, decide_eq_true hdeeper, Bool.true_or,
        if_pos rfl]
      cases buildNode p.depth (some parent) (some (.member entry.key)) p.builder t s <;> rfl
    next hdeeper =>
    split
    · next hdash =>
      obtain ⟨rfl, hlexeme⟩ := hdash
      rw [(hblocks t s rfl).sequence hs (by omega) hlexeme, buildBlock,
        isDashAt_iff.2 ⟨rfl, hlexeme⟩, Bool.or_true, if_pos rfl]
      cases buildNode p.depth (some parent) (some (.member entry.key)) p.builder t s <;> rfl
    · next hdash =>
      rw [landed_buildBlock_nothing hs]
      · rfl
      · rintro _ ⟨⟩
        rw [decide_eq_false hdeeper, Bool.false_or]
        exact Bool.eq_false_iff.2 (mt isDashAt_iff.1 hdash)

/-- A mapping ends at the end or where the column of a token is smaller. -/
theorem parseMembers_end {members : List (String × Nat)} (hs : p.At ls s) (hcalls : 0 < calls)
    (h : ∀ t, s.head? = some t → t.column < indent) :
    parseMembers calls indent parent members p = .ok (members, p) := by
  obtain ⟨calls, rfl⟩ := Nat.exists_eq_add_one.2 hcalls
  rw [parseMembers, hs.peek]
  cases s with
  | nil => rfl
  | cons t s => exact if_pos (h t rfl)

/-- What follows an entry of a mapping at its column is the next one, or refused. -/
theorem parseMembers_next (calls parent : Nat) (members : List (String × Nat))
    (hs : p.At ls (t :: s)) (hcolumn : t.column = indent) :
    parseMembers (calls + 1) indent parent members p =
      match t.lexeme with
      | .dash => refuseAt .unexpectedSequenceEntry t
      | .content text =>
        match Yaml.onLine t.line (Yaml.splitEntry t.column text) with
        | .error e => refuse e
        | .ok none => refuseAt .expectedKey t
        | .ok (some entry) =>
          if members.any fun member => member.1 == entry.key then
            refuseAt (.duplicateKey entry.key) t
          else parseValue calls indent parent t.line entry p.advance >>= fun (child, q) =>
            q.checkDedent indent >>= fun _ =>
              parseMembers calls indent parent (members ++ [(entry.key, child)]) q := by
  subst hcolumn
  rw [parseMembers, hs.peek, List.head?_cons]
  dsimp only
  rw [if_neg (Nat.lt_irrefl _), if_neg (Nat.lt_irrefl _)]
  cases hlexeme : t.lexeme with
  | dash => rfl
  | content text =>
    dsimp only
    rw [splitEntry_eq t.column (hs.text_ne_nil hlexeme), onLine_ofExcept]
    cases Yaml.onLine t.line (Yaml.splitEntry t.column text) with
    | error e => rfl
    | ok entry => cases entry <;> rfl

theorem parseMembers_eq {h : s.length < start.length} {members : List (String × Nat)}
    {entry : Entry} (hblocks : ∀ first rest, rest.length < s.length → Assembles ls first rest)
    (hs : p.At ls (t :: s)) (hentry : EntryAt indent t entry)
    (hcalls : 4 * s.length + 5 ≤ calls) :
    parseMembers calls indent parent members p =
      landed p (buildMembers p.depth indent parent start members p.builder t entry s h) := by
  -- As for sequences.
  induction hlength : s.length using Nat.strong_induction_on
    generalizing s t entry members p calls with
  | _ n ih =>
  obtain ⟨calls, rfl⟩ : ∃ n, calls = n + 1 := ⟨calls - 1, by omega⟩
  have hinside : ∀ first rest, s = first :: rest → Assembles ls first rest := fun first rest hs =>
    hblocks first rest (by rw [hs]; exact Nat.lt_succ_self _)
  have hstands := hs.shown_head.entry_standsOn hentry
  obtain ⟨hcolumn, text, hlexeme, hsplit⟩ := hentry
  rw [parseMembers_next _ _ _ hs hcolumn, hlexeme, buildMembers]
  dsimp only
  have hsplit : Yaml.onLine t.line (Yaml.splitEntry t.column text) = .ok (some entry) := by
    rw [hsplit]
    rfl
  rw [hsplit]
  dsimp only
  split
  · rfl
  rw [parseValue_eq hinside hs.advance hstands (Nat.le_of_succ_le_succ hcalls)]
  change landedOptional p.advance (buildEntry p.depth _ _ p.builder _ entry s) >>= _ = _
  cases hbuilt : buildEntry p.depth indent parent p.builder t.line entry s with
  | error e => rfl
  | ok found =>
  obtain ⟨⟨v, rest, hle⟩, b⟩ := found
  have hq : (p.arrive rest b).At ls rest :=
    hs.arrive ((suffix_of_buildEntry hbuilt).trans (List.suffix_cons t s))
  change ((p.arrive rest b).checkDedent indent >>= fun _ => _) = _
  rw [checkDedent_eq hq]
  dsimp only
  split
  · next hfail =>
    rw [hfail]
    rfl
  · next hdedent =>
    rw [hdedent]
    refine parseMembers_end hq (by omega) ?_
    rintro _ ⟨⟩
  next next more hdedent =>
  rw [hdedent]
  have hshort : more.length < s.length := hle
  split
  · next hshallow =>
    refine parseMembers_end hq (by omega) ?_
    rintro _ ⟨⟩
    exact hshallow
  next hdeep =>
  have hcolumn' : next.column = indent :=
    Nat.le_antisymm (checkDedent_eq_ok.1 hdedent next rfl) (Nat.le_of_not_lt hdeep)
  obtain ⟨calls, rfl⟩ : ∃ n, calls = n + 1 := ⟨calls - 1, by omega⟩
  have hnext := parseMembers_next calls parent (members ++ [(entry.key, v)]) hq hcolumn'
  split
  · next hdash =>
    rw [hdash] at hnext
    exact hnext
  next text htext =>
  rw [htext] at hnext
  dsimp only at hnext
  split
  · next hentry' =>
    rw [hentry'] at hnext
    exact hnext
  · next hentry' =>
    rw [hentry'] at hnext
    exact hnext
  · next entry' hentry' =>
    exact ih _ (hlength ▸ hshort)
      (fun first rest hrest => hblocks first rest (Nat.lt_trans hrest hshort)) hq
      ⟨hcolumn', text, htext, of_onLine hentry'⟩ (by omega) rfl

theorem enter_eq (hs : p.At ls (t :: s)) :
    p.enter = if Json.maxDepth ≤ p.depth then refuseAt (.tooDeep Json.maxDepth) t
      else .ok { p with depth := p.depth + 1 } := by
  rw [enter, hs.item]
  exact if_congr Nat.lt_succ_iff rfl rfl

/-- A collection that is opened. -/
def Cursor.opened (p : Cursor) (content : Content) (parent : Option Nat) (key : Option Key) :
    Cursor :=
  { p with depth := p.depth + 1, builder := p.builder.push content parent key }

theorem Cursor.At.opened (hs : p.At ls s) (content : Content) :
    (p.opened content parent? key).At ls s :=
  ⟨hs.left, hs.inside, hs.shown⟩

/-- A collection is closed behind its parts. -/
theorem close_eq {number : Nat} {content first : Content} {parts : List Token}
    (hs : p.At ls s) (hnumber : number < b.next) (hshort : parts.length < s.length) :
    (((p.opened first parent? key).arrive parts b).close p.pos number content) =
      .ok (number, p.arrive parts (b.fill number content)) := by
  have hlength := hs.length
  have hprogress : p.pos < p.tokens.length - parts.length := by omega
  have hfill : ((p.opened first parent? key).arrive parts b).fill number content =
      .ok ((p.opened first parent? key).arrive parts (b.fill number content)) := if_pos hnumber
  rw [close, hfill]
  exact if_pos hprogress

/-- A collection is stored before its parts and filled behind them. -/
theorem collection_eq {x : Except YamlError (Reading s α × Builder)} {first : Content}
    (content : α → Content) (hs : p.At ls s)
    (hx : ∀ ⦃r b⦄, x = .ok (r, b) → (p.builder.push first parent? key).next ≤ b.next) :
    (landed (p.opened first parent? key) x >>= fun (parts, q) =>
      q.close p.pos p.builder.next (content parts)) =
      landed p (x.map fun (r, b) =>
        (r.map fun _ => p.builder.next, b.fill p.builder.next (content r.value))) := by
  cases x with
  | error e => rfl
  | ok found =>
    obtain ⟨r, b⟩ := found
    have hnext := hx rfl
    rw [Builder.next_push] at hnext
    exact close_eq hs hnext r.shorter

theorem parseSequence_eq
    (hblocks : ∀ first' rest', rest'.length < rest.length → Assembles ls first' rest')
    (hs : p.At ls (first :: rest)) (hcalls : 4 * rest.length + 6 ≤ calls)
    (hdash : first.lexeme = .dash) :
    parseSequence calls parent? key first.column p =
      landed p (buildNode p.depth parent? key p.builder first rest) := by
  obtain ⟨calls, rfl⟩ : ∃ n, calls = n + 1 := ⟨calls - 1, by omega⟩
  rw [parseSequence, enter_eq hs, buildNode, hdash]
  dsimp only
  split
  · rfl
  have hopened : (p.opened (.array []) parent? key).At ls (first :: rest) := hs.opened _
  change (parseItems calls _ _ _ (p.opened (.array []) parent? key) >>= _) = _
  rw [parseItems_eq hblocks hopened (isDashAt_iff.2 ⟨rfl, hdash⟩) (Nat.le_of_succ_le_succ hcalls)]
  exact collection_eq .array hs fun _ _ => next_le_of_buildItems

theorem parseMapping_eq {text : List Char} {entry : Entry}
    (hblocks : ∀ first' rest', rest'.length < rest.length → Assembles ls first' rest')
    (hs : p.At ls (first :: rest)) (hcalls : 4 * rest.length + 6 ≤ calls)
    (htext : first.lexeme = .content text)
    (hentry : Yaml.onLine first.line (Yaml.splitEntry first.column text) = .ok (some entry)) :
    parseMapping calls parent? key first.column p =
      landed p (buildNode p.depth parent? key p.builder first rest) := by
  obtain ⟨calls, rfl⟩ : ∃ n, calls = n + 1 := ⟨calls - 1, by omega⟩
  rw [parseMapping, enter_eq hs, buildNode, htext]
  dsimp only
  rw [hentry]
  dsimp only
  split
  · rfl
  have hopened : (p.opened (.object []) parent? key).At ls (first :: rest) := hs.opened _
  change (parseMembers calls _ _ _ (p.opened (.object []) parent? key) >>= _) = _
  rw [parseMembers_eq hblocks hopened ⟨rfl, text, htext, of_onLine hentry⟩
    (Nat.le_of_succ_le_succ hcalls)]
  exact collection_eq .object hs fun _ _ => next_le_of_buildMembers

theorem parseNode_eq
    (hblocks : ∀ first' rest', rest'.length < rest.length → Assembles ls first' rest')
    (hs : p.At ls (first :: rest)) (hcalls : 4 * rest.length + 7 ≤ calls) :
    parseNode calls parent? key p =
      landed p (buildNode p.depth parent? key p.builder first rest) := by
  obtain ⟨calls, rfl⟩ : ∃ n, calls = n + 1 := ⟨calls - 1, by omega⟩
  have hcalls := Nat.le_of_succ_le_succ hcalls
  rw [parseNode, hs.item, ok_bind]
  cases hlexeme : first.lexeme with
  | dash => exact parseSequence_eq hblocks hs hcalls hlexeme
  | content text =>
    dsimp only
    have hne := hs.text_ne_nil hlexeme
    rw [splitEntry_eq _ hne, scalar_eq _ hne, onLine_ofExcept, onLine_ofExcept]
    cases hentry : Yaml.onLine first.line (Yaml.splitEntry first.column text) with
    | error e =>
      rw [buildNode, hlexeme]
      dsimp only
      rw [hentry]
      rfl
    | ok entry =>
      cases entry with
      | some entry => exact parseMapping_eq hblocks hs hcalls hlexeme hentry
      | none =>
        rw [buildNode, hlexeme]
        dsimp only
        rw [hentry]
        dsimp only
        cases Yaml.onLine first.line (Yaml.scalar first.column text) with
        | error e => rfl
        | ok value =>
          exact (landed_nothing hs.advance (.ofFlat value)).symm

theorem assembles (first : Token) (rest : List Token) : Assembles ls first rest := by
  -- The nodes in a collection have fewer tokens.
  induction hlength : rest.length using Nat.strong_induction_on generalizing first rest with
  | _ n ih =>
  have hblocks : ∀ first' rest', rest'.length < rest.length → Assembles ls first' rest' :=
    fun first' rest' h => ih _ (hlength ▸ h) first' rest' rfl
  exact ⟨fun hs hcalls _ _ => parseNode_eq hblocks hs hcalls,
    fun hs hcalls hdash _ _ => parseSequence_eq hblocks hs hcalls hdash⟩

/-! ## Documents -/

theorem parseText_error {cs : List Char} (h : tokens cs = .error e) (calls : Nat) :
    parseText calls cs = refuse e := by
  rw [parseText, lexText_eq, h]
  rfl

/-- A text is stored as it is without positions, and all of its tokens are passed. -/
theorem parseText_eq {cs : List Char} {ts : List Token} (hts : tokens cs = .ok ts)
    (hcalls : 4 * ts.length + 3 ≤ calls) :
    parseText calls cs = ofExcept ((buildText cs).map
      fun a => ((a.root, ⟨ts, ts.length, 0, ⟨a.slots⟩⟩) : Nat × Cursor)) := by
  have hs : (⟨ts, 0, 0, .empty⟩ : Cursor).At (lines cs) ts :=
    ⟨rfl, Nat.zero_le _, tokens_shown hts⟩
  rw [parseText, lexText_eq, hts, ofExcept_ok, ok_bind, parseDocument, hs.peek]
  unfold buildText
  rw [hts]
  cases ts with
  | nil => rfl
  | cons first rest =>
  rw [List.head?_cons]
  dsimp only
  rw [(assembles first rest).node hs hcalls]
  change _ = ofExcept ((buildNode 0 none none .empty first rest >>= _).map _)
  cases hbuilt : buildNode 0 none none .empty first rest with
  | error e => rfl
  | ok found =>
  obtain ⟨⟨v, behind, hshort⟩, b⟩ := found
  have hq := hs.arrive (b := b) (suffix_of_buildNode hbuilt)
  change (Cursor.checkDedent first.column (Cursor.arrive _ behind b) >>= fun _ => _) =
    ofExcept ((checkDedent first.column behind >>= _).map _)
  rw [checkDedent_eq hq]
  cases checkDedent first.column behind with
  | error e => rfl
  | ok _ =>
  dsimp only
  rw [ofExcept_ok, ok_bind, hq.peek]
  cases behind <;> rfl

theorem read_eq (lossy : Bool) (s : Bytes) :
    read lossy s = (decode lossy s >>= readText).map Document.mk := by
  rw [read, decode]
  cases Utf8.split s with
  | mk text broken => cases broken <;> cases lossy <;> rfl

/--
Whatever the bytes and the option are, the reader that goes by positions finds what `read` finds:
it refuses the text for the same fault, or stores a tree that settles to the same value and has
passed all tokens then.
-/
theorem reads_in_range (lossy : Bool) (s : Bytes) :
    ∃ enough, ∀ calls, enough ≤ calls →
      (∀ e, read lossy s = .error e → parse calls lossy s = .error (.refused e)) ∧
      ∀ d, read lossy s = .ok d → ∃ cs ts, ∃ w : PackageAudit.Written,
        decode lossy s = .ok cs ∧ tokens cs = .ok ts ∧ w.KeysDistinct ∧ w.settle = d.root ∧
          parse calls lossy s = .ok (w.arena.root, ⟨ts, ts.length, 0, ⟨w.slots⟩⟩) := by
  rw [read_eq]
  unfold parse
  cases decode lossy s with
  | error e =>
    refine ⟨0, fun calls _ => ⟨?_, nofun⟩⟩
    rintro _ ⟨⟩
    rfl
  | ok cs =>
  change ∃ enough, ∀ calls, enough ≤ calls →
    (∀ e, (readText cs).map Document.mk = .error e → parseText calls cs = _) ∧
      ∀ d, (readText cs).map Document.mk = .ok d → _
  cases hts : tokens cs with
  | error e =>
    have hread : readText cs = .error e := by
      unfold readText
      rw [hts]
      rfl
    refine ⟨0, fun calls _ => ⟨fun e' he' => ?_, fun d hd => ?_⟩⟩
    · rw [hread] at he'
      cases he'
      exact parseText_error hts calls
    · rw [hread] at hd
      cases hd
  | ok ts =>
    refine ⟨4 * ts.length + 3, fun calls hcalls => ?_⟩
    have hparse := parseText_eq hts hcalls
    refine ⟨fun e he => ?_, fun d hd => ?_⟩
    · rw [hparse, buildText_error (of_map_error he)]
      rfl
    · obtain ⟨v, hv, rfl⟩ := of_map hd
      obtain ⟨w, hdistinct, hsettle, hbuild⟩ := buildText_of_readText hv
      refine ⟨cs, ts, w, rfl, hts, hdistinct, hsettle, ?_⟩
      change parseText calls cs = _
      rw [hparse, hbuild]
      rfl

end Positions

end Yaml

end PackageAudit
