import PackageAudit.Proofs.Document.Stored
import PackageAudit.Proofs.Document.Yaml.Soundness

/-!
# Proofs.Document.Yaml.Builder — how the slots of a YAML text come about

The blocks of a text are read as by `Yaml.readNode`, and stored one slot at a time: a container
before its parts, to be filled when all of them are there.

* `Yaml.buildNode` — store the node at the head of the tokens;
* `Yaml.build` — the slots of a text;
* `Yaml.builds` — they are those of a tree that settles to the value which is read;
* `Yaml.build_of_read` — the same of whole texts.
-/

namespace PackageAudit

/-- What the slot of a value holds that is a scalar or an empty collection. -/
def Content.ofFlat : Value → Content
  | .null => .scalar .null
  | .bool b => .scalar (.bool b)
  | .number n => .scalar (.number n)
  | .string s => .scalar (.string s)
  | .array _ => .array []
  | .object _ _ => .object []

namespace Yaml

/-! ## One slot at a time -/

mutual

/-- Store the node whose first token is `first`, `depth` being the number of collections around it. -/
def buildNode (depth : Nat) (parent : Option Nat) (key : Option Key) (b : Builder) (first : Token)
    (rest : List Token) : Except YamlError (Reading (first :: rest) Nat × Builder) :=
  match first.lexeme with
  | .dash =>
    if Json.maxDepth ≤ depth then fail (.tooDeep Json.maxDepth) first.line first.column
    else
      let opened := b.push (.array []) parent key
      (buildItems (depth + 1) first.column b.next (first :: rest) [] opened rest (by simp)).map
        fun (r, b') => (r.map fun _ => b.next, b'.fill b.next (.array r.value))
  | .content text =>
    match onLine first.line (splitEntry first.column text) with
    | .error e => .error e
    | .ok none =>
      match onLine first.line (scalar first.column text) with
      | .ok value => .ok (⟨b.next, rest, by simp⟩, b.push (.ofFlat value) parent key)
      | .error e => .error e
    | .ok (some entry) =>
      if Json.maxDepth ≤ depth then fail (.tooDeep Json.maxDepth) first.line first.column
      else
        let opened := b.push (.object []) parent key
        (buildMembers (depth + 1) first.column b.next (first :: rest) [] opened first entry rest
          (by simp)).map
          fun (r, b') => (r.map fun _ => b.next, b'.fill b.next (.object r.value))
  termination_by 4 * rest.length + 4

/-- Store the node at the head of `s` if its first token belongs to it, else null. -/
def buildBlock (depth : Nat) (parent : Option Nat) (key : Option Key) (b : Builder)
    (belongs : Token → Bool) (s : List Token) :
    Except YamlError (OptionalReading s Nat × Builder) :=
  match s with
  | [] => .ok (⟨b.next, [], by simp⟩, b.push (.scalar .null) parent key)
  | first :: rest =>
    if belongs first then
      (buildNode depth parent key b first rest).map fun (r, b) => (r.toOptional, b)
    else .ok (⟨b.next, first :: rest, by simp⟩, b.push (.scalar .null) parent key)
  termination_by 4 * s.length + 1

/-- Store the entries of a sequence from `s` on, behind those with the given numbers. -/
def buildItems (depth indent parent : Nat) (start : List Token) (items : List Nat) (b : Builder)
    (s : List Token) (h : s.length < start.length) :
    Except YamlError (Reading start (List Nat) × Builder) :=
  match buildBlock depth (some parent) (some (.index items.length)) b (fun t => indent < t.column)
      s with
  | .error e => .error e
  | .ok (item, b) =>
    have hitem := item.notLonger
    let items := items ++ [item.value]
    match checkDedent indent item.rest, hrest : item.rest with
    | .error e, _ => .error e
    | .ok _, [] => .ok (⟨items, [], by simp only [List.length_nil]; omega⟩, b)
    | .ok _, next :: more =>
      if isDashAt indent next then
        have : more.length < item.rest.length := by simp [hrest]
        buildItems depth indent parent start items b more (by omega)
      else .ok (⟨items, next :: more, by rw [← hrest]; omega⟩, b)
  termination_by 4 * s.length + 2

/-- Store the value of an entry of a mapping at column `indent`. -/
def buildEntry (depth indent parent : Nat) (b : Builder) (line : Nat) (entry : Entry)
    (s : List Token) : Except YamlError (OptionalReading s Nat × Builder) :=
  let key := some (Key.member entry.key)
  match entry.value with
  | some (text, column) =>
    (onLine line (scalar column text)).map fun value =>
      (.nothing b.next, b.push (.ofFlat value) (some parent) key)
  | none => buildBlock depth (some parent) key b (fun t => indent < t.column || isDashAt indent t) s
  termination_by 4 * s.length + 2

/-- Store the entries of a mapping from `entry` on, behind those with the given keys and numbers. -/
def buildMembers (depth indent parent : Nat) (start : List Token) (members : List (String × Nat))
    (b : Builder) (token : Token) (entry : Entry) (s : List Token) (h : s.length < start.length) :
    Except YamlError (Reading start (List (String × Nat)) × Builder) :=
  if members.any fun member => member.1 == entry.key then
    fail (.duplicateKey entry.key) token.line token.column
  else
    match buildEntry depth indent parent b token.line entry s with
    | .error e => .error e
    | .ok (member, b) =>
      have hmember := member.notLonger
      let members := members ++ [(entry.key, member.value)]
      match checkDedent indent member.rest, hrest : member.rest with
      | .error e, _ => .error e
      | .ok _, [] => .ok (⟨members, [], by simp only [List.length_nil]; omega⟩, b)
      | .ok _, next :: more =>
        if next.column < indent then
          .ok (⟨members, next :: more, by rw [← hrest]; omega⟩, b)
        else
          match next.lexeme with
          | .dash => fail .unexpectedSequenceEntry next.line next.column
          | .content text =>
            match onLine next.line (splitEntry next.column text) with
            | .error e => .error e
            | .ok none => fail .expectedKey next.line next.column
            | .ok (some entry) =>
              have : more.length < member.rest.length := by simp [hrest]
              buildMembers depth indent parent start members b next entry more (by omega)
  termination_by 4 * s.length + 3

end

/-- The slots of a text. -/
def buildText (cs : List Char) : Except YamlError Arena := do
  match ← tokens cs with
  | [] => pure ⟨(Builder.empty.push (.scalar .null) none none).slots, Builder.empty.next⟩
  | first :: rest =>
    let (root, b) ← buildNode 0 none none .empty first rest
    checkDedent first.column root.rest
    match root.rest with
    | [] => pure ⟨b.slots, root.value⟩
    | extra :: _ => fail .trailingContent extra.line extra.column

/-- The slots of a text in bytes, broken characters being refused or read as U+FFFD. -/
def build (allowInvalidUtf8 : Bool) (s : Bytes) : Except YamlError Arena :=
  match Utf8.split s with
  | (front, _ :: _) =>
    if allowInvalidUtf8 then buildText (dropMark (Utf8.decodeLossy s))
    else .error (invalidUtf8 front)
  | (text, []) => buildText (dropMark text)

/-! ## The slots of a tree -/

variable {depth indent parent : Nat} {key : Option Key} {b : Builder} {s : List Token} {v : Value}

/-- For every block that the reader finds at the head of `s`, the slots of a tree are stored. -/
def Builds (s : List Token) : Prop :=
  ∀ ⦃depth belongs r⦄, readBlock depth belongs s = .ok r → ∃ w : Written, w.KeysDistinct ∧
    w.settle = r.value ∧ ∀ parent key b, buildBlock depth parent key b belongs s =
      .ok (r.map fun _ => b.next, b.append (w.slotsFrom b.next parent key))

theorem flat_of_scalar {column : Nat} {cs : List Char} {v : Value}
    (h : scalar column cs = .ok v) : ∃ w : Written, w.parts = [] ∧ w.settle = v ∧
      ∀ number, w.content number = .ofFlat v := by
  have hscalar (x : Scalar) : ∃ w : Written, w.parts = [] ∧ w.settle = x.toValue ∧
      ∀ number, w.content number = .ofFlat x.toValue :=
    ⟨.scalar x, rfl, rfl, fun _ => by cases x <;> rfl⟩
  unfold scalar at h
  split at h
  · -- text in quotes
    split at h <;> cases h
    exact hscalar (.string _)
  -- flow collections, of which only the empty ones are read
  split at h
  · cases h
    exact ⟨.array [], rfl, rfl, fun _ => rfl⟩
  split at h
  · cases h
    exact ⟨.object [], rfl, rfl, fun _ => rfl⟩
  split at h
  · cases h
  · cases h
  · unfold plainValue at h
    dsimp only at h
    split at h
    · next hnamed =>
      cases h
      unfold namedValue? at hnamed
      split at hnamed <;> cases hnamed
      all_goals first
        | exact hscalar .null
        | exact hscalar (.bool _)
        | exact hscalar (.number _)
    split at h
    · cases h
    split at h
    · cases h
      exact hscalar (.number _)
    · cases h
      exact hscalar (.string _)

/-- A scalar is stored in one slot. -/
theorem builds_scalar {column : Nat} {cs : List Char} (h : scalar column cs = .ok v) :
    ∃ w : Written, w.KeysDistinct ∧ w.settle = v ∧ ∀ parent key (b : Builder),
      b.push (.ofFlat v) parent key = b.append (w.slotsFrom b.next parent key) := by
  obtain ⟨w, hparts, hsettle, hcontent⟩ := flat_of_scalar h
  refine ⟨w, .intro ?_ ?_, hsettle, fun parent key b => ?_⟩
  · rw [hparts]
    exact List.nodup_nil
  · rw [hparts]
    exact List.forall_mem_nil _
  · rw [Written.slotsFrom_eq, hparts, hcontent]
    rfl

theorem buildItems_of_readItems {start : List Token} {vs : List Value} {h : s.length < start.length}
    {r : Reading start Value} (hblocks : ∀ t, t.length ≤ s.length → Builds t)
    (hread : readItems depth indent start vs s h = .ok r) :
    ∃ ws : List Written, (∀ w ∈ ws, w.KeysDistinct) ∧
      r.value = .array (vs.reverse ++ Written.settleAll ws) ∧
      ∀ parent items b, buildItems depth indent parent start items b s h =
        .ok (r.map fun _ => items ++ Written.numbersFrom b.next ws,
          b.append (Written.itemSlots b.next parent items.length ws)) := by
  induction hlength : s.length using Nat.strong_induction_on generalizing s vs with
  | _ n ih =>
  obtain ⟨⟨v, rest, hle⟩, hitem, hstep⟩ := of_readItems hread
  obtain ⟨w, hdistinct, rfl, hbuild⟩ := hblocks s (Nat.le_refl _) hitem
  rcases hstep with ⟨hend, hvalue, hrest⟩ | ⟨t, more, h', rfl, hdash, hread⟩
  · -- the last entry
    obtain ⟨_, _, hshort⟩ := r
    cases hvalue
    cases hrest
    refine ⟨[w], List.forall_mem_singleton.2 hdistinct, rfl, fun parent items b => ?_⟩
    have hdedent : checkDedent indent rest = .ok () :=
      checkDedent_eq_ok.2 fun t ht => (hend t ht).1
    rw [buildItems, hbuild, Written.itemSlots, Written.itemSlots, List.append_nil]
    dsimp only [OptionalReading.map]
    split
    · next hfail => cases hdedent.symm.trans hfail
    · rfl
    next t more _ =>
    rw [if_neg (Bool.eq_false_iff.1 (hend t rfl).2)]
    rfl
  · have hshort : more.length < s.length := Nat.lt_of_lt_of_le (Nat.lt_succ_self _) hle
    obtain ⟨ws, hws, hvalue, hmore⟩ := ih _ (hlength ▸ hshort)
      (fun t ht => hblocks t (Nat.le_trans ht (Nat.le_of_lt hshort))) hread rfl
    refine ⟨w :: ws, List.forall_mem_cons.2 ⟨hdistinct, hws⟩, ?_, fun parent items b => ?_⟩
    · rw [hvalue, List.reverse_cons, List.append_assoc]
      rfl
    have hdedent : checkDedent indent (t :: more) = .ok () := by
      refine checkDedent_eq_ok.2 ?_
      rintro _ ⟨⟩
      exact Nat.le_of_eq (isDashAt_iff.1 hdash).1
    rw [buildItems, hbuild]
    dsimp only [OptionalReading.map]
    split
    · next hfail => cases hdedent.symm.trans hfail
    · next hnil => cases hnil
    next hcons =>
    cases hcons
    rw [if_pos hdash, hmore]
    simp only [Builder.next_append, Builder.append_append, Written.length_slotsFrom,
      Written.numbersFrom, Written.itemSlots, List.length_append, List.length_singleton,
      List.append_assoc, List.singleton_append]

theorem buildEntry_of_read {line : Nat} {entry : Entry} {m : OptionalReading s Value}
    (hblocks : Builds s) (hread : entry.read depth indent line s = .ok m) :
    ∃ w : Written, w.KeysDistinct ∧ w.settle = m.value ∧ ∀ parent b,
      buildEntry depth indent parent b line entry s = .ok (m.map fun _ => b.next,
        b.append (w.slotsFrom b.next (some parent) (some (.member entry.key)))) := by
  unfold Entry.read at hread
  cases hentry : entry.value with
  | none =>
    rw [hentry] at hread
    obtain ⟨w, hdistinct, hsettle, hbuild⟩ := hblocks hread
    refine ⟨w, hdistinct, hsettle, fun parent b => ?_⟩
    rw [buildEntry, hentry]
    exact hbuild _ _ _
  | some inline =>
    rw [hentry] at hread
    obtain ⟨value, hvalue, rfl⟩ := of_map hread
    obtain ⟨w, hdistinct, hsettle, hpush⟩ := builds_scalar (of_onLine hvalue)
    refine ⟨w, hdistinct, hsettle, fun parent b => ?_⟩
    rw [buildEntry, hentry]
    dsimp only
    rw [hvalue, ← hpush]
    rfl

theorem buildMembers_of_readMembers {start : List Token} {members : List (String × Value)}
    {token : Token} {entry : Entry} {h : s.length < start.length} {r : Reading start Value}
    (hblocks : ∀ t, t.length ≤ s.length → Builds t)
    (hread : readMembers depth indent start members token entry s h = .ok r) :
    ∃ ws : List (String × Written), (∀ w ∈ ws, w.2.KeysDistinct) ∧ (ws.map Prod.fst).Nodup ∧
      (∀ w ∈ ws, w.1 ∉ members.map Prod.fst) ∧
      r.value = (Written.settleMembers ⟨members, []⟩ ws).toValue ∧
      ∀ parent entries b, (∀ name, name ∈ entries.map Prod.fst ↔ name ∈ members.map Prod.fst) →
        buildMembers depth indent parent start entries b token entry s h =
          .ok (r.map fun _ => Written.entriesFrom b.next entries ws,
            b.append (Written.memberSlots b.next parent ws)) := by
  induction hlength : s.length using Nat.strong_induction_on
    generalizing s members token entry with
  | _ n ih =>
  obtain ⟨hnew, ⟨v, rest, hle⟩, hm, hstep⟩ := of_readMembers hread
  obtain ⟨w, hdistinct, rfl, hbuild⟩ := buildEntry_of_read (hblocks s (Nat.le_refl _)) hm
  have hput : Json.Members.put ⟨members, []⟩ entry.key w.settle =
      ⟨(entry.key, w.settle) :: members, []⟩ := Json.put_new hnew
  have hrepeated {entries : List (String × Nat)}
      (hkeys : ∀ name, name ∈ entries.map Prod.fst ↔ name ∈ members.map Prod.fst) :
      ¬ (entries.any fun member => member.1 == entry.key) = true :=
    mt (any_key_iff.trans (hkeys _)).1 hnew
  rcases hstep with ⟨hfollows, hvalue, hrest⟩ | ⟨t, next, more, h', hfollows, hread⟩
  · -- the last entry
    obtain ⟨_, _, hshort⟩ := r
    cases hvalue
    cases hrest
    refine ⟨[(entry.key, w)], List.forall_mem_singleton.2 hdistinct, List.nodup_singleton _,
      List.forall_mem_singleton.2 hnew, ?_, fun parent entries b hkeys => ?_⟩
    · rw [Written.settleMembers, Written.settleMembers, hput, Json.Members.toValue,
        List.reverse_cons]
      rfl
    rw [buildMembers, if_neg (hrepeated hkeys), hbuild, Written.memberSlots, Written.memberSlots,
      List.append_nil, Written.entriesFrom, Written.entriesFrom,
      Written.enter_new (mt (hkeys _).1 hnew)]
    cases hfollows with
    | nothing hdedent hlast =>
      dsimp only [OptionalReading.map]
      split
      · next hfail => cases hdedent.symm.trans hfail
      · rfl
      · rw [if_pos (hlast _ rfl)]
        rfl
  · cases hfollows with
    | entry hdedent hcolumn hlexeme hentry =>
    have hshort : more.length < s.length := Nat.lt_of_lt_of_le (Nat.lt_succ_self _) hle
    obtain ⟨ws, hws, hnodup, hfresh, hvalue, hmore⟩ := ih _ (hlength ▸ hshort)
      (fun t ht => hblocks t (Nat.le_trans ht (Nat.le_of_lt hshort))) hread rfl
    refine ⟨(entry.key, w) :: ws, List.forall_mem_cons.2 ⟨hdistinct, hws⟩,
      List.nodup_cons.2 ⟨fun hmem => ?_, hnodup⟩, List.forall_mem_cons.2 ⟨hnew, fun u hu hmem => ?_⟩,
      ?_, fun parent entries b hkeys => ?_⟩
    · obtain ⟨u, hu, hkey⟩ := List.mem_map.1 hmem
      exact hfresh u hu (hkey ▸ List.mem_cons_self)
    · exact hfresh u hu (List.mem_cons_of_mem _ hmem)
    · rw [hvalue, Written.settleMembers, hput]
    have hkeys' : ∀ name, name ∈ (entries ++ [(entry.key, b.next)]).map Prod.fst ↔
        name ∈ ((entry.key, w.settle) :: members).map Prod.fst := by
      intro name
      rw [List.map_append, List.mem_append, hkeys, List.map_cons, List.mem_cons, or_comm]
      simp
    rw [buildMembers, if_neg (hrepeated hkeys), hbuild, Written.entriesFrom, Written.memberSlots,
      Written.enter_new (mt (hkeys _).1 hnew)]
    dsimp only [OptionalReading.map]
    split
    · next hfail => cases hdedent.symm.trans hfail
    · next hnil => cases hnil
    next hcons =>
    cases hcons
    rw [if_neg hcolumn]
    split
    · next hdash => cases hlexeme.symm.trans hdash
    next hcontent =>
    cases hlexeme.symm.trans hcontent
    split
    · next hfail => cases hentry.symm.trans hfail
    · next hnone => cases hentry.symm.trans hnone
    next hsome =>
    cases hentry.symm.trans hsome
    rw [hmore _ _ _ hkeys', Builder.next_append, Builder.append_append, Written.length_slotsFrom]

theorem buildNode_of_readNode {first : Token} {rest : List Token}
    {r : Reading (first :: rest) Value} (hblocks : ∀ t, t.length ≤ rest.length → Builds t)
    (hread : readNode depth first rest = .ok r) :
    ∃ w : Written, w.KeysDistinct ∧ w.settle = r.value ∧ ∀ parent key b,
      buildNode depth parent key b first rest =
        .ok (r.map fun _ => b.next, b.append (w.slotsFrom b.next parent key)) := by
  rw [readNode] at hread
  split at hread
  · next hlexeme =>
    split at hread
    · cases hread
    next hdeep =>
    obtain ⟨ws, hws, hvalue, hbuild⟩ := buildItems_of_readItems hblocks hread
    refine ⟨.array ws, .array hws, hvalue.symm, fun parent key b => ?_⟩
    rw [buildNode, hlexeme]
    dsimp only
    rw [if_neg hdeep, hbuild]
    simp only [Except.map, Builder.fill_append, Builder.next_push, Written.slotsFrom, Reading.map,
      List.nil_append, List.length_nil]
  next text hlexeme =>
  split at hread
  · cases hread
  · next hentry =>
    split at hread
    · next value hvalue =>
      cases hread
      obtain ⟨w, hdistinct, hsettle, hpush⟩ := builds_scalar (of_onLine hvalue)
      refine ⟨w, hdistinct, hsettle, fun parent key b => ?_⟩
      rw [buildNode, hlexeme]
      simp only [hentry, hvalue, hpush]
      rfl
    · cases hread
  · next entry hentry =>
    split at hread
    · cases hread
    next hdeep =>
    obtain ⟨ws, hws, hnodup, -, hvalue, hbuild⟩ := buildMembers_of_readMembers hblocks hread
    refine ⟨.object ws, .object hws hnodup, hvalue.symm, fun parent key b => ?_⟩
    rw [buildNode, hlexeme]
    simp only [hentry, if_neg hdeep, hbuild _ [] _ fun _ => Iff.rfl]
    simp only [Except.map, Builder.fill_append, Builder.next_push, Written.slotsFrom, Reading.map]

theorem builds (s : List Token) : Builds s := by
  induction hlength : s.length using Nat.strong_induction_on generalizing s with
  | _ n ih =>
  intro depth belongs r hread
  rw [readBlock.eq_def] at hread
  split at hread
  · cases hread
    refine ⟨.scalar .null, .scalar _, rfl, fun parent key b => ?_⟩
    rw [buildBlock]
    rfl
  next first rest =>
  have hblocks : ∀ t, t.length ≤ rest.length → Builds t := fun t ht =>
    ih _ (hlength ▸ Nat.lt_succ_of_le ht) t rfl
  split at hread
  · next hbelongs =>
    obtain ⟨node, hnode, rfl⟩ := of_map hread
    obtain ⟨w, hdistinct, hsettle, hbuild⟩ := buildNode_of_readNode hblocks hnode
    refine ⟨w, hdistinct, hsettle, fun parent key b => ?_⟩
    rw [buildBlock, if_pos hbelongs, hbuild]
    rfl
  · next hbelongs =>
    cases hread
    refine ⟨.scalar .null, .scalar _, rfl, fun parent key b => ?_⟩
    rw [buildBlock, if_neg hbelongs]
    rfl

theorem buildText_of_readText {cs : List Char} (h : readText cs = .ok v) :
    ∃ w : Written, w.KeysDistinct ∧ w.settle = v ∧ buildText cs = .ok w.arena := by
  obtain ⟨ts, hts, h⟩ := of_bind h
  cases ts with
  | nil =>
    cases h
    refine ⟨.scalar .null, .scalar _, rfl, ?_⟩
    rw [buildText, hts]
    rfl
  | cons first rest =>
    obtain ⟨root, hroot, h⟩ := of_bind h
    obtain ⟨_, hdedent, h⟩ := of_bind h
    obtain ⟨w, hdistinct, hsettle, hbuild⟩ := buildNode_of_readNode (fun t _ => builds t) hroot
    obtain ⟨value, behind, hshort⟩ := root
    cases behind with
    | cons extra more => cases h
    | nil =>
      cases h
      refine ⟨w, hdistinct, hsettle, ?_⟩
      rw [buildText, hts]
      change (buildNode 0 none none .empty first rest).bind _ = _
      rw [hbuild]
      rfl

/-- The slots of a text that is read are those of a tree without repeated keys. -/
theorem build_of_read {lossy : Bool} {s : Bytes} {d : Document} (h : read lossy s = .ok d) :
    ∃ w : Written, w.KeysDistinct ∧ w.settle = d.root ∧ build lossy s = .ok w.arena := by
  obtain ⟨⟨text, broken⟩, hsplit⟩ : ∃ halves, Utf8.split s = halves := ⟨_, rfl⟩
  rw [read, hsplit] at h
  rw [build, hsplit]
  cases broken with
  | nil =>
    obtain ⟨root, hroot, rfl⟩ := of_map h
    exact buildText_of_readText hroot
  | cons b broken =>
    cases lossy with
    | false => cases h
    | true =>
      obtain ⟨root, hroot, rfl⟩ := of_map h
      exact buildText_of_readText hroot

end Yaml

end PackageAudit
