import PackageAudit.Proofs.Document.Yaml.Soundness
import PackageAudit.Proofs.Text.Utf8

/-!
# Proofs.Document.Yaml.Completeness — the reader misses no node that the grammar spells

* `Yaml.readItems_last`, `Yaml.readItems_next` — one step along a sequence;
* `Yaml.ReadBack` — a part of a text is read as what it spells, in front of what may follow it;
* `Yaml.readBack_of_spelled` — every part that the grammar spells, by induction on its derivation;
* `Yaml.readText_iff` — the tree of a text, by its tokens;
* `Yaml.readText_of_read` — the text of a document.
-/

namespace PackageAudit

namespace Yaml

variable {depth c : Nat} {s rest : List Token} {t : Token} {v : Value}
  {belongs : Token → Bool}

/-! ## Steps of the reader -/

/-- The reader succeeds with a value in front of `rest`. -/
def Yields (result : Except YamlError (Reading s Value)) (v : Value) (rest : List Token) : Prop :=
  ∃ r, result = .ok r ∧ r.value = v ∧ r.rest = rest

/-- The same where there may be nothing. -/
def MayYield (result : Except YamlError (OptionalReading s Value)) (v : Value)
    (rest : List Token) : Prop :=
  ∃ r, result = .ok r ∧ r.value = v ∧ r.rest = rest

section Items

variable {start : List Token} {items : List Value} {h : s.length < start.length}

theorem readItems_last (hitem : MayYield (readBlock depth (fun t => c < t.column) s) v rest)
    (hend : ItemsEnd c rest) :
    Yields (readItems depth c start items s h) (.array (items.reverse ++ [v])) rest := by
  obtain ⟨⟨v, rest, hle⟩, hitem, rfl, rfl⟩ := hitem
  have hdedent : checkDedent c rest = .ok () := checkDedent_eq_ok.2 fun t ht => (hend t ht).1
  rw [readItems]
  split
  · next hfail => cases hitem.symm.trans hfail
  next hfound =>
  cases hitem.symm.trans hfound
  dsimp only
  split
  · next hfail => cases hdedent.symm.trans hfail
  · exact ⟨_, rfl, by rw [List.reverse_cons], rfl⟩
  next t more _ =>
  rw [if_neg (Bool.eq_false_iff.1 (hend t rfl).2)]
  exact ⟨_, rfl, by rw [List.reverse_cons], rfl⟩

theorem readItems_next {x : Value} {more : List Token}
    (hitem : MayYield (readBlock depth (fun t => c < t.column) s) v (t :: more))
    (ht : isDashAt c t = true)
    (hmore : ∀ h, Yields (readItems depth c start (v :: items) more h) x rest) :
    Yields (readItems depth c start items s h) x rest := by
  obtain ⟨⟨v, next, hle⟩, hitem, rfl, rfl⟩ := hitem
  have hdedent : checkDedent c (t :: more) = .ok () := by
    refine checkDedent_eq_ok.2 ?_
    rintro _ ⟨⟩
    exact Nat.le_of_eq (isDashAt_iff.1 ht).1
  rw [readItems]
  split
  · next hfail => cases hitem.symm.trans hfail
  next hfound =>
  cases hitem.symm.trans hfound
  dsimp only
  split
  · next hfail => cases hdedent.symm.trans hfail
  · next hnil => cases hnil
  next hcons =>
  cases hcons
  rw [if_pos ht]
  exact hmore _

end Items

theorem readNode_scalar (h : Lexicon.reader.scalar t v) :
    Yields (readNode depth t rest) v rest := by
  obtain ⟨text, hlexeme, hentry, hv⟩ := h
  rw [readNode]
  split
  · next hdash => cases hlexeme.symm.trans hdash
  next hcontent =>
  cases hlexeme.symm.trans hcontent
  rw [hentry, hv]
  exact ⟨_, rfl, rfl, rfl⟩

theorem readNode_dash (ht : t.lexeme = .dash) (hroom : 0 < room depth)
    (h : Yields (readItems (depth + 1) t.column (t :: s) [] s (Nat.lt_succ_self _)) v rest) :
    Yields (readNode depth t s) v rest := by
  rw [readNode]
  split
  · rw [if_neg (Nat.not_le_of_lt (Nat.lt_of_sub_pos hroom))]
    exact h
  · next hcontent => cases ht.symm.trans hcontent

theorem readNode_entry {entry : Entry} (ht : EntryAt c t entry) (hroom : 0 < room depth)
    (h : Yields (readMembers (depth + 1) c (t :: s) [] t entry s (Nat.lt_succ_self _)) v rest) :
    Yields (readNode depth t s) v rest := by
  obtain ⟨rfl, text, hlexeme, hentry⟩ := ht
  rw [readNode]
  split
  · next hdash => cases hlexeme.symm.trans hdash
  next hcontent =>
  cases hlexeme.symm.trans hcontent
  rw [hentry]
  dsimp only [onLine]
  rw [if_neg (Nat.not_le_of_lt (Nat.lt_of_sub_pos hroom))]
  exact h

/-! ## Every part of a text -/

/-- Nothing that could belong to a node at a column follows. -/
def NodeEnd (c : Nat) (rest : List Token) : Prop :=
  ∀ t, rest.head? = some t → t.column < c

theorem NodeEnd.itemsEnd (h : NodeEnd c rest) : ItemsEnd c rest := fun t ht => by
  refine ⟨Nat.le_of_lt (h t ht), Bool.eq_false_iff.2 fun hdash => ?_⟩
  exact Nat.ne_of_lt (h t ht) (isDashAt_iff.1 hdash).1

/-- What stands deeper than a column is read by all who take everything that stands deeper. -/
def NestedReadBack (c : Nat) (v : Value) (ts : List Token) : Prop :=
  ∀ ⦃depth belongs rest⦄, v.height ≤ room depth → (∀ t, c < t.column → belongs t = true) →
    (∀ t, rest.head? = some t → t.column ≤ c ∧ belongs t = false) →
    MayYield (readBlock depth belongs (ts ++ rest)) v rest

/-- A part of a text that keeps within the limit is read wherever it stands. -/
def ReadBack : Nat → Phrase → List Token → Prop
  | c, .node v, ts => ∃ t more, ts = t :: more ∧ t.column = c ∧
      ∀ ⦃depth rest⦄, v.height ≤ room depth → NodeEnd c rest →
        Yields (readNode depth t (more ++ rest)) v rest
  | c, .nested v, ts => NestedReadBack c v ts
  | c, .item v, ts => ∃ t more, ts = t :: more ∧ isDashAt c t = true ∧ NestedReadBack c v more
  | c, .items vs, ts => ∃ t more, ts = t :: more ∧ isDashAt c t = true ∧ vs ≠ [] ∧
      ∀ ⦃depth start items rest h⦄, (∀ v ∈ vs, v.height ≤ room depth) → ItemsEnd c rest →
        Yields (readItems depth c start items (more ++ rest) h) (.array (items.reverse ++ vs)) rest
  | c, .member k v, ts => ∃ t entry more, ts = t :: more ∧ EntryAt c t entry ∧ entry.key = k ∧
      ∀ ⦃depth rest⦄, v.height ≤ room depth → ItemsEnd c rest →
        MayYield (entry.read depth c t.line (more ++ rest)) v rest
  | c, .members ms, ts => ∃ t entry more, ts = t :: more ∧ EntryAt c t entry ∧ ms ≠ [] ∧
      ∀ ⦃depth start members rest h⦄, (∀ m ∈ ms, m.2.height ≤ room depth) →
        ((members.reverse ++ ms).map Prod.fst).Nodup → NodeEnd c rest →
        Yields (readMembers depth c start members t entry (more ++ rest) h)
          (.object (members.reverse ++ ms) []) rest

theorem within_of_height_array {vs : List Value} (hne : vs ≠ [])
    (h : (Value.array vs).height ≤ room depth) :
    0 < room depth ∧ ∀ v ∈ vs, v.height ≤ room (depth + 1) := by
  have hall := Value.heightAll_le_iff.1 h
  obtain ⟨v, hv⟩ := List.exists_mem_of_ne_nil vs hne
  refine ⟨Nat.lt_of_lt_of_le (Nat.succ_pos _) (hall v hv), fun u hu => ?_⟩
  rw [room_succ]
  exact Nat.le_sub_one_of_lt (hall u hu)

theorem within_of_height_object {ms : List (String × Value)} (hne : ms ≠ [])
    (h : (Value.object ms []).height ≤ room depth) :
    0 < room depth ∧ ∀ m ∈ ms, m.2.height ≤ room (depth + 1) := by
  have hall := Value.heightMembers_le_iff.1 h
  obtain ⟨m, hm⟩ := List.exists_mem_of_ne_nil ms hne
  refine ⟨Nat.lt_of_lt_of_le (Nat.succ_pos _) (hall m hm), fun l hl => ?_⟩
  rw [room_succ]
  exact Nat.le_sub_one_of_lt (hall l hl)

theorem nestedReadBack_nothing : NestedReadBack c .null [] := by
  intro depth belongs rest _ _ hrest
  rw [List.nil_append, readBlock.eq_def]
  split
  · exact ⟨_, rfl, rfl, rfl⟩
  next t more =>
  rw [if_neg (Bool.eq_false_iff.1 (hrest t rfl).2)]
  exact ⟨_, rfl, rfl, rfl⟩

/-- A node at the head of the tokens is read if it belongs there. -/
theorem readBlock_node (ht : belongs t = true) (h : Yields (readNode depth t s) v rest) :
    MayYield (readBlock depth belongs (t :: s)) v rest := by
  obtain ⟨r, hr, rfl, rfl⟩ := h
  rw [readBlock, if_pos ht, hr]
  exact ⟨_, rfl, rfl, rfl⟩

theorem ReadBack.deeper {d : Nat} {ts : List Token} (hd : c < d) (h : ReadBack d (.node v) ts) :
    NestedReadBack c v ts := by
  obtain ⟨t, more, rfl, rfl, hread⟩ := h
  intro depth belongs rest hheight hbelongs hrest
  refine readBlock_node (hbelongs t hd) (hread hheight fun u hu => ?_)
  exact Nat.lt_of_le_of_lt (hrest u hu).1 hd

/-- The value of an entry of a sequence. -/
theorem NestedReadBack.item {ts : List Token} (h : NestedReadBack c v ts)
    (hheight : v.height ≤ room depth) (hrest : ∀ u, rest.head? = some u → u.column ≤ c) :
    MayYield (readBlock depth (fun u => c < u.column) (ts ++ rest)) v rest :=
  h hheight (fun _ => decide_eq_true) fun u hu =>
    ⟨hrest u hu, decide_eq_false (Nat.not_lt.2 (hrest u hu))⟩

/-- The value of an entry of a mapping, to which a sequence at the column of the key belongs. -/
theorem NestedReadBack.member {ts : List Token} (h : NestedReadBack c v ts)
    (hheight : v.height ≤ room depth) (hrest : ItemsEnd c rest) :
    MayYield (readBlock depth (fun u => c < u.column || isDashAt c u) (ts ++ rest)) v rest := by
  refine h hheight (fun u hu => ?_) fun u hu => ?_
  · rw [decide_eq_true hu, Bool.true_or]
  · obtain ⟨hcolumn, hdash⟩ := hrest u hu
    exact ⟨hcolumn, by rw [hdash, Bool.or_false, decide_eq_false (Nat.not_lt.2 hcolumn)]⟩

theorem entryAt_of_reader {k : String} {x : Option Value} (h : Lexicon.reader.entry t k x) :
    ∃ entry, EntryAt t.column t entry ∧ entry.key = k ∧ Inline entry.value x := by
  obtain ⟨text, entry, hlexeme, hentry, hkey, hvalue⟩ := h
  exact ⟨entry, ⟨rfl, text, hlexeme, hentry⟩, hkey, hvalue⟩

/-- Where nothing stands behind the colon, the value stands below. -/
theorem read_of_nothing {entry : Entry} (hentry : Inline entry.value none)
    (h : MayYield (readBlock depth (fun u => c < u.column || isDashAt c u) s) v rest) :
    MayYield (entry.read depth c t.line s) v rest := by
  obtain ⟨key, value⟩ := entry
  cases hentry
  exact h

/-- An entry that follows is no part of what stands in front of it. -/
theorem EntryAt.itemsEnd {entry : Entry} (h : EntryAt c t entry) (rest : List Token) :
    ItemsEnd c (t :: rest) := by
  obtain ⟨rfl, text, hlexeme, -⟩ := h
  rintro _ ⟨⟩
  refine ⟨Nat.le_refl _, Bool.eq_false_iff.2 fun hdash => ?_⟩
  cases (isDashAt_iff.1 hdash).2.symm.trans hlexeme

theorem EntryAt.follows {entry : Entry} (h : EntryAt c t entry) (rest : List Token) :
    Follows c (t :: rest) (some (t, entry, rest)) := by
  have hdedent := checkDedent_eq_ok.2 fun u hu => (h.itemsEnd rest u hu).1
  obtain ⟨rfl, text, hlexeme, hentry⟩ := h
  exact .entry hdedent (Nat.lt_irrefl _) hlexeme (by rw [hentry]; rfl)

theorem not_mem_keys {members ms : List (String × Value)} {k : String}
    (h : ((members.reverse ++ (k, v) :: ms).map Prod.fst).Nodup) : k ∉ members.map Prod.fst := by
  rw [List.map_append, List.nodup_append] at h
  intro hk
  rw [← List.mem_reverse, ← List.map_reverse] at hk
  exact h.2.2 k hk k List.mem_cons_self rfl

section Members

variable {start : List Token} {members : List (String × Value)} {entry : Entry}
  {h : s.length < start.length}

/-- The last entry of a mapping. -/
theorem yields_lastMember (hnew : entry.key ∉ members.map Prod.fst)
    (hm : MayYield (entry.read depth c t.line s) v rest) (hrest : NodeEnd c rest) :
    Yields (readMembers depth c start members t entry s h)
      (.object (members.reverse ++ [(entry.key, v)]) []) rest := by
  obtain ⟨m, hm, rfl, rfl⟩ := hm
  have hdedent := checkDedent_eq_ok.2 fun u hu => Nat.le_of_lt (hrest u hu)
  exact ⟨_, readMembers_last hnew hm (.nothing hdedent hrest), rfl, rfl⟩

/-- An entry with another one behind it. -/
theorem yields_moreMembers {u : Token} {next : Entry} {more : List Token} {x : Value}
    (hnew : entry.key ∉ members.map Prod.fst)
    (hm : MayYield (entry.read depth c t.line s) v (u :: more)) (hu : EntryAt c u next)
    (hroom : more.length < start.length)
    (hmore : Yields (readMembers depth c start ((entry.key, v) :: members) u next more hroom)
      x rest) :
    Yields (readMembers depth c start members t entry s h) x rest := by
  obtain ⟨m, hm, rfl, hrest⟩ := hm
  rwa [readMembers_next hnew hm (hrest ▸ hu.follows more) hroom]

end Members

theorem readBack_of_spelled {p : Phrase} {ts : List Token} (h : Spelled .reader c p ts) :
    ReadBack c p ts := by
  -- On the derivation. Where a part ends is seen from what follows it, so each case passes on what
  -- may follow.
  induction h with
  | scalar h => exact ⟨_, [], rfl, rfl, fun _ _ _ _ => readNode_scalar h⟩
  | sequence _ ih =>
    obtain ⟨t, more, rfl, ht, hne, hread⟩ := ih
    obtain ⟨rfl, hdash⟩ := isDashAt_iff.1 ht
    refine ⟨t, more, rfl, rfl, fun depth rest hheight hrest => ?_⟩
    obtain ⟨hroom, hwithin⟩ := within_of_height_array hne hheight
    exact readNode_dash hdash hroom (hread hwithin hrest.itemsEnd)
  | mapping _ hkeys ih =>
    obtain ⟨t, entry, more, rfl, ht, hne, hread⟩ := ih
    refine ⟨t, more, rfl, ht.1, fun depth rest hheight hrest => ?_⟩
    obtain ⟨hroom, hwithin⟩ := within_of_height_object hne hheight
    exact readNode_entry ht hroom (hread hwithin hkeys hrest)
  | nothing => exact nestedReadBack_nothing
  | deeper hd _ ih => exact ih.deeper hd
  | item ht _ ih => exact ⟨_, _, rfl, isDashAt_iff.2 ⟨rfl, ht⟩, ih⟩
  | lastItem _ ih =>
    obtain ⟨t, more, rfl, ht, hread⟩ := ih
    refine ⟨t, more, rfl, ht, List.cons_ne_nil _ _, ?_⟩
    intro depth start items rest h hwithin hrest
    refine readItems_last (hread.item (hwithin _ List.mem_cons_self) fun u hu => ?_) hrest
    exact (hrest u hu).1
  | @moreItems c v vs ts us _ _ ih ih' =>
    obtain ⟨t, more, rfl, ht, hread⟩ := ih
    obtain ⟨u, others, rfl, hu, -, hread'⟩ := ih'
    refine ⟨t, more ++ u :: others, rfl, ht, List.cons_ne_nil _ _,
      fun depth start items rest h hwithin hrest => ?_⟩
    rw [List.forall_mem_cons] at hwithin
    simp only [List.append_assoc, List.cons_append]
    -- The dash of the next entry stands where the one before it stands.
    refine readItems_next (hread.item hwithin.1 ?_) hu fun h => ?_
    · rintro _ ⟨⟩
      exact Nat.le_of_eq (isDashAt_iff.1 hu).1
    · have hothers := @hread' depth start (v :: items) rest h hwithin.2 hrest
      rwa [List.reverse_cons, List.append_assoc] at hothers
  | inlineMember ht =>
    obtain ⟨entry, hat, hkey, hvalue⟩ := entryAt_of_reader ht
    refine ⟨_, entry, [], rfl, hat, hkey, fun depth rest _ _ => ?_⟩
    obtain ⟨key, value⟩ := entry
    cases hvalue with
    | scalar hv =>
      refine ⟨.nothing _, ?_, rfl, rfl⟩
      dsimp only [Entry.read]
      rw [hv]
      rfl
  | nestedMember ht _ ih =>
    obtain ⟨entry, hat, hkey, hvalue⟩ := entryAt_of_reader ht
    refine ⟨_, entry, _, rfl, hat, hkey, fun depth rest hheight hrest => ?_⟩
    exact read_of_nothing hvalue (ih.member hheight hrest)
  | alignedMember ht _ ih =>
    obtain ⟨entry, hat, hkey, hvalue⟩ := entryAt_of_reader ht
    obtain ⟨u, more, rfl, hu, hne, hread⟩ := ih
    refine ⟨_, entry, _, rfl, hat, hkey, fun depth rest hheight hrest => ?_⟩
    obtain ⟨hroom, hwithin⟩ := within_of_height_array hne hheight
    obtain ⟨hcolumn, hdash⟩ := isDashAt_iff.1 hu
    refine read_of_nothing hvalue (readBlock_node (by rw [hu, Bool.or_true]) ?_)
    exact readNode_dash hdash hroom (hcolumn ▸ hread hwithin hrest)
  | lastMember _ ih =>
    obtain ⟨t, entry, more, rfl, hat, rfl, hread⟩ := ih
    refine ⟨t, entry, more, rfl, hat, List.cons_ne_nil _ _,
      fun depth start members rest h hwithin hkeys hrest => ?_⟩
    have hm := hread (hwithin _ List.mem_cons_self) hrest.itemsEnd
    exact yields_lastMember (not_mem_keys hkeys) hm hrest
  | @moreMembers c k v ms ts us _ _ ih ih' =>
    obtain ⟨t, entry, more, rfl, hat, rfl, hread⟩ := ih
    obtain ⟨u, next, others, rfl, hu, -, hread'⟩ := ih'
    refine ⟨t, entry, more ++ u :: others, rfl, hat, List.cons_ne_nil _ _,
      fun depth start members rest h hwithin hkeys hrest => ?_⟩
    rw [List.forall_mem_cons] at hwithin
    simp only [List.append_assoc, List.cons_append] at h ⊢
    have hm := hread hwithin.1 (hu.itemsEnd (others ++ rest))
    have hroom : (others ++ rest).length < start.length := by
      simp only [List.length_append, List.length_cons] at h ⊢
      omega
    refine yields_moreMembers (not_mem_keys hkeys) hm hu hroom ?_
    -- The member moves from those to be read to those that are read.
    rw [← List.singleton_append, ← List.append_assoc, ← List.reverse_cons] at hkeys
    have hothers := hread' (h := hroom) hwithin.2 hkeys hrest
    rwa [List.reverse_cons, List.append_assoc] at hothers

/-! ## Texts -/

/--
A text has a tree if and only if its tokens spell it and no value has more than 512 arrays and
objects around it. A text without tokens stands for null.
-/
theorem readText_iff {cs : List Char} :
    readText cs = .ok v ↔ ∃ ts, tokens cs = .ok ts ∧
      ((ts = [] ∧ v = .null) ∨ ∃ c, Spelled .reader c (.node v) ts ∧ v.height ≤ 512) := by
  constructor
  · intro hread
    obtain ⟨ts, htokens, h⟩ := of_bind hread
    refine ⟨ts, htokens, ?_⟩
    cases ts with
    | nil =>
      cases h
      exact .inl ⟨rfl, rfl⟩
    | cons first rest =>
      obtain ⟨r, hr, rfl, hrest⟩ := (readText_eq_ok_iff htokens).1 hread
      obtain ⟨⟨ts, hts, hspelled⟩, hheight⟩ := (found_of_readNode _ rfl hr).1
      rw [hrest, List.append_nil] at hts
      exact .inr ⟨first.column, hts ▸ hspelled, hheight⟩
  · rintro ⟨ts, htokens, ⟨rfl, rfl⟩ | ⟨c, hspelled, hheight⟩⟩
    · rw [readText, htokens]
      rfl
    · obtain ⟨t, more, rfl, -, hread⟩ := readBack_of_spelled hspelled
      have hnode := @hread 0 [] hheight nofun
      rw [List.append_nil] at hnode
      exact (readText_eq_ok_iff htokens).2 hnode

/-- A document has the tree of the text that its bytes stand for. -/
theorem readText_of_read {lossy : Bool} {s : Bytes} {d : Document} (h : read lossy s = .ok d) :
    readText (dropMark (Utf8.decodeLossy s)) = .ok d.root := by
  unfold read at h
  split at h
  · split at h
    · obtain ⟨root, hroot, rfl⟩ := of_map h
      exact hroot
    · cases h
  · next text hsplit =>
    obtain ⟨root, hroot, rfl⟩ := of_map h
    rwa [Utf8.decodeLossy_of_split hsplit]

end Yaml

end PackageAudit
