import Mathlib.Data.List.Nodup
import PackageAudit.Proofs.Document.Yaml.Grammar
import PackageAudit.Proofs.Document.Yaml.Mapping

/-!
# Proofs.Document.Yaml.Soundness — what the reader takes for a node is one

* `Yaml.of_readBlock`, `Yaml.of_readItems` — what one step of the reader can do;
* `Yaml.Found` — a part of a text that the grammar spells, with no more collections around its
  values than there is room for;
* `Yaml.found_of_readItems`, `Yaml.found_of_readMembers` — the parts of a collection, if the nodes
  in it are read soundly;
* `Yaml.found_of_readNode` — every node, by induction on the number of tokens.
-/

namespace PackageAudit

namespace Yaml

variable {depth c : Nat} {s rest : List Token} {t : Token} {belongs : Token → Bool}

/-! ## Steps of the reader -/

theorem isDashAt_iff : isDashAt c t = true ↔ t.column = c ∧ t.lexeme = .dash := by
  rw [isDashAt, Bool.and_eq_true, beq_iff_eq, beq_iff_eq]

theorem checkDedent_eq_ok :
    checkDedent c rest = .ok () ↔ ∀ t, rest.head? = some t → t.column ≤ c := by
  cases rest with
  | nil => exact iff_of_true rfl nofun
  | cons t rest =>
    rw [checkDedent]
    split
    · next hdeeper =>
      refine iff_of_false (fun h => ?_) fun h => Nat.not_le.2 hdeeper (h t rfl)
      split at h
      · cases h
      · split at h <;> cases h
    · next hdeeper =>
      refine iff_of_true rfl ?_
      rintro _ ⟨⟩
      exact Nat.le_of_not_lt hdeeper

/-- A block is nothing, or a node that begins with the next token. -/
theorem of_readBlock {r : OptionalReading s Value} (hread : readBlock depth belongs s = .ok r) :
    (r.value = .null ∧ r.rest = s ∧ ∀ t, s.head? = some t → belongs t = false) ∨
      ∃ first more node, s = first :: more ∧ belongs first = true ∧
        readNode depth first more = .ok node ∧ r.value = node.value ∧ r.rest = node.rest := by
  rw [readBlock.eq_def] at hread
  split at hread
  · cases hread
    refine .inl ⟨rfl, rfl, ?_⟩
    rintro _ ⟨⟩
  next first more =>
  split at hread
  · next hbelongs =>
    obtain ⟨node, hnode, rfl⟩ := of_map hread
    exact .inr ⟨first, more, node, rfl, hbelongs, hnode, rfl, rfl⟩
  · next hbelongs =>
    cases hread
    refine .inl ⟨rfl, rfl, ?_⟩
    rintro _ ⟨⟩
    exact eq_false_of_ne_true hbelongs

/-- What may follow the last entry of a sequence at a column. -/
def ItemsEnd (c : Nat) (rest : List Token) : Prop :=
  ∀ t, rest.head? = some t → t.column ≤ c ∧ isDashAt c t = false

/-- An entry of a sequence is the last one, or the next one follows it. -/
theorem of_readItems {start : List Token} {items : List Value} {h : s.length < start.length}
    {r : Reading start Value} (hread : readItems depth c start items s h = .ok r) :
    ∃ item, readBlock depth (fun t => c < t.column) s = .ok item ∧
      ((ItemsEnd c item.rest ∧ r.value = .array (items.reverse ++ [item.value]) ∧
          r.rest = item.rest) ∨
        ∃ t more h', item.rest = t :: more ∧ isDashAt c t = true ∧
          readItems depth c start (item.value :: items) more h' = .ok r) := by
  rw [readItems] at hread
  split at hread
  · cases hread
  next item hitem =>
  refine ⟨item, hitem, ?_⟩
  obtain ⟨v, rest, hle⟩ := item
  dsimp only at hread
  split at hread
  · cases hread
  · cases hread
    refine .inl ⟨?_, by rw [List.reverse_cons], rfl⟩
    rintro _ ⟨⟩
  next t more hdedent =>
  split at hread
  · next hdash => exact .inr ⟨t, more, _, rfl, hdash, hread⟩
  · next hdash =>
    cases hread
    refine .inl ⟨?_, by rw [List.reverse_cons], rfl⟩
    rintro _ ⟨⟩
    exact ⟨checkDedent_eq_ok.1 hdedent t rfl, eq_false_of_ne_true hdash⟩

/-! ## Parts that are found -/

/-- No value of the part has more than so many collections around it, the part itself left out. -/
def Phrase.Within (room : Nat) : Phrase → Prop
  | .node v | .nested v | .item v | .member _ v => v.height ≤ room
  | .items vs => ∀ v ∈ vs, v.height ≤ room
  | .members ms => ∀ m ∈ ms, m.2.height ≤ room

/-- A part of a text that the grammar spells in front of `rest`. -/
structure Found (room c : Nat) (p : Phrase) (s rest : List Token) : Prop where
  spelled : ∃ ts, s = ts ++ rest ∧ Spelled .reader c p ts
  within : p.Within room

theorem height_array {vs : List Value} {room : Nat} (hroom : 0 < room)
    (h : ∀ v ∈ vs, v.height ≤ room - 1) : (Value.array vs).height ≤ room :=
  Value.heightAll_le_iff.2 fun v hv => Nat.add_le_of_le_sub hroom (h v hv)

theorem height_object {ms : List (String × Value)} {room : Nat} (hroom : 0 < room)
    (h : ∀ m ∈ ms, m.2.height ≤ room - 1) : (Value.object ms []).height ≤ room :=
  Value.heightMembers_le_iff.2 fun m hm => Nat.add_le_of_le_sub hroom (h m hm)

theorem Found.sequence {room : Nat} {vs : List Value} (hroom : 0 < room)
    (h : Found (room - 1) c (.items vs) s rest) : Found room c (.node (.array vs)) s rest := by
  obtain ⟨⟨ts, hts, hspelled⟩, hwithin⟩ := h
  exact ⟨⟨ts, hts, .sequence hspelled⟩, height_array hroom hwithin⟩

theorem Found.mapping {room : Nat} {ms : List (String × Value)} (hroom : 0 < room)
    (hkeys : (ms.map Prod.fst).Nodup) (h : Found (room - 1) c (.members ms) s rest) :
    Found room c (.node (.object ms [])) s rest := by
  obtain ⟨⟨ts, hts, hspelled⟩, hwithin⟩ := h
  exact ⟨⟨ts, hts, .mapping hspelled hkeys⟩, height_object hroom hwithin⟩

/-- How many more collections may lie in each other below `depth`. -/
def room (depth : Nat) : Nat :=
  Json.maxDepth - depth

theorem room_pos (h : ¬ Json.maxDepth ≤ depth) : 0 < room depth :=
  Nat.sub_pos_of_lt (Nat.lt_of_not_le h)

theorem room_succ (depth : Nat) : room (depth + 1) = room depth - 1 :=
  Nat.sub_succ _ _

/--
Every node that is read at the head of tokens is spelled by them. One that begins with a dash is a
sequence.
-/
def Sound (s : List Token) : Prop :=
  ∀ ⦃depth first more⦄, s = first :: more → ∀ ⦃r⦄, readNode depth first more = .ok r →
    Found (room depth) first.column (.node r.value) (first :: more) r.rest ∧
      (first.lexeme = .dash → 0 < room depth ∧ ∃ vs, r.value = .array vs ∧
        Found (room (depth + 1)) first.column (.items vs) (first :: more) r.rest)

/-! ## Scalars -/

theorem height_of_plainValue {cs : List Char} {v : Value} (h : plainValue cs = .ok v) :
    v.height = 0 := by
  unfold plainValue at h
  dsimp only at h
  split at h
  · next hnamed =>
    cases h
    unfold namedValue? at hnamed
    split at hnamed <;> cases hnamed
    all_goals rfl
  split at h
  · cases h
  split at h <;> cases h
  all_goals rfl

/-- A scalar is no collection, or an empty one. -/
theorem height_of_scalar {column : Nat} {cs : List Char} {v : Value}
    (h : scalar column cs = .ok v) : v.height = 0 := by
  unfold scalar at h
  split at h
  · split at h <;> cases h
    rfl
  split at h
  · cases h
    rfl
  split at h
  · cases h
    rfl
  split at h
  · cases h
  · cases h
  · cases hplain : plainValue _ with
    | ok u =>
      rw [hplain] at h
      cases h
      exact height_of_plainValue hplain
    | error e =>
      rw [hplain] at h
      cases h

/-! ## Collections -/

/-- What stands deeper than a column, or nothing. -/
theorem nested_of_readBlock (hsound : Sound s) {r : OptionalReading s Value}
    (hread : readBlock depth (fun t => c < t.column) s = .ok r) :
    Found (room depth) c (.nested r.value) s r.rest := by
  rcases of_readBlock hread with
    ⟨hvalue, hrest, -⟩ | ⟨first, more, node, rfl, hdeeper, hnode, hvalue, hrest⟩
  · rw [hvalue, hrest]
    exact ⟨⟨[], rfl, .nothing⟩, Nat.zero_le _⟩
  · obtain ⟨⟨ts, hts, hspelled⟩, hwithin⟩ := (hsound rfl hnode).1
    rw [hvalue, hrest]
    exact ⟨⟨ts, hts, .deeper (of_decide_eq_true hdeeper) hspelled⟩, hwithin⟩

theorem found_of_readItems {start : List Token} {items : List Value} {h : s.length < start.length}
    {r : Reading start Value} (hsound : ∀ u, u.length ≤ s.length → Sound u)
    (ht : isDashAt c t = true) (hread : readItems depth c start items s h = .ok r) :
    ∃ vs, r.value = .array (items.reverse ++ vs) ∧
      Found (room depth) c (.items vs) (t :: s) r.rest := by
  -- On the tokens that are left; each entry is one step, and the next one begins with its dash.
  induction hlength : s.length using Nat.strongRecOn generalizing s t items with
  | ind n ih =>
  obtain ⟨rfl, hdash⟩ := isDashAt_iff.1 ht
  obtain ⟨item, hitem, hstep⟩ := of_readItems hread
  obtain ⟨⟨ts, hts, hspelled⟩, hwithin⟩ := nested_of_readBlock (hsound s (Nat.le_refl _)) hitem
  have hfirst : Spelled .reader t.column (.item item.value) (t :: ts) := .item hdash hspelled
  rcases hstep with ⟨-, hvalue, hrest⟩ | ⟨u, more, h', hrest, hu, hmore⟩
  · refine ⟨[item.value], hvalue, ?_, List.forall_mem_singleton.2 hwithin⟩
    exact ⟨t :: ts, hrest ▸ congrArg (t :: ·) hts, .lastItem hfirst⟩
  · have hshort : more.length < s.length := item.length_of_rest hrest
    obtain ⟨vs, hvalue, ⟨us, hus, hothers⟩, hwithin'⟩ := ih _ (hlength ▸ hshort)
      (fun u hu => hsound u (Nat.le_trans hu (Nat.le_of_lt hshort))) hu hmore rfl
    refine ⟨item.value :: vs, ?_, ⟨t :: ts ++ us, ?_, .moreItems hfirst hothers⟩,
      List.forall_mem_cons.2 ⟨hwithin, hwithin'⟩⟩
    · rw [hvalue, List.reverse_cons, List.append_assoc, List.singleton_append]
    · rw [List.append_assoc, ← hus, ← hrest]
      exact congrArg (t :: ·) hts

/-- The entry of a mapping at a column that a token is. -/
def EntryAt (c : Nat) (t : Token) (entry : Entry) : Prop :=
  t.column = c ∧ ∃ text, t.lexeme = .content text ∧ splitEntry t.column text = .ok (some entry)

/-- A member with the value that its entry has on its line or below. -/
theorem member_of_read {entry : Entry} {r : OptionalReading s Value} (hsound : Sound s)
    (ht : EntryAt c t entry) (hread : entry.read depth c t.line s = .ok r) :
    Found (room depth) c (.member entry.key r.value) (t :: s) r.rest := by
  obtain ⟨rfl, text, hlexeme, hentry⟩ := ht
  unfold Entry.read at hread
  split at hread
  · next vtext column hvalue =>
    obtain ⟨v, hv, rfl⟩ := of_map hread
    have hv := of_onLine hv
    have hmeaning : Lexicon.reader.entry t entry.key (some v) :=
      ⟨text, entry, hlexeme, hentry, rfl, hvalue ▸ .scalar hv⟩
    refine ⟨⟨[t], rfl, .inlineMember hmeaning⟩, ?_⟩
    exact Nat.le_trans (Nat.le_of_eq (height_of_scalar hv)) (Nat.zero_le _)
  · next hvalue =>
    have hmeaning : Lexicon.reader.entry t entry.key none :=
      ⟨text, entry, hlexeme, hentry, rfl, hvalue ▸ .nothing⟩
    rcases of_readBlock hread with
      ⟨hvalue, hrest, -⟩ | ⟨first, more, node, rfl, hbelongs, hnode, hvalue, hrest⟩
    · rw [hvalue, hrest]
      exact ⟨⟨[t], rfl, .nestedMember hmeaning .nothing⟩, Nat.zero_le _⟩
    · obtain ⟨hfound, hdash⟩ := hsound rfl hnode
      rw [hvalue, hrest]
      rcases Bool.or_eq_true_iff.1 hbelongs with hdeeper | haligned
      · obtain ⟨⟨ts, hts, hspelled⟩, hwithin⟩ := hfound
        refine ⟨⟨t :: ts, congrArg (t :: ·) hts, ?_⟩, hwithin⟩
        exact .nestedMember hmeaning (.deeper (of_decide_eq_true hdeeper) hspelled)
      · -- What begins with a dash is a sequence, which may stand at the column of the key.
        obtain ⟨hcolumn, hlexeme⟩ := isDashAt_iff.1 haligned
        obtain ⟨hroom, vs, hvs, ⟨ts, hts, hspelled⟩, hwithin⟩ := hdash hlexeme
        rw [hvs]
        refine ⟨⟨t :: ts, congrArg (t :: ·) hts, .alignedMember hmeaning (hcolumn ▸ hspelled)⟩, ?_⟩
        exact height_array hroom (room_succ depth ▸ hwithin)

/-- The next entry stands where the one before it stands. -/
theorem Follows.entry_at {entry : Entry} {more : List Token}
    (h : Follows c rest (some (t, entry, more))) : EntryAt c t entry := by
  cases h with
  | entry hdedent hcolumn hlexeme hentry =>
    have hle := checkDedent_eq_ok.1 hdedent t rfl
    exact ⟨Nat.le_antisymm hle (Nat.le_of_not_lt hcolumn), _, hlexeme, of_onLine hentry⟩

theorem found_of_readMembers {start : List Token} {members : List (String × Value)} {entry : Entry}
    {h : s.length < start.length} {r : Reading start Value}
    (hsound : ∀ u, u.length ≤ s.length → Sound u) (ht : EntryAt c t entry)
    (hkeys : (members.map Prod.fst).Nodup)
    (hread : readMembers depth c start members t entry s h = .ok r) :
    ∃ ms, r.value = .object (members.reverse ++ ms) [] ∧
      ((members.reverse ++ ms).map Prod.fst).Nodup ∧
      Found (room depth) c (.members ms) (t :: s) r.rest := by
  -- As for sequences. The key of each entry is compared with all keys in front of it.
  induction hlength : s.length using Nat.strongRecOn generalizing s t members entry with
  | ind n ih =>
  obtain ⟨hnew, m, hm, hstep⟩ := of_readMembers hread
  obtain ⟨⟨ts, hts, hspelled⟩, hwithin⟩ := member_of_read (hsound s (Nat.le_refl _)) ht hm
  have hkeys' : (((entry.key, m.value) :: members).map Prod.fst).Nodup :=
    List.nodup_cons.2 ⟨hnew, hkeys⟩
  rcases hstep with ⟨-, hvalue, hrest⟩ | ⟨u, next, more, h', hfollows, hmore⟩
  · refine ⟨[(entry.key, m.value)], hvalue, ?_, ⟨ts, hrest ▸ hts, .lastMember hspelled⟩,
      List.forall_mem_singleton.2 hwithin⟩
    rw [← List.reverse_cons, List.map_reverse]
    exact List.nodup_reverse.2 hkeys'
  · have hshort : more.length < s.length := m.length_of_rest hfollows.eq_cons
    obtain ⟨ms, hvalue, hnodup, ⟨us, hus, hothers⟩, hwithin'⟩ := ih _ (hlength ▸ hshort)
      (fun u hu => hsound u (Nat.le_trans hu (Nat.le_of_lt hshort))) hfollows.entry_at hkeys' hmore
      rfl
    rw [List.reverse_cons, List.append_assoc] at hvalue hnodup
    refine ⟨(entry.key, m.value) :: ms, hvalue, hnodup,
      ⟨ts ++ us, ?_, .moreMembers hspelled hothers⟩,
      List.forall_mem_cons.2 ⟨hwithin, hwithin'⟩⟩
    rw [List.append_assoc, ← hus, ← hfollows.eq_cons]
    exact hts

/-! ## Nodes -/

theorem found_of_readNode (s : List Token) : Sound s := by
  -- The nodes in a collection are read from fewer tokens.
  induction hlength : s.length using Nat.strongRecOn generalizing s with
  | ind n ih =>
  rintro depth first more rfl r hread
  have hsound : ∀ u, u.length ≤ more.length → Sound u := fun u hu =>
    ih _ (hlength ▸ Nat.lt_succ_of_le hu) u rfl
  rw [readNode] at hread
  split at hread
  · next hdash =>
    split at hread
    · cases hread
    next hdepth =>
    obtain ⟨vs, hvalue, hfound⟩ :=
      found_of_readItems hsound (isDashAt_iff.2 ⟨rfl, hdash⟩) hread
    have hroom := room_pos hdepth
    rw [hvalue]
    exact ⟨(room_succ depth ▸ hfound).sequence hroom, fun _ => ⟨hroom, vs, rfl, hfound⟩⟩
  next text hlexeme =>
  have hcontent : first.lexeme = .dash → False := fun hdash => by cases hlexeme.symm.trans hdash
  split at hread
  · cases hread
  · next hentry =>
    split at hread
    · next v hv =>
      cases hread
      have hmeaning : Lexicon.reader.scalar first v :=
        ⟨text, hlexeme, of_onLine hentry, of_onLine hv⟩
      refine ⟨⟨⟨[first], rfl, .scalar hmeaning⟩, ?_⟩, fun h => (hcontent h).elim⟩
      exact Nat.le_trans (Nat.le_of_eq (height_of_scalar (of_onLine hv))) (Nat.zero_le _)
    · cases hread
  · next entry hentry =>
    split at hread
    · cases hread
    next hdepth =>
    have hempty : (([] : List (String × Value)).map Prod.fst).Nodup := List.nodup_nil
    obtain ⟨ms, hvalue, hkeys, hfound⟩ :=
      found_of_readMembers hsound ⟨rfl, text, hlexeme, of_onLine hentry⟩ hempty hread
    rw [hvalue]
    exact ⟨(room_succ depth ▸ hfound).mapping (room_pos hdepth) hkeys, fun h => (hcontent h).elim⟩

end Yaml

end PackageAudit
