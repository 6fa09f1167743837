import PackageAudit.Proofs.Document.Json.Written
import PackageAudit.Proofs.Document.Stored

/-!
# Proofs.Document.Json.Builder — how the slots of a JSON text come about

A container is stored before its parts, so that these can be linked with it, and is filled when all
of them are there. Here texts are read in this way, one slot at a time:

* `Json.buildTree` — store the value at the head of the input;
* `Json.build` — the slots of a text;
* `Json.buildTree_eq` — they are those of the tree at the head of the input;
* `Json.build_eq`, `Json.build_of_read` — the same of whole texts.
-/

namespace PackageAudit

namespace Json

/-! ## One slot at a time -/

mutual

/-- Store the value at the head of `s`, which lies in `depth` arrays and objects. -/
def buildTree (o : JsonOptions) (depth : Nat) (parent : Option Nat) (key : Option Key) (b : Builder)
    (s : Bytes) : Option (Reading s Nat × Builder) :=
  match s with
  | [] => none
  | c :: rest =>
    if Char.ofUInt8 c = '\x7b' then
      if maxDepth ≤ depth then none
      else
        let opened := b.push (.object []) parent key
        match mark? '\x7d' rest with
        | some close => some ((close.map fun _ => b.next).behind, opened)
        | none => (buildMembers o (depth + 1) b.next [] opened rest).map fun (r, b') =>
            ((r.map fun _ => b.next).behind, b'.fill b.next (.object r.value))
    else if Char.ofUInt8 c = '[' then
      if maxDepth ≤ depth then none
      else
        let opened := b.push (.array []) parent key
        match mark? ']' rest with
        | some close => some ((close.map fun _ => b.next).behind, opened)
        | none => (buildItems o (depth + 1) b.next [] opened rest).map fun (r, b') =>
            ((r.map fun _ => b.next).behind, b'.fill b.next (.array r.value))
    else
      (readScalar o c rest).map fun r =>
        (r.map fun _ => b.next, b.push (.scalar r.value) parent key)
  termination_by 2 * s.length

/-- Store the elements of an array, behind those with the given numbers, up to its end. -/
def buildItems (o : JsonOptions) (depth parent : Nat) (items : List Nat) (b : Builder) (s : Bytes) :
    Option (Reading s (List Nat) × Builder) :=
  have := length_skipBlanks_le s
  match buildTree o depth (some parent) (some (.index items.length)) b (skipBlanks s) with
  | none => none
  | some (r, b) =>
    let first := r.widen (length_skipBlanks_le s)
    let items := items ++ [first.value]
    match mark? ',' first.rest with
    | some comma =>
      have := comma.shorter
      have := first.shorter
      (buildItems o depth parent items b comma.rest).map fun (more, b) =>
        (first.next (comma.next more), b)
    | none =>
      (mark? ']' first.rest).map fun close => (first.next (close.map fun _ => items), b)
  termination_by 2 * s.length + 1

/-- Store the members of an object, behind those with the given keys and numbers, up to its end. -/
def buildMembers (o : JsonOptions) (depth parent : Nat) (members : List (String × Nat)) (b : Builder)
    (s : Bytes) : Option (Reading s (List (String × Nat)) × Builder) :=
  match readKey o s with
  | none => none
  | some key =>
    if key.value ∈ members.map Prod.fst ∧ ¬ o.duplicateKeys then none
    else
      have hblank := length_skipBlanks_le key.rest
      have := key.shorter
      match buildTree o depth (some parent) (some (.member key.value)) b (skipBlanks key.rest) with
      | none => none
      | some (r, b) =>
        let member := key.next (r.widen hblank)
        let members := Written.enter key.value member.value members
        match mark? ',' member.rest with
        | some comma =>
          have := comma.shorter
          have := member.shorter
          (buildMembers o depth parent members b comma.rest).map fun (more, b) =>
            (member.next (comma.next more), b)
        | none =>
          (mark? '\x7d' member.rest).map fun close =>
            (member.next (close.map fun _ => members), b)
  termination_by 2 * s.length + 1

end

/-- The slots of a whole text. -/
def build (o : JsonOptions) (s : Bytes) : Option Arena :=
  let marked := byteOrderMark.isPrefixOf s
  if marked ∧ ¬ o.byteOrderMark then none
  else
    ((buildTree o 0 none none .empty (skipBlanks (if marked then s.drop 3 else s))).filter
      fun (r, _) => (skipBlanks r.rest).isEmpty).map fun (r, b) => ⟨b.slots, r.value⟩

/-! ## The slots of the tree -/

variable {o : JsonOptions} {depth parent : Nat} {b : Builder} {s : Bytes}

/-- What is stored for the head of the input is the tree that stands there. -/
def Builds (o : JsonOptions) (s : Bytes) : Prop :=
  ∀ depth parent key b, buildTree o depth parent key b s =
    (readTree o depth s).map fun r =>
      (r.map fun _ => b.next, b.append (r.value.slotsFrom b.next parent key))

theorem buildItems_eq {s : Bytes} {items : List Nat} {b : Builder}
    (hvalues : ∀ t, t.length ≤ s.length → Builds o t) :
    buildItems o depth parent items b s = (readTrees o depth s).map fun r =>
      (r.map fun ws => items ++ Written.numbersFrom b.next ws,
        b.append (Written.itemSlots b.next parent items.length r.value)) := by
  rw [buildItems, readTrees, hvalues _ (length_skipBlanks_le s)]
  cases hw : readTree o depth (skipBlanks s) with
  | none => rfl
  | some w =>
    dsimp only [Option.map_some, Reading.map, Reading.widen]
    cases hcomma : mark? ',' w.rest with
    | some comma =>
      have hshort : comma.rest.length < s.length :=
        Nat.lt_trans comma.shorter (Nat.lt_of_lt_of_le w.shorter (length_skipBlanks_le s))
      dsimp only
      rw [buildItems_eq fun t ht => hvalues t (Nat.le_trans ht (Nat.le_of_lt hshort))]
      simp only [Option.map_map, Function.comp_def, Reading.map, Reading.next,
        Builder.next_append, Builder.append_append, Written.length_slotsFrom, Written.numbersFrom,
        Written.itemSlots, List.length_append, List.length_singleton, List.append_assoc,
        List.singleton_append]
    | none =>
      simp only [Option.map_map, Function.comp_def, Reading.next, Written.numbersFrom,
        Written.itemSlots, List.append_nil]
  termination_by s.length

theorem buildMembers_eq {s : Bytes} {keys : List String} {members : List (String × Nat)}
    {b : Builder} (hkeys : ∀ key, key ∈ members.map Prod.fst ↔ key ∈ keys)
    (hvalues : ∀ t, t.length ≤ s.length → Builds o t) :
    buildMembers o depth parent members b s = (readTreeMembers o depth keys s).map fun r =>
      (r.map fun ws => Written.entriesFrom b.next members ws,
        b.append (Written.memberSlots b.next parent r.value)) := by
  rw [buildMembers, readTreeMembers]
  cases hkey : readKey o s with
  | none => rfl
  | some key =>
    dsimp only
    by_cases hrefused : key.value ∈ keys ∧ ¬ o.duplicateKeys = true
    · rw [if_pos hrefused, if_pos ⟨(hkeys _).2 hrefused.1, hrefused.2⟩]
      rfl
    have hbehind : (skipBlanks key.rest).length < s.length :=
      Nat.lt_of_le_of_lt (length_skipBlanks_le key.rest) key.shorter
    rw [if_neg hrefused, if_neg fun h => hrefused ⟨(hkeys _).1 h.1, h.2⟩,
      hvalues _ (Nat.le_of_lt hbehind)]
    cases hw : readTree o depth (skipBlanks key.rest) with
    | none => rfl
    | some w =>
      dsimp only [Option.map_some, Reading.map, Reading.widen, Reading.next]
      cases hcomma : mark? ',' w.rest with
      | some comma =>
        have hshort : comma.rest.length < s.length :=
          Nat.lt_trans comma.shorter (Nat.lt_trans w.shorter hbehind)
        have hmore : ∀ name, name ∈ (Written.enter key.value b.next members).map Prod.fst ↔
            name ∈ key.value :: keys := by
          intro name
          rw [Written.mem_keys_enter, List.mem_cons, List.mem_cons, hkeys]
        dsimp only
        rw [buildMembers_eq hmore fun t ht => hvalues t (Nat.le_trans ht (Nat.le_of_lt hshort))]
        simp only [Option.map_map, Function.comp_def, Reading.map, Builder.next_append,
          Builder.append_append, Written.length_slotsFrom, Written.entriesFrom,
          Written.memberSlots]
      | none =>
        simp only [Option.map_map, Function.comp_def, Written.entriesFrom, Written.memberSlots,
          List.append_nil]
  termination_by s.length

theorem buildTree_eq (o : JsonOptions) (s : Bytes) : Builds o s := by
  -- Values within a container are stored from shorter inputs.
  induction hlength : s.length using Nat.strong_induction_on generalizing s with
  | _ n ih =>
  intro depth parent key b
  cases s with
  | nil =>
    rw [buildTree, readTree]
    rfl
  | cons c rest =>
    have hvalues : ∀ t, t.length ≤ rest.length → Builds o t := fun t ht =>
      ih _ (hlength ▸ Nat.lt_succ_of_le ht) t rfl
    rw [buildTree, readTree]
    by_cases hobject : Char.ofUInt8 c = '\x7b'
    · rw [if_pos hobject, if_pos hobject]
      by_cases hdeep : maxDepth ≤ depth
      · rw [if_pos hdeep, if_pos hdeep]
        rfl
      rw [if_neg hdeep, if_neg hdeep]
      cases mark? '\x7d' rest with
      | some close => rfl
      | none =>
        have hkeys : ∀ key, key ∈ ([] : List (String × Nat)).map Prod.fst ↔
            key ∈ ([] : List String) := fun _ => Iff.rfl
        dsimp only
        rw [buildMembers_eq hkeys hvalues]
        simp only [Option.map_map, Function.comp_def, Builder.fill_append, Builder.next_push,
          Written.slotsFrom, Reading.map, Reading.behind]
    rw [if_neg hobject, if_neg hobject]
    by_cases harray : Char.ofUInt8 c = '['
    · rw [if_pos harray, if_pos harray]
      by_cases hdeep : maxDepth ≤ depth
      · rw [if_pos hdeep, if_pos hdeep]
        rfl
      rw [if_neg hdeep, if_neg hdeep]
      cases mark? ']' rest with
      | some close => rfl
      | none =>
        dsimp only
        rw [buildItems_eq hvalues]
        simp only [Option.map_map, Function.comp_def, Builder.fill_append, Builder.next_push,
          Written.slotsFrom, Reading.map, Reading.behind, List.nil_append, List.length_nil]
    · rw [if_neg harray, if_neg harray]
      simp only [Option.map_map, Function.comp_def, Written.slotsFrom, Builder.push_eq,
        Reading.map]

/-- The slots of a text are those of its tree. -/
theorem build_eq (o : JsonOptions) (s : Bytes) : build o s = (written o s).map Written.arena := by
  unfold build written
  dsimp only
  split
  · rfl
  · rw [buildTree_eq]
    cases readTree o 0 (skipBlanks (if byteOrderMark.isPrefixOf s then s.drop 3 else s)) with
    | none => rfl
    | some r =>
      cases hend : (skipBlanks r.rest).isEmpty
      · simp [Option.filter, Reading.map, hend]
      · simp [Option.filter, Reading.map, hend, Written.arena, Written.slots, Builder.append,
          Builder.empty, Builder.next]

/-- The slots of a text that is read are those of its tree, and hold its document. -/
theorem build_of_read {d : Document} (h : read o s = .ok d) :
    ∃ w, written o s = some w ∧ build o s = some w.arena ∧ w.arena.Holds d := by
  obtain ⟨w, hw, hroot⟩ := read_eq_ok_iff.1 h
  have hdocument : d = ⟨w.settle⟩ := by rw [hroot]
  exact ⟨w, hw, by rw [build_eq, hw, Option.map_some], hdocument ▸ w.holds⟩

/-! ## Without repeated keys -/

/-- Every tree that is read at the head of `s` has no key twice. -/
def ReadsDistinct (o : JsonOptions) (s : Bytes) : Prop :=
  ∀ ⦃depth r⦄, readTree o depth s = some r → r.value.KeysDistinct

theorem keysDistinct_of_readTrees {s : Bytes} {r : Reading s (List Written)}
    (hvalues : ∀ t, t.length ≤ s.length → ReadsDistinct o t) (h : readTrees o depth s = some r) :
    ∀ w ∈ r.value, w.KeysDistinct := by
  obtain ⟨w, hw, hstep⟩ := readTrees_cases h
  have hdistinct := hvalues _ (length_skipBlanks_le s) hw
  rcases hstep with ⟨comma, more, -, hmore, rfl⟩ | ⟨-, close, -, rfl⟩
  · have hshort : comma.rest.length < s.length :=
      Nat.lt_trans comma.shorter (Nat.lt_of_lt_of_le w.shorter (length_skipBlanks_le s))
    exact List.forall_mem_cons.2 ⟨hdistinct, keysDistinct_of_readTrees
      (fun t ht => hvalues t (Nat.le_trans ht (Nat.le_of_lt hshort))) hmore⟩
  · exact List.forall_mem_singleton.2 hdistinct
  termination_by s.length

theorem keysDistinct_of_readTreeMembers (ho : o.duplicateKeys = false) {s : Bytes}
    {keys : List String} {r : Reading s (List (String × Written))}
    (hvalues : ∀ t, t.length ≤ s.length → ReadsDistinct o t)
    (h : readTreeMembers o depth keys s = some r) :
    (∀ m ∈ r.value, m.2.KeysDistinct) ∧ (r.value.map Prod.fst).Nodup ∧
      ∀ m ∈ r.value, m.1 ∉ keys := by
  obtain ⟨key, w, -, hrefused, hw, hstep⟩ := readTreeMembers_cases h
  have hnew : key.value ∉ keys := fun hmem => hrefused ⟨hmem, by rw [ho]; exact Bool.false_ne_true⟩
  have hbehind : (skipBlanks key.rest).length < s.length :=
    Nat.lt_of_le_of_lt (length_skipBlanks_le key.rest) key.shorter
  have hdistinct := hvalues _ (Nat.le_of_lt hbehind) hw
  rcases hstep with ⟨comma, more, -, hmore, rfl⟩ | ⟨-, close, -, rfl⟩
  · have hshort : comma.rest.length < s.length :=
      Nat.lt_trans comma.shorter (Nat.lt_trans w.shorter hbehind)
    obtain ⟨hvalues', hnodup, hfresh⟩ := keysDistinct_of_readTreeMembers ho
      (fun t ht => hvalues t (Nat.le_trans ht (Nat.le_of_lt hshort))) hmore
    refine ⟨List.forall_mem_cons.2 ⟨hdistinct, hvalues'⟩,
      List.nodup_cons.2 ⟨fun hmem => ?_, hnodup⟩,
      List.forall_mem_cons.2 ⟨hnew, fun m hm hmem => hfresh m hm (List.mem_cons_of_mem _ hmem)⟩⟩
    obtain ⟨m, hm, heq⟩ := List.mem_map.1 hmem
    exact hfresh m hm (heq ▸ List.mem_cons_self)
  · exact ⟨List.forall_mem_singleton.2 hdistinct, List.nodup_singleton _,
      List.forall_mem_singleton.2 hnew⟩
  termination_by s.length

theorem readsDistinct (ho : o.duplicateKeys = false) (s : Bytes) : ReadsDistinct o s := by
  induction hlength : s.length using Nat.strong_induction_on generalizing s with
  | _ n ih =>
  intro depth r h
  cases s with
  | nil =>
    rw [readTree] at h
    cases h
  | cons c rest =>
    have hvalues : ∀ t, t.length ≤ rest.length → ReadsDistinct o t := fun t ht =>
      ih _ (hlength ▸ Nat.lt_succ_of_le ht) t rfl
    by_cases hobject : Char.ofUInt8 c = '\x7b'
    · obtain ⟨-, ⟨close, -, rfl⟩ | ⟨-, members, hmembers, rfl⟩⟩ := readTree_object hobject h
      · exact .object (List.forall_mem_nil _) List.nodup_nil
      · obtain ⟨hdistinct, hnodup, -⟩ := keysDistinct_of_readTreeMembers ho hvalues hmembers
        exact .object hdistinct hnodup
    by_cases harray : Char.ofUInt8 c = '['
    · obtain ⟨-, ⟨close, -, rfl⟩ | ⟨-, items, hitems, rfl⟩⟩ := readTree_array hobject harray h
      · exact .array (List.forall_mem_nil _)
      · exact .array (keysDistinct_of_readTrees hvalues hitems)
    · obtain ⟨x, -, rfl⟩ := readTree_scalar hobject harray h
      exact .scalar _

/-- Where keys may not be repeated, the tree of a text has none twice. -/
theorem keysDistinct_of_written (ho : o.duplicateKeys = false) {w : Written}
    (h : written o s = some w) : w.KeysDistinct := by
  unfold written at h
  dsimp only at h
  split at h
  · cases h
  · obtain ⟨r, hr, rfl⟩ := Option.map_eq_some_iff.1 h
    exact readsDistinct ho _ (Option.filter_eq_some_iff.1 hr).1

end Json

end PackageAudit
