import PackageAudit.Document.Json.Form
import PackageAudit.Proofs.Document.Json.Soundness
import PackageAudit.Proofs.Document.Written

/-!
# Proofs.Document.Json.Written — the tree that a text is read as

The reader settles an object member by member and keeps what it replaces. Here the same texts are
read as trees with all members in the order in which they are written, by a reader without errors:

* `Json.readTree` — the tree at the head of the input;
* `Json.written` — the tree of a text, `Json.arena` its slots;
* `Json.settles` — the value that is read is that of the tree, and there is a value where there is a
  tree;
* `Json.read_eq_ok_iff` — the same of whole texts.
-/

namespace PackageAudit

namespace Json

/-! ## Reading trees -/

/-- A value with a name of its own. -/
def readWord (first : Char) (others : List Char) (x : Scalar) (s : Bytes) :
    Option (Reading s Scalar) :=
  match h : afterWord? (first :: others) s with
  | some rest => some ⟨x, rest, lt_of_afterWord? h⟩
  | none => none

/-- The value without parts whose first byte is `b`. -/
def readScalar (o : JsonOptions) (b : UInt8) (rest : Bytes) : Option (Reading (b :: rest) Scalar) :=
  match Char.ofUInt8 b with
  | '"' => (readText o rest).toOption.map fun r => (r.map .string).behind
  | 't' => readWord 't' ['r', 'u', 'e'] (.bool true) (b :: rest)
  | 'f' => readWord 'f' ['a', 'l', 's', 'e'] (.bool false) (b :: rest)
  | 'n' => readWord 'n' ['u', 'l', 'l'] .null (b :: rest)
  | c =>
    if c == '-' || c.isDigit || (c == '.' && o.malformedDecimals) then
      (readNumber o (b :: rest)).toOption.map (·.map .number)
    else none

mutual

/-- The tree at the head of `s`, in `depth` arrays and objects. -/
def readTree (o : JsonOptions) (depth : Nat) (s : Bytes) : Option (Reading s Written) :=
  match s with
  | [] => none
  | b :: rest =>
    if Char.ofUInt8 b = '\x7b' then
      if maxDepth ≤ depth then none
      else
        match mark? '\x7d' rest with
        | some close => some (close.map fun _ => Written.object []).behind
        | none => (readTreeMembers o (depth + 1) [] rest).map fun r => (r.map Written.object).behind
    else if Char.ofUInt8 b = '[' then
      if maxDepth ≤ depth then none
      else
        match mark? ']' rest with
        | some close => some (close.map fun _ => Written.array []).behind
        | none => (readTrees o (depth + 1) rest).map fun r => (r.map Written.array).behind
    else (readScalar o b rest).map (·.map Written.scalar)
  termination_by 2 * s.length

/-- The elements of an array, up to its end. -/
def readTrees (o : JsonOptions) (depth : Nat) (s : Bytes) : Option (Reading s (List Written)) :=
  have := length_skipBlanks_le s
  match readTree o depth (skipBlanks s) with
  | none => none
  | some r =>
    let first := r.widen (length_skipBlanks_le s)
    match mark? ',' first.rest with
    | some comma =>
      have := comma.shorter
      have := first.shorter
      (readTrees o depth comma.rest).map fun more =>
        first.next (comma.next (more.map (first.value :: ·)))
    | none => (mark? ']' first.rest).map fun close => first.next (close.map fun _ => [first.value])
  termination_by 2 * s.length + 1

/-- The members of an object, up to its end, behind those with the given keys. -/
def readTreeMembers (o : JsonOptions) (depth : Nat) (keys : List String) (s : Bytes) :
    Option (Reading s (List (String × Written))) :=
  match readKey o s with
  | none => none
  | some key =>
    if key.value ∈ keys ∧ ¬ o.duplicateKeys then none
    else
      have hblank := length_skipBlanks_le key.rest
      have := key.shorter
      match readTree o depth (skipBlanks key.rest) with
      | none => none
      | some r =>
        let member := (key.next (r.widen hblank)).map (key.value, ·)
        match mark? ',' member.rest with
        | some comma =>
          have := comma.shorter
          have := member.shorter
          (readTreeMembers o depth (key.value :: keys) comma.rest).map fun more =>
            member.next (comma.next (more.map (member.value :: ·)))
        | none =>
          (mark? '\x7d' member.rest).map fun close =>
            member.next (close.map fun _ => [member.value])
  termination_by 2 * s.length + 1

end

/-- The tree of a whole text. -/
def written (o : JsonOptions) (s : Bytes) : Option Written :=
  let marked := byteOrderMark.isPrefixOf s
  if marked ∧ ¬ o.byteOrderMark then none
  else
    ((readTree o 0 (skipBlanks (if marked then s.drop 3 else s))).filter
      fun r => (skipBlanks r.rest).isEmpty).map (·.value)

/-- The slots of a text. -/
def arena (o : JsonOptions) (s : Bytes) : Option (List Slot) :=
  (written o s).map Written.slots

/-! ## How trees are read -/

section Cases

variable {o : JsonOptions} {depth : Nat} {s : Bytes}

theorem readTrees_cases {r : Reading s (List Written)} (h : readTrees o depth s = some r) :
    ∃ w, readTree o depth (skipBlanks s) = some w ∧
      ((∃ comma more, mark? ',' w.rest = some comma ∧ readTrees o depth comma.rest = some more ∧
          r = (w.widen (length_skipBlanks_le s)).next (comma.next (more.map (w.value :: ·)))) ∨
        (mark? ',' w.rest = none ∧ ∃ close, mark? ']' w.rest = some close ∧
          r = (w.widen (length_skipBlanks_le s)).next (close.map fun _ => [w.value]))) := by
  rw [readTrees] at h
  cases hw : readTree o depth (skipBlanks s) with
  | none =>
    rw [hw] at h
    cases h
  | some w =>
    rw [hw] at h
    dsimp only [Reading.widen] at h
    refine ⟨w, rfl, ?_⟩
    cases hcomma : mark? ',' w.rest with
    | some comma =>
      rw [hcomma] at h
      obtain ⟨more, hmore, rfl⟩ := Option.map_eq_some_iff.1 h
      exact .inl ⟨comma, more, rfl, hmore, rfl⟩
    | none =>
      rw [hcomma] at h
      obtain ⟨close, hclose, rfl⟩ := Option.map_eq_some_iff.1 h
      exact .inr ⟨rfl, close, hclose, rfl⟩

/-- The key and the value of a member. -/
def memberOf {s : Bytes} (key : Reading s String) (w : Reading (skipBlanks key.rest) Written) :
    Reading s (String × Written) :=
  (key.next (w.widen (length_skipBlanks_le key.rest))).map (key.value, ·)

theorem readTreeMembers_cases {keys : List String} {r : Reading s (List (String × Written))}
    (h : readTreeMembers o depth keys s = some r) :
    ∃ key w, readKey o s = some key ∧ ¬ (key.value ∈ keys ∧ ¬ o.duplicateKeys = true) ∧
      readTree o depth (skipBlanks key.rest) = some w ∧
      ((∃ comma more, mark? ',' w.rest = some comma ∧
          readTreeMembers o depth (key.value :: keys) comma.rest = some more ∧
          r = (memberOf key w).next (comma.next (more.map ((key.value, w.value) :: ·)))) ∨
        (mark? ',' w.rest = none ∧ ∃ close, mark? '\x7d' w.rest = some close ∧
          r = (memberOf key w).next (close.map fun _ => [(key.value, w.value)]))) := by
  rw [readTreeMembers] at h
  cases hkey : readKey o s with
  | none =>
    rw [hkey] at h
    cases h
  | some key =>
  rw [hkey] at h
  dsimp only at h
  by_cases hrepeated : key.value ∈ keys ∧ ¬ o.duplicateKeys = true
  · rw [if_pos hrepeated] at h
    cases h
  rw [if_neg hrepeated] at h
  cases hw : readTree o depth (skipBlanks key.rest) with
  | none =>
    rw [hw] at h
    cases h
  | some w =>
  rw [hw] at h
  dsimp only [Reading.map, Reading.widen, Reading.next] at h
  refine ⟨key, w, rfl, hrepeated, hw, ?_⟩
  cases hcomma : mark? ',' w.rest with
  | some comma =>
    rw [hcomma] at h
    obtain ⟨more, hmore, rfl⟩ := Option.map_eq_some_iff.1 h
    exact .inl ⟨comma, more, rfl, hmore, rfl⟩
  | none =>
    rw [hcomma] at h
    obtain ⟨close, hclose, rfl⟩ := Option.map_eq_some_iff.1 h
    exact .inr ⟨rfl, close, hclose, rfl⟩

variable {b : UInt8} {rest : Bytes} {r : Reading (b :: rest) Written}

theorem readTree_object (hobject : Char.ofUInt8 b = '\x7b')
    (h : readTree o depth (b :: rest) = some r) :
    ¬ maxDepth ≤ depth ∧
      ((∃ close, mark? '\x7d' rest = some close ∧
          r = (close.map fun _ => Written.object []).behind) ∨
        (mark? '\x7d' rest = none ∧ ∃ members, readTreeMembers o (depth + 1) [] rest = some members ∧
          r = (members.map Written.object).behind)) := by
  rw [readTree, if_pos hobject] at h
  by_cases hdeep : maxDepth ≤ depth
  · rw [if_pos hdeep] at h
    cases h
  rw [if_neg hdeep] at h
  refine ⟨hdeep, ?_⟩
  cases hclose : mark? '\x7d' rest with
  | some close =>
    rw [hclose] at h
    exact .inl ⟨close, rfl, (Option.some.inj h).symm⟩
  | none =>
    rw [hclose] at h
    obtain ⟨members, hmembers, rfl⟩ := Option.map_eq_some_iff.1 h
    exact .inr ⟨rfl, members, hmembers, rfl⟩

theorem readTree_array (hobject : Char.ofUInt8 b ≠ '\x7b') (harray : Char.ofUInt8 b = '[')
    (h : readTree o depth (b :: rest) = some r) :
    ¬ maxDepth ≤ depth ∧
      ((∃ close, mark? ']' rest = some close ∧
          r = (close.map fun _ => Written.array []).behind) ∨
        (mark? ']' rest = none ∧ ∃ items, readTrees o (depth + 1) rest = some items ∧
          r = (items.map Written.array).behind)) := by
  rw [readTree, if_neg hobject, if_pos harray] at h
  by_cases hdeep : maxDepth ≤ depth
  · rw [if_pos hdeep] at h
    cases h
  rw [if_neg hdeep] at h
  refine ⟨hdeep, ?_⟩
  cases hclose : mark? ']' rest with
  | some close =>
    rw [hclose] at h
    exact .inl ⟨close, rfl, (Option.some.inj h).symm⟩
  | none =>
    rw [hclose] at h
    obtain ⟨items, hitems, rfl⟩ := Option.map_eq_some_iff.1 h
    exact .inr ⟨rfl, items, hitems, rfl⟩

theorem readTree_scalar (hobject : Char.ofUInt8 b ≠ '\x7b') (harray : Char.ofUInt8 b ≠ '[')
    (h : readTree o depth (b :: rest) = some r) :
    ∃ x, readScalar o b rest = some x ∧ r = x.map Written.scalar := by
  rw [readTree, if_neg hobject, if_neg harray] at h
  obtain ⟨x, hx, rfl⟩ := Option.map_eq_some_iff.1 h
  exact ⟨x, hx, rfl⟩

end Cases

/-! ## Marks, keys and values without parts -/

variable {o : JsonOptions} {c : Char} {s rest : Bytes}

theorem mark?_eq_some (h : after? c (skipBlanks s) = some rest) :
    mark? c s = some ⟨(), rest, Nat.lt_of_lt_of_le (lt_of_after? h) (length_skipBlanks_le s)⟩ := by
  unfold mark?
  split
  · next found hfound =>
    cases h.symm.trans hfound
    rfl
  · next hnone => cases h.symm.trans hnone

theorem mark?_eq_none (h : after? c (skipBlanks s) = none) : mark? c s = none := by
  unfold mark?
  split
  · next found hfound => cases h.symm.trans hfound
  · rfl

theorem after?_of_mark? {mark : Reading s Unit} (h : mark? c s = some mark) :
    after? c (skipBlanks s) = some mark.rest := by
  unfold mark? at h
  split at h
  · next found hfound =>
    cases h
    exact hfound
  · cases h

theorem eq_ok_of_toOption {ε α : Type} {x : Except ε α} {a : α} (h : x.toOption = some a) :
    x = .ok a := by
  cases x with
  | error e => cases h
  | ok b =>
    cases h
    rfl

theorem readWord_eq_some {first : Char} {others : List Char} (x : Scalar)
    (h : afterWord? (first :: others) s = some rest) :
    readWord first others x s = some ⟨x, rest, lt_of_afterWord? h⟩ := by
  unfold readWord
  split
  · next found hfound =>
    cases h.symm.trans hfound
    rfl
  · next hnone => cases h.symm.trans hnone

theorem readWord_eq_none {first : Char} {others : List Char} (x : Scalar)
    (h : afterWord? (first :: others) s = none) : readWord first others x s = none := by
  unfold readWord
  split
  · next found hfound => cases h.symm.trans hfound
  · rfl

theorem value_of_readWord {first : Char} {others : List Char} {x : Scalar} {r : Reading s Scalar}
    (h : readWord first others x s = some r) : r.value = x := by
  unfold readWord at h
  split at h
  · cases h
    rfl
  · cases h

theorem toOption_readName (first : Char) (others : List Char) (x : Scalar) (path : List Key)
    (s : Bytes) :
    (readName first others x.toValue path s).toOption =
      (readWord first others x s).map (·.map Scalar.toValue) := by
  rw [readName]
  split
  · next rest hrest =>
    rw [readWord_eq_some x hrest]
    rfl
  · next hnone =>
    rw [readWord_eq_none x hnone]
    rfl

/-- Where the reader finds a value, it is that of the tree that stands there. -/
def Settles (o : JsonOptions) (s : Bytes) : Prop :=
  ∀ site, (readValue o site s).toOption =
    (readTree o site.depth s).map (·.map Written.settle)

theorem toOption_readItems {s : Bytes} {site : Site} {start : Bytes} (index : Nat)
    (items : List Value) (h : s.length < start.length) (hvalues : ∀ t, t.length ≤ s.length → Settles o t) :
    (readItems o site start index items s h).toOption =
      (readTrees o (site.depth + 1) s).map fun r =>
        ⟨.array (items.reverse ++ Written.settleAll r.value), r.rest, Nat.lt_trans r.shorter h⟩ := by
  rw [readItems, readTrees]
  dsimp only
  have hfirst := hvalues _ (length_skipBlanks_le s) ⟨site.depth + 1, .index index :: site.path⟩
  cases hread : readValue o ⟨site.depth + 1, .index index :: site.path⟩ (skipBlanks s) with
  | error e =>
    rw [hread] at hfirst
    rw [Option.map_eq_none_iff.1 hfirst.symm]
    rfl
  | ok r =>
    rw [hread] at hfirst
    obtain ⟨w, hw, rfl⟩ := Option.map_eq_some_iff.1 hfirst.symm
    rw [hw]
    dsimp only [Reading.map, Reading.widen]
    have hnext : (skipBlanks w.rest).length < s.length :=
      Nat.lt_of_le_of_lt (length_skipBlanks_le w.rest)
        (Nat.lt_of_lt_of_le w.shorter (length_skipBlanks_le s))
    split
    · next more hcomma =>
      have hshort : more.length < s.length := Nat.lt_trans (lt_of_after? hcomma) hnext
      rw [mark?_eq_some hcomma, toOption_readItems (index + 1) _ _ fun t ht =>
        hvalues t (Nat.le_trans ht (Nat.le_of_lt hshort))]
      simp only [Option.map_map, Function.comp_def, Written.settleAll, Reading.next,
        List.reverse_cons, List.append_assoc, List.singleton_append]
    · next hnone =>
      rw [mark?_eq_none hnone]
      split
      · next rest hend =>
        rw [mark?_eq_some hend]
        simp only [Except.toOption, Option.map_some, Written.settleAll, Reading.next,
          List.reverse_cons]
      · next hnone' =>
        rw [mark?_eq_none hnone']
        rfl
  termination_by s.length

theorem readKey_eq_some {behindQuote behindColon : Bytes} {name : Reading behindQuote String}
    (hquote : after? '"' (skipBlanks s) = some behindQuote)
    (hname : readText o behindQuote = .ok name)
    (hcolon : after? ':' (skipBlanks name.rest) = some behindColon) :
    ∃ key, readKey o s = some key ∧ key.value = name.value ∧ key.rest = behindColon := by
  rw [readKey, mark?_eq_some hquote, Option.bind_eq_bind, Option.bind_some, hname]
  rw [Except.toOption, Option.bind_eq_bind, Option.bind_some, mark?_eq_some hcolon]
  exact ⟨_, rfl, rfl, rfl⟩

theorem readKey_cases {key : Reading s String} (h : readKey o s = some key) :
    ∃ behindQuote, after? '"' (skipBlanks s) = some behindQuote ∧
      ∃ name : Reading behindQuote String, readText o behindQuote = .ok name ∧
        after? ':' (skipBlanks name.rest) = some key.rest ∧ key.value = name.value := by
  obtain ⟨quote, hquote, h⟩ := Option.bind_eq_some_iff.1 h
  obtain ⟨name, hname, h⟩ := Option.bind_eq_some_iff.1 h
  obtain ⟨colon, hcolon, h⟩ := Option.bind_eq_some_iff.1 h
  cases h
  exact ⟨quote.rest, after?_of_mark? hquote, name, eq_ok_of_toOption hname,
    after?_of_mark? hcolon, rfl⟩

theorem isKey_put {m : Members} {name key : String} {v : Value} :
    (m.put name v).isKey key = true ↔ key = name ∨ m.isKey key = true := by
  rw [isKey_iff, isKey_iff, Members.put]
  split
  · next kept old hreplace =>
    have hname : name ∈ m.kept.map Prod.fst := by
      by_contra hnew
      cases (replace?_eq_none_iff.2 hnew).symm.trans hreplace
    rw [(Value.of_replace? hreplace).1]
    refine ⟨.inr, ?_⟩
    rintro (rfl | hkey)
    · exact hname
    · exact hkey
  · rw [List.map_cons, List.mem_cons]

theorem toOption_readMembers {s : Bytes} {site : Site} {start : Bytes} {m : Members}
    {keys : List String} (hkeys : ∀ key, m.isKey key = true ↔ key ∈ keys)
    (h : s.length < start.length) (hvalues : ∀ t, t.length ≤ s.length → Settles o t) :
    (readMembers o site start m s h).toOption =
      (readTreeMembers o (site.depth + 1) keys s).map fun r =>
        ⟨(Written.settleMembers m r.value).toValue, r.rest, Nat.lt_trans r.shorter h⟩ := by
  rw [readMembers, readTreeMembers]
  dsimp only
  split
  · next hquote =>
    have hnone : readKey o s = none := by simp [readKey, mark?_eq_none hquote]
    rw [hnone]
    rfl
  next behindQuote hquote =>
  cases hname : readText o behindQuote with
  | error e =>
    have hnone : readKey o s = none := by
      simp [readKey, mark?_eq_some hquote, hname, Except.toOption]
    rw [hnone]
    rfl
  | ok name =>
    dsimp only [Leaf.under]
    split
    · next hcolon =>
      have hnone : readKey o s = none := by
        simp [readKey, mark?_eq_some hquote, hname, Except.toOption, mark?_eq_none hcolon]
      rw [hnone]
      rfl
    next behindColon hcolon =>
    obtain ⟨key, hkey, hvalue, rfl⟩ := readKey_eq_some hquote hname hcolon
    simp only [hkey, ← hvalue]
    have hrefused : (m.isKey key.value && !o.duplicateKeys) = true ↔
        key.value ∈ keys ∧ ¬ o.duplicateKeys = true := by
      rw [Bool.and_eq_true, hkeys, Bool.not_eq_true', Bool.not_eq_true]
    by_cases hrepeated : key.value ∈ keys ∧ ¬ o.duplicateKeys = true
    · rw [if_pos (hrefused.2 hrepeated), if_pos hrepeated]
      rfl
    rw [if_neg (mt hrefused.1 hrepeated), if_neg hrepeated]
    have hbehind : (skipBlanks key.rest).length < s.length :=
      Nat.lt_of_le_of_lt (length_skipBlanks_le key.rest) key.shorter
    have hmember := hvalues _ (Nat.le_of_lt hbehind)
      ⟨site.depth + 1, .member key.value :: site.path⟩
    cases hread : readValue o ⟨site.depth + 1, .member key.value :: site.path⟩
        (skipBlanks key.rest) with
    | error e =>
      rw [hread] at hmember
      rw [Option.map_eq_none_iff.1 hmember.symm]
      rfl
    | ok r =>
      rw [hread] at hmember
      obtain ⟨w, hw, rfl⟩ := Option.map_eq_some_iff.1 hmember.symm
      rw [hw]
      dsimp only [Reading.map, Reading.widen, Reading.next]
      have hnext : (skipBlanks w.rest).length < s.length :=
        Nat.lt_of_le_of_lt (length_skipBlanks_le w.rest) (Nat.lt_trans w.shorter hbehind)
      split
      · next more hcomma =>
        have hshort : more.length < s.length := Nat.lt_trans (lt_of_after? hcomma) hnext
        have hput : ∀ k, (m.put key.value w.value.settle).isKey k = true ↔
            k ∈ key.value :: keys := by
          intro k
          rw [isKey_put, List.mem_cons, hkeys]
        rw [mark?_eq_some hcomma, toOption_readMembers hput _ fun t ht =>
          hvalues t (Nat.le_trans ht (Nat.le_of_lt hshort))]
        simp only [Option.map_map, Function.comp_def, Written.settleMembers]
      · next hnone =>
        rw [mark?_eq_none hnone]
        split
        · next rest hend =>
          rw [mark?_eq_some hend]
          rfl
        · next hnone' =>
          rw [mark?_eq_none hnone']
          rfl
  termination_by s.length

theorem toOption_readScalar {site : Site} {b : UInt8} (hobject : Char.ofUInt8 b ≠ '\x7b')
    (harray : Char.ofUInt8 b ≠ '[') :
    (readValue o site (b :: rest)).toOption = (readScalar o b rest).map (·.map Scalar.toValue) := by
  rw [readValue, readScalar]
  split
  case h_1 h => exact absurd h hobject
  case h_2 h => exact absurd h harray
  case h_3 h =>
    simp only [h]
    cases readText o rest <;> rfl
  case h_4 h =>
    simp only [h]
    exact toOption_readName 't' ['r', 'u', 'e'] (.bool true) site.path (b :: rest)
  case h_5 h =>
    simp only [h]
    exact toOption_readName 'f' ['a', 'l', 's', 'e'] (.bool false) site.path (b :: rest)
  case h_6 h =>
    simp only [h]
    exact toOption_readName 'n' ['u', 'l', 'l'] .null site.path (b :: rest)
  case h_7 =>
    split
    · next hnumber =>
      split <;> try contradiction
      rw [if_pos hnumber]
      cases readNumber o (b :: rest) <;> rfl
    · next hnumber =>
      split <;> try contradiction
      rw [if_neg hnumber]
      rfl

theorem settles (o : JsonOptions) (s : Bytes) : Settles o s := by
  -- Values within a container are read from shorter inputs.
  induction hlength : s.length using Nat.strong_induction_on generalizing s with
  | _ n ih =>
  intro site
  cases s with
  | nil =>
    rw [readValue, readTree]
    rfl
  | cons b rest =>
    have hvalues : ∀ t, t.length ≤ rest.length → Settles o t := fun t ht =>
      ih _ (hlength ▸ Nat.lt_succ_of_le ht) t rfl
    rw [readTree]
    by_cases hobject : Char.ofUInt8 b = '\x7b'
    · rw [if_pos hobject, readValue]
      simp only [hobject]
      split
      · rfl
      split
      · next close hclose =>
        rw [mark?_eq_some hclose]
        rfl
      · next hnone =>
        have hkeys : ∀ key, Members.isKey ⟨[], []⟩ key = true ↔ key ∈ ([] : List String) := by
          simp [Members.isKey]
        rw [mark?_eq_none hnone, toOption_readMembers hkeys _ hvalues]
        simp only [Option.map_map]
        rfl
    rw [if_neg hobject]
    by_cases harray : Char.ofUInt8 b = '['
    · rw [if_pos harray, readValue]
      simp only [harray]
      split
      · rfl
      split
      · next close hclose =>
        rw [mark?_eq_some hclose]
        rfl
      · next hnone =>
        rw [mark?_eq_none hnone, toOption_readItems _ _ _ hvalues]
        simp only [Option.map_map]
        rfl
    · rw [if_neg harray, toOption_readScalar hobject harray, Option.map_map]
      rfl

/-! ## Texts -/

/-- The value of a text is that of its tree, and there is none where there is no tree. -/
theorem toOption_readTextOf (o : JsonOptions) (s : Bytes) :
    (readTextOf o s).toOption = (written o s).map Written.settle := by
  have hmarked : (byteOrderMark.isPrefixOf s && !o.byteOrderMark) = true ↔
      byteOrderMark.isPrefixOf s = true ∧ ¬ o.byteOrderMark = true := by
    rw [Bool.and_eq_true, Bool.not_eq_true', Bool.not_eq_true]
  unfold readTextOf written
  by_cases hrefused : byteOrderMark.isPrefixOf s = true ∧ ¬ o.byteOrderMark = true
  · rw [if_pos (hmarked.2 hrefused), if_pos hrefused]
    rfl
  rw [if_neg (mt hmarked.1 hrefused), if_neg hrefused]
  have hvalue := settles o (skipBlanks (if byteOrderMark.isPrefixOf s then s.drop 3 else s)) ⟨0, []⟩
  cases hread : readValue o ⟨0, []⟩
      (skipBlanks (if byteOrderMark.isPrefixOf s then s.drop 3 else s)) with
  | error e =>
    rw [hread] at hvalue
    rw [Option.map_eq_none_iff.1 hvalue.symm]
    rfl
  | ok r =>
    rw [hread] at hvalue
    obtain ⟨w, hw, rfl⟩ := Option.map_eq_some_iff.1 hvalue.symm
    rw [hw]
    dsimp only [Reading.map]
    cases hrest : skipBlanks w.rest with
    | nil => simp [Except.toOption, hrest]
    | cons b rest => simp [Except.toOption, hrest]

theorem read_eq_ok_iff {s : Bytes} {d : Document} :
    read o s = .ok d ↔ ∃ w, written o s = some w ∧ w.settle = d.root := by
  have htext := toOption_readTextOf o s
  unfold read
  cases hread : readTextOf o s with
  | error e =>
    rw [hread] at htext
    rw [Option.map_eq_none_iff.1 htext.symm]
    exact iff_of_false nofun nofun
  | ok root =>
    rw [hread] at htext
    obtain ⟨w, hw, rfl⟩ := Option.map_eq_some_iff.1 htext.symm
    constructor
    · rintro ⟨⟩
      exact ⟨w, hw, rfl⟩
    · rintro ⟨w', hw', hroot⟩
      cases hw.symm.trans hw'
      rw [hroot]

end Json

end PackageAudit
