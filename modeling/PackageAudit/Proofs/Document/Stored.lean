import PackageAudit.Proofs.Basic
import PackageAudit.Proofs.Document.Arena
import PackageAudit.Proofs.Document.Json.Soundness
import PackageAudit.Proofs.Document.Value

/-!
# Proofs.Document.Stored — where the values of a tree are stored

* `Written.parts` — the parts of a container, each with its key;
* `Written.Stored` — a value of a tree, with the keys that lead to it and the number of its slot;
* `Written.slot_of_stored`, `Written.exists_stored` — what stands in the slots;
* `Written.linked` — every slot is linked with its container;
* `Written.walk_cases` — keys lead to the same values in the slots and in the document;
* `Written.KeysDistinct.exists_walk` — without repeated keys they lead to every slot.
-/

namespace PackageAudit

namespace Written

/-! ## Parts -/

/-- The parts of a container, each with its key, replaced members included. -/
def parts : Written → List (Key × Written)
  | scalar _ => []
  | array items => items.mapIdx fun i w => (.index i, w)
  | object members => members.map fun member => (.member member.1, member.2)

/-- What the slot of a value holds. -/
def content (number : Nat) : Written → Content
  | scalar x => .scalar x
  | array items => .array (numbersFrom (number + 1) items)
  | object members => .object (entriesFrom (number + 1) [] members)

/-- Parts with the numbers of their slots. -/
def numberedFrom (next : Nat) : List (Key × Written) → List (Key × Nat × Written)
  | [] => []
  | (key, w) :: rest => (key, next, w) :: numberedFrom (next + w.size) rest

/-- The slots of parts. -/
def partSlots (next parent : Nat) : List (Key × Written) → List Slot
  | [] => []
  | (key, w) :: rest =>
    w.slotsFrom next (some parent) (some key) ++ partSlots (next + w.size) parent rest

variable {w x y : Written} {next parent number m n : Nat} {key : Key} {ps : List (Key × Written)}

theorem itemSlots_eq (next parent index : Nat) (ws : List Written) :
    itemSlots next parent index ws =
      partSlots next parent (ws.mapIdx fun i w => (.index (index + i), w)) := by
  induction ws generalizing next index with
  | nil => rfl
  | cons w ws ih =>
    rw [itemSlots, ih, List.mapIdx_cons, partSlots]
    simp only [Nat.add_zero, Nat.add_assoc, Nat.add_comm 1]

theorem memberSlots_eq (next parent : Nat) (ws : List (String × Written)) :
    memberSlots next parent ws =
      partSlots next parent (ws.map fun member => (.member member.1, member.2)) := by
  induction ws generalizing next with
  | nil => rfl
  | cons member ws ih => rw [memberSlots, ih, List.map_cons, partSlots]

/-- A value is stored before its parts. -/
theorem slotsFrom_eq (here : Nat) (parent : Option Nat) (key : Option Key) (w : Written) :
    w.slotsFrom here parent key =
      ⟨w.content here, parent, key⟩ :: partSlots (here + 1) here w.parts := by
  cases w with
  | scalar x => rfl
  | array items =>
    rw [slotsFrom, itemSlots_eq]
    simp only [Nat.zero_add]
    rfl
  | object members =>
    rw [slotsFrom, memberSlots_eq]
    rfl

theorem length_partSlots (next parent : Nat) (ps : List (Key × Written)) :
    (partSlots next parent ps).length = sizeAll (ps.map Prod.snd) := by
  induction ps generalizing next with
  | nil => rfl
  | cons part ps ih =>
    rw [partSlots, List.length_append, length_slotsFrom, ih, List.map_cons, sizeAll]

theorem size_eq (w : Written) : w.size = 1 + sizeAll (w.parts.map Prod.snd) := by
  rw [← length_slotsFrom 0 none none w, slotsFrom_eq, List.length_cons, length_partSlots,
    Nat.add_comm]

theorem size_le_sizeAll (h : (key, w) ∈ ps) : w.size ≤ sizeAll (ps.map Prod.snd) := by
  induction ps with
  | nil => cases h
  | cons part ps ih =>
    rw [List.map_cons, sizeAll]
    rcases List.mem_cons.1 h with rfl | h
    · exact Nat.le_add_right _ _
    · exact Nat.le_trans (ih h) (Nat.le_add_left _ _)

/-- Induction over a tree, through all its parts. -/
theorem induction {P : Written → Prop} (h : ∀ w : Written, (∀ part ∈ w.parts, P part.2) → P w)
    (w : Written) : P w := by
  induction hsize : w.size using Nat.strong_induction_on generalizing w with
  | _ n ih =>
  refine h w fun part hpart => ih _ ?_ part.2 rfl
  have hle := size_le_sizeAll hpart
  have hw := w.size_eq
  omega

/-! ## Numbers -/

theorem keys_numberedFrom (next : Nat) (ps : List (Key × Written)) :
    (numberedFrom next ps).map Prod.fst = ps.map Prod.fst := by
  induction ps generalizing next with
  | nil => rfl
  | cons part ps ih => rw [numberedFrom, List.map_cons, List.map_cons, ih]

theorem mem_of_mem_numberedFrom (h : (key, m, w) ∈ numberedFrom next ps) :
    (key, w) ∈ ps ∧ next ≤ m := by
  induction ps generalizing next with
  | nil => cases h
  | cons part ps ih =>
    rcases List.mem_cons.1 h with heq | h
    · cases heq
      exact ⟨List.mem_cons_self, Nat.le_refl _⟩
    · obtain ⟨hmem, hle⟩ := ih h
      exact ⟨List.mem_cons_of_mem _ hmem, Nat.le_trans (Nat.le_add_right _ _) hle⟩

theorem numberedFrom_append (next : Nat) (ps qs : List (Key × Written)) :
    numberedFrom next (ps ++ qs) =
      numberedFrom next ps ++ numberedFrom (next + sizeAll (ps.map Prod.snd)) qs := by
  induction ps generalizing next with
  | nil => rfl
  | cons part ps ih =>
    rw [List.cons_append, numberedFrom, ih, List.map_cons, sizeAll, Nat.add_assoc]
    rfl

/-- Every part has a number, below the number behind all parts. -/
theorem exists_mem_numberedFrom (next : Nat) (h : (key, w) ∈ ps) :
    ∃ m, (key, m, w) ∈ numberedFrom next ps ∧ m < next + sizeAll (ps.map Prod.snd) := by
  induction ps generalizing next with
  | nil => cases h
  | cons part ps ih =>
    rw [List.map_cons, sizeAll]
    rcases List.mem_cons.1 h with rfl | h
    · have hpositive : 0 < w.size := by
        rw [size_eq]
        omega
      exact ⟨next, List.mem_cons_self,
        Nat.lt_add_of_pos_right (Nat.add_pos_left hpositive _)⟩
    · obtain ⟨m, hmem, hlt⟩ := ih (next + part.2.size) h
      exact ⟨m, List.mem_cons_of_mem _ hmem, by omega⟩

/-- The slots of a part stand together among those of all parts. -/
theorem partSlots_eq_append (parent : Nat) (h : (key, m, w) ∈ numberedFrom next ps) :
    ∃ front back, partSlots next parent ps =
        front ++ w.slotsFrom m (some parent) (some key) ++ back ∧ next + front.length = m := by
  induction ps generalizing next with
  | nil => cases h
  | cons part ps ih =>
    rcases List.mem_cons.1 h with heq | h
    · cases heq
      exact ⟨[], _, rfl, rfl⟩
    · obtain ⟨front, back, heq, hlength⟩ := ih h
      refine ⟨part.2.slotsFrom next (some parent) (some part.1) ++ front, back, ?_, ?_⟩
      · rw [partSlots, heq]
        simp only [List.append_assoc]
      · rw [List.length_append, length_slotsFrom, ← Nat.add_assoc]
        exact hlength

/-- Every slot of the parts belongs to one of them. -/
theorem exists_numbered (hle : next ≤ number)
    (hlt : number < next + sizeAll (ps.map Prod.snd)) :
    ∃ key m w, (key, m, w) ∈ numberedFrom next ps ∧ m ≤ number ∧ number < m + w.size := by
  induction ps generalizing next with
  | nil => exact absurd hlt (Nat.not_lt.2 hle)
  | cons part ps ih =>
    by_cases hfirst : number < next + part.2.size
    · exact ⟨part.1, next, part.2, List.mem_cons_self, hle, hfirst⟩
    · rw [List.map_cons, sizeAll, ← Nat.add_assoc] at hlt
      obtain ⟨key, m, w, hmem, hbounds⟩ := ih (Nat.le_of_not_lt hfirst) hlt
      exact ⟨key, m, w, List.mem_cons_of_mem _ hmem, hbounds⟩

/-! ## Values in their slots -/

/-- A value of a tree, with the keys that lead to it and the number of its slot. -/
inductive Stored (w : Written) : List Key → Nat → Written → Prop
  | root : Stored w [] 0 w
  | part {keys : List Key} {number m : Nat} {x y : Written} {key : Key} :
      Stored w keys number x → (key, m, y) ∈ numberedFrom (number + 1) x.parts →
      Stored w (keys ++ [key]) m y

/-- The slots of the parts of a value that is stored stand behind its own slot. -/
theorem slots_of_part {front back : List Slot} {parent : Option Nat} {above : Option Key}
    (hslots : w.slots = front ++ x.slotsFrom number parent above ++ back)
    (hlength : front.length = number) (hpart : (key, m, y) ∈ numberedFrom (number + 1) x.parts) :
    ∃ front back, w.slots = front ++ y.slotsFrom m (some number) (some key) ++ back ∧
      front.length = m := by
  obtain ⟨front', back', hparts, hlength'⟩ := partSlots_eq_append number hpart
  refine ⟨front ++ ⟨x.content number, parent, above⟩ :: front', back' ++ back, ?_, ?_⟩
  · rw [hslots, slotsFrom_eq, hparts]
    simp only [List.append_assoc, List.cons_append]
  · rw [List.length_append, List.length_cons, hlength]
    omega

/-- The slots of a value stand together from its own slot on. -/
theorem slots_of_stored {keys : List Key} (h : Stored w keys number x) :
    ∃ front back parent key, w.slots = front ++ x.slotsFrom number parent key ++ back ∧
      front.length = number := by
  induction h with
  | root => exact ⟨[], [], none, none, (List.append_nil _).symm, rfl⟩
  | part _ hpart ih =>
    obtain ⟨front, back, parent, above, hslots, hlength⟩ := ih
    obtain ⟨front', back', hslots', hlength'⟩ := slots_of_part hslots hlength hpart
    exact ⟨front', back', _, _, hslots', hlength'⟩

theorem slot_of_root (w : Written) : w.slots[0]? = some ⟨w.content 0, none, none⟩ := by
  rw [slots, slotsFrom_eq]
  rfl

theorem slot_of_part {keys : List Key} (h : Stored w keys number x)
    (hpart : (key, m, y) ∈ numberedFrom (number + 1) x.parts) :
    w.slots[m]? = some ⟨y.content m, some number, some key⟩ := by
  obtain ⟨_, _, _, _, hslots, hlength⟩ := slots_of_stored h
  obtain ⟨front, back, hslots', rfl⟩ := slots_of_part hslots hlength hpart
  rw [hslots', slotsFrom_eq]
  simp

theorem exists_slot {keys : List Key} (h : Stored w keys number x) :
    ∃ parent key, w.slots[number]? = some ⟨x.content number, parent, key⟩ := by
  cases h with
  | root => exact ⟨none, none, slot_of_root w⟩
  | part h hpart => exact ⟨_, _, slot_of_part h hpart⟩

/-- In every slot of a value that is stored, a value is stored. -/
theorem exists_stored_from (x : Written) {keys : List Key} {number m : Nat}
    (h : Stored w keys number x) (hle : number ≤ m) (hlt : m < number + x.size) :
    ∃ keys y, Stored w keys m y := by
  induction x using induction generalizing keys number with
  | h x ih =>
  rcases Nat.eq_or_lt_of_le hle with rfl | hbehind
  · exact ⟨keys, x, h⟩
  · rw [size_eq, ← Nat.add_assoc] at hlt
    obtain ⟨key, first, y, hpart, hfirst, hlast⟩ := exists_numbered hbehind hlt
    exact ih (key, y) (mem_of_mem_numberedFrom hpart).1 (h.part hpart) hfirst hlast

theorem exists_stored (w : Written) (h : number < w.slots.length) :
    ∃ keys x, Stored w keys number x := by
  rw [slots, length_slotsFrom] at h
  exact exists_stored_from w .root (Nat.zero_le _) (by rwa [Nat.zero_add])

/-! ## Members under construction -/

section Members

variable {entries : List (String × Nat)} {ms : Json.Members} {key name : String} {v : Value}

theorem lookup_enter :
    (enter key number entries).lookup name =
      if name = key then some number else entries.lookup name := by
  induction entries with
  | nil => exact Lookup.lookup_cons_eq (key, number)
  | cons entry entries ih =>
    rw [enter]
    split
    · next hkey =>
      rw [Lookup.lookup_cons_eq, Lookup.lookup_cons_eq, hkey]
      split <;> rfl
    · next hkey =>
      rw [Lookup.lookup_cons_eq, Lookup.lookup_cons_eq, ih]
      by_cases hname : name = key
      · rw [if_neg (hname ▸ Ne.symm hkey), if_pos hname, if_pos hname]
      · rw [if_neg hname, if_neg hname]

theorem keys_enter : (enter key number entries).map Prod.fst =
    if key ∈ entries.map Prod.fst then entries.map Prod.fst else entries.map Prod.fst ++ [key] := by
  induction entries with
  | nil => rfl
  | cons entry entries ih =>
    rw [enter]
    by_cases hkey : entry.1 = key
    · simp [hkey]
    · rw [if_neg hkey, List.map_cons, ih]
      by_cases hmem : key ∈ entries.map Prod.fst
      · simp [hmem]
      · simp [hmem, Ne.symm hkey]

theorem enter_new (h : key ∉ entries.map Prod.fst) :
    enter key number entries = entries ++ [(key, number)] := by
  induction entries with
  | nil => rfl
  | cons entry entries ih =>
    obtain ⟨hne, hrest⟩ := not_or.1 (mt List.mem_cons.2 h)
    rw [enter, if_neg (Ne.symm hne), ih hrest]
    rfl

theorem mem_keys_enter :
    name ∈ (enter key number entries).map Prod.fst ↔ name ∈ key :: entries.map Prod.fst := by
  rw [keys_enter]
  split
  · next hmem =>
    refine ⟨List.mem_cons_of_mem _, fun h => ?_⟩
    rcases List.mem_cons.1 h with rfl | h
    · exact hmem
    · exact h
  · rw [List.mem_append, List.mem_singleton, List.mem_cons, or_comm]

theorem lookup_replace? {members members' : List (String × Value)} {old : Value}
    (h : Value.replace? members key v = some (members', old)) :
    members'.lookup name = if name = key then some v else members.lookup name := by
  induction members generalizing members' with
  | nil => cases h
  | cons member members ih =>
    rw [Value.replace?] at h
    split at h
    · next hkey =>
      cases h
      rw [Lookup.lookup_cons_eq, Lookup.lookup_cons_eq, hkey]
      split <;> rfl
    · next hkey =>
      obtain ⟨⟨rest, old'⟩, hrest, heq⟩ := Option.map_eq_some_iff.1 h
      cases heq
      rw [Lookup.lookup_cons_eq, Lookup.lookup_cons_eq, ih hrest]
      by_cases hname : name = key
      · rw [if_neg (hname ▸ Ne.symm hkey), if_pos hname, if_pos hname]
      · rw [if_neg hname, if_neg hname]

theorem lookup_put : (ms.put key v).kept.lookup name =
    if name = key then some v else ms.kept.lookup name := by
  rw [Json.Members.put]
  split
  · next hreplace => exact lookup_replace? hreplace
  · exact Lookup.lookup_cons_eq (key, v)

theorem keys_put : (ms.put key v).kept.reverse.map Prod.fst =
    if key ∈ ms.kept.reverse.map Prod.fst then ms.kept.reverse.map Prod.fst
    else ms.kept.reverse.map Prod.fst ++ [key] := by
  have hmem : key ∈ ms.kept.reverse.map Prod.fst ↔ key ∈ ms.kept.map Prod.fst := by
    rw [List.map_reverse, List.mem_reverse]
  rw [Json.Members.put]
  split
  · next kept old hreplace =>
    have hkey : key ∈ ms.kept.map Prod.fst := by
      by_contra hnew
      cases (Json.replace?_eq_none_iff.2 hnew).symm.trans hreplace
    rw [if_pos (hmem.2 hkey), List.map_reverse, (Value.of_replace? hreplace).1, List.map_reverse]
  · next hnone =>
    rw [if_neg (mt hmem.1 (Json.replace?_eq_none_iff.1 hnone)), List.reverse_cons, List.map_append]
    rfl

/--
The members of an object whose parts so far are `seen`: the slots and the document have the same
keys, and under each of them the last part with that key.
-/
structure Agree (seen : List (Key × Nat × Written)) (entries : List (String × Nat))
    (ms : Json.Members) : Prop where
  keys : entries.map Prod.fst = ms.kept.reverse.map Prod.fst
  nodup : (entries.map Prod.fst).Nodup
  parts : ∀ name, (∃ number w, (.member name, number, w) ∈ seen ∧
      entries.lookup name = some number ∧ ms.kept.lookup name = some w.settle) ∨
    ((∀ number w, (.member name, number, w) ∉ seen) ∧
      entries.lookup name = none ∧ ms.kept.lookup name = none)

theorem Agree.put {seen : List (Key × Nat × Written)} (h : Agree seen entries ms) (key : String)
    (number : Nat) (w : Written) :
    Agree (seen ++ [(.member key, number, w)]) (enter key number entries)
      (ms.put key w.settle) where
  keys := by rw [keys_enter, keys_put, h.keys]
  nodup := by
    rw [keys_enter]
    split
    · exact h.nodup
    · next hnew =>
      exact List.nodup_append.2 ⟨h.nodup, List.nodup_singleton _, fun name hname other hother =>
        List.mem_singleton.1 hother ▸ fun heq => hnew (heq ▸ hname)⟩
  parts name := by
    rw [lookup_enter, lookup_put]
    by_cases hname : name = key
    · rw [if_pos hname, if_pos hname]
      exact .inl ⟨number, w, by simp [hname], rfl, rfl⟩
    · rw [if_neg hname, if_neg hname]
      rcases h.parts name with ⟨m, x, hmem, hlookups⟩ | ⟨hnone, hlookups⟩
      · exact .inl ⟨m, x, List.mem_append_left _ hmem, hlookups⟩
      · refine .inr ⟨fun m x hmem => ?_, hlookups⟩
        rcases List.mem_append.1 hmem with hmem | hmem
        · exact hnone m x hmem
        · cases List.mem_singleton.1 hmem
          exact hname rfl

theorem Agree.settleMembers {seen : List (Key × Nat × Written)} (h : Agree seen entries ms)
    (next : Nat) (members : List (String × Written)) :
    Agree (seen ++ numberedFrom next (members.map fun member => (.member member.1, member.2)))
      (entriesFrom next entries members) (Written.settleMembers ms members) := by
  induction members generalizing seen entries ms next with
  | nil => rwa [List.map_nil, numberedFrom, List.append_nil]
  | cons member members ih =>
    have hmore := ih (h.put member.1 next member.2) (next + member.2.size)
    rw [List.append_assoc] at hmore
    exact hmore

theorem agree_object (number : Nat) (members : List (String × Written)) :
    Agree (numberedFrom (number + 1) (object members).parts)
      (entriesFrom (number + 1) [] members) (Written.settleMembers ⟨[], []⟩ members) := by
  have hempty : Agree [] [] ⟨[], []⟩ :=
    ⟨rfl, List.nodup_nil, fun name => .inr ⟨fun _ _ => List.not_mem_nil, rfl, rfl⟩⟩
  exact hempty.settleMembers (number + 1) members

end Members

/-! ## What keys lead to -/

theorem mem_numbered_items {items : List Written} {offset : Nat} :
    (key, m, y) ∈ numberedFrom next (items.mapIdx fun i w => (.index (offset + i), w)) ↔
      ∃ i, key = .index (offset + i) ∧ (numbersFrom next items)[i]? = some m ∧
        items[i]? = some y := by
  induction items generalizing next offset with
  | nil => simp [numberedFrom]
  | cons w items ih =>
    have hrest : (items.mapIdx fun i w => (Key.index (offset + (i + 1)), w)) =
        items.mapIdx fun i w => (Key.index (offset + 1 + i), w) := by
      simp only [Nat.add_assoc, Nat.add_comm 1]
    rw [List.mapIdx_cons, numberedFrom, hrest, List.mem_cons, ih, numbersFrom]
    constructor
    · rintro (heq | ⟨i, hkey, hm, hy⟩)
      · cases heq
        exact ⟨0, rfl, rfl, rfl⟩
      · exact ⟨i + 1, by rw [hkey, Nat.add_assoc, Nat.add_comm 1], hm, hy⟩
    · rintro ⟨i, hkey, hm, hy⟩
      cases i with
      | zero =>
        cases hm
        cases hy
        exact .inl (by rw [hkey])
      | succ i => exact .inr ⟨i, by rw [hkey, Nat.add_assoc, Nat.add_comm 1], hm, hy⟩

end Written

/-- The part of a value that a key leads to. -/
def Value.child? (v : Value) : Key → Option Value
  | .member name => v.member? name
  | .index i => v.item? i

namespace Written

theorem settleAll_eq_map (ws : List Written) : settleAll ws = ws.map settle := by
  induction ws with
  | nil => rfl
  | cons w ws ih => rw [settleAll, ih, List.map_cons]

theorem length_numbersFrom (next : Nat) (ws : List Written) :
    (numbersFrom next ws).length = ws.length := by
  induction ws generalizing next with
  | nil => rfl
  | cons w ws ih => rw [numbersFrom, List.length_cons, ih, List.length_cons]

/-- A key leads to a part, in the slots and in the document, or there is no part with that key. -/
theorem child_cases (x : Written) (number : Nat) (key : Key) :
    (∃ m y, (key, m, y) ∈ numberedFrom (number + 1) x.parts ∧
      (x.content number).child? key = some m ∧ x.settle.child? key = some y.settle) ∨
    ((∀ m y, (key, m, y) ∉ numberedFrom (number + 1) x.parts) ∧
      (x.content number).child? key = none ∧ x.settle.child? key = none) := by
  cases x with
  | scalar x =>
    refine .inr ⟨fun _ _ => List.not_mem_nil, ?_, ?_⟩
    · cases key <;> rfl
    · cases key <;> cases x <;> rfl
  | array items =>
    have hparts : (array items).parts = items.mapIdx fun i w => (.index (0 + i), w) := by
      simp only [Nat.zero_add]
      rfl
    rw [hparts]
    cases key with
    | member name =>
      refine .inr ⟨fun m y hmem => ?_, rfl, rfl⟩
      obtain ⟨i, heq, -⟩ := mem_numbered_items.1 hmem
      cases heq
    | index i =>
      have hsettle : (array items).settle.child? (.index i) = items[i]?.map settle := by
        rw [settle, settleAll_eq_map]
        exact List.getElem?_map
      rw [hsettle]
      cases hy : items[i]? with
      | some y =>
        obtain ⟨hlt, -⟩ := List.getElem?_eq_some_iff.1 hy
        have hm := List.getElem?_eq_getElem (l := numbersFrom (number + 1) items)
          (by rwa [length_numbersFrom])
        exact .inl ⟨_, y, mem_numbered_items.2 ⟨i, by rw [Nat.zero_add], hm, hy⟩, hm, rfl⟩
      | none =>
        refine .inr ⟨fun m y hmem => ?_, ?_, rfl⟩
        · obtain ⟨j, heq, -, hj⟩ := mem_numbered_items.1 hmem
          rw [Nat.zero_add] at heq
          cases heq
          cases hy.symm.trans hj
        · rw [List.getElem?_eq_none_iff] at hy
          exact List.getElem?_eq_none (by rwa [length_numbersFrom])
  | object members =>
    cases key with
    | index i =>
      refine .inr ⟨fun m y hmem => ?_, rfl, rfl⟩
      obtain ⟨member, -, heq⟩ := List.mem_map.1 (mem_of_mem_numberedFrom hmem).1
      cases heq
    | member name =>
      have hagree := agree_object number members
      have hnodup := hagree.nodup
      rw [hagree.keys, List.map_reverse, List.nodup_reverse] at hnodup
      have hsettle : (object members).settle.child? (.member name) =
          (Written.settleMembers ⟨[], []⟩ members).kept.lookup name := by
        rw [settle]
        exact Lookup.lookup_reverse hnodup
      rw [hsettle]
      rcases hagree.parts name with ⟨m, y, hmem, hm, hy⟩ | hnone
      · exact .inl ⟨m, y, hmem, hm, hy⟩
      · exact .inr hnone

variable {w x y : Written} {number m : Nat} {key : Key} {keys : List Key}

/-- A slot of a container leads to parts only. -/
theorem part_of_child? (h : (x.content number).child? key = some m) :
    ∃ y, (key, m, y) ∈ numberedFrom (number + 1) x.parts := by
  rcases child_cases x number key with ⟨m', y, hpart, hm, -⟩ | ⟨-, hnone, -⟩
  · cases hm.symm.trans h
    exact ⟨y, hpart⟩
  · cases hnone.symm.trans h

theorem nodup_of_content {members : List (String × Nat)}
    (h : x.content number = .object members) : (members.map Prod.fst).Nodup := by
  cases x with
  | scalar x => cases h
  | array items => cases h
  | object written =>
    cases h
    exact (agree_object number written).nodup

/-! ## Links -/

/-- The slots of a tree. -/
def arena (w : Written) : Arena :=
  ⟨w.slots, 0⟩

/-- In every slot of a tree stands a value of it. -/
theorem stored_of_slot {slot : Slot} (h : w.slots[number]? = some slot) :
    ∃ keys x, Stored w keys number x ∧ slot.content = x.content number := by
  obtain ⟨hlt, -⟩ := List.getElem?_eq_some_iff.1 h
  obtain ⟨keys, x, hx⟩ := exists_stored w hlt
  obtain ⟨_, _, hslot⟩ := exists_slot hx
  cases h.symm.trans hslot
  exact ⟨keys, x, hx, rfl⟩

theorem exists_child_slot {slot : Slot} (h : w.slots[number]? = some slot)
    (hchild : slot.content.child? key = some m) :
    ∃ content, w.slots[m]? = some ⟨content, some number, some key⟩ := by
  obtain ⟨keys, x, hx, hcontent⟩ := stored_of_slot h
  rw [hcontent] at hchild
  obtain ⟨y, hpart⟩ := part_of_child? hchild
  exact ⟨_, slot_of_part hx hpart⟩

/-- Every slot of a tree is linked with its container. -/
theorem linked (w : Written) : w.arena.Linked where
  root := ⟨_, slot_of_root w⟩
  keys slot members hmem hcontent := by
    obtain ⟨number, hslot⟩ := List.mem_iff_getElem?.1 hmem
    obtain ⟨_, x, -, hx⟩ := stored_of_slot hslot
    exact nodup_of_content (hx.symm.trans hcontent)
  member number slot members hslot hcontent name child hmem := by
    obtain ⟨_, x, -, hx⟩ := stored_of_slot hslot
    have hnodup := nodup_of_content (hx.symm.trans hcontent)
    have hchild : slot.content.child? (.member name) = some child := by
      rw [hcontent]
      exact (Lookup.lookup_eq_some_iff_mem hnodup).2 hmem
    exact exists_child_slot hslot hchild
  item number slot items hslot hcontent i child hitem := by
    have hchild : slot.content.child? (.index i) = some child := by
      rw [hcontent]
      exact hitem
    exact exists_child_slot hslot hchild
  parent_lt number slot parent hslot hparent := by
    obtain ⟨hlt, -⟩ := List.getElem?_eq_some_iff.1 hslot
    obtain ⟨keys, x, hx⟩ := exists_stored w hlt
    cases hx with
    | root =>
      cases (slot_of_root w).symm.trans hslot
      cases hparent
    | part hx hpart =>
      cases (slot_of_part hx hpart).symm.trans hslot
      cases hparent
      exact (mem_of_mem_numberedFrom hpart).2

/-- The way back from a value, replaced or not, has the keys that lead to it. -/
theorem climb_stored (h : Stored w keys number x) (behind : List Key) :
    w.arena.climb number behind = some (keys ++ behind) := by
  induction h generalizing behind with
  | root => exact Arena.climb_root (a := w.arena) (slot_of_root w) behind
  | @part keys number m x y key h hpart ih =>
    calc w.arena.climb m behind
        = w.arena.climb number (key :: behind) :=
        Arena.climb_part (a := w.arena) (slot_of_part h hpart) behind
      _ = some (keys ++ key :: behind) := ih (key :: behind)
      _ = some (keys ++ [key] ++ behind) := by rw [List.append_assoc, List.singleton_append]

theorem keys_stored (h : Stored w keys number x) : w.arena.climb number [] = some keys := by
  rw [climb_stored h, List.append_nil]

end Written

/-! ## The same ways in a document -/

/-- The place that a key leads to. -/
def Node.step (n : Node) : Key → Node
  | .member name => n.get name
  | .index i => n.item i

/-- The place that keys lead to from the root. -/
def Document.walk (d : Document) (keys : List Key) : Node :=
  keys.foldl Node.step d.rootNode

/-- What a slot holds is the value, but for the parts of a container. -/
def Content.Shows : Content → Value → Prop
  | .scalar x, v => v = x.toValue
  | .array items, v => ∃ vs, v = .array vs ∧ vs.length = items.length
  | .object members, v => ∃ ms replaced, v = .object ms replaced ∧
      ms.map Prod.fst = members.map Prod.fst

/-- The slots hold a document: in both, all keys lead to the same values. -/
structure Arena.Holds (a : Arena) (d : Document) : Prop where
  size : a.slots.length = d.size
  walk : ∀ keys, (∃ number slot v, a.walk keys = some (.present number) ∧
      a.slots[number]? = some slot ∧ (d.walk keys).value? = some v ∧ slot.content.Shows v) ∨
    (∃ path, a.walk keys = some (.absent path) ∧ (d.walk keys).value? = none)

theorem Node.step_present {value : Value} {around : List (Key × Value)} (key : Key) :
    (∃ child around', value.child? key = some child ∧
      (Node.present value around).step key = .present child around') ∨
    (value.child? key = none ∧ ((Node.present value around).step key).value? = none) := by
  cases key with
  | member name =>
    rw [Node.step, Node.get, Value.child?]
    cases value.member? name with
    | some child => exact .inl ⟨child, _, rfl, rfl⟩
    | none => exact .inr ⟨rfl, rfl⟩
  | index i =>
    rw [Node.step, Node.item, Value.child?]
    cases value.item? i with
    | some child => exact .inl ⟨child, _, rfl, rfl⟩
    | none => exact .inr ⟨rfl, rfl⟩

theorem Node.step_absent {n : Node} (h : n.value? = none) (key : Key) :
    (n.step key).value? = none := by
  cases n with
  | present value around => cases h
  | absent keys => cases key <;> rfl

/-- A step is put behind the keys of a place. -/
theorem Node.keys_step (n : Node) (key : Key) : (n.step key).keys = n.keys ++ [key] := by
  cases key with
  | member name => exact n.keys_get name
  | index i =>
    cases n with
    | absent keys => rfl
    | present value around =>
      rw [step, item]
      split
      · exact List.reverse_cons
      · rfl

/-- A place with a value leads back to the place it was reached from, by the last key. -/
theorem Node.back_step {n : Node} {key : Key} {value : Value} {around : List (Key × Value)}
    (h : n.step key = .present value around) :
    (n.step key).key? = some key ∧ (n.step key).parent? = some n := by
  cases n with
  | absent keys => cases key <;> cases h
  | present outer around' =>
    cases key with
    | member name =>
      rw [step, get] at h ⊢
      split at h
      · exact ⟨rfl, rfl⟩
      · cases h
    | index i =>
      rw [step, item] at h ⊢
      split at h
      · exact ⟨rfl, rfl⟩
      · cases h

theorem Document.walk_append (d : Document) (keys : List Key) (key : Key) :
    d.walk (keys ++ [key]) = (d.walk keys).step key := by
  rw [walk, List.foldl_append]
  rfl

namespace Written

variable {w x y : Written} {number m : Nat} {key : Key}

theorem shows_settle (x : Written) (number : Nat) : (x.content number).Shows x.settle := by
  cases x with
  | scalar x => rfl
  | array items =>
    exact ⟨_, rfl, by rw [settleAll_eq_map, List.length_map, length_numbersFrom]⟩
  | object members => exact ⟨_, _, rfl, (agree_object number members).keys.symm⟩

/-- Keys lead to a value that is stored under them, or in neither form to any. -/
theorem walk_cases (w : Written) (keys : List Key) :
    (∃ number x around, Stored w keys number x ∧ w.arena.walk keys = some (.present number) ∧
      (Document.mk w.settle).walk keys = .present x.settle around) ∨
    (∃ path, w.arena.walk keys = some (.absent path) ∧
      ((Document.mk w.settle).walk keys).value? = none) := by
  induction keys using List.reverseRecOn with
  | nil => exact .inl ⟨0, w, [], .root, rfl, rfl⟩
  | append_singleton keys key ih =>
    -- a place without a part under the key has a path, since every way has one
    have habsent (h : ∀ number, w.arena.walk (keys ++ [key]) ≠ some (.present number)) :
        ∃ path, w.arena.walk (keys ++ [key]) = some (.absent path) := by
      obtain ⟨p, hp, -⟩ := w.linked.path_walk (keys ++ [key])
      cases p with
      | present number => exact absurd hp (h number)
      | absent path => exact ⟨path, hp⟩
    rw [Document.walk_append]
    rcases ih with ⟨number, x, around, hx, hwalk, hnode⟩ | ⟨path, hwalk, hnone⟩
    · obtain ⟨parent, above, hslot⟩ := exists_slot hx
      have hchild : w.arena.child? (.present number) key = (x.content number).child? key := by
        change (w.slots[number]?).bind (·.content.child? key) = _
        rw [hslot]
        rfl
      rw [hnode]
      rcases child_cases x number key with ⟨m, y, hpart, hm, hy⟩ | ⟨-, hm, hy⟩
      · have hstep : w.arena.walk (keys ++ [key]) = some (.present m) := by
          rw [Arena.walk_append, hwalk, Option.bind_some, Arena.step, hchild, hm]
        rcases Node.step_present key with ⟨child, around', hvalue, hnode'⟩ | ⟨hvalue, -⟩
        · cases hy.symm.trans hvalue
          exact .inl ⟨m, y, around', hx.part hpart, hstep, hnode'⟩
        · cases hy.symm.trans hvalue
      · refine .inr ?_
        rcases Node.step_present key with ⟨child, around', hvalue, hnode'⟩ | ⟨-, hnode'⟩
        · cases hy.symm.trans hvalue
        · obtain ⟨path, hpath⟩ := habsent fun m hm' => by
            obtain ⟨_, hparent, hpart⟩ := Arena.child?_of_walk hm'
            cases hwalk.symm.trans hparent
            cases (hchild.trans hm).symm.trans hpart
          exact ⟨path, hpath, hnode'⟩
    · obtain ⟨path', hpath'⟩ := habsent fun m hm' => by
        obtain ⟨_, hparent, -⟩ := Arena.child?_of_walk hm'
        cases hwalk.symm.trans hparent
      exact .inr ⟨path', hpath', Node.step_absent hnone key⟩

/-- The slots of a tree hold the document that is read. -/
theorem holds (w : Written) : w.arena.Holds ⟨w.settle⟩ where
  size := w.length_slots
  walk keys := by
    rcases walk_cases w keys with ⟨number, x, around, hx, hwalk, hnode⟩ | habsent
    · obtain ⟨parent, key, hslot⟩ := exists_slot hx
      exact .inl ⟨number, _, x.settle, hwalk, hslot, by rw [hnode]; rfl, shows_settle x number⟩
    · exact .inr habsent

/-! ## Trees without repeated keys -/

/-- No object of the tree has a key twice. -/
inductive KeysDistinct : Written → Prop
  | intro {w : Written} : (w.parts.map Prod.fst).Nodup →
      (∀ part ∈ w.parts, KeysDistinct part.2) → KeysDistinct w

theorem KeysDistinct.scalar (x : Scalar) : (Written.scalar x).KeysDistinct :=
  .intro List.nodup_nil (List.forall_mem_nil _)

theorem KeysDistinct.array {ws : List Written} (h : ∀ w ∈ ws, w.KeysDistinct) :
    (Written.array ws).KeysDistinct := by
  refine .intro ?_ fun part hpart => ?_
  · have hkeys : (Written.array ws).parts.map Prod.fst = (List.range ws.length).map Key.index := by
      apply List.ext_getElem <;> simp [parts]
    rw [hkeys]
    exact List.nodup_range.map fun _ _ heq => Key.index.inj heq
  · obtain ⟨i, hi, rfl⟩ := List.mem_mapIdx.1 hpart
    exact h _ (List.getElem_mem hi)

theorem KeysDistinct.object {ws : List (String × Written)} (h : ∀ w ∈ ws, w.2.KeysDistinct)
    (hnodup : (ws.map Prod.fst).Nodup) : (Written.object ws).KeysDistinct := by
  refine .intro ?_ fun part hpart => ?_
  · have hkeys : (Written.object ws).parts.map Prod.fst = (ws.map Prod.fst).map Key.member := by
      rw [parts, List.map_map, List.map_map]
      rfl
    rw [hkeys]
    exact hnodup.map fun _ _ heq => Key.member.inj heq
  · obtain ⟨member, hmember, rfl⟩ := List.mem_map.1 hpart
    exact h member hmember

theorem KeysDistinct.stored (h : w.KeysDistinct) {keys : List Key} (hx : Stored w keys number x) :
    x.KeysDistinct := by
  induction hx with
  | root => exact h
  | part _ hpart ih =>
    obtain ⟨-, hparts⟩ := ih
    exact hparts _ (mem_of_mem_numberedFrom hpart).1

/-- Where no key is repeated, the keys of a value lead to it. -/
theorem KeysDistinct.walk_stored (h : w.KeysDistinct) {keys : List Key}
    (hx : Stored w keys number x) : w.arena.walk keys = some (.present number) := by
  induction hx with
  | root => rfl
  | @part keys number m x y key hx hpart ih =>
    obtain ⟨hnodup, -⟩ := h.stored hx
    rw [← keys_numberedFrom (number + 1)] at hnodup
    obtain ⟨parent, above, hslot⟩ := exists_slot hx
    have hchild : w.arena.child? (.present number) key = some m := by
      change (w.slots[number]?).bind (·.content.child? key) = _
      rw [hslot]
      rcases child_cases x number key with ⟨m', y', hpart', hm, -⟩ | ⟨hnone, -⟩
      · have heq := List.inj_on_of_nodup_map hnodup hpart hpart' rfl
        cases heq
        exact hm
      · exact absurd hpart (hnone m y)
    rw [Arena.walk_append, ih, Option.bind_some, Arena.step, hchild]

theorem KeysDistinct.exists_walk (h : w.KeysDistinct) (hnumber : number < w.slots.length) :
    ∃ keys, w.arena.walk keys = some (.present number) := by
  obtain ⟨keys, x, hx⟩ := exists_stored w hnumber
  exact ⟨keys, h.walk_stored hx⟩

end Written

end PackageAudit
