import PackageAudit.Document.Json.Reader
import PackageAudit.Proofs.Document.Value

/-!
# Proofs.Document.Written — trees as they are written, and the slots they fill

A document keeps each key of an object once. The text that it was read from may have a key several
times, and a reader stores every value in a slot of its own, replaced ones included:

* `Written` — the tree of a text, members in the order in which they are written;
* `Written.settle` — the value that a document has of it;
* `Written.slots` — its values one after the other, each with the number of its parent and with its
  key, a container before the values in it;
* `Written.count_settle` — a document has as many values as there are slots.
-/

namespace PackageAudit

/-- A value without parts. -/
inductive Scalar where
  | null
  | bool (value : Bool)
  | number (value : Number)
  | string (value : String)

def Scalar.toValue : Scalar → Value
  | null => .null
  | bool b => .bool b
  | number n => .number n
  | string s => .string s

/-- A tree with all members of its objects in the order in which they are written. -/
inductive Written where
  | scalar (value : Scalar)
  | array (items : List Written)
  | object (members : List (String × Written))

namespace Written

/-! ## Values -/

mutual

/-- The value that is read: of members with one key, the last one in the place of the first. -/
def settle : Written → Value
  | scalar x => x.toValue
  | array items => .array (settleAll items)
  | object members => (settleMembers ⟨[], []⟩ members).toValue

def settleAll : List Written → List Value
  | [] => []
  | w :: ws => settle w :: settleAll ws

/-- Members read behind others. -/
def settleMembers (m : Json.Members) : List (String × Written) → Json.Members
  | [] => m
  | (key, w) :: ws => settleMembers (m.put key (settle w)) ws

end

mutual

/-- How many values are written. -/
def size : Written → Nat
  | scalar _ => 1
  | array items => 1 + sizeAll items
  | object members => 1 + sizeMembers members

def sizeAll : List Written → Nat
  | [] => 0
  | w :: ws => size w + sizeAll ws

def sizeMembers : List (String × Written) → Nat
  | [] => 0
  | (_, w) :: ws => size w + sizeMembers ws

end

end Written

/-! ## Slots -/

/-- What a slot holds: a container holds the numbers of the slots of its parts. -/
inductive Content where
  | scalar (value : Scalar)
  | array (items : List Nat)
  | object (members : List (String × Nat))

/-- A value in its place: with the number of the slot of its parent and its key there. -/
structure Slot where
  content : Content
  parent : Option Nat
  key : Option Key

namespace Written

/-- The numbers of values that are written one after the other. -/
def numbersFrom (next : Nat) : List Written → List Nat
  | [] => []
  | w :: ws => next :: numbersFrom (next + w.size) ws

/-- Add a member; under a key that is already there it takes the place of the earlier one. -/
def enter (key : String) (number : Nat) : List (String × Nat) → List (String × Nat)
  | [] => [(key, number)]
  | (k, n) :: rest => if k = key then (k, number) :: rest else (k, n) :: enter key number rest

/-- The members of an object: each key with the number of the last value under it. -/
def entriesFrom (next : Nat) (entries : List (String × Nat)) :
    List (String × Written) → List (String × Nat)
  | [] => entries
  | (key, w) :: ws => entriesFrom (next + w.size) (enter key next entries) ws

mutual

/-- The slots of a tree whose own slot has the number `here`. -/
def slotsFrom (here : Nat) (parent : Option Nat) (key : Option Key) : Written → List Slot
  | scalar x => [⟨.scalar x, parent, key⟩]
  | array items =>
    ⟨.array (numbersFrom (here + 1) items), parent, key⟩ :: itemSlots (here + 1) here 0 items
  | object members =>
    ⟨.object (entriesFrom (here + 1) [] members), parent, key⟩ ::
      memberSlots (here + 1) here members

/-- The slots of the elements of an array, from an index on. -/
def itemSlots (next parent index : Nat) : List Written → List Slot
  | [] => []
  | w :: ws =>
    slotsFrom next (some parent) (some (.index index)) w ++
      itemSlots (next + w.size) parent (index + 1) ws

/-- The slots of the members of an object, replaced ones included. -/
def memberSlots (next parent : Nat) : List (String × Written) → List Slot
  | [] => []
  | (key, w) :: ws =>
    slotsFrom next (some parent) (some (.member key)) w ++ memberSlots (next + w.size) parent ws

end

/-- The slots of a whole text. -/
def slots (w : Written) : List Slot :=
  w.slotsFrom 0 none none

/-! ## As many slots as values -/

mutual

theorem length_slotsFrom (here : Nat) (parent : Option Nat) (key : Option Key) (w : Written) :
    (w.slotsFrom here parent key).length = w.size := by
  cases w with
  | scalar x => rfl
  | array items => rw [slotsFrom, List.length_cons, length_itemSlots, size, Nat.add_comm]
  | object members => rw [slotsFrom, List.length_cons, length_memberSlots, size, Nat.add_comm]

theorem length_itemSlots (next parent index : Nat) (ws : List Written) :
    (itemSlots next parent index ws).length = sizeAll ws := by
  cases ws with
  | nil => rfl
  | cons w ws => rw [itemSlots, List.length_append, length_slotsFrom, length_itemSlots, sizeAll]

theorem length_memberSlots (next parent : Nat) (ws : List (String × Written)) :
    (memberSlots next parent ws).length = sizeMembers ws := by
  cases ws with
  | nil => rfl
  | cons m ws =>
    rw [memberSlots, List.length_append, length_slotsFrom, length_memberSlots, sizeMembers]

end

end Written

/-! ## As many values in a document -/

section Count

open Value

theorem countMembers_append (ms ns : List (String × Value)) :
    countMembers (ms ++ ns) = countMembers ms + countMembers ns := by
  induction ms with
  | nil => exact (Nat.zero_add _).symm
  | cons m ms ih => rw [List.cons_append, countMembers, countMembers, ih, Nat.add_assoc]

theorem countMembers_reverse (ms : List (String × Value)) :
    countMembers ms.reverse = countMembers ms := by
  induction ms with
  | nil => rfl
  | cons m ms ih =>
    rw [List.reverse_cons, countMembers_append, ih, Nat.add_comm]
    rfl

/-- A value that is replaced is not lost. -/
theorem countMembers_replace? {ms ms' : List (String × Value)} {key : String} {v old : Value}
    (h : replace? ms key v = some (ms', old)) :
    countMembers ms' + old.count = countMembers ms + v.count := by
  induction ms generalizing ms' with
  | nil => cases h
  | cons m ms ih =>
    rw [replace?] at h
    split at h
    · cases h
      simp only [countMembers]
      omega
    · obtain ⟨⟨rest, old'⟩, hrest, heq⟩ := Option.map_eq_some_iff.1 h
      cases heq
      have hrest := ih hrest
      simp only [countMembers]
      omega

theorem count_put (m : Json.Members) (key : String) (v : Value) :
    countMembers (m.put key v).kept + countMembers (m.put key v).replaced =
      countMembers m.kept + countMembers m.replaced + v.count := by
  rw [Json.Members.put]
  split
  · next kept old hreplace =>
    have hcount := countMembers_replace? hreplace
    simp only [countMembers]
    omega
  · simp only [countMembers]
    omega

end Count

namespace Written

mutual

/-- A document has as many values, replaced ones included, as are written. -/
theorem count_settle (w : Written) : w.settle.count = w.size := by
  cases w with
  | scalar x => cases x <;> rfl
  | array items => rw [settle, size, Value.count, countAll_settleAll]
  | object members =>
    have hmembers := count_settleMembers ⟨[], []⟩ members
    simp only [Value.countMembers] at hmembers
    rw [settle, size, Json.Members.toValue, Value.count, countMembers_reverse,
      countMembers_reverse]
    omega

theorem countAll_settleAll (ws : List Written) : Value.countAll (settleAll ws) = sizeAll ws := by
  cases ws with
  | nil => rfl
  | cons w ws => rw [settleAll, Value.countAll, sizeAll, count_settle, countAll_settleAll]

theorem count_settleMembers (m : Json.Members) (ws : List (String × Written)) :
    Value.countMembers (settleMembers m ws).kept + Value.countMembers (settleMembers m ws).replaced =
      Value.countMembers m.kept + Value.countMembers m.replaced + sizeMembers ws := by
  cases ws with
  | nil => rfl
  | cons member ws =>
    rw [settleMembers, count_settleMembers, count_put, count_settle, sizeMembers, Nat.add_assoc]

end

theorem length_slots (w : Written) : w.slots.length = w.settle.count := by
  rw [slots, length_slotsFrom, count_settle]

end Written

end PackageAudit
