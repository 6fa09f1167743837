import Mathlib.Data.Set.Card
import PackageAudit.Proofs.Document.Written

/-!
# Proofs.Document.Arena — documents whose values stand in slots

A reader stores the values of a text in slots, each with the slot it hangs off and the key by which
that slot leads to it. A way through such a document goes down along containers, and back along
these links:

* `Builder.push`, `Builder.fill` — a container is stored before its parts, and filled behind them;
* `Arena.step`, `Arena.walk` — the way down, which may lead to a place where nothing stands;
* `Arena.keys?`, `Arena.path?` — the way back to the root;
* `Arena.Linked` — the links that a reader has to leave behind;
* `Arena.Linked.path_walk`, `Arena.Linked.back_walk` — then the way back is the way down.
-/

namespace PackageAudit

/-! ## Slots under construction -/

/-- The slots stored so far. -/
structure Builder where
  slots : List Slot

namespace Builder

def empty : Builder := ⟨[]⟩

/-- The number of the slot that is stored next. -/
def next (b : Builder) : Nat :=
  b.slots.length

/-- Store a slot behind the others. -/
def push (b : Builder) (content : Content) (parent : Option Nat) (key : Option Key) : Builder :=
  ⟨b.slots ++ [⟨content, parent, key⟩]⟩

/-- Replace what a slot holds. -/
def fill (b : Builder) (number : Nat) (content : Content) : Builder :=
  ⟨b.slots.modify number fun slot => { slot with content }⟩

/-- The slots with others behind them. -/
def append (b : Builder) (slots : List Slot) : Builder :=
  ⟨b.slots ++ slots⟩

variable {b : Builder} {parent : Option Nat} {key : Option Key} {slots more : List Slot}

theorem next_append : (b.append slots).next = b.next + slots.length :=
  List.length_append

theorem append_append : (b.append slots).append more = b.append (slots ++ more) :=
  congrArg mk (List.append_assoc _ _ _)

theorem push_eq (content : Content) :
    b.push content parent key = b.append [⟨content, parent, key⟩] :=
  rfl

theorem next_push (content : Content) : (b.push content parent key).next = b.next + 1 :=
  List.length_append

/-- A container is filled, whatever was stored behind it. -/
theorem fill_append (first content : Content) :
    ((b.push first parent key).append slots).fill b.next content =
      b.append (⟨content, parent, key⟩ :: slots) := by
  have hmodify (front : List Slot) (slot : Slot) (f : Slot → Slot) :
      (front ++ slot :: slots).modify front.length f = front ++ f slot :: slots := by
    induction front with
    | nil => rfl
    | cons other front ih => exact congrArg (other :: ·) ih
  rw [push_eq, append_append]
  exact congrArg mk (hmodify _ _ _)

end Builder

/-! ## Documents -/

/-- The slots of a document, and which of them is the whole tree. -/
structure Arena where
  slots : List Slot
  root : Nat

/-- A place in a document: a slot, or the path of a place where nothing stands. -/
inductive Place where
  | present (number : Nat)
  | absent (path : String)

/-- The number of the part that a key leads to. -/
def Content.child? : Content → Key → Option Nat
  | .array items, .index i => items[i]?
  | .object members, .member name => members.lookup name
  | _, _ => none

/-- The path of a place, one step further. -/
def appendPath (path : String) (key : Key) : String :=
  .ofList ((if path = "." then [] else path.toList) ++ key.text)

namespace Arena

/-- The keys from the root to a slot and on; the way back to the root need not have an end. -/
def climb (a : Arena) (number : Nat) (behind : List Key) : Option (List Key) :=
  match a.slots[number]? with
  | none => none
  | some slot =>
    match slot.parent with
    | none => some (slot.key.toList ++ behind)
    | some parent => by
      -- A recursive call that is a term keeps its position in the file.
      apply climb
      exacts [a, parent, slot.key.toList ++ behind]
  partial_fixpoint

/-- The path of a place, if it has one. -/
def path? (a : Arena) : Place → Option String
  | .present number => (a.climb number []).map formatPath
  | .absent path => some path

/-- The place of the whole tree. -/
def rootPlace (a : Arena) : Place :=
  .present a.root

/-- The number of the part of a place that a key leads to. -/
def child? (a : Arena) : Place → Key → Option Nat
  | .present number, key => a.slots[number]?.bind (·.content.child? key)
  | .absent _, _ => none

/-- The place that a key leads to; without a part there it is named by its path. -/
def step (a : Arena) (p : Place) (key : Key) : Option Place :=
  match a.child? p key with
  | some number => some (.present number)
  | none => (a.path? p).map fun path => .absent (appendPath path key)

/-- The place that keys lead to from the root. -/
def walk (a : Arena) (keys : List Key) : Option Place :=
  keys.foldlM a.step a.rootPlace

/-- The key by which a place was reached from its parent. -/
def key? (a : Arena) : Place → Option Key
  | .present number => a.slots[number]?.bind (·.key)
  | .absent _ => none

/-- The place that a place hangs off. -/
def parent? (a : Arena) : Place → Option Place
  | .present number => (a.slots[number]?.bind (·.parent)).map .present
  | .absent _ => none

/-! ## Links -/

/-- Every slot is linked with the container that it is a part of. -/
structure Linked (a : Arena) : Prop where
  root : ∃ content, a.slots[a.root]? = some ⟨content, none, none⟩
  keys : ∀ (slot : Slot) (members : List (String × Nat)), slot ∈ a.slots →
    slot.content = .object members → (members.map Prod.fst).Nodup
  member : ∀ (number : Nat) (slot : Slot) (members : List (String × Nat)),
    a.slots[number]? = some slot → slot.content = .object members →
    ∀ (name : String) (child : Nat), (name, child) ∈ members →
      ∃ content, a.slots[child]? = some ⟨content, some number, some (.member name)⟩
  item : ∀ (number : Nat) (slot : Slot) (items : List Nat), a.slots[number]? = some slot →
    slot.content = .array items → ∀ (i child : Nat), items[i]? = some child →
      ∃ content, a.slots[child]? = some ⟨content, some number, some (.index i)⟩
  parent_lt : ∀ (number : Nat) (slot : Slot) (parent : Nat), a.slots[number]? = some slot →
    slot.parent = some parent → parent < number

end Arena

/-! ## Paths -/

theorem Key.two_le_length_text (key : Key) : 2 ≤ key.text.length := by
  cases key with
  | index i => simp [text]
  | member name =>
    rw [text]
    split
    · next hname =>
      -- a name without quotes has a first character
      cases hchars : name.toList with
      | nil =>
        rw [hchars] at hname
        cases hname
      | cons c rest => simp
    · simp [Json.quoteChars]

/-- The path of a longer way is the path of the way with one more step. -/
theorem appendPath_formatPath (keys : List Key) (key : Key) :
    appendPath (formatPath keys) key = formatPath (keys ++ [key]) := by
  have hlonger : formatPath (keys ++ [key]) = .ofList (keys.flatMap Key.text ++ key.text) := by
    simp [formatPath]
  rw [hlonger, appendPath]
  cases keys with
  | nil => rfl
  | cons first rest =>
    have hpath : formatPath (first :: rest) = .ofList ((first :: rest).flatMap Key.text) := rfl
    have hdot : formatPath (first :: rest) ≠ "." := by
      intro h
      have hlength := congrArg (fun path : String => path.toList.length) (hpath.symm.trans h)
      have hfirst := first.two_le_length_text
      simp at hlength
      omega
    rw [if_neg hdot, hpath, String.toList_ofList]

namespace Arena

variable {a : Arena} {number parent : Nat} {keys : List Key} {key : Key} {p : Place}

theorem climb_root {content : Content} {key : Option Key}
    (hslot : a.slots[number]? = some ⟨content, none, key⟩) (behind : List Key) :
    a.climb number behind = some (key.toList ++ behind) := by
  rw [climb, hslot]

theorem climb_part {content : Content}
    (hslot : a.slots[number]? = some ⟨content, some parent, some key⟩) (behind : List Key) :
    a.climb number behind = a.climb parent (key :: behind) := by
  rw [climb, hslot]
  rfl

theorem walk_append (a : Arena) (keys : List Key) (key : Key) :
    a.walk (keys ++ [key]) = (a.walk keys).bind (a.step · key) := by
  rw [walk, List.foldlM_append]
  exact congrArg (Option.bind _) (funext fun p => by simp)

/-- A step to a slot leads to a part. -/
theorem child?_of_step (h : a.step p key = some (.present number)) :
    a.child? p key = some number := by
  unfold step at h
  split at h
  · next child hchild =>
    cases h
    exact hchild
  · obtain ⟨path, -, heq⟩ := Option.map_eq_some_iff.1 h
    cases heq

/-- What the last of several keys leads to is a part of a slot. -/
theorem child?_of_walk (h : a.walk (keys ++ [key]) = some (.present number)) :
    ∃ parent, a.walk keys = some (.present parent) ∧
      a.child? (.present parent) key = some number := by
  rw [walk_append] at h
  obtain ⟨p, hp, hstep⟩ := Option.bind_eq_some_iff.1 h
  have hchild := child?_of_step hstep
  cases p with
  | present parent => exact ⟨parent, hp, hchild⟩
  | absent path => cases hchild

namespace Linked

variable (h : a.Linked)
include h

theorem child (hchild : a.child? (.present parent) key = some number) :
    ∃ content, a.slots[number]? = some ⟨content, some parent, some key⟩ := by
  obtain ⟨slot, hslot, hpart⟩ := Option.bind_eq_some_iff.1 hchild
  cases hcontent : slot.content with
  | scalar x =>
    rw [hcontent] at hpart
    cases key <;> cases hpart
  | array items =>
    rw [hcontent] at hpart
    cases key with
    | index i => exact h.item parent slot items hslot hcontent i number hpart
    | member name => cases hpart
  | object members =>
    rw [hcontent] at hpart
    cases key with
    | index i => cases hpart
    | member name =>
      obtain ⟨before, behind, rfl, -⟩ := List.lookup_eq_some_iff.1 hpart
      exact h.member parent slot _ hslot hcontent name number (by simp)

/-- The way back from a slot is the way that led to it. -/
theorem climb_walk (hwalk : a.walk keys = some (.present number)) (behind : List Key) :
    a.climb number behind = some (keys ++ behind) := by
  induction keys using List.reverseRecOn generalizing number behind with
  | nil =>
    cases hwalk
    obtain ⟨content, hroot⟩ := h.root
    exact climb_root hroot behind
  | append_singleton keys key ih =>
    obtain ⟨parent, hparent, hchild⟩ := child?_of_walk hwalk
    obtain ⟨content, hslot⟩ := h.child hchild
    calc a.climb number behind
        = a.climb parent (key :: behind) := climb_part hslot behind
      _ = some (keys ++ key :: behind) := ih hparent (key :: behind)
      _ = some (keys ++ [key] ++ behind) := by rw [List.append_assoc, List.singleton_append]

/-- Every way leads to a place, whose path is the text of the way. -/
theorem path_walk (keys : List Key) :
    ∃ p, a.walk keys = some p ∧ a.path? p = some (formatPath keys) := by
  have hpresent {keys : List Key} {number : Nat} (hwalk : a.walk keys = some (.present number)) :
      a.path? (.present number) = some (formatPath keys) := by
    rw [path?, h.climb_walk hwalk, List.append_nil]
    rfl
  induction keys using List.reverseRecOn with
  | nil => exact ⟨a.rootPlace, rfl, hpresent rfl⟩
  | append_singleton keys key ih =>
    obtain ⟨p, hwalk, hpath⟩ := ih
    have hlast : a.walk (keys ++ [key]) = a.step p key := by rw [walk_append, hwalk]; rfl
    cases hchild : a.child? p key with
    | some number =>
      have hstep : a.step p key = some (.present number) := by rw [step, hchild]
      exact ⟨_, hlast.trans hstep, hpresent (hlast.trans hstep)⟩
    | none =>
      have hstep : a.step p key = some (.absent (formatPath (keys ++ [key]))) := by
        rw [step, hchild]
        simp only [hpath, Option.map_some, appendPath_formatPath]
      exact ⟨_, hlast.trans hstep, rfl⟩

/-- A place that is not empty leads back to the place it was reached from, by the last key. -/
theorem back_walk (hwalk : a.walk (keys ++ [key]) = some (.present number)) :
    a.key? (.present number) = some key ∧ a.parent? (.present number) = a.walk keys := by
  obtain ⟨parent, hparent, hchild⟩ := child?_of_walk hwalk
  obtain ⟨content, hslot⟩ := h.child hchild
  refine ⟨?_, ?_⟩
  · rw [key?, hslot]
    rfl
  · rw [parent?, hslot, hparent]
    rfl

/-- No two ways lead to one slot. -/
theorem walk_injective {others : List Key} (hkeys : a.walk keys = some (.present number))
    (hothers : a.walk others = some (.present number)) : keys = others := by
  have hclimb := (h.climb_walk hkeys []).symm.trans (h.climb_walk hothers [])
  rwa [List.append_nil, List.append_nil, Option.some.injEq] at hclimb

end Linked

end Arena

end PackageAudit
