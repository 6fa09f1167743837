import Mathlib.Data.List.Forall2
import PackageAudit.Document.Node
import PackageAudit.Document.Printer
import PackageAudit.Proofs.Document.Json.Grammar

/-!
# Proofs.Document.Value — trees, what holds of all their parts, and places in them

* `Value.induction` — induction over a tree, through arrays and objects at once;
* `Value.AllNumbers` — something holds of every number of a tree;
* `Value.current` — a tree without the members that later ones replaced;
* `Node.keys_get` — where a member lies;
* `Node.isAbsent_of_string` — a place with a text in it is not empty;
* `Node.exists_message_of_string` — how a place without a text is named.
-/

namespace PackageAudit

namespace Value

/-! ## Induction -/

theorem induction {P : Value → Prop} (null : P .null) (bool : ∀ b, P (.bool b))
    (number : ∀ n, P (.number n)) (string : ∀ s, P (.string s))
    (array : ∀ items, (∀ v ∈ items, P v) → P (.array items))
    (object : ∀ members replaced, (∀ m ∈ members, P m.2) → P (.object members replaced)) :
    ∀ v, P v
  | .null => null
  | .bool b => bool b
  | .number n => number n
  | .string s => string s
  | .array items => array items fun v hv =>
      have : sizeOf v < sizeOf items := List.sizeOf_lt_of_mem hv
      induction null bool number string array object v
  | .object members replaced => object members replaced fun m hm =>
      have : sizeOf m < sizeOf members := List.sizeOf_lt_of_mem hm
      have : sizeOf m.2 < sizeOf m := by
        cases m
        simp only [Prod.mk.sizeOf_spec]
        omega
      induction null bool number string array object m.2

/-! ## Objects under construction -/

/-- Storing a value under a key keeps the keys, and adds no value but this one. -/
theorem of_replace? {ms ms' : List (String × Value)} {key : String} {value old : Value} :
    replace? ms key value = some (ms', old) →
      ms'.map Prod.fst = ms.map Prod.fst ∧ ∀ m ∈ ms', m ∈ ms ∨ m.2 = value := by
  intro h
  induction ms generalizing ms' with
  | nil => cases h
  | cons m ms ih =>
    rw [replace?] at h
    split at h
    · obtain ⟨rfl, rfl⟩ := Prod.mk.inj (Option.some.inj h)
      refine ⟨rfl, fun l hl => ?_⟩
      rcases List.mem_cons.1 hl with rfl | hl
      · exact .inr rfl
      · exact .inl (List.mem_cons_of_mem _ hl)
    · obtain ⟨⟨rest, old'⟩, hrest, heq⟩ := Option.map_eq_some_iff.1 h
      obtain ⟨rfl, rfl⟩ := Prod.mk.inj heq
      obtain ⟨hkeys, hmem⟩ := ih hrest
      refine ⟨by rw [List.map_cons, List.map_cons, hkeys], fun l hl => ?_⟩
      rcases List.mem_cons.1 hl with rfl | hl
      · exact .inl List.mem_cons_self
      · exact (hmem l hl).imp_left (List.mem_cons_of_mem _)

/-! ## Properties of all parts -/

mutual

/-- Every number of the tree has the property. -/
def AllNumbers (p : Number → Prop) : Value → Prop
  | number n => p n
  | array items => AllNumbersOf p items
  | object members _ => MembersNumbers p members
  | _ => True

def AllNumbersOf (p : Number → Prop) : List Value → Prop
  | [] => True
  | v :: vs => AllNumbers p v ∧ AllNumbersOf p vs

def MembersNumbers (p : Number → Prop) : List (String × Value) → Prop
  | [] => True
  | (_, v) :: ms => AllNumbers p v ∧ MembersNumbers p ms

end

section Lists

variable {p : Number → Prop} {vs : List Value} {ms : List (String × Value)} {n : Nat}

theorem allNumbersOf_iff : AllNumbersOf p vs ↔ ∀ v ∈ vs, AllNumbers p v := by
  induction vs with
  | nil => simp [AllNumbersOf]
  | cons v vs ih => rw [AllNumbersOf, ih, List.forall_mem_cons]

theorem membersNumbers_iff : MembersNumbers p ms ↔ ∀ m ∈ ms, AllNumbers p m.2 := by
  induction ms with
  | nil => simp [MembersNumbers]
  | cons m ms ih => rw [MembersNumbers, ih, List.forall_mem_cons]

theorem allKeysDistinct_iff : AllKeysDistinct vs ↔ ∀ v ∈ vs, KeysDistinct v := by
  induction vs with
  | nil => simp [AllKeysDistinct]
  | cons v vs ih => rw [AllKeysDistinct, ih, List.forall_mem_cons]

theorem membersKeysDistinct_iff : MembersKeysDistinct ms ↔ ∀ m ∈ ms, KeysDistinct m.2 := by
  induction ms with
  | nil => simp [MembersKeysDistinct]
  | cons m ms ih => rw [MembersKeysDistinct, ih, List.forall_mem_cons]

end Lists

theorem AllNumbers.mono {p q : Number → Prop} {v : Value} (h : v.AllNumbers p)
    (hpq : ∀ n, p n → q n) : v.AllNumbers q := by
  induction v using induction with
  | null | bool | string => trivial
  | number n => exact hpq n h
  | array items ih =>
    rw [AllNumbers, allNumbersOf_iff] at h ⊢
    exact fun v hv => ih v hv (h v hv)
  | object members replaced ih =>
    rw [AllNumbers, membersNumbers_iff] at h ⊢
    exact fun m hm => ih m hm (h m hm)

/-! ## Without replaced members -/

mutual

/-- The tree without the members that later ones replaced. -/
def current : Value → Value
  | array items => array (currentAll items)
  | object members _ => object (currentMembers members) []
  | v => v

def currentAll : List Value → List Value
  | [] => []
  | v :: vs => current v :: currentAll vs

def currentMembers : List (String × Value) → List (String × Value)
  | [] => []
  | (k, v) :: ms => (k, current v) :: currentMembers ms

end

theorem currentAll_eq_map (vs : List Value) : currentAll vs = vs.map current := by
  induction vs with
  | nil => rfl
  | cons v vs ih => rw [currentAll, ih, List.map_cons]

theorem currentMembers_eq_map (ms : List (String × Value)) :
    currentMembers ms = ms.map fun m => (m.1, m.2.current) := by
  induction ms with
  | nil => rfl
  | cons m ms ih => rw [currentMembers, ih, List.map_cons]

theorem keys_currentMembers (ms : List (String × Value)) :
    (currentMembers ms).map Prod.fst = ms.map Prod.fst := by
  rw [currentMembers_eq_map, List.map_map]
  rfl

theorem renderAll_eq_map (vs : List Value) : renderAll vs = vs.map render := by
  induction vs with
  | nil => rfl
  | cons v vs ih => rw [renderAll, ih, List.map_cons]

theorem renderMembers_eq_map (ms : List (String × Value)) :
    renderMembers ms = ms.map fun m => Json.quote m.1 ++ ":" ++ m.2.render := by
  induction ms with
  | nil => rfl
  | cons m ms ih => rw [renderMembers, ih, List.map_cons]

/-- What was replaced is not written. -/
theorem render_current (v : Value) : v.current.render = v.render := by
  induction v using induction with
  | null | bool | number | string => rfl
  | array items ih =>
    have hitems : items.map (render ∘ current) = items.map render := List.map_congr_left ih
    rw [current, render, render, renderAll_eq_map, renderAll_eq_map, currentAll_eq_map,
      List.map_map, hitems]
  | object members replaced ih =>
    have hmembers : members.map ((fun m => Json.quote m.1 ++ ":" ++ m.2.render) ∘
        fun m => (m.1, m.2.current)) =
        members.map fun m => Json.quote m.1 ++ ":" ++ m.2.render :=
      List.map_congr_left fun m hm => congrArg (Json.quote m.1 ++ ":" ++ ·) (ih m hm)
    rw [current, render, render, renderMembers_eq_map, renderMembers_eq_map,
      currentMembers_eq_map, List.map_map, hmembers]

theorem nestingAll_le_iff {vs : List Value} {n : Nat} :
    nestingAll vs ≤ n ↔ ∀ v ∈ vs, v.nesting ≤ n := by
  induction vs with
  | nil => simp [nestingAll]
  | cons v vs ih => rw [nestingAll, Nat.max_le, ih, List.forall_mem_cons]

theorem nestingMembers_le_iff {ms : List (String × Value)} {n : Nat} :
    nestingMembers ms ≤ n ↔ ∀ m ∈ ms, m.2.nesting ≤ n := by
  induction ms with
  | nil => simp [nestingMembers]
  | cons m ms ih => rw [nestingMembers, Nat.max_le, ih, List.forall_mem_cons]

theorem nesting_current_le (v : Value) : v.current.nesting ≤ v.nesting := by
  induction v using induction with
  | null | bool | number | string => exact Nat.le_refl _
  | array items ih =>
    rw [current, nesting, nesting, currentAll_eq_map]
    refine Nat.add_le_add_left (nestingAll_le_iff.2 (List.forall_mem_map.2 fun v hv => ?_)) 1
    exact Nat.le_trans (ih v hv) (nestingAll_le_iff.1 (Nat.le_refl _) v hv)
  | object members replaced ih =>
    rw [current, nesting, nesting, currentMembers_eq_map]
    refine Nat.add_le_add_left (nestingMembers_le_iff.2 (List.forall_mem_map.2 fun m hm => ?_)) 1
    exact Nat.le_trans (ih m hm) (nestingMembers_le_iff.1 (Nat.le_refl _) m hm)

theorem keysDistinct_current {v : Value} (h : v.KeysDistinct) : v.current.KeysDistinct := by
  induction v using induction with
  | null | bool | number | string => exact trivial
  | array items ih =>
    rw [current, KeysDistinct, currentAll_eq_map, allKeysDistinct_iff, List.forall_mem_map]
    exact fun v hv => ih v hv (allKeysDistinct_iff.1 h v hv)
  | object members replaced ih =>
    rw [current, KeysDistinct, keys_currentMembers, currentMembers_eq_map, membersKeysDistinct_iff,
      List.forall_mem_map]
    exact ⟨h.1, fun m hm => ih m hm (membersKeysDistinct_iff.1 h.2 m hm)⟩

/-- A double that is no infinity and no NaN. -/
def FiniteNumber : Number → Prop
  | .int _ => True
  | .float x => x.isFinite = true

/-- Only a NaN does not equal itself. -/
theorem number_same_self_iff {n : Number} : n.same n = true ↔ n ≠ .float .nan := by
  cases n with
  | int n => exact iff_of_true (beq_self_eq_true n) nofun
  | float x =>
    cases x with
    | finite negative index =>
      refine iff_of_true ?_ nofun
      rw [Number.same, Binary64.same, beq_self_eq_true, beq_self_eq_true]
      rfl
    | infinite negative => exact iff_of_true (beq_self_eq_true negative) nofun
    | nan => exact iff_of_false Bool.false_ne_true fun h => h rfl

theorem number_same_self {n : Number} (h : FiniteNumber n) : n.same n = true :=
  number_same_self_iff.2 fun hn => Bool.false_ne_true (by rwa [hn] at h)

theorem sameAll_iff {vs ws : List Value} :
    sameAll vs ws = true ↔ List.Forall₂ (fun v w => v.same w = true) vs ws := by
  induction vs generalizing ws with
  | nil => cases ws <;> simp [sameAll]
  | cons v vs ih =>
    cases ws with
    | nil => simp [sameAll]
    | cons w ws => rw [sameAll, Bool.and_eq_true, ih, List.forall₂_cons]

theorem sameMembers_iff {ms ns : List (String × Value)} :
    sameMembers ms ns = true ↔
      List.Forall₂ (fun m n => m.1 = n.1 ∧ m.2.same n.2 = true) ms ns := by
  induction ms generalizing ns with
  | nil => cases ns <;> simp [sameMembers]
  | cons m ms ih =>
    cases ns with
    | nil => simp [sameMembers]
    | cons n ns => rw [sameMembers, Bool.and_eq_true, Bool.and_eq_true, beq_iff_eq, ih,
        List.forall₂_cons]

theorem sameAll_map {vs : List Value} {f : Value → Value} :
    sameAll vs (vs.map f) = true ↔ ∀ v ∈ vs, v.same (f v) = true := by
  rw [sameAll_iff, List.forall₂_map_right_iff, List.forall₂_same]

theorem sameMembers_map {ms : List (String × Value)} {f : Value → Value} :
    sameMembers ms (ms.map fun m => (m.1, f m.2)) = true ↔ ∀ m ∈ ms, m.2.same (f m.2) = true := by
  rw [sameMembers_iff, List.forall₂_map_right_iff, List.forall₂_same]
  exact forall₂_congr fun m _ => and_iff_right rfl

/-- A tree equals itself without what was replaced, if no number is a NaN or infinite. -/
theorem same_current {v : Value} (h : v.AllNumbers FiniteNumber) : v.same v.current = true := by
  induction v using induction with
  | null => rfl
  | bool b => exact beq_self_eq_true b
  | number n => exact number_same_self h
  | string s => exact beq_self_eq_true s
  | array items ih =>
    rw [AllNumbers, allNumbersOf_iff] at h
    rw [current, same, currentAll_eq_map, sameAll_map]
    exact fun v hv => ih v hv (h v hv)
  | object members replaced ih =>
    rw [AllNumbers, membersNumbers_iff] at h
    rw [current, same, currentMembers_eq_map, sameMembers_map]
    exact fun m hm => ih m hm (h m hm)

end Value

/-! ## Places -/

namespace Node

variable {n : Node} {text : String}

theorem keys_get (n : Node) (key : String) : (n.get key).keys = n.keys ++ [.member key] := by
  cases n with
  | absent keys => rfl
  | present value around =>
    rw [get]
    split
    · exact List.reverse_cons
    · rfl

theorem isAbsent_of_string (h : n.string = .ok text) : n.isAbsent = false := by
  cases n with
  | absent keys => cases h
  | present value around => cases value <;> rfl

/-- A value that is no text is said to be of another kind, at its place. -/
theorem exists_message_of_string {e : DocumentError} (h : n.string = .error e) :
    ∃ rest, e.message = n.path ++ (": " ++ rest) := by
  have hmismatch : e = n.mismatch .string := by
    unfold string at h
    split at h
    · cases h
    · exact (Except.error.inj h).symm
  have hword : (": expected " : String) = ": " ++ "expected " := by decide +kernel
  refine ⟨"expected " ++ (Kind.name .string ++ (", found " ++ n.kind.name)), ?_⟩
  calc e.message
      = n.path ++ ": expected " ++ Kind.name .string ++ ", found " ++ n.kind.name := by
        rw [hmismatch]
        rfl
    _ = n.path ++ (": " ++ ("expected " ++ (Kind.name .string ++ (", found " ++ n.kind.name)))) :=
        by rw [hword]; simp only [String.append_assoc]

end Node

end PackageAudit
