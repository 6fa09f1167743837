import Mathlib.Algebra.Group.Nat.Defs
import Mathlib.Data.List.Basic
import PackageAudit.Confidential.Index

/-!
# Proofs.Confidential.Index — an index reads back as it was written

* `Endian.number_bytes` — a number that fits is read back from its bytes;
* `Index.groups_flatMap` — a section of groups of one width is split into its groups;
* `Index.candidates_eq_filter` — searching an ascending index misses no entry;
* `Index.parse_encode` — the index that entries and rules are written as.
-/

namespace PackageAudit

/-! ## Numbers -/

namespace Endian

variable {n width : Nat}

@[simp] theorem length_bytes (width n : Nat) : (bytes width n).length = width := by
  induction width generalizing n with
  | zero => rfl
  | succ width ih => rw [bytes, List.length_cons, ih]

theorem number_bytes (h : n < 256 ^ width) : number (bytes width n) = n := by
  induction width generalizing n with
  | zero =>
    rw [Nat.pow_zero, Nat.lt_one_iff] at h
    rw [h]
    rfl
  | succ width ih =>
    have hdiv : n / 256 < 256 ^ width := by
      rw [Nat.pow_succ] at h
      exact Nat.div_lt_of_lt_mul (Nat.mul_comm _ _ ▸ h)
    have hbyte : (UInt8.ofNat (n % 256)).toNat = n % 256 := by
      rw [UInt8.toNat_ofNat']
      exact Nat.mod_eq_of_lt (Nat.mod_lt n (by decide))
    calc number (bytes (width + 1) n)
        = (UInt8.ofNat (n % 256)).toNat + 256 * number (bytes width (n / 256)) := rfl
      _ = n % 256 + 256 * (n / 256) := by rw [hbyte, ih hdiv]
      _ = n := Nat.mod_add_div n 256

theorem word64_bytes (x : UInt64) : word64 (bytes 8 x.toNat) = x := by
  rw [word64, number_bytes (UInt64.toNat_lt x), UInt64.ofNat_toNat]

theorem word32_bytes (x : UInt32) : word32 (bytes 4 x.toNat) = x := by
  rw [word32, number_bytes (UInt32.toNat_lt x), UInt32.ofNat_toNat]

end Endian

namespace Confidential

namespace Index

/-! ## Sections -/

theorem groupsFrom_flatMap {α : Type} {width : Nat} {f : α → Bytes}
    (hf : ∀ x, (f x).length = width) (found : List Bytes) (xs : List α) (rest : Bytes) :
    groupsFrom width found xs.length (xs.flatMap f ++ rest) = found.reverse ++ xs.map f := by
  induction xs generalizing found with
  | nil => exact (List.append_nil _).symm
  | cons x xs ih =>
    rw [List.length_cons, groupsFrom, List.flatMap_cons, List.append_assoc,
      List.take_left' (hf x), List.drop_left' (hf x), ih, List.reverse_cons, List.map_cons,
      List.append_assoc]
    rfl

/-- A section of groups of one width is split into its groups, whatever stands behind it. -/
theorem groups_flatMap {α : Type} {width : Nat} {f : α → Bytes} (hf : ∀ x, (f x).length = width)
    (xs : List α) (rest : Bytes) : groups width xs.length (xs.flatMap f ++ rest) = xs.map f :=
  groupsFrom_flatMap hf [] xs rest

theorem length_flatMap {α : Type} {width : Nat} {f : α → Bytes} (hf : ∀ x, (f x).length = width)
    (xs : List α) : (xs.flatMap f).length = width * xs.length := by
  induction xs with
  | nil => rfl
  | cons x xs ih =>
    rw [List.flatMap_cons, List.length_append, hf, ih, List.length_cons, Nat.mul_succ, Nat.add_comm]

theorem secretsOf_map (secrets : List Secret) :
    secretsOf (secrets.map (·.start)) (secrets.map (·.full)) (secrets.map (·.length)) =
      secrets := by
  induction secrets with
  | nil => rfl
  | cons s secrets ih => exact congrArg (s :: ·) ih

/-! ## Order -/

theorem descentFrom_eq_none {position : Nat} {before : UInt64} {xs : List UInt64}
    (h : (before :: xs).Pairwise (· ≤ ·)) : descentFrom position before xs = none := by
  induction xs generalizing position before with
  | nil => rfl
  | cons x xs ih =>
    obtain ⟨hbefore, hxs⟩ := List.pairwise_cons.1 h
    have hle : before ≤ x := hbefore x List.mem_cons_self
    rw [descentFrom, if_neg (UInt64.not_lt.2 hle)]
    exact ih hxs

theorem descent?_eq_none {xs : List UInt64} (h : xs.Pairwise (· ≤ ·)) : descent? xs = none := by
  cases xs with
  | nil => rfl
  | cons x xs => exact descentFrom_eq_none h

/-- Entries in ascending order of the digests of their starts. -/
def Ascending (secrets : List Secret) : Prop :=
  secrets.Pairwise fun a b => a.start ≤ b.start

/-- The order in which entries are written. -/
def ordered (secrets : List Secret) : List Secret :=
  secrets.mergeSort fun a b => a.start ≤ b.start

theorem start_le_trans (a b c : Secret) (hab : decide (a.start ≤ b.start) = true)
    (hbc : decide (b.start ≤ c.start) = true) : decide (a.start ≤ c.start) = true :=
  decide_eq_true (UInt64.le_trans (of_decide_eq_true hab) (of_decide_eq_true hbc))

theorem start_le_total (a b : Secret) :
    (decide (a.start ≤ b.start) || decide (b.start ≤ a.start)) = true := by
  rw [Bool.or_eq_true, decide_eq_true_eq, decide_eq_true_eq]
  exact UInt64.le_total a.start b.start

theorem ascending_ordered (secrets : List Secret) : Ascending (ordered secrets) :=
  (List.pairwise_mergeSort start_le_trans start_le_total secrets).imp of_decide_eq_true

theorem mem_ordered {secrets : List Secret} {s : Secret} : s ∈ ordered secrets ↔ s ∈ secrets :=
  List.mem_mergeSort

/-- Entries of one start are written in the order in which they are given. -/
theorem filter_ordered (secrets : List Secret) (x : UInt64) :
    (ordered secrets).filter (·.start == x) = secrets.filter (·.start == x) := by
  have hequal : (secrets.filter (·.start == x)).Pairwise
      fun a b => decide (a.start ≤ b.start) = true := by
    refine List.pairwise_of_forall_mem_list fun a ha b hb => decide_eq_true ?_
    rw [beq_iff_eq.1 (List.mem_filter.1 ha).2, beq_iff_eq.1 (List.mem_filter.1 hb).2]
    exact UInt64.le_refl x
  -- sorting leaves a part in its order that is ascending already
  have hsublist : (secrets.filter (·.start == x)).Sublist (ordered secrets) :=
    List.sublist_mergeSort start_le_trans start_le_total hequal List.filter_sublist
  have hpart := hsublist.filter (·.start == x)
  rw [List.filter_filter] at hpart
  simp only [Bool.and_self] at hpart
  have hperm := (List.mergeSort_perm secrets fun a b => a.start ≤ b.start).filter (·.start == x)
  exact (hpart.eq_of_length hperm.length_eq.symm).symm

/-! ## Searching -/

/-- Nothing is skipped of an ascending list whose entries are all great enough. -/
theorem dropWhile_eq_self {secrets : List Secret} {x : UInt64}
    (h : ∀ s ∈ secrets, x ≤ s.start) : secrets.dropWhile (·.start < x) = secrets := by
  cases secrets with
  | nil => rfl
  | cons s secrets =>
    apply List.dropWhile_cons_of_neg
    rw [decide_eq_true_eq, UInt64.not_lt]
    exact h s List.mem_cons_self

/-- Skipping what is less and stopping at what is greater leaves all entries that are equal. -/
theorem takeWhile_dropWhile_eq_filter {secrets : List Secret} (h : Ascending secrets)
    (x : UInt64) :
    (secrets.dropWhile (·.start < x)).takeWhile (·.start == x) =
      secrets.filter (·.start == x) := by
  induction secrets with
  | nil => rfl
  | cons a secrets ih =>
    obtain ⟨hfirst, hrest⟩ := List.pairwise_cons.1 h
    have ih := ih hrest
    by_cases hless : a.start < x
    · -- The first entry is skipped, and its digest is another one.
      have hne : ¬ (a.start == x) = true := by
        rw [beq_iff_eq]
        rintro rfl
        exact UInt64.lt_irrefl _ hless
      rw [List.dropWhile_cons, if_pos (decide_eq_true hless), List.filter_cons, if_neg hne, ih]
    · have hle : x ≤ a.start := UInt64.not_lt.1 hless
      have hall : ∀ b ∈ secrets, x ≤ b.start := fun b hb => UInt64.le_trans hle (hfirst b hb)
      rw [dropWhile_eq_self (List.forall_mem_cons.2 ⟨hle, hall⟩)]
      rw [dropWhile_eq_self hall] at ih
      by_cases heq : (a.start == x) = true
      · rw [List.takeWhile_cons, if_pos heq, List.filter_cons, if_pos heq, ih]
      · -- The first entry is greater already, and so are all the others.
        rw [List.takeWhile_cons, if_neg heq, List.filter_cons, if_neg heq, eq_comm,
          List.filter_eq_nil_iff]
        intro b hb hx
        rw [beq_iff_eq] at heq hx
        exact heq (UInt64.le_antisymm (hx ▸ hfirst b hb) hle)

theorem candidates_eq_filter {i : Index} (h : Ascending i.secrets) (x : UInt64) :
    i.candidates x = i.secrets.filter (·.start == x) :=
  takeWhile_dropWhile_eq_filter h x

theorem mem_candidates_iff {i : Index} (h : Ascending i.secrets) {x : UInt64} {s : Secret} :
    s ∈ i.candidates x ↔ s ∈ i.secrets ∧ s.start = x := by
  rw [candidates_eq_filter h, List.mem_filter, beq_iff_eq]

/-! ## Reading back -/

/-- The digests of the starts of entries, their whole contents, and their lengths, as written. -/
def startBytes (secrets : List Secret) : Bytes :=
  secrets.flatMap fun s => Endian.bytes 8 s.start.toNat

def fullBytes (secrets : List Secret) : Bytes :=
  secrets.flatMap fun s => Endian.bytes 8 s.full.toNat

def lengthBytes (secrets : List Secret) : Bytes :=
  secrets.flatMap fun s => Endian.bytes 4 s.length.toNat

theorem encode_eq (secrets : List Secret) (rules : Bytes) :
    encode secrets rules =
      Endian.bytes 4 magic.toNat ++ (Endian.bytes 4 (min secrets.length 0xFFFFFFFF) ++
        (startBytes (ordered secrets) ++
          (fullBytes (ordered secrets) ++ (lengthBytes (ordered secrets) ++ rules)))) := by
  rw [encode]
  simp only [List.append_assoc]
  rfl

section Sections

variable (secrets : List Secret) (rest : Bytes)

theorem length_startBytes : (startBytes secrets).length = 8 * secrets.length :=
  length_flatMap (fun _ => Endian.length_bytes 8 _) secrets

theorem length_fullBytes : (fullBytes secrets).length = 8 * secrets.length :=
  length_flatMap (fun _ => Endian.length_bytes 8 _) secrets

theorem length_lengthBytes : (lengthBytes secrets).length = 4 * secrets.length :=
  length_flatMap (fun _ => Endian.length_bytes 4 _) secrets

theorem groups_startBytes :
    (groups 8 secrets.length (startBytes secrets ++ rest)).map Endian.word64 =
      secrets.map (·.start) := by
  rw [startBytes, groups_flatMap (fun _ => Endian.length_bytes 8 _), List.map_map]
  exact List.map_congr_left fun s _ => Endian.word64_bytes s.start

theorem groups_fullBytes :
    (groups 8 secrets.length (fullBytes secrets ++ rest)).map Endian.word64 =
      secrets.map (·.full) := by
  rw [fullBytes, groups_flatMap (fun _ => Endian.length_bytes 8 _), List.map_map]
  exact List.map_congr_left fun s _ => Endian.word64_bytes s.full

theorem groups_lengthBytes :
    (groups 4 secrets.length (lengthBytes secrets ++ rest)).map Endian.word32 =
      secrets.map (·.length) := by
  rw [lengthBytes, groups_flatMap (fun _ => Endian.length_bytes 4 _), List.map_map]
  exact List.map_congr_left fun s _ => Endian.word32_bytes s.length

/-- What is read from sections one behind the other, entries being ascending. -/
theorem parse_sections (hcount : secrets.length < 2 ^ 32) (hascending : Ascending secrets) :
    parse (Endian.bytes 4 magic.toNat ++ (Endian.bytes 4 secrets.length ++
        (startBytes secrets ++ (fullBytes secrets ++ (lengthBytes secrets ++ rest))))) =
      (RuleText.ofText? rest).elim (.error (.invalidRules "no rules")) (compile secrets) := by
  have hmagic : Endian.word32 (Endian.bytes 4 magic.toNat) = magic := Endian.word32_bytes magic
  have hnumber : Endian.number (Endian.bytes 4 secrets.length) = secrets.length :=
    Endian.number_bytes (Nat.lt_of_lt_of_le hcount (by decide))
  have hstarts : descent? (secrets.map (·.start)) = none := by
    apply descent?_eq_none
    rw [List.pairwise_map]
    exact hascending
  -- Each section starts where the lengths of those before it say.
  have hdrop {k l : Nat} {s t u : Bytes} (hs : s.drop k = t ++ u) (ht : t.length = l) :
      s.drop (k + l) = u := by
    rw [← List.drop_drop, hs]
    exact List.drop_left' ht
  generalize hblob : Endian.bytes 4 magic.toNat ++ _ = blob
  have hfront : blob.take 4 = Endian.bytes 4 magic.toNat :=
    hblob ▸ List.take_left' (Endian.length_bytes 4 _)
  have hheader : blob.drop 4 = _ := hblob ▸ List.drop_left' (Endian.length_bytes 4 _)
  have hbody : blob.drop headerLength = _ := hdrop hheader (Endian.length_bytes 4 _)
  have hfulls : (blob.drop headerLength).drop (8 * secrets.length) = _ :=
    hbody ▸ List.drop_left' (length_startBytes secrets)
  have htwo : 16 * secrets.length = 8 * secrets.length + 8 * secrets.length := by omega
  have hthree : 20 * secrets.length = 16 * secrets.length + 4 * secrets.length := by omega
  have hlengths : (blob.drop headerLength).drop (16 * secrets.length) = _ :=
    htwo ▸ hdrop hfulls (length_fullBytes secrets)
  have hrest : blob.drop (headerLength + 20 * secrets.length) = rest := by
    rw [← List.drop_drop, hthree]
    exact hdrop hlengths (length_lengthBytes secrets)
  have hlength : headerLength + 20 * secrets.length ≤ blob.length := by
    rw [← hblob]
    simp only [List.length_append, Endian.length_bytes, length_startBytes, length_fullBytes,
      length_lengthBytes]
    unfold headerLength
    omega
  unfold parse
  dsimp only
  rw [if_neg (Nat.not_lt.2 (Nat.le_trans (Nat.le_add_right _ _) hlength)), hfront, hmagic,
    if_neg (not_not_intro rfl), hheader, List.take_left' (Endian.length_bytes 4 _), hnumber,
    if_neg (Nat.not_lt.2 hlength), hfulls, hlengths, hrest, hbody, groups_startBytes,
    groups_fullBytes, groups_lengthBytes, hstarts, secretsOf_map]
  cases RuleText.ofText? rest <;> rfl

end Sections

/--
Entries read back in the order of their starts, and rules as they were written, as long as the
number of entries fits the word that holds it.
-/
theorem parse_encode {secrets : List Secret} (h : secrets.length < 2 ^ 32) (rules : Bytes) :
    parse (encode secrets rules) =
      (RuleText.ofText? rules).elim (.error (.invalidRules "no rules"))
        (compile (ordered secrets)) := by
  have hlength : (ordered secrets).length = secrets.length := List.length_mergeSort secrets
  have hmin : min secrets.length 0xFFFFFFFF = (ordered secrets).length := by omega
  rw [encode_eq, hmin]
  exact parse_sections (ordered secrets) rules (hlength ▸ h) (ascending_ordered secrets)

/-- An index without rules has nothing but its entries. -/
theorem parse_encode_nil {secrets : List Secret} (h : secrets.length < 2 ^ 32) :
    parse (encode secrets []) = .ok ⟨ordered secrets, ⟨[], []⟩, ⟨[], []⟩, [], none⟩ := by
  have htext : Utf8.decode [] = some [] := by decide +kernel
  have hrules : RuleText.ofText? [] = some .none := by
    rw [RuleText.ofText?, htext]
    rfl
  rw [parse_encode h, hrules]
  rfl

end Index

end Confidential

end PackageAudit
