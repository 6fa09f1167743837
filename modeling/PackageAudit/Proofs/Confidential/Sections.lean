import Mathlib.Data.List.Induction
import Mathlib.Order.Basic
import PackageAudit.Proofs.Confidential.Index

/-!
# Proofs.Confidential.Sections — every index that can be read is one that can be written

The entries of an index stand in three sections, one for each of their fields. Where these are, and
how long they are, depends on a number in front of them that may be anything. What is read is
nevertheless what stands there, and what is looked up by position is there to be found:

* `Index.sectionsOf` — the three sections of a blob, `Sections.search` — a search by position;
* `Index.WellFormed` — blobs with a header and with sections that it fits;
* `Index.eq_written` — such a blob is what its entries are written as, with something behind it;
* `Sections.search_eq` — the search stays inside the sections and finds what it should;
* `Index.parse_exact` — which blobs are indices, and of which entries.
-/

namespace PackageAudit

/-! ## Numbers -/

namespace Endian

variable {bs : Bytes} {width : Nat}

theorem number_lt (bs : Bytes) : number bs < 256 ^ bs.length := by
  induction bs with
  | nil => decide
  | cons b bs ih =>
    have hcons : number (b :: bs) = b.toNat + 256 * number bs := rfl
    have hb := b.toNat_lt
    rw [hcons, List.length_cons, Nat.pow_succ]
    omega

/-- Bytes are those of the number that they spell. -/
theorem bytes_number (bs : Bytes) : bytes bs.length (number bs) = bs := by
  induction bs with
  | nil => rfl
  | cons b bs ih =>
    have hcons : number (b :: bs) = b.toNat + 256 * number bs := rfl
    have hb := b.toNat_lt
    have hfirst : (b.toNat + 256 * number bs) % 256 = b.toNat := by omega
    have hrest : (b.toNat + 256 * number bs) / 256 = number bs := by omega
    rw [hcons, List.length_cons, bytes, hfirst, hrest, ih, UInt8.ofNat_toNat]

theorem bytes_word64 (h : bs.length = 8) : bytes 8 (word64 bs).toNat = bs := by
  have hlt := number_lt bs
  rw [h] at hlt
  rw [word64, UInt64.toNat_ofNat', Nat.mod_eq_of_lt (show _ < 2 ^ 64 from hlt), ← h, bytes_number]

theorem bytes_word32 (h : bs.length = 4) : bytes 4 (word32 bs).toNat = bs := by
  have hlt := number_lt bs
  rw [h] at hlt
  rw [word32, UInt32.toNat_ofNat', Nat.mod_eq_of_lt (show _ < 2 ^ 32 from hlt), ← h, bytes_number]

end Endian

namespace Confidential

/-! ## Searching by position -/

/-- The sections of an index: one field of all entries each. -/
structure Sections where
  starts : List UInt64
  fulls : List UInt64
  lengths : List UInt32

namespace Sections

/--
Look for the position from which on the numbers of an ascending list are not less than another one,
by halving what is between two positions. Where there is no number nothing is found.
-/
def positionFrom (xs : List UInt64) (x : UInt64) (low high : Nat) : Option Nat :=
  if low < high then
    let middle := (low + high) / 2
    xs[middle]?.bind fun y =>
      if y < x then positionFrom xs x (middle + 1) high else positionFrom xs x low middle
  else some low
termination_by high - low

/-- Look up the other fields of entries that have their start at a position and behind it. -/
def lookUp (s : Sections) : Nat → List UInt64 → Option (List Secret)
  | _, [] => some []
  | position, start :: rest => do
    let full ← s.fulls[position]?
    let length ← s.lengths[position]?
    pure (⟨start, full, length⟩ :: (← lookUp s (position + 1) rest))

/-- Look for the entries with a start; nothing is found if anything is not where it should be. -/
def search (s : Sections) (x : UInt64) : Option (List Secret) := do
  let position ← positionFrom s.starts x 0 s.starts.length
  if position ≤ s.starts.length then
    lookUp s position ((s.starts.drop position).takeWhile (· == x))
  else none

/-- The fields at each position put together. -/
def secrets (s : Sections) : List Secret :=
  Index.secretsOf s.starts s.fulls s.lengths

/-- The fields of entries one by one. -/
def ofSecrets (secrets : List Secret) : Sections :=
  ⟨secrets.map (·.start), secrets.map (·.full), secrets.map (·.length)⟩

/-- Sections of one length are those of the entries that they make up. -/
theorem ofSecrets_secrets {s : Sections} (hfulls : s.fulls.length = s.starts.length)
    (hlengths : s.lengths.length = s.starts.length) : ofSecrets s.secrets = s := by
  have hzip : (s.fulls.zip s.lengths).length = s.starts.length := by
    rw [List.length_zip, hfulls, hlengths, Nat.min_self]
  have hpairs : ((s.starts.zip (s.fulls.zip s.lengths)).map Prod.snd) = s.fulls.zip s.lengths :=
    List.map_snd_zip (Nat.le_of_eq hzip)
  have hstarts : s.secrets.map (·.start) = s.starts := by
    rw [secrets, Index.secretsOf, List.map_map]
    exact List.map_fst_zip (Nat.le_of_eq hzip.symm)
  have hfulls' : s.secrets.map (·.full) = s.fulls := by
    have hfst := congrArg (List.map Prod.fst) hpairs
    rw [List.map_map, List.map_fst_zip (Nat.le_of_eq (hfulls.trans hlengths.symm))] at hfst
    rw [secrets, Index.secretsOf, List.map_map]
    exact hfst
  have hlengths' : s.secrets.map (·.length) = s.lengths := by
    have hsnd := congrArg (List.map Prod.snd) hpairs
    rw [List.map_map, List.map_snd_zip (Nat.le_of_eq (hlengths.trans hfulls.symm))] at hsnd
    rw [secrets, Index.secretsOf, List.map_map]
    exact hsnd
  rw [ofSecrets, hstarts, hfulls', hlengths']

/-- What is less than a number stands in front of a position, and what is not stands behind it. -/
theorem lt_iff_of_getElem? {xs : List UInt64} {x y : UInt64} {k : Nat}
    (h : xs.Pairwise (· ≤ ·)) (hy : xs[k]? = some y) :
    y < x ↔ k < (xs.takeWhile (· < x)).length := by
  induction xs generalizing k with
  | nil => cases hy
  | cons a xs ih =>
    obtain ⟨hfirst, hrest⟩ := List.pairwise_cons.1 h
    by_cases hless : a < x
    · rw [List.takeWhile_cons_of_pos (by simpa using hless), List.length_cons]
      cases k with
      | zero =>
        rw [List.getElem?_cons_zero, Option.some_inj] at hy
        exact iff_of_true (hy ▸ hless) (Nat.succ_pos _)
      | succ k =>
        rw [List.getElem?_cons_succ] at hy
        rw [ih hrest hy, Nat.add_lt_add_iff_right]
    · have hle : a ≤ y := by
        cases k with
        | zero =>
          rw [List.getElem?_cons_zero, Option.some_inj] at hy
          exact hy ▸ UInt64.le_refl a
        | succ k => exact hfirst y (List.mem_of_getElem? hy)
      rw [List.takeWhile_cons_of_neg (by simpa using hless)]
      exact iff_of_false (fun hlt => hless (UInt64.lt_of_le_of_lt hle hlt)) (Nat.not_lt_zero k)

/-- Halving finds this position as long as it is between the two others. -/
theorem positionFrom_eq {xs : List UInt64} {x : UInt64} {low high : Nat}
    (h : xs.Pairwise (· ≤ ·)) (hlow : low ≤ (xs.takeWhile (· < x)).length)
    (hhigh : (xs.takeWhile (· < x)).length ≤ high) (hlength : high ≤ xs.length) :
    positionFrom xs x low high = some (xs.takeWhile (· < x)).length := by
  -- Along the halving: the position stays between the other two, and these meet.
  fun_induction positionFrom xs x low high with
  | case1 low high hlt middle above below =>
    have hmiddle : middle < xs.length := by omega
    obtain ⟨y, hy⟩ : ∃ y, xs[middle]? = some y := ⟨_, List.getElem?_eq_getElem hmiddle⟩
    have hside := lt_iff_of_getElem? (x := x) h hy
    rw [hy, Option.bind_some]
    split
    · next hless => exact above (hside.1 hless) hhigh hlength
    · next hless => exact below hlow (Nat.not_lt.1 fun hlt => hless (hside.2 hlt)) (by omega)
  | case2 low high hge =>
    rw [Option.some_inj]
    omega

/-- Entries that stand behind others are found from the position on that the others leave. -/
theorem lookUp_eq (before l after : List Secret) :
    lookUp (ofSecrets (before ++ (l ++ after))) before.length (l.map (·.start)) = some l := by
  induction l generalizing before with
  | nil => rfl
  | cons s l ih =>
    have hfull : (ofSecrets (before ++ (s :: l ++ after))).fulls[before.length]? = some s.full := by
      simp [ofSecrets]
    have hlength : (ofSecrets (before ++ (s :: l ++ after))).lengths[before.length]? =
        some s.length := by
      simp [ofSecrets]
    have hrest := ih (before ++ [s])
    rw [List.length_append, List.length_singleton, List.append_assoc,
      List.singleton_append] at hrest
    rw [List.map_cons, lookUp, hfull, hlength]
    simp [hrest]

/--
In the sections of ascending entries the search finds all entries with a start, and looks for
nothing that is not there.
-/
theorem search_eq {secrets : List Secret} (h : Index.Ascending secrets) (x : UInt64) :
    (ofSecrets secrets).search x = some (secrets.filter (·.start == x)) := by
  let before := secrets.takeWhile (·.start < x)
  let found := (secrets.dropWhile (·.start < x)).takeWhile (·.start == x)
  let after := (secrets.dropWhile (·.start < x)).dropWhile (·.start == x)
  have hsplit : secrets = before ++ (found ++ after) := by
    rw [List.takeWhile_append_dropWhile, List.takeWhile_append_dropWhile]
  have hfront : (secrets.map (·.start)).takeWhile (· < x) = before.map (·.start) := by
    rw [List.takeWhile_map]
    rfl
  have hposition : positionFrom (secrets.map (·.start)) x 0 (secrets.map (·.start)).length =
      some before.length := by
    have hle := (List.takeWhile_prefix (· < x) (l := secrets.map (·.start))).length_le
    rw [positionFrom_eq (List.pairwise_map.2 h) (Nat.zero_le _) hle (Nat.le_refl _), hfront,
      List.length_map]
  have hstarts : ((secrets.map (·.start)).drop before.length).takeWhile (· == x) =
      found.map (·.start) := by
    have hdrop : secrets.drop before.length = secrets.dropWhile (·.start < x) := by
      conv_lhs => rw [← List.takeWhile_append_dropWhile (p := (·.start < x)) (l := secrets)]
      exact List.drop_left' rfl
    rw [← List.map_drop, hdrop, List.takeWhile_map]
    rfl
  have hlength : before.length ≤ (secrets.map (·.start)).length := by
    rw [List.length_map]
    exact (List.takeWhile_prefix _).length_le
  have hlookUp := lookUp_eq before found after
  rw [← hsplit] at hlookUp
  rw [← Index.takeWhile_dropWhile_eq_filter h]
  change (positionFrom (secrets.map (·.start)) x 0 (secrets.map (·.start)).length).bind _ = _
  rw [hposition, Option.bind_some]
  change (if before.length ≤ (secrets.map (·.start)).length then _ else _) = _
  rw [if_pos hlength]
  change lookUp _ _ (((secrets.map (·.start)).drop before.length).takeWhile (· == x)) = _
  rw [hstarts, hlookUp]

end Sections

namespace Index

/-! ## Sections of a blob -/

variable {blob : Bytes} {width count : Nat}

/-- The number of entries that a blob has by its header. -/
def countOf (blob : Bytes) : Nat :=
  Endian.number ((blob.drop 4).take 4)

/-- The sections of a blob, one behind the other behind the header. -/
def sectionsOf (blob : Bytes) : Sections :=
  let count := countOf blob
  let body := blob.drop headerLength
  ⟨(groups 8 count body).map Endian.word64,
    (groups 8 count (body.drop (8 * count))).map Endian.word64,
    (groups 4 count (body.drop (16 * count))).map Endian.word32⟩

/-- A number of a list is less than the one in front of it. -/
def Descends (xs : List UInt64) : Prop :=
  ∃ k x y, xs[k]? = some x ∧ xs[k + 1]? = some y ∧ y < x

/-- Blobs with the mark of an index, room for its sections, and starts in ascending order. -/
structure WellFormed (blob : Bytes) : Prop where
  magic_eq : Endian.word32 (blob.take 4) = magic
  room : headerLength + 20 * countOf blob ≤ blob.length
  ascending : ¬ Descends (sectionsOf blob).starts

theorem groupsFrom_eq (width count : Nat) (found : List Bytes) (s : Bytes) :
    groupsFrom width found count s = found.reverse ++ groups width count s := by
  induction count generalizing found s with
  | zero => exact (List.append_nil _).symm
  | succ count ih =>
    rw [groups, groupsFrom, groupsFrom, ih, ih [_], List.reverse_cons, List.append_assoc]
    rfl

theorem groups_succ (width count : Nat) (s : Bytes) :
    groups width (count + 1) s = s.take width :: groups width count (s.drop width) :=
  groupsFrom_eq width count [s.take width] (s.drop width)

@[simp] theorem length_groups (width count : Nat) (s : Bytes) :
    (groups width count s).length = count := by
  induction count generalizing s with
  | zero => rfl
  | succ count ih => rw [groups_succ, List.length_cons, ih]

theorem length_of_mem_groups {s g : Bytes} (h : width * count ≤ s.length)
    (hg : g ∈ groups width count s) : g.length = width := by
  induction count generalizing s with
  | zero => cases hg
  | succ count ih =>
    rw [Nat.mul_succ] at h
    rw [groups_succ] at hg
    rcases List.mem_cons.1 hg with rfl | hg
    · rw [List.length_take]
      omega
    · refine ih ?_ hg
      rw [List.length_drop]
      omega

/-- Groups one behind the other are what they were taken from. -/
theorem flatten_groups (width count : Nat) (s : Bytes) :
    (groups width count s).flatten = s.take (width * count) := by
  induction count generalizing s with
  | zero => rfl
  | succ count ih =>
    rw [groups_succ, List.flatten_cons, ih, Nat.mul_succ, Nat.add_comm, List.take_add]

/-- Fields that are read from groups are written as what the groups were taken from. -/
theorem flatMap_field {β : Type} {field : Secret → β} {secrets : List Secret} {s : Bytes}
    (word : Bytes → β) (spell : β → Bytes) (hspell : ∀ g, g.length = width → spell (word g) = g)
    (hfield : secrets.map field = (groups width count s).map word)
    (hroom : width * count ≤ s.length) :
    secrets.flatMap (fun x => spell (field x)) = s.take (width * count) := by
  calc secrets.flatMap (fun x => spell (field x))
      = (secrets.map field).flatMap spell := (List.flatMap_map ..).symm
    _ = (groups width count s).flatMap fun g => spell (word g) := by rw [hfield, List.flatMap_map]
    _ = (groups width count s).flatMap id :=
        List.flatMap_congr fun g hg => hspell g (length_of_mem_groups hroom hg)
    _ = s.take (width * count) := by rw [List.flatMap_id, flatten_groups]

theorem ofSecrets_sectionsOf (blob : Bytes) :
    Sections.ofSecrets (sectionsOf blob).secrets = sectionsOf blob :=
  Sections.ofSecrets_secrets (by simp [sectionsOf]) (by simp [sectionsOf])

@[simp] theorem length_secrets_sectionsOf (blob : Bytes) :
    (sectionsOf blob).secrets.length = countOf blob := by
  have hstarts := congrArg (fun s => s.starts.length) (ofSecrets_sectionsOf blob)
  simpa [Sections.ofSecrets, sectionsOf] using hstarts

/-! ## What a blob is written as -/

/-- The header and the sections of entries, as they are written one after the other. -/
def written (secrets : List Secret) : Bytes :=
  Endian.bytes 4 magic.toNat ++ (Endian.bytes 4 secrets.length ++
    (startBytes secrets ++ (fullBytes secrets ++ lengthBytes secrets)))

theorem length_written (secrets : List Secret) :
    (written secrets).length = headerLength + 20 * secrets.length := by
  simp only [written, List.length_append, Endian.length_bytes, length_startBytes,
    length_fullBytes, length_lengthBytes]
  unfold headerLength
  omega

/-- Ascending entries are written as they are. -/
theorem encode_of_ascending {secrets : List Secret} (h : Ascending secrets)
    (hcount : secrets.length < 2 ^ 32) (rules : Bytes) :
    encode secrets rules = written secrets ++ rules := by
  have hordered : ordered secrets = secrets := List.mergeSort_of_pairwise (h.imp decide_eq_true)
  have hmin : min secrets.length 0xFFFFFFFF = secrets.length := by omega
  rw [encode_eq, hordered, hmin, written]
  simp only [List.append_assoc]

theorem countOf_lt (blob : Bytes) : countOf blob < 2 ^ 32 := by
  have hlt := Endian.number_lt ((blob.drop 4).take 4)
  have hle : ((blob.drop 4).take 4).length ≤ 4 := List.length_take_le _ _
  calc countOf blob < 256 ^ ((blob.drop 4).take 4).length := hlt
    _ ≤ 256 ^ 4 := Nat.pow_le_pow_right (by decide) hle

theorem take_drop_append {α : Type} (s : List α) (m n : Nat) :
    (s.drop m).take n ++ s.drop (m + n) = s.drop m := by
  rw [← List.drop_drop, List.take_append_drop]

/-- A blob is what its entries are written as, with whatever stands behind the sections. -/
theorem eq_written (hmagic : Endian.word32 (blob.take 4) = magic)
    (hroom : headerLength + 20 * countOf blob ≤ blob.length) :
    written (sectionsOf blob).secrets ++ blob.drop (headerLength + 20 * countOf blob) = blob := by
  let count := countOf blob
  let secrets := (sectionsOf blob).secrets
  have hroom' : 8 + 20 * count ≤ blob.length := hroom
  have hsections := ofSecrets_sectionsOf blob
  have hmark : Endian.bytes 4 magic.toNat = blob.take 4 := by
    rw [← hmagic]
    refine Endian.bytes_word32 ?_
    rw [List.length_take]
    omega
  have hnumber : Endian.bytes 4 secrets.length = (blob.drop 4).take 4 := by
    have hlength : ((blob.drop 4).take 4).length = 4 := by
      rw [List.length_take, List.length_drop]
      omega
    have hbytes := Endian.bytes_number ((blob.drop 4).take 4)
    rw [hlength] at hbytes
    rw [length_secrets_sectionsOf]
    exact hbytes
  have hroomBehind (k l : Nat) (h : k + l ≤ 20 * count) : l ≤ (blob.drop (8 + k)).length := by
    rw [List.length_drop]
    omega
  have hstarts : startBytes secrets = (blob.drop 8).take (8 * count) :=
    flatMap_field Endian.word64 (fun x => Endian.bytes 8 x.toNat)
      (fun _ => Endian.bytes_word64) (congrArg Sections.starts hsections)
      (hroomBehind 0 _ (by omega))
  have hfulls : fullBytes secrets = (blob.drop (8 + 8 * count)).take (8 * count) := by
    rw [← List.drop_drop]
    refine flatMap_field Endian.word64 (fun x => Endian.bytes 8 x.toNat)
      (fun _ => Endian.bytes_word64) (congrArg Sections.fulls hsections) ?_
    rw [List.drop_drop]
    exact hroomBehind _ _ (by omega)
  have hlengths : lengthBytes secrets = (blob.drop (8 + 16 * count)).take (4 * count) := by
    rw [← List.drop_drop]
    refine flatMap_field Endian.word32 (fun x => Endian.bytes 4 x.toNat)
      (fun _ => Endian.bytes_word32) (congrArg Sections.lengths hsections) ?_
    rw [List.drop_drop]
    exact hroomBehind _ _ (by omega)
  -- one part after the other is put in front of what stands behind it
  have htwo : 8 + 16 * count = 8 + 8 * count + 8 * count := by omega
  have hthree : headerLength + 20 * countOf blob = 8 + 16 * count + 4 * count := by
    unfold headerLength
    omega
  calc written secrets ++ blob.drop (headerLength + 20 * countOf blob)
      = blob.take 4 ++ ((blob.drop 4).take 4 ++ ((blob.drop 8).take (8 * count) ++
          ((blob.drop (8 + 8 * count)).take (8 * count) ++
            ((blob.drop (8 + 16 * count)).take (4 * count) ++
              blob.drop (8 + 16 * count + 4 * count))))) := by
        simp only [written, hmark, hnumber, hstarts, hfulls, hlengths, hthree, List.append_assoc]
    _ = blob := by
        rw [take_drop_append, htwo, take_drop_append, take_drop_append,
          take_drop_append blob 4 4, List.take_append_drop]

/-- So its first bytes are what its entries are written as. -/
theorem take_eq_written (hmagic : Endian.word32 (blob.take 4) = magic)
    (hroom : headerLength + 20 * countOf blob ≤ blob.length) :
    blob.take (headerLength + 20 * countOf blob) = written (sectionsOf blob).secrets := by
  have hlength := length_written (sectionsOf blob).secrets
  rw [length_secrets_sectionsOf] at hlength
  calc blob.take (headerLength + 20 * countOf blob)
      = (written (sectionsOf blob).secrets ++ blob.drop (headerLength + 20 * countOf blob)).take
          (headerLength + 20 * countOf blob) := by rw [eq_written hmagic hroom]
    _ = written (sectionsOf blob).secrets := List.take_left' hlength

/-! ## What a blob is read as -/

theorem descends_cons_cons {x y : UInt64} {xs : List UInt64} :
    Descends (x :: y :: xs) ↔ y < x ∨ Descends (y :: xs) := by
  constructor
  · rintro ⟨k, a, b, ha, hb, hless⟩
    cases k with
    | zero =>
      cases ha
      cases hb
      exact .inl hless
    | succ k => exact .inr ⟨k, a, b, ha, hb, hless⟩
  · rintro (hless | ⟨k, a, b, ha, hb, hless⟩)
    · exact ⟨0, x, y, rfl, rfl, hless⟩
    · exact ⟨k + 1, a, b, ha, hb, hless⟩

theorem not_descends_singleton (x : UInt64) : ¬ Descends [x] := by
  rintro ⟨k, a, b, -, hb, -⟩
  cases hb

theorem descentFrom_eq_none_iff {position : Nat} {before : UInt64} {xs : List UInt64} :
    descentFrom position before xs = none ↔ ¬ Descends (before :: xs) := by
  induction xs generalizing position before with
  | nil => exact iff_of_true rfl (not_descends_singleton before)
  | cons x xs ih =>
    have hrest : descentFrom (position + 1) x xs = none ↔ ¬ Descends (x :: xs) := ih
    rw [descentFrom, descends_cons_cons, not_or, ← hrest]
    split
    · next hless => exact iff_of_false (Option.some_ne_none _) fun h => h.1 hless
    · next hless => exact (and_iff_right hless).symm

theorem descent?_eq_none_iff {xs : List UInt64} : descent? xs = none ↔ ¬ Descends xs := by
  cases xs with
  | nil => exact iff_of_true rfl fun ⟨k, a, b, ha, _⟩ => nomatch ha
  | cons x xs => exact descentFrom_eq_none_iff

theorem pairwise_of_not_descends {xs : List UInt64} (h : ¬ Descends xs) :
    xs.Pairwise (· ≤ ·) := by
  have : Trans (α := UInt64) (· ≤ ·) (· ≤ ·) (· ≤ ·) := ⟨UInt64.le_trans⟩
  rw [← List.isChain_iff_pairwise, List.isChain_iff_getElem]
  intro k hk
  refine UInt64.not_lt.1 fun hless => h ⟨k, _, _, ?_, ?_, hless⟩
  · exact List.getElem?_eq_getElem (Nat.lt_of_succ_lt hk)
  · exact List.getElem?_eq_getElem hk

/-- The entries of a blob are ascending if their starts do not descend. -/
theorem ascending_secrets (h : ¬ Descends (sectionsOf blob).starts) :
    Ascending (sectionsOf blob).secrets := by
  have hstarts := congrArg Sections.starts (ofSecrets_sectionsOf blob)
  rw [← hstarts] at h
  exact List.pairwise_map.1 (pairwise_of_not_descends h)

/-- A blob with a good header and good sections is read as its rules are. -/
theorem parse_of_wellFormed (h : WellFormed blob) :
    parse blob = (RuleText.ofText? (blob.drop (headerLength + 20 * countOf blob))).elim
      (.error (.invalidRules "no rules")) (compile (sectionsOf blob).secrets) := by
  have hread := parse_sections (sectionsOf blob).secrets
    (blob.drop (headerLength + 20 * countOf blob))
    (length_secrets_sectionsOf blob ▸ countOf_lt blob) (ascending_secrets h.ascending)
  rw [← hread]
  conv_lhs => rw [← eq_written h.magic_eq h.room]
  simp only [written, List.append_assoc]

/-- Any other blob is refused, whatever rules it has. -/
theorem exists_fault_of_not_wellFormed (h : ¬ WellFormed blob) :
    ∃ fault, parse blob = .error fault := by
  unfold parse
  dsimp only
  split
  · exact ⟨_, rfl⟩
  · split
    · exact ⟨_, rfl⟩
    · next hmagic =>
      split
      · exact ⟨_, rfl⟩
      · next hroom =>
        split
        · exact ⟨_, rfl⟩
        · next hascending =>
          have hgood : WellFormed blob :=
            ⟨not_not.1 hmagic, Nat.not_lt.1 hroom, descent?_eq_none_iff.1 hascending⟩
          exact absurd hgood h

theorem secrets_of_compile {secrets : List Secret} {rules : RuleText} {i : Index}
    (h : compile secrets rules = .ok i) : i.secrets = secrets := by
  simp only [compile, bind, Except.bind, pure, Except.pure] at h
  split at h
  · cases h
  · split at h
    · cases h
    · split at h
      · cases h
      · cases h
        rfl

/-- An index has the entries of a blob, all of them and in their order, and finds them there. -/
structure Holds (i : Index) (blob : Bytes) : Prop where
  /-- Each of the three sections has one number for each entry. -/
  lengths_eq : (sectionsOf blob).starts.length = i.size ∧
    (sectionsOf blob).fulls.length = i.size ∧ (sectionsOf blob).lengths.length = i.size
  secrets_eq : i.secrets = (sectionsOf blob).secrets
  /-- Entries that are written again make up the header and the sections that were read. -/
  encode_eq : ∀ rules, encode i.secrets rules = blob.take (headerLength + 20 * i.size) ++ rules
  room : headerLength + 20 * i.size ≤ blob.length
  /-- Looking for a start leaves no section, and finds every entry with this start. -/
  search_eq : ∀ start, (sectionsOf blob).search start = some (i.candidates start)
  candidates_eq : ∀ start, i.candidates start =
    (sectionsOf blob).secrets.filter (·.start == start)

theorem holds_of_parse {i : Index} (h : parse blob = .ok i) : i.Holds blob := by
  have hgood : WellFormed blob := by
    by_contra hbad
    obtain ⟨fault, hfault⟩ := exists_fault_of_not_wellFormed hbad
    cases h.symm.trans hfault
  have hsecrets : i.secrets = (sectionsOf blob).secrets := by
    rw [parse_of_wellFormed hgood] at h
    cases hrules : RuleText.ofText? (blob.drop (headerLength + 20 * countOf blob)) with
    | none =>
      rw [hrules] at h
      cases h
    | some rules =>
      rw [hrules] at h
      exact secrets_of_compile h
  have hsize : i.size = countOf blob := by rw [size, hsecrets, length_secrets_sectionsOf]
  have hascending := ascending_secrets hgood.ascending
  have hcandidates (start : UInt64) :
      i.candidates start = (sectionsOf blob).secrets.filter (·.start == start) := by
    rw [candidates_eq_filter (hsecrets ▸ hascending), hsecrets]
  constructor
  · rw [hsize]
    simp [sectionsOf]
  · exact hsecrets
  · intro rules
    rw [hsecrets, encode_of_ascending hascending (length_secrets_sectionsOf blob ▸ countOf_lt blob),
      hsize, ← take_eq_written hgood.magic_eq hgood.room]
  · rw [hsize]
    exact hgood.room
  · intro start
    rw [hcandidates, ← Sections.search_eq hascending, ofSecrets_sectionsOf]
  · exact hcandidates

/--
A blob is read as an index of the entries that stand in its sections, and of nothing else; written
again, they are what was read. It is refused if it has another mark, no room for the sections that
its header announces, or starts that descend, and otherwise only for its rules.
-/
theorem parse_exact (blob : Bytes) :
    (∀ i, parse blob = .ok i → i.Holds blob) ∧
    (blob.length < headerLength + 20 * countOf blob ∨ Endian.word32 (blob.take 4) ≠ magic ∨
      Descends (sectionsOf blob).starts → ∃ fault, parse blob = .error fault) ∧
    (WellFormed blob →
      parse blob = (RuleText.ofText? (blob.drop (headerLength + 20 * countOf blob))).elim
        (.error (.invalidRules "no rules")) (compile (sectionsOf blob).secrets)) := by
  refine ⟨fun i => holds_of_parse, fun hbad => ?_, parse_of_wellFormed⟩
  refine exists_fault_of_not_wellFormed fun hgood => ?_
  rcases hbad with hroom | hmagic | hdescends
  · exact Nat.not_lt.2 hgood.room hroom
  · exact hmagic hgood.magic_eq
  · exact hgood.ascending hdescends

/-- An index with two entries of one start at its end, which is refused once a byte is missing. -/
theorem parse_exact_repeated :
    let secrets : List Secret := [⟨3, 2, 20⟩, ⟨7, 1, 10⟩, ⟨7, 0, 30⟩]
    (∃ i, parse (written secrets) = .ok i ∧
      (sectionsOf (written secrets)).search 7 = some (i.candidates 7) ∧
      i.candidates 7 = [⟨7, 1, 10⟩, ⟨7, 0, 30⟩]) ∧
    ∃ fault, parse ((written secrets).take 67) = .error fault := by
  intro secrets
  have hascending : Ascending secrets := by
    unfold Ascending
    decide +kernel
  obtain ⟨i, hparse⟩ : ∃ i, parse (written secrets) = .ok i := by
    rw [← List.append_nil (written secrets), ← encode_of_ascending hascending (by decide)]
    exact ⟨_, parse_encode_nil (by decide)⟩
  have hholds := (parse_exact (written secrets)).1 _ hparse
  have hfilter : (sectionsOf (written secrets)).secrets.filter (·.start == 7) =
      [⟨7, 1, 10⟩, ⟨7, 0, 30⟩] := by decide +kernel
  refine ⟨⟨i, hparse, hholds.search_eq 7, (hholds.candidates_eq 7).trans hfilter⟩, ?_⟩
  refine (parse_exact ((written secrets).take 67)).2.1 (.inl ?_)
  decide +kernel

end Index

end Confidential

end PackageAudit
