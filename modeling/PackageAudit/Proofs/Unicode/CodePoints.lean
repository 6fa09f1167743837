import Mathlib.Data.List.Sort
import PackageAudit.Pattern.Expr
import PackageAudit.Unicode.CodePoints

/-!
# Proofs.Unicode.CodePoints — what is in a set of code points

A set that is built from ranges has the members of these ranges, in whatever order they are given
and however they overlap.

* `CodePoints.Covers` — a code point lies in one of several ranges;
* `CodePoints.mem_ofRanges` — the members of a set that is built;
* `CodePoints.mem_singleton` — that of a set with one member;
* `Property.exists_wordTable` — what words consist of is in one of many tables;
* `Property.not_isWordChar_of_whiteSpace` — none of them holds a blank.
-/

namespace PackageAudit

namespace CodePoints

variable {ranges : List (Nat × Nat)} {n : Nat}

/-- A code point lies in one of the ranges. -/
def Covers (ranges : List (Nat × Nat)) (n : Nat) : Prop :=
  ∃ r ∈ ranges, r.1 ≤ n ∧ n ≤ r.2

theorem covers_cons {r : Nat × Nat} :
    Covers (r :: ranges) n ↔ (r.1 ≤ n ∧ n ≤ r.2) ∨ Covers ranges n := by
  simp [Covers]

theorem covers_append {more : List (Nat × Nat)} :
    Covers (ranges ++ more) n ↔ Covers ranges n ∨ Covers more n := by
  simp only [Covers, List.mem_append, or_and_right, exists_or]

/-- Ranges in the order in which they start. -/
abbrev Ascending (ranges : List (Nat × Nat)) : Prop :=
  ranges.Pairwise (·.1 ≤ ·.1)

/-- A search in ranges that are in order finds what lies in one of them. -/
theorem memRanges_iff (h : Ascending ranges) : memRanges ranges n = true ↔ Covers ranges n := by
  induction ranges with
  | nil => simp [memRanges, Covers]
  | cons r ranges ih =>
    obtain ⟨hfirst, hrest⟩ := List.pairwise_cons.1 h
    rw [memRanges, covers_cons]
    split
    · -- What lies below the first range lies below all others.
      next hlow =>
      refine iff_of_false Bool.false_ne_true ?_
      rintro (⟨hlow', -⟩ | ⟨r', hr', hlow', -⟩)
      · exact absurd hlow (Nat.not_lt.2 hlow')
      · exact absurd (Nat.le_trans (hfirst r' hr') hlow') (Nat.not_le.2 hlow)
    · next hlow =>
      rw [Bool.or_eq_true, decide_eq_true_eq, ih hrest, and_iff_right (Nat.not_lt.1 hlow)]

/--
Joining a range to those before it, the last one first, keeps their order and adds its members.
-/
theorem joinNext_spec {joined : List (Nat × Nat)} {next : Nat × Nat}
    (horder : (next :: joined).Pairwise (·.1 ≥ ·.1)) :
    (joinNext joined next).Pairwise (·.1 ≥ ·.1) ∧
      (∀ r ∈ joinNext joined next, r.1 ≤ next.1) ∧
      ∀ n, Covers (joinNext joined next) n ↔ Covers joined n ∨ (next.1 ≤ n ∧ n ≤ next.2) := by
  obtain ⟨hnext, hjoined⟩ := List.pairwise_cons.1 horder
  cases joined with
  | nil => simp [joinNext, Covers]
  | cons r joined =>
    obtain ⟨low, high⟩ := r
    have hlow : low ≤ next.1 := hnext _ List.mem_cons_self
    rw [joinNext]
    split
    · next hclose =>
      obtain ⟨hfirst, hrest⟩ := List.pairwise_cons.1 hjoined
      refine ⟨List.pairwise_cons.2 ⟨hfirst, hrest⟩, ?_, fun n => ?_⟩
      · exact List.forall_mem_cons.2 ⟨hlow, fun r hr => hnext r (List.mem_cons_of_mem _ hr)⟩
      · simp only [covers_cons]
        by_cases hcovers : Covers joined n
        · simp [hcovers]
        · simp only [hcovers, or_false]
          omega
    · refine ⟨horder, List.forall_mem_cons.2 ⟨Nat.le_refl _, hnext⟩, fun n => ?_⟩
      rw [covers_cons, or_comm]

theorem foldl_joinNext {joined : List (Nat × Nat)} (horder : Ascending (joined.reverse ++ ranges)) :
    (ranges.foldl joinNext joined).Pairwise (·.1 ≥ ·.1) ∧
      ∀ n, Covers (ranges.foldl joinNext joined) n ↔ Covers joined n ∨ Covers ranges n := by
  induction ranges generalizing joined with
  | nil =>
    rw [List.append_nil] at horder
    exact ⟨List.pairwise_reverse.1 horder, by simp [Covers]⟩
  | cons next ranges ih =>
    obtain ⟨hjoined, hranges, hapart⟩ := List.pairwise_append.1 horder
    obtain ⟨hnext, hrest⟩ := List.pairwise_cons.1 hranges
    have hall : (next :: joined).Pairwise (·.1 ≥ ·.1) :=
      List.pairwise_cons.2 ⟨fun r hr => hapart r (List.mem_reverse.2 hr) next List.mem_cons_self,
        List.pairwise_reverse.1 hjoined⟩
    obtain ⟨hsorted, hbelow, hcovers⟩ := joinNext_spec hall
    obtain ⟨hresult, hmembers⟩ := @ih (joinNext joined next) <|
      List.pairwise_append.2 ⟨List.pairwise_reverse.2 hsorted, hrest, fun r hr r' hr' =>
        Nat.le_trans (hbelow r (List.mem_reverse.1 hr)) (hnext r' hr')⟩
    refine ⟨hresult, fun n => ?_⟩
    rw [List.foldl_cons, hmembers, hcovers, covers_cons, or_assoc]

/-- A set that is built is in order, and has what lies in one of the ranges given. -/
theorem ofRanges_spec : Ascending (ofRanges ranges).ranges ∧
    ∀ n, Covers (ofRanges ranges).ranges n ↔ Covers ranges n := by
  set sorted := (ranges.filter fun r => r.1 ≤ r.2).mergeSort fun a b => a.1 ≤ b.1 with hsorted
  have horder : Ascending sorted := by
    have hle : sorted.Pairwise fun a b => decide (a.1 ≤ b.1) = true :=
      List.pairwise_mergeSort (fun a b c => by simpa using Nat.le_trans)
        (fun a b => by simpa using Nat.le_total a.1 b.1) _
    exact hle.imp of_decide_eq_true
  obtain ⟨hresult, hmembers⟩ := @foldl_joinNext sorted [] horder
  refine ⟨List.pairwise_reverse.2 hresult, fun n => ?_⟩
  have hreverse : ∀ l : List (Nat × Nat), Covers l.reverse n ↔ Covers l n := by simp [Covers]
  have hnonempty : Covers sorted n ↔ Covers ranges n := by
    refine exists_congr fun r => ?_
    rw [hsorted, List.mem_mergeSort, List.mem_filter, decide_eq_true_eq, and_assoc]
    exact and_congr_right fun _ => and_iff_right_of_imp fun h => Nat.le_trans h.1 h.2
  rw [ofRanges, ← hsorted, hreverse, hmembers, hnonempty]
  simp [Covers]

theorem mem_iff {s : CodePoints} (h : Ascending s.ranges) : s.mem n = true ↔ Covers s.ranges n :=
  memRanges_iff h

/-- A set has the members of the ranges from which it is built. -/
theorem mem_ofRanges : (ofRanges ranges).mem n = true ↔ Covers ranges n :=
  (mem_iff ofRanges_spec.1).trans (ofRanges_spec.2 n)

theorem ascending_singleton : Ascending (singleton n).ranges :=
  List.pairwise_singleton _ _

theorem covers_singleton {m : Nat} : Covers [(n, n)] m ↔ m = n := by
  rw [covers_cons]
  simp only [Covers, List.not_mem_nil, false_and, exists_false, or_false]
  exact and_comm.trans Nat.le_antisymm_iff.symm

theorem mem_singleton {m : Nat} : (singleton n).mem m = true ↔ m = n :=
  (mem_iff ascending_singleton).trans covers_singleton

end CodePoints

/-! ## Blanks and words -/

namespace CodePoints

variable {a b : List (Nat × Nat)} {s t : CodePoints} {sets : List CodePoints} {n : Nat}

theorem covers_union : Covers (s.union t).ranges n ↔ Covers s.ranges n ∨ Covers t.ranges n :=
  (ofRanges_spec.2 n).trans covers_append

theorem covers_unions : Covers (unions sets).ranges n ↔ ∃ s ∈ sets, Covers s.ranges n := by
  rw [unions, ofRanges_spec.2]
  simp only [Covers, List.mem_flatMap]
  constructor
  · rintro ⟨r, ⟨s, hs, hr⟩, hn⟩
    exact ⟨s, hs, r, hr, hn⟩
  · rintro ⟨s, hs, r, hr, hn⟩
    exact ⟨r, ⟨s, hs, hr⟩, hn⟩

/-- No range of the one list meets a range of the other. -/
def apart (a b : List (Nat × Nat)) : Bool :=
  a.all fun r => b.all fun q => r.2 < q.1 || q.2 < r.1

theorem not_covers_of_apart (h : apart a b = true) (ha : Covers a n) : ¬ Covers b n := by
  rintro ⟨q, hq, hlow, hhigh⟩
  obtain ⟨r, hr, hlow', hhigh'⟩ := ha
  have hmeet := List.all_eq_true.1 (List.all_eq_true.1 h r hr) q hq
  rw [Bool.or_eq_true, decide_eq_true_eq, decide_eq_true_eq] at hmeet
  omega

end CodePoints

namespace Property

open CodePoints (Covers read)

variable {n : Nat} {c : Char}

/-- The ranges of the blanks. -/
def blanks : List (Nat × Nat) :=
  [(0x09, 0x0D), (0x20, 0x20), (0x85, 0x85), (0xA0, 0xA0), (0x1680, 0x1680), (0x2000, 0x200A),
    (0x2028, 0x2029), (0x202F, 0x202F), (0x205F, 0x205F), (0x3000, 0x3000)]

theorem whiteSpace_eq : whiteSpace = ⟨blanks⟩ := by
  decide +kernel

open Category in
/-- The categories of what words consist of. -/
def wordCategories : List Category :=
  [uppercaseLetter, lowercaseLetter, titlecaseLetter, modifierLetter, otherLetter, letterNumber,
    nonspacingMark, spacingMark, enclosingMark, decimalNumber, connectorPunctuation]

/-- The tables of what words consist of. -/
def wordTables : List String :=
  wordCategories.map Category.table ++ [otherAlphabetic, joinControlTable]

theorem members_eq {category : Category} (h : category ≠ .unassigned) :
    category.members = read category.table := by
  cases category
  case unassigned => exact absurd rfl h
  all_goals rfl

/-- What words consist of is in one of the tables. -/
theorem exists_wordTable (h : Covers word.ranges n) :
    ∃ t ∈ wordTables, Covers (read t).ranges n := by
  have hcategory : ∀ cs : List Category, cs ⊆ wordCategories →
      Covers (Category.membersOf cs).ranges n → ∃ t ∈ wordTables, Covers (read t).ranges n := by
    intro cs hcs hn
    obtain ⟨s, hs, hn⟩ := CodePoints.covers_unions.1 hn
    obtain ⟨category, hcategory, rfl⟩ := List.mem_map.1 hs
    have hword := hcs hcategory
    have hassigned : category ≠ .unassigned := by
      rintro rfl
      exact absurd hword (by decide)
    exact ⟨_, List.mem_append_left _ (List.mem_map_of_mem hword), members_eq hassigned ▸ hn⟩
  obtain ⟨s, hs, hn⟩ := CodePoints.covers_unions.1 h
  simp only [List.mem_cons, List.not_mem_nil, or_false] at hs
  rcases hs with rfl | rfl | rfl
  · rcases CodePoints.covers_union.1 hn with hletter | hother
    · exact hcategory _ (by decide) hletter
    · exact ⟨_, List.mem_append_right _ List.mem_cons_self, hother⟩
  · exact ⟨_, List.mem_append_right _ (List.mem_cons_of_mem _ List.mem_cons_self), hn⟩
  · exact hcategory _ (by decide) hn

theorem apart_read {text : String} {cs : List Char} (htext : text.toList = cs)
    (h : CodePoints.apart (CodePoints.ofSteps [] 0 (CodePoints.readNumbers cs)) blanks = true) :
    CodePoints.apart (read text).ranges blanks = true := by
  change CodePoints.apart (CodePoints.ofSteps [] 0 (CodePoints.readNumbers text.toList)) _ = true
  rwa [htext]

theorem toList_append_eq {text more : String} {cs ds : List Char} (h : text.toList = cs)
    (h' : more.toList = ds) : (text ++ more).toList = cs ++ ds := by
  rw [String.toList_append, h, h']

/-- None of the tables reaches into the ranges of the blanks. -/
theorem apart_wordTables : ∀ t ∈ wordTables, CodePoints.apart (read t).ranges blanks = true := by
  simp only [wordTables, wordCategories, List.map_cons, List.map_nil, List.cons_append,
    List.nil_append, List.forall_mem_cons]
  refine ⟨?_, ?_, ?_, ?_, ?_, ?_, ?_, ?_, ?_, ?_, ?_, ?_, ?_, List.forall_mem_nil _⟩
  -- The texts are taken apart into the pieces in which they are written: those are short.
  all_goals
    apply apart_read
    · first | unfold Category.table | unfold otherAlphabetic | unfold joinControlTable
      try simp only [-String.reduceAppend, -String.reduceToList]
      repeat' with_reducible apply toList_append_eq
      all_goals exact String.toList_ofList
    · decide +kernel

/-- A blank is no part of a word. -/
theorem not_isWordChar_of_whiteSpace (h : whiteSpace.has c = true) (ascii : Bool) :
    Pattern.isWordChar ascii c = false := by
  rw [CodePoints.has, whiteSpace_eq] at h
  have hblank : Covers blanks c.toNat := (CodePoints.mem_iff (by decide)).1 h
  have hword : word.has c = false := by
    rw [CodePoints.has, ← Bool.not_eq_true, word, CodePoints.unions,
      CodePoints.mem_iff CodePoints.ofRanges_spec.1]
    intro hcovers
    obtain ⟨t, ht, hn⟩ := exists_wordTable hcovers
    exact CodePoints.not_covers_of_apart (apart_wordTables t ht) hn hblank
  rw [Pattern.isWordChar, hword]
  split
  · next hlow =>
    have hall : ∀ n < 0x80, CodePoints.mem ⟨blanks⟩ n = true →
        ((Char.ofNat n).isAlphanum || Char.ofNat n == '_') = false := by decide
    have hc := hall c.toNat hlow h
    rwa [Char.ofNat_toNat] at hc
  · exact Bool.and_false _

end Property

end PackageAudit
