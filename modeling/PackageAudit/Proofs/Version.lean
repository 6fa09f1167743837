import Mathlib.Data.List.Induction
import Mathlib.Data.List.TakeWhile
import PackageAudit.Proofs.Basic
import PackageAudit.Version

/-!
# Proofs.Version — a version is written as it was read

Numbers have no zeros in front, and an identifier behind a mark is not empty, so a text that spells
a version is the only one that does.

* `Digits.toDigits_value` — a number without zeros in front is written with its digits;
* `Version.text_of_parse` — the text of a version is the one it was read from;
* `Version.isTextChar_of_mem_text` — the characters that it may have.
-/

namespace PackageAudit

variable {c : Char} {cs ds rest : List Char}

/-! ## Numbers -/

namespace Digits

theorem value_concat (ds : List Char) (c : Char) :
    value (ds ++ [c]) = 10 * value ds + (c.toNat - '0'.toNat) := by
  rw [value, List.foldl_append]
  rfl

theorem lt_ten_of_isDigit (h : c.isDigit = true) : c.toNat - '0'.toNat < 10 := by
  have hhigh : c.toNat ≤ 57 := (Char.isDigit_iff_toNat.1 h).2
  change c.toNat - 48 < 10
  omega

theorem toDigits_digit (h : c.isDigit = true) : Nat.toDigits 10 (c.toNat - '0'.toNat) = [c] := by
  have hlow : 48 ≤ c.toNat := (Char.isDigit_iff_toNat.1 h).1
  have hlt : c.toNat - 48 < 10 := lt_ten_of_isDigit h
  have hchar : (c.toNat - 48).digitChar = c := by
    rw [← Char.toNat_inj, Nat.toNat_digitChar_of_lt_ten hlt]
    omega
  exact (Nat.toDigits_of_lt_base hlt).trans (congrArg ([·]) hchar)

/-- A number without zeros in front is written with its digits. -/
theorem toDigits_value (hds : ∀ c ∈ ds, c.isDigit = true) (hne : ds ≠ [])
    (hzero : ds.head? = some '0' → ds = ['0']) : Nat.toDigits 10 (value ds) = ds := by
  induction ds using List.reverseRecOn with
  | nil => exact absurd rfl hne
  | append_singleton ds c ih =>
    have hc : c.isDigit = true := hds c (List.mem_append_right _ List.mem_cons_self)
    rw [value_concat]
    by_cases hfront : ds = []
    · subst hfront
      change Nat.toDigits 10 (0 + (c.toNat - '0'.toNat)) = [c]
      rw [Nat.zero_add, toDigits_digit hc]
    · have hhead : ds.head? ≠ some '0' := by
        intro h
        have hlength := congrArg List.length (hzero (by rw [List.head?_append, h]; rfl))
        rw [List.length_append, List.length_singleton, List.length_singleton] at hlength
        have := List.length_pos_iff.2 hfront
        omega
      have hbefore : Nat.toDigits 10 (value ds) = ds :=
        ih (fun d hd => hds d (List.mem_append_left _ hd)) hfront fun h => absurd h hhead
      -- Otherwise the digits in front of the last one were a single zero.
      have hpos : 0 < value ds := by
        refine Nat.pos_of_ne_zero fun h => hhead ?_
        rw [← hbefore, h]
        rfl
      rw [← Nat.toDigits_append_toDigits (by decide) hpos (lt_ten_of_isDigit hc), hbefore,
        toDigits_digit hc]

end Digits

namespace Version

variable {part before next : Part} {mark : Char} {n : Nat} {identifier s : String} {v : Version}

/-! ## Parts -/

/-- What is read as a number is its text. -/
theorem eq_of_readNumber (h : readNumber part cs = .ok (n, rest)) :
    cs = (toString n).toList ++ rest := by
  unfold readNumber at h
  dsimp only at h
  split at h
  · cases h
  · cases h
  · cases h
  · next cs _ _ hzeros hempty hother =>
    split_ifs at h
    cases h
    have hdigits : ∀ c ∈ cs.takeWhile Char.isDigit, c.isDigit = true :=
      fun c hc => List.mem_takeWhile_imp hc
    have hne : cs.takeWhile Char.isDigit ≠ [] := by
      intro hnil
      cases cs with
      | nil => exact hempty hnil rfl
      | cons c cs => exact hother c cs hnil rfl
    have hzero (h : (cs.takeWhile Char.isDigit).head? = some '0') :
        cs.takeWhile Char.isDigit = ['0'] := by
      obtain ⟨ds, hds⟩ := List.head?_eq_some_iff.1 h
      cases ds with
      | nil => exact hds
      | cons d ds => exact absurd hds (hzeros d ds)
    rw [Nat.toString_eq_ofList_toDigits, String.toList_ofList,
      Digits.toDigits_value hdigits hne hzero, List.takeWhile_append_dropWhile]

theorem eq_of_afterDot (h : afterDot part cs = .ok rest) : cs = '.' :: rest := by
  unfold afterDot at h
  split at h
  · cases h
    rfl
  · cases h
  · cases h

/-- Characters that stand in identifiers. -/
def IsIdentifierPart (c : Char) : Prop :=
  isIdentifierChar c = true ∨ c = '.'

/-- An identifier that is read is not empty. -/
theorem of_readIdentifier (h : readIdentifier part cs = .ok (identifier, rest)) :
    cs = identifier.toList ++ rest ∧ identifier.isEmpty = false ∧
      ∀ c ∈ identifier.toList, IsIdentifierPart c := by
  simp only [readIdentifier, bind_eq_ok_iff] at h
  obtain ⟨_, hsegments, hpure⟩ := h
  cases hpure
  rw [String.toList_ofList]
  refine ⟨List.takeWhile_append_dropWhile.symm, ?_, ?_⟩
  · -- Without a character there is one segment, which is empty.
    rw [← Bool.not_eq_true, String.isEmpty_iff, ← String.toList_eq_nil_iff, String.toList_ofList]
    intro hnil
    rw [hnil] at hsegments
    cases hsegments
  · intro c hc
    have hpart := List.mem_takeWhile_imp hc
    rw [Bool.or_eq_true, beq_iff_eq] at hpart
    exact hpart

/-- A mark and what stands behind it, if anything does. -/
def marked (mark : Char) (identifier : String) : List Char :=
  if identifier.isEmpty then [] else mark :: identifier.toList

theorem of_readMarked (h : readMarked mark part before cs = .ok (identifier, rest, next)) :
    cs = marked mark identifier ++ rest ∧ ∀ c ∈ identifier.toList, IsIdentifierPart c := by
  unfold readMarked at h
  split at h
  · next c after =>
    split_ifs at h with hmark
    · obtain ⟨⟨_, _⟩, hread, heq⟩ := map_eq_ok_iff.1 h
      cases heq
      obtain ⟨hcs, hne, hparts⟩ := of_readIdentifier hread
      refine ⟨?_, hparts⟩
      rw [marked, if_neg (by rw [hne]; exact Bool.false_ne_true), hmark, hcs, List.cons_append]
    · cases h
      exact ⟨rfl, fun c hc => absurd hc List.not_mem_nil⟩
  · cases h
    exact ⟨rfl, fun c hc => absurd hc List.not_mem_nil⟩

/-! ## Versions -/

theorem toList_text (v : Version) :
    v.text.toList = (toString v.major).toList ++ '.' :: ((toString v.minor).toList ++
      '.' :: ((toString v.patch).toList ++ (marked '-' v.pre ++ marked '+' v.build))) := by
  have hpre : (if v.pre.isEmpty then "" else "-" ++ v.pre).toList = marked '-' v.pre := by
    unfold marked
    split_ifs
    · rfl
    · exact String.toList_append
  have hbuild : (if v.build.isEmpty then "" else "+" ++ v.build).toList = marked '+' v.build := by
    unfold marked
    split_ifs
    · rfl
    · exact String.toList_append
  simp only [text, String.toList_append, hpre, hbuild, List.append_assoc]
  rfl

theorem of_parse (h : parse s = .ok v) :
    v.text = s ∧ (∀ c ∈ v.pre.toList, IsIdentifierPart c) ∧
      ∀ c ∈ v.build.toList, IsIdentifierPart c := by
  unfold parse at h
  split_ifs at h
  · cases h
  · simp only [bind_eq_ok_iff] at h
    obtain ⟨_, hmajor, _, hdot, _, hminor, _, hdot', _, hpatch, _, hpre, _, hbuild, hrest⟩ := h
    have hpre := of_readMarked hpre
    have hbuild := of_readMarked hbuild
    split at hrest
    · next hend =>
      cases hrest
      refine ⟨?_, hpre.2, hbuild.2⟩
      apply String.toList_injective
      rw [hend, List.append_nil] at hbuild
      rw [toList_text, eq_of_readNumber hmajor, eq_of_afterDot hdot, eq_of_readNumber hminor,
        eq_of_afterDot hdot', eq_of_readNumber hpatch, hpre.1, hbuild.1]
    · cases hrest

/-- The text of a version is the one it was read from. -/
theorem text_of_parse (h : parse s = .ok v) : v.text = s :=
  (of_parse h).1

theorem exists_head_text (v : Version) : ∃ c cs, v.text.toList = c :: cs ∧ c.isDigit = true := by
  have hmajor : (toString v.major).toList = Nat.toDigits 10 v.major := by
    rw [Nat.toString_eq_ofList_toDigits, String.toList_ofList]
  obtain ⟨c, cs, hn⟩ := List.exists_cons_of_ne_nil (Nat.toDigits_ne_nil (b := 10) (n := v.major))
  rw [toList_text, hmajor, hn]
  exact ⟨c, _, rfl, Nat.isDigit_of_mem_toDigits (by decide) (by decide) (hn ▸ List.mem_cons_self)⟩

/-- Characters that the text of a version may have. -/
def IsTextChar (c : Char) : Prop :=
  IsIdentifierPart c ∨ c = '+'

theorem isTextChar_of_mem_toString (h : c ∈ (toString n).toList) : IsTextChar c := by
  rw [Nat.toString_eq_ofList_toDigits, String.toList_ofList] at h
  have hdigit : c.isDigit = true := Nat.isDigit_of_mem_toDigits (by decide) (by decide) h
  refine .inl (.inl ?_)
  rw [isIdentifierChar, Char.isAlphanum, hdigit, Bool.or_true, Bool.true_or]

theorem isTextChar_of_mem_marked (hmark : IsTextChar mark)
    (hparts : ∀ c ∈ identifier.toList, IsIdentifierPart c) (h : c ∈ marked mark identifier) :
    IsTextChar c := by
  unfold marked at h
  split_ifs at h
  · exact absurd h List.not_mem_nil
  · rcases List.mem_cons.1 h with rfl | h
    · exact hmark
    · exact .inl (hparts c h)

theorem isTextChar_of_mem_text (hparse : parse s = .ok v) (h : c ∈ v.text.toList) :
    IsTextChar c := by
  obtain ⟨-, hpre, hbuild⟩ := of_parse hparse
  have hdot : IsTextChar '.' := .inl (.inr rfl)
  rw [toList_text] at h
  simp only [List.mem_append, List.mem_cons] at h
  rcases h with h | rfl | h | rfl | h | h | h
  · exact isTextChar_of_mem_toString h
  · exact hdot
  · exact isTextChar_of_mem_toString h
  · exact hdot
  · exact isTextChar_of_mem_toString h
  · exact isTextChar_of_mem_marked (.inl (.inl rfl)) hpre h
  · exact isTextChar_of_mem_marked (.inr rfl) hbuild h

end Version

end PackageAudit
