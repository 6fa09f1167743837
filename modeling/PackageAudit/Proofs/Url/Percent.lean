import Mathlib.Data.List.Basic
import PackageAudit.Proofs.Text.Order
import PackageAudit.Url.Percent

/-!
# Proofs.Url.Percent — what is written by the numbers of its bytes is read back

If the percent sign itself is always written by its number, each one in a written text stands for a
byte, and reading gives the text again. Characters of the set do not stand in a written text.

* `Percent.decode_encode` — a written text is read back, byte by byte;
* `Percent.encode_injective` — different texts are written differently;
* `Percent.not_mem_encode` — a character of the set does not stand in a written text.
-/

namespace PackageAudit

namespace Percent

variable {set : PercentSet} {c : Char} {cs : List Char}

/-! ## Bytes -/

/-- The digits of base sixteen. -/
def digits : List Char :=
  (List.range 16).map digit

theorem digit_mem_digits {n : Nat} (h : n < 16) : digit n ∈ digits :=
  List.mem_map_of_mem (List.mem_range.2 h)

theorem digitValue?_digit {n : Nat} (h : n < 16) : digitValue? (digit n) = some n :=
  (show ∀ n < 16, digitValue? (digit n) = some n by decide) n h

/-- The two digits of a byte stand for it. -/
theorem byte?_digits (b : UInt8) :
    byte? (digit (b.toNat / 16)) (digit (b.toNat % 16)) = some b := by
  have hb := b.toNat_lt
  have hhigh : b.toNat / 16 < 16 := by omega
  have hlow : b.toNat % 16 < 16 := by omega
  rw [byte?, digitValue?_digit hhigh, digitValue?_digit hlow]
  change some (UInt8.ofNat (16 * (b.toNat / 16) + b.toNat % 16)) = some b
  rw [Nat.div_add_mod, UInt8.ofNat_toNat]

theorem decode_numbered (b : UInt8) (rest : List Char) :
    decode (numbered b ++ rest) = b :: decode rest := by
  change decode ('%' :: digit (b.toNat / 16) :: digit (b.toNat % 16) :: rest) = _
  rw [decode, byte?_digits]

theorem decode_flatMap_numbered (bs : Bytes) (rest : List Char) :
    decode (bs.flatMap numbered ++ rest) = bs ++ decode rest := by
  induction bs with
  | nil => rfl
  | cons b bs ih => rw [List.flatMap_cons, List.append_assoc, decode_numbered, ih, List.cons_append]

/-- What is no percent sign stands for itself. -/
theorem decode_cons_of_ne (h : c ≠ '%') (rest : List Char) :
    decode (c :: rest) = Utf8.encodeChar c ++ decode rest := by
  rw [decode]
  rintro a b more heq
  exact absurd heq h

/-! ## Texts -/

theorem decode_encodeChar (hset : set '%' = true) (c : Char) (rest : List Char) :
    decode (encodeChar set c ++ rest) = Utf8.encodeChar c ++ decode rest := by
  unfold encodeChar
  split
  · next hplain =>
    have hne : c ≠ '%' := by
      rintro rfl
      exact hplain.2 hset
    exact decode_cons_of_ne hne rest
  · exact decode_flatMap_numbered _ _

/-- A text is read back. -/
theorem decode_encode (hset : set '%' = true) (cs : List Char) :
    decode (encode set cs) = Utf8.encode cs := by
  induction cs with
  | nil => rfl
  | cons c cs ih =>
    have hcons : encode set (c :: cs) = encodeChar set c ++ encode set cs := List.flatMap_cons
    rw [hcons, decode_encodeChar hset, ih]
    rfl

theorem encode_injective (hset : set '%' = true) : Function.Injective (encode set) := by
  intro cs ds h
  have hbytes := congrArg decode h
  rw [decode_encode hset, decode_encode hset] at hbytes
  exact Utf8.encode_injective hbytes

/-- A character that is always written by its number is not in a written text. -/
theorem not_mem_encode (hset : set c = true) (hsign : c ≠ '%') (hdigit : c ∉ digits) :
    c ∉ encode set cs := by
  intro h
  obtain ⟨d, -, hd⟩ := List.mem_flatMap.1 h
  unfold encodeChar at hd
  split at hd
  · next hplain =>
    obtain rfl := List.mem_singleton.1 hd
    exact hplain.2 hset
  · obtain ⟨b, -, hb⟩ := List.mem_flatMap.1 hd
    have hlt := b.toNat_lt
    simp only [numbered, List.mem_cons, List.not_mem_nil, or_false] at hb
    rcases hb with rfl | rfl | rfl
    · exact hsign rfl
    · exact hdigit (digit_mem_digits (by omega))
    · exact hdigit (digit_mem_digits (by omega))

end Percent

end PackageAudit
