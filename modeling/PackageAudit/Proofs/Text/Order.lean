import Mathlib.Data.String.Basic
import PackageAudit.Proofs.Text.Utf8

/-!
# Proofs.Text.Order — texts stand in the order of their bytes

UTF-8 keeps the order of characters: the number of bytes shows in the first one, and grows with the
number of the character.

* `Utf8.encodeChar_lt` — two characters are told apart by the first byte in which they differ;
* `textBytes_lt_iff` — texts are ordered as their bytes are;
* `textBytes_injective` — no two texts have the same bytes;
* `pairwise_mergeSort_texts` — texts that are sorted are in this order.
-/

namespace PackageAudit

namespace Utf8

variable {c d : Char} {cs ds : List Char}

theorem ofNat_lt_iff {m n : Nat} (hm : m < 256) (hn : n < 256) :
    UInt8.ofNat m < UInt8.ofNat n ↔ m < n := by
  rw [UInt8.lt_iff_toNat_lt, toNat_ofNat hm, toNat_ofNat hn]

theorem ofNat_eq_iff {m n : Nat} (hm : m < 256) (hn : n < 256) :
    UInt8.ofNat m = UInt8.ofNat n ↔ m = n := by
  rw [← UInt8.toNat_inj, toNat_ofNat hm, toNat_ofNat hn]

theorem encodeChar_ne_nil (c : Char) : encodeChar c ≠ [] := by
  unfold encodeChar
  dsimp only
  split_ifs <;> exact List.cons_ne_nil _ _

/-- The bytes of a smaller character are smaller, whatever follows either. -/
theorem encodeChar_lt (h : c.toNat < d.toNat) (s t : Bytes) :
    encodeChar c ++ s < encodeChar d ++ t := by
  have hc := toNat_lt c
  have hd := toNat_lt d
  -- Where the forms differ the first byte decides, else the first byte that differs.
  unfold encodeChar
  dsimp only
  split_ifs
  all_goals
    simp (disch := omega) only [List.cons_append, List.nil_append, List.cons_lt_cons_iff,
      ofNat_lt_iff, ofNat_eq_iff]
    omega

theorem encode_lt (h : cs < ds) : encode cs < encode ds := by
  induction ds generalizing cs with
  | nil => exact absurd h (List.not_lt_nil cs)
  | cons d ds ih =>
    cases cs with
    | nil =>
      obtain ⟨b, bs, hb⟩ := List.exists_cons_of_ne_nil (encodeChar_ne_nil d)
      rw [encode_nil, encode_cons, hb]
      exact List.nil_lt_cons _ _
    | cons c cs =>
      rw [encode_cons, encode_cons]
      rcases List.cons_lt_cons_iff.1 h with hcd | ⟨rfl, hrest⟩
      · exact encodeChar_lt hcd _ _
      · exact List.append_left_lt (ih hrest)

theorem encode_injective : Function.Injective encode := by
  intro cs ds h
  have hread := congrArg split h
  rw [split_encode, split_encode] at hread
  exact congrArg Prod.fst hread

end Utf8

theorem textBytes_injective : Function.Injective textBytes := by
  intro s t h
  exact String.toList_injective (Utf8.encode_injective h)

/-- Texts are ordered as their bytes are. -/
theorem textBytes_lt_iff {s t : String} : textBytes s < textBytes t ↔ s < t := by
  have hmono {a b : String} (h : a < b) : textBytes a < textBytes b :=
    Utf8.encode_lt (String.lt_iff_toList_lt.1 h)
  constructor
  · intro h
    rcases lt_trichotomy s t with hlt | rfl | hgt
    · exact hlt
    · exact absurd h (List.lt_irrefl _)
    · exact absurd (List.lt_trans h (hmono hgt)) (List.lt_irrefl _)
  · exact hmono

theorem pairwise_mergeSort_texts (texts : List String) :
    (texts.mergeSort fun a b => decide (a ≤ b)).Pairwise (· ≤ ·) := by
  have htrans (a b c : String) (hab : decide (a ≤ b) = true) (hbc : decide (b ≤ c) = true) :
      decide (a ≤ c) = true :=
    decide_eq_true (le_trans (of_decide_eq_true hab) (of_decide_eq_true hbc))
  have htotal (a b : String) : (decide (a ≤ b) || decide (b ≤ a)) = true := by
    simpa using le_total a b
  exact (List.pairwise_mergeSort htrans htotal texts).imp of_decide_eq_true

end PackageAudit
