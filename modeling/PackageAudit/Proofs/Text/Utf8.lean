import Mathlib.Data.List.Basic
import PackageAudit.Text.Utf8

/-!
# Proofs.Text.Utf8 — reading and writing characters are inverse

* `Utf8.Spells` — the byte sequences of a character, one form for each number of bytes;
* `Utf8.decodeChar_eq_some_iff` — a character is read exactly where its bytes stand;
* `Utf8.split_encode` — the bytes of a text are read as that text, and nothing is left;
* `Utf8.exists_front`, `Utf8.split_append` — where an input stops being a text.
-/

namespace PackageAudit

namespace Utf8

/-! ## Numbers of characters and bytes -/

section Numbers

variable {b : UInt8} {c : Char} {n : Nat} {r t : Bytes}

theorem scalar?_eq_some_iff : scalar? n = some c ↔ c.toNat = n := by
  unfold scalar?
  constructor
  · intro h
    by_cases hvalid : n.isValidChar
    · rw [dif_pos hvalid] at h
      cases h
      rfl
    · rw [dif_neg hvalid] at h
      cases h
  · rintro rfl
    have hvalid : c.toNat.isValidChar := c.valid
    rw [dif_pos hvalid]
    rfl

theorem map_scalar?_eq_some_iff :
    (scalar? n).map (·, t) = some (c, r) ↔ c.toNat = n ∧ t = r := by
  rw [Option.map_eq_some_iff]
  constructor
  · rintro ⟨c', hc, h⟩
    cases h
    exact ⟨scalar?_eq_some_iff.1 hc, rfl⟩
  · rintro ⟨hc, rfl⟩
    exact ⟨c, scalar?_eq_some_iff.2 hc, rfl⟩

theorem toNat_lt (c : Char) : c.toNat < 0x110000 := by
  have hvalid : c.toNat.isValidChar := c.valid
  unfold Nat.isValidChar at hvalid
  omega

theorem isTail_iff : isTail b = true ↔ 0x80 ≤ b.toNat ∧ b.toNat ≤ 0xBF := by
  rw [isTail, Bool.and_eq_true, decide_eq_true_eq, decide_eq_true_eq]
  exact Iff.rfl

theorem ofNat_eq (h : n = b.toNat) : UInt8.ofNat n = b := by
  rw [h, UInt8.ofNat_toNat]

theorem toNat_ofNat (h : n < 256) : (UInt8.ofNat n).toNat = n := by
  rw [UInt8.toNat_ofNat', Nat.mod_eq_of_lt h]

theorem isTail_ofNat (n : Nat) : isTail (UInt8.ofNat (0x80 + n % 64)) = true := by
  rw [isTail_iff, toNat_ofNat (by omega)]
  omega

theorem tailValue_ofNat (n : Nat) : tailValue (UInt8.ofNat (0x80 + n % 64)) = n % 64 := by
  have hn : (UInt8.ofNat (0x80 + n % 64)).toNat = 0x80 + n % 64 := toNat_ofNat (by omega)
  unfold tailValue
  rw [hn, Nat.add_sub_cancel_left]

end Numbers

/-! ## One character -/

/-- The bytes of a character. No form longer than needed counts. -/
inductive Spells : Bytes → Char → Prop where
  | one {a : UInt8} {c : Char} (ha : a.toNat < 0x80) (hc : c.toNat = a.toNat) : Spells [a] c
  | two {a b : UInt8} {c : Char} (ha : 0xC2 ≤ a.toNat) (ha' : a.toNat < 0xE0)
      (hb : isTail b = true) (hc : c.toNat = (a.toNat - 0xC0) * 64 + tailValue b) :
      Spells [a, b] c
  | three {a b d : UInt8} {c : Char} (ha : 0xE0 ≤ a.toNat) (ha' : a.toNat < 0xF0)
      (hb : isTail b = true) (hd : isTail d = true)
      (hc : c.toNat = ((a.toNat - 0xE0) * 64 + tailValue b) * 64 + tailValue d)
      (hlong : 0x800 ≤ c.toNat) : Spells [a, b, d] c
  | four {a b d e : UInt8} {c : Char} (ha : 0xF0 ≤ a.toNat)
      (hb : isTail b = true) (hd : isTail d = true) (he : isTail e = true)
      (hc : c.toNat =
        (((a.toNat - 0xF0) * 64 + tailValue b) * 64 + tailValue d) * 64 + tailValue e)
      (hlong : 0x10000 ≤ c.toNat) : Spells [a, b, d, e] c

theorem spells_encodeChar (c : Char) : Spells (encodeChar c) c := by
  have hlt := toNat_lt c
  unfold encodeChar
  dsimp only
  split_ifs with h₁ h₂ h₃
  · have ha := toNat_ofNat (by omega : c.toNat < 256)
    exact .one (by omega) (by omega)
  · have ha := toNat_ofNat (by omega : 0xC0 + c.toNat / 64 < 256)
    refine .two (by omega) (by omega) (isTail_ofNat _) ?_
    rw [tailValue_ofNat, ha]
    omega
  · have ha := toNat_ofNat (by omega : 0xE0 + c.toNat / 4096 < 256)
    refine .three (by omega) (by omega) (isTail_ofNat _) (isTail_ofNat _) ?_ (by omega)
    rw [tailValue_ofNat, tailValue_ofNat, ha]
    omega
  · have ha := toNat_ofNat (by omega : 0xF0 + c.toNat / 262144 < 256)
    refine .four (by omega) (isTail_ofNat _) (isTail_ofNat _) (isTail_ofNat _) ?_ (by omega)
    rw [tailValue_ofNat, tailValue_ofNat, tailValue_ofNat, ha]
    omega

theorem encodeChar_eq_of_spells {bs : Bytes} {c : Char} (h : Spells bs c) :
    encodeChar c = bs := by
  have hlt := toNat_lt c
  unfold encodeChar
  dsimp only
  -- the number of the character determines its form and each of its bytes
  cases h with
  | @one a _ ha hc =>
    rw [if_pos (by omega), ofNat_eq (b := a) (by omega)]
  | @two a b _ ha ha' hb hc =>
    rw [isTail_iff] at hb
    unfold tailValue at hc
    rw [if_neg (by omega), if_pos (by omega), ofNat_eq (b := a) (by omega),
      ofNat_eq (b := b) (by omega)]
  | @three a b d _ ha ha' hb hd hc hlong =>
    rw [isTail_iff] at hb hd
    unfold tailValue at hc
    rw [if_neg (by omega), if_neg (by omega), if_pos (by omega),
      ofNat_eq (b := a) (by omega), ofNat_eq (b := b) (by omega),
      ofNat_eq (b := d) (by omega)]
  | @four a b d e _ ha hb hd he hc hlong =>
    have := a.toNat_lt
    rw [isTail_iff] at hb hd he
    unfold tailValue at hc
    rw [if_neg (by omega), if_neg (by omega), if_neg (by omega),
      ofNat_eq (b := a) (by omega), ofNat_eq (b := b) (by omega),
      ofNat_eq (b := d) (by omega), ofNat_eq (b := e) (by omega)]

theorem decodeChar_eq_of_spells {bs : Bytes} {c : Char} (h : Spells bs c) (r : Bytes) :
    decodeChar (bs ++ r) = some (c, r) := by
  have hlt := toNat_lt c
  have below {x y : UInt8} (h : y.toNat ≤ x.toNat) : ¬ x < y := Nat.not_lt.2 h
  cases h with
  | @one a _ ha hc =>
    simp only [List.cons_append, List.nil_append, decodeChar]
    rw [if_pos (show a < 0x80 from ha), map_scalar?_eq_some_iff]
    exact ⟨hc, rfl⟩
  | @two a b _ ha ha' hb hc =>
    simp only [List.cons_append, List.nil_append, decodeChar]
    rw [if_neg (below (Nat.le_trans (by decide) ha)), if_neg (show ¬ a < 0xC2 from below ha),
      if_pos (show a < 0xE0 from ha'), if_pos hb, map_scalar?_eq_some_iff]
    exact ⟨hc, rfl⟩
  | @three a b d _ ha ha' hb hd hc hlong =>
    simp only [List.cons_append, List.nil_append, decodeChar]
    rw [if_neg (below (Nat.le_trans (by decide) ha)), if_neg (below (Nat.le_trans (by decide) ha)),
      if_neg (show ¬ a < 0xE0 from below ha), if_pos (show a < 0xF0 from ha'), ← hc, hb, hd,
      decide_eq_true hlong]
    exact map_scalar?_eq_some_iff.2 ⟨rfl, rfl⟩
  | @four a b d e _ ha hb hd he hc hlong =>
    have ha' : a.toNat < 0xF5 := by omega
    simp only [List.cons_append, List.nil_append, decodeChar]
    rw [if_neg (below (Nat.le_trans (by decide) ha)), if_neg (below (Nat.le_trans (by decide) ha)),
      if_neg (below (Nat.le_trans (by decide) ha)), if_neg (show ¬ a < 0xF0 from below ha),
      if_pos (show a < 0xF5 from ha'), ← hc, hb, hd, he, decide_eq_true hlong]
    exact map_scalar?_eq_some_iff.2 ⟨rfl, rfl⟩

theorem spells_of_decodeChar {s r : Bytes} {c : Char} (h : decodeChar s = some (c, r)) :
    ∃ bs, Spells bs c ∧ s = bs ++ r := by
  unfold decodeChar at h
  split at h
  · cases h
  next a rest =>
  split_ifs at h with h₁ h₂ h₃ h₄ h₅
  · obtain ⟨hc, rfl⟩ := map_scalar?_eq_some_iff.1 h
    exact ⟨[a], .one h₁ hc, rfl⟩
  · split at h
    · next b rest =>
      split_ifs at h with hb
      obtain ⟨hc, rfl⟩ := map_scalar?_eq_some_iff.1 h
      exact ⟨[a, b], .two (Nat.le_of_not_lt h₂) h₃ hb hc, rfl⟩
    · cases h
  · split at h
    · next b d rest =>
      dsimp only at h
      split_ifs at h with hb
      obtain ⟨hc, rfl⟩ := map_scalar?_eq_some_iff.1 h
      simp only [Bool.and_eq_true, decide_eq_true_eq] at hb
      exact ⟨[a, b, d], .three (Nat.le_of_not_lt h₃) h₄ hb.1.1 hb.1.2 hc (hc ▸ hb.2), rfl⟩
    · cases h
  · split at h
    · next b d e rest =>
      dsimp only at h
      split_ifs at h with hb
      obtain ⟨hc, rfl⟩ := map_scalar?_eq_some_iff.1 h
      simp only [Bool.and_eq_true, decide_eq_true_eq] at hb
      exact ⟨[a, b, d, e],
        .four (Nat.le_of_not_lt h₄) hb.1.1.1 hb.1.1.2 hb.1.2 hc (hc ▸ hb.2), rfl⟩
    · cases h

/-- A character is read exactly where its bytes stand. -/
theorem decodeChar_eq_some_iff {s r : Bytes} {c : Char} :
    decodeChar s = some (c, r) ↔ s = encodeChar c ++ r := by
  constructor
  · intro h
    obtain ⟨bs, hbs, rfl⟩ := spells_of_decodeChar h
    rw [encodeChar_eq_of_spells hbs]
  · rintro rfl
    exact decodeChar_eq_of_spells (spells_encodeChar c) r

/-- The characters below U+0080 are bytes of their own. -/
theorem encodeChar_of_lt {c : Char} (h : c.toNat < 0x80) :
    encodeChar c = [UInt8.ofNat c.toNat] := by
  unfold encodeChar
  rw [if_pos h]

/-- A character below U+0080 is its first byte; the first byte of any other is not below 0x80. -/
theorem head_encodeChar {c : Char} {a : UInt8} {s r : Bytes} (h : a :: s = encodeChar c ++ r) :
    (a.toNat = c.toNat ∧ a.toNat < 0x80) ∨ (0x80 ≤ a.toNat ∧ 0x80 ≤ c.toNat) := by
  generalize hbs : encodeChar c = bs at h
  cases hbs ▸ spells_encodeChar c with
  | one ha hc =>
    cases h
    exact .inl ⟨hc.symm, ha⟩
  | two ha ha' hb hc =>
    cases h
    rw [isTail_iff] at hb
    unfold tailValue at hc
    omega
  | three ha ha' hb hd hc hlong =>
    cases h
    omega
  | four ha hb hd he hc hlong =>
    cases h
    omega

/-- A byte below 0x80 is the only one of its character. -/
theorem encodeChar_of_mem {b : UInt8} {c : Char} (hb : b.toNat < 0x80) (h : b ∈ encodeChar c) :
    encodeChar c = [b] ∧ c.toNat = b.toNat := by
  have hnot {a : UInt8} (ha : 0x80 ≤ a.toNat) : b ≠ a := by
    rintro rfl
    exact absurd hb (Nat.not_lt.2 ha)
  have htail {a : UInt8} (ha : isTail a = true) : b ≠ a := hnot (isTail_iff.1 ha).1
  generalize hbs : encodeChar c = bs at h
  cases hbs ▸ spells_encodeChar c with
  | one ha hc =>
    obtain rfl := List.mem_singleton.1 h
    exact ⟨rfl, hc⟩
  | two ha ha' hb' hc =>
    simp only [List.mem_cons, List.not_mem_nil, or_false] at h
    rcases h with h | h
    · exact absurd h (hnot (by omega))
    · exact absurd h (htail hb')
  | three ha ha' hb' hd hc hlong =>
    simp only [List.mem_cons, List.not_mem_nil, or_false] at h
    rcases h with h | h | h
    · exact absurd h (hnot (by omega))
    · exact absurd h (htail hb')
    · exact absurd h (htail hd)
  | four ha hb' hd he hc hlong =>
    simp only [List.mem_cons, List.not_mem_nil, or_false] at h
    rcases h with h | h | h | h
    · exact absurd h (hnot (by omega))
    · exact absurd h (htail hb')
    · exact absurd h (htail hd)
    · exact absurd h (htail he)

/-! ## Texts -/

section Texts

variable {c : Char} {cs : List Char}

@[simp] theorem encode_nil : encode [] = [] :=
  rfl

@[simp] theorem encode_cons : encode (c :: cs) = encodeChar c ++ encode cs :=
  List.flatMap_cons

@[simp] theorem encode_append (cs ds : List Char) : encode (cs ++ ds) = encode cs ++ encode ds :=
  List.flatMap_append

/-- The characters in front are read, up to where there is none. -/
theorem splitFrom_append {rest : Bytes} (front cs : List Char) (h : decodeChar rest = none) :
    splitFrom front (encode cs ++ rest) = (front.reverse ++ cs, rest) := by
  induction cs generalizing front with
  | nil =>
    rw [encode_nil, List.nil_append, splitFrom]
    split
    · next hread => cases h.symm.trans hread
    · rw [List.append_nil]
  | cons c cs ih =>
    have hread : decodeChar (encode (c :: cs) ++ rest) = some (c, encode cs ++ rest) := by
      rw [encode_cons, List.append_assoc, decodeChar_eq_some_iff]
    rw [splitFrom]
    split
    · next h =>
      cases hread.symm.trans h
      rw [ih, List.reverse_cons, List.append_assoc]
      rfl
    · next h => cases hread.symm.trans h

theorem split_append {rest : Bytes} (cs : List Char) (h : decodeChar rest = none) :
    split (encode cs ++ rest) = (cs, rest) :=
  splitFrom_append [] cs h

/-- Every input is a text, and bytes behind it at which no character stands. -/
theorem exists_front (s : Bytes) : ∃ cs rest, s = encode cs ++ rest ∧ decodeChar rest = none := by
  induction hlength : s.length using Nat.strongRecOn generalizing s with
  | ind n ih =>
  cases hread : decodeChar s with
  | none => exact ⟨[], s, rfl, hread⟩
  | some p =>
    obtain ⟨c, r⟩ := p
    obtain ⟨cs, rest, rfl, hrest⟩ := ih _ (hlength ▸ length_lt_of_decodeChar hread) r rfl
    refine ⟨c :: cs, rest, ?_, hrest⟩
    rw [decodeChar_eq_some_iff.1 hread, encode_cons, List.append_assoc]

theorem split_encode (cs : List Char) : split (encode cs) = (cs, []) := by
  have h : decodeChar [] = none := rfl
  rw [← split_append cs h, List.append_nil]

theorem lossyFrom_of_splitFrom {front : List Char} {s : Bytes}
    (h : splitFrom front s = (cs, [])) : lossyFrom front s = cs := by
  fun_induction splitFrom front s with
  | case1 front s c r hread hle ih =>
    rw [lossyFrom]
    split
    · next h' =>
      cases hread.symm.trans h'
      exact ih h
    · next h' => cases hread.symm.trans h'
  | case2 front s hnone =>
    cases h
    rw [lossyFrom]
    split
    · next h' => cases h'
    · rfl

/-- Nothing is lost of a text that is well formed. -/
theorem decodeLossy_of_split {s : Bytes} (h : split s = (cs, [])) : decodeLossy s = cs :=
  lossyFrom_of_splitFrom h

end Texts

end Utf8

/-! ## Strings -/

@[simp] theorem textBytes_append (s t : String) :
    textBytes (s ++ t) = textBytes s ++ textBytes t := by
  rw [textBytes, String.toList_append, Utf8.encode_append]
  rfl

theorem decode_textBytes (text : String) : Utf8.decode (textBytes text) = some text.toList := by
  rw [Utf8.decode, textBytes, Utf8.split_encode]

end PackageAudit
