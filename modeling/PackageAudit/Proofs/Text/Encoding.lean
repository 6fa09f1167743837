import PackageAudit.Proofs.Text.Utf8
import PackageAudit.Text.Encoding

/-!
# Proofs.Text.Encoding — a file is read as the text that it holds

A text can be written into a file in four ways. Reading a file undoes each of them, and nothing but
what one of them writes is read:

* `Utf16.encode`, `Utf16.bytes` — the units of a text, and their bytes in one order or the other;
* `Utf16.decode_eq_some_iff`, `Utf16.units_eq_some_iff` — both are read back;
* `Encoding.Holds` — the four ways to write a text into a file;
* `Encoding.holds_marked_iff`, `Encoding.holds_littleEndian_iff`, `Encoding.holds_bigEndian_iff`,
  `Encoding.holds_plain_iff` — the first bytes of a file leave one of them;
* `Encoding.decode_iff_holds` — reading is their inverse.
-/

namespace PackageAudit

/-! ## UTF-8 -/

namespace Utf8

variable {s : Bytes} {cs : List Char}

theorem encode_of_splitFrom {front : List Char} {text : List Char} {rest : Bytes}
    (h : splitFrom front s = (text, rest)) :
    ∃ more, text = front.reverse ++ more ∧ s = encode more ++ rest := by
  fun_induction splitFrom front s with
  | case1 front s c r hread hle ih =>
    obtain ⟨more, htext, hr⟩ := ih h
    refine ⟨c :: more, ?_, ?_⟩
    · simpa using htext
    · rw [decodeChar_eq_some_iff.1 hread, hr, encode_cons, List.append_assoc]
  | case2 front s hnone =>
    cases h
    exact ⟨[], by simp, by simp⟩

/-- What is read as a text as a whole is the bytes of that text. -/
theorem decode_eq_some_iff : decode s = some cs ↔ s = encode cs := by
  constructor
  · intro h
    unfold decode at h
    split at h
    · next text hsplit =>
      obtain ⟨more, rfl, rfl⟩ := encode_of_splitFrom hsplit
      cases h
      simp
    · cases h
  · rintro rfl
    rw [decode, split_encode]

end Utf8

/-! ## UTF-16 -/

namespace Utf16

/-- The units of a character: its number, or a pair of surrogates. -/
def encodeChar (c : Char) : List Nat :=
  if c.toNat < 0x10000 then [c.toNat]
  else [0xD800 + (c.toNat - 0x10000) / 1024, 0xDC00 + (c.toNat - 0x10000) % 1024]

/-- The units of a text. -/
def encode (cs : List Char) : List Nat :=
  cs.flatMap encodeChar

/-- The two bytes of a unit, the greater part first or last. -/
def unitBytes (bigEndian : Bool) (unit : Nat) : Bytes :=
  if bigEndian then [.ofNat (unit / 256), .ofNat (unit % 256)]
  else [.ofNat (unit % 256), .ofNat (unit / 256)]

/-- The bytes of units. -/
def bytes (bigEndian : Bool) (units : List Nat) : Bytes :=
  units.flatMap (unitBytes bigEndian)

variable {bigEndian : Bool} {s : Bytes} {us : List Nat} {cs front : List Char} {c : Char}

@[simp] theorem encode_nil : encode [] = [] :=
  rfl

@[simp] theorem encode_cons : encode (c :: cs) = encodeChar c ++ encode cs :=
  List.flatMap_cons

/-- A number of a character is no surrogate. -/
theorem not_surrogate (c : Char) : ¬ (0xD800 ≤ c.toNat ∧ c.toNat < 0xE000) := by
  have hvalid : c.toNat.isValidChar := c.valid
  unfold Nat.isValidChar at hvalid
  omega

/-! ### Units as bytes -/

theorem length_unitBytes (bigEndian : Bool) (u : Nat) : (unitBytes bigEndian u).length = 2 := by
  cases bigEndian <;> rfl

@[simp] theorem bytes_nil : bytes bigEndian [] = [] :=
  rfl

@[simp] theorem bytes_cons {u : Nat} :
    bytes bigEndian (u :: us) = unitBytes bigEndian u ++ bytes bigEndian us :=
  List.flatMap_cons

/-- Two bytes are those of one unit. -/
theorem unitBytes_eq_iff {u : Nat} {a b : UInt8} (hu : u < 0x10000) :
    unitBytes bigEndian u = [a, b] ↔
      u = if bigEndian then a.toNat * 256 + b.toNat else b.toNat * 256 + a.toNat := by
  have ha := a.toNat_lt
  have hb := b.toNat_lt
  have hbyte (n : Nat) (x : UInt8) (hn : n < 256) : UInt8.ofNat n = x ↔ n = x.toNat := by
    constructor
    · rintro rfl
      exact (Utf8.toNat_ofNat hn).symm
    · exact Utf8.ofNat_eq
  have hhigh : u / 256 < 256 := by omega
  have hlow : u % 256 < 256 := by omega
  cases bigEndian with
  | true =>
    simp only [unitBytes, if_true, List.cons.injEq, and_true, hbyte _ _ hhigh, hbyte _ _ hlow]
    omega
  | false =>
    simp only [unitBytes, Bool.false_eq_true, if_false, List.cons.injEq, and_true,
      hbyte _ _ hhigh, hbyte _ _ hlow]
    omega

theorem unitsFrom_eq_some_iff {front : List Nat} :
    unitsFrom bigEndian front s = some us ↔
      ∃ more, us = front.reverse ++ more ∧ (∀ u ∈ more, u < 0x10000) ∧ s = bytes bigEndian more := by
  -- Along the bytes, two at a time: `more` are the units of those that are left.
  fun_induction unitsFrom bigEndian front s with
  | case1 front =>
    constructor
    · rintro ⟨⟩
      exact ⟨[], by simp, by simp, rfl⟩
    · rintro ⟨more, rfl, -, hs⟩
      cases more with
      | nil => simp
      | cons u more =>
        have hlength := congrArg List.length hs
        simp [length_unitBytes] at hlength
        omega
  | case2 front a =>
    constructor
    · exact nofun
    · rintro ⟨more, rfl, -, hs⟩
      have hlength := congrArg List.length hs
      cases more with
      | nil => cases hs
      | cons u more =>
        simp [length_unitBytes] at hlength
        omega
  | case3 front a b rest unit ih =>
    have ha := a.toNat_lt
    have hb := b.toNat_lt
    have hunit : unit < 0x10000 := by
      dsimp only [unit]
      split <;> omega
    rw [ih]
    constructor
    · rintro ⟨more, rfl, hmore, rfl⟩
      have hbytes : unitBytes bigEndian unit = [a, b] := (unitBytes_eq_iff hunit).2 rfl
      refine ⟨unit :: more, by simp, List.forall_mem_cons.2 ⟨hunit, hmore⟩, ?_⟩
      rw [bytes_cons, hbytes]
      rfl
    · rintro ⟨more, rfl, hmore, hs⟩
      cases more with
      | nil => cases hs
      | cons u more =>
        rw [List.forall_mem_cons] at hmore
        have hsplit : [a, b] ++ rest = unitBytes bigEndian u ++ bytes bigEndian more := hs
        obtain ⟨hpair, hrest⟩ := List.append_inj hsplit (length_unitBytes bigEndian u).symm
        have hvalue : u = unit := (unitBytes_eq_iff hmore.1).1 hpair.symm
        exact ⟨more, by simp [hvalue], hmore.2, hrest⟩

/-- Bytes are read as units where they are the bytes of these units. -/
theorem units_eq_some_iff :
    units bigEndian s = some us ↔ (∀ u ∈ us, u < 0x10000) ∧ s = bytes bigEndian us := by
  rw [units, unitsFrom_eq_some_iff]
  constructor
  · rintro ⟨more, rfl, h⟩
    exact h
  · intro h
    exact ⟨us, rfl, h⟩

/-! ### Texts as units -/

theorem encodeChar_lt (c : Char) : ∀ u ∈ encodeChar c, u < 0x10000 := by
  have hlt := Utf8.toNat_lt c
  intro u hu
  unfold encodeChar at hu
  split at hu
  · simp at hu
    omega
  · simp at hu
    omega

theorem encode_lt (cs : List Char) : ∀ u ∈ encode cs, u < 0x10000 := by
  intro u hu
  obtain ⟨c, -, hc⟩ := List.mem_flatMap.1 hu
  exact encodeChar_lt c u hc

/-- A character that is one unit is read as the character with that number. -/
theorem encodeChar_of_scalar? {u : Nat} (h : Utf8.scalar? u = some c) (hu : u < 0x10000) :
    encodeChar c = [u] := by
  have hc := Utf8.scalar?_eq_some_iff.1 h
  rw [encodeChar, if_pos (by omega), hc]

/-- A pair of surrogates is the units of the character past U+FFFF that it stands for. -/
theorem pair?_eq_some_iff {high low : Nat} :
    pair? high low = some c ↔ 0x10000 ≤ c.toNat ∧ encodeChar c = [high, low] := by
  have hlt := Utf8.toNat_lt c
  unfold pair? encodeChar
  split
  · rw [Utf8.scalar?_eq_some_iff]
    split
    · omega
    · simp only [List.cons.injEq, and_true]
      omega
  · refine iff_of_false nofun ?_
    rintro ⟨hlong, h⟩
    rw [if_neg (Nat.not_lt.2 hlong)] at h
    simp only [List.cons.injEq, and_true] at h
    omega

theorem encode_of_decodeFrom (hus : ∀ u ∈ us, u < 0x10000) (h : decodeFrom front us = some cs) :
    ∃ more, cs = front.reverse ++ more ∧ us = encode more := by
  fun_induction decodeFrom front us with
  | case1 front =>
    cases h
    exact ⟨[], by simp, rfl⟩
  | case2 front u =>
    obtain ⟨c, hc, rfl⟩ := Option.map_eq_some_iff.1 h
    have hchar := encodeChar_of_scalar? hc (hus u List.mem_cons_self)
    exact ⟨[c], by simp, by simp [hchar]⟩
  | case3 front u next rest c hc ih =>
    rw [List.forall_mem_cons] at hus
    obtain ⟨more, rfl, hmore⟩ := ih hus.2 h
    have hchar := encodeChar_of_scalar? hc hus.1
    exact ⟨c :: more, by simp, by simp [hchar, hmore]⟩
  | case4 front u next rest hnone c hc ih =>
    obtain ⟨more, rfl, hmore⟩ := ih (fun v hv => hus v (by simp [hv])) h
    have hchar := (pair?_eq_some_iff.1 hc).2
    exact ⟨c :: more, by simp, by simp [hchar, hmore]⟩
  | case5 => cases h

theorem decodeFrom_encode (front cs : List Char) :
    decodeFrom front (encode cs) = some (front.reverse ++ cs) := by
  induction cs generalizing front with
  | nil => simp [decodeFrom]
  | cons c cs ih =>
    have hscalar : Utf8.scalar? c.toNat = some c := Utf8.scalar?_eq_some_iff.2 rfl
    have hcs : decodeFrom (c :: front) (encode cs) = some (front.reverse ++ c :: cs) := by
      simpa using ih (c :: front)
    by_cases hlong : 0x10000 ≤ c.toNat
    · obtain ⟨high, low, hchar⟩ : ∃ high low, encodeChar c = [high, low] :=
        ⟨_, _, if_neg (Nat.not_lt.2 hlong)⟩
      have hpair := pair?_eq_some_iff.2 ⟨hlong, hchar⟩
      -- the first half of a pair is no character
      have hhigh : Utf8.scalar? high = none := by
        cases hsome : Utf8.scalar? high with
        | none => rfl
        | some d =>
          have hd := Utf8.scalar?_eq_some_iff.1 hsome
          have hvalid := not_surrogate d
          unfold pair? at hpair
          split at hpair
          · omega
          · cases hpair
      simp [encode_cons, hchar, decodeFrom, hhigh, hpair, hcs]
    · have hchar : encodeChar c = [c.toNat] := if_pos (Nat.lt_of_not_le hlong)
      rw [encode_cons, hchar]
      cases hrest : encode cs with
      | nil =>
        rw [hrest] at hcs
        simpa [decodeFrom, hscalar] using hcs
      | cons u us =>
        rw [hrest] at hcs
        simpa [decodeFrom, hscalar] using hcs

/-- Units are read as a text where they are the units of that text. -/
theorem decode_eq_some_iff (hus : ∀ u ∈ us, u < 0x10000) :
    decode us = some cs ↔ us = encode cs := by
  constructor
  · intro h
    obtain ⟨more, rfl, hmore⟩ := encode_of_decodeFrom hus h
    exact hmore
  · rintro rfl
    exact decodeFrom_encode [] cs

/-- Bytes are read as a text where they are the bytes of its units. -/
theorem units_bind_decode_iff :
    (units bigEndian s).bind decode = some cs ↔ s = bytes bigEndian (encode cs) := by
  rw [Option.bind_eq_some_iff]
  constructor
  · rintro ⟨us, hunits, htext⟩
    obtain ⟨hus, rfl⟩ := units_eq_some_iff.1 hunits
    rw [(decode_eq_some_iff hus).1 htext]
  · rintro rfl
    have hlt := encode_lt cs
    exact ⟨encode cs, units_eq_some_iff.2 ⟨hlt, rfl⟩, (decode_eq_some_iff hlt).2 rfl⟩

end Utf16

/-! ## Files -/

namespace Encoding

/-- The ways to write a text into a file: behind one of three marks, or as it is. -/
inductive Holds : Bytes → List Char → Prop where
  | marked (text : List Char) : Holds (0xEF :: 0xBB :: 0xBF :: Utf8.encode text) text
  | littleEndian (text : List Char) :
      Holds (0xFF :: 0xFE :: Utf16.bytes false (Utf16.encode text)) text
  | bigEndian (text : List Char) :
      Holds (0xFE :: 0xFF :: Utf16.bytes true (Utf16.encode text)) text
  /-- A text that begins with the mark itself needs another mark in front. -/
  | plain (text : List Char) (unmarked : text.head? ≠ some '\uFEFF') :
      Holds (Utf8.encode text) text

variable {s rest : Bytes} {text : List Char}

/-- The mark of UTF-8 is the first character of a text. -/
theorem head?_of_encode (h : Utf8.encode text = 0xEF :: 0xBB :: 0xBF :: rest) :
    text.head? = some '\uFEFF' := by
  have hmark : Utf8.encodeChar '\uFEFF' = [0xEF, 0xBB, 0xBF] := by decide
  have hread : Utf8.decodeChar (Utf8.encode text) = some ('\uFEFF', rest) := by
    rw [Utf8.decodeChar_eq_some_iff, hmark, h]
    rfl
  cases text with
  | nil => cases h
  | cons c text =>
    have hfirst : Utf8.decodeChar (Utf8.encode (c :: text)) = some (c, Utf8.encode text) := by
      rw [Utf8.decodeChar_eq_some_iff, Utf8.encode_cons]
    cases hread.symm.trans hfirst
    rfl

/-- No character begins with a byte from 0xF5 on. -/
theorem head_encode_lt {b : UInt8} (h : Utf8.encode text = b :: rest) : b.toNat < 0xF5 := by
  cases text with
  | nil => cases h
  | cons c text =>
    have hlt := Utf8.toNat_lt c
    rw [Utf8.encode_cons] at h
    generalize hbs : Utf8.encodeChar c = bs at h
    cases hbs ▸ Utf8.spells_encodeChar c with
    | one ha hc =>
      cases h
      omega
    | two ha ha' hb hc =>
      cases h
      omega
    | three ha ha' hb hd hc hlong =>
      cases h
      omega
    | four ha hb hd he hc hlong =>
      cases h
      omega

/-! A file that begins with a mark holds a text in one way only: no text begins with a mark for UTF-16,
and none that is written without a mark begins with that of UTF-8. -/

theorem holds_marked_iff :
    Holds (0xEF :: 0xBB :: 0xBF :: rest) text ↔ rest = Utf8.encode text := by
  constructor
  · intro h
    generalize hs : (0xEF :: 0xBB :: 0xBF :: rest : Bytes) = s at h
    cases h with
    | marked => simpa using hs
    | littleEndian => cases hs
    | bigEndian => cases hs
    | plain _ hunmarked => exact absurd (head?_of_encode hs.symm) hunmarked
  · rintro rfl
    exact .marked text

theorem holds_littleEndian_iff :
    Holds (0xFF :: 0xFE :: rest) text ↔ rest = Utf16.bytes false (Utf16.encode text) := by
  constructor
  · intro h
    generalize hs : (0xFF :: 0xFE :: rest : Bytes) = s at h
    cases h with
    | marked => cases hs
    | littleEndian => simpa using hs
    | bigEndian => cases hs
    | plain _ hunmarked => exact absurd (head_encode_lt hs.symm) (by decide)
  · rintro rfl
    exact .littleEndian text

theorem holds_bigEndian_iff :
    Holds (0xFE :: 0xFF :: rest) text ↔ rest = Utf16.bytes true (Utf16.encode text) := by
  constructor
  · intro h
    generalize hs : (0xFE :: 0xFF :: rest : Bytes) = s at h
    cases h with
    | marked => cases hs
    | littleEndian => cases hs
    | bigEndian => simpa using hs
    | plain _ hunmarked => exact absurd (head_encode_lt hs.symm) (by decide)
  · rintro rfl
    exact .bigEndian text

/-- A file that begins with none of the marks holds a text as it is. -/
theorem holds_plain_iff (hmarked : ∀ rest, s ≠ 0xEF :: 0xBB :: 0xBF :: rest)
    (hlittle : ∀ rest, s ≠ 0xFF :: 0xFE :: rest) (hbig : ∀ rest, s ≠ 0xFE :: 0xFF :: rest) :
    Holds s text ↔ s = Utf8.encode text := by
  constructor
  · intro h
    cases h with
    | marked => exact absurd rfl (hmarked _)
    | littleEndian => exact absurd rfl (hlittle _)
    | bigEndian => exact absurd rfl (hbig _)
    | plain => rfl
  · rintro rfl
    refine .plain text fun hfirst => ?_
    obtain ⟨more, rfl⟩ : ∃ more, text = '\uFEFF' :: more := List.head?_eq_some_iff.1 hfirst
    exact hmarked (Utf8.encode more) rfl

/--
A file is read as a text where the text is written into it in one of the four ways, and nothing is
read from any other file.
-/
theorem decode_iff_holds (s : Bytes) :
    (∀ text, decode s = some text ↔ Holds s text) ∧ (decode s = none ↔ ¬ ∃ text, Holds s text) := by
  have hiff : ∀ text, decode s = some text ↔ Holds s text := by
    intro text
    unfold decode
    split
    · next rest => rw [Utf8.decode_eq_some_iff, holds_marked_iff]
    · next rest => rw [Utf16.units_bind_decode_iff, holds_littleEndian_iff]
    · next rest => rw [Utf16.units_bind_decode_iff, holds_bigEndian_iff]
    · next hmarked hlittle hbig =>
      rw [Utf8.decode_eq_some_iff, holds_plain_iff hmarked hlittle hbig]
  refine ⟨hiff, ?_⟩
  cases hread : decode s with
  | none =>
    refine iff_of_true rfl fun ⟨text, htext⟩ => ?_
    cases hread.symm.trans ((hiff text).2 htext)
  | some text => exact iff_of_false nofun fun hnone => hnone ⟨text, (hiff text).1 hread⟩

end Encoding

end PackageAudit
