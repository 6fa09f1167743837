import PackageAudit.Document.Json.Text
import PackageAudit.Proofs.Document.Json.Number
import PackageAudit.Proofs.Text.Utf8

/-!
# Proofs.Document.Json.Text — strings are read as the grammar spells them

* `Json.readUnit_iff`, `Json.readNumbered_iff`, `Json.readEscape_iff`, `Json.readPlain_iff` — the
  parts of a string;
* `Json.readText_iff` — the strict reader finds a string exactly where its characters and a closing
  quote stand.

No spelling of a character begins another one, so these hold whatever follows.
-/

namespace PackageAudit

namespace Json

variable {b : UInt8} {c : Char} {n : Nat} {s rest : Bytes}

theorem ok_bind {α β ε : Type} {a : α} {f : α → Except ε β} : (Except.ok a >>= f) = f a :=
  rfl

/-! ## Numbered escapes -/

theorem hexDigit_iff :
    HexDigit n b ↔
      (48 ≤ b.toNat ∧ b.toNat ≤ 57 ∧ b.toNat - 48 = n) ∨
      (97 ≤ b.toNat ∧ b.toNat ≤ 102 ∧ b.toNat - 97 + 10 = n) ∨
      (65 ≤ b.toNat ∧ b.toNat ≤ 70 ∧ b.toNat - 65 + 10 = n) := by
  constructor
  · have hbyte {k l : Nat} (h : k + l < 256) : (UInt8.ofNat (k + l)).toNat = k + l :=
      Utf8.toNat_ofNat h
    rintro (hn | @⟨m, hm⟩ | @⟨m, hm⟩)
    · rw [hbyte (k := '0'.toNat) (show 48 + n < 256 by omega)]
      exact .inl ⟨Nat.le_add_right .., Nat.add_le_add_left (Nat.le_of_lt_succ hn) 48,
        Nat.add_sub_cancel_left ..⟩
    · rw [hbyte (k := 'a'.toNat) (show 97 + m < 256 by omega)]
      refine .inr (.inl ⟨Nat.le_add_right .., Nat.add_le_add_left (Nat.le_of_lt_succ hm) 97, ?_⟩)
      rw [Nat.add_comm 10]
      exact congrArg (· + 10) (Nat.add_sub_cancel_left ..)
    · rw [hbyte (k := 'A'.toNat) (show 65 + m < 256 by omega)]
      refine .inr (.inr ⟨Nat.le_add_right .., Nat.add_le_add_left (Nat.le_of_lt_succ hm) 65, ?_⟩)
      rw [Nat.add_comm 10]
      exact congrArg (· + 10) (Nat.add_sub_cancel_left ..)
  · rintro (⟨hlow, hhigh, rfl⟩ | ⟨hlow, hhigh, rfl⟩ | ⟨hlow, hhigh, rfl⟩)
    · have h : HexDigit (b.toNat - 48) (.ofNat (48 + (b.toNat - 48))) := .decimal (by omega)
      rwa [Utf8.ofNat_eq (b := b) (by omega)] at h
    · have h : HexDigit (10 + (b.toNat - 97)) (.ofNat (97 + (b.toNat - 97))) := .lower (by omega)
      rwa [Utf8.ofNat_eq (b := b) (by omega), Nat.add_comm] at h
    · have h : HexDigit (10 + (b.toNat - 65)) (.ofNat (65 + (b.toNat - 65))) := .upper (by omega)
      rwa [Utf8.ofNat_eq (b := b) (by omega), Nat.add_comm] at h

theorem hexValue?_eq (b : UInt8) :
    hexValue? b =
      if 48 ≤ b.toNat ∧ b.toNat ≤ 57 then some (b.toNat - 48)
      else if 97 ≤ b.toNat ∧ b.toNat ≤ 102 then some (b.toNat - 97 + 10)
      else if 65 ≤ b.toNat ∧ b.toNat ≤ 70 then some (b.toNat - 65 + 10)
      else none := by
  have hdigit : (Char.ofUInt8 b).isDigit = true ↔ 48 ≤ b.toNat ∧ b.toNat ≤ 57 := isDigit_iff
  exact if_congr hdigit rfl rfl

theorem hexValue?_iff : hexValue? b = some n ↔ HexDigit n b := by
  rw [hexDigit_iff, hexValue?_eq]
  split_ifs <;> simp <;> omega

theorem hexUnit?_iff {p q u v : UInt8} : hexUnit? p q u v = some n ↔ HexUnit n [p, q, u, v] := by
  simp only [hexUnit?, Option.bind_eq_bind, Option.bind_eq_some_iff, hexValue?_iff]
  constructor
  · rintro ⟨i, hi, j, hj, k, hk, l, hl, ⟨⟩⟩
    exact .mk hi hj hk hl
  · rintro ⟨hi, hj, hk, hl⟩
    exact ⟨_, hi, _, hj, _, hk, _, hl, rfl⟩

theorem readUnit_iff (start : Bytes) :
    Yields (readUnit start s) n rest ↔ ∃ ds, HexUnit n ds ∧ s = ds ++ rest := by
  unfold readUnit
  constructor
  · intro h
    split at h
    · next p q u v rest' =>
      split at h
      · next m hunit =>
        obtain ⟨rfl, rfl⟩ := yields_ok.1 h
        exact ⟨_, hexUnit?_iff.1 hunit, rfl⟩
      · exact absurd h not_yields_error
    · exact absurd h not_yields_error
  · rintro ⟨ds, hds, rfl⟩
    cases hds with
    | mk ha hb hc hd =>
      have hunit := hexUnit?_iff.2 (.mk ha hb hc hd)
      simp only [List.cons_append, List.nil_append, hunit]
      exact yields_ok.2 ⟨rfl, rfl⟩

theorem afterNumbered?_iff : afterNumbered? s = some rest ↔ s = escape 'u' rest := by
  unfold afterNumbered?
  rw [Option.bind_eq_some_iff]
  constructor
  · rintro ⟨t, ht, hrest⟩
    rw [eq_cons_of_after? (by decide) ht, eq_cons_of_after? (by decide) hrest]
    rfl
  · rintro rfl
    exact ⟨'u'.toUInt8 :: rest, after?_cons (by decide), after?_cons (by decide)⟩

/-- What follows the letter of a numbered escape, the second escape of a pair included. -/
inductive Numbered : Char → Bytes → Prop where
  | unit {c : Char} {ds : Bytes} (h : HexUnit c.toNat ds) : Numbered c ds
  | pair {c : Char} {high low : Nat} {ds es : Bytes} (hds : HexUnit high ds)
      (hes : HexUnit low es) (hhigh : isHighSurrogate high = true)
      (hlow : isLowSurrogate low = true) (hc : c.toNat = pairValue high low) :
      Numbered c (ds ++ escape 'u' es)

theorem isHighSurrogate_iff : isHighSurrogate n = true ↔ 0xD800 ≤ n ∧ n ≤ 0xDBFF := by
  rw [isHighSurrogate, Bool.and_eq_true, decide_eq_true_eq, decide_eq_true_eq]

theorem isLowSurrogate_iff : isLowSurrogate n = true ↔ 0xDC00 ≤ n ∧ n ≤ 0xDFFF := by
  rw [isLowSurrogate, Bool.and_eq_true, decide_eq_true_eq, decide_eq_true_eq]

theorem not_isHighSurrogate_toNat (c : Char) : ¬ isHighSurrogate c.toNat = true := by
  have hvalid : c.toNat.isValidChar := c.valid
  unfold Nat.isValidChar at hvalid
  rw [isHighSurrogate_iff]
  omega

/--
The readers match on what follows a mark and keep the equation, for the length of the rest. Here
the two branches are told apart without unfolding them.
-/
theorem match_after {β : Type} (m : Bytes → Option Bytes) {P : β → Prop}
    {found : ∀ more, m s = some more → β} {missing : m s = none → β} :
    P (match h : m s with
      | some more => found more h
      | none => missing h) ↔
      (∃ more, ∃ h : m s = some more, P (found more h)) ∨ (∃ h : m s = none, P (missing h)) := by
  split
  · next more hmore =>
    constructor
    · exact fun h => .inl ⟨more, hmore, h⟩
    · rintro (⟨more', hmore', h⟩ | ⟨hnone, h⟩)
      · cases hmore.symm.trans hmore'
        exact h
      · cases hmore.symm.trans hnone
  · next hnone =>
    constructor
    · exact fun h => .inr ⟨hnone, h⟩
    · rintro (⟨more', hmore', h⟩ | ⟨hnone, h⟩)
      · cases hnone.symm.trans hmore'
      · exact h

theorem numbered_of_readNumbered {start : Bytes} {h : s.length < start.length}
    (hread : Yields (readNumbered .strict start s h) c rest) :
    ∃ bs, Numbered c bs ∧ s = bs ++ rest := by
  obtain ⟨found, hok, rfl, rfl⟩ := hread
  unfold readNumbered at hok
  cases hfirst : readUnit start s with
  | error e =>
    rw [hfirst] at hok
    cases hok
  | ok first =>
    obtain ⟨ds, hds, hs⟩ := (readUnit_iff _).1 ⟨first, hfirst, rfl, rfl⟩
    rw [hfirst, ok_bind] at hok
    split at hok
    · next hhigh =>
      obtain ⟨more, hmore, hok⟩ | ⟨-, hok⟩ := (match_after afterNumbered? (P := (· = _))).1 hok
      · cases hsecond : readUnit first.rest more with
        | error e =>
          rw [hsecond] at hok
          cases hok
        | ok second =>
          obtain ⟨es, hes, hmore'⟩ := (readUnit_iff _).1 ⟨second, hsecond, rfl, rfl⟩
          rw [hsecond, ok_bind] at hok
          split at hok
          · next hlow =>
            -- a variable for the number, which would be unfolded to its great literals
            generalize hpair : pairValue first.value second.value = n at hok
            split at hok
            · next c' hc =>
              cases hok
              rw [Utf8.scalar?_eq_some_iff, ← hpair] at hc
              refine ⟨_, .pair hds hes hhigh hlow hc, ?_⟩
              rw [List.append_assoc]
              exact hs.trans (congrArg (ds ++ ·)
                ((afterNumbered?_iff.1 hmore).trans (congrArg (escape 'u') hmore')))
            · cases hok
          · cases hok
      · cases hok
    · split at hok
      · next c' hc =>
        cases hok
        exact ⟨_, .unit (Utf8.scalar?_eq_some_iff.1 hc ▸ hds), hs⟩
      · cases hok

theorem readNumbered_numbered {start : Bytes} {h : s.length < start.length} {bs : Bytes}
    (hbs : Numbered c bs) (hs : s = bs ++ rest) :
    Yields (readNumbered .strict start s h) c rest := by
  unfold readNumbered
  cases hbs with
  | unit hds =>
    obtain ⟨first, hfirst, hvalue, hrest⟩ := (readUnit_iff start).2 ⟨_, hds, hs⟩
    have hscalar : Utf8.scalar? first.value = some c := Utf8.scalar?_eq_some_iff.2 hvalue.symm
    rw [hfirst, ok_bind]
    rw [if_neg (hvalue ▸ not_isHighSurrogate_toNat c)]
    split
    · next c' hc =>
      cases hscalar.symm.trans hc
      exact yields_ok.2 ⟨rfl, hrest⟩
    · next hnone => cases hnone.symm.trans hscalar
  | @pair high low ds es hds hes hhigh hlow hc =>
    rw [List.append_assoc] at hs
    obtain ⟨first, hfirst, rfl, hrest⟩ := (readUnit_iff start).2 ⟨_, hds, hs⟩
    have hnext : afterNumbered? first.rest = some (es ++ rest) := afterNumbered?_iff.2 hrest
    have hread : Yields (readUnit first.rest (es ++ rest)) low rest :=
      (readUnit_iff _).2 ⟨es, hes, rfl⟩
    obtain ⟨second, hsecond, rfl, hrest⟩ := hread
    rw [hfirst, ok_bind]
    rw [if_pos hhigh]
    refine (match_after afterNumbered? (P := (Yields · c rest))).2 (.inl ⟨_, hnext, ?_⟩)
    rw [hsecond, ok_bind, if_pos hlow]
    have hscalar := Utf8.scalar?_eq_some_iff.2 hc
    generalize pairValue first.value second.value = n at hscalar ⊢
    split
    · next c' hc' =>
      cases hscalar.symm.trans hc'
      exact yields_ok.2 ⟨rfl, hrest⟩
    · next hnone => cases hnone.symm.trans hscalar

theorem readNumbered_iff {start : Bytes} {h : s.length < start.length} :
    Yields (readNumbered .strict start s h) c rest ↔ ∃ bs, Numbered c bs ∧ s = bs ++ rest :=
  ⟨numbered_of_readNumbered, fun ⟨_, hbs, hs⟩ => readNumbered_numbered hbs hs⟩

/-! ## Escapes -/

theorem shortEscape?_iff :
    shortEscape? b = some c ↔ ∃ letter, (letter, c) ∈ shortEscapes ∧ b = letter.toUInt8 := by
  constructor
  · intro h
    unfold shortEscape? at h
    split at h <;> cases h <;>
      refine ⟨_, ?_, (ofUInt8_eq_iff ?_).1 ‹Char.ofUInt8 b = _›⟩ <;> decide
  · rintro ⟨letter, hmem, rfl⟩
    simp only [shortEscapes, List.mem_cons, Prod.mk.injEq, List.not_mem_nil, or_false] at hmem
    rcases hmem with ⟨rfl, rfl⟩ | ⟨rfl, rfl⟩ | ⟨rfl, rfl⟩ | ⟨rfl, rfl⟩ | ⟨rfl, rfl⟩ |
      ⟨rfl, rfl⟩ | ⟨rfl, rfl⟩ | ⟨rfl, rfl⟩ <;> rfl

/-- The spellings of a character that begin with a backslash. -/
inductive Escaped : Char → Bytes → Prop where
  | short {letter c : Char} (h : (letter, c) ∈ shortEscapes) : Escaped c [letter.toUInt8]
  | numbered {c : Char} {bs : Bytes} (h : Numbered c bs) : Escaped c ('u'.toUInt8 :: bs)

theorem readEscape_iff :
    Yields (readEscape .strict (b :: s)) c rest ↔ ∃ bs, Escaped c bs ∧ s = bs ++ rest := by
  unfold readEscape
  cases s with
  | nil =>
    refine iff_of_false not_yields_error ?_
    rintro ⟨bs, hbs, h⟩
    cases hbs <;> cases h
  | cons letter s =>
    dsimp only
    cases hshort : shortEscape? letter with
    | some c' =>
      refine yields_ok.trans ⟨?_, ?_⟩
      · rintro ⟨rfl, rfl⟩
        obtain ⟨l, hmem, rfl⟩ := shortEscape?_iff.1 hshort
        exact ⟨_, .short hmem, rfl⟩
      · rintro ⟨bs, hbs, h⟩
        cases hbs with
        | short hmem =>
          cases h
          cases hshort.symm.trans (shortEscape?_iff.2 ⟨_, hmem, rfl⟩)
          exact ⟨rfl, rfl⟩
        | numbered =>
          cases h
          cases hshort
    | none =>
      -- No short escape begins with this letter, so only a numbered one can stand here.
      have hnot {l : Char} (hmem : (l, c) ∈ shortEscapes) (h : letter = l.toUInt8) : False := by
        cases hshort.symm.trans (shortEscape?_iff.2 ⟨l, hmem, h⟩)
      dsimp only
      by_cases hu : Char.ofUInt8 letter = 'u'
      · rw [if_pos hu, readNumbered_iff]
        rw [ofUInt8_eq_iff (by decide)] at hu
        constructor
        · rintro ⟨bs, hbs, rfl⟩
          exact ⟨_, .numbered hbs, by rw [hu]; rfl⟩
        · rintro ⟨bs, hbs, h⟩
          cases hbs with
          | short hmem =>
            cases h
            exact (hnot hmem rfl).elim
          | numbered hbs =>
            cases h
            exact ⟨_, hbs, rfl⟩
      · rw [if_neg hu]
        refine iff_of_false not_yields_error ?_
        rintro ⟨bs, hbs, h⟩
        cases hbs with
        | short hmem =>
          cases h
          exact hnot hmem rfl
        | numbered hbs =>
          cases h
          exact hu rfl

/-! ## Characters -/

theorem readPlain_iff :
    Yields (readPlain .strict b s) c rest ↔
      0x20 ≤ c.toNat ∧ b :: s = Utf8.encodeChar c ++ rest := by
  unfold readPlain
  by_cases hlow : b < 0x20
  · rw [if_pos hlow]
    refine iff_of_false not_yields_error ?_
    rintro ⟨hc, h⟩
    have : b.toNat < 0x20 := hlow
    have := Utf8.head_encodeChar h
    omega
  · have hb : 0x20 ≤ b.toNat := Nat.le_of_not_lt hlow
    rw [if_neg hlow]
    split
    · next c' r hread =>
      rw [Utf8.decodeChar_eq_some_iff] at hread
      refine yields_ok.trans ⟨?_, ?_⟩
      · rintro ⟨rfl, rfl⟩
        have := Utf8.head_encodeChar hread
        exact ⟨by dsimp only; omega, hread⟩
      · rintro ⟨-, h⟩
        have hread := Utf8.decodeChar_eq_some_iff.2 hread
        cases hread.symm.trans (Utf8.decodeChar_eq_some_iff.2 h)
        exact ⟨rfl, rfl⟩
    · next hnone =>
      refine iff_of_false not_yields_error ?_
      rintro ⟨-, h⟩
      cases hnone.symm.trans (Utf8.decodeChar_eq_some_iff.2 h)

theorem character_iff {bs : Bytes} :
    Character c bs ↔
      (∃ ds, Escaped c ds ∧ bs = '\\'.toUInt8 :: ds) ∨
      (0x20 ≤ c.toNat ∧ c ≠ '"' ∧ c ≠ '\\' ∧ bs = Utf8.encodeChar c) := by
  constructor
  · rintro (⟨hlow, hquote, hslash⟩ | hmem | hds | ⟨hds, hes, hhigh, hlow, hc⟩)
    · exact .inr ⟨hlow, hquote, hslash, rfl⟩
    · exact .inl ⟨_, .short hmem, rfl⟩
    · exact .inl ⟨_, .numbered (.unit hds), rfl⟩
    · exact .inl ⟨_, .numbered (.pair hds hes (isHighSurrogate_iff.2 hhigh)
        (isLowSurrogate_iff.2 hlow) hc), rfl⟩
  · rintro (⟨ds, hds, rfl⟩ | ⟨hlow, hquote, hslash, rfl⟩)
    · rcases hds with hmem | hds
      · exact .short hmem
      · rcases hds with hds | ⟨hds, hes, hhigh, hlow, hc⟩
        · exact .unit hds
        · exact .pair hds hes (isHighSurrogate_iff.1 hhigh) (isLowSurrogate_iff.1 hlow) hc
    · exact .plain hlow hquote hslash

theorem exists_cons_of_character {bs : Bytes} (h : Character c bs) :
    ∃ b t, bs = b :: t ∧ Char.ofUInt8 b ≠ '"' := by
  rcases character_iff.1 h with ⟨ds, -, rfl⟩ | ⟨-, hquote, -, rfl⟩
  · exact ⟨_, ds, rfl, by decide⟩
  · cases hbs : Utf8.encodeChar c with
    | nil => cases hbs ▸ Utf8.spells_encodeChar c
    | cons b t =>
      refine ⟨b, t, rfl, fun hb => hquote ?_⟩
      have hbyte : b.toNat = 0x22 := congrArg Char.toNat hb
      have := Utf8.head_encodeChar (hbs.symm.trans (List.append_nil _).symm)
      exact Char.toNat_inj.1 (show c.toNat = 0x22 by omega)

/-- One character is read exactly where one of its spellings stands. -/
theorem readCharacter_iff (hb : Char.ofUInt8 b ≠ '"') :
    Yields (if Char.ofUInt8 b = '\\' then readEscape .strict (b :: s) else readPlain .strict b s)
      c rest ↔ ∃ bs, Character c bs ∧ b :: s = bs ++ rest := by
  have hbyte : (Char.ofUInt8 b).toNat = b.toNat := rfl
  simp only [character_iff]
  by_cases hslash : Char.ofUInt8 b = '\\'
  · rw [if_pos hslash, readEscape_iff]
    have hslash' := (ofUInt8_eq_iff (by decide)).1 hslash
    constructor
    · rintro ⟨ds, hds, rfl⟩
      exact ⟨_, .inl ⟨ds, hds, rfl⟩, by rw [hslash']; rfl⟩
    · rintro ⟨_, ⟨ds, hds, rfl⟩ | ⟨hlow, hquote, hslash'', rfl⟩, h⟩
      · cases h
        exact ⟨ds, hds, rfl⟩
      · have : b.toNat = 0x5C := congrArg UInt8.toNat hslash'
        have := Utf8.head_encodeChar h
        exact absurd (Char.toNat_inj.1 (show c.toNat = 0x5C by omega)) hslash''
  · rw [if_neg hslash, readPlain_iff]
    constructor
    · rintro ⟨hlow, h⟩
      have hne {c' : Char} (hc' : c'.toNat < 0x80) (hne : Char.ofUInt8 b ≠ c') : c ≠ c' := by
        rintro rfl
        have := Utf8.head_encodeChar h
        exact hne (Char.toNat_inj.1 (by omega))
      exact ⟨_, .inr ⟨hlow, hne (by decide) hb, hne (by decide) hslash, rfl⟩, h⟩
    · rintro ⟨_, ⟨ds, -, rfl⟩ | ⟨hlow, -, -, rfl⟩, h⟩
      · cases h
        exact absurd rfl hslash
      · exact ⟨hlow, h⟩

/-! ## Strings -/

theorem characters_of_readTextFrom {start : Bytes} {front : List Char} {k : String}
    {h : s.length ≤ start.length} (hread : Yields (readTextFrom .strict start front s h) k rest) :
    ∃ cs bs, Characters cs bs ∧ s = bs ++ '"'.toUInt8 :: rest ∧
      k = .ofList (front.reverse ++ cs) := by
  induction hlength : s.length using Nat.strong_induction_on generalizing s front with
  | _ n ih =>
  rw [readTextFrom.eq_def] at hread
  cases s with
  | nil => exact absurd hread not_yields_error
  | cons b s =>
    dsimp only at hread
    split at hread
    · next hb =>
      obtain ⟨rfl, rfl⟩ := yields_ok.1 hread
      rw [ofUInt8_eq_iff (by decide)] at hb
      exact ⟨[], [], .nil, by rw [hb]; rfl, by rw [List.append_nil]⟩
    · next hb =>
      split at hread
      · exact absurd hread not_yields_error
      · next r hr =>
        obtain ⟨bs, hbs, hs⟩ := (readCharacter_iff hb).1 ⟨r, hr, rfl, rfl⟩
        obtain ⟨cs, ds, hcs, hrest, hk⟩ := ih _ (hlength ▸ r.shorter) hread rfl
        refine ⟨_, _, .cons hbs hcs, by rw [hs, hrest, List.append_assoc], ?_⟩
        rw [hk, List.reverse_cons, List.append_assoc]
        rfl

theorem readTextFrom_characters {start bs : Bytes} {cs front : List Char}
    {h : s.length ≤ start.length} (hcs : Characters cs bs) (hs : s = bs ++ '"'.toUInt8 :: rest) :
    Yields (readTextFrom .strict start front s h) (.ofList (front.reverse ++ cs)) rest := by
  induction hcs generalizing s front with
  | nil =>
    subst hs
    rw [readTextFrom.eq_def]
    exact yields_ok.2 ⟨by rw [List.append_nil], rfl⟩
  | @cons c cs t u hc hcs ih =>
    obtain ⟨b, t', rfl, hb⟩ := exists_cons_of_character hc
    rw [List.append_assoc] at hs
    subst hs
    obtain ⟨r, hr, hvalue, hrest⟩ := (readCharacter_iff (s := t' ++ _) hb).2 ⟨_, hc, rfl⟩
    rw [readTextFrom.eq_def]
    simp only [List.cons_append]
    rw [if_neg hb]
    split
    · next e he => cases hr.symm.trans he
    · next r' hr' =>
      cases hr.symm.trans hr'
      have hlength : r.rest.length ≤ start.length := Nat.le_trans (Nat.le_of_lt r.shorter) h
      have hread : Yields (readTextFrom .strict start (r.value :: front) r.rest hlength)
          (.ofList ((r.value :: front).reverse ++ cs)) rest := ih hrest
      rw [List.reverse_cons, List.append_assoc, hvalue] at hread
      rw [hvalue]
      exact hread

/-- A string is read exactly where its characters and a closing quote stand. -/
theorem readText_iff {k : String} :
    Yields (readText .strict s) k rest ↔ ∃ bs, StringText k bs ∧ '"'.toUInt8 :: s = bs ++ rest := by
  constructor
  · intro h
    obtain ⟨cs, bs, hcs, hs, rfl⟩ := characters_of_readTextFrom h
    exact ⟨_, .mk hcs, by rw [hs, List.cons_append, List.append_assoc]; rfl⟩
  · rintro ⟨bs, ⟨hcs⟩, h⟩
    rw [List.cons_append, List.append_assoc] at h
    exact readTextFrom_characters hcs (List.cons.inj h).2

end Json

end PackageAudit
