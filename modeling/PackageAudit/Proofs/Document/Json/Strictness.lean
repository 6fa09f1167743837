import PackageAudit.Proofs.Document.Json.Relaxed

/-!
# Proofs.Document.Json.Strictness — strings and numbers that only the strict reader refuses

* `StopsWith` — where one reader stops, the other stops in the same way, with exceptions;
* `Json.BadNumber`, `Json.BadCharacter` — the exceptions, with the bytes that they are found at;
* `Json.badNumber_of_readNumber` — a number that only the strict reader refuses;
* `Json.badCharacter_of_readText` — a string that only the strict reader refuses, up to the
  character at which it stops.
-/

namespace PackageAudit

/-! ## Readers that stop alike -/

/-- Where `x` stops, `y` stops in the same way, unless `excepted` tells of the fault. -/
def StopsWith {ε α : Type} (excepted : ε → Prop) (x y : Except ε α) : Prop :=
  ∀ e, x = .error e → excepted e ∨ y = .error e

namespace StopsWith

variable {ε α β : Type} {excepted : ε → Prop} {x y : Except ε α}

theorem refl (x : Except ε α) : StopsWith excepted x x :=
  fun _ h => .inr h

theorem error {e : ε} (h : excepted e) (y : Except ε α) : StopsWith excepted (.error e) y := by
  rintro _ ⟨⟩
  exact .inl h

theorem bind {f g : α → Except ε β} (hfinds : Refines x y) (h : StopsWith excepted x y)
    (hfg : ∀ a, StopsWith excepted (f a) (g a)) : StopsWith excepted (x >>= f) (y >>= g) := by
  intro e he
  cases x with
  | error e' =>
    cases he
    rcases h e rfl with hexcepted | hy
    · exact .inl hexcepted
    · rw [hy]
      exact .inr rfl
  | ok a =>
    rw [hfinds a rfl]
    exact hfg a e he

/-- A reader that checks more stops at an exception, or as the other one does. -/
theorem ite {p q : Prop} [Decidable p] [Decidable q] {e : ε} (hp : p → excepted e) (hpq : q → p)
    (h : StopsWith excepted x y) :
    StopsWith excepted (if p then .error e else x) (if q then .error e else y) := by
  by_cases hrefused : p
  · rw [if_pos hrefused]
    exact error (hp hrefused) _
  · rw [if_neg hrefused, if_neg (mt hpq hrefused)]
    exact h

/-- Where only one of the readers stops, the fault is an exception. -/
theorem excepted_of_ok (h : StopsWith excepted x y) {e : ε} {a : α} (hx : x = .error e)
    (hy : y = .ok a) : excepted e := by
  rcases h e hx with hexcepted | herror
  · exact hexcepted
  · cases hy.symm.trans herror

end StopsWith

namespace Json

variable {s rest place : Bytes} {fault : JsonFault}

/-! ## Numbers -/

/-- What only the strict reader says of a number whose first byte is that of `place`. -/
inductive BadNumber (place : Bytes) : JsonFault → Prop
  | leadingZero : BadNumber place .leadingZero
  | malformed (literal : String) : BadNumber place (.malformedNumber literal)
  /-- A point in front of all digits does not start a number. -/
  | point (h : place.head? = some '.'.toUInt8) :
      BadNumber place (.unexpected (describe '.'.toUInt8) "a value")

/-- The number that begins at `s` is refused, at its beginning. -/
def NumberRefused (s : Bytes) (e : JsonFault × Bytes) : Prop :=
  e.2 = s ∧ BadNumber s e.1

theorem readNumber_stopsWith (s : Bytes) :
    StopsWith (NumberRefused s) (readNumber .strict s) (readNumber .legacy s) := by
  have hrelaxed := JsonOptions.relaxedTo_legacy .strict
  unfold readNumber
  refine .ite (fun _ => ⟨rfl, .leadingZero⟩)
    (fun hzero => ⟨hzero.1, hzero.2.1, mt hrelaxed.leadingZeros hzero.2.2⟩) ?_
  dsimp only
  split
  · exact .refl _
  · exact .ite (fun _ => ⟨rfl, .malformed _⟩)
      (fun hpoint => ⟨hpoint.1, mt hrelaxed.malformedDecimals hpoint.2⟩) (.refl _)

theorem badNumber_of_readNumber {n : Reading s Number}
    (hstrict : readNumber .strict s = .error (fault, place))
    (hlegacy : readNumber .legacy s = .ok n) :
    place = s ∧ BadNumber s fault :=
  (readNumber_stopsWith s).excepted_of_ok hstrict hlegacy

/-! ## Characters -/

/-- What only the strict reader says of the character at `place`. -/
inductive BadCharacter : Bytes → JsonFault → Prop
  | control {b : UInt8} {rest : Bytes} (h : b < 0x20) :
      BadCharacter (b :: rest) (.controlCharacter b.toNat)
  | undecodable {b : UInt8} {rest : Bytes} (h : 0x80 ≤ b) (detail : String) :
      BadCharacter (b :: rest) (.invalidUnicode detail)
  | surrogate {rest : Bytes} (detail : String) :
      BadCharacter ('\\'.toUInt8 :: rest) (.invalidUnicode detail)

/-- The escape sequence that begins at `s` is refused for a surrogate. -/
def SurrogateRefused (s : Bytes) (e : JsonFault × Bytes) : Prop :=
  e.2 = s ∧ ∃ detail, e.1 = .invalidUnicode detail

theorem loneSurrogate_stopsWith (unit : Nat) (s : Bytes) (hrest : rest.length < s.length) :
    StopsWith (SurrogateRefused s) (loneSurrogate .strict unit s rest hrest)
      (loneSurrogate .legacy unit s rest hrest) :=
  .error ⟨rfl, _, rfl⟩ _

theorem readNumbered_stopsWith {digits : Bytes} (hdigits : digits.length < s.length) :
    StopsWith (SurrogateRefused s) (readNumbered .strict s digits hdigits)
      (readNumbered .legacy s digits hdigits) := by
  unfold readNumbered
  refine .bind (.refl _) (.refl _) fun first => ?_
  by_cases hhigh : isHighSurrogate first.value = true
  · rw [if_pos hhigh, if_pos hhigh]
    intro e he
    obtain ⟨more, hmore, he⟩ | ⟨hnone, he⟩ := (match_after afterNumbered? (P := (· = _))).1 he
    · rw [or_iff_not_imp_left]
      intro hother
      refine (match_after afterNumbered? (P := (· = Except.error e))).2 (.inl ⟨more, hmore, ?_⟩)
      refine (StopsWith.bind (.refl _) (.refl _) (fun second => ?_) e he).resolve_left hother
      split
      · generalize pairValue first.value second.value = n
        split
        · exact .refl _
        · exact loneSurrogate_stopsWith _ _ _
      · exact loneSurrogate_stopsWith _ _ _
    · exact .inl ((loneSurrogate_stopsWith _ _ _).excepted_of_ok he rfl)
  · rw [if_neg hhigh, if_neg hhigh]
    split
    · exact .refl _
    · exact loneSurrogate_stopsWith _ _ _

theorem readEscape_stopsWith (s : Bytes) :
    StopsWith (SurrogateRefused s) (readEscape .strict s) (readEscape .legacy s) := by
  unfold readEscape
  split
  · split
    · exact .refl _
    · split
      · exact readNumbered_stopsWith _
      · exact .refl _
  · exact .refl _
  · exact .refl _

theorem decodeChar_of_lt {b : UInt8} (h : b < 0x80) :
    Utf8.decodeChar (b :: rest) = some (Char.ofUInt8 b, rest) := by
  have hb : (Char.ofUInt8 b).toNat < 0x80 := h
  rw [Utf8.decodeChar_eq_some_iff, Utf8.encodeChar_of_lt hb]
  exact congrArg (· :: rest) ((ofUInt8_eq_iff (Nat.lt_trans hb (by decide))).1 rfl)

theorem badCharacter_of_readPlain {b : UInt8}
    (hstrict : readPlain .strict b rest = .error (fault, place)) :
    place = b :: rest ∧ BadCharacter (b :: rest) fault := by
  unfold readPlain at hstrict
  by_cases hlow : b < 0x20
  · rw [if_pos hlow] at hstrict
    cases hstrict
    exact ⟨rfl, .control hlow⟩
  · rw [if_neg hlow] at hstrict
    split at hstrict
    · cases hstrict
    · next hnone =>
      cases hstrict
      refine ⟨rfl, .undecodable (UInt8.not_lt.1 fun hascii => ?_) _⟩
      cases (decodeChar_of_lt hascii).symm.trans hnone

theorem badCharacter_of_readCharacter {b : UInt8} {c : Reading (b :: rest) Char}
    (hstrict : (if Char.ofUInt8 b = '\\' then readEscape .strict (b :: rest)
      else readPlain .strict b rest) = .error (fault, place))
    (hlegacy : (if Char.ofUInt8 b = '\\' then readEscape .legacy (b :: rest)
      else readPlain .legacy b rest) = .ok c) :
    place = b :: rest ∧ BadCharacter (b :: rest) fault := by
  by_cases hslash : Char.ofUInt8 b = '\\'
  · rw [if_pos hslash] at hstrict hlegacy
    obtain ⟨hplace, detail, hfault⟩ :=
      (readEscape_stopsWith (b :: rest)).excepted_of_ok hstrict hlegacy
    rw [ofUInt8_eq_iff (by decide)] at hslash
    rw [show fault = .invalidUnicode detail from hfault, hslash]
    exact ⟨hslash ▸ hplace, .surrogate detail⟩
  · rw [if_neg hslash] at hstrict
    exact badCharacter_of_readPlain hstrict

/-! ## Strings -/

theorem rest_of_readTextFrom {o : JsonOptions} {start : Bytes} {front : List Char}
    {h : s.length ≤ start.length} {name : Reading start String}
    (hread : readTextFrom o start front s h = .ok name) : name.rest.length < s.length := by
  induction hlength : s.length using Nat.strong_induction_on generalizing s front with
  | _ n ih =>
  rw [readTextFrom.eq_def] at hread
  cases s with
  | nil => cases hread
  | cons b rest =>
    dsimp only at hread
    split at hread
    · cases hread
      exact hlength ▸ Nat.lt_succ_self _
    · split at hread
      · cases hread
      · next c _ =>
        have hshort : c.rest.length < n := hlength ▸ c.shorter
        exact Nat.lt_trans (ih _ hshort hread rfl) hshort

theorem badCharacter_of_readTextFrom {start : Bytes} {front : List Char}
    {h : s.length ≤ start.length} {name : Reading start String}
    (hstrict : readTextFrom .strict start front s h = .error (fault, place))
    (hlegacy : readTextFrom .legacy start front s h = .ok name) :
    ∃ inside, s = inside ++ place ∧ BadCharacter place fault ∧
      name.rest.length < place.length := by
  -- Up to the character at which the strict reader stops, both readers find the same.
  induction hlength : s.length using Nat.strong_induction_on generalizing s front with
  | _ n ih =>
  have hinside := rest_of_readTextFrom hlegacy
  rw [readTextFrom.eq_def] at hstrict hlegacy
  cases s with
  | nil => cases hlegacy
  | cons b rest =>
    dsimp only at hstrict hlegacy
    by_cases hquote : Char.ofUInt8 b = '"'
    · rw [if_pos hquote] at hstrict
      cases hstrict
    rw [if_neg hquote] at hstrict hlegacy
    cases hc : if Char.ofUInt8 b = '\\' then readEscape .strict (b :: rest)
        else readPlain .strict b rest with
    | error e =>
      rw [hc] at hstrict
      cases hstrict
      cases hc' : if Char.ofUInt8 b = '\\' then readEscape .legacy (b :: rest)
          else readPlain .legacy b rest with
      | error e =>
        rw [hc'] at hlegacy
        cases hlegacy
      | ok c =>
        obtain ⟨rfl, hbad⟩ := badCharacter_of_readCharacter hc hc'
        exact ⟨[], rfl, hbad, hinside⟩
    | ok c =>
      obtain ⟨bs, -, hs⟩ := (readCharacter_iff hquote).1 ⟨c, hc, rfl, rfl⟩
      have hc' := readCharacter_relaxed (JsonOptions.relaxedTo_legacy .strict) b rest c hc
      rw [hc] at hstrict
      rw [hc'] at hlegacy
      obtain ⟨inside, hrest, hbad⟩ := ih _ (hlength ▸ c.shorter) hstrict hlegacy rfl
      exact ⟨bs ++ inside, by rw [hs, hrest, List.append_assoc], hbad⟩

/--
A string that only the strict reader refuses: it stops at a bad character, which the relaxed reader
reads as a part of the string.
-/
theorem badCharacter_of_readText {name : Reading s String}
    (hstrict : readText .strict s = .error (fault, place))
    (hlegacy : readText .legacy s = .ok name) :
    ∃ inside, s = inside ++ place ∧ BadCharacter place fault ∧ name.rest.length < place.length :=
  badCharacter_of_readTextFrom hstrict hlegacy

end Json

end PackageAudit
