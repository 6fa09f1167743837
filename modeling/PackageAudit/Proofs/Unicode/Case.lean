import Mathlib
import PackageAudit.Proofs.Unicode.CodePoints
import PackageAudit.Unicode.Case

/-!
# Proofs.Unicode.Case — lower case and case folding

* `Case.lower_eq_iff` — the lower case of a text differs from its ASCII lower case if and only if a
  character beyond ASCII is not its own lower case;
* `Case.of_mem_lowerFrom` — which characters can come up in lower case;
* `Case.mem_close` — the members of a set closed under case;
* `Case.has_close_of_toLower_eq` — among them are the ASCII letters of either case.
-/

namespace PackageAudit

namespace Case

variable {c d : Char} {cs before rest done : List Char} {s : CodePoints}

/-! ## ASCII letters -/

theorem toNat_toLower :
    c.toLower.toNat = if 65 ≤ c.toNat ∧ c.toNat ≤ 90 then c.toNat + 32 else c.toNat := by
  have hupper : c.val ≥ 'A'.val ∧ c.val ≤ 'Z'.val ↔ 65 ≤ c.toNat ∧ c.toNat ≤ 90 := by
    rw [ge_iff_le, UInt32.le_iff_toNat_le, UInt32.le_iff_toNat_le]
    exact Iff.rfl
  rw [Char.toLower]
  split
  · next h =>
    rw [if_pos (hupper.1 h)]
    obtain ⟨hlow, hhigh⟩ := hupper.1 h
    change (c.val + ('a'.val - 'A'.val)).toNat = c.val.toNat + 32
    rw [UInt32.toNat_add]
    exact Nat.mod_eq_of_lt (show c.toNat + 32 < _ by omega)
  · next h => rw [if_neg (h ∘ hupper.2)]

theorem toLower_of_beyond (h : 0x80 ≤ c.toNat) : c.toLower = c := by
  rw [← Char.toNat_inj, toNat_toLower, if_neg (by omega)]

/-! ## Lower case -/

/-- The lower case of a character between others, those before it given backwards. -/
def lowerAt (before : List Char) (c : Char) (rest : List Char) : List Char :=
  if c.toNat < 0x80 then [c.toLower]
  else if c == 'Σ' then
    if casedNext before && !casedNext rest then ['ς'] else ['σ']
  else if c == 'İ' then ['i', '\u0307']
  else [mapChar lowerRuns c]

theorem lowerFrom_eq_append :
    lowerFrom done before cs = done.reverse ++ lowerFrom [] before cs := by
  induction cs generalizing done before with
  | nil => rw [lowerFrom, lowerFrom, List.reverse_nil, List.append_nil]
  | cons c cs ih =>
    simp only [lowerFrom]
    rw [ih, @ih _ (_ ++ [])]
    simp

theorem lowerFrom_cons :
    lowerFrom [] before (c :: cs) = lowerAt before c cs ++ lowerFrom [] (c :: before) cs := by
  simp only [lowerFrom]
  rw [lowerFrom_eq_append, List.append_nil, List.reverse_reverse]
  rfl

theorem lower_singleton : lower [c] = lowerAt [] c [] := by
  rw [lower, lowerFrom_cons]
  simp [lowerFrom]

theorem lowerAt_of_ascii (h : c.toNat < 0x80) : lowerAt before c rest = [c.toLower] :=
  if_pos h

/-- Whether a character beyond ASCII is its own lower case does not depend on those around it. -/
theorem lowerAt_eq_iff (h : 0x80 ≤ c.toNat) :
    lowerAt before c rest = [c] ↔ lower [c] = [c] := by
  rw [lower_singleton, lowerAt, lowerAt, if_neg (Nat.not_lt.2 h), if_neg (Nat.not_lt.2 h)]
  split
  · next hsigma =>
    obtain rfl := eq_of_beq hsigma
    exact iff_of_false (by split <;> decide) (by split <;> decide)
  · exact Iff.rfl

/-- The lower case of a character that is not its own begins with another character. -/
theorem lowerAt_eq_of_head (h : 0x80 ≤ c.toNat) {more tail : List Char}
    (heq : lowerAt before c rest ++ more = c :: tail) : lowerAt before c rest = [c] := by
  rw [lowerAt, if_neg (Nat.not_lt.2 h)] at heq ⊢
  split at heq
  · next hsigma =>
    obtain rfl := eq_of_beq hsigma
    split at heq <;> simp at heq
  · next hsigma =>
    rw [if_neg hsigma]
    split at heq
    · next hdot =>
      obtain rfl := eq_of_beq hdot
      simp at heq
    · next hdot =>
      rw [if_neg hdot]
      exact congrArg (fun d => [d]) (List.cons.inj heq).1

/--
In lower case a text is as with its ASCII letters in lower case, unless it holds a character beyond
ASCII that is not its own lower case.
-/
theorem lowerFrom_eq_iff : lowerFrom [] before cs = cs.map Char.toLower ↔
    ∀ c ∈ cs, 0x80 ≤ c.toNat → lower [c] = [c] := by
  -- On the text: the characters in front agree before those that follow are looked at.
  induction cs generalizing before with
  | nil => simp [lowerFrom]
  | cons c cs ih =>
    rw [lowerFrom_cons, List.map_cons, List.forall_mem_cons, ← @ih (c :: before)]
    by_cases h : c.toNat < 0x80
    · rw [lowerAt_of_ascii h]
      simp [Nat.not_le.2 h]
    · have hbeyond := Nat.not_lt.1 h
      rw [toLower_of_beyond hbeyond, ← @lowerAt_eq_iff c before cs hbeyond]
      constructor
      · intro heq
        have hself := lowerAt_eq_of_head hbeyond heq
        rw [hself] at heq
        exact ⟨fun _ => hself, (List.cons.inj heq).2⟩
      · rintro ⟨hself, hrest⟩
        rw [hself hbeyond, hrest]
        rfl

theorem lower_eq_iff :
    lower cs = cs.map Char.toLower ↔ ∀ c ∈ cs, 0x80 ≤ c.toNat → lower [c] = [c] :=
  lowerFrom_eq_iff

/-! ## What comes up in lower case -/

/-- No run but that of the ASCII letters leads to ASCII, with one exception: the sign for kelvin. -/
theorem lowerRuns_beyond : ∀ r ∈ lowerRuns.tail, 0x80 ≤ (r.start : Int) + r.distance ∨
    (r.count = 1 ∧ (r.start : Int) + r.distance = 107) := by
  decide +kernel

/-- Where a run takes a member, its first one if there is no other. -/
theorem of_map? {r : CaseRun} {m n : Nat} (h : r.map? m = some n) :
    (n : Int) = (((m : Int) + r.distance).toNat : Int) ∧ r.start ≤ m ∧
      (r.count = 1 → m = r.start) := by
  rw [CaseRun.map?] at h
  split at h
  · next hmember =>
    obtain ⟨hstart, hmod, hdiv⟩ := hmember
    refine ⟨by rw [← Option.some.inj h], hstart, fun hcount => ?_⟩
    have hzero : (m - r.start) / r.stride = 0 := Nat.lt_one_iff.1 (hcount ▸ hdiv)
    have hsplit := Nat.div_add_mod (m - r.start) r.stride
    rw [hmod, hzero, Nat.mul_zero] at hsplit
    omega
  · cases h

theorem mapChar_lowerRuns (h : 0x80 ≤ c.toNat) :
    mapChar lowerRuns c = 'k' ∨ 0x80 ≤ (mapChar lowerRuns c).toNat := by
  have hsplit : lowerRuns = ⟨65, 26, 1, 32⟩ :: lowerRuns.tail := rfl
  unfold mapChar
  split
  · next n hn =>
    obtain ⟨r, hr, hmap⟩ := List.exists_of_findSome?_eq_some hn
    obtain ⟨hn, hstart, hfirst⟩ := of_map? hmap
    rw [hsplit, List.mem_cons] at hr
    rcases hr with rfl | hr
    · -- The first run ends before 0x80.
      rw [CaseRun.map?, if_neg] at hmap
      · cases hmap
      · rintro ⟨-, -, hcount⟩
        rw [Nat.div_one, Nat.sub_lt_iff_lt_add (by omega)] at hcount
        exact absurd (Nat.le_trans h (Nat.le_of_lt hcount)) (by decide)
    · split
      · next hvalid =>
        rcases lowerRuns_beyond r hr with hbeyond | ⟨hcount, hkelvin⟩
        · refine .inr ?_
          change 0x80 ≤ n
          omega
        · refine .inl (Char.toNat_inj.1 ?_)
          have hc := hfirst hcount
          change n = 107
          omega
      · exact .inr h
  · exact .inr h

/-- Which characters stand in the lower case of a character beyond ASCII. -/
theorem of_mem_lowerAt (h : 0x80 ≤ c.toNat) (hd : d ∈ lowerAt before c rest) :
    d = 'i' ∨ d = 'k' ∨ 0x80 ≤ d.toNat := by
  rw [lowerAt, if_neg (Nat.not_lt.2 h)] at hd
  split at hd
  · split at hd <;> obtain rfl := List.mem_singleton.1 hd <;> exact .inr (.inr (by decide))
  · split at hd
    · rcases List.mem_cons.1 hd with rfl | hd
      · exact .inl rfl
      · obtain rfl := List.mem_singleton.1 hd
        exact .inr (.inr (by decide))
    · obtain rfl := List.mem_singleton.1 hd
      exact .inr (mapChar_lowerRuns h)

/-- Only ASCII characters come up in lower case, or ones beyond ASCII, except for two letters. -/
theorem of_mem_lowerFrom (h : d ∈ lowerFrom [] before cs) :
    (∃ c ∈ cs, d = c.toLower) ∨ d = 'i' ∨ d = 'k' ∨ 0x80 ≤ d.toNat := by
  induction cs generalizing before with
  | nil => cases h
  | cons c cs ih =>
    rw [lowerFrom_cons, List.mem_append] at h
    rcases h with h | h
    · by_cases hc : c.toNat < 0x80
      · rw [lowerAt_of_ascii hc, List.mem_singleton] at h
        exact .inl ⟨c, List.mem_cons_self, h⟩
      · exact .inr (of_mem_lowerAt (Nat.not_lt.1 hc) h)
    · refine (ih h).imp_left ?_
      rintro ⟨c', hc', hd⟩
      exact ⟨c', List.mem_cons_of_mem _ hc', hd⟩

/-- What a rule about single characters says, if it is so for those of ASCII and for all others. -/
theorem forall_of_ascii {P : Char → Prop} (hascii : ∀ n < 0x80, P (Char.ofNat n))
    (hbeyond : ∀ c : Char, 0x80 ≤ c.toNat → P c) (c : Char) : P c := by
  by_cases h : c.toNat < 0x80
  · exact Char.ofNat_toNat c ▸ hascii c.toNat h
  · exact hbeyond c (Nat.not_lt.1 h)

theorem toLower_eq_self (h : c.toLower.isAlpha = false) : c.toLower = c :=
  forall_of_ascii (P := fun c => c.toLower.isAlpha = false → c.toLower = c) (by decide)
    (fun _ hbeyond _ => toLower_of_beyond hbeyond) c h

/-- A sign in ASCII that is no letter is in the lower case of a text only if it is in the text. -/
theorem mem_of_mem_lower (hascii : d.toNat < 0x80) (hsign : d.isAlpha = false) (h : d ∈ lower cs) :
    d ∈ cs := by
  rcases of_mem_lowerFrom h with ⟨c, hc, rfl⟩ | rfl | rfl | hbeyond
  · rwa [toLower_eq_self hsign]
  · cases hsign
  · cases hsign
  · exact absurd hascii (Nat.not_lt.2 hbeyond)

/-! ## Folding -/

/-- A code point that is in a set, or represents one that is. -/
def Represents (s : CodePoints) (n : Nat) : Prop :=
  s.mem n = true ∨ ∃ m, (m, n) ∈ foldPairs ∧ s.mem m = true

theorem covers_filterMap (pairs : List (Nat × Nat)) (keep : Nat × Nat → Bool)
    (place : Nat × Nat → Nat) (n : Nat) :
    CodePoints.Covers
        (pairs.filterMap fun p => if keep p then some (place p, place p) else none) n ↔
      ∃ p ∈ pairs, keep p = true ∧ place p = n := by
  simp only [CodePoints.Covers, List.mem_filterMap, Option.ite_none_right_eq_some,
    Option.some.injEq]
  constructor
  · rintro ⟨_, ⟨p, hp, hkeep, rfl⟩, hlow, hhigh⟩
    exact ⟨p, hp, hkeep, Nat.le_antisymm hlow hhigh⟩
  · rintro ⟨p, hp, hkeep, rfl⟩
    exact ⟨_, ⟨p, hp, hkeep, rfl⟩, Nat.le_refl _, Nat.le_refl _⟩

/-- The members of a set closed under case. -/
theorem mem_close {n : Nat} (h : CodePoints.Ascending s.ranges) : (close s).mem n = true ↔
    Represents s n ∨ ∃ f, (n, f) ∈ foldPairs ∧ Represents s f := by
  have hheads : ∀ m, (CodePoints.ofRanges (s.ranges ++ foldPairs.filterMap fun p =>
      if s.mem p.1 then some (p.2, p.2) else none)).mem m = true ↔ Represents s m := by
    intro m
    rw [CodePoints.mem_ofRanges, CodePoints.covers_append, ← CodePoints.mem_iff h,
      covers_filterMap _ (fun p => s.mem p.1) Prod.snd]
    simp [Represents, and_comm]
  have hstart : ∀ m, CodePoints.Covers (CodePoints.ofRanges (s.ranges ++
      foldPairs.filterMap fun p => if s.mem p.1 then some (p.2, p.2) else none)).ranges m ↔
        Represents s m :=
    fun m => (CodePoints.mem_iff CodePoints.ofRanges_spec.1).symm.trans (hheads m)
  rw [close, CodePoints.mem_ofRanges, CodePoints.covers_append, hstart]
  refine or_congr_right ?_
  refine (covers_filterMap _ (fun p => CodePoints.mem _ p.2) Prod.fst n).trans ?_
  simp only [hheads, Prod.exists]
  constructor
  · rintro ⟨m, f, hpair, hf, rfl⟩
    exact ⟨f, hpair, hf⟩
  · rintro ⟨f, hpair, hf⟩
    exact ⟨n, f, hpair, hf, rfl⟩

/-- Folding takes an ASCII letter for its small form. -/
theorem mem_foldPairs {n : Nat} (hlow : 65 ≤ n) (hhigh : n ≤ 90) : (n, n + 32) ∈ foldPairs := by
  have hsplit : foldRuns = ⟨65, 26, 1, 32⟩ :: foldRuns.tail := rfl
  have hfirst : ∀ i < 26, (65 + i, 65 + i + 32) ∈ (⟨65, 26, 1, 32⟩ : CaseRun).pairs := by decide
  rw [foldPairs, hsplit, List.flatMap_cons]
  have hn := hfirst (n - 65) (by omega)
  rw [Nat.add_sub_cancel' hlow] at hn
  exact List.mem_append_left _ hn

/-- Two characters with the same ASCII lower case differ by case only. -/
theorem has_close_of_toLower_eq (h : c.toLower = d.toLower) :
    (close (.singleton c.toNat)).has d = true := by
  have hself : (CodePoints.singleton c.toNat).mem c.toNat = true := CodePoints.mem_singleton.2 rfl
  rw [CodePoints.has, mem_close CodePoints.ascending_singleton]
  have hnat := congrArg Char.toNat h
  rw [toNat_toLower, toNat_toLower] at hnat
  by_cases hc : 65 ≤ c.toNat ∧ c.toNat ≤ 90 <;> by_cases hd : 65 ≤ d.toNat ∧ d.toNat ≤ 90
  · rw [if_pos hc, if_pos hd] at hnat
    exact .inl (.inl (Nat.add_right_cancel hnat ▸ hself))
  · rw [if_pos hc, if_neg hd] at hnat
    exact .inl (.inr ⟨c.toNat, hnat ▸ mem_foldPairs hc.1 hc.2, hself⟩)
  · rw [if_neg hc, if_pos hd] at hnat
    exact .inr ⟨c.toNat, hnat ▸ mem_foldPairs hd.1 hd.2, .inl hself⟩
  · rw [if_neg hc, if_neg hd] at hnat
    exact .inl (.inl (hnat ▸ hself))

/-- A character without case differs from no other one. -/
theorem has_close_of_uncased (h : ∀ p ∈ foldPairs, p.1 ≠ c.toNat ∧ p.2 ≠ c.toNat) :
    (close (.singleton c.toNat)).has d = true ↔ d = c := by
  have hself : ∀ n, Represents (.singleton c.toNat) n ↔ n = c.toNat := by
    intro n
    rw [Represents, CodePoints.mem_singleton]
    refine or_iff_left ?_
    rintro ⟨m, hpair, hm⟩
    exact (h _ hpair).1 (CodePoints.mem_singleton.1 hm)
  rw [CodePoints.has, mem_close CodePoints.ascending_singleton, hself, ← Char.toNat_inj]
  refine or_iff_left ?_
  rintro ⟨f, hpair, hf⟩
  exact (h _ hpair).2 ((hself f).1 hf)

end Case

end PackageAudit
