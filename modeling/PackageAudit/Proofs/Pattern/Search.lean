import Mathlib.Data.List.Nodup
import Mathlib.Data.List.TakeWhile
import PackageAudit.Pattern.Search
import PackageAudit.Proofs.Pattern.Matches

/-!
# Proofs.Pattern.Search — a search finds a match if there is one

A search follows all ways to match at once, and of two that have passed the same set of the pattern
it drops one. Nothing is lost by this where all sets have different numbers, because the set that
was passed last determines what a pattern still needs (`Expr.behind?`).

* `Expr.behind?_of_step`, `Expr.behind?_of_behind?` — what a way to match still needs depends on
  the set that it passed last only;
* `Expr.nodup_numbers_numbered`, `Expr.matches_numbered` — numbered sets have different numbers,
  and the numbers do not matter for matches;
* `Expr.isMatch_iff` — a text has a match if and only if the pattern matches a part of it;
* `Expr.accepts_iff` — a text is accepted if and only if the pattern matches all of it.
-/

namespace PackageAudit

namespace Pattern

namespace Expr

variable {e f g : Expr} {s t : Spot} {p : Place} {number m n : Nat} {chars : CodePoints}

/-! ## Numbers of sets -/

/-- The numbers of the sets of a pattern. -/
def numbers : Expr → List Nat
  | empty => []
  | set number _ => [number]
  | look _ => []
  | seq e f => numbers e ++ numbers f
  | either e f => numbers e ++ numbers f
  | star _ e => numbers e
  | plus _ e => numbers e

/-- Sets are numbered one after the other. -/
theorem numbers_numberFrom (e : Expr) (n : Nat) :
    ∃ count, (numberFrom n e).2 = n + count ∧ (numberFrom n e).1.numbers = List.range' n count := by
  induction e generalizing n with
  | empty => exact ⟨0, rfl, rfl⟩
  | set number chars => exact ⟨1, rfl, rfl⟩
  | look condition => exact ⟨0, rfl, rfl⟩
  | seq e f ihe ihf =>
    obtain ⟨count, hnext, he⟩ := ihe n
    obtain ⟨count', hnext', hf⟩ := ihf (numberFrom n e).2
    refine ⟨count + count', ?_, ?_⟩
    · rw [numberFrom, hnext', hnext, Nat.add_assoc]
    · rw [numberFrom, numbers, he, hf, hnext, List.range'_append_1]
  | either e f ihe ihf =>
    obtain ⟨count, hnext, he⟩ := ihe n
    obtain ⟨count', hnext', hf⟩ := ihf (numberFrom n e).2
    refine ⟨count + count', ?_, ?_⟩
    · rw [numberFrom, hnext', hnext, Nat.add_assoc]
    · rw [numberFrom, numbers, he, hf, hnext, List.range'_append_1]
  | star greedy e ih => exact ih n
  | plus greedy e ih => exact ih n

/-- No two sets of a numbered pattern have the same number. -/
theorem nodup_numbers_numbered (e : Expr) : e.numbered.numbers.Nodup := by
  obtain ⟨count, -, hnumbers⟩ := numbers_numberFrom e 0
  rw [numbered, hnumbers]
  exact List.nodup_range'

theorem matches_star_congr {greedy : Bool} (h : ∀ s t, Matches e s t ↔ Matches f s t) :
    Matches (.star greedy e) s t ↔ Matches (.star greedy f) s t := by
  suffices hmono : ∀ {e f : Expr}, (∀ s t, Matches e s t → Matches f s t) →
      Matches (.star greedy e) s t → Matches (.star greedy f) s t from
    ⟨hmono fun s t => (h s t).1, hmono fun s t => (h s t).2⟩
  intro e f hsub hmatch
  generalize he : Expr.star greedy e = repeated at hmatch
  induction hmatch with
  | none =>
    cases he
    exact .none
  | more hfirst hne _ _ ih =>
    cases he
    exact .more (hsub _ _ hfirst) hne (ih rfl)
  | _ => cases he

/-- The numbers of sets do not matter for what is matched. -/
theorem matches_numberFrom (e : Expr) (n : Nat) :
    Matches (numberFrom n e).1 s t ↔ Matches e s t := by
  induction e generalizing n s t with
  | empty => exact Iff.rfl
  | set number chars => rw [numberFrom, matches_set, matches_set]
  | look condition => exact Iff.rfl
  | seq e f ihe ihf => simp only [numberFrom, matches_seq, ihe, ihf]
  | either e f ihe ihf => simp only [numberFrom, matches_either, ihe, ihf]
  | star greedy e ih => exact matches_star_congr fun s t => ih n
  | plus greedy e ih =>
    have hstar : ∀ s t, Matches (.star greedy (numberFrom n e).1) s t ↔
        Matches (.star greedy e) s t := fun s t => matches_star_congr fun s t => ih n
    simp only [numberFrom, matches_plus, ih, hstar]

theorem matches_numbered : Matches e.numbered s t ↔ Matches e s t :=
  matches_numberFrom e 0

/-! ## What comes behind a set -/

/-- What a pattern still needs when a match has passed the set of a number. -/
def behind? (number : Nat) : Expr → Option Expr
  | empty => none
  | set own _ => if own = number then some empty else none
  | look _ => none
  | seq e f => ((behind? number e).map (·.followedBy f)).or (behind? number f)
  | either e f => (behind? number e).or (behind? number f)
  | star greedy e => (behind? number e).map (·.followedBy (star greedy e))
  | plus greedy e => (behind? number e).map (·.followedBy (star greedy e))

theorem mem_numbers_of_behind? (h : e.behind? n = some g) : n ∈ e.numbers := by
  induction e generalizing g with
  | empty => cases h
  | set number chars =>
    rw [behind?] at h
    split at h
    · next heq => exact List.mem_singleton.2 heq.symm
    · cases h
  | look condition => cases h
  | seq e f ihe ihf =>
    rcases Option.or_eq_some_iff.1 h with h | ⟨-, h⟩
    · obtain ⟨rest, hrest, -⟩ := Option.map_eq_some_iff.1 h
      exact List.mem_append_left _ (ihe hrest)
    · exact List.mem_append_right _ (ihf h)
  | either e f ihe ihf =>
    rcases Option.or_eq_some_iff.1 h with h | ⟨-, h⟩
    · exact List.mem_append_left _ (ihe h)
    · exact List.mem_append_right _ (ihf h)
  | star greedy e ih =>
    obtain ⟨rest, hrest, -⟩ := Option.map_eq_some_iff.1 h
    exact ih hrest
  | plus greedy e ih =>
    obtain ⟨rest, hrest, -⟩ := Option.map_eq_some_iff.1 h
    exact ih hrest

/-- A number of the second part is none of the first one. -/
theorem behind?_eq_none (hdisjoint : e.numbers.Disjoint f.numbers) (h : f.behind? n = some g) :
    e.behind? n = none := by
  cases he : e.behind? n with
  | none => rfl
  | some rest =>
    exact absurd (mem_numbers_of_behind? h) (hdisjoint (mem_numbers_of_behind? he))

theorem behind?_seq_left (h : e.behind? n = some g) :
    (seq e f).behind? n = some (g.followedBy f) := by
  rw [behind?, h]
  rfl

theorem behind?_seq_right (hdisjoint : e.numbers.Disjoint f.numbers) (h : f.behind? n = some g) :
    (seq e f).behind? n = some g := by
  rw [behind?, behind?_eq_none hdisjoint h]
  exact h

theorem behind?_either_left (h : e.behind? n = some g) : (either e f).behind? n = some g := by
  rw [behind?, h]
  rfl

theorem behind?_either_right (hdisjoint : e.numbers.Disjoint f.numbers)
    (h : f.behind? n = some g) : (either e f).behind? n = some g := by
  rw [behind?, behind?_eq_none hdisjoint h]
  exact h

/-- The ways to begin with `first.followedBy second` are those of the sequence. -/
theorem mem_heads_followedBy {h : Head} :
    h ∈ (e.followedBy f).heads p ↔ h ∈ (seq e f).heads p := by
  unfold followedBy
  split
  · rw [mem_heads_seq]
    simp [heads]
  · exact Iff.rfl

/-- A match that begins with a character goes on with what comes behind its set. -/
theorem behind?_of_step (he : e.numbers.Nodup) (h : .step n chars g ∈ e.heads p) :
    e.behind? n = some g := by
  -- On the pattern. The numbers of its parts are apart, so the set is in the part that was begun.
  induction e generalizing g with
  | empty => simp [heads] at h
  | set number chars =>
    obtain ⟨rfl, -, rfl⟩ := Head.step.inj (List.mem_singleton.1 h)
    exact if_pos rfl
  | look condition =>
    rw [heads] at h
    split at h <;> simp at h
  | seq e f ihe ihf =>
    obtain ⟨hnodup, hnodup', hdisjoint⟩ := List.nodup_append'.1 he
    rcases mem_heads_seq.1 h with ⟨-, h⟩ | ⟨_, _, rest, hfirst, heq⟩
    · exact behind?_seq_right hdisjoint (ihf hnodup' h)
    · cases heq
      exact behind?_seq_left (ihe hnodup hfirst)
  | either e f ihe ihf =>
    obtain ⟨hnodup, hnodup', hdisjoint⟩ := List.nodup_append'.1 he
    rcases mem_heads_either.1 h with h | h
    · exact behind?_either_left (ihe hnodup h)
    · exact behind?_either_right hdisjoint (ihf hnodup' h)
  | star greedy e ih =>
    rcases mem_heads_star.1 h with heq | ⟨_, _, rest, hfirst, heq⟩
    · cases heq
    · cases heq
      exact congrArg (Option.map _) (ih he hfirst)
  | plus greedy e ih =>
    rcases mem_heads_plus.1 h with ⟨-, heq⟩ | ⟨_, _, rest, hfirst, heq⟩
    · cases heq
    · cases heq
      exact congrArg (Option.map _) (ih he hfirst)

/--
What comes behind a set begins with sets of the pattern, and goes on with what is behind them.
-/
theorem behind?_of_behind? (he : e.numbers.Nodup) (hbehind : e.behind? m = some f)
    (h : .step n chars g ∈ f.heads p) : e.behind? n = some g := by
  induction e generalizing f g with
  | empty => cases hbehind
  | set number chars =>
    rw [behind?] at hbehind
    split at hbehind
    · cases hbehind
      simp [heads] at h
    · cases hbehind
  | look condition => cases hbehind
  | seq e₁ e₂ ih₁ ih₂ =>
    obtain ⟨hnodup, hnodup', hdisjoint⟩ := List.nodup_append'.1 he
    rcases Option.or_eq_some_iff.1 hbehind with hbehind | ⟨-, hbehind⟩
    · obtain ⟨rest, hrest, rfl⟩ := Option.map_eq_some_iff.1 hbehind
      rcases mem_heads_seq.1 (mem_heads_followedBy.1 h) with ⟨-, h⟩ | ⟨_, _, rest', hfirst, heq⟩
      · exact behind?_seq_right hdisjoint (behind?_of_step hnodup' h)
      · cases heq
        exact behind?_seq_left (ih₁ hnodup hrest hfirst)
    · exact behind?_seq_right hdisjoint (ih₂ hnodup' hbehind h)
  | either e₁ e₂ ih₁ ih₂ =>
    obtain ⟨hnodup, hnodup', hdisjoint⟩ := List.nodup_append'.1 he
    rcases Option.or_eq_some_iff.1 hbehind with hbehind | ⟨-, hbehind⟩
    · exact behind?_either_left (ih₁ hnodup hbehind h)
    · exact behind?_either_right hdisjoint (ih₂ hnodup' hbehind h)
  | star greedy e ih =>
    obtain ⟨rest, hrest, rfl⟩ := Option.map_eq_some_iff.1 hbehind
    rcases mem_heads_seq.1 (mem_heads_followedBy.1 h) with ⟨-, h⟩ | ⟨_, _, rest', hfirst, heq⟩
    · exact behind?_of_step (e := star greedy e) he h
    · cases heq
      exact congrArg (Option.map _) (ih he hrest hfirst)
  | plus greedy e ih =>
    obtain ⟨rest, hrest, rfl⟩ := Option.map_eq_some_iff.1 hbehind
    rcases mem_heads_seq.1 (mem_heads_followedBy.1 h) with ⟨-, h⟩ | ⟨_, _, rest', hfirst, heq⟩
    · exact behind?_of_step (e := star greedy e) he h
    · cases heq
      exact congrArg (Option.map _) (ih he hrest hfirst)

/-! ## Threads -/

/-- A thread that a match of a pattern can come to: it needs all of it, or what is behind a set. -/
def Within (e : Expr) (t : Thread) : Prop :=
  t.rest = e ∨ e.behind? t.passed = some t.rest

/-- Ways in which a search for a pattern can go on. -/
def Offered (e : Expr) (heads : List (Nat × Head)) : Prop :=
  ∀ start n chars f, (start, .step n chars f) ∈ heads → e.behind? n = some f

theorem mem_of_mem_distinctThreads {t : Thread} {threads : List Thread} {seen : List Nat}
    (h : t ∈ distinctThreads seen threads) : t ∈ threads := by
  induction threads generalizing seen with
  | nil => cases h
  | cons first threads ih =>
    rw [distinctThreads] at h
    split at h
    · exact List.mem_cons_of_mem _ (ih h)
    · rcases List.mem_cons.1 h with rfl | h
      · exact List.mem_cons_self
      · exact List.mem_cons_of_mem _ (ih h)

/-- Of the threads that have passed a set, one is kept. -/
theorem exists_mem_distinctThreads {t : Thread} {threads : List Thread} {seen : List Nat}
    (h : t ∈ threads) (hnew : t.passed ∉ seen) :
    ∃ t' ∈ distinctThreads seen threads, t'.passed = t.passed := by
  induction threads generalizing seen with
  | nil => cases h
  | cons first threads ih =>
    rw [distinctThreads]
    by_cases hseen : seen.contains first.passed = true
    · rw [if_pos hseen]
      rcases List.mem_cons.1 h with rfl | h
      · exact absurd (List.contains_iff_mem.1 hseen) hnew
      · exact ih h hnew
    · rw [if_neg hseen]
      by_cases heq : first.passed = t.passed
      · exact ⟨first, List.mem_cons_self, heq⟩
      · rcases List.mem_cons.1 h with rfl | h
        · exact absurd rfl heq
        · obtain ⟨t', ht', hpassed⟩ := @ih (first.passed :: seen) h
            (List.not_mem_cons_of_ne_of_not_mem (Ne.symm heq) hnew)
          exact ⟨t', List.mem_cons_of_mem _ ht', hpassed⟩

/-- The threads behind a character are those that the ways to go on lead to, one for each set. -/
theorem exists_mem_step_iff {heads : List (Nat × Head)} {c : Char} (hoffered : Offered e heads)
    (P : Expr → Prop) : (∃ t ∈ step c heads, P t.rest) ↔
      ∃ start n chars f, (start, .step n chars f) ∈ heads ∧ chars.has c = true ∧ P f := by
  constructor
  · rintro ⟨t, ht, hP⟩
    obtain ⟨⟨start, _ | ⟨n, chars, f⟩⟩, hmem, heq⟩ :=
      List.mem_filterMap.1 (mem_of_mem_distinctThreads ht)
    · cases heq
    · obtain ⟨hc, heq⟩ := Option.ite_none_right_eq_some.1 heq
      cases heq
      exact ⟨start, n, chars, f, hmem, hc, hP⟩
  · rintro ⟨start, n, chars, f, hmem, hc, hP⟩
    obtain ⟨t, ht, hpassed⟩ : ∃ t ∈ step c heads, t.passed = n :=
      @exists_mem_distinctThreads ⟨start, n, f⟩ _ []
        (List.mem_filterMap.2 ⟨_, hmem, if_pos hc⟩) List.not_mem_nil
    refine ⟨t, ht, ?_⟩
    -- The thread that is kept has passed the same set, and so it needs the same.
    obtain ⟨⟨start', _ | ⟨n', chars', f'⟩⟩, hmem', heq⟩ :=
      List.mem_filterMap.1 (mem_of_mem_distinctThreads ht)
    · cases heq
    · obtain ⟨-, heq⟩ := Option.ite_none_right_eq_some.1 heq
      cases heq
      obtain rfl : n' = n := hpassed
      have hsame : some f' = some f :=
        (hoffered _ _ _ _ hmem').symm.trans (hoffered _ _ _ _ hmem)
      cases hsame
      exact hP

theorem within_of_mem_step {heads : List (Nat × Head)} {c : Char} (hoffered : Offered e heads)
    {t : Thread} (h : t ∈ step c heads) : e.Within t := by
  obtain ⟨⟨start, _ | ⟨n, chars, f⟩⟩, hmem, heq⟩ :=
    List.mem_filterMap.1 (mem_of_mem_distinctThreads h)
  · cases heq
  · obtain ⟨-, heq⟩ := Option.ite_none_right_eq_some.1 heq
    cases heq
    exact .inr (hoffered _ _ _ _ hmem)

theorem mem_threadHeads_iff {threads : List Thread} {start : Nat} {h : Head} :
    (start, h) ∈ threads.flatMap (Thread.heads p) ↔
      ∃ t ∈ threads, t.start = start ∧ h ∈ t.rest.heads p := by
  rw [List.mem_flatMap]
  refine exists_congr fun t => and_congr_right fun _ => ?_
  rw [Thread.heads, List.mem_map]
  constructor
  · rintro ⟨h, hmem, heq⟩
    cases heq
    exact ⟨rfl, hmem⟩
  · rintro ⟨rfl, hmem⟩
    exact ⟨h, hmem, rfl⟩

theorem offered_threadHeads (he : e.numbers.Nodup) {threads : List Thread}
    (hthreads : ∀ t ∈ threads, e.Within t) : Offered e (threads.flatMap (Thread.heads p)) := by
  intro start n chars f hmem
  obtain ⟨t, ht, -, hmem⟩ := mem_threadHeads_iff.1 hmem
  rcases hthreads t ht with heq | hbehind
  · exact behind?_of_step he (heq ▸ hmem)
  · exact behind?_of_behind? he hbehind hmem

/-! ## Whole texts -/

/-- The rest of a text is accepted if one of the threads matches all of it. -/
theorem acceptsFrom_iff (he : e.numbers.Nodup) {before : Option Char} {threads : List Thread}
    {text : List Char} (hthreads : ∀ t ∈ threads, e.Within t) :
    acceptsFrom before threads text = true ↔
      ∃ t ∈ threads, ∃ last, Matches t.rest ⟨before, text⟩ ⟨last, []⟩ := by
  induction text generalizing before threads with
  | nil =>
    rw [acceptsFrom, List.any_eq_true]
    constructor
    · rintro ⟨⟨start, _ | _⟩, hmem, hdone⟩
      · obtain ⟨t, ht, -, hmem⟩ := mem_threadHeads_iff.1 hmem
        exact ⟨t, ht, before, matches_iff_heads.2 ⟨.done, hmem, rfl⟩⟩
      · cases hdone
    · rintro ⟨t, ht, last, hmatch⟩
      obtain ⟨_ | _, hmem, hleads⟩ := matches_iff_heads.1 hmatch
      · exact ⟨(t.start, .done), mem_threadHeads_iff.2 ⟨t, ht, rfl, hmem⟩, rfl⟩
      · obtain ⟨c, rest, hrest, -⟩ := hleads
        cases hrest
  | cons c rest ih =>
    -- A match goes on with one of the ways that a thread offers, and the thread behind it.
    have hoffered := offered_threadHeads he hthreads (p := ⟨before, some c⟩)
    have hnext := exists_mem_step_iff (c := c) hoffered
      fun f => ∃ last, Matches f ⟨some c, rest⟩ ⟨last, []⟩
    have hgo := @ih (some c) (step c (threads.flatMap (Thread.heads ⟨before, some c⟩))) fun t ht =>
      within_of_mem_step hoffered ht
    rw [acceptsFrom, Bool.and_eq_true, hgo]
    constructor
    · rintro ⟨-, hfound⟩
      obtain ⟨start, n, chars, f, hmem, hc, last, hmatch⟩ := hnext.1 hfound
      obtain ⟨t, ht, -, hmem⟩ := mem_threadHeads_iff.1 hmem
      exact ⟨t, ht, last, matches_iff_heads.2 ⟨_, hmem, c, rest, rfl, hc, hmatch⟩⟩
    · rintro ⟨t, ht, last, hmatch⟩
      obtain ⟨_ | ⟨n, chars, f⟩, hmem, hleads⟩ := matches_iff_heads.1 hmatch
      · cases hleads
      · obtain ⟨c', rest', heq, hc, hmatch⟩ := hleads
        cases heq
        have hfound := hnext.2
          ⟨t.start, n, chars, f, mem_threadHeads_iff.2 ⟨t, ht, rfl, hmem⟩, hc, last, hmatch⟩
        refine ⟨?_, hfound⟩
        obtain ⟨t', ht', -⟩ := hfound
        simpa using List.ne_nil_of_mem ht'

/-- A text is accepted if the pattern matches all of it. -/
theorem accepts_iff (he : e.numbers.Nodup) {text : List Char} :
    e.accepts text = true ↔ ∃ last, Matches e ⟨none, text⟩ ⟨last, []⟩ := by
  rw [accepts, acceptsFrom_iff he (by simp [Within])]
  simp

/-! ## Parts of texts -/

/-- A pattern matches something at a spot or behind it. -/
def FoundFrom (e : Expr) (s : Spot) : Prop :=
  ∃ front t u, s.Spans front t ∧ Matches e t u

theorem foundFrom_nil {before : Option Char} :
    e.FoundFrom ⟨before, []⟩ ↔ ∃ u, Matches e ⟨before, []⟩ u := by
  constructor
  · rintro ⟨front, t, u, hspans, hmatch⟩
    obtain ⟨rfl, hrest⟩ := List.append_eq_nil_iff.1 hspans.1.symm
    have ht : t = ⟨before, []⟩ := hspans.eq.trans (by rw [hrest]; rfl)
    exact ⟨u, ht ▸ hmatch⟩
  · rintro ⟨u, hmatch⟩
    exact ⟨[], _, u, Spot.spans_nil _, hmatch⟩

theorem foundFrom_cons {before : Option Char} {c : Char} {rest : List Char} :
    e.FoundFrom ⟨before, c :: rest⟩ ↔
      (∃ u, Matches e ⟨before, c :: rest⟩ u) ∨ e.FoundFrom ⟨some c, rest⟩ := by
  constructor
  · rintro ⟨front, t, u, hspans, hmatch⟩
    cases front with
    | nil =>
      have hrest : t.rest = c :: rest := hspans.1.symm
      obtain rfl : t = ⟨before, c :: rest⟩ := hspans.eq.trans (by rw [hrest]; rfl)
      exact .inl ⟨u, hmatch⟩
    | cons c' front =>
      obtain ⟨rfl, hrest⟩ := List.cons.inj hspans.1
      refine .inr ⟨front, t, u, ⟨hrest, ?_⟩, hmatch⟩
      rw [hspans.2, List.getLast?_cons]
      cases front.getLast? <;> rfl
  · rintro (⟨u, hmatch⟩ | ⟨front, t, u, hspans, hmatch⟩)
    · exact ⟨[], _, u, Spot.spans_nil _, hmatch⟩
    · exact ⟨c :: front, t, u, (Spot.spans_cons before c rest).trans hspans, hmatch⟩

/-- All ways to go on at a place: those of the threads, and of new ones if nothing was found. -/
def offers (e : Expr) (state : State) (i : Nat) (place : Place) : List (Nat × Head) :=
  state.threads.flatMap (Thread.heads place) ++
    if state.found.isNone then (e.heads place).map (i, ·) else []

theorem survey_of_done {state : State} {i : Nat} {x : Nat × Head}
    (hmem : x ∈ offers e state i p) (hdone : x.2 = .done) : (survey e state i p).2.isSome := by
  unfold survey
  dsimp only
  split
  · rfl
  · next hnone =>
    -- If nothing is left behind those that are not done, then none is done.
    have hall : (offers e state i p).takeWhile (!·.2.isDone) = offers e state i p :=
      (List.takeWhile_prefix _).eq_of_length_le (List.drop_eq_nil_iff.1 hnone)
    have hwaiting := List.takeWhile_eq_self_iff.1 hall x hmem
    rw [hdone] at hwaiting
    cases hwaiting

theorem survey_of_waiting {state : State} {i : Nat}
    (h : ∀ x ∈ offers e state i p, x.2 ≠ .done) :
    survey e state i p = (offers e state i p, state.found) := by
  have hwaiting : (offers e state i p).takeWhile (!·.2.isDone) = offers e state i p := by
    refine List.takeWhile_eq_self_iff.2 fun x hx => ?_
    cases hhead : x.2 with
    | done => exact absurd hhead (h x hx)
    | step number chars f => rfl
  rw [offers] at hwaiting ⊢
  unfold survey
  dsimp only
  rw [hwaiting, List.drop_length]

theorem found_survey {state : State} {i : Nat} (h : state.found.isSome) :
    (survey e state i p).2.isSome := by
  unfold survey
  dsimp only
  split
  · rfl
  · exact h

/-- What is found stays found. -/
theorem searchFrom_of_found {state : State} {i : Nat} {before : Option Char} {text : List Char}
    (h : state.found.isSome) : (searchFrom e state i before text).isSome := by
  induction text generalizing state i before with
  | nil => exact found_survey h
  | cons c rest ih =>
    rw [searchFrom]
    dsimp only
    split
    · exact found_survey h
    · exact ih (found_survey h)

theorem exists_offer_iff {state : State} {i : Nat} (hfound : state.found = none) :
    (∃ x ∈ offers e state i s.place, ∃ u, x.2.Leads s u) ↔
      (∃ t ∈ state.threads, ∃ u, Matches t.rest s u) ∨ ∃ u, Matches e s u := by
  have hnew : offers e state i s.place =
      state.threads.flatMap (Thread.heads s.place) ++ (e.heads s.place).map (i, ·) := by
    rw [offers, hfound]
    rfl
  simp only [hnew, List.mem_append, or_and_right, exists_or, matches_iff_heads]
  refine or_congr ?_ ?_
  · constructor
    · rintro ⟨⟨start, h⟩, hmem, u, hleads⟩
      obtain ⟨t, ht, -, hmem⟩ := mem_threadHeads_iff.1 hmem
      exact ⟨t, ht, u, h, hmem, hleads⟩
    · rintro ⟨t, ht, u, h, hmem, hleads⟩
      exact ⟨(t.start, h), mem_threadHeads_iff.2 ⟨t, ht, rfl, hmem⟩, u, hleads⟩
  · constructor
    · rintro ⟨x, hmem, u, hleads⟩
      obtain ⟨h, hhead, rfl⟩ := List.mem_map.1 hmem
      exact ⟨u, h, hhead, hleads⟩
    · rintro ⟨u, h, hmem, hleads⟩
      exact ⟨(i, h), List.mem_map_of_mem hmem, u, hleads⟩

theorem offered_offers (he : e.numbers.Nodup) {state : State} {i : Nat}
    (hthreads : ∀ t ∈ state.threads, e.Within t) : Offered e (offers e state i p) := by
  intro start n chars f hmem
  rcases List.mem_append.1 hmem with hmem | hmem
  · exact offered_threadHeads he hthreads start n chars f hmem
  · split at hmem
    · obtain ⟨h, hmem, heq⟩ := List.mem_map.1 hmem
      cases heq
      exact behind?_of_step he hmem
    · cases hmem

/-- Where nothing is found yet and nothing is complete, a match goes on with a character. -/
theorem exists_offer_cons_iff {state : State} {i : Nat} {before : Option Char} {c : Char}
    {rest : List Char} (he : e.numbers.Nodup) (hthreads : ∀ t ∈ state.threads, e.Within t)
    (hwaiting : ∀ x ∈ offers e state i ⟨before, some c⟩, x.2 ≠ .done) :
    (∃ x ∈ offers e state i ⟨before, some c⟩, ∃ u, x.2.Leads ⟨before, c :: rest⟩ u) ↔
      ∃ t ∈ step c (offers e state i ⟨before, some c⟩), ∃ u, Matches t.rest ⟨some c, rest⟩ u := by
  rw [exists_mem_step_iff (offered_offers he hthreads) fun f => ∃ u, Matches f ⟨some c, rest⟩ u]
  constructor
  · rintro ⟨⟨start, _ | ⟨n, chars, f⟩⟩, hmem, u, hleads⟩
    · exact absurd rfl (hwaiting _ hmem)
    · obtain ⟨c', rest', heq, hc, hmatch⟩ := hleads
      cases heq
      exact ⟨start, n, chars, f, hmem, hc, u, hmatch⟩
  · rintro ⟨start, n, chars, f, hmem, hc, u, hmatch⟩
    exact ⟨_, hmem, u, c, rest, rfl, hc, hmatch⟩

/--
A search finds something if something was found before, if one of its threads matches, or if the
pattern matches anywhere from here on.
-/
theorem isSome_searchFrom_iff (he : e.numbers.Nodup) {state : State} {i : Nat}
    {before : Option Char} {text : List Char} (hthreads : ∀ t ∈ state.threads, e.Within t) :
    (searchFrom e state i before text).isSome = true ↔ state.found.isSome = true ∨
      (∃ t ∈ state.threads, ∃ u, Matches t.rest ⟨before, text⟩ u) ∨
        e.FoundFrom ⟨before, text⟩ := by
  -- On the text. A complete way to go on is a match that ends here; if there is none, all ways go
  -- on with the next character.
  induction text generalizing state i before with
  | nil =>
    rw [foundFrom_nil]
    cases hfound : state.found with
    | some span => exact iff_of_true (searchFrom_of_found (by rw [hfound]; rfl)) (.inl rfl)
    | none =>
      rw [← exists_offer_iff (i := i) hfound]
      by_cases hdone : ∃ x ∈ offers e state i ⟨before, none⟩, x.2 = .done
      · obtain ⟨x, hmem, hx⟩ := hdone
        refine iff_of_true (survey_of_done hmem hx) (.inr ⟨x, hmem, ⟨before, []⟩, ?_⟩)
        rw [hx]
        rfl
      · have hwaiting : ∀ x ∈ offers e state i ⟨before, none⟩, x.2 ≠ .done :=
          fun x hmem hx => hdone ⟨x, hmem, hx⟩
        rw [searchFrom, survey_of_waiting hwaiting, hfound]
        refine iff_of_false Bool.false_ne_true ?_
        rintro (h | ⟨⟨start, _ | _⟩, hmem, u, hleads⟩)
        · cases h
        · exact hwaiting _ hmem rfl
        · obtain ⟨c, rest, hrest, -⟩ := hleads
          cases hrest
  | cons c rest ih =>
    cases hfound : state.found with
    | some span => exact iff_of_true (searchFrom_of_found (by rw [hfound]; rfl)) (.inl rfl)
    | none =>
      rw [foundFrom_cons, ← or_assoc (a := ∃ t ∈ state.threads, _),
        ← exists_offer_iff (i := i) hfound]
      by_cases hdone : ∃ x ∈ offers e state i ⟨before, some c⟩, x.2 = .done
      · obtain ⟨x, hmem, hx⟩ := hdone
        have hsurvey := survey_of_done hmem hx
        refine iff_of_true ?_ (.inr (.inl ⟨x, hmem, ⟨before, c :: rest⟩, ?_⟩))
        · rw [searchFrom]
          dsimp only
          split
          · exact hsurvey
          · exact searchFrom_of_found hsurvey
        · rw [hx]
          rfl
      · have hwaiting : ∀ x ∈ offers e state i ⟨before, some c⟩, x.2 ≠ .done :=
          fun x hmem hx => hdone ⟨x, hmem, hx⟩
        have hgo := @ih ⟨step c (offers e state i ⟨before, some c⟩), none⟩ (i + 1) (some c)
          fun t ht => within_of_mem_step (offered_offers he hthreads) ht
        rw [searchFrom, survey_of_waiting hwaiting, hfound]
        refine hgo.trans (or_congr Iff.rfl (or_congr_left ?_))
        exact (exists_offer_cons_iff he hthreads hwaiting).symm

/-- A text has a match if the pattern matches a part of it. -/
theorem isMatch_iff (he : e.numbers.Nodup) {text : List Char} :
    e.isMatch text = true ↔ e.FoundFrom ⟨none, text⟩ := by
  rw [isMatch, span?, isSome_searchFrom_iff he (List.forall_mem_nil _)]
  simp

/-- There is a first match if there is a match at all. -/
theorem isSome_find? {text : List Char} : (e.find? text).isSome = e.isMatch text :=
  Option.isSome_map

end Expr

end Pattern

end PackageAudit
