import Mathlib.Data.List.Basic
import PackageAudit.Pattern.Expr

/-!
# Proofs.Pattern.Matches — what patterns match

What a pattern matches is said without any search: a set takes one character, a condition takes
none, and the combinations do what their names say.

* `Spot` — a place in a text, with all that follows it;
* `Expr.Matches` — a pattern matches what lies between two spots;
* `Expr.Matches.spans` — the second of them is behind the first;
* `Expr.matches_iff_heads` — a match begins in one of the ways of `Expr.heads`.
-/

namespace PackageAudit

namespace Pattern

/-- A place in a text: the character before it, and all characters that follow. -/
structure Spot where
  before : Option Char
  rest : List Char

namespace Spot

variable {s t u : Spot}

/-- The characters on the two sides of a spot. -/
def place (s : Spot) : Place := ⟨s.before, s.rest.head?⟩

/-- A spot and a later one, with the text between them. -/
def Spans (s : Spot) (text : List Char) (t : Spot) : Prop :=
  s.rest = text ++ t.rest ∧ t.before = text.getLast?.or s.before

theorem spans_nil (s : Spot) : s.Spans [] s :=
  ⟨rfl, rfl⟩

theorem spans_cons (before : Option Char) (c : Char) (rest : List Char) :
    Spans ⟨before, c :: rest⟩ [c] ⟨some c, rest⟩ :=
  ⟨rfl, rfl⟩

theorem Spans.trans {text more : List Char} (h : s.Spans text t) (h' : t.Spans more u) :
    s.Spans (text ++ more) u := by
  refine ⟨by rw [h.1, h'.1, List.append_assoc], ?_⟩
  rw [h'.2, h.2, List.getLast?_append, Option.or_assoc]

theorem spans_of_rest {c : Char} {rest : List Char} (h : s.rest = c :: rest) :
    s.Spans [c] ⟨some c, rest⟩ :=
  ⟨h, rfl⟩

/-- Between the parts of a text there is a spot. -/
theorem Spans.of_append {text more : List Char} (h : s.Spans (text ++ more) u) :
    ∃ t, s.Spans text t ∧ t.Spans more u := by
  refine ⟨⟨text.getLast?.or s.before, more ++ u.rest⟩, ⟨?_, rfl⟩, rfl, ?_⟩
  · rw [h.1, List.append_assoc]
  · rw [h.2, List.getLast?_append, Option.or_assoc]

theorem spans_nil_iff : s.Spans [] t ↔ t = s := by
  obtain ⟨before, rest⟩ := t
  constructor
  · rintro ⟨hrest, hbefore⟩
    exact congrArg₂ Spot.mk hbefore hrest.symm
  · rintro rfl
    exact spans_nil _

/-- The spot behind a text. -/
def behind (before : Option Char) (text rest : List Char) : Spot :=
  ⟨text.getLast?.or before, rest⟩

theorem spans_behind (before : Option Char) (text rest : List Char) :
    Spans ⟨before, text ++ rest⟩ text (behind before text rest) :=
  ⟨rfl, rfl⟩

/-- A text behind another one. -/
theorem spans_behind_append (before : Option Char) (front text rest : List Char) :
    (behind before front (text ++ rest)).Spans text (behind before (front ++ text) rest) :=
  ⟨rfl, by rw [behind, List.getLast?_append, Option.or_assoc]; rfl⟩

theorem Spans.eq {text : List Char} (h : s.Spans text t) : t = behind s.before text t.rest := by
  cases t
  exact congrArg (Spot.mk · _) h.2

end Spot

namespace Expr

variable {e f : Expr} {s t u : Spot} {number : Nat} {chars : CodePoints} {greedy : Bool}

/-! ## Matches -/

/-- A pattern matches what lies between two spots. -/
inductive Matches : Expr → Spot → Spot → Prop where
  | empty {s : Spot} : Matches .empty s s
  | set {number : Nat} {chars : CodePoints} {before : Option Char} {c : Char} {rest : List Char}
      (h : chars.has c = true) : Matches (.set number chars) ⟨before, c :: rest⟩ ⟨some c, rest⟩
  | look {condition : Look} {s : Spot} (h : condition.holds s.place = true) :
      Matches (.look condition) s s
  | seq {e f : Expr} {s t u : Spot} (he : Matches e s t) (hf : Matches f t u) :
      Matches (.seq e f) s u
  | first {e f : Expr} {s t : Spot} (h : Matches e s t) : Matches (.either e f) s t
  | second {e f : Expr} {s t : Spot} (h : Matches f s t) : Matches (.either e f) s t
  | none {greedy : Bool} {e : Expr} {s : Spot} : Matches (.star greedy e) s s
  | more {greedy : Bool} {e : Expr} {s t u : Spot} (he : Matches e s t) (hne : t ≠ s)
      (h : Matches (.star greedy e) t u) : Matches (.star greedy e) s u
  | plus {greedy : Bool} {e : Expr} {s t u : Spot} (he : Matches e s t)
      (h : Matches (.star greedy e) t u) : Matches (.plus greedy e) s u

/-- A match ends behind its text. -/
theorem Matches.spans (h : Matches e s t) : ∃ text, s.Spans text t := by
  induction h with
  | empty => exact ⟨[], Spot.spans_nil _⟩
  | set => exact ⟨_, Spot.spans_cons _ _ _⟩
  | look => exact ⟨[], Spot.spans_nil _⟩
  | first _ ih => exact ih
  | second _ ih => exact ih
  | none => exact ⟨[], Spot.spans_nil _⟩
  | seq _ _ ih ih' =>
    obtain ⟨⟨text, htext⟩, more, hmore⟩ := ih, ih'
    exact ⟨text ++ more, htext.trans hmore⟩
  | more _ _ _ ih ih' =>
    obtain ⟨⟨text, htext⟩, more, hmore⟩ := ih, ih'
    exact ⟨text ++ more, htext.trans hmore⟩
  | plus _ _ ih ih' =>
    obtain ⟨⟨text, htext⟩, more, hmore⟩ := ih, ih'
    exact ⟨text ++ more, htext.trans hmore⟩

theorem matches_empty : Matches .empty s t ↔ t = s :=
  ⟨fun h => by cases h; rfl, fun h => h ▸ .empty⟩

theorem matches_set : Matches (.set number chars) s t ↔
    ∃ c rest, s.rest = c :: rest ∧ chars.has c = true ∧ t = ⟨some c, rest⟩ := by
  constructor
  · rintro (_ | ⟨h⟩)
    exact ⟨_, _, rfl, h, rfl⟩
  · obtain ⟨before, rest⟩ := s
    rintro ⟨c, rest, rfl, h, rfl⟩
    exact .set h

theorem matches_look {condition : Look} :
    Matches (.look condition) s t ↔ condition.holds s.place = true ∧ t = s := by
  constructor
  · intro h
    cases h with
    | look h => exact ⟨h, rfl⟩
  · rintro ⟨h, rfl⟩
    exact .look h

theorem matches_seq : Matches (.seq e f) s t ↔ ∃ u, Matches e s u ∧ Matches f u t :=
  ⟨fun h => by cases h with | seq he hf => exact ⟨_, he, hf⟩, fun ⟨_, he, hf⟩ => .seq he hf⟩

theorem matches_either : Matches (.either e f) s t ↔ Matches e s t ∨ Matches f s t := by
  constructor
  · intro h
    cases h with
    | first h => exact .inl h
    | second h => exact .inr h
  · exact fun h => h.elim .first .second

theorem matches_star : Matches (.star greedy e) s t ↔
    t = s ∨ ∃ u, Matches e s u ∧ u ≠ s ∧ Matches (.star greedy e) u t := by
  constructor
  · intro h
    cases h with
    | none => exact .inl rfl
    | more he hne h => exact .inr ⟨_, he, hne, h⟩
  · rintro (rfl | ⟨u, he, hne, h⟩)
    · exact .none
    · exact .more he hne h

theorem matches_plus : Matches (.plus greedy e) s t ↔
    ∃ u, Matches e s u ∧ Matches (.star greedy e) u t :=
  ⟨fun h => by cases h with | plus he h => exact ⟨_, he, h⟩, fun ⟨_, he, h⟩ => .plus he h⟩

theorem matches_followedBy : Matches (e.followedBy f) s t ↔ Matches (.seq e f) s t := by
  unfold followedBy
  split
  · simp [matches_seq, matches_empty]
  · exact Iff.rfl

/-! ## Sequences and choices -/

theorem matches_seqs_nil : Matches (seqs []) s t ↔ t = s :=
  matches_empty

theorem matches_seqs_cons {rest : List Expr} :
    Matches (seqs (e :: rest)) s t ↔ ∃ u, Matches e s u ∧ Matches (seqs rest) u t := by
  cases rest with
  | nil =>
    simp only [matches_seqs_nil]
    exact ⟨fun h => ⟨t, h, rfl⟩, fun ⟨u, h, hu⟩ => hu ▸ h⟩
  | cons f rest => exact matches_seq

theorem matches_choice {choices : List Expr} (hne : choices ≠ []) :
    Matches (choice choices) s t ↔ ∃ e ∈ choices, Matches e s t := by
  induction choices with
  | nil => exact absurd rfl hne
  | cons e rest ih =>
    cases rest with
    | nil => simp [choice]
    | cons f rest =>
      have hrest := ih (List.cons_ne_nil f rest)
      exact (matches_either.trans (or_congr_right hrest)).trans
        (List.exists_mem_cons_iff (Matches · s t) e (f :: rest)).symm

/-- A sequence of sets matches the texts that take each character from the set of its place. -/
theorem matches_seqs_sets {α : Type} {chars : α → CodePoints} {places : List α} :
    Matches (seqs (places.map fun x => set number (chars x))) s t ↔
      ∃ text, s.Spans text t ∧ List.Forall₂ (fun x c => (chars x).has c = true) places text := by
  induction places generalizing s with
  | nil =>
    rw [List.map_nil, matches_seqs_nil]
    constructor
    · rintro rfl
      exact ⟨[], Spot.spans_nil _, .nil⟩
    · rintro ⟨_, hspans, ⟨⟩⟩
      exact Spot.spans_nil_iff.1 hspans
  | cons x places ih =>
    simp only [List.map_cons, matches_seqs_cons, matches_set, ih]
    constructor
    · rintro ⟨_, ⟨c, rest, hrest, hc, rfl⟩, text, hspans, hplaces⟩
      exact ⟨c :: text, (Spot.spans_of_rest hrest).trans hspans, .cons hc hplaces⟩
    · rintro ⟨_, hspans, hplaces⟩
      cases hplaces with
      | @cons _ c _ text hc hplaces =>
        obtain ⟨u, hfirst, hmore⟩ := @Spot.Spans.of_append _ _ [c] _ hspans
        exact ⟨_, ⟨c, u.rest, hfirst.1, hc, hfirst.eq⟩, text, hmore, hplaces⟩

/-! ## Beginnings -/

section Heads

variable {p : Place} {h : Head}

theorem mem_orElse {first second : List Head} :
    h ∈ orElse first second ↔ h ∈ first ∨ h ∈ second := by
  unfold orElse
  rw [List.mem_append]
  refine or_congr_right' fun hfirst => ?_
  split
  · -- What is dropped is nothing that `first` does not have.
    next hdone =>
    rw [List.mem_filter, and_iff_left_iff_imp]
    intro _
    cases h with
    | step number chars f => rfl
    | done =>
      obtain ⟨head, hhead, hisDone⟩ := List.any_eq_true.1 hdone
      cases head with
      | done => exact absurd hhead hfirst
      | step number chars f => cases hisDone
  · exact Iff.rfl

theorem mem_heads_seq : h ∈ (seq e f).heads p ↔ (.done ∈ e.heads p ∧ h ∈ f.heads p) ∨
    ∃ number chars rest, .step number chars rest ∈ e.heads p ∧
      h = .step number chars (rest.followedBy f) := by
  rw [heads, List.mem_flatMap]
  constructor
  · rintro ⟨_ | ⟨number, chars, rest⟩, hhead, hmem⟩
    · exact .inl ⟨hhead, hmem⟩
    · exact .inr ⟨number, chars, rest, hhead, List.mem_singleton.1 hmem⟩
  · rintro (⟨hdone, hmem⟩ | ⟨number, chars, rest, hhead, rfl⟩)
    · exact ⟨.done, hdone, hmem⟩
    · exact ⟨_, hhead, List.mem_singleton_self _⟩

theorem mem_heads_either : h ∈ (either e f).heads p ↔ h ∈ e.heads p ∨ h ∈ f.heads p := by
  rw [heads, mem_orElse]

/-- Where a repetition takes only what begins with a character, these are the ways to begin. -/
theorem mem_flatMap_steps {heads : List Head} {go : Head → List Head} (hdone : go .done = [])
    (hstep : ∀ number chars rest,
      go (.step number chars rest) = [.step number chars (rest.followedBy f)]) :
    h ∈ heads.flatMap go ↔ ∃ number chars rest, .step number chars rest ∈ heads ∧
      h = .step number chars (rest.followedBy f) := by
  rw [List.mem_flatMap]
  constructor
  · rintro ⟨_ | ⟨number, chars, rest⟩, hhead, hmem⟩
    · rw [hdone] at hmem
      cases hmem
    · rw [hstep] at hmem
      exact ⟨number, chars, rest, hhead, List.mem_singleton.1 hmem⟩
  · rintro ⟨number, chars, rest, hhead, rfl⟩
    exact ⟨_, hhead, by rw [hstep]; exact List.mem_singleton_self _⟩

theorem mem_heads_star : h ∈ (star greedy e).heads p ↔ h = .done ∨
    ∃ number chars rest, .step number chars rest ∈ e.heads p ∧
      h = .step number chars (rest.followedBy (star greedy e)) := by
  rw [heads]
  split
  · rw [List.mem_append, List.mem_singleton, or_comm]
    exact or_congr_right (mem_flatMap_steps rfl fun _ _ _ => rfl)
  · rw [List.mem_cons]
    exact or_congr_right (mem_flatMap_steps rfl fun _ _ _ => rfl)

theorem mem_heads_plus : h ∈ (plus greedy e).heads p ↔ (.done ∈ e.heads p ∧ h = .done) ∨
    ∃ number chars rest, .step number chars rest ∈ e.heads p ∧
      h = .step number chars (rest.followedBy (star greedy e)) := by
  rw [heads, List.mem_map]
  constructor
  · rintro ⟨_ | ⟨number, chars, rest⟩, hhead, rfl⟩
    · exact .inl ⟨hhead, rfl⟩
    · exact .inr ⟨number, chars, rest, hhead, rfl⟩
  · rintro (⟨hdone, rfl⟩ | ⟨number, chars, rest, hhead, rfl⟩)
    · exact ⟨.done, hdone, rfl⟩
    · exact ⟨_, hhead, rfl⟩

end Heads

/-- A match begins in a certain way: with nothing at all, or with a character of a set. -/
def Head.Leads : Head → Spot → Spot → Prop
  | .done, s, t => t = s
  | .step _ chars f, s, t =>
    ∃ c rest, s.rest = c :: rest ∧ chars.has c = true ∧ Matches f ⟨some c, rest⟩ t

theorem leads_followedBy : (Head.step number chars (e.followedBy f)).Leads s t ↔
    ∃ u, (Head.step number chars e).Leads s u ∧ Matches f u t := by
  simp only [Head.Leads, matches_followedBy, matches_seq]
  constructor
  · rintro ⟨c, rest, hrest, hc, u, he, hf⟩
    exact ⟨u, ⟨c, rest, hrest, hc, he⟩, hf⟩
  · rintro ⟨u, ⟨c, rest, hrest, hc, he⟩, hf⟩
    exact ⟨c, rest, hrest, hc, u, he, hf⟩

/-- A match that begins with a character leaves its spot. -/
theorem ne_of_leads (h : (Head.step number chars e).Leads s t) : t ≠ s := by
  rintro rfl
  obtain ⟨c, rest, hrest, -, hmatch⟩ := h
  obtain ⟨text, htext, -⟩ := hmatch.spans
  have hlength : rest.length = (text ++ t.rest).length := congrArg List.length htext
  rw [List.length_append, hrest, List.length_cons] at hlength
  omega

/--
A match begins in one of the ways in which its pattern can begin, and each of these ways is the
beginning of matches.
-/
theorem matches_iff_heads : Matches e s t ↔ ∃ h ∈ e.heads s.place, h.Leads s t := by
  induction e generalizing s t with
  | empty => simp [heads, Head.Leads, matches_empty]
  | set number chars => simp [heads, Head.Leads, matches_set, matches_empty]
  | look condition =>
    rw [matches_look, heads]
    split <;> simp_all [Head.Leads]
  | either e f ihe ihf =>
    simp only [matches_either, ihe, ihf, mem_heads_either, or_and_right, exists_or]
  | seq e f ihe ihf =>
    simp only [matches_seq, ihe, mem_heads_seq]
    constructor
    · rintro ⟨u, ⟨_ | ⟨number, chars, rest⟩, hhead, hleads⟩, hf⟩
      · obtain rfl : u = s := hleads
        obtain ⟨h, hmem, hh⟩ := ihf.1 hf
        exact ⟨h, .inl ⟨hhead, hmem⟩, hh⟩
      · exact ⟨_, .inr ⟨number, chars, rest, hhead, rfl⟩, leads_followedBy.2 ⟨u, hleads, hf⟩⟩
    · rintro ⟨h, ⟨hdone, hmem⟩ | ⟨number, chars, rest, hhead, rfl⟩, hh⟩
      · exact ⟨s, ⟨.done, hdone, rfl⟩, ihf.2 ⟨h, hmem, hh⟩⟩
      · obtain ⟨u, hleads, hf⟩ := leads_followedBy.1 hh
        exact ⟨u, ⟨_, hhead, hleads⟩, hf⟩
  | star greedy e ih =>
    simp only [mem_heads_star]
    constructor
    · intro h
      rcases matches_star.1 h with rfl | ⟨u, he, hne, hmore⟩
      · exact ⟨.done, .inl rfl, rfl⟩
      · -- A round that moves on begins with a character.
        obtain ⟨_ | ⟨number, chars, rest⟩, hhead, hleads⟩ := ih.1 he
        · exact absurd hleads hne
        · exact ⟨_, .inr ⟨number, chars, rest, hhead, rfl⟩,
            leads_followedBy.2 ⟨u, hleads, hmore⟩⟩
    · rintro ⟨h, rfl | ⟨number, chars, rest, hhead, rfl⟩, hh⟩
      · exact matches_star.2 (.inl hh)
      · obtain ⟨u, hleads, hmore⟩ := leads_followedBy.1 hh
        exact .more (ih.2 ⟨_, hhead, hleads⟩) (ne_of_leads hleads) hmore
  | plus greedy e ih =>
    simp only [mem_heads_plus]
    constructor
    · -- An empty first match may be followed by others, and so may be left out.
      intro h
      obtain ⟨u, he, hmore⟩ := matches_plus.1 h
      obtain ⟨_ | ⟨number, chars, rest⟩, hhead, hleads⟩ := ih.1 he
      · obtain rfl : u = s := hleads
        rcases matches_star.1 hmore with rfl | ⟨v, he', hne, hmore⟩
        · exact ⟨.done, .inl ⟨hhead, rfl⟩, rfl⟩
        · obtain ⟨_ | ⟨number, chars, rest⟩, hhead', hleads'⟩ := ih.1 he'
          · exact absurd hleads' hne
          · exact ⟨_, .inr ⟨number, chars, rest, hhead', rfl⟩,
              leads_followedBy.2 ⟨v, hleads', hmore⟩⟩
      · exact ⟨_, .inr ⟨number, chars, rest, hhead, rfl⟩,
          leads_followedBy.2 ⟨u, hleads, hmore⟩⟩
    · rintro ⟨h, ⟨hdone, rfl⟩ | ⟨number, chars, rest, hhead, rfl⟩, hh⟩
      · obtain rfl : t = s := hh
        exact .plus (ih.2 ⟨.done, hdone, rfl⟩) .none
      · obtain ⟨u, hleads, hmore⟩ := leads_followedBy.1 hh
        exact .plus (ih.2 ⟨_, hhead, hleads⟩) hmore

end Expr

end Pattern

end PackageAudit
