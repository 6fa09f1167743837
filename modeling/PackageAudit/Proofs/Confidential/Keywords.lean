import PackageAudit.Confidential.Rules
import PackageAudit.Proofs.Pattern.Search
import PackageAudit.Proofs.Unicode.Case
import PackageAudit.Proofs.Unicode.CodePoints

/-!
# Proofs.Confidential.Keywords — where keywords are found

A keyword is found between two edges of words, and an edge is a change between characters of words
and others. A keyword that stands between blanks has these edges only if it begins and ends with a
character of words itself.

* `Keywords.Spells` — a word, whatever the case of its letters;
* `Keywords.matches_expr?_iff` — what the pattern of keywords matches;
* `Keywords.isMatch_iff` — in which texts it has a match;
* `Keywords.IsWorded` — words that begin and end with a character of words;
* `Keywords.matches_between_blanks_iff` — a word between blanks is a match if it is one of these.
-/

namespace PackageAudit

namespace Confidential

namespace Keywords

open Pattern (Expr Spot Look isWordChar)

variable {words : List String} {k : String} {e : Expr} {s t : Spot} {c d : Char}
  {front word back text : List Char}

/-! ## The pattern -/

/-- A text is a word, but for the case of its letters. -/
def Spells (k : String) (word : List Char) : Prop :=
  List.Forall₂ (fun c d => (Case.close (.singleton c.toNat)).has d = true) k.toList word

theorem Spells.ne_nil (h : Spells k word) (hne : k ≠ "") : word ≠ [] := by
  rintro rfl
  exact hne (String.toList_eq_nil_iff.1 (List.forall₂_nil_right_iff.1 h))

/-- A text with the same ASCII lower case differs by case only. -/
theorem spells_of_map_toLower (h : word.map Char.toLower = k.toList.map Char.toLower) :
    Spells k word := by
  have hsame : List.Forall₂ (fun c d : Char => c.toLower = d.toLower) k.toList word := by
    rw [← List.forall₂_map_right_iff (f := Char.toLower),
      ← List.forall₂_map_left_iff (f := Char.toLower), h, List.forall₂_eq_eq_eq]
  exact hsame.imp fun _ _ => Case.has_close_of_toLower_eq

/-- A spot with an edge of words: there are characters of words on one side of it. -/
def Edge (s : Spot) : Prop :=
  (Look.wordEdge false).holds s.place = true

theorem expr?_eq_some (h : expr? words = some e) : words.filter (!·.isEmpty) ≠ [] ∧
    e = (Expr.seqs [.look (.wordEdge false),
      .choice ((words.filter (!·.isEmpty)).map fun w => wordExpr w.toList),
      .look (.wordEdge false)]).numbered := by
  unfold expr? at h
  split at h
  · cases h
  · next hne => exact ⟨hne, (Option.some.inj h).symm⟩

theorem exists_expr? (hk : k ∈ words) (hne : k ≠ "") : ∃ e, expr? words = some e := by
  have hmem : k ∈ words.filter (!·.isEmpty) := List.mem_filter.2 ⟨hk, by simpa using hne⟩
  unfold expr?
  split
  · next hnone => rw [hnone] at hmem; cases hmem
  · exact ⟨_, rfl⟩

/-- The pattern of keywords matches one of them between edges of words. -/
theorem matches_expr?_iff (h : expr? words = some e) :
    e.Matches s t ↔ Edge s ∧ Edge t ∧
      ∃ k ∈ words, k ≠ "" ∧ ∃ word, s.Spans word t ∧ Spells k word := by
  obtain ⟨hne, rfl⟩ := expr?_eq_some h
  have hwords : (words.filter (!·.isEmpty)).map (fun w => wordExpr w.toList) ≠ [] :=
    List.map_eq_nil_iff.not.2 hne
  have hchoice : ∀ s t, (Expr.choice ((words.filter (!·.isEmpty)).map fun w =>
      wordExpr w.toList)).Matches s t ↔
        ∃ k ∈ words, k ≠ "" ∧ ∃ word, s.Spans word t ∧ Spells k word := by
    intro s t
    rw [Expr.matches_choice hwords]
    simp [wordExpr, Expr.matches_seqs_sets, Spells, and_assoc]
  rw [Expr.matches_numbered]
  simp only [Expr.matches_seqs_cons, Expr.matches_seqs_nil, Expr.matches_look, hchoice]
  constructor
  · rintro ⟨_, ⟨hs, rfl⟩, _, hword, _, ⟨ht, rfl⟩, rfl⟩
    exact ⟨hs, ht, hword⟩
  · rintro ⟨hs, ht, hword⟩
    exact ⟨s, ⟨hs, rfl⟩, t, hword, t, ⟨ht, rfl⟩, rfl⟩

/-- The pattern has a match in the texts in which a keyword stands between edges of words. -/
theorem isMatch_iff (h : expr? words = some e) : e.isMatch text = true ↔
    ∃ front word back, text = front ++ (word ++ back) ∧ Edge (.behind none front (word ++ back)) ∧
      Edge (.behind none (front ++ word) back) ∧ ∃ k ∈ words, k ≠ "" ∧ Spells k word := by
  obtain ⟨-, he⟩ := expr?_eq_some h
  rw [Expr.isMatch_iff (he ▸ Expr.nodup_numbers_numbered _)]
  constructor
  · rintro ⟨front, s, t, hfront, hmatch⟩
    obtain ⟨hs, ht, k, hk, hne, word, hword, hspells⟩ := (matches_expr?_iff h).1 hmatch
    have hrest : s.rest = word ++ t.rest := hword.1
    refine ⟨front, word, t.rest, ?_, ?_, ?_, k, hk, hne, hspells⟩
    · rw [← hrest, ← hfront.1]
    · rwa [← hrest, ← hfront.eq]
    · rwa [← (hfront.trans hword).eq]
  · rintro ⟨front, word, back, rfl, hs, ht, k, hk, hne, hspells⟩
    have hfront := Spot.spans_behind none front (word ++ back)
    have hword := Spot.spans_behind_append none front word back
    exact ⟨front, _, _, hfront, (matches_expr?_iff h).2 ⟨hs, ht, k, hk, hne, word, hword, hspells⟩⟩

/-! ## Words between blanks -/

/-- A word that begins and ends with a character of words. -/
def IsWorded (word : List Char) : Prop :=
  word.head?.any (isWordChar false) = true ∧ word.getLast?.any (isWordChar false) = true

instance (word : List Char) : Decidable (IsWorded word) :=
  inferInstanceAs (Decidable (_ ∧ _))

/-- A text that ends, or one that begins, with a blank if it is not empty. -/
def IsBlank (side : Option Char) : Prop :=
  ∀ c ∈ side, Property.whiteSpace.has c = true

theorem IsBlank.any_isWordChar {side : Option Char} (h : IsBlank side) :
    side.any (isWordChar false) = false := by
  cases side with
  | none => rfl
  | some c => exact Property.not_isWordChar_of_whiteSpace (h c rfl) false

theorem isWordChar_toLower {ascii : Bool} (c : Char) :
    isWordChar ascii c.toLower = isWordChar ascii c := by
  have hlow : ∀ n < 0x80, isWordChar ascii (Char.ofNat n).toLower =
      isWordChar ascii (Char.ofNat n) := by
    cases ascii <;> decide
  exact Case.forall_of_ascii (P := fun c => isWordChar ascii c.toLower = isWordChar ascii c) hlow
    (fun c hc => by rw [Case.toLower_of_beyond hc]) c

/-- Case does not matter. -/
theorem isWorded_iff_of_map_toLower (h : word.map Char.toLower = text.map Char.toLower) :
    IsWorded word ↔ IsWorded text := by
  -- Both are as worded as their lower case, which is the same.
  have hlow : ∀ w : List Char, IsWorded (w.map Char.toLower) ↔ IsWorded w := by
    intro w
    simp only [IsWorded, List.head?_map, List.getLast?_map, Option.any_map]
    simp only [isWordChar_toLower]
  rw [← hlow, h, hlow]

/-- The space is a blank. -/
theorem isBlank_space : IsBlank (some ' ') := by
  rintro c ⟨⟩
  cbv

/-- Between blanks, the edges of words are those of a word that begins and ends with them. -/
theorem edge_iff (hne : word ≠ []) (hfront : IsBlank front.getLast?) (hback : IsBlank back.head?) :
    Edge (.behind none front (word ++ back)) ∧ Edge (.behind none (front ++ word) back) ↔
      IsWorded word := by
  obtain ⟨c, cs, rfl⟩ := List.exists_cons_of_ne_nil hne
  have hfirst : (c :: cs).head? = some c := rfl
  have hlast : (front ++ (c :: cs)).getLast? = (c :: cs).getLast? := by
    rw [List.getLast?_append, List.getLast?_cons]
    rfl
  simp only [Edge, Spot.place, Spot.behind, Look.holds, Option.or_none, List.cons_append,
    List.head?_cons, hlast, hfront.any_isWordChar, hback.any_isWordChar, IsWorded,
    Bool.false_bne, Bool.bne_false]

/-- A keyword between blanks is matched if and only if it begins and ends as words do. -/
theorem matches_between_blanks_iff (h : expr? words = some e) (hk : k ∈ words) (hne : k ≠ "")
    (hword : word.map Char.toLower = k.toList.map Char.toLower) (hfront : IsBlank front.getLast?)
    (hback : IsBlank back.head?) :
    e.Matches (.behind none front (word ++ back)) (.behind none (front ++ word) back) ↔
      IsWorded k.toList := by
  have hspells := spells_of_map_toLower hword
  have hspans := Spot.spans_behind_append none front word back
  rw [matches_expr?_iff h, ← isWorded_iff_of_map_toLower hword,
    ← edge_iff (hspells.ne_nil hne) hfront hback]
  exact ⟨fun ⟨hs, ht, _⟩ => ⟨hs, ht⟩, fun ⟨hs, ht⟩ => ⟨hs, ht, k, hk, hne, word, hspans, hspells⟩⟩

/-- Such a keyword is found. -/
theorem isMatch_of_isWorded (h : expr? words = some e) (hk : k ∈ words) (hne : k ≠ "")
    (hword : word.map Char.toLower = k.toList.map Char.toLower) (hfront : IsBlank front.getLast?)
    (hback : IsBlank back.head?) (hworded : IsWorded k.toList) :
    e.isMatch (front ++ (word ++ back)) = true := by
  have hspells := spells_of_map_toLower hword
  obtain ⟨hs, ht⟩ := (edge_iff (hspells.ne_nil hne) hfront hback).2
    ((isWorded_iff_of_map_toLower hword).2 hworded)
  exact (isMatch_iff h).2 ⟨front, word, back, rfl, hs, ht, k, hk, hne, hspells⟩

end Keywords

end Confidential

end PackageAudit
