import PackageAudit.Pattern.Glob
import PackageAudit.Proofs.Pattern.Search
import PackageAudit.Proofs.Text.Order
import PackageAudit.Proofs.Unicode.CodePoints

/-!
# Proofs.Pattern.Glob — file name patterns that are read as they stand

Few characters mean something in a pattern. One that has none of them is a pattern for itself.

* `Glob.IsPlain` — a character that stands for itself wherever it is;
* `Glob.parse_plain` — the parts of a pattern of such characters;
* `Glob.ofText_plain` — such a pattern accepts its own text and no other one.
-/

namespace PackageAudit

namespace Pattern

namespace Glob

variable {c : Char} {text path : List Char} {b : UInt8} {s t : Spot}

/-- A character that means nothing but itself, in a pattern without groups. -/
def IsPlain (c : Char) : Prop :=
  c ∉ ['*', '?', '[', '{', '}', '\\']

instance (c : Char) : Decidable (IsPlain c) :=
  inferInstanceAs (Decidable (c ∉ _))

/-! ## Reading -/

theorem readFrom_plain {branches : List (List Token)} {tokens : List Token} {before : Option Char}
    (h : ∀ c ∈ text, IsPlain c) : readFrom [] ⟨branches, tokens⟩ before text =
      .ok (tokens.reverse ++ text.map .literal) := by
  -- On the text: each character becomes one more token.
  induction text generalizing tokens before with
  | nil => simp [readFrom]
  | cons c text ih =>
    obtain ⟨hc, htext⟩ := List.forall_mem_cons.1 h
    have hread : readFrom [] ⟨branches, tokens⟩ before (c :: text) =
        readFrom [] ⟨branches, .literal c :: tokens⟩ (some c) text := by
      by_cases hcomma : c = ','
      · subst hcomma
        simp [readFrom, Open.push]
      · simp only [IsPlain, List.mem_cons, List.not_mem_nil, or_false, not_or] at hc
        rw [readFrom]
        · rfl
        all_goals simp_all
    rw [hread, ih htext]
    simp

theorem parse_plain (h : ∀ c ∈ text, IsPlain c) : parse text = .ok (text.map .literal) :=
  readFrom_plain h

/-! ## Matching -/

/-- The character as which a byte is matched. -/
theorem has_byteSet :
    (CodePoints.ofRanges [(b.toNat, b.toNat)]).has c = true ↔ Char.ofUInt8 b = c := by
  have hb : (Char.ofUInt8 b).toNat = b.toNat := rfl
  rw [CodePoints.has, CodePoints.mem_ofRanges, CodePoints.covers_singleton, ← Char.toNat_inj, hb]
  exact eq_comm

theorem matches_charExpr : Expr.Matches (charExpr c) s t ↔
    s.Spans ((Utf8.encodeChar c).map Char.ofUInt8) t := by
  have hbytes : ∀ text, List.Forall₂ (fun (b : UInt8) d =>
      (CodePoints.ofRanges [(b.toNat, b.toNat)]).has d = true) (Utf8.encodeChar c) text ↔
        (Utf8.encodeChar c).map Char.ofUInt8 = text := by
    intro text
    simp only [has_byteSet]
    rw [← List.forall₂_map_left_iff, List.forall₂_eq_eq_eq]
  refine Expr.matches_seqs_sets.trans ?_
  simp only [hbytes]
  exact ⟨fun ⟨_, hspans, htext⟩ => htext ▸ hspans, fun hspans => ⟨_, hspans, rfl⟩⟩

theorem matches_literals : Expr.Matches (.seqs (text.map charExpr)) s t ↔
    s.Spans ((Utf8.encode text).map Char.ofUInt8) t := by
  induction text generalizing s with
  | nil => exact Expr.matches_seqs_nil.trans Spot.spans_nil_iff.symm
  | cons c text ih =>
    rw [List.map_cons, Expr.matches_seqs_cons, Utf8.encode, List.flatMap_cons, List.map_append]
    simp only [ih, matches_charExpr]
    exact ⟨fun ⟨_, hfirst, hrest⟩ => hfirst.trans hrest, Spot.Spans.of_append⟩

theorem sequence_literals : Token.sequence (text.map .literal) = text.map charExpr := by
  induction text with
  | nil => rfl
  | cons c text ih =>
    rw [List.map_cons, Token.sequence, ih]
    rfl

theorem toExpr_literals :
    toExpr (text.map .literal) = (Expr.seqs (text.map charExpr)).numbered := by
  rw [toExpr, sequence_literals]
  intro h
  cases text <;> simp at h

/-- A pattern of plain characters accepts its own text only. -/
theorem ofText_plain (h : ∀ c ∈ text, IsPlain c) :
    ∃ g, ofText text = .ok g ∧ ∀ path, g.accepts path = true ↔ path = text := by
  refine ⟨⟨(Expr.seqs (text.map charExpr)).numbered⟩, ?_, fun path => ?_⟩
  · rw [ofText, parse_plain h, ← toExpr_literals]
    rfl
  · have hbytes : Function.Injective (List.map Char.ofUInt8) :=
      List.map_injective_iff.2 fun a b hab => UInt8.toNat_inj.1 (congrArg Char.toNat hab)
    rw [accepts, Expr.accepts_iff (Expr.nodup_numbers_numbered _)]
    simp only [Expr.matches_numbered, matches_literals, Spot.Spans, List.append_nil]
    rw [exists_and_left, and_iff_left ⟨_, rfl⟩, hbytes.eq_iff, Utf8.encode_injective.eq_iff]

end Glob

end Pattern

end PackageAudit
