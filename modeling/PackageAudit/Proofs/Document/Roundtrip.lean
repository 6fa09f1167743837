import Mathlib
import PackageAudit.Proofs.Document.Built
import PackageAudit.Proofs.Document.Json.Completeness
import PackageAudit.Proofs.Document.Printer

/-!
# Proofs.Document.Roundtrip — a document is read back from its own text

* `Document.Built` — one of the readers built the document;
* `Document.parse_render` — the strict reader takes the text of a built document, finds an equal
  tree, and that tree has the same text.

The tree that is read back is `Value.current`: the text does not hold the values that repeated keys
displaced, and equality of trees does not look at them.
-/

namespace PackageAudit

/-! ## Reading back -/

namespace Value

open Json

/-- The numbers of a well-formed tree without infinities and NaN have a text. -/
theorem WellFormed.printable {v : Value} (hv : v.WellFormed) (hfinite : v.AllNumbers FiniteNumber) :
    v.AllNumbers Printable := by
  have hnumbers := hv.numbers
  clear hv
  induction v using induction with
  | null | bool | string => trivial
  | number n =>
    cases n with
    | int n => exact hnumbers
    | float x => exact hfinite
  | array items ih =>
    rw [AllNumbers, allNumbersOf_iff] at hnumbers hfinite ⊢
    exact fun v hv => ih v hv (hfinite v hv) (hnumbers v hv)
  | object members replaced ih =>
    rw [AllNumbers, membersNumbers_iff] at hnumbers hfinite ⊢
    exact fun m hm => ih m hm (hfinite m hm) (hnumbers m hm)

/-- The text of a value does not begin with a byte order mark. -/
theorem not_byteOrderMark_of_spelled {v : Value} {s : Bytes} (h : Spelled (.value v) s) :
    ¬ byteOrderMark <+: s := by
  obtain ⟨b, t, rfl, -, -, hb⟩ := head_of_spelled h
  rintro ⟨t', ht'⟩
  obtain ⟨rfl, -⟩ := List.cons.inj ht'
  exact absurd hb (by decide)

theorem readTextOf_render {v : Value} (hprintable : v.AllNumbers Printable)
    (hkeys : v.KeysDistinct) (hnesting : v.nesting ≤ 512) :
    readTextOf .strict (textBytes v.render) = .ok v.current := by
  have hspelled := spelled_render hprintable
  exact readTextOf_spells (not_byteOrderMark_of_spelled hspelled) (spelled_item hspelled)
    (keysDistinct_current hkeys) (Nat.le_trans (nesting_current_le v) hnesting)

end Value

namespace Document

/-! ## Documents -/

/-- A reader built the document: from a JSON text under any rules, or from a YAML text. -/
inductive Built : Document → Prop where
  | json {o : JsonOptions} {s : Bytes} {d : Document} (h : Json.read o s = .ok d) : Built d
  | yaml {lossy : Bool} {s : Bytes} {d : Document} (h : Yaml.read lossy s = .ok d) : Built d

theorem Built.wellFormed {d : Document} (h : d.Built) : d.root.WellFormed := by
  cases h with
  | json h => exact Json.wellFormed_of_read h
  | yaml h => exact Yaml.wellFormed_of_read h

/--
A document that a reader built is read back from its text, if no arrays and objects of it nest
deeper than the limit of the strict reader and no number is infinite or a NaN. What is read back
equals the document, and has the same text. That no object has a key twice need not be asked: the
readers refuse a repeated key, or let its last value take the place of the others.
-/
theorem parse_render {d : Document} (hbuilt : d.Built) (hnesting : d.root.nesting ≤ 512)
    (hfinite : d.root.AllNumbers Value.FiniteNumber) :
    ∃ back, Json.parse (textBytes d.render) = .ok back ∧ d.root.same back.root = true ∧
      back.render = d.render := by
  have hbuilt := hbuilt.wellFormed
  have hread : Json.readTextOf .strict (textBytes d.render) = .ok d.root.current :=
    Value.readTextOf_render (hbuilt.printable hfinite) hbuilt.keys hnesting
  refine ⟨⟨d.root.current⟩, Json.parse_eq_ok.2 hread, Value.same_current hfinite, ?_⟩
  exact Value.render_current d.root

/-- A text that repeats a key, read by rules that allow it; the displaced zero is not written. -/
theorem parse_render_repeated_key :
    let d : Document :=
      ⟨.object [("b", .null), ("a", .array [.string "\n", .number (.float (.finite true 0))])]
        [("b", .number (.int 0))]⟩
    d.Built ∧ d.root.nesting ≤ 512 ∧ d.root.AllNumbers Value.FiniteNumber ∧
      ∃ back, Json.parse (textBytes d.render) = .ok back ∧ d.root.same back.root = true ∧
        back.render = d.render := by
  intro d
  have hread : Json.read .legacy
      (textBytes "\x7b\"b\":0,\"a\":[\"\\n\",-0.0],\"b\":null\x7d") = .ok d := by cbv
  have hnesting : d.root.nesting ≤ 512 := by decide
  have hfinite : d.root.AllNumbers Value.FiniteNumber := by
    simp [d, Value.AllNumbers, Value.AllNumbersOf, Value.MembersNumbers, Value.FiniteNumber,
      Binary64.isFinite]
  exact ⟨.json hread, hnesting, hfinite, parse_render (.json hread) hnesting hfinite⟩

end Document

end PackageAudit
