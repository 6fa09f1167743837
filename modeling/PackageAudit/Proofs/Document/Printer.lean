import PackageAudit.Proofs.Document.Json.Text
import PackageAudit.Proofs.Document.NumberText
import PackageAudit.Proofs.Document.Value

/-!
# Proofs.Document.Printer — what is written is spelled by the grammar

* `Json.stringText_quote` — the text of a string;
* `Value.spelled_render` — the text of a tree spells the tree without what was replaced.
-/

namespace PackageAudit

namespace Json

/-! ## Strings -/

theorem hexDigit_hexDigit {n : Nat} (h : n < 16) : HexDigit n (hexDigit n).toUInt8 := by
  rw [hexDigit_iff]
  revert n
  decide

theorem hexDigit_lt {n : Nat} (h : n < 16) : (hexDigit n).toNat < 0x80 := by
  revert n
  decide

theorem character_numbered {c : Char} (h : c.toNat < 0x20) :
    Character c (Utf8.encode
      ['\\', 'u', '0', '0', hexDigit (c.toNat / 16), hexDigit (c.toNat % 16)]) := by
  have hhigh : c.toNat / 16 < 16 := by omega
  have hlow : c.toNat % 16 < 16 := Nat.mod_lt _ (by decide)
  have hunit : HexUnit (((0 * 16 + 0) * 16 + c.toNat / 16) * 16 + c.toNat % 16)
      ['0'.toUInt8, '0'.toUInt8, (hexDigit (c.toNat / 16)).toUInt8,
        (hexDigit (c.toNat % 16)).toUInt8] :=
    .mk (.decimal (by decide)) (.decimal (by decide)) (hexDigit_hexDigit hhigh)
      (hexDigit_hexDigit hlow)
  rw [show ((0 * 16 + 0) * 16 + c.toNat / 16) * 16 + c.toNat % 16 = c.toNat by omega] at hunit
  rw [encode_ascii]
  · exact .unit hunit
  · simp only [List.forall_mem_cons]
    exact ⟨by decide, by decide, by decide, by decide, hexDigit_lt hhigh, hexDigit_lt hlow, nofun⟩

/-- A character is written as one of its spellings. -/
theorem character_escapeChar (c : Char) : Character c (Utf8.encode (escapeChar c)) := by
  unfold escapeChar
  split
  case h_8 hquote hslash _ _ _ _ _ =>
    split_ifs with hlow
    · exact character_numbered hlow
    · rw [Utf8.encode_cons, Utf8.encode_nil, List.append_nil]
      exact .plain (Nat.le_of_not_lt hlow) hquote hslash
  all_goals exact .short (by decide)

theorem characters_flatMap (cs : List Char) :
    Characters cs (Utf8.encode (cs.flatMap escapeChar)) := by
  induction cs with
  | nil => exact .nil
  | cons c cs ih =>
    rw [List.flatMap_cons, Utf8.encode_append]
    exact .cons (character_escapeChar c) ih

theorem stringText_quote (k : String) : StringText k (textBytes (quote k)) := by
  have htext := StringText.mk (characters_flatMap k.toList)
  rw [String.ofList_toList] at htext
  rw [textBytes, quote, String.toList_ofList, quoteChars, Utf8.encode_cons, Utf8.encode_append]
  exact htext

end Json

namespace Value

open Json

/-! ## Trees -/

/-- The numbers that a JSON text can spell: integers of 64 bits and finite doubles. -/
def Printable : Number → Prop
  | .int n => Fits n
  | .float x => x.isFinite = true

theorem spelled_number {n : Number} (h : Printable n) :
    Spelled (.value (.number n)) (textBytes n.render) := by
  cases n with
  | int n =>
    obtain ⟨l, hl, hn⟩ := spells_int h
    exact .number hl hn
  | float x =>
    obtain ⟨l, hl, hx⟩ := spells_float h
    rw [Number.render, if_pos (show x.isFinite = true from h)]
    exact .number hl hx

theorem blank_nil : Blank [] :=
  List.forall_mem_nil _

theorem spelled_item {v : Value} {s : Bytes} (h : Spelled (.value v) s) : Spelled (.item v) s := by
  have hitem : Spelled (.item v) ([] ++ (s ++ [])) := .item blank_nil h blank_nil
  rwa [List.nil_append, List.append_nil] at hitem

theorem spelled_items {v : Value} {vs : List Value}
    (h : ∀ u ∈ v :: vs, Spelled (.value u.current) (textBytes u.render)) :
    Spelled (.items (currentAll (v :: vs)))
      (textBytes (",".intercalate (renderAll (v :: vs)))) := by
  induction vs generalizing v with
  | nil =>
    rw [renderAll, renderAll, String.intercalate_singleton]
    exact .lastItem (spelled_item (h v List.mem_cons_self))
  | cons u us ih =>
    rw [List.forall_mem_cons] at h
    rw [renderAll, renderAll, String.intercalate_cons_cons, textBytes_append, textBytes_append,
      List.append_assoc]
    exact .moreItems (spelled_item h.1) (ih h.2)

theorem keyText_quote (k : String) : KeyText k (textBytes (quote k ++ ":")) := by
  have hkey : KeyText k ([] ++ (textBytes (quote k) ++ ([] ++ [':'.toUInt8]))) :=
    .mk blank_nil (stringText_quote k) blank_nil
  rw [List.nil_append, List.nil_append] at hkey
  rwa [textBytes_append, show textBytes ":" = [':'.toUInt8] from rfl]

theorem spelled_members {m : String × Value} {ms : List (String × Value)}
    (h : ∀ l ∈ m :: ms, Spelled (.value l.2.current) (textBytes l.2.render)) :
    Spelled (.members (currentMembers (m :: ms)))
      (textBytes (",".intercalate (renderMembers (m :: ms)))) := by
  induction ms generalizing m with
  | nil =>
    rw [renderMembers, renderMembers, String.intercalate_singleton, textBytes_append]
    exact .lastMember (keyText_quote m.1) (spelled_item (h m List.mem_cons_self))
  | cons l ls ih =>
    rw [List.forall_mem_cons] at h
    rw [renderMembers, renderMembers, String.intercalate_cons_cons, textBytes_append,
      textBytes_append, textBytes_append, List.append_assoc, List.append_assoc]
    exact .moreMembers (keyText_quote m.1) (spelled_item h.1) (ih h.2)

/-- The text of a tree spells the tree, without the members that later ones replaced. -/
theorem spelled_render {v : Value} (h : v.AllNumbers Printable) :
    Spelled (.value v.current) (textBytes v.render) := by
  induction v using induction with
  | null => exact .null
  | bool b =>
    cases b with
    | true => exact .true
    | false => exact .false
  | number n => exact spelled_number h
  | string s => exact .string (stringText_quote s)
  | array items ih =>
    rw [AllNumbers, allNumbersOf_iff] at h
    rw [render, textBytes_append, textBytes_append, List.append_assoc]
    cases items with
    | nil => exact .emptyArray blank_nil
    | cons v vs => exact .array (spelled_items fun u hu => ih u hu (h u hu))
  | object members replaced ih =>
    rw [AllNumbers, membersNumbers_iff] at h
    rw [render, textBytes_append, textBytes_append, List.append_assoc]
    cases members with
    | nil => exact .emptyObject blank_nil
    | cons m ms => exact .object (spelled_members fun l hl => ih l hl (h l hl))

end Value

end PackageAudit
