import Mathlib.Data.List.Nodup
import PackageAudit.Document.Json.Reader
import PackageAudit.Proofs.Document.Json.Text

/-!
# Proofs.Document.Json.Soundness — what the strict reader takes for a value is one

* `Json.Found`, `Json.FoundItems`, `Json.FoundMembers` — a part of a text that the grammar spells,
  within the limits;
* `Json.foundItems_of_readItems`, `Json.foundMembers_of_readMembers` — the parts of a container,
  if the values in it are read soundly;
* `Json.found_of_readValue` — every value, by induction on the length of the input.
-/

namespace PackageAudit

namespace Json

variable {b : UInt8} {s t w rest : Bytes} {site : Site}

/-! ## Blanks -/

theorem isBlank_iff : isBlank b = true ↔ b = 0x20 ∨ b = 0x09 ∨ b = 0x0A ∨ b = 0x0D := by
  simp only [isBlank, Bool.or_eq_true, beq_iff_eq, or_assoc]

theorem blank_skipBlanks (s : Bytes) : ∃ w, Blank w ∧ s = w ++ skipBlanks s :=
  ⟨s.takeWhile isBlank, fun _ hb => isBlank_iff.1 (List.mem_takeWhile_imp hb),
    List.takeWhile_append_dropWhile.symm⟩

theorem skipBlanks_append (hw : Blank w) : skipBlanks (w ++ s) = skipBlanks s :=
  List.dropWhile_append_of_pos fun b hb => isBlank_iff.2 (hw b hb)

theorem skipBlanks_cons (hb : ¬ isBlank b = true) : skipBlanks (b :: s) = b :: s :=
  List.dropWhile_cons_of_neg hb

/-! ## Results -/

section Results

variable {α β : Type}

theorem under_yields (path : List Key) {x : Leaf (Reading s α)} {a : α} :
    Yields (Leaf.under path x) a rest ↔ Yields x a rest := by
  cases x with
  | ok r => exact yields_ok.trans yields_ok.symm
  | error e => exact iff_of_false not_yields_error not_yields_error

theorem map_yields {x : Except Stop (Reading s α)} {f : Reading s α → Reading t β} {v : β} :
    Yields (x.map f) v rest ↔ ∃ r, x = .ok r ∧ (f r).value = v ∧ (f r).rest = rest := by
  cases x with
  | ok r =>
    refine yields_ok.trans ⟨fun h => ⟨r, rfl, h⟩, ?_⟩
    rintro ⟨_, ⟨⟩, h⟩
    exact h
  | error e =>
    refine iff_of_false not_yields_error ?_
    rintro ⟨_, ⟨⟩, _⟩

end Results

/-! ## Literal names -/

theorem afterWord?_iff {cs : List Char} (hcs : ∀ c ∈ cs, c.toNat < 0x80) :
    afterWord? cs s = some rest ↔ s = Utf8.encode cs ++ rest := by
  induction cs generalizing s with
  | nil =>
    rw [afterWord?, Option.some_inj]
    rfl
  | cons c cs ih =>
    have hc := hcs c List.mem_cons_self
    have hc' : c.toNat < 256 := Nat.lt_trans hc (by decide)
    rw [afterWord?, Option.bind_eq_some_iff, Utf8.encode_cons, Utf8.encodeChar_of_lt hc,
      List.singleton_append, List.cons_append]
    constructor
    · rintro ⟨u, hu, hrest⟩
      rw [eq_cons_of_after? hc' hu, (ih fun d hd => hcs d (List.mem_cons_of_mem c hd)).1 hrest]
      rfl
    · rintro rfl
      exact ⟨_, after?_cons hc', (ih fun d hd => hcs d (List.mem_cons_of_mem c hd)).2 rfl⟩

theorem readName_iff {first : Char} {others : List Char} {value v : Value} {path : List Key}
    (hword : (first :: others).all (·.toNat < 0x80) = true) :
    Yields (readName first others value path s) v rest ↔
      value = v ∧ s = Utf8.encode (first :: others) ++ rest := by
  have hchars : ∀ c ∈ first :: others, c.toNat < 0x80 := fun c hc =>
    of_decide_eq_true (List.all_eq_true.1 hword c hc)
  unfold readName
  split
  · next r hr =>
    have hs := (afterWord?_iff hchars).1 hr
    refine yields_ok.trans (and_congr_right fun _ => ⟨?_, ?_⟩)
    · rintro rfl
      exact hs
    · exact fun h => List.append_cancel_left (hs.symm.trans h)
  · next hnone =>
    refine iff_of_false not_yields_error ?_
    rintro ⟨-, hs⟩
    cases hnone.symm.trans ((afterWord?_iff hchars).2 hs)

/-! ## Members -/

theorem replace?_eq_none_iff {ms : List (String × Value)} {name : String} {v : Value} :
    Value.replace? ms name v = none ↔ name ∉ ms.map Prod.fst := by
  induction ms with
  | nil => exact iff_of_true rfl List.not_mem_nil
  | cons m ms ih =>
    rw [Value.replace?, List.map_cons, List.mem_cons, not_or, ← ih]
    split_ifs with heq
    · exact iff_of_false nofun fun h => h.1 heq.symm
    · rw [Option.map_eq_none_iff]
      exact (and_iff_right (Ne.symm heq)).symm

theorem isKey_iff {m : Members} {name : String} :
    m.isKey name = true ↔ name ∈ m.kept.map Prod.fst := by
  simp only [Members.isKey, List.any_eq_true, beq_iff_eq, List.mem_map]

theorem put_new {m : Members} {name : String} {v : Value} (h : name ∉ m.kept.map Prod.fst) :
    m.put name v = ⟨(name, v) :: m.kept, m.replaced⟩ := by
  rw [Members.put, replace?_eq_none_iff.2 h]

/-! ## What the reader finds -/

/-- From `s` down to `rest` a value is spelled that keeps within the limits. -/
structure Found (room : Nat) (v : Value) (s rest : Bytes) : Prop where
  spelled : ∃ bs, Spelled (.value v) bs ∧ s = bs ++ rest
  distinct : v.KeysDistinct
  shallow : v.nesting ≤ room

/-- The same of the elements of an array, up to its end. -/
structure FoundItems (room : Nat) (vs : List Value) (s rest : Bytes) : Prop where
  spelled : ∃ bs, Spelled (.items vs) bs ∧ s = bs ++ ']'.toUInt8 :: rest
  distinct : Value.AllKeysDistinct vs
  shallow : Value.nestingAll vs ≤ room

/-- The same of the members of an object, up to its end; keys of other members are told apart. -/
structure FoundMembers (room : Nat) (ms : List (String × Value)) (s rest : Bytes) : Prop where
  spelled : ∃ bs, Spelled (.members ms) bs ∧ s = bs ++ '\x7d'.toUInt8 :: rest
  distinct : Value.MembersKeysDistinct ms
  shallow : Value.nestingMembers ms ≤ room

theorem FoundItems.array {room : Nat} {vs : List Value} (hroom : 0 < room)
    (h : FoundItems (room - 1) vs s rest) : Found room (.array vs) ('['.toUInt8 :: s) rest := by
  obtain ⟨⟨bs, hbs, rfl⟩, hdistinct, hshallow⟩ := h
  refine ⟨⟨_, .array hbs, by rw [List.cons_append, List.append_assoc]; rfl⟩, hdistinct, ?_⟩
  rw [Value.nesting]
  omega

theorem FoundMembers.object {room : Nat} {ms : List (String × Value)} (hroom : 0 < room)
    (hkeys : (ms.map Prod.fst).Nodup) (h : FoundMembers (room - 1) ms s rest) :
    Found room (.object ms []) ('\x7b'.toUInt8 :: s) rest := by
  obtain ⟨⟨bs, hbs, rfl⟩, hdistinct, hshallow⟩ := h
  refine ⟨⟨_, .object hbs, by rw [List.cons_append, List.append_assoc]; rfl⟩,
    ⟨hkeys, hdistinct⟩, ?_⟩
  rw [Value.nesting]
  omega

theorem found_emptyArray {room : Nat} (hroom : 0 < room)
    (h : after? ']' (skipBlanks s) = some rest) :
    Found room (.array []) ('['.toUInt8 :: s) rest := by
  obtain ⟨w, hw, hs⟩ := blank_skipBlanks s
  rw [eq_cons_of_after? (by decide) h] at hs
  refine ⟨⟨_, .emptyArray hw, ?_⟩, trivial, hroom⟩
  rw [hs, List.cons_append, List.append_assoc]
  rfl

theorem found_emptyObject {room : Nat} (hroom : 0 < room)
    (h : after? '\x7d' (skipBlanks s) = some rest) :
    Found room (.object [] []) ('\x7b'.toUInt8 :: s) rest := by
  obtain ⟨w, hw, hs⟩ := blank_skipBlanks s
  rw [eq_cons_of_after? (by decide) h] at hs
  refine ⟨⟨_, .emptyObject hw, ?_⟩, ⟨List.nodup_nil, trivial⟩, hroom⟩
  rw [hs, List.cons_append, List.append_assoc]
  rfl

/-- How deep a value may nest at a site. -/
def Site.room (site : Site) : Nat :=
  maxDepth - site.depth

/-- Every value that the reader finds in `s` is one. -/
def Sound (s : Bytes) : Prop :=
  ∀ ⦃site v rest⦄, Yields (readValue .strict site s) v rest → Found site.room v s rest

/-- A value with the blanks around it, up to what is not blank. -/
theorem item_of_readValue (hsound : Sound (skipBlanks s)) {r : Reading (skipBlanks s) Value}
    (hread : readValue .strict site (skipBlanks s) = .ok r) :
    (∃ bs, Spelled (.item r.value) bs ∧ s = bs ++ skipBlanks r.rest) ∧
      r.value.KeysDistinct ∧ r.value.nesting ≤ site.room := by
  obtain ⟨⟨bs, hbs, hs⟩, hdistinct, hshallow⟩ := hsound ⟨r, hread, rfl, rfl⟩
  obtain ⟨w, hw, hfront⟩ := blank_skipBlanks s
  obtain ⟨w', hw', hback⟩ := blank_skipBlanks r.rest
  refine ⟨⟨_, .item hw hbs hw', ?_⟩, hdistinct, hshallow⟩
  rw [List.append_assoc, List.append_assoc, ← hback, ← hs, ← hfront]

theorem foundItems_of_readItems {start : Bytes} {index : Nat} {items : List Value} {v : Value}
    {h : s.length < start.length} (hsound : ∀ t, t.length ≤ s.length → Sound t)
    (hread : Yields (readItems .strict site start index items s h) v rest) :
    ∃ vs, v = .array (items.reverse ++ vs) ∧ FoundItems (site.room - 1) vs s rest := by
  -- On the length of the input; the elements read so far are only carried along.
  induction hlength : s.length using Nat.strong_induction_on generalizing s index items with
  | _ n ih =>
  rw [readItems] at hread
  dsimp only at hread
  split at hread
  · exact absurd hread not_yields_error
  · next r hr =>
    obtain ⟨⟨bs, hbs, hs⟩, hdistinct, hshallow⟩ :=
      item_of_readValue (hsound _ (length_skipBlanks_le s)) hr
    split at hread
    · next more hmore =>
      have hmore := eq_cons_of_after? (by decide) hmore
      rw [hmore] at hs
      have hshort : more.length < s.length := by
        rw [hs, List.length_append, List.length_cons]
        omega
      obtain ⟨vs, rfl, ⟨⟨t, ht, hspelled⟩, hdistinct', hshallow'⟩⟩ :=
        ih _ (hlength ▸ hshort) (fun t ht => hsound t (Nat.le_trans ht (Nat.le_of_lt hshort)))
          hread rfl
      refine ⟨r.value :: vs, by rw [List.reverse_cons, List.append_assoc]; rfl,
        ⟨_, .moreItems hbs ht, ?_⟩, ⟨hdistinct, hdistinct'⟩, Nat.max_le.2 ⟨hshallow, hshallow'⟩⟩
      rw [List.append_assoc, List.cons_append, ← hspelled]
      exact hs
    · split at hread
      · next rest' hend =>
        simp only [yields_ok] at hread
        obtain ⟨rfl, rfl⟩ := hread
        refine ⟨[r.value], by rw [List.reverse_cons], ⟨bs, .lastItem hbs, ?_⟩, ⟨hdistinct, trivial⟩,
          Nat.max_le.2 ⟨hshallow, Nat.zero_le _⟩⟩
        exact hs.trans (congrArg (bs ++ ·) (eq_cons_of_after? (by decide) hend))
      · exact absurd hread not_yields_error

theorem keyText_of_readText {k : String} {behindQuote behindName behindColon : Bytes}
    (hquote : after? '"' (skipBlanks s) = some behindQuote)
    (hname : Yields (readText .strict behindQuote) k behindName)
    (hcolon : after? ':' (skipBlanks behindName) = some behindColon) :
    ∃ p, KeyText k p ∧ s = p ++ behindColon := by
  obtain ⟨bs, hbs, htext⟩ := readText_iff.1 hname
  obtain ⟨w, hw, hfront⟩ := blank_skipBlanks s
  obtain ⟨w', hw', hback⟩ := blank_skipBlanks behindName
  rw [eq_cons_of_after? (by decide) hquote, htext] at hfront
  rw [eq_cons_of_after? (by decide) hcolon] at hback
  refine ⟨_, .mk hw hbs hw', ?_⟩
  rw [hfront, hback, List.append_assoc, List.append_assoc, List.append_assoc]
  rfl

theorem foundMembers_of_readMembers {start : Bytes} {m : Members} {v : Value}
    {h : s.length < start.length} (hsound : ∀ t, t.length ≤ s.length → Sound t)
    (hm : m.replaced = []) (hkeys : (m.kept.map Prod.fst).Nodup)
    (hread : Yields (readMembers .strict site start m s h) v rest) :
    ∃ ms, v = .object (m.kept.reverse ++ ms) [] ∧
      ((m.kept.reverse ++ ms).map Prod.fst).Nodup ∧ FoundMembers (site.room - 1) ms s rest := by
  -- As with elements, but the invariant says too that no key has been repeated so far.
  induction hlength : s.length using Nat.strong_induction_on generalizing s m with
  | _ n ih =>
  rw [readMembers] at hread
  dsimp only at hread
  split at hread
  · exact absurd hread not_yields_error
  next s₂ hquote =>
  split at hread
  · exact absurd hread not_yields_error
  next name hname =>
  split at hread
  · exact absurd hread not_yields_error
  next s₄ hcolon =>
  split at hread
  · exact absurd hread not_yields_error
  next hnew =>
  have hnew : name.value ∉ m.kept.map Prod.fst := by
    rw [← isKey_iff]
    simpa [JsonOptions.strict] using hnew
  split at hread
  · exact absurd hread not_yields_error
  next r hr =>
  rw [put_new hnew] at hread
  have htext := (under_yields _).1 ⟨name, hname, rfl, rfl⟩
  obtain ⟨p, hp, hs⟩ := keyText_of_readText hquote htext hcolon
  have hshort : s₄.length ≤ s.length := by
    rw [hs, List.length_append]
    omega
  obtain ⟨⟨bs, hbs, hs₄⟩, hdistinct, hshallow⟩ :=
    item_of_readValue (hsound _ (Nat.le_trans (length_skipBlanks_le s₄) hshort)) hr
  split at hread
  · next more hmore =>
    have hmore := eq_cons_of_after? (by decide) hmore
    rw [hmore] at hs₄
    have hshorter : more.length < s.length := by
      rw [hs, hs₄, List.length_append, List.length_append, List.length_cons]
      omega
    obtain ⟨ms, rfl, hnodup, ⟨⟨t, ht, hspelled⟩, hdistinct', hshallow'⟩⟩ :=
      ih _ (hlength ▸ hshorter)
        (fun t ht => hsound t (Nat.le_trans ht (Nat.le_of_lt hshorter)))
        (show (Members.mk ((name.value, r.value) :: m.kept) m.replaced).replaced = [] from hm)
        (List.nodup_cons.2 ⟨hnew, hkeys⟩) hread rfl
    rw [List.reverse_cons, List.append_assoc, List.singleton_append] at hnodup ⊢
    refine ⟨(name.value, r.value) :: ms, rfl, hnodup,
      ⟨_, .moreMembers hp hbs ht, ?_⟩, ⟨hdistinct, hdistinct'⟩, Nat.max_le.2 ⟨hshallow, hshallow'⟩⟩
    rw [List.append_assoc, List.append_assoc, List.cons_append, ← hspelled]
    exact hs.trans (congrArg (p ++ ·) hs₄)
  · split at hread
    · next rest' hend =>
      simp only [yields_ok, Members.toValue, hm] at hread
      obtain ⟨rfl, rfl⟩ := hread
      refine ⟨[(name.value, r.value)], by rw [List.reverse_cons]; rfl, ?_,
        ⟨_, .lastMember hp hbs, ?_⟩, ⟨hdistinct, trivial⟩, Nat.max_le.2 ⟨hshallow, Nat.zero_le _⟩⟩
      · rw [← List.reverse_cons, List.map_reverse, List.nodup_reverse]
        exact List.nodup_cons.2 ⟨hnew, hkeys⟩
      · rw [List.append_assoc]
        exact hs.trans (congrArg (p ++ ·)
          (hs₄.trans (congrArg (bs ++ ·) (eq_cons_of_after? (by decide) hend))))
    · exact absurd hread not_yields_error

/-- What the strict reader takes for a value is one, and keeps within the limits. -/
theorem found_of_readValue (s : Bytes) : Sound s := by
  -- Values within a container begin behind its bracket, so they are found in shorter inputs.
  induction hlength : s.length using Nat.strong_induction_on generalizing s with
  | _ n ih =>
  intro site v rest hread
  cases s with
  | nil =>
    rw [readValue] at hread
    exact absurd hread not_yields_error
  | cons b s =>
    have hsound : ∀ t, t.length ≤ s.length → Sound t := fun t ht =>
      ih _ (hlength ▸ Nat.lt_succ_of_le ht) t rfl
    have hname {first : Char} {others : List Char} {value : Value}
        (hword : (first :: others).all (·.toNat < 0x80) = true)
        (hspelled : Spelled (.value value) (Utf8.encode (first :: others)))
        (hdistinct : value.KeysDistinct) (hnesting : value.nesting = 0)
        (hread : Yields (readName first others value site.path (b :: s)) v rest) :
        Found site.room v (b :: s) rest := by
      obtain ⟨rfl, hs⟩ := (readName_iff hword).1 hread
      exact ⟨⟨_, hspelled, hs⟩, hdistinct, hnesting ▸ Nat.zero_le _⟩
    rw [readValue] at hread
    split at hread
    case h_1 hb =>
      rw [(ofUInt8_eq_iff (by decide)).1 hb]
      split at hread
      · exact absurd hread not_yields_error
      next hdepth =>
      have hroom : 0 < site.room := Nat.sub_pos_of_lt (Nat.lt_of_not_le hdepth)
      dsimp only at hread
      split at hread
      · next rest' hend =>
        simp only [yields_ok] at hread
        obtain ⟨rfl, rfl⟩ := hread
        exact found_emptyObject hroom hend
      · obtain ⟨ms, rfl, hkeys, hms⟩ :=
          foundMembers_of_readMembers hsound (show (Members.mk [] []).replaced = [] from rfl)
            List.nodup_nil hread
        exact hms.object hroom hkeys
    case h_2 hb =>
      rw [(ofUInt8_eq_iff (by decide)).1 hb]
      split at hread
      · exact absurd hread not_yields_error
      next hdepth =>
      have hroom : 0 < site.room := Nat.sub_pos_of_lt (Nat.lt_of_not_le hdepth)
      dsimp only at hread
      split at hread
      · next rest' hend =>
        simp only [yields_ok] at hread
        obtain ⟨rfl, rfl⟩ := hread
        exact found_emptyArray hroom hend
      · obtain ⟨vs, rfl, hvs⟩ := foundItems_of_readItems hsound hread
        exact hvs.array hroom
    case h_3 hb =>
      rw [ofUInt8_eq_iff (by decide)] at hb
      obtain ⟨r, hr, rfl, rfl⟩ := map_yields.1 hread
      obtain ⟨bs, hbs, hs⟩ := readText_iff.1 ((under_yields _).1 ⟨r, hr, rfl, rfl⟩)
      exact ⟨⟨bs, .string hbs, by rw [hb]; exact hs⟩, trivial, Nat.zero_le _⟩
    case h_4 => exact hname rfl .true trivial rfl hread
    case h_5 => exact hname rfl .false trivial rfl hread
    case h_6 => exact hname rfl .null trivial rfl hread
    case h_7 =>
      split at hread
      · obtain ⟨r, hr, rfl, rfl⟩ := map_yields.1 hread
        obtain ⟨l, bs, hbs, hn, hs⟩ := numeral_of_readNumber ((under_yields _).1 ⟨r, hr, rfl, rfl⟩)
        exact ⟨⟨bs, .number hbs hn, hs⟩, trivial, Nat.zero_le _⟩
      · exact absurd hread not_yields_error

end Json

end PackageAudit
