import PackageAudit.Proofs.Document.Json.Soundness

/-!
# Proofs.Document.Json.Completeness — the strict reader misses no value within the limits

* `Json.readItems_step`, `Json.readMembers_step` — one step along a container, whatever comes of it;
* `Json.readItems_item`, `Json.readMembers_member` — a step that succeeds;
* `Json.ReadBack` — a part of a text is read as what it spells, wherever it stands;
* `Json.readBack_of_spelled` — every part that the grammar spells, by induction on its spelling;
* `Json.spells_of_readTextOf`, `Json.readTextOf_spells` — a text is accepted if and only if the
  grammar spells it within the limits;
* `Json.parse_eq_ok_iff` — the documents of the strict reader.
-/

namespace PackageAudit

namespace Json

variable {b : UInt8} {s t w rest : Bytes} {site : Site}

/-! ## One value -/

theorem readValue_emptyArray (hroom : 0 < site.room) (h : after? ']' (skipBlanks s) = some rest) :
    Yields (readValue .strict site ('['.toUInt8 :: s)) (.array []) rest := by
  rw [readValue.eq_def]
  simp only [show Char.ofUInt8 '['.toUInt8 = '[' from rfl]
  rw [if_neg (Nat.not_le_of_lt (Nat.lt_of_sub_pos hroom))]
  exact (match_after (after? ']') (P := (Yields · (Value.array []) rest))).2
    (.inl ⟨rest, h, yields_ok.2 ⟨rfl, rfl⟩⟩)

theorem readValue_array {v : Value} (hroom : 0 < site.room)
    (hend : after? ']' (skipBlanks s) = none)
    (h : Yields (readItems .strict site ('['.toUInt8 :: s) 0 [] s (Nat.lt_succ_self _)) v rest) :
    Yields (readValue .strict site ('['.toUInt8 :: s)) v rest := by
  rw [readValue.eq_def]
  simp only [show Char.ofUInt8 '['.toUInt8 = '[' from rfl]
  rw [if_neg (Nat.not_le_of_lt (Nat.lt_of_sub_pos hroom))]
  exact (match_after (after? ']') (P := (Yields · v rest))).2 (.inr ⟨hend, h⟩)

theorem readValue_emptyObject (hroom : 0 < site.room)
    (h : after? '\x7d' (skipBlanks s) = some rest) :
    Yields (readValue .strict site ('\x7b'.toUInt8 :: s)) (.object [] []) rest := by
  rw [readValue.eq_def]
  simp only [show Char.ofUInt8 '\x7b'.toUInt8 = '\x7b' from rfl]
  rw [if_neg (Nat.not_le_of_lt (Nat.lt_of_sub_pos hroom))]
  exact (match_after (after? '\x7d') (P := (Yields · (Value.object [] []) rest))).2
    (.inl ⟨rest, h, yields_ok.2 ⟨rfl, rfl⟩⟩)

theorem readValue_object {v : Value} (hroom : 0 < site.room)
    (hend : after? '\x7d' (skipBlanks s) = none)
    (h : Yields (readMembers .strict site ('\x7b'.toUInt8 :: s) ⟨[], []⟩ s (Nat.lt_succ_self _)) v
      rest) :
    Yields (readValue .strict site ('\x7b'.toUInt8 :: s)) v rest := by
  rw [readValue.eq_def]
  simp only [show Char.ofUInt8 '\x7b'.toUInt8 = '\x7b' from rfl]
  rw [if_neg (Nat.not_le_of_lt (Nat.lt_of_sub_pos hroom))]
  exact (match_after (after? '\x7d') (P := (Yields · v rest))).2 (.inr ⟨hend, h⟩)

theorem readValue_string {k : String} (h : Yields (readText .strict s) k rest) :
    Yields (readValue .strict site ('"'.toUInt8 :: s)) (.string k) rest := by
  rw [readValue.eq_def]
  simp only [show Char.ofUInt8 '"'.toUInt8 = '"' from rfl]
  obtain ⟨r, hr, rfl, rfl⟩ := (under_yields site.path).2 h
  exact map_yields.2 ⟨r, hr, rfl, rfl⟩

theorem readValue_null :
    Yields (readValue .strict site (Utf8.encode ['n', 'u', 'l', 'l'] ++ rest)) .null rest := by
  change Yields (readValue .strict site ('n'.toUInt8 :: _)) .null rest
  rw [readValue.eq_def]
  exact (readName_iff rfl).2 ⟨rfl, rfl⟩

theorem readValue_true :
    Yields (readValue .strict site (Utf8.encode ['t', 'r', 'u', 'e'] ++ rest)) (.bool true) rest := by
  change Yields (readValue .strict site ('t'.toUInt8 :: _)) (.bool true) rest
  rw [readValue.eq_def]
  exact (readName_iff rfl).2 ⟨rfl, rfl⟩

theorem readValue_false :
    Yields (readValue .strict site (Utf8.encode ['f', 'a', 'l', 's', 'e'] ++ rest)) (.bool false)
      rest := by
  change Yields (readValue .strict site ('f'.toUInt8 :: _)) (.bool false) rest
  rw [readValue.eq_def]
  exact (readName_iff rfl).2 ⟨rfl, rfl⟩

theorem StartsNumber.ne {o : JsonOptions} {c : Char} (hb : StartsNumber o b) (hc : c.toNat < 256)
    (hstart : c ≠ '-' ∧ ¬ Digit c.toUInt8 ∧ c ≠ '.') : Char.ofUInt8 b ≠ c := by
  intro hbc
  rcases hb with rfl | hb | ⟨rfl, -⟩
  · exact hstart.1 hbc.symm
  · exact hstart.2.1 ((ofUInt8_eq_iff hc).1 hbc ▸ hb)
  · exact hstart.2.2 hbc.symm

theorem readValue_number {o : JsonOptions} {n : Number} (hb : StartsNumber o b)
    (h : Yields (readNumber o (b :: s)) n rest) :
    Yields (readValue o site (b :: s)) (.number n) rest := by
  rw [readValue.eq_def]
  dsimp only
  split
  case h_1 h => exact absurd h (hb.ne (by decide) (by decide))
  case h_2 h => exact absurd h (hb.ne (by decide) (by decide))
  case h_3 h => exact absurd h (hb.ne (by decide) (by decide))
  case h_4 h => exact absurd h (hb.ne (by decide) (by decide))
  case h_5 h => exact absurd h (hb.ne (by decide) (by decide))
  case h_6 h => exact absurd h (hb.ne (by decide) (by decide))
  case h_7 =>
    have hstart : (Char.ofUInt8 b == '-' || (Char.ofUInt8 b).isDigit ||
        (Char.ofUInt8 b == '.' && o.malformedDecimals)) = true := by
      rw [Bool.or_eq_true, Bool.or_eq_true, Bool.and_eq_true, beq_iff_eq, beq_iff_eq,
        ofUInt8_eq_iff (by decide), ofUInt8_eq_iff (by decide), or_assoc]
      exact hb.imp_right (Or.imp_left isDigit_iff.2)
    rw [if_pos hstart]
    obtain ⟨r, hr, rfl, rfl⟩ := (under_yields site.path).2 h
    exact map_yields.2 ⟨r, hr, rfl, rfl⟩

/-! ## What stands before and behind a value -/

/-- What ends a value: nothing, or a mark that separates or closes. -/
def Closed (rest : Bytes) : Prop :=
  ∀ b, rest.head? = some b → b = ','.toUInt8 ∨ b = ']'.toUInt8 ∨ b = '\x7d'.toUInt8

theorem skipBlanks_closed (h : Closed rest) : skipBlanks rest = rest := by
  cases rest with
  | nil => rfl
  | cons b rest =>
    apply skipBlanks_cons
    rcases h b rfl with rfl | rfl | rfl <;> decide

theorem numberEnds_append (hw : Blank w) (h : Closed rest) : NumberEnds (w ++ rest) := by
  intro b hb
  cases w with
  | nil => rcases h b hb with rfl | rfl | rfl <;> decide
  | cons b' w =>
    cases hb
    rcases hw b List.mem_cons_self with rfl | rfl | rfl | rfl <;> decide

/-- A value begins with a character of one byte, no blank and not the end of an array. -/
theorem head_of_spelled {v : Value} {bs : Bytes} (h : Spelled (.value v) bs) :
    ∃ b t, bs = b :: t ∧ ¬ isBlank b = true ∧ b ≠ ']'.toUInt8 ∧ b.toNat < 0x80 := by
  cases h with
  | null | true | false => exact ⟨_, _, rfl, by decide, by decide, by decide⟩
  | number hs =>
    obtain ⟨b, t, rfl, hb⟩ := head_of_numeral hs
    rcases hb with rfl | hb
    · exact ⟨_, t, rfl, by decide, by decide, by decide⟩
    · refine ⟨b, t, rfl, fun hblank => ?_, ?_, Nat.lt_of_le_of_lt hb.2 (by decide)⟩
      · rcases isBlank_iff.1 hblank with rfl | rfl | rfl | rfl <;> exact absurd hb (by decide)
      · rintro rfl
        exact absurd hb (by decide)
  | string hs =>
    cases hs
    exact ⟨_, _, rfl, by decide, by decide, by decide⟩
  | emptyArray | array | emptyObject | object =>
    exact ⟨_, _, rfl, by decide, by decide, by decide⟩

theorem skipBlanks_item {v : Value} {bs : Bytes} (h : Spelled (.item v) bs) :
    after? ']' (skipBlanks (bs ++ s)) = none := by
  cases h with
  | item hw hs =>
    obtain ⟨b, t, rfl, hblank, hb, -⟩ := head_of_spelled hs
    rw [List.append_assoc, skipBlanks_append hw]
    simp only [List.cons_append]
    rw [skipBlanks_cons hblank]
    exact (after?_eq_none_iff (by decide)).2 fun _ h => Option.some_inj.1 h ▸ hb

theorem skipBlanks_items {vs : List Value} {bs : Bytes} (h : Spelled (.items vs) bs) :
    after? ']' (skipBlanks (bs ++ s)) = none := by
  cases h with
  | lastItem hs => exact skipBlanks_item hs
  | moreItems hs =>
    rw [List.append_assoc]
    exact skipBlanks_item hs

/-- A key is read with everything up to its colon. -/
theorem readText_keyText {k : String} {p : Bytes} (h : KeyText k p) :
    ∃ behindQuote behindName, after? '"' (skipBlanks (p ++ s)) = some behindQuote ∧
      Yields (readText .strict behindQuote) k behindName ∧
      after? ':' (skipBlanks behindName) = some s := by
  cases h with
  | @mk w t w' hw hk hw' =>
    have hstring := hk
    cases hk with
    | @mk cs bs hcs =>
      refine ⟨bs ++ ('"'.toUInt8 :: (w' ++ ':'.toUInt8 :: s)), w' ++ ':'.toUInt8 :: s, ?_, ?_, ?_⟩
      · rw [List.append_assoc, skipBlanks_append hw, List.cons_append, List.cons_append,
          skipBlanks_cons (by decide), after?_cons (by decide), List.append_assoc, List.append_assoc,
          List.append_assoc]
        rfl
      · exact readText_iff.2 ⟨_, hstring, by rw [List.cons_append, List.append_assoc]; rfl⟩
      · rw [skipBlanks_append hw', skipBlanks_cons (by decide), after?_cons (by decide)]

theorem skipBlanks_members {ms : List (String × Value)} {bs : Bytes}
    (h : Spelled (.members ms) bs) : after? '\x7d' (skipBlanks (bs ++ s)) = none := by
  have hkey {k : String} {p t : Bytes} (hp : KeyText k p) :
      after? '\x7d' (skipBlanks (p ++ t)) = none := by
    obtain ⟨r, _, hquote, -⟩ := readText_keyText (s := t) hp
    rw [eq_cons_of_after? (by decide) hquote]
    refine (after?_eq_none_iff (by decide)).2 ?_
    rintro b ⟨⟩
    decide
  cases h with
  | lastMember hp | moreMembers hp =>
    rw [List.append_assoc]
    exact hkey hp

/-! ## Containers -/

theorem after?_of_other {c d : Char} (hc : c.toNat < 256) (hd : d.toNat < 256) (hne : d ≠ c)
    (h : s = d.toUInt8 :: t) : after? c s = none := by
  subst h
  refine (after?_eq_none_iff hc).2 ?_
  rintro b ⟨⟩ h
  exact hne (((ofUInt8_eq_iff hd).2 rfl).symm.trans ((ofUInt8_eq_iff hc).2 h))

section Steps

variable {start : Bytes} {h : s.length < start.length} {v x : Value}
  {P : Except Stop (Reading start Value) → Prop}

/-- One step along an array: an element stops the reader, or is followed by others or the end. -/
theorem readItems_step {index : Nat} {items : List Value}
    (hv : (∃ e, readValue .strict ⟨site.depth + 1, .index index :: site.path⟩ (skipBlanks s) =
        .error e ∧ P (.error e)) ∨
      ∃ v t, Yields (readValue .strict ⟨site.depth + 1, .index index :: site.path⟩ (skipBlanks s))
          v t ∧
        ((∃ more, skipBlanks t = ','.toUInt8 :: more ∧
            ∀ h, P (readItems .strict site start (index + 1) (v :: items) more h)) ∨
          ∃ rest, skipBlanks t = ']'.toUInt8 :: rest ∧
            ∀ h, P (.ok ⟨.array (v :: items).reverse, rest, h⟩))) :
    P (readItems .strict site start index items s h) := by
  rw [readItems]
  dsimp only
  rcases hv with ⟨e, he, hP⟩ | ⟨v, t, ⟨r, hr, rfl, rfl⟩, hnext⟩
  · split
    · next hfail =>
      cases he.symm.trans hfail
      exact hP
    · next hfound => cases he.symm.trans hfound
  split
  · next hfail => cases hr.symm.trans hfail
  next hfound =>
  cases hr.symm.trans hfound
  rcases hnext with ⟨more, hcomma, hmore⟩ | ⟨rest, hend, hP⟩
  · have hcomma : after? ',' (skipBlanks r.rest) = some more := hcomma ▸ after?_cons (by decide)
    split
    · next hfound =>
      cases hcomma.symm.trans hfound
      exact hmore _
    · next hnone => cases hcomma.symm.trans hnone
  · have hcomma := after?_of_other (c := ',') (by decide) (by decide) (by decide) hend
    have hend : after? ']' (skipBlanks r.rest) = some rest := hend ▸ after?_cons (by decide)
    split
    · next hfound => cases hcomma.symm.trans hfound
    split
    · next hfound =>
      cases hend.symm.trans hfound
      exact hP _
    · next hnone => cases hend.symm.trans hnone

/-- One step along an object whose next key is new. -/
theorem readMembers_step {p u : Bytes} {m : Members} {k : String} (hp : KeyText k p)
    (hs : s = p ++ u) (hnew : k ∉ m.kept.map Prod.fst)
    (hv : (∃ e, readValue .strict ⟨site.depth + 1, .member k :: site.path⟩ (skipBlanks u) =
        .error e ∧ P (.error e)) ∨
      ∃ v t, Yields (readValue .strict ⟨site.depth + 1, .member k :: site.path⟩ (skipBlanks u))
          v t ∧
        ((∃ more, skipBlanks t = ','.toUInt8 :: more ∧
            ∀ h, P (readMembers .strict site start ⟨(k, v) :: m.kept, m.replaced⟩ more h)) ∨
          ∃ rest, skipBlanks t = '\x7d'.toUInt8 :: rest ∧
            ∀ h, P (.ok ⟨.object ((k, v) :: m.kept).reverse m.replaced.reverse, rest, h⟩))) :
    P (readMembers .strict site start m s h) := by
  obtain ⟨behindQuote, behindName, hquote, htext, hcolon⟩ := readText_keyText (s := u) hp
  obtain ⟨name, hname, rfl, rfl⟩ := (under_yields site.path).2 htext
  rw [← hs] at hquote
  -- A new key is no fault, whatever the rules make of repeated ones.
  have hkey : ¬ (m.isKey name.value && !JsonOptions.strict.duplicateKeys) = true := by
    rw [Bool.and_eq_true, isKey_iff]
    exact fun h => hnew h.1
  rw [readMembers]
  dsimp only
  split
  · next hnone => cases hquote.symm.trans hnone
  next hfound =>
  cases hquote.symm.trans hfound
  split
  · next hfail => cases hname.symm.trans hfail
  next hfound =>
  cases hname.symm.trans hfound
  split
  · next hnone => cases hcolon.symm.trans hnone
  next hfound =>
  cases hcolon.symm.trans hfound
  rw [if_neg hkey]
  rcases hv with ⟨e, he, hP⟩ | ⟨v, t, ⟨r, hr, rfl, rfl⟩, hnext⟩
  · split
    · next hfail =>
      cases he.symm.trans hfail
      exact hP
    · next hfound => cases he.symm.trans hfound
  split
  · next hfail => cases hr.symm.trans hfail
  next hfound =>
  cases hr.symm.trans hfound
  rw [put_new hnew]
  rcases hnext with ⟨more, hcomma, hmore⟩ | ⟨rest, hend, hP⟩
  · have hcomma : after? ',' (skipBlanks r.rest) = some more := hcomma ▸ after?_cons (by decide)
    split
    · next hfound =>
      cases hcomma.symm.trans hfound
      exact hmore _
    · next hnone => cases hcomma.symm.trans hnone
  · have hcomma := after?_of_other (c := ',') (by decide) (by decide) (by decide) hend
    have hend : after? '\x7d' (skipBlanks r.rest) = some rest := hend ▸ after?_cons (by decide)
    split
    · next hfound => cases hcomma.symm.trans hfound
    split
    · next hfound =>
      cases hend.symm.trans hfound
      exact hP _
    · next hnone => cases hend.symm.trans hnone

/-- One element is read, and then the others or the end of the array. -/
theorem readItems_item {index : Nat} {items : List Value}
    (hv : Yields (readValue .strict ⟨site.depth + 1, .index index :: site.path⟩ (skipBlanks s)) v t)
    (hnext :
      (∃ more, skipBlanks t = ','.toUInt8 :: more ∧
        ∀ h, Yields (readItems .strict site start (index + 1) (v :: items) more h) x rest) ∨
      (skipBlanks t = ']'.toUInt8 :: rest ∧ x = .array (v :: items).reverse)) :
    Yields (readItems .strict site start index items s h) x rest := by
  refine readItems_step (P := (Yields · x rest)) (.inr ⟨v, t, hv, hnext.imp_right ?_⟩)
  rintro ⟨hend, rfl⟩
  exact ⟨rest, hend, fun h => yields_ok.2 ⟨rfl, rfl⟩⟩

/-- One member is read, and then the others or the end of the object. -/
theorem readMembers_member {p u : Bytes} {m : Members} {k : String} (hp : KeyText k p)
    (hs : s = p ++ u) (hnew : k ∉ m.kept.map Prod.fst)
    (hv : Yields (readValue .strict ⟨site.depth + 1, .member k :: site.path⟩ (skipBlanks u)) v t)
    (hnext :
      (∃ more, skipBlanks t = ','.toUInt8 :: more ∧
        ∀ h, Yields (readMembers .strict site start ⟨(k, v) :: m.kept, m.replaced⟩ more h) x
          rest) ∨
      (skipBlanks t = '\x7d'.toUInt8 :: rest ∧
        x = .object ((k, v) :: m.kept).reverse m.replaced.reverse)) :
    Yields (readMembers .strict site start m s h) x rest := by
  refine readMembers_step (P := (Yields · x rest)) hp hs hnew
    (.inr ⟨v, t, hv, hnext.imp_right ?_⟩)
  rintro ⟨hend, rfl⟩
  exact ⟨rest, hend, fun h => yields_ok.2 ⟨rfl, rfl⟩⟩

end Steps

/-! ## Every part of a text -/

/-- A part of a text that keeps within the limits is read wherever it stands. -/
def ReadBack : Phrase → Bytes → Prop
  | .value v, bs =>
    v.KeysDistinct → ∀ ⦃site rest⦄, v.nesting ≤ site.room → NumberEnds rest →
      Yields (readValue .strict site (bs ++ rest)) v rest
  | .item v, bs =>
    v.KeysDistinct → ∀ (site : Site) ⦃rest⦄, v.nesting ≤ site.room → Closed rest →
      ∃ t, Yields (readValue .strict site (skipBlanks (bs ++ rest))) v t ∧ skipBlanks t = rest
  | .items vs, bs =>
    Value.AllKeysDistinct vs → ∀ ⦃site start index items rest h⦄,
      Value.nestingAll vs ≤ site.room - 1 →
      Yields (readItems .strict site start index items (bs ++ ']'.toUInt8 :: rest) h)
        (.array (items.reverse ++ vs)) rest
  | .members ms, bs =>
    Value.MembersKeysDistinct ms → ∀ ⦃site start m rest h⦄,
      ((m.kept.reverse ++ ms).map Prod.fst).Nodup → Value.nestingMembers ms ≤ site.room - 1 →
      Yields (readMembers .strict site start m (bs ++ '\x7d'.toUInt8 :: rest) h)
        (.object (m.kept.reverse ++ ms) m.replaced.reverse) rest

theorem closed_cons (hb : b = ','.toUInt8 ∨ b = ']'.toUInt8 ∨ b = '\x7d'.toUInt8) :
    Closed (b :: s) := by
  rintro _ ⟨⟩
  exact hb

theorem not_mem_kept {kept ms : List (String × Value)} {k : String} {v : Value}
    (h : ((kept.reverse ++ (k, v) :: ms).map Prod.fst).Nodup) : k ∉ kept.map Prod.fst := by
  rw [List.map_append, List.nodup_append] at h
  intro hk
  rw [← List.mem_reverse, ← List.map_reverse] at hk
  exact h.2.2 k hk k List.mem_cons_self rfl

theorem readBack_of_spelled {p : Phrase} {bs : Bytes} (h : Spelled p bs) : ReadBack p bs := by
  -- On the spelling. The elements and members of a container are read one level further in, each in
  -- front of the comma or bracket that ends it, so what is known of them holds at any place.
  induction h with
  | null => exact fun _ _ _ _ _ => readValue_null
  | true => exact fun _ _ _ _ _ => readValue_true
  | false => exact fun _ _ _ _ _ => readValue_false
  | number hs hn =>
    intro _ site rest _ hrest
    obtain ⟨hl, ho⟩ := numeral_iff.1 hs
    obtain ⟨b, t, rfl, hb⟩ := head_of_literal hl ho
    exact readValue_number hb (readNumber_numeral hs hn hrest)
  | string hs =>
    intro _ site rest _ _
    have hstring := hs
    cases hs with
    | mk hcs => exact readValue_string (readText_iff.2 ⟨_, hstring, rfl⟩)
  | emptyArray hw =>
    intro _ site rest hroom _
    rw [List.cons_append, List.append_assoc]
    refine readValue_emptyArray hroom ?_
    rw [skipBlanks_append hw]
    rfl
  | @array vs s hs ih =>
    intro hdistinct site rest hroom _
    rw [Value.nesting] at hroom
    rw [List.cons_append, List.append_assoc]
    exact readValue_array (by omega) (skipBlanks_items hs) (ih hdistinct (by omega))
  | emptyObject hw =>
    intro _ site rest hroom _
    rw [List.cons_append, List.append_assoc]
    refine readValue_emptyObject hroom ?_
    rw [skipBlanks_append hw]
    rfl
  | @object ms s hs ih =>
    intro hdistinct site rest hroom _
    rw [Value.nesting] at hroom
    rw [List.cons_append, List.append_assoc]
    exact readValue_object (by omega) (skipBlanks_members hs)
      (ih hdistinct.2 (m := ⟨[], []⟩) hdistinct.1 (by omega))
  | @item v w s w' hw hs hw' ih =>
    intro hdistinct site rest hroom hrest
    obtain ⟨b, t, hb, hblank, -⟩ := head_of_spelled hs
    -- A value does not begin with a blank, so just the blanks in front of it are skipped.
    refine ⟨w' ++ rest, ?_, by rw [skipBlanks_append hw', skipBlanks_closed hrest]⟩
    have hskip : skipBlanks (w ++ (s ++ w') ++ rest) = s ++ (w' ++ rest) := by
      rw [List.append_assoc, List.append_assoc, skipBlanks_append hw, hb, List.cons_append,
        skipBlanks_cons hblank]
    rw [hskip]
    exact ih hdistinct hroom (numberEnds_append hw' hrest)
  | lastItem hs ih =>
    intro hdistinct site start index items rest h hroom
    obtain ⟨hshallow, -⟩ := Nat.max_le.1 hroom
    obtain ⟨t, hv, ht⟩ :=
      ih hdistinct.1 ⟨site.depth + 1, .index index :: site.path⟩ hshallow
        (closed_cons (.inr (.inl rfl)))
    exact readItems_item hv (.inr ⟨ht, by rw [List.reverse_cons]⟩)
  | @moreItems v vs s u hs hu ih ih' =>
    intro hdistinct site start index items rest h hroom
    obtain ⟨hshallow, hshallow'⟩ := Nat.max_le.1 hroom
    obtain ⟨t, hv, ht⟩ :=
      ih hdistinct.1 ⟨site.depth + 1, .index index :: site.path⟩ hshallow (closed_cons (.inl rfl))
    simp only [List.append_assoc, List.cons_append]
    refine readItems_item hv (.inl ⟨_, ht, fun h => ?_⟩)
    have hothers := @ih' hdistinct.2 site start (index + 1) (v :: items) rest h hshallow'
    rw [List.reverse_cons, List.append_assoc] at hothers
    exact hothers
  | @lastMember k v p s hp hs ih =>
    intro hdistinct site start m rest h hkeys hroom
    obtain ⟨hshallow, -⟩ := Nat.max_le.1 hroom
    obtain ⟨t, hv, ht⟩ :=
      ih hdistinct.1 ⟨site.depth + 1, .member k :: site.path⟩ hshallow
        (closed_cons (.inr (.inr rfl)))
    exact readMembers_member hp (List.append_assoc ..) (not_mem_kept hkeys) hv
      (.inr ⟨ht, by rw [List.reverse_cons]⟩)
  | @moreMembers k v ms p s u hp hs hu ih ih' =>
    intro hdistinct site start m rest h hkeys hroom
    obtain ⟨hshallow, hshallow'⟩ := Nat.max_le.1 hroom
    obtain ⟨t, hv, ht⟩ :=
      ih hdistinct.1 ⟨site.depth + 1, .member k :: site.path⟩ hshallow (closed_cons (.inl rfl))
    simp only [List.append_assoc, List.cons_append]
    refine readMembers_member hp rfl (not_mem_kept hkeys) hv (.inl ⟨_, ht, fun h => ?_⟩)
    -- The member moves from those to be read to those that are kept.
    rw [← List.singleton_append, ← List.append_assoc, ← List.reverse_cons] at hkeys
    have hothers := ih' hdistinct.2 (m := ⟨(k, v) :: m.kept, m.replaced⟩) (h := h) hkeys hshallow'
    rw [List.reverse_cons, List.append_assoc] at hothers
    exact hothers

/-! ## Texts -/

theorem readTextOf_eq_ok_iff {v : Value} :
    readTextOf .strict s = .ok v ↔
      ¬ byteOrderMark <+: s ∧
        ∃ t, Yields (readValue .strict ⟨0, []⟩ (skipBlanks s)) v t ∧ skipBlanks t = [] := by
  rw [← List.isPrefixOf_iff_prefix]
  unfold readTextOf
  dsimp only
  generalize byteOrderMark.isPrefixOf s = marked
  cases marked with
  | true => exact iff_of_false (fun h => nomatch h) fun h => h.1 rfl
  | false =>
    rw [Bool.false_and, if_neg Bool.false_ne_true]
    constructor
    · intro h
      split at h
      · cases h
      · next r hr =>
        split at h
        · next hend =>
          cases h
          exact ⟨Bool.false_ne_true, r.rest, ⟨r, hr, rfl, rfl⟩, hend⟩
        · cases h
    · rintro ⟨-, t, ⟨r, hr, rfl, rfl⟩, hend⟩
      have hr' : readValue .strict ⟨0, []⟩ (skipBlanks (if false = true then s.drop 3 else s)) =
          .ok r := hr
      rw [hr']
      simp only [hend]

theorem spells_of_readTextOf {v : Value} (h : readTextOf .strict s = .ok v) :
    Spells s v ∧ v.KeysDistinct ∧ v.nesting ≤ 512 := by
  obtain ⟨-, t, ⟨r, hr, rfl, rfl⟩, hend⟩ := readTextOf_eq_ok_iff.1 h
  obtain ⟨⟨bs, hbs, hs⟩, hlimits⟩ := item_of_readValue (found_of_readValue _) hr
  rw [hend, List.append_nil] at hs
  exact ⟨hs ▸ hbs, hlimits⟩

theorem readTextOf_spells {v : Value} (hmark : ¬ byteOrderMark <+: s) (h : Spells s v)
    (hdistinct : v.KeysDistinct) (hnesting : v.nesting ≤ 512) : readTextOf .strict s = .ok v := by
  obtain ⟨t, hv, ht⟩ := readBack_of_spelled h hdistinct ⟨0, []⟩ hnesting (nofun : Closed [])
  rw [List.append_nil] at hv
  exact readTextOf_eq_ok_iff.2 ⟨hmark, t, hv, ht⟩

theorem parse_eq_ok {d : Document} : parse s = .ok d ↔ readTextOf .strict s = .ok d.root := by
  unfold parse read
  cases readTextOf .strict s with
  | ok v =>
    cases d
    simp
  | error e => simp

/--
The documents of the strict reader. It accepts a byte string if and only if that is a JSON text of
the grammar, without a byte order mark, without equal keys in one object and without more than 512
arrays and objects in each other; and then the document is the value that the text spells.
-/
theorem parse_eq_ok_iff (s : Bytes) (d : Document) :
    parse s = .ok d ↔
      ¬ byteOrderMark <+: s ∧ Spells s d.root ∧ d.root.KeysDistinct ∧ d.root.nesting ≤ 512 := by
  rw [parse_eq_ok]
  constructor
  · intro h
    exact ⟨(readTextOf_eq_ok_iff.1 h).1, spells_of_readTextOf h⟩
  · rintro ⟨hmark, hspells, hdistinct, hnesting⟩
    exact readTextOf_spells hmark hspells hdistinct hnesting

end Json

end PackageAudit
