import PackageAudit.Proofs.Document.Json.Completeness

/-!
# Proofs.Document.Json.Depth — the strict reader refuses what nests too deep

* `Json.TooDeep` — the reader stopped because of the limit;
* `Json.Refused` — a part of a text that does not keep within the limit stops the reader wherever it
  stands;
* `Json.refused_of_spelled` — every such part, by induction on its spelling;
* `Json.parse_tooDeep` — texts that nest too deep.
-/

namespace PackageAudit

namespace Json

variable {b : UInt8} {s t w rest : Bytes} {site : Site}

/-- The reader stopped at an array or object that lies too deep. -/
def TooDeep {α : Type} (result : Except Stop α) : Prop :=
  ∃ e, result = .error e ∧ e.fault = .tooDeep maxDepth

/-! ## Steps of the reader -/

theorem maxDepth_le_of_room (h : ¬ 0 < site.room) : maxDepth ≤ site.depth :=
  Nat.le_of_sub_eq_zero (Nat.eq_zero_of_not_pos h)

theorem tooDeep_array (hend : 0 < site.room → after? ']' (skipBlanks s) = none ∧
      TooDeep (readItems .strict site ('['.toUInt8 :: s) 0 [] s (Nat.lt_succ_self _))) :
    TooDeep (readValue .strict site ('['.toUInt8 :: s)) := by
  rw [readValue.eq_def]
  simp only [show Char.ofUInt8 '['.toUInt8 = '[' from rfl]
  by_cases hroom : 0 < site.room
  · rw [if_neg (Nat.not_le_of_lt (Nat.lt_of_sub_pos hroom))]
    exact (match_after (after? ']') (P := TooDeep)).2 (.inr ⟨(hend hroom).1, (hend hroom).2⟩)
  · rw [if_pos (maxDepth_le_of_room hroom)]
    exact ⟨_, rfl, rfl⟩

theorem tooDeep_object (hend : 0 < site.room → after? '\x7d' (skipBlanks s) = none ∧
      TooDeep (readMembers .strict site ('\x7b'.toUInt8 :: s) ⟨[], []⟩ s (Nat.lt_succ_self _))) :
    TooDeep (readValue .strict site ('\x7b'.toUInt8 :: s)) := by
  rw [readValue.eq_def]
  simp only [show Char.ofUInt8 '\x7b'.toUInt8 = '\x7b' from rfl]
  by_cases hroom : 0 < site.room
  · rw [if_neg (Nat.not_le_of_lt (Nat.lt_of_sub_pos hroom))]
    exact (match_after (after? '\x7d') (P := TooDeep)).2 (.inr ⟨(hend hroom).1, (hend hroom).2⟩)
  · rw [if_pos (maxDepth_le_of_room hroom)]
    exact ⟨_, rfl, rfl⟩

section Containers

variable {start : Bytes} {h : s.length < start.length}

/-- What comes of an element that stops the reader. -/
theorem tooDeep_item {index : Nat} {items : List Value}
    (hv : TooDeep (readValue .strict ⟨site.depth + 1, .index index :: site.path⟩ (skipBlanks s))) :
    TooDeep (readItems .strict site start index items s h) := by
  obtain ⟨e, he, hfault⟩ := hv
  exact readItems_step (P := TooDeep) (.inl ⟨e, he, e, rfl, hfault⟩)

theorem tooDeep_member {p u : Bytes} {m : Members} {k : String} (hp : KeyText k p)
    (hs : s = p ++ u) (hnew : k ∉ m.kept.map Prod.fst)
    (hv : TooDeep (readValue .strict ⟨site.depth + 1, .member k :: site.path⟩ (skipBlanks u))) :
    TooDeep (readMembers .strict site start m s h) := by
  obtain ⟨e, he, hfault⟩ := hv
  exact readMembers_step (P := TooDeep) hp hs hnew (.inl ⟨e, he, e, rfl, hfault⟩)

end Containers

/-! ## Every part of a text -/

/-- A part of a text that does not keep within the limit stops the reader wherever it stands. -/
def Refused : Phrase → Bytes → Prop
  | .value v, bs =>
    v.KeysDistinct → ∀ ⦃site rest⦄, site.room < v.nesting → NumberEnds rest →
      TooDeep (readValue .strict site (bs ++ rest))
  | .item v, bs =>
    v.KeysDistinct → ∀ (site : Site) ⦃rest⦄, site.room < v.nesting → Closed rest →
      TooDeep (readValue .strict site (skipBlanks (bs ++ rest)))
  | .items vs, bs =>
    Value.AllKeysDistinct vs → ∀ ⦃site start index items rest h⦄,
      site.room - 1 < Value.nestingAll vs →
      TooDeep (readItems .strict site start index items (bs ++ ']'.toUInt8 :: rest) h)
  | .members ms, bs =>
    Value.MembersKeysDistinct ms → ∀ ⦃site start m rest h⦄,
      ((m.kept.reverse ++ ms).map Prod.fst).Nodup → site.room - 1 < Value.nestingMembers ms →
      TooDeep (readMembers .strict site start m (bs ++ '\x7d'.toUInt8 :: rest) h)

theorem refused_of_spelled {p : Phrase} {bs : Bytes} (h : Spelled p bs) : Refused p bs := by
  -- On the spelling. A container is too deep itself, or one of its parts is, and then the parts in
  -- front of that one are read.
  induction h with
  | null | true | false | number | string =>
    exact fun _ _ _ hdeep _ => absurd hdeep (Nat.not_lt_zero _)
  | emptyArray hw =>
    intro _ site rest hdeep _
    rw [List.cons_append]
    exact tooDeep_array fun hroom => absurd hdeep (Nat.not_lt.2 hroom)
  | @array vs s hs ih =>
    intro hdistinct site rest hdeep _
    rw [Value.nesting] at hdeep
    rw [List.cons_append, List.append_assoc]
    exact tooDeep_array fun hroom => ⟨skipBlanks_items hs, ih hdistinct (by omega)⟩
  | emptyObject hw =>
    intro _ site rest hdeep _
    rw [List.cons_append]
    exact tooDeep_object fun hroom => absurd hdeep (Nat.not_lt.2 hroom)
  | @object ms s hs ih =>
    intro hdistinct site rest hdeep _
    rw [Value.nesting] at hdeep
    rw [List.cons_append, List.append_assoc]
    exact tooDeep_object fun hroom =>
      ⟨skipBlanks_members hs, ih hdistinct.2 (m := ⟨[], []⟩) hdistinct.1 (by omega)⟩
  | @item v w s w' hw hs hw' ih =>
    intro hdistinct site rest hdeep hrest
    obtain ⟨b, t, hb, hblank, -⟩ := head_of_spelled hs
    have hskip : skipBlanks (w ++ (s ++ w') ++ rest) = s ++ (w' ++ rest) := by
      rw [List.append_assoc, List.append_assoc, skipBlanks_append hw, hb, List.cons_append,
        skipBlanks_cons hblank]
    rw [hskip]
    exact ih hdistinct hdeep (numberEnds_append hw' hrest)
  | lastItem hs ih =>
    intro hdistinct site start index items rest h hdeep
    rw [Value.nestingAll, Value.nestingAll, Nat.max_zero] at hdeep
    exact tooDeep_item (ih hdistinct.1 ⟨site.depth + 1, .index index :: site.path⟩ hdeep
      (closed_cons (.inr (.inl rfl))))
  | @moreItems v vs s u hs hu ih ih' =>
    intro hdistinct site start index items rest h hdeep
    simp only [List.append_assoc, List.cons_append]
    by_cases hshallow : v.nesting ≤ site.room - 1
    · obtain ⟨t, hv, ht⟩ := readBack_of_spelled hs hdistinct.1
        ⟨site.depth + 1, .index index :: site.path⟩ hshallow (closed_cons (.inl rfl))
      have hdeep' : site.room - 1 < Value.nestingAll vs := by
        rw [Value.nestingAll] at hdeep
        omega
      exact readItems_step (P := TooDeep)
        (.inr ⟨v, t, hv, .inl ⟨_, ht, fun h => ih' hdistinct.2 hdeep'⟩⟩)
    · exact tooDeep_item (ih hdistinct.1 ⟨site.depth + 1, .index index :: site.path⟩
        (Nat.lt_of_not_le hshallow) (closed_cons (.inl rfl)))
  | @lastMember k v p s hp hs ih =>
    intro hdistinct site start m rest h hkeys hdeep
    rw [Value.nestingMembers, Value.nestingMembers, Nat.max_zero] at hdeep
    exact tooDeep_member hp (List.append_assoc ..) (not_mem_kept hkeys)
      (ih hdistinct.1 ⟨site.depth + 1, .member k :: site.path⟩ hdeep
        (closed_cons (.inr (.inr rfl))))
  | @moreMembers k v ms p s u hp hs hu ih ih' =>
    intro hdistinct site start m rest h hkeys hdeep
    simp only [List.append_assoc, List.cons_append]
    by_cases hshallow : v.nesting ≤ site.room - 1
    · obtain ⟨t, hv, ht⟩ := readBack_of_spelled hs hdistinct.1
        ⟨site.depth + 1, .member k :: site.path⟩ hshallow (closed_cons (.inl rfl))
      have hdeep' : site.room - 1 < Value.nestingMembers ms := by
        rw [Value.nestingMembers] at hdeep
        omega
      refine readMembers_step (P := TooDeep) hp rfl (not_mem_kept hkeys)
        (.inr ⟨v, t, hv, .inl ⟨_, ht, fun h => ?_⟩⟩)
      rw [← List.singleton_append, ← List.append_assoc, ← List.reverse_cons] at hkeys
      exact ih' hdistinct.2 (m := ⟨(k, v) :: m.kept, m.replaced⟩) hkeys hdeep'
    · exact tooDeep_member hp rfl (not_mem_kept hkeys)
        (ih hdistinct.1 ⟨site.depth + 1, .member k :: site.path⟩ (Nat.lt_of_not_le hshallow)
          (closed_cons (.inl rfl)))

/-- A text of a value that nests too deep is refused for that. -/
theorem parse_tooDeep {v : Value} (hmark : ¬ byteOrderMark <+: s) (h : Spells s v)
    (hdistinct : v.KeysDistinct) (hnesting : 512 < v.nesting) :
    ∃ e, parse s = .error e ∧ e.fault = .tooDeep 512 := by
  obtain ⟨e, he, hfault⟩ :=
    refused_of_spelled h hdistinct ⟨0, []⟩ hnesting (nofun : Closed [])
  rw [List.append_nil] at he
  have hmark : byteOrderMark.isPrefixOf s = false :=
    Bool.eq_false_iff.2 fun h => hmark (List.isPrefixOf_iff_prefix.1 h)
  have hread : readTextOf .strict s = .error e := by
    have he' : readValue .strict ⟨0, []⟩ (skipBlanks (if false = true then s.drop 3 else s)) =
        .error e := he
    unfold readTextOf
    dsimp only
    rw [hmark, Bool.false_and, if_neg Bool.false_ne_true, he']
  refine ⟨_, by rw [parse, read, hread], hfault⟩

end Json

end PackageAudit
