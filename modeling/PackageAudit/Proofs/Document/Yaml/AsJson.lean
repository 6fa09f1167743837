import PackageAudit.Proofs.Document.Finite
import PackageAudit.Proofs.Document.Json.Depth
import PackageAudit.Proofs.Document.Yaml.Layout

/-!
# Proofs.Document.Yaml.AsJson — YAML documents written as JSON

* `Value.nesting_le_height` — an empty collection may lie deeper than every value, by one level;
* `Yaml.parse_render_of_read` — the JSON text of a YAML document is read as the document, unless an
  empty collection lies too deep: the readers do not count those alike.
-/

namespace PackageAudit

namespace Value

variable {v : Value}

/-! ## Nesting and height -/

theorem nesting_current (v : Value) : v.current.nesting = v.nesting := by
  refine Nat.le_antisymm (nesting_current_le v) ?_
  induction v using induction with
  | null | bool | number | string => exact Nat.le_refl _
  | array items ih =>
    rw [current, nesting, nesting, currentAll_eq_map]
    refine Nat.add_le_add_left (nestingAll_le_iff.2 fun v hv => ?_) 1
    exact Nat.le_trans (ih v hv)
      (nestingAll_le_iff.1 (Nat.le_refl _) _ (List.mem_map_of_mem hv))
  | object members replaced ih =>
    rw [current, nesting, nesting, currentMembers_eq_map]
    refine Nat.add_le_add_left (nestingMembers_le_iff.2 fun m hm => ?_) 1
    exact Nat.le_trans (ih m hm)
      (nestingMembers_le_iff.1 (Nat.le_refl _) (m.1, m.2.current)
        (List.mem_map.2 ⟨m, hm, rfl⟩))

/-- Only an empty collection lies deeper than every value, and by one level. -/
theorem nesting_le_height (v : Value) : v.nesting ≤ v.height + 1 := by
  induction v using induction with
  | null | bool | number | string => exact Nat.zero_le _
  | array items ih =>
    rw [nesting, Nat.add_comm]
    refine Nat.succ_le_succ (nestingAll_le_iff.2 fun v hv => ?_)
    exact Nat.le_trans (ih v hv) (heightAll_le_iff.1 (Nat.le_refl _) v hv)
  | object members replaced ih =>
    rw [nesting, Nat.add_comm]
    refine Nat.succ_le_succ (nestingMembers_le_iff.2 fun m hm => ?_)
    exact Nat.le_trans (ih m hm) (heightMembers_le_iff.1 (Nat.le_refl _) m hm)

/-! ## Texts -/

theorem WellFormed.parse_tooDeep (h : v.WellFormed) (hnesting : 512 < v.nesting) :
    ∃ e, Json.parse (textBytes v.render) = .error e ∧ e.fault = .tooDeep 512 := by
  have hspelled := spelled_render (printable_finite h.numbers)
  rw [render_finite] at hspelled
  refine Json.parse_tooDeep (not_byteOrderMark_of_spelled hspelled) (spelled_item hspelled)
    (keysDistinct_current (keysDistinct_finite h.keys)) ?_
  rwa [nesting_current, nesting_finite]

end Value

namespace Yaml

/-! ## Documents -/

theorem height_of_readText {cs : List Char} {v : Value} (h : readText cs = .ok v) :
    v.height ≤ 512 := by
  obtain ⟨ts, -, ⟨-, rfl⟩ | ⟨c, -, hheight⟩⟩ := readText_iff.1 h
  · exact Nat.zero_le _
  · exact hheight

/--
The JSON text of a YAML document is read by the strict reader as the same kinds and values, with
null for infinities and NaNs, as far as no more than 512 arrays and objects lie in each other. Only
an empty one can lie deeper, by one level: it is no block, and the reader of YAML counts those. The
text is refused then.
-/
theorem parse_render_of_read {lossy : Bool} {s : Bytes} {d : Document}
    (h : read lossy s = .ok d) :
    d.root.nesting ≤ 513 ∧
      (d.root.nesting ≤ 512 → ∃ back, Json.parse (textBytes d.render) = .ok back ∧
        d.root.finite.same back.root = true) ∧
      (512 < d.root.nesting → ∃ e, Json.parse (textBytes d.render) = .error e ∧
        e.fault = .tooDeep 512) := by
  have hwell := wellFormed_of_read h
  have hheight := height_of_readText (readText_of_read h)
  refine ⟨?_, hwell.parse_finite, hwell.parse_tooDeep⟩
  exact Nat.le_trans d.root.nesting_le_height (Nat.succ_le_succ hheight)

/-- A double without a text, in a block that broken characters are allowed in. -/
theorem parse_render_of_read_infinite :
    let d : Document := ⟨.array [.number (.float (.infinite false)), .string "\uFFFD"]⟩
    read true (textBytes "- .inf\n- " ++ [0xFF]) = .ok d ∧ d.root.nesting ≤ 513 ∧
      (d.root.nesting ≤ 512 → ∃ back, Json.parse (textBytes d.render) = .ok back ∧
        d.root.finite.same back.root = true) ∧
      (512 < d.root.nesting → ∃ e, Json.parse (textBytes d.render) = .error e ∧
        e.fault = .tooDeep 512) := by
  intro d
  have hread : read true (textBytes "- .inf\n- " ++ [0xFF]) = .ok d := by cbv
  exact ⟨hread, parse_render_of_read hread⟩

/-! ## The empty sequence that lies too deep -/

/-- Sequences in each other, an empty one innermost. -/
def nest : Nat → Value
  | 0 => .array []
  | n + 1 => .array [nest n]

theorem nesting_nest (n : Nat) : (nest n).nesting = n + 1 := by
  induction n with
  | zero => rfl
  | succ n ih => rw [nest, Value.nesting, Value.nestingAll, Value.nestingAll, Nat.max_zero, ih,
      Nat.add_comm]

theorem height_nest (n : Nat) : (nest n).height = n := by
  induction n with
  | zero => rfl
  | succ n ih => rw [nest, Value.height, Value.heightAll, Value.heightAll, Nat.max_zero, ih]

theorem wellFormed_nest (n : Nat) : (nest n).WellFormed := by
  induction n with
  | zero => exact Value.wellFormed_array nofun
  | succ n ih => exact Value.wellFormed_array (List.forall_mem_singleton.2 ih)

theorem integers_nest (n : Nat) : (nest n).AllNumbers Value.IsInteger := by
  induction n with
  | zero => trivial
  | succ n ih => exact ⟨ih, trivial⟩

/-- All dashes on one line. -/
def dashes : Layout := fun _ => ⟨0, true, 0, false⟩

theorem write_nest (n c : Nat) :
    dashes.write c (nest n) = [⟨c, (List.replicate n ['-', ' ']).flatten ++ ['[', ']']⟩] := by
  induction n generalizing c with
  | zero => rfl
  | succ n ih =>
    have hchild : dashes.child 0 = dashes := rfl
    rw [nest, Layout.write, Layout.writeItems, Layout.writeItems, hchild, ih, if_pos (.inr rfl)]
    rfl

/-- Up to 512 dashes in front of brackets are read as so many sequences around an empty one. -/
theorem parse_nest {n : Nat} (hn : n ≤ 512) :
    parse (Utf8.encode ((List.replicate n ['-', ' ']).flatten ++ ['[', ']', '\n'])) =
      .ok ⟨(nest n).current⟩ := by
  have hprint : dashes.print 0 (nest n) =
      (List.replicate n ['-', ' ']).flatten ++ ['[', ']', '\n'] := by
    rw [Layout.print, write_nest, List.flatMap_singleton, Line.chars, List.replicate_zero,
      List.nil_append, List.append_assoc]
    rfl
  have hheight : (nest n).height ≤ 512 := Nat.le_trans (Nat.le_of_eq (height_nest n)) hn
  have hread := readText_print dashes 0 (integers_nest n) (wellFormed_nest n).keys hheight
  exact hprint ▸ parse_of_readText hread

/-- The brackets behind 512 dashes are accepted, and what is written for them is refused. -/
theorem brackets_behind_dashes_refused :
    ∃ d, parse (Utf8.encode ((List.replicate 512 ['-', ' ']).flatten ++ ['[', ']', '\n'])) =
        .ok d ∧
      ∃ e, Json.parse (textBytes d.render) = .error e ∧ e.fault = .tooDeep 512 := by
  have hnesting : 512 < (nest 512).nesting :=
    Nat.lt_of_lt_of_eq (Nat.lt_succ_self 512) (nesting_nest 512).symm
  refine ⟨_, parse_nest (Nat.le_refl 512), ?_⟩
  rw [Document.render, Value.render_current]
  exact (wellFormed_nest 512).parse_tooDeep hnesting

end Yaml

end PackageAudit
