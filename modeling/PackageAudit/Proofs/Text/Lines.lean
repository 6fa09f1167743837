import Mathlib.Data.Nat.Digits.Defs
import PackageAudit.Text.Quoted

/-!
# Proofs.Text.Lines — texts and the lines in them

A text is one line if no line feed stands in it. Whoever puts lines together, each with a line feed
behind it, and takes the text apart again finds the lines he began with, and finds others if one of
them was not a line.

* `not_mem_splitOn` — what stands between separators holds none of them;
* `IsLine`, `not_mem_toDigits`, `IsLine.intercalate` — texts on one line;
* `Quoted.isLine_text`, `Quoted.isLine_char` — quoted texts are, whatever they quote;
* `endedLines`, `endedLines_join` — the lines that are put together.
-/

namespace PackageAudit

/-! ## Parts between separators -/

section Separators

variable {α : Type} [BEq α] [LawfulBEq α]

/-- What stands between separators holds none of them. -/
theorem not_mem_splitOn (a : α) (l : List α) : ∀ part ∈ l.splitOn a, a ∉ part := by
  induction l with
  | nil => simp
  | cons x l ih =>
    rw [List.splitOn_cons_eq_if_modifyHead]
    split
    · simpa using ih
    · next hx =>
      cases hl : l.splitOn a with
      | nil => simp
      | cons first more =>
        rw [hl, List.forall_mem_cons] at ih
        rw [List.modifyHead_cons, List.forall_mem_cons]
        refine ⟨?_, ih.2⟩
        rw [List.mem_cons, not_or]
        exact ⟨fun h => hx (by simp [h]), ih.1⟩

end Separators

/-! ## Texts on one line -/

/-- No line feed stands in a text. -/
abbrev IsLine (s : String) : Prop :=
  '\n' ∉ s.toList

variable {s t : String}

/-- The digits of a number hold no line feed. -/
@[simp]
theorem not_mem_toDigits {base : Nat} (hbase : 1 < base) (n : Nat) :
    '\n' ∉ Nat.toDigits base n := by
  induction n using Nat.strong_induction_on with
  | _ n ih =>
  rw [Nat.toDigits_eq_if hbase]
  split
  · simp
  · next hle =>
    have hshort : n / base < n := Nat.div_lt_self (by omega) hbase
    simpa using ih _ hshort

theorem IsLine.intercalate {separator : String} {ls : List String} (hsep : IsLine separator)
    (h : ∀ l ∈ ls, IsLine l) : IsLine (separator.intercalate ls) := by
  induction ls with
  | nil => simp [IsLine]
  | cons l ls ih =>
    obtain ⟨hl, hls⟩ := List.forall_mem_cons.1 h
    cases ls with
    | nil => simpa using hl
    | cons l' ls =>
      rw [String.intercalate_cons_cons]
      simpa [IsLine, hl, hsep] using ih hls

namespace Quoted

theorem not_mem_escape (quote c : Char) : '\n' ∉ escape quote c := by
  unfold escape
  -- The line feed has an escape of its own, so it is none of the characters behind that.
  split
  iterate 5 decide
  next hfeed _ =>
  have hc : c ≠ '\n' := hfeed
  split
  · simpa using hc.symm
  split
  · simpa using hc.symm
  · simp [numbered]

/-- Whatever a quoted text is, it is shown on one line. -/
@[simp]
theorem isLine_text (s : String) : IsLine (text s) := by
  have hescape : ∀ c ∈ s.toList, '\n' ∉ escape '"' c := fun c _ => not_mem_escape '"' c
  simpa [IsLine, text] using hescape

@[simp]
theorem isLine_char (c : Char) : IsLine (char c) := by
  simpa [IsLine, char] using not_mem_escape '\'' c

end Quoted

/-! ## Texts of many lines -/

/-- The lines of a text, up to its last line feed. -/
def endedLines (text : String) : List String :=
  (text.toList.splitOn '\n').dropLast.map .ofList

/-- A text that has a line feed behind it, as lines. -/
def linesIn (text : String) : List String :=
  (text.toList.splitOn '\n').map .ofList

/-- What stands between line feeds is a line. -/
theorem isLine_of_mem_endedLines {line text : String} (h : line ∈ endedLines text) :
    IsLine line := by
  obtain ⟨part, hpart, rfl⟩ := List.mem_map.1 h
  rw [IsLine, String.toList_ofList]
  exact not_mem_splitOn '\n' text.toList part ((List.dropLast_sublist _).subset hpart)

theorem endedLines_append (s t : String) :
    endedLines (s ++ "\n" ++ t) = linesIn s ++ endedLines t := by
  have hchars : (s ++ "\n" ++ t).toList = s.toList ++ '\n' :: t.toList := by
    rw [String.toList_append, String.toList_append, List.append_assoc]
    rfl
  rw [endedLines, hchars, List.splitOn_append_cons_self,
    List.dropLast_append_of_ne_nil (List.splitOn_ne_nil _ _), List.map_append]
  rfl

theorem endedLines_join (ls : List String) :
    endedLines (String.join (ls.map (· ++ "\n"))) = ls.flatMap linesIn := by
  induction ls with
  | nil => rfl
  | cons l ls ih => rw [List.map_cons, String.join_cons, endedLines_append, ih, List.flatMap_cons]

theorem IsLine.linesIn_eq (h : IsLine s) : linesIn s = [s] := by
  rw [linesIn, List.splitOn_eq_singleton h, List.map_singleton, String.ofList_toList]

/-- Lines that are put together are found again. -/
theorem endedLines_join_of_isLine {ls : List String} (h : ∀ l ∈ ls, IsLine l) :
    endedLines (String.join (ls.map (· ++ "\n"))) = ls := by
  rw [endedLines_join]
  induction ls with
  | nil => rfl
  | cons l ls ih =>
    obtain ⟨hl, hls⟩ := List.forall_mem_cons.1 h
    rw [List.flatMap_cons, hl.linesIn_eq, ih hls]
    rfl

end PackageAudit
