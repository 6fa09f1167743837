import Mathlib.Data.List.Induction
import PackageAudit.Proofs.Document.Yaml.Lexed
import PackageAudit.Proofs.Text.Utf8

/-!
# Proofs.Document.Yaml.LineEnds — carriage returns in front of line feeds

A carriage return at the end of a line is dropped with the line feed, so a text without any can be
given one on every line. Neither what is read nor the place of an error changes.

* `Yaml.withReturns`, `Yaml.returned` — bytes and characters with a return in front of every feed;
* `Yaml.split_withReturns` — they are well formed up to the same character;
* `Yaml.lines_returned` — they have the same lines;
* `Yaml.parse_withReturns` — and the same document, or the same error.
-/

namespace PackageAudit

namespace Yaml

variable {s rest : Bytes} {c : Char} {cs : List Char}

/-! ## Bytes -/

/-- Bytes with a carriage return in front of every line feed. -/
def withReturns (s : Bytes) : Bytes :=
  s.flatMap fun b => if b = 0x0A then [0x0D, 0x0A] else [b]

/-- Characters with a carriage return in front of every line feed. -/
def returned (cs : List Char) : List Char :=
  cs.flatMap fun c => if c = '\n' then ['\r', '\n'] else [c]

theorem withReturns_append (s t : Bytes) : withReturns (s ++ t) = withReturns s ++ withReturns t :=
  List.flatMap_append

theorem withReturns_cons {b : UInt8} (hb : b ≠ 0x0A) :
    withReturns (b :: s) = b :: withReturns s := by
  rw [withReturns, List.flatMap_cons, if_neg hb]
  rfl

theorem withReturns_of_not_mem (h : 0x0A ∉ s) : withReturns s = s := by
  induction s with
  | nil => rfl
  | cons b s ih =>
    rw [List.mem_cons, not_or] at h
    rw [withReturns_cons (Ne.symm h.1), ih h.2]

theorem returned_cons (hc : c ≠ '\n') : returned (c :: cs) = c :: returned cs := by
  rw [returned, List.flatMap_cons, if_neg hc]
  rfl

theorem returned_break (cs : List Char) : returned ('\n' :: cs) = '\r' :: '\n' :: returned cs :=
  rfl

theorem withReturns_encode (cs : List Char) :
    withReturns (Utf8.encode cs) = Utf8.encode (returned cs) := by
  induction cs with
  | nil => rfl
  | cons c cs ih =>
    rw [Utf8.encode_cons, withReturns_append, ih]
    by_cases hc : c = '\n'
    · subst hc
      rfl
    · have hbreak : (0x0A : UInt8) ∉ Utf8.encodeChar c := fun hmem =>
        hc (Char.ext (UInt32.ext (Utf8.encodeChar_of_mem (by decide) hmem).2))
      rw [withReturns_of_not_mem hbreak, returned_cons hc, Utf8.encode_cons]

/-- Bytes without line ends that stand in front once the returns are added stood there before. -/
theorem exists_of_withReturns {p r : Bytes} (h : withReturns s = p ++ r) (hp : 0x0D ∉ p) :
    ∃ rest, s = p ++ rest := by
  induction p generalizing s with
  | nil => exact ⟨s, rfl⟩
  | cons a p ih =>
    rw [List.mem_cons, not_or] at hp
    cases s with
    | nil => cases h
    | cons b s =>
      by_cases hb : b = 0x0A
      · subst hb
        exact absurd (List.cons.inj h).1 hp.1
      · rw [withReturns_cons hb] at h
        obtain ⟨rfl, htail⟩ := List.cons.inj h
        obtain ⟨rest, rfl⟩ := ih htail hp.2
        exact ⟨rest, rfl⟩

/-- Where no character stands, none stands once the returns are added. -/
theorem decodeChar_withReturns (h : Utf8.decodeChar s = none) (hs : 0x0D ∉ s) :
    Utf8.decodeChar (withReturns s) = none := by
  cases hread : Utf8.decodeChar (withReturns s) with
  | none => rfl
  | some p =>
    obtain ⟨c, r⟩ := p
    have hfront := Utf8.decodeChar_eq_some_iff.1 hread
    by_cases hreturn : (0x0D : UInt8) ∈ Utf8.encodeChar c
    · -- A return in front belongs to a line feed, which is a character.
      rw [(Utf8.encodeChar_of_mem (by decide) hreturn).1] at hfront
      cases s with
      | nil => cases hfront
      | cons b s =>
        by_cases hb : b = 0x0A
        · subst hb
          have hbreak : Utf8.decodeChar (0x0A :: s) = some ('\n', s) :=
            Utf8.decodeChar_eq_some_iff.2 rfl
          cases h.symm.trans hbreak
        · rw [withReturns_cons hb] at hfront
          exact absurd ((List.cons.inj hfront).1 ▸ List.mem_cons_self) hs
    · obtain ⟨rest, rfl⟩ := exists_of_withReturns hfront hreturn
      cases h.symm.trans (Utf8.decodeChar_eq_some_iff.2 rfl)

theorem split_withReturns (hs : 0x0D ∉ s) : ∃ cs rest, Utf8.split s = (cs, rest) ∧
    Utf8.split (withReturns s) = (returned cs, withReturns rest) ∧ '\r' ∉ cs := by
  obtain ⟨cs, rest, rfl, hrest⟩ := Utf8.exists_front s
  rw [List.mem_append, not_or] at hs
  refine ⟨cs, rest, Utf8.split_append cs hrest, ?_, fun hmem => hs.1 ?_⟩
  · rw [withReturns_append, withReturns_encode]
    exact Utf8.split_append _ (decodeChar_withReturns hrest hs.2)
  · exact List.mem_flatMap.2 ⟨'\r', hmem, List.mem_singleton_self _⟩

/-! ## Lines -/

/-- A line without the carriage return at its end. -/
def chomp (l : List Char) : List Char :=
  if l.getLast? = some '\r' then l.dropLast else l

theorem lines_eq (cs : List Char) : lines cs = (cs.splitOn '\n').map chomp :=
  rfl

theorem chomp_isPrefix (l : List Char) : chomp l <+: l := by
  unfold chomp
  split
  · exact List.dropLast_prefix l
  · exact List.prefix_rfl

theorem chomp_cons {l : List Char} (hc : c ≠ '\r') : chomp (c :: l) = c :: chomp l := by
  cases l with
  | nil =>
    have hlast : [c].getLast? ≠ some '\r' := fun h => hc (Option.some.inj h)
    rw [chomp, if_neg hlast]
    rfl
  | cons d l =>
    rw [chomp, chomp, List.getLast?_cons_cons]
    split <;> rfl

theorem lines_break (cs : List Char) : lines ('\n' :: cs) = [] :: lines cs := by
  rw [lines_eq, List.splitOn_cons_eq_if_modifyHead, if_pos (beq_self_eq_true '\n')]
  rfl

theorem lines_cons (hbreak : c ≠ '\n') (hreturn : c ≠ '\r') :
    lines (c :: cs) = (lines cs).modifyHead (c :: ·) := by
  rw [lines_eq, lines_eq, List.splitOn_cons_eq_if_modifyHead,
    if_neg (mt eq_of_beq hbreak)]
  cases cs.splitOn '\n' with
  | nil => rfl
  | cons l ls => exact congrArg (· :: ls.map chomp) (chomp_cons hreturn)

theorem lines_return_break (cs : List Char) : lines ('\r' :: '\n' :: cs) = [] :: lines cs := by
  rw [lines_eq, List.splitOn_cons_eq_if_modifyHead, if_neg (by decide),
    List.splitOn_cons_eq_if_modifyHead, if_pos (beq_self_eq_true '\n')]
  rfl

theorem lines_returned (h : '\r' ∉ cs) : lines (returned cs) = lines cs := by
  induction cs with
  | nil => rfl
  | cons c cs ih =>
    rw [List.mem_cons, not_or] at h
    by_cases hc : c = '\n'
    · subst hc
      rw [returned_break, lines_return_break, lines_break, ih h.2]
    · rw [returned_cons hc, lines_cons hc (Ne.symm h.1), lines_cons hc (Ne.symm h.1), ih h.2]

theorem readText_congr {ds : List Char} (h : lines cs = lines ds) : readText cs = readText ds := by
  rw [readText, readText, tokens, tokens, h]

/-! ## Marks and places -/

theorem dropMark_eq_self (h : cs.head? ≠ some '\uFEFF') : dropMark cs = cs := by
  unfold dropMark
  split
  · exact absurd rfl h
  · rfl

theorem mem_of_mem_dropMark (h : c ∈ dropMark cs) : c ∈ cs := by
  unfold dropMark at h
  split at h
  · exact List.mem_cons_of_mem _ h
  · exact h

theorem dropMark_returned (cs : List Char) : dropMark (returned cs) = returned (dropMark cs) := by
  cases cs with
  | nil => rfl
  | cons c cs =>
    by_cases hbreak : c = '\n'
    · subst hbreak
      rfl
    by_cases hmark : c = '\uFEFF'
    · subst hmark
      rfl
    · have hhead (ds : List Char) : (c :: ds).head? ≠ some '\uFEFF' :=
        fun h => hmark (Option.some.inj h)
      rw [returned_cons hbreak, dropMark_eq_self (hhead _), dropMark_eq_self (hhead _),
        returned_cons hbreak]

theorem count_returned (cs : List Char) : (returned cs).count '\n' = cs.count '\n' := by
  induction cs with
  | nil => rfl
  | cons c cs ih =>
    by_cases hc : c = '\n'
    · subst hc
      rw [returned_break, List.count_cons_of_ne (by decide), List.count_cons_self,
        List.count_cons_self, ih]
    · rw [returned_cons hc, List.count_cons_of_ne hc, List.count_cons_of_ne hc, ih]

/-- Behind the last line feed nothing is added. -/
theorem lastLine_returned (cs : List Char) :
    (returned cs).reverse.takeWhile (· != '\n') = cs.reverse.takeWhile (· != '\n') := by
  induction cs using List.reverseRecOn with
  | nil => rfl
  | append_singleton cs c ih =>
    rw [returned, List.flatMap_append, ← returned, List.reverse_append, List.reverse_append]
    by_cases hc : c = '\n'
    · subst hc
      rfl
    · have hlast : ([c].flatMap fun c => if c = '\n' then ['\r', '\n'] else [c]) = [c] := by
        rw [List.flatMap_singleton, if_neg hc]
      have hkeep : (c != '\n') = true := bne_iff_ne.2 hc
      rw [hlast, List.reverse_singleton, List.singleton_append, List.singleton_append,
        List.takeWhile_cons_of_pos (p := (· != '\n')) hkeep,
        List.takeWhile_cons_of_pos (p := (· != '\n')) hkeep, ih]

/-- The place behind a text is counted from the last line feed. -/
theorem invalidUtf8_returned (cs : List Char) : invalidUtf8 (returned cs) = invalidUtf8 cs := by
  rw [invalidUtf8, invalidUtf8, count_returned, lastLine_returned]

/-! ## Texts -/

/-- With a carriage return at the end of each line a text is read, or refused, as it was. -/
theorem parse_withReturns (hs : 0x0D ∉ s) : parse (withReturns s) = parse s := by
  obtain ⟨cs, rest, hsplit, hsplit', hreturn⟩ := split_withReturns hs
  rw [parse, parse, read, read, hsplit, hsplit']
  cases rest with
  | nil =>
    have hreturn : '\r' ∉ dropMark cs := fun hmem => hreturn (mem_of_mem_dropMark hmem)
    have hnil : withReturns [] = [] := rfl
    rw [hnil]
    dsimp only
    rw [dropMark_returned, readText_congr (lines_returned hreturn)]
  | cons b rest =>
    obtain ⟨a, more, hmore⟩ : ∃ a more, withReturns (b :: rest) = a :: more := by
      by_cases hb : b = 0x0A
      · subst hb
        exact ⟨_, _, rfl⟩
      · exact ⟨_, _, withReturns_cons hb⟩
    rw [hmore]
    dsimp only
    rw [invalidUtf8_returned]
    rfl

end Yaml

end PackageAudit
