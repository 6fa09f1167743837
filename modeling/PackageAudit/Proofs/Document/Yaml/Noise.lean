import Mathlib
import PackageAudit.Proofs.Document.Yaml.Completeness
import PackageAudit.Proofs.Document.Yaml.LineEnds
import PackageAudit.Proofs.Document.Yaml.Margin

/-!
# Proofs.Document.Yaml.Noise — comments, blank lines, margins and line ends

* `Yaml.Idle` — lines of blanks and comments;
* `Yaml.Noise` — the lines of a text with a margin, comments and idle lines added;
* `Yaml.tokensFrom_moved` — they have the same tokens, moved with their lines;
* `Yaml.readText_noise` — they are read as the same tree;
* `Yaml.parse_under_noise` — the document of a text does not depend on any of this, nor on the
  carriage returns at its line ends.
-/

namespace PackageAudit

namespace Yaml

variable {margin line : Nat} {cs l w : List Char} {c : Char}
  {found found' ts : List Token} {ls ls' : List (List Char)}

/-! ## Idle lines -/

/-- A line of blanks, perhaps with a comment behind them. -/
inductive Idle : List Char → Prop where
  | blank {cs : List Char} (h : ∀ c ∈ cs, isBlank c = true) : Idle cs
  | comment {cs text : List Char} (h : ∀ c ∈ cs, isBlank c = true) (htext : '\n' ∉ text) :
      Idle (cs ++ '#' :: text)

theorem Idle.silent (h : Idle l) : Silent l := by
  intro c hc
  cases h with
  | blank h =>
    rw [List.dropWhile_eq_nil_iff.2 h] at hc
    cases hc
  | comment h =>
    rw [List.dropWhile_append_of_pos h] at hc
    exact (Option.some.inj hc).symm

/-! ## Noise -/

/--
Lines with noise: idle lines are added or exchanged for others, and every other line may have a
comment behind it. All of them are moved by the margin.
-/
inductive Noise (margin : Nat) : List (List Char) → List (List Char) → Prop where
  | nil : Noise margin [] []
  | added {l : List Char} {ls ls' : List (List Char)} (h : Idle l) (hs : Noise margin ls ls') :
      Noise margin ls (l :: ls')
  | idle {l l' : List Char} {ls ls' : List (List Char)} (h : Idle l) (h' : Idle l')
      (hs : Noise margin ls ls') : Noise margin (l :: ls) (l' :: ls')
  | line {l w : List Char} {ls ls' : List (List Char)} (h : Trailer w)
      (hs : Noise margin ls ls') :
      Noise margin (l :: ls) ((List.replicate margin ' ' ++ l ++ w) :: ls')

/-! ## Texts -/

theorem tokensFrom_moved (line' : Nat) (hnoise : Noise margin ls ls')
    (hfound : List.Forall₂ (Moved margin) found found')
    (h : tokensFrom line found ls = .ok ts) :
    ∃ ts', tokensFrom line' found' ls' = .ok ts' ∧ List.Forall₂ (Moved margin) ts ts' := by
  induction hnoise generalizing line line' found found' with
  | nil =>
    cases h
    exact ⟨found', rfl, hfound⟩
  | added hidle _ ih =>
    rw [tokensFrom, lineTokens_silent hidle.silent]
    exact ih _ hfound h
  | idle hidle hidle' _ ih =>
    rw [tokensFrom, lineTokens_silent hidle.silent] at h
    rw [tokensFrom, lineTokens_silent hidle'.silent]
    exact ih _ hfound h
  | @line l w ls ls' hw _ ih =>
    rw [tokensFrom] at h ⊢
    split at h
    · next us hus =>
      obtain ⟨us', hus', hmoved⟩ := lineTokens_moved line' hfound hw hus
      rw [hus']
      exact ih _ hmoved h
    · cases h

/-! ### Line ends -/

theorem chomp_of_not_mem (h : '\r' ∉ l) : chomp l = l :=
  if_neg fun hlast => h (List.mem_of_getLast? hlast)

theorem mem_of_mem_chomp (h : c ∈ chomp l) : c ∈ l := by
  unfold chomp at h
  split at h
  · exact List.mem_of_mem_dropLast h
  · exact h

theorem chomp_append (hl : '\r' ∉ l) (w : List Char) : chomp (l ++ w) = l ++ chomp w := by
  induction l with
  | nil => rfl
  | cons c l ih =>
    rw [List.mem_cons, not_or] at hl
    rw [List.cons_append, chomp_cons (Ne.symm hl.1), ih hl.2]
    rfl

/-- A carriage return at the end of a comment belongs to the end of the line. -/
theorem Trailer.chomp (hw : Trailer w) : Trailer (chomp w) := by
  cases hw with
  | nothing => exact .nothing
  | comment h =>
    rw [chomp_cons (by decide), chomp_cons (by decide)]
    exact .comment fun hmem => h (mem_of_mem_chomp hmem)

theorem Idle.chomp (h : Idle l) : Idle (chomp l) := by
  cases h with
  | blank h =>
    rw [chomp_of_not_mem (not_mem_of_blanks h rfl)]
    exact .blank h
  | comment h htext =>
    rw [chomp_append (not_mem_of_blanks h rfl), chomp_cons (by decide)]
    exact .comment h fun hmem => htext (mem_of_mem_chomp hmem)

theorem Noise.chomp (h : Noise margin ls ls') (hreturn : ∀ l ∈ ls, '\r' ∉ l) :
    Noise margin ls (ls'.map Yaml.chomp) := by
  induction h with
  | nil => exact .nil
  | added hidle _ ih => exact .added hidle.chomp (ih hreturn)
  | idle hidle hidle' _ ih => exact .idle hidle hidle'.chomp (ih (List.forall_mem_cons.1 hreturn).2)
  | @line l w ls ls' hw _ ih =>
    rw [List.forall_mem_cons] at hreturn
    have hline : '\r' ∉ List.replicate margin ' ' ++ l := by
      rw [List.mem_append, not_or]
      exact ⟨not_mem_of_blanks (blank_of_mem_replicate margin) rfl, hreturn.1⟩
    rw [List.map_cons, chomp_append hline]
    exact .line hw.chomp (ih hreturn.2)

theorem Trailer.not_mem_break (hw : Trailer w) : '\n' ∉ w := by
  cases hw with
  | nothing => exact List.not_mem_nil
  | comment h => simp [h]

theorem Idle.not_mem_break (h : Idle l) : '\n' ∉ l := by
  cases h with
  | blank h => exact not_mem_of_blanks h rfl
  | comment h htext => simp [not_mem_of_blanks h (c := '\n') rfl, htext]

theorem Noise.not_mem_break (h : Noise margin ls ls') (hbreak : ∀ l ∈ ls, '\n' ∉ l) :
    ∀ l ∈ ls', '\n' ∉ l := by
  induction h with
  | nil => exact hbreak
  | added hidle _ ih => exact List.forall_mem_cons.2 ⟨hidle.not_mem_break, ih hbreak⟩
  | idle _ hidle' _ ih =>
    exact List.forall_mem_cons.2 ⟨hidle'.not_mem_break, ih (List.forall_mem_cons.1 hbreak).2⟩
  | line hw _ ih =>
    rw [List.forall_mem_cons] at hbreak
    refine List.forall_mem_cons.2 ⟨?_, ih hbreak.2⟩
    rw [List.mem_append, List.mem_append, not_or, not_or]
    exact ⟨⟨not_mem_of_blanks (blank_of_mem_replicate _) rfl, hbreak.1⟩, hw.not_mem_break⟩

theorem Noise.ne_nil (h : Noise margin ls ls') (hne : ls ≠ []) : ls' ≠ [] := by
  cases h with
  | nil => exact absurd rfl hne
  | added | idle | line => exact List.cons_ne_nil _ _

/-- The lines of a text are put together again, one line feed between two of them. -/
def unlines (ls : List (List Char)) : List Char :=
  ['\n'].intercalate ls

/-- Behind a line there is nothing or a line feed. -/
theorem exists_unlines_cons (l : List Char) (ls : List (List Char)) :
    ∃ rest, unlines (l :: ls) = l ++ rest ∧ ∀ c, rest.head? = some c → c = '\n' := by
  cases ls with
  | nil => exact ⟨[], by rw [unlines, List.intercalate_singleton, List.append_nil], nofun⟩
  | cons l' ls =>
    refine ⟨'\n' :: unlines (l' :: ls), ?_, ?_⟩
    · rw [unlines, List.intercalate_cons_cons, List.append_assoc]
      rfl
    · rintro _ ⟨⟩
      rfl

theorem mem_unlines (hl : l ∈ ls) (hc : c ∈ l) : c ∈ unlines ls := by
  induction ls with
  | nil => cases hl
  | cons l' ls ih =>
    cases ls with
    | nil =>
      rw [List.mem_singleton.1 hl] at hc
      rwa [unlines, List.intercalate_singleton]
    | cons l'' ls =>
      rw [unlines, List.intercalate_cons_cons, List.mem_append, List.mem_append]
      rcases List.mem_cons.1 hl with rfl | hl
      · exact .inl (.inl hc)
      · exact .inr (ih hl)

/-! ### Byte order marks -/

/-- No byte order mark in front. -/
def Unmarked (cs : List Char) : Prop :=
  cs.head? ≠ some '\uFEFF'

theorem Unmarked.append {cs ds : List Char} (h : Unmarked cs) (h' : Unmarked ds) :
    Unmarked (cs ++ ds) := by
  cases cs with
  | nil => exact h'
  | cons c cs => exact h

theorem Trailer.unmarked (hw : Trailer w) : Unmarked w := by
  cases hw <;> exact nofun

theorem unmarked_of_blanks (h : ∀ c ∈ cs, isBlank c = true) : Unmarked cs := fun hhead =>
  not_mem_of_blanks h rfl (List.mem_of_head? hhead)

theorem Idle.unmarked (h : Idle l) : Unmarked l := by
  cases h with
  | blank h => exact unmarked_of_blanks h
  | comment h => exact (unmarked_of_blanks h).append nofun

theorem unmarked_unlines (h : ∀ l, ls.head? = some l → Unmarked l) : Unmarked (unlines ls) := by
  cases ls with
  | nil => exact nofun
  | cons l ls =>
    obtain ⟨rest, heq, hrest⟩ := exists_unlines_cons l ls
    rw [heq]
    exact (h l rfl).append fun hhead => absurd (hrest _ hhead) (by decide)

theorem Noise.unmarked (h : Noise margin ls ls') (hls : ∀ l, ls.head? = some l → Unmarked l) :
    ∀ l, ls'.head? = some l → Unmarked l := by
  cases h with
  | nil => exact nofun
  | added hidle =>
    rintro _ ⟨⟩
    exact hidle.unmarked
  | idle _ hidle' =>
    rintro _ ⟨⟩
    exact hidle'.unmarked
  | line hw =>
    rintro _ ⟨⟩
    have hmargin := unmarked_of_blanks (blank_of_mem_replicate margin)
    exact (hmargin.append (hls _ rfl)).append hw.unmarked

/-- The first line of a text begins with the text. -/
theorem unmarked_splitOn (h : Unmarked cs) :
    ∀ l, (cs.splitOn '\n').head? = some l → Unmarked l := by
  intro l hl hhead
  obtain ⟨ls, hls⟩ := List.head?_eq_some_iff.1 hl
  obtain ⟨rest, rfl⟩ := List.head?_eq_some_iff.1 hhead
  have hcs : unlines (cs.splitOn '\n') = cs := List.intercalate_splitOn '\n'
  obtain ⟨more, heq, -⟩ := exists_unlines_cons ('\uFEFF' :: rest) ls
  rw [hls, heq] at hcs
  exact h (hcs ▸ rfl)

/-! ### Documents -/

theorem lines_unlines (hbreak : ∀ l ∈ ls, '\n' ∉ l) (hne : ls ≠ []) :
    lines (unlines ls) = ls.map chomp := by
  rw [lines_eq, unlines, List.splitOn_intercalate '\n' hbreak hne]

theorem readText_noise {v : Value} (hreturn : '\r' ∉ cs) (h : readText cs = .ok v)
    (hnoise : Noise margin (cs.splitOn '\n') ls) : readText (unlines ls) = .ok v := by
  have hsplit : ∀ l ∈ cs.splitOn '\n', '\r' ∉ l := fun l hl hmem => by
    have hcs := mem_unlines hl hmem
    rw [unlines, List.intercalate_splitOn] at hcs
    exact hreturn hcs
  have hlines : lines cs = cs.splitOn '\n' := by
    rw [lines_eq]
    exact (List.map_congr_left fun l hl => chomp_of_not_mem (hsplit l hl)).trans (List.map_id _)
  have hbreak := hnoise.not_mem_break (not_mem_splitOn '\n' cs)
  have hlines' := lines_unlines hbreak (hnoise.ne_nil (List.splitOn_ne_nil '\n' cs))
  obtain ⟨ts, htokens, hv⟩ := readText_iff.1 h
  obtain ⟨found, hfound, rfl⟩ := of_map htokens
  rw [hlines] at hfound
  obtain ⟨found', hfound', hmoved⟩ := tokensFrom_moved 0 (hnoise.chomp hsplit) .nil hfound
  refine readText_iff.2 ⟨found'.reverse, ?_, ?_⟩
  · rw [tokens, hlines', hfound']
    rfl
  have hmoved := List.rel_reverse hmoved
  rcases hv with ⟨hnil, rfl⟩ | ⟨c, hspelled, hheight⟩
  · rw [hnil] at hmoved
    exact .inl ⟨List.forall₂_nil_left_iff.1 hmoved, rfl⟩
  · exact .inr ⟨c + margin, hspelled.moved hmoved, hheight⟩

theorem parse_encode (cs : List Char) :
    parse (Utf8.encode cs) = (readText (dropMark cs)).map Document.mk := by
  rw [parse, read, Utf8.split_encode]

theorem parse_noise {d : Document} (hreturn : '\r' ∉ cs) (hmark : Unmarked cs)
    (h : parse (Utf8.encode cs) = .ok d) (hnoise : Noise margin (cs.splitOn '\n') ls) :
    parse (Utf8.encode (unlines ls)) = .ok d := by
  have hmark' := unmarked_unlines (hnoise.unmarked (unmarked_splitOn hmark))
  rw [parse_encode, dropMark_eq_self hmark] at h
  rw [parse_encode, dropMark_eq_self hmark']
  obtain ⟨v, hv, rfl⟩ := of_map h
  rw [readText_noise hreturn hv hnoise]
  rfl

/--
Carriage returns at all line ends change nothing, not even where an error is. A document keeps its
tree as well if its lines are moved by a margin, comments are written behind them, and lines of
blanks and comments are added.
-/
theorem parse_under_noise :
    (∀ s : Bytes, 0x0D ∉ s → parse (withReturns s) = parse s) ∧
    ∀ (cs : List Char) (margin : Nat) (ls : List (List Char)) (d : Document),
      '\r' ∉ cs → cs.head? ≠ some '\uFEFF' → parse (Utf8.encode cs) = .ok d →
      Noise margin (cs.splitOn '\n') ls → parse (Utf8.encode (unlines ls)) = .ok d :=
  ⟨fun _ => parse_withReturns, fun _ _ _ _ => parse_noise⟩

/-- A sequence below its key, with a comment behind the key and another one on a line of its own. -/
theorem parse_under_noise_sequence :
    (0x0D ∉ textBytes "a:\n- b" ∧
      parse (withReturns (textBytes "a:\n- b")) = parse (textBytes "a:\n- b")) ∧
    ('\r' ∉ "a:\n- b".toList ∧ "a:\n- b".toList.head? ≠ some '\uFEFF' ∧
      parse (textBytes "a:\n- b") = .ok ⟨.object [("a", .array [.string "b"])] []⟩ ∧
      parse (Utf8.encode (unlines ["  a: # x".toList, "# y".toList, "  - b".toList])) =
        .ok ⟨.object [("a", .array [.string "b"])] []⟩) := by
  have hbytes : 0x0D ∉ textBytes "a:\n- b" := by decide
  have hreturn : '\r' ∉ "a:\n- b".toList := by decide
  have hmark : "a:\n- b".toList.head? ≠ some '\uFEFF' := by decide
  have hread : parse (textBytes "a:\n- b") = .ok ⟨.object [("a", .array [.string "b"])] []⟩ := by
    cbv
  have hbehind : Trailer [' ', '#', ' ', 'x'] := .comment (by decide)
  have hline : Idle ([] ++ ['#', ' ', 'y']) := .comment (List.forall_mem_nil _) (by decide)
  have hnoise : Noise 2 ("a:\n- b".toList.splitOn '\n')
      ["  a: # x".toList, "# y".toList, "  - b".toList] :=
    .line hbehind (.added hline (.line .nothing .nil))
  exact ⟨⟨hbytes, parse_under_noise.1 _ hbytes⟩, hreturn, hmark, hread,
    parse_under_noise.2 _ 2 _ _ hreturn hmark hread hnoise⟩

end Yaml

end PackageAudit
