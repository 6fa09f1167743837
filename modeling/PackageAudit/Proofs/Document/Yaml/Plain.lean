import Mathlib
import PackageAudit.Proofs.Document.Yaml.Completeness
import PackageAudit.Proofs.Document.Yaml.Lexed

/-!
# Proofs.Document.Yaml.Plain — what stands in a text without quotes

YAML 1.2 lets a scalar stand without quotes only if nothing in it could be read as structure. The
reader decides that in several places: where it cuts lines, where it cuts off comments, where it
looks for the colon behind a key, and by the first character.

* `Yaml.PlainText` — plain scalars on one line of a block;
* `Yaml.Lexicon.written` — contents by their texts: quoted, empty brackets, or plain;
* `Yaml.Written` — all contents of a text are written so;
* `Yaml.written_of_read` — the contents of every text that is accepted. Two rules of YAML are
  missing: a plain scalar may begin with a percent sign, and may hold a carriage return.
-/

namespace PackageAudit

namespace Yaml

variable {column : Nat} {front cs after p q rest tail text : List Char} {c d : Char} {v : Value}

/-! ## Plain scalars -/

/-- The characters that have a meaning at the beginning of a scalar. -/
def indicators : List Char :=
  ['-', '?', ':', ',', '[', ']', '\x7b', '\x7d', '#', '&', '*', '!', '|', '>', '\'', '"', '%', '@',
    '\x60']

/--
A plain scalar on one line of a block, in front of `after`: it begins with no indicator, but for
three that may be followed by anything but a blank, and holds no line break, tab, comment, or colon
that ends a key.
-/
structure PlainText (indicators breaks cs after : List Char) : Prop where
  first : ∃ c rest, cs = c :: rest ∧ (c ∈ indicators →
    c ∈ ['-', '?', ':'] ∧ ∃ d, (rest ++ after).head? = some d ∧ d ≠ ' ')
  noBreak : ∀ d ∈ breaks, d ∉ cs
  noTab : '\t' ∉ cs
  noColon : ¬ [':', ' '] <:+: cs
  noComment : ¬ [' ', '#'] <:+: cs

/-! ## Contents by their texts -/

section Written

variable (plain : List Char → List Char → Prop)

/-- The text of a scalar. -/
inductive ScalarText : List Char → Value → Prop where
  | quoted {column : Nat} {inside : List Char} {s : String}
      (h : readQuoted column inside = .ok (s, [])) : ScalarText ('"' :: inside) (.string s)
  | emptySequence (n : Nat) : ScalarText ('[' :: (List.replicate n ' ' ++ [']'])) (.array [])
  | emptyMapping (n : Nat) :
      ScalarText ('\x7b' :: (List.replicate n ' ' ++ ['\x7d'])) (.object [] [])
  | plain {cs : List Char} {v : Value} (h : plain cs []) (hv : plainValue cs = .ok v) :
      ScalarText cs v

/-- The text of a key in front of `after`. -/
inductive KeyText (after : List Char) : List Char → String → Prop where
  | quoted {column : Nat} {inside : List Char} {k : String}
      (h : readQuoted column (inside ++ after) = .ok (k, after)) : KeyText after ('"' :: inside) k
  | plain {cs : List Char} (h : plain cs after) : KeyText after cs (.ofList cs)

/-- What stands behind the colon of an entry. -/
inductive ValueText : List Char → Option Value → Prop where
  | nothing (n : Nat) : ValueText (List.replicate n ' ') none
  | scalar (n : Nat) {cs : List Char} {v : Value} (h : ScalarText plain cs v) :
      ValueText (List.replicate (n + 1) ' ' ++ cs) (some v)

/-- An entry of a mapping, blanks allowed in front of its colon. -/
inductive EntryText : List Char → String → Option Value → Prop where
  | mk {cs rest : List Char} {k : String} {v : Option Value} (n : Nat)
      (hkey : KeyText plain (List.replicate n ' ' ++ ':' :: rest) cs k)
      (hvalue : ValueText plain rest v) :
      EntryText (cs ++ (List.replicate n ' ' ++ ':' :: rest)) k v

/-- Contents by their texts, those without quotes being plain. -/
def Lexicon.written : Lexicon where
  scalar t v := ∃ text, t.lexeme = .content text ∧ ScalarText plain text v
  entry t k v := ∃ text, t.lexeme = .content text ∧ EntryText plain text k v

/-- The tokens of a byte string spell a tree in contents that are written so. -/
def Written (s : Bytes) (v : Value) : Prop :=
  ∃ ts, tokens (dropMark (Utf8.decodeLossy s)) = .ok ts ∧
    ((ts = [] ∧ v = .null) ∨ ∃ c, Spelled (.written plain) c (.node v) ts)

end Written

/-! ## Plain texts -/

theorem exists_head_of_all (h : rest.head?.all (· == ' ') = false) :
    ∃ d, rest.head? = some d ∧ d ≠ ' ' := by
  cases rest with
  | nil => cases h
  | cons d rest => exact ⟨d, rfl, beq_eq_false_iff_ne.1 h⟩

/-- The first character decides that a text begins plainly, unless it is a percent sign. -/
theorem first_of_indicatorFault? (hfault : indicatorFault? (c :: rest) = none)
    (hc : c ≠ '"' ∧ c ≠ '#') (hcolon : c = ':' → rest.head?.all (· == ' ') = false) :
    c ∈ indicators.erase '%' → c ∈ ['-', '?', ':'] ∧ ∃ d, rest.head? = some d ∧ d ≠ ' ' := by
  have hsoft {fault : YamlFault}
      (h : (if rest.head?.all (· == ' ') then some fault else none) = none) :
      ∃ d, rest.head? = some d ∧ d ≠ ' ' := by
    refine exists_head_of_all (eq_false_of_ne_true fun hapart => ?_)
    rw [if_pos hapart] at h
    cases h
  have hindicators : indicators.erase '%' =
      ['-', '?', ':', ',', '[', ']', '\x7b', '\x7d', '#', '&', '*', '!', '|', '>', '\'', '"', '@',
        '\x60'] := by decide
  intro hmem
  rw [hindicators] at hmem
  simp only [List.mem_cons, List.not_mem_nil, or_false] at hmem
  rcases hmem with rfl | rfl | rfl | hmem
  · exact ⟨by decide, hsoft hfault⟩
  · exact ⟨by decide, hsoft hfault⟩
  · exact ⟨by decide, exists_head_of_all (hcolon rfl)⟩
  · -- Every other one is a fault, or begins a quoted text or a comment.
    rcases hmem with
        rfl | rfl | rfl | rfl | rfl | rfl | rfl | rfl | rfl | rfl | rfl | rfl | rfl | rfl | rfl
    all_goals first | exact absurd rfl hc.1 | exact absurd rfl hc.2 | cases hfault

theorem Joined.noColon (h : Joined p q) : ¬ [':', ' '] <:+: p := by
  rintro ⟨u, w, rfl⟩
  have hcolon := h u (' ' :: w) (by simp)
  cases hcolon

theorem Clean.noComment_infix (h : Clean front p) : ¬ [' ', '#'] <:+: p := by
  intro hinfix
  have hchain := h.noComment.right_of_append.infix hinfix
  exact (List.isChain_cons_cons.1 hchain).1 ⟨rfl, rfl⟩

theorem plainText_of_clean (hfault : indicatorFault? (c :: rest ++ after) = none)
    (hc : c ≠ '"' ∧ c ≠ '#') (hjoined : Joined (c :: rest) after) (hbreak : '\n' ∉ c :: rest)
    (hclean : Clean front (c :: rest)) :
    PlainText (indicators.erase '%') ['\n'] (c :: rest) after where
  first := ⟨c, rest, rfl, first_of_indicatorFault? hfault hc (joined_cons_iff.1 hjoined).1⟩
  noBreak := List.forall_mem_singleton.2 hbreak
  noTab := hclean.noTab
  noColon := hjoined.noColon
  noComment := hclean.noComment_infix

theorem Joined.left (h : Joined (p ++ q) rest) : Joined p (q ++ rest) := fun u w hp => by
  have hcolon := h u (w ++ q) (by rw [hp, List.append_assoc, List.cons_append])
  rwa [List.append_assoc] at hcolon

theorem Joined.congr (h : Joined p q) (hhead : q.head? = rest.head?) : Joined p rest :=
  fun u w hp => by
    have hcolon := h u w hp
    cases w with
    | nil => rwa [List.nil_append, hhead] at hcolon
    | cons d w => exact hcolon

theorem Clean.left (h : Clean front (p ++ q)) : Clean front p where
  noTab hmem := h.noTab (List.mem_append_left _ hmem)
  noComment := by
    have hchain := h.noComment
    rw [← List.append_assoc] at hchain
    exact hchain.left_of_append

/-! ## Contents of lines -/

/-- A content shows from its first character on, and the line is read up to its end. -/
theorem Lexed.exists_tail (h : Lexed text) :
    ∃ c rest column tail, text = c :: rest ∧ c ≠ ' ' ∧ c ≠ '#' ∧ '\n' ∉ text ∧
      readContent .ready [] column (text ++ tail) = .ok text := by
  obtain ⟨column, cs, hread, hbreak, c, more, rfl, hspace, hhash⟩ := h
  obtain ⟨tail, htail⟩ := (partOf_of_readContent hread).starts
  rw [List.reverse_nil, List.nil_append] at htail
  have hne : text ≠ [] := ne_nil_of_readContent hread hspace hhash
  obtain ⟨d, rest, rfl⟩ := List.exists_cons_of_ne_nil hne
  obtain ⟨rfl, -⟩ := List.cons.inj htail
  rw [htail] at hread hbreak
  have hbreak : '\n' ∉ c :: rest := fun h => hbreak (List.mem_append_left _ h)
  exact ⟨c, rest, column, tail, rfl, hspace, hhash, hbreak, hread⟩

theorem eq_of_isEmptyFlow {left right : Char} (h : isEmptyFlow left right cs = true) :
    ∃ n, cs = left :: (List.replicate n ' ' ++ [right]) := by
  unfold isEmptyFlow at h
  split at h
  · next c rest =>
    rw [Bool.and_eq_true, Bool.and_eq_true, beq_iff_eq, beq_iff_eq, List.all_eq_true] at h
    obtain ⟨⟨rfl, hlast⟩, hblank⟩ := h
    obtain ⟨init, rfl⟩ := List.getLast?_eq_some_iff.1 hlast
    rw [List.dropLast_concat] at hblank
    have hinit := List.eq_replicate_of_mem fun d hd => eq_of_beq (hblank d hd)
    exact ⟨init.length, by rw [← hinit]⟩
  · cases h

/-- The text of a scalar, if it is plain where it is neither quoted nor a pair of brackets. -/
theorem scalarText_of_scalar {plain : List Char → List Char → Prop} (h : scalar column cs = .ok v)
    (hplain : cs.head? ≠ some '"' → indicatorFault? cs = none → Joined cs [] → plain cs []) :
    ScalarText plain cs v := by
  unfold scalar at h
  split at h
  · next quoted =>
    split at h
    · cases h
    · next s hs =>
      cases h
      exact .quoted hs
    · cases h
  next hquote =>
  split at h
  · next hempty =>
    cases h
    obtain ⟨n, rfl⟩ := eq_of_isEmptyFlow hempty
    exact .emptySequence n
  split at h
  · next hempty =>
    cases h
    obtain ⟨n, rfl⟩ := eq_of_isEmptyFlow hempty
    exact .emptyMapping n
  split at h
  · cases h
  · cases h
  · next hfault hcolon =>
    cases hvalue : plainValue cs with
    | error e =>
      rw [hvalue] at h
      cases h
    | ok u =>
      rw [hvalue] at h
      cases h
      refine .plain (hplain (fun hhead => ?_) hfault (joined_of_splitColonFrom hcolon)) hvalue
      obtain ⟨rest, rfl⟩ := List.head?_eq_some_iff.1 hhead
      exact hquote rest rfl

/-- The content of a line that is no entry. -/
theorem Lexed.scalarText (h : Lexed text) (hscalar : scalar column text = .ok v) :
    ScalarText (PlainText (indicators.erase '%') ['\n']) text v := by
  obtain ⟨c, rest, start, tail, rfl, hspace, hhash, hbreak, hread⟩ := h.exists_tail
  refine scalarText_of_scalar hscalar fun hhead hfault hjoined => ?_
  have hquote : c ≠ '"' := fun hc => hhead (congrArg some hc)
  obtain ⟨hclean, -⟩ :=
    clean_of_ready ⟨hquote, hspace⟩ (hjoined.append tail) hread (Nat.le_of_eq (Nat.zero_add _))
  refine plainText_of_clean ?_ ⟨hquote, hhash⟩ hjoined hbreak hclean
  rwa [List.append_nil]

/-! ## Entries -/

/-- A text of blanks, and what follows them. -/
theorem exists_blanks (cs : List Char) :
    ∃ n, cs = List.replicate n ' ' ++ cs.dropWhile (· == ' ') := by
  refine ⟨(cs.takeWhile (· == ' ')).length, ?_⟩
  have hblank : cs.takeWhile (· == ' ') = List.replicate (cs.takeWhile (· == ' ')).length ' ' :=
    List.eq_replicate_of_mem fun d hd => eq_of_beq (List.all_eq_true.1 List.all_takeWhile d hd)
  rw [← hblank, List.takeWhile_append_dropWhile]

/-- What is left of a text without the blanks at its end. -/
theorem exists_blanks_behind (cs : List Char) :
    ∃ n key, (cs.reverse.dropWhile (· == ' ')).reverse = key ∧
      cs = key ++ List.replicate n ' ' := by
  obtain ⟨n, h⟩ := exists_blanks cs.reverse
  refine ⟨n, _, rfl, ?_⟩
  rw [← List.reverse_replicate, ← List.reverse_append, ← h, List.reverse_reverse]

/-- What stands behind the colon of an entry, where the line is read up to its end. -/
theorem valueText_of_inline {place : Nat} {x : Option Value}
    (hread : readContent .plain front column (':' :: (rest ++ tail)) = .ok text)
    (hlength : front.length + 1 + rest.length ≤ text.length) (hbreak : '\n' ∉ rest)
    (hrest : rest.head?.all (· == ' ') = true) (hvalue : Inline (entryValue? place rest) x) :
    ValueText (PlainText (indicators.erase '%') ['\n']) rest x := by
  obtain ⟨n, hblanks⟩ := exists_blanks rest
  unfold entryValue? at hvalue
  dsimp only at hvalue
  cases hdrop : rest.dropWhile (· == ' ') with
  | nil =>
    rw [hdrop] at hvalue hblanks
    cases hvalue
    rw [hblanks, List.append_nil]
    exact .nothing n
  | cons c more =>
    have hspace : c ≠ ' ' := beq_eq_false_iff_ne.1 (of_dropWhile (p := (· == ' ')) hdrop)
    rw [hdrop] at hvalue hblanks
    cases n with
    | zero =>
      rw [hblanks] at hrest
      exact absurd (eq_of_beq hrest) hspace
    | succ n =>
      rw [hblanks] at hread hlength hbreak ⊢
      cases hvalue with
      | scalar hv =>
      refine .scalar n (scalarText_of_scalar hv fun hhead hfault hjoined => ?_)
      have hquote : c ≠ '"' := fun hc => hhead (congrArg some hc)
      rw [readContent_colon (by rfl), List.append_assoc] at hread
      obtain ⟨column', hskip⟩ :=
        readContent_blanks (column + 1) (n + 1) (':' :: front) (c :: more ++ tail)
      rw [hskip] at hread
      obtain ⟨hclean, -⟩ := clean_of_ready ⟨hquote, hspace⟩ (hjoined.append tail) hread (by
        simp only [List.length_append, List.length_replicate, List.length_cons] at hlength ⊢
        omega)
      -- Behind a blank a comment would begin.
      have hhash : c ≠ '#' := fun hc =>
        (List.isChain_cons_cons.1 hclean.noComment).1 ⟨rfl, hc⟩
      refine plainText_of_clean ?_ ⟨hquote, hhash⟩ hjoined
        (fun hmem => hbreak (List.mem_append_right _ hmem)) hclean
      rwa [List.append_nil]

theorem of_quotedEntry? {entry : Entry} {quoted : List Char}
    (h : quotedEntry? column cs quoted = .ok (some entry)) :
    ∃ n rest place, readQuoted column quoted =
        .ok (entry.key, List.replicate n ' ' ++ ':' :: rest) ∧
      rest.head?.all (· == ' ') = true ∧ entry.value = entryValue? place rest := by
  obtain ⟨⟨key, behind⟩, hquoted, h⟩ := of_bind h
  obtain ⟨n, hbehind⟩ := exists_blanks behind
  dsimp only at h
  split at h
  · next rest hcolon =>
    split at h
    · next hrest =>
      cases h
      rw [hcolon] at hbehind
      exact ⟨n, rest, _, hbehind ▸ hquoted, hrest, rfl⟩
    · cases h
  · cases h

theorem joined_blanks (n : Nat) (q : List Char) : Joined (List.replicate n ' ') q := by
  induction n with
  | zero => exact joined_nil
  | succ n ih => exact joined_cons_iff.2 ⟨fun h => absurd h (by decide), ih⟩

/-- An entry with its key in quotes. -/
theorem Lexed.quotedEntryText {entry : Entry} {x : Option Value} {quoted : List Char}
    (h : Lexed ('"' :: quoted)) (hentry : quotedEntry? column cs quoted = .ok (some entry))
    (hvalue : Inline entry.value x) :
    EntryText (PlainText (indicators.erase '%') ['\n']) ('"' :: quoted) entry.key x := by
  obtain ⟨c, more, start, tail, heq, -, -, hbreak, hread⟩ := h.exists_tail
  obtain ⟨n, rest, place, hquoted, hrest, hplace⟩ := of_quotedEntry? hentry
  obtain ⟨inside, rfl, -, hpass⟩ := readContent_of_readQuotedFrom hquoted
  obtain ⟨column₁, hpass⟩ := hpass start ['"'] (start + 1) tail
  rw [List.cons_append, readContent_open, hpass, List.append_assoc] at hread
  obtain ⟨-, column₂, hread⟩ := clean_of_plain (joined_blanks n _) hread (by simp; omega)
  refine .mk n (.quoted hquoted) (valueText_of_inline hread (by simp; omega) ?_ hrest
    (hplace ▸ hvalue))
  exact fun hmem => hbreak (by simp [hmem])

/-- An entry with a plain key in front of `n` blanks and the colon. -/
theorem Lexed.plainEntryText {key : List Char} {n place : Nat} {x : Option Value}
    (h : Lexed (key ++ (List.replicate n ' ' ++ ':' :: rest)))
    (hquote : key.head? ≠ some '"') (hne : key ≠ [])
    (hfault : indicatorFault? (key ++ (List.replicate n ' ' ++ ':' :: rest)) = none)
    (hjoined : Joined (key ++ List.replicate n ' ') (':' :: rest))
    (hrest : rest.head?.all (· == ' ') = true) (hvalue : Inline (entryValue? place rest) x) :
    EntryText (PlainText (indicators.erase '%') ['\n'])
      (key ++ (List.replicate n ' ' ++ ':' :: rest)) (.ofList key) x := by
  obtain ⟨c, key, rfl⟩ := List.exists_cons_of_ne_nil hne
  obtain ⟨d, more, start, tail, heq, hspace, hhash, hbreak, hread⟩ := h.exists_tail
  obtain ⟨rfl, -⟩ := List.cons.inj heq
  have hquote : c ≠ '"' := fun hc => hquote (congrArg some hc)
  -- The line passes the key with its blanks, and stands at the colon.
  have hline : c :: key ++ (List.replicate n ' ' ++ ':' :: rest) ++ tail =
      c :: (key ++ List.replicate n ' ') ++ ':' :: (rest ++ tail) := by simp
  rw [hline] at hread
  have hcolon : Joined (c :: (key ++ List.replicate n ' ')) (':' :: (rest ++ tail)) :=
    hjoined.congr rfl
  obtain ⟨hclean, column', hread⟩ :=
    clean_of_ready ⟨hquote, hspace⟩ hcolon hread (by simp)
  refine .mk n (.plain ?_) (valueText_of_inline hread (by simp; omega) ?_ hrest hvalue)
  · exact plainText_of_clean hfault ⟨hquote, hhash⟩ hjoined.left
      (fun hmem => hbreak (List.mem_append_left _ hmem)) hclean.left
  · exact fun hmem => hbreak (by simp [hmem])

theorem of_splitEntry {entry : Entry} (h : splitEntry column text = .ok (some entry)) :
    (∃ quoted, text = '"' :: quoted ∧ quotedEntry? column text quoted = .ok (some entry)) ∨
      ∃ key n rest place, text = key ++ (List.replicate n ' ' ++ ':' :: rest) ∧
        key.head? ≠ some '"' ∧ key ≠ [] ∧ indicatorFault? text = none ∧
        Joined (key ++ List.replicate n ' ') (':' :: rest) ∧ rest.head?.all (· == ' ') = true ∧
        entry = ⟨.ofList key, entryValue? place rest⟩ := by
  unfold splitEntry at h
  split at h
  · next quoted => exact .inl ⟨quoted, rfl, h⟩
  next hquote =>
  split at h
  · cases h
  split at h
  · cases h
  next before rest hcolon =>
  obtain ⟨before', hbefore, rfl, hrest, hjoined⟩ := of_splitColonFrom hcolon
  obtain rfl : before = before' := hbefore
  obtain ⟨n, key, hkey, rfl⟩ := exists_blanks_behind before
  dsimp only at h
  rw [hkey] at h
  split at h
  · cases h
  next hne =>
  split at h
  · cases h
  next hfault =>
  cases h
  have hne : key ≠ [] := fun hnil => hne (hnil ▸ rfl)
  refine .inr ⟨key, n, rest, _, List.append_assoc _ _ _, fun hhead => ?_, hne, hfault, hjoined,
    hrest, rfl⟩
  obtain ⟨more, rfl⟩ := List.head?_eq_some_iff.1 hhead
  exact hquote _ rfl

theorem Lexed.entryText {entry : Entry} {x : Option Value} (h : Lexed text)
    (hentry : splitEntry column text = .ok (some entry)) (hvalue : Inline entry.value x) :
    EntryText (PlainText (indicators.erase '%') ['\n']) text entry.key x := by
  rcases of_splitEntry hentry with
    ⟨quoted, rfl, hquoted⟩ | ⟨key, n, rest, place, rfl, hquote, hne, hfault, hjoined, hrest, rfl⟩
  · exact h.quotedEntryText hquoted hvalue
  · exact h.plainEntryText hquote hne hfault hjoined hrest hvalue

/-! ## Texts -/

/--
Whatever is accepted, broken characters allowed or not, holds nothing without quotes but plain
scalars of YAML 1.2, with two exceptions: a percent sign may stand at the beginning, and a carriage
return anywhere.
-/
theorem written_of_read {lossy : Bool} {s : Bytes} {d : Document} (h : read lossy s = .ok d) :
    Written (PlainText (indicators.erase '%') ['\n']) s d.root := by
  obtain ⟨ts, htokens, hspelled⟩ := readText_iff.1 (readText_of_read h)
  have hlexed := lexed_of_tokens htokens
  refine ⟨ts, htokens, hspelled.imp_right fun ⟨c, hspelled, _⟩ => ⟨c, hspelled.mono ?_ ?_⟩⟩
  · rintro t ht v ⟨text, hlexeme, -, hscalar⟩
    exact ⟨text, hlexeme, (hlexed t ht text hlexeme).scalarText hscalar⟩
  · rintro t ht k x ⟨text, entry, hlexeme, hentry, rfl, hvalue⟩
    exact ⟨text, hlexeme, (hlexed t ht text hlexeme).entryText hentry hvalue⟩

/-- A colon within a word, a comment, and a percent sign at the beginning. -/
theorem written_of_read_comment :
    read false (textBytes "- a: x:y #\n- %") =
        .ok ⟨.array [.object [("a", .string "x:y")] [], .string "%"]⟩ ∧
      Written (PlainText (indicators.erase '%') ['\n']) (textBytes "- a: x:y #\n- %")
        (.array [.object [("a", .string "x:y")] [], .string "%"]) := by
  have hread : read false (textBytes "- a: x:y #\n- %") =
      .ok ⟨.array [.object [("a", .string "x:y")] [], .string "%"]⟩ := by cbv
  exact ⟨hread, written_of_read hread⟩

/-- A text that is one word without quotes is plain. -/
theorem plain_of_written {plain : List Char → List Char → Prop} {s : Bytes} {k : String}
    {line : Nat} (h : Written plain s (.string k)) (hquote : c ≠ '"')
    (htokens : tokens (dropMark (Utf8.decodeLossy s)) =
      .ok [⟨.content (c :: rest), line, column⟩]) :
    plain (c :: rest) [] := by
  obtain ⟨ts, hts, ⟨rfl, -⟩ | ⟨d, hspelled⟩⟩ := h
  · cases hts.symm.trans htokens
  cases hts.symm.trans htokens
  cases hspelled with
  | scalar hscalar =>
    obtain ⟨text, hlexeme, htext⟩ := hscalar
    cases hlexeme
    cases htext with
    | quoted => exact absurd rfl hquote
    | plain hplain => exact hplain

/-- A percent sign behind a blank and a carriage return within a line are accepted. -/
theorem percent_and_return_accepted :
    (parse (textBytes " %x\n") = .ok ⟨.string "%x"⟩ ∧
      ¬ Written (PlainText indicators ['\n', '\r']) (textBytes " %x\n") (.string "%x")) ∧
    (parse (textBytes "x\ry\n") = .ok ⟨.string "x\ry"⟩ ∧
      ¬ Written (PlainText indicators ['\n', '\r']) (textBytes "x\ry\n") (.string "x\ry")) := by
  refine ⟨⟨by cbv, fun h => ?_⟩, by cbv, fun h => ?_⟩
  · have htokens : tokens (dropMark (Utf8.decodeLossy (textBytes " %x\n"))) =
        .ok [⟨.content ['%', 'x'], 0, 1⟩] := by cbv
    obtain ⟨c, rest, hc, hfirst⟩ := (plain_of_written h (by decide) htokens).first
    cases hc
    exact absurd (hfirst (by decide)).1 (by decide)
  · have htokens : tokens (dropMark (Utf8.decodeLossy (textBytes "x\ry\n"))) =
        .ok [⟨.content ['x', '\r', 'y'], 0, 0⟩] := by cbv
    have hbreak := (plain_of_written h (by decide) htokens).noBreak '\r' (by decide)
    exact hbreak (by decide)

end Yaml

end PackageAudit
