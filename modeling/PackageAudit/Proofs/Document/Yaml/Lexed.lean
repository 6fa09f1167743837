import PackageAudit.Proofs.Document.Yaml.Content
import PackageAudit.Proofs.Text.Lines

/-!
# Proofs.Document.Yaml.Lexed — what the lines of a text let through

The content of a line is cut off before it is split into keys and values. Whether a quote opens a
quoted text is decided both times, and both times alike.

* `Yaml.Lexed` — a text that is the content of a line;
* `Yaml.tokenOn_of_tokens` — every token of a text is found on its line;
* `Yaml.lexed_of_tokens` — the contents of all tokens of a text;
* `Yaml.Joined` — a text without a colon that would end a key;
* `Yaml.Clean` — a text without tabs and comments;
* `Yaml.clean_of_plain` — a text without quotes and such colons is clean;
* `Yaml.Closed` — a quoted text up to the quote that closes it;
* `Yaml.readContent_of_readQuotedFrom` — it ends where it ends for the line.
-/

namespace PackageAudit

namespace Yaml

variable {column opened : Nat} {front cs p q rest text : List Char} {c d : Char} {mode : Mode}

/-! ## Contents of lines -/

/-- A content is a part of its line, and reaches to its last character that is no blank. -/
structure PartOf (front cs text : List Char) : Prop where
  starts : ∃ tail, front.reverse ++ cs = text ++ tail
  reaches : (front.dropWhile (· == ' ')).length ≤ text.length

theorem partOf_trimmed (front cs : List Char) :
    PartOf front cs (front.dropWhile (· == ' ')).reverse where
  starts := by
    refine ⟨(front.takeWhile (· == ' ')).reverse ++ cs, ?_⟩
    rw [← List.append_assoc, ← List.reverse_append, List.takeWhile_append_dropWhile]
  reaches := Nat.le_of_eq List.length_reverse.symm

theorem PartOf.of_cons (h : PartOf (c :: front) cs text) : PartOf front (c :: cs) text where
  starts := by
    obtain ⟨tail, ht⟩ := h.starts
    exact ⟨tail, by rw [← ht, List.reverse_cons, List.append_assoc, List.singleton_append]⟩
  reaches := by
    refine Nat.le_trans ?_ h.reaches
    rw [List.dropWhile_cons]
    split
    · exact Nat.le_refl _
    · exact Nat.le_succ_of_le (List.dropWhile_sublist _).length_le

theorem partOf_of_readContent (h : readContent mode front column cs = .ok text) :
    PartOf front cs text := by
  -- On the characters of the line. What has been passed is only cut where it ends in blanks.
  fun_induction readContent mode front column cs with
  | case1 | case3 | case8 => cases h
  | case2 front =>
    cases h
    refine ⟨⟨[], by rw [List.reverse_cons, List.append_nil]⟩, ?_⟩
    rw [List.length_reverse]
    exact Nat.le_succ_of_le (List.dropWhile_sublist _).length_le
  | case4 front column opened d rest ih => exact (ih h).of_cons.of_cons
  | case5 front column opened c d rest hslash ih => exact (ih h).of_cons
  | case6 mode front column hmode =>
    cases h
    exact partOf_trimmed front []
  | case7 front column mode c rest =>
    cases h
    exact partOf_trimmed front (c :: rest)
  | case9 front column mode c rest _ _ hcomment htab next ih => exact (ih h).of_cons

/-- A line that begins with a content has one. -/
theorem ne_nil_of_readContent (h : readContent .ready [] column (c :: rest) = .ok text)
    (hspace : c ≠ ' ') (hhash : c ≠ '#') : text ≠ [] := by
  have hpart {mode : Mode} (h : readContent mode [c] (column + 1) rest = .ok text) : text ≠ [] := by
    have hreaches := (partOf_of_readContent h).reaches
    rw [dropWhile_blank hspace] at hreaches
    exact List.ne_nil_of_length_pos hreaches
  rw [readContent.eq_def] at h
  dsimp only at h
  rw [if_neg fun h => hhash h.1] at h
  split at h
  · cases h
  · exact hpart h

/-- What stands at the first character of a line that is no blank. -/
def Begins (cs : List Char) : Prop :=
  ∃ c rest, cs = c :: rest ∧ c ≠ ' ' ∧ c ≠ '#'

/-- The content of a line from such a character on. -/
def Lexed (text : List Char) : Prop :=
  ∃ column cs, readContent .ready [] column cs = .ok text ∧ '\n' ∉ cs ∧ Begins cs

section Tokens

variable {line : Nat} {found ts : List Token} {l : List Char} {ls : List (List Char)}

/-- A token of a line, which has its dash or its content from the column of the token on. -/
inductive TokenOn (l : List Char) : Token → Prop where
  | dash {line column : Nat} {rest : List Char} (h : l.drop column = '-' :: rest) :
      TokenOn l ⟨.dash, line, column⟩
  | content {line column : Nat} {text : List Char} (hfirst : Begins (l.drop column))
      (h : readContent .ready [] column (l.drop column) = .ok text) :
      TokenOn l ⟨.content text, line, column⟩

/-- What is left where something is dropped does not begin with it. -/
theorem of_dropWhile {p : Char → Bool} (h : cs.dropWhile p = c :: rest) : p c = false := by
  have hhead := List.head?_dropWhile_not p cs
  rwa [h] at hhead

theorem tokenOn_of_content (hcs : l.drop column = cs) (hfirst : Begins cs)
    (h : ((readContent .ready [] column cs).map fun text =>
      ⟨.content text, line, column⟩ :: found) = .ok ts) :
    ∀ t ∈ ts, t ∈ found ∨ TokenOn l t ∧ t.line = line := by
  obtain ⟨text, hread, rfl⟩ := of_map h
  subst hcs
  exact List.forall_mem_cons.2 ⟨.inr ⟨.content hfirst hread, rfl⟩, fun t ht => .inl ht⟩

theorem tokenOn_of_readLine (hcs : l.drop column = cs) (hfirst : Begins cs)
    (h : readLine line found column cs = .ok ts) :
    ∀ t ∈ ts, t ∈ found ∨ TokenOn l t ∧ t.line = line := by
  -- On the dashes of the line.
  fun_induction readLine line found column cs with
  | case1 found column rest hapart | case2 found column rest hapart =>
    rw [← Except.ok.inj h]
    exact List.forall_mem_cons.2 ⟨.inr ⟨.dash hcs, rfl⟩, fun t ht => .inl ht⟩
  | case3 => cases h
  | case4 found column rest hapart found' hle next column' c hhash htab hhead ih =>
    obtain ⟨more, hnext⟩ := List.head?_eq_some_iff.1 hhead
    have hspace : c ≠ ' ' := beq_eq_false_iff_ne.1 (of_dropWhile (p := (· == ' ')) hnext)
    have hplace : l.drop column' = next := by
      have hrest : l.drop (column + 1) = rest := by rw [← List.drop_drop, hcs]; rfl
      rw [← List.drop_drop, hrest]
      exact (List.suffix_iff_eq_drop.1 (List.dropWhile_suffix _)).symm
    intro t ht
    rcases ih hplace ⟨c, more, hnext, hspace, hhash⟩ h t ht with hfound | hnew
    · rcases List.mem_cons.1 hfound with rfl | hfound
      · exact .inr ⟨.dash hcs, rfl⟩
      · exact .inl hfound
    · exact .inr hnew
  | case5 found column rest hapart => exact tokenOn_of_content hcs hfirst h
  | case6 found column cs => exact tokenOn_of_content hcs hfirst h

theorem drop_takeWhile (p : Char → Bool) (cs : List Char) :
    cs.drop (cs.takeWhile p).length = cs.dropWhile p := by
  have h : (cs.takeWhile p ++ cs.dropWhile p).drop (cs.takeWhile p).length = cs.dropWhile p :=
    List.drop_left
  rwa [List.takeWhile_append_dropWhile] at h

/-- The tokens of a line are found there. -/
theorem tokenOn_of_lineTokens (h : lineTokens line found l = .ok ts) :
    ∀ t ∈ ts, t ∈ found ∨ TokenOn l t ∧ t.line = line := by
  unfold lineTokens at h
  dsimp only at h
  split at h
  · cases h
    exact fun t ht => .inl ht
  · cases h
    exact fun t ht => .inl ht
  next first hhash hhead =>
  obtain ⟨more, hbody⟩ := List.head?_eq_some_iff.1 hhead
  have hblank := of_dropWhile (drop_takeWhile _ l ▸ hbody)
  split at h
  · cases h
  split at h
  · cases h
  split at h
  · cases h
  split at h
  · next found' hline =>
    cases h
    have hspace : first ≠ ' ' := beq_eq_false_iff_ne.1 (Bool.or_eq_false_iff.1 hblank).1
    exact tokenOn_of_readLine rfl ⟨first, more, hbody, hspace, hhash⟩ hline
  · cases h

theorem tokenOn_of_tokensFrom (h : tokensFrom line found ls = .ok ts) :
    ∀ t ∈ ts, t ∈ found ∨ ∃ i l, ls[i]? = some l ∧ TokenOn l t ∧ t.line = line + i := by
  fun_induction tokensFrom line found ls with
  | case1 =>
    cases h
    exact fun t ht => .inl ht
  | case2 line found l rest found' hline ih =>
    intro t ht
    rcases ih h t ht with hfound | ⟨i, l', hl, hon, hplace⟩
    · exact (tokenOn_of_lineTokens hline t hfound).imp_right fun hnew => ⟨0, l, rfl, hnew⟩
    · exact .inr ⟨i + 1, l', hl, hon, by omega⟩
  | case3 => cases h

/-- Every token of a text is found on its line. -/
theorem tokenOn_of_tokens (h : tokens cs = .ok ts) :
    ∀ t ∈ ts, ∃ l, (lines cs)[t.line]? = some l ∧ TokenOn l t := by
  obtain ⟨found, hfound, rfl⟩ := of_map h
  intro t ht
  rcases tokenOn_of_tokensFrom hfound t (List.mem_reverse.1 ht) with hnil | ⟨i, l, hl, hon, hplace⟩
  · cases hnil
  · rw [hplace, Nat.zero_add]
    exact ⟨l, hl, hon⟩

/-- No line holds the mark that ends it. -/
theorem not_mem_of_mem_lines (h : l ∈ lines cs) : '\n' ∉ l := by
  obtain ⟨l, hl, rfl⟩ := List.mem_map.1 h
  split
  · exact fun hmem => not_mem_splitOn '\n' cs l hl (List.mem_of_mem_dropLast hmem)
  · exact not_mem_splitOn '\n' cs l hl

/-- A dash, or a content of a line. -/
def LexedToken (t : Token) : Prop :=
  ∀ text, t.lexeme = .content text → Lexed text

theorem lexed_of_tokens (h : tokens cs = .ok ts) : ∀ t ∈ ts, LexedToken t := by
  intro t ht
  obtain ⟨l, hl, hon⟩ := tokenOn_of_tokens h t ht
  cases hon with
  | dash => exact nofun
  | content hfirst hread =>
    rintro _ ⟨⟩
    have hbreak := not_mem_of_mem_lines (List.mem_of_getElem? hl)
    exact ⟨_, _, hread, fun hmem => hbreak (List.mem_of_mem_drop hmem), hfirst⟩

end Tokens

/-! ## Plain texts on a line -/

/-- No colon of a text ends a key, in front of what follows. -/
def Joined (p q : List Char) : Prop :=
  ∀ u w, p = u ++ ':' :: w → (w ++ q).head?.all (· == ' ') = false

theorem joined_nil : Joined [] q := fun u w hp => by
  cases u <;> cases hp

theorem joined_cons_iff :
    Joined (c :: p) q ↔ (c = ':' → (p ++ q).head?.all (· == ' ') = false) ∧ Joined p q := by
  constructor
  · intro h
    exact ⟨fun hc => h [] p (hc ▸ rfl), fun u w hp => h (c :: u) w (congrArg (c :: ·) hp)⟩
  · rintro ⟨hc, h⟩ u w hp
    cases u with
    | nil =>
      obtain ⟨rfl, rfl⟩ := List.cons.inj hp
      exact hc rfl
    | cons d u => exact h u w (List.cons.inj hp).2

/-- No colon ends a text at its end, so it does not matter what follows. -/
theorem Joined.append (h : Joined p []) (q : List Char) : Joined p q := by
  intro u w hp
  have hw := h u w hp
  rw [List.append_nil] at hw
  cases w with
  | nil => cases hw
  | cons d w => exact hw

theorem joined_of_splitColonFrom (h : splitColonFrom front cs = none) : Joined cs [] := by
  induction cs generalizing front with
  | nil => exact joined_nil
  | cons c cs ih =>
    rw [splitColonFrom] at h
    split at h
    · cases h
    · next hc =>
      rw [joined_cons_iff, List.append_nil]
      exact ⟨fun hcolon => eq_false_of_ne_true fun hrest => hc ⟨hcolon, hrest⟩, ih h⟩

/-- The first colon that ends a key, and what stands in front of it. -/
theorem of_splitColonFrom {before : List Char}
    (h : splitColonFrom front cs = some (before, rest)) :
    ∃ key, before = front.reverse ++ key ∧ cs = key ++ ':' :: rest ∧
      rest.head?.all (· == ' ') = true ∧ Joined key (':' :: rest) := by
  induction cs generalizing front with
  | nil => cases h
  | cons c cs ih =>
    rw [splitColonFrom] at h
    split at h
    · next hc =>
      obtain ⟨rfl, hrest⟩ := hc
      cases h
      exact ⟨[], (List.append_nil _).symm, rfl, hrest, joined_nil⟩
    · next hc =>
      obtain ⟨key, rfl, rfl, hrest, hjoined⟩ := ih h
      refine ⟨c :: key, ?_, rfl, hrest, joined_cons_iff.2 ⟨fun hcolon => ?_, hjoined⟩⟩
      · rw [List.reverse_cons, List.append_assoc, List.singleton_append]
      · exact eq_false_of_ne_true fun hhead => hc ⟨hcolon, hhead⟩

/-- No comment begins between two characters. -/
def NoComment (c d : Char) : Prop :=
  ¬ (c = ' ' ∧ d = '#')

/-- A text without tabs and comments behind what is in front of it. -/
structure Clean (front p : List Char) : Prop where
  noTab : '\t' ∉ p
  noComment : (front.head?.toList ++ p).IsChain NoComment

theorem clean_nil : Clean front [] where
  noTab := List.not_mem_nil
  noComment := by
    cases front with
    | nil => exact .nil
    | cons c front => exact .singleton c

theorem Clean.cons (htab : c ≠ '\t') (hcomment : ∀ d, front.head? = some d → NoComment d c)
    (h : Clean (c :: front) p) : Clean front (c :: p) where
  noTab := List.not_mem_cons_of_ne_of_not_mem htab.symm h.noTab
  noComment := by
    cases front with
    | nil => exact h.noComment
    | cons d front => exact .cons_cons (hcomment d rfl) h.noComment

/-- One character of a plain text. -/
theorem of_readContent_plain (hmode : mode = .plain ∨ mode = .ready ∧ c ≠ '"' ∧ c ≠ ' ')
    (hread : readContent mode front column (c :: rest) = .ok text)
    (hlength : front.length < text.length)
    (hcolon : c = ':' → rest.head?.all (· == ' ') = false) :
    c ≠ '\t' ∧ (∀ d, front.head? = some d → NoComment d c) ∧
      readContent .plain (c :: front) (column + 1) rest = .ok text := by
  have hquoted : ∀ opened, mode ≠ .quoted opened := by
    rcases hmode with rfl | ⟨rfl, -⟩
    · exact not_quoted_of_plain
    · exact not_quoted_of_ready
  rw [readContent.eq_def] at hread
  split at hread
  · exact absurd rfl (hquoted _)
  · exact absurd rfl (hquoted _)
  · exact absurd rfl (hquoted _)
  · next h => cases h
  next c' rest' _ _ hcs =>
  cases hcs
  split at hread
  · -- Behind a comment the text would end.
    cases hread
    rw [List.length_reverse] at hlength
    exact absurd hlength (Nat.not_lt.2 (List.dropWhile_sublist _).length_le)
  next hcomment =>
  split at hread
  · cases hread
  next htab =>
  refine ⟨htab, ?_, ?_⟩
  · rintro d hd ⟨rfl, rfl⟩
    exact hcomment ⟨rfl, hd⟩
  dsimp only at hread
  split at hread
  · rcases hmode with hmode | ⟨-, hquote, -⟩
    · cases hmode
    · exact absurd rfl hquote
  · rwa [if_neg (Bool.eq_false_iff.1 (hcolon rfl))] at hread
  · rcases hmode with rfl | ⟨-, -, hspace⟩
    · exact hread
    · exact absurd rfl hspace
  · exact hread

/-- A plain text is passed up to its end. -/
theorem clean_of_plain (hjoined : Joined p q)
    (hread : readContent .plain front column (p ++ q) = .ok text)
    (hlength : front.length + p.length ≤ text.length) :
    Clean front p ∧ ∃ column', readContent .plain (p.reverse ++ front) column' q = .ok text := by
  induction p generalizing front column with
  | nil => exact ⟨clean_nil, column, hread⟩
  | cons c p ih =>
    obtain ⟨hcolon, hjoined⟩ := joined_cons_iff.1 hjoined
    rw [List.length_cons] at hlength
    obtain ⟨htab, hcomment, hread⟩ := of_readContent_plain (.inl rfl) hread (by omega) hcolon
    obtain ⟨hclean, column', hread⟩ := ih hjoined hread (by rw [List.length_cons]; omega)
    refine ⟨hclean.cons htab hcomment, column', ?_⟩
    rwa [List.reverse_cons, List.append_assoc, List.singleton_append]

/-- Where a scalar may start, a text that begins without a quote is plain. -/
theorem clean_of_ready (hc : c ≠ '"' ∧ c ≠ ' ') (hjoined : Joined (c :: p) q)
    (hread : readContent .ready front column (c :: p ++ q) = .ok text)
    (hlength : front.length + (c :: p).length ≤ text.length) :
    Clean front (c :: p) ∧
      ∃ column', readContent .plain ((c :: p).reverse ++ front) column' q = .ok text := by
  obtain ⟨hcolon, hjoined⟩ := joined_cons_iff.1 hjoined
  rw [List.length_cons] at hlength
  obtain ⟨htab, hcomment, hread⟩ :=
    of_readContent_plain (.inr ⟨rfl, hc⟩) hread (by omega) hcolon
  obtain ⟨hclean, column', hread⟩ :=
    clean_of_plain hjoined hread (by rw [List.length_cons]; omega)
  refine ⟨hclean.cons htab hcomment, column', ?_⟩
  rwa [List.reverse_cons, List.append_assoc, List.singleton_append]

/-! ## Quoted texts on a line -/

/-- No digit could be taken for the end of a text. -/
theorem ne_of_digitsValue? {ds : List Char} {n : Nat}
    (h : digitsValue? 16 ds = some n) : ∀ d ∈ ds, d ≠ '"' ∧ d ≠ '\\' := by
  unfold digitsValue? at h
  generalize 0 = start at h
  induction ds generalizing start with
  | nil => exact List.forall_mem_nil _
  | cons d ds ih =>
    rw [List.foldlM_cons] at h
    obtain ⟨m, hm, h⟩ := Option.bind_eq_some_iff.1 h
    refine List.forall_mem_cons.2 ⟨⟨?_, ?_⟩, ih m h⟩
    all_goals
      rintro rfl
      cases hm

theorem ne_of_numbered? {width : Nat} {ds : List Char} (h : numbered? width ds = some c) :
    ∀ d ∈ ds, d ≠ '"' ∧ d ≠ '\\' := by
  unfold numbered? at h
  split at h
  · cases h
  · obtain ⟨n, hn, -⟩ := Option.bind_eq_some_iff.1 h
    exact ne_of_digitsValue? hn

/--
A quoted text from behind its opening quote up to the quote that closes it. A backslash takes the
character behind it along.
-/
inductive Closed : List Char → Prop where
  | quote : Closed ['"']
  | escaped {c : Char} {cs : List Char} (h : Closed cs) : Closed ('\\' :: c :: cs)
  | inside {c : Char} {cs : List Char} (hquote : c ≠ '"') (hslash : c ≠ '\\') (h : Closed cs) :
      Closed (c :: cs)

theorem Closed.ne_nil (h : Closed p) : p ≠ [] := by
  cases h <;> exact List.cons_ne_nil _ _

theorem Closed.last (h : Closed p) : ∃ init, p = init ++ ['"'] := by
  induction h with
  | quote => exact ⟨[], rfl⟩
  | @escaped c cs h ih =>
    obtain ⟨init, rfl⟩ := ih
    exact ⟨'\\' :: c :: init, rfl⟩
  | @inside c cs hquote hslash h ih =>
    obtain ⟨init, rfl⟩ := ih
    exact ⟨c :: init, rfl⟩

theorem Closed.insideAll {ds : List Char} (h : Closed p) (hds : ∀ d ∈ ds, d ≠ '"' ∧ d ≠ '\\') :
    Closed (ds ++ p) := by
  induction ds with
  | nil => exact h
  | cons d ds ih =>
    rw [List.forall_mem_cons] at hds
    exact .inside hds.1.1 hds.1.2 (ih hds.2)

/-- A quoted text is closed once. -/
theorem Closed.eq_of_append (hp : Closed p) (hq : Closed q) {u w : List Char}
    (h : p ++ u = q ++ w) : p = q := by
  induction hp generalizing q with
  | quote =>
    cases hq with
    | quote => rfl
    | escaped => exact absurd (List.cons.inj h).1 (by decide)
    | inside hquote => exact absurd (List.cons.inj h).1.symm hquote
  | escaped _ ih =>
    cases hq with
    | quote => exact absurd (List.cons.inj h).1 (by decide)
    | escaped hq =>
      obtain ⟨rfl, hrest⟩ := List.cons.inj (List.cons.inj h).2
      rw [ih hq hrest]
    | inside _ hslash => exact absurd (List.cons.inj h).1.symm hslash
  | inside hquote hslash _ ih =>
    cases hq with
    | quote => exact absurd (List.cons.inj h).1 hquote
    | escaped => exact absurd (List.cons.inj h).1 hslash
    | inside _ _ hq =>
      obtain ⟨rfl, hrest⟩ := List.cons.inj h
      rw [ih hq hrest]

/-- The line ends a quoted text at its closing quote. -/
theorem Closed.readContent (h : Closed p) (opened : Nat) (front : List Char) (column : Nat)
    (rest : List Char) :
    ∃ column', readContent (.quoted opened) front column (p ++ rest) =
      Yaml.readContent .plain (p.reverse ++ front) column' rest := by
  induction h generalizing front column with
  | quote => exact ⟨column + 1, readContent_close⟩
  | @escaped c cs h ih =>
    obtain ⟨column', hpass⟩ := ih (c :: '\\' :: front) (column + 2)
    refine ⟨column', ?_⟩
    rw [List.cons_append, List.cons_append, readContent_escape, hpass]
    simp
  | @inside c cs hquote hslash h ih =>
    obtain ⟨d, cs, rfl⟩ := List.exists_cons_of_ne_nil h.ne_nil
    obtain ⟨column', hpass⟩ := ih (c :: front) (column + 1)
    refine ⟨column', ?_⟩
    rw [List.cons_append] at hpass
    rw [List.cons_append, List.cons_append, readContent_inside hquote hslash, hpass]
    simp

/-- The reader of quoted texts stops behind the closing quote. -/
theorem closed_of_readQuotedFrom {start : Nat} {quoted behind : List Char} {key : String}
    (h : readQuotedFrom start column front quoted = .ok (key, behind)) :
    ∃ inside, Closed inside ∧ quoted = inside ++ behind := by
  -- On the steps of the reader. The digits of a numbered escape are passed at once.
  fun_induction readQuotedFrom start column front quoted with
  | case1 | case5 | case6 => cases h
  | case2 column front rest =>
    cases h
    exact ⟨['"'], .quote, rfl⟩
  | case3 column front code rest c hc ih =>
    obtain ⟨inside, hclosed, rfl⟩ := ih h
    exact ⟨_, .escaped hclosed, rfl⟩
  | case4 column front code rest hcode width c hc ih =>
    obtain ⟨inside, hclosed, hinside⟩ := ih h
    refine ⟨'\\' :: code :: (rest.take width ++ inside),
      .escaped (hclosed.insideAll (ne_of_numbered? hc)), ?_⟩
    rw [List.cons_append, List.cons_append, List.append_assoc, ← hinside, List.take_append_drop]
  | case7 column front c rest hquote hslash hslash' ih =>
    obtain ⟨inside, hclosed, rfl⟩ := ih h
    have hescape : c ≠ '\\' := fun hc => by
      obtain ⟨d, more, rfl⟩ := List.exists_cons_of_ne_nil hclosed.ne_nil
      exact hslash d _ hc rfl
    exact ⟨_, .inside hquote hescape hclosed, rfl⟩

/-- The line ends a quoted text where its reader ends it. -/
theorem readContent_of_readQuotedFrom {start column : Nat} {front quoted behind : List Char}
    {key : String} (h : readQuotedFrom start column front quoted = .ok (key, behind)) :
    ∃ inside, quoted = inside ++ behind ∧ inside ≠ [] ∧ ∀ opened front column tail, ∃ column',
      readContent (.quoted opened) front column (quoted ++ tail) =
        readContent .plain (inside.reverse ++ front) column' (behind ++ tail) := by
  obtain ⟨inside, hclosed, rfl⟩ := closed_of_readQuotedFrom h
  refine ⟨inside, rfl, hclosed.ne_nil, fun opened front column tail => ?_⟩
  rw [List.append_assoc]
  exact hclosed.readContent opened front column (behind ++ tail)

end Yaml

end PackageAudit
