import Mathlib.Data.List.Forall2
import PackageAudit.Proofs.Document.Yaml.Content
import PackageAudit.Proofs.Document.Yaml.Grammar
import PackageAudit.Proofs.Document.Yaml.Lexed

/-!
# Proofs.Document.Yaml.Margin — lines under another margin, with a comment behind them

Where a token stands matters only against other tokens. If all lines are moved by the same number
of spaces, and comments are written behind them, then their tokens stand for the same tree.

* `Yaml.Trailer` — what may be written behind a line;
* `Yaml.Moved` — a token that is moved with its line;
* `Yaml.readContent_moved`, `Yaml.readLine_moved` — the contents and the tokens of a line;
* `Yaml.Silent`, `Yaml.BeginsAt`, `Yaml.of_lineTokens` — a line shows nothing, or its contents
  begin behind its margin;
* `Yaml.lineTokens_moved` — the tokens of a line with its margin;
* `Yaml.splitEntry_moved`, `Yaml.scalar_moved` — a content means the same in another column;
* `Yaml.Spelled.moved` — moved tokens spell the same.
-/

namespace PackageAudit

namespace Yaml

variable {margin line column column' : Nat} {cs l w text : List Char} {c : Char}
  {mode mode' : Mode}

/-! ## Blanks and comments -/

/-- The blanks of a margin. -/
def isBlank (c : Char) : Bool :=
  c == ' ' || c == '\t'

theorem blank_of_mem_replicate (n : Nat) : ∀ c ∈ List.replicate n ' ', isBlank c = true :=
  fun c hc => by
    rw [List.eq_of_mem_replicate hc]
    rfl

theorem not_mem_of_blanks (h : ∀ c ∈ cs, isBlank c = true) (hc : isBlank c = false) : c ∉ cs :=
  fun hmem => Bool.false_ne_true (hc.symm.trans (h c hmem))

/-- What may stand behind a line: nothing, or a comment. -/
inductive Trailer : List Char → Prop where
  | nothing : Trailer []
  | comment {text : List Char} (h : '\n' ∉ text) : Trailer (' ' :: '#' :: text)

/-- The same token under the same or a greater margin, on whatever line. -/
structure Moved (margin : Nat) (t t' : Token) : Prop where
  lexeme : t'.lexeme = t.lexeme
  column : t'.column = t.column + margin

/-! ## Contents -/

/-- Modes up to the column where a quote opened. -/
inductive Mode.Alike : Mode → Mode → Prop where
  | ready : Alike .ready .ready
  | plain : Alike .plain .plain
  | quoted (c d : Nat) : Alike (.quoted c) (.quoted d)

/-- The mode behind a character that stands in no quotes. -/
def nextMode (mode : Mode) (column : Nat) (c : Char) (rest : List Char) : Mode :=
  match c, mode with
  | '"', .ready => .quoted column
  | ':', _ => if rest.head?.all (· == ' ') then .ready else .plain
  | ' ', mode => mode
  | _, _ => .plain

theorem readContent_next {front rest : List Char} (hmode : ∀ opened, mode ≠ .quoted opened)
    (hcomment : ¬ (c = '#' ∧ front.head? = some ' ')) (htab : c ≠ '\t') :
    readContent mode front column (c :: rest) =
      readContent (nextMode mode column c rest) (c :: front) (column + 1) rest := by
  rw [readContent.eq_def]
  cases mode with
  | quoted opened => exact absurd rfl (hmode opened)
  | ready | plain =>
    dsimp only
    rw [if_neg hcomment, if_neg htab]
    rfl

/-- A comment ends the content, and so does the end of the line. -/
theorem readContent_trailer {front : List Char} (hmode : ∀ opened, mode ≠ .quoted opened)
    (hw : Trailer w) :
    readContent mode front column w = .ok (front.dropWhile (· == ' ')).reverse := by
  cases hw with
  | nothing =>
    rw [readContent.eq_def]
    cases mode with
    | quoted opened => exact absurd rfl (hmode opened)
    | ready | plain => rfl
  | comment =>
    cases mode with
    | quoted opened => exact absurd rfl (hmode opened)
    | ready | plain =>
      rw [readContent_next hmode (fun h => absurd h.1 (by decide)) (by decide), readContent.eq_def]
      rfl

theorem readContent_comment {front rest : List Char} (hmode : ∀ opened, mode ≠ .quoted opened)
    (hfront : front.head? = some ' ') :
    readContent mode front column ('#' :: rest) = .ok (front.dropWhile (· == ' ')).reverse := by
  rw [readContent.eq_def]
  cases mode with
  | quoted opened => exact absurd rfl (hmode opened)
  | ready | plain =>
    dsimp only
    rw [if_pos ⟨rfl, hfront⟩]

/-- Nothing but a blank may stand between a line and its trailer. -/
theorem Trailer.head_append (hw : Trailer w) (cs : List Char) :
    (cs ++ w).head?.all (· == ' ') = cs.head?.all (· == ' ') := by
  cases cs with
  | nil => cases hw <;> rfl
  | cons c cs => rfl

theorem Mode.Alike.not_quoted (h : mode.Alike mode') (hmode : ∀ opened, mode ≠ .quoted opened) :
    ∀ opened, mode' ≠ .quoted opened := by
  cases h with
  | ready | plain => exact hmode
  | quoted opened => exact absurd rfl (hmode opened)

theorem Mode.Alike.next {rest rest' : List Char} (h : mode.Alike mode')
    (hmode : ∀ opened, mode ≠ .quoted opened)
    (hrest : rest'.head?.all (· == ' ') = rest.head?.all (· == ' ')) :
    (nextMode mode column c rest).Alike (nextMode mode' column' c rest') := by
  have hcolon : (if rest.head?.all (· == ' ') then Mode.ready else .plain).Alike
      (if rest'.head?.all (· == ' ') then .ready else .plain) := by
    rw [hrest]
    split
    · exact .ready
    · exact .plain
  cases h with
  | quoted opened => exact absurd rfl (hmode opened)
  | ready =>
    unfold nextMode
    split
    · exact .quoted _ _
    · exact hcolon
    · exact .ready
    · exact .plain
  | plain =>
    unfold nextMode
    split
    · next hready => cases hready
    · exact hcolon
    · exact .plain
    · exact .plain

/-- What is left of a line is empty or not, and in quotes both are cases of their own. -/
theorem not_quoted_of_cases {rest : List Char} (hlast : ∀ opened, mode = .quoted opened → rest ≠ [])
    (hinside : ∀ opened d more, mode = .quoted opened → rest ≠ d :: more) :
    ∀ opened, mode ≠ .quoted opened := fun opened hmode => by
  cases rest with
  | nil => exact hlast opened hmode rfl
  | cons d more => exact hinside opened d more hmode rfl

theorem readContent_moved {front : List Char} (hmode : mode.Alike mode') (hw : Trailer w)
    (h : readContent mode front column cs = .ok text) :
    readContent mode' front column' (cs ++ w) = .ok text := by
  fun_induction readContent mode front column cs generalizing mode' column' with
  | case1 | case3 | case8 => cases h
  | case2 front column opened =>
    cases hmode
    cases h
    rw [List.singleton_append, readContent_close, readContent_trailer not_quoted_of_plain hw]
    rfl
  | case4 front column opened d rest ih =>
    cases hmode with
    | quoted _ opened' =>
    rw [List.cons_append, List.cons_append, readContent_escape]
    exact ih (.quoted _ _) h
  | case5 front column opened c d rest hslash ih =>
    cases hmode with
    | quoted _ opened' =>
    by_cases hquote : c = '"'
    · subst hquote
      rw [List.cons_append, readContent_close]
      exact ih .plain h
    · rw [List.cons_append, List.cons_append, readContent_inside hquote hslash]
      simp only [dif_neg hquote] at ih
      rw [if_neg hquote] at h
      exact ih (.quoted _ _) h
  | case6 mode front column hquoted =>
    rw [List.nil_append, readContent_trailer (hmode.not_quoted hquoted) hw]
    exact h
  | case7 front column mode c rest hlast hinside hcomment =>
    have hquoted := not_quoted_of_cases hlast hinside
    obtain ⟨rfl, hfront⟩ := hcomment
    rw [List.cons_append, readContent_comment (hmode.not_quoted hquoted) hfront]
    exact h
  | case9 front column mode c rest hlast hinside hcomment htab next =>
    rename_i ih
    have hquoted := not_quoted_of_cases hlast hinside
    rw [List.cons_append, readContent_next (hmode.not_quoted hquoted) hcomment htab]
    exact ih (hmode.next hquoted (hw.head_append rest)) h

/-! ## Lines -/

variable {found found' ts : List Token}

theorem Trailer.isApart_append (hw : Trailer w) (cs : List Char) :
    isApart (cs ++ w) = isApart cs := by
  cases cs with
  | nil => cases hw <;> rfl
  | cons c cs => rfl

/-- The content of a line, in front of a trailer. -/
theorem content_moved (line' : Nat) (hfound : List.Forall₂ (Moved margin) found found')
    (hw : Trailer w) (h : ((readContent .ready [] column cs).map fun text =>
      ⟨.content text, line, column⟩ :: found) = .ok ts) :
    ∃ ts', ((readContent .ready [] (column + margin) (cs ++ w)).map fun text =>
        ⟨.content text, line', column + margin⟩ :: found') = .ok ts' ∧
      List.Forall₂ (Moved margin) ts ts' := by
  obtain ⟨text, htext, rfl⟩ := of_map h
  rw [readContent_moved .ready hw htext]
  exact ⟨_, rfl, .cons ⟨rfl, rfl⟩ hfound⟩

section Dashes

variable {rest : List Char}

/-- A dash with nothing behind it but blanks or a comment. -/
theorem readLine_lastDash (hapart : isApart rest = true)
    (hnext : ∀ c, (rest.dropWhile (· == ' ')).head? = some c → c = '#') :
    readLine line found column ('-' :: rest) = .ok (⟨.dash, line, column⟩ :: found) := by
  rw [readLine, if_pos hapart]
  dsimp only
  split
  · rfl
  · rfl
  · next h => exact absurd (hnext _ h) (by decide)
  · next hhash _ h => exact absurd (hnext _ h) hhash

/-- A dash with something behind it. -/
theorem readLine_nextDash {more : List Char} (hapart : isApart rest = true)
    (hnext : rest.dropWhile (· == ' ') = c :: more) (hhash : c ≠ '#') (htab : c ≠ '\t') :
    readLine line found column ('-' :: rest) =
      readLine line (⟨.dash, line, column⟩ :: found)
        (column + 1 + (rest.length - (c :: more).length)) (c :: more) := by
  rw [readLine, if_pos hapart]
  dsimp only
  rw [hnext, List.head?_cons]
  split
  · next h => cases h
  · next h => exact absurd (Option.some.inj h) hhash
  · next h => exact absurd (Option.some.inj h) htab
  · rfl

theorem readLine_text (hdash : ∀ rest, cs = '-' :: rest → isApart rest = false) :
    readLine line found column cs =
      (readContent .ready [] column cs).map fun text => ⟨.content text, line, column⟩ :: found := by
  unfold readLine
  split
  · next rest =>
    rw [hdash rest rfl]
    rfl
  · rfl

end Dashes

section Blanks

variable {p : Char → Bool}

/-- What stands behind blanks still does in front of a trailer. -/
theorem dropWhile_trailer {more : List Char} (h : cs.dropWhile p = c :: more) :
    (cs ++ w).dropWhile p = c :: (more ++ w) := by
  rw [List.dropWhile_append, h]
  rfl

/-- Where nothing but a comment stands behind blanks, a trailer is no more than that. -/
theorem Trailer.head_dropWhile (hw : Trailer w) (hspace : p ' ' = true) (hhash : p '#' = false)
    (h : ∀ c, (cs.dropWhile p).head? = some c → c = '#') :
    ∀ c, ((cs ++ w).dropWhile p).head? = some c → c = '#' := by
  cases hnext : cs.dropWhile p with
  | nil =>
    rw [List.dropWhile_append, hnext]
    intro c hc
    cases hw with
    | nothing => cases hc
    | comment =>
      rw [List.isEmpty_nil, if_pos rfl, List.dropWhile_cons_of_pos hspace,
        List.dropWhile_cons_of_neg (Bool.not_eq_true _ ▸ hhash)] at hc
      exact (Option.some.inj hc).symm
  | cons c more =>
    rw [dropWhile_trailer hnext]
    rw [hnext] at h
    exact h

end Blanks

theorem readLine_moved (line' : Nat) (hfound : List.Forall₂ (Moved margin) found found')
    (hw : Trailer w) (h : readLine line found column cs = .ok ts) :
    ∃ ts', readLine line' found' (column + margin) (cs ++ w) = .ok ts' ∧
      List.Forall₂ (Moved margin) ts ts' := by
  have hdash (column : Nat) :
      Moved margin ⟨.dash, line, column⟩ ⟨.dash, line', column + margin⟩ := ⟨rfl, rfl⟩
  -- On the dashes of the line.
  fun_induction readLine line found column cs generalizing found' with
  | case1 found column rest hapart found₁ hle next
  | case2 found column rest hapart found₁ hle next =>
    rename_i hnext
    have hend : ∀ c, next.head? = some c → c = '#' := fun c hc => by
      cases hnext.symm.trans hc <;> rfl
    rw [← Except.ok.inj h, List.cons_append,
      readLine_lastDash ((hw.isApart_append rest).trans hapart) (hw.head_dropWhile rfl rfl hend)]
    exact ⟨_, rfl, .cons (hdash column) hfound⟩
  | case3 => cases h
  | case4 found column rest hapart found₁ hle next column₁ c hhash htab hhead =>
    rename_i ih
    obtain ⟨more, hnext⟩ := List.head?_eq_some_iff.1 hhead
    obtain ⟨ts', hts', hmoved⟩ := ih (.cons (hdash column) hfound) h
    refine ⟨ts', ?_, hmoved⟩
    have hcolumn : column + margin + 1 + ((rest ++ w).length - (c :: (more ++ w)).length) =
        column + 1 + (rest.length - next.length) + margin := by
      rw [hnext, ← List.cons_append, List.length_append, List.length_append]
      omega
    rw [List.cons_append, readLine_nextDash ((hw.isApart_append rest).trans hapart)
      (dropWhile_trailer hnext) hhash htab, hcolumn, ← List.cons_append, ← hnext]
    exact hts'
  | case5 found column rest hapart =>
    have hdash : ∀ more, '-' :: rest ++ w = '-' :: more → isApart more = false := by
      rintro _ ⟨⟩
      exact (hw.isApart_append rest).trans (eq_false_of_ne_true hapart)
    rw [readLine_text hdash]
    exact content_moved line' hfound hw h
  | case6 found column cs hcs =>
    have hdash : ∀ more, cs ++ w = '-' :: more → isApart more = false := fun more hmore => by
      cases cs with
      | nil => cases hw <;> cases hmore
      | cons c cs =>
        obtain ⟨rfl, -⟩ := List.cons.inj hmore
        exact absurd rfl (hcs cs)
    rw [readLine_text hdash]
    exact content_moved line' hfound hw h

section Margins

variable {n : Nat} {more : List Char}

/-- Contents that may begin behind so many spaces: markers and directives may not at the margin. -/
structure BeginsAt (n : Nat) (c : Char) (more : List Char) : Prop where
  notBlank : isBlank c = false
  notComment : c ≠ '#'
  margin : n = 0 → isMarker (c :: more) = false ∧ c ≠ '%'

/-- Nothing shows on a line but a comment. -/
def Silent (l : List Char) : Prop :=
  ∀ c, (l.dropWhile isBlank).head? = some c → c = '#'

theorem lineTokens_eq (line : Nat) (found : List Token) (l : List Char) :
    lineTokens line found l =
      match (l.dropWhile isBlank).head? with
      | none | some '#' => .ok found
      | some first =>
        match (l.takeWhile isBlank).idxOf? '\t' with
        | some column => fail .tab line column
        | none =>
          let margin := l.takeWhile isBlank
          let body := l.dropWhile isBlank
          if margin.isEmpty && isMarker body then fail .documentMarker line 0
          else if margin.isEmpty && first == '%' then fail .directive line 0
          else
            match readLine line found margin.length body with
            | .ok tokens => .ok tokens
            | .error (fault, column) => fail fault line column := by
  rw [← drop_takeWhile]
  rfl

theorem lineTokens_silent (h : Silent l) : lineTokens line found l = .ok found := by
  rw [lineTokens_eq]
  split
  · rfl
  · rfl
  · next first hhash hfirst => exact absurd (h first hfirst) hhash

theorem lineTokens_body (h : BeginsAt n c more) :
    lineTokens line found (List.replicate n ' ' ++ c :: more) =
      onLine line (readLine line found n (c :: more)) := by
  have hblank := blank_of_mem_replicate n
  have hmargin : (List.replicate n ' ' ++ c :: more).takeWhile isBlank = List.replicate n ' ' := by
    rw [List.takeWhile_append_of_pos hblank,
      List.takeWhile_cons_of_neg (Bool.not_eq_true _ ▸ h.notBlank), List.append_nil]
  have hbody : (List.replicate n ' ' ++ c :: more).dropWhile isBlank = c :: more := by
    rw [List.dropWhile_append_of_pos hblank,
      List.dropWhile_cons_of_neg (Bool.not_eq_true _ ▸ h.notBlank)]
  have hidx : (List.replicate n ' ').idxOf? '\t' = none :=
    List.idxOf?_eq_none_iff.2 fun hmem => absurd (List.eq_of_mem_replicate hmem) (by decide)
  rw [lineTokens_eq, hmargin, hbody, List.head?_cons]
  split
  · next h => cases h
  · next hhash => exact absurd (Option.some.inj hhash) h.notComment
  next hfirst =>
  cases hfirst
  rw [hidx]
  dsimp only
  rw [if_neg fun hmarker => ?_, if_neg fun hpercent => ?_, List.length_replicate]
  · cases readLine line found n (c :: more) <;> rfl
  · obtain ⟨hnil, hpercent⟩ := Bool.and_eq_true_iff.1 hpercent
    exact (h.margin (List.replicate_eq_nil_iff _ |>.1 (List.isEmpty_iff.1 hnil))).2
      (eq_of_beq hpercent)
  · obtain ⟨hnil, hmarker⟩ := Bool.and_eq_true_iff.1 hmarker
    have hnot := (h.margin (List.replicate_eq_nil_iff _ |>.1 (List.isEmpty_iff.1 hnil))).1
    cases hmarker.symm.trans hnot

/-- A line is silent, or its contents begin behind its margin. -/
theorem of_lineTokens (h : lineTokens line found l = .ok ts) :
    (Silent l ∧ ts = found) ∨ ∃ n c more, l = List.replicate n ' ' ++ c :: more ∧
      BeginsAt n c more ∧ readLine line found n (c :: more) = .ok ts := by
  rw [lineTokens_eq] at h
  split at h
  · next hnil =>
    refine .inl ⟨fun c hc => ?_, (Except.ok.inj h).symm⟩
    cases hnil.symm.trans hc
  · next hhash =>
    refine .inl ⟨fun c hc => ?_, (Except.ok.inj h).symm⟩
    cases hhash.symm.trans hc
    rfl
  next first hhash hhead =>
  obtain ⟨more, hbody⟩ := List.head?_eq_some_iff.1 hhead
  split at h
  · cases h
  next hidx =>
  dsimp only at h
  split at h
  · cases h
  next hmarker =>
  split at h
  · cases h
  next hpercent =>
  -- Without a tab the margin is made of spaces.
  have hmargin : l.takeWhile isBlank = List.replicate (l.takeWhile isBlank).length ' ' := by
    refine List.eq_replicate_of_mem fun d hd => ?_
    have hblank := List.all_eq_true.1 List.all_takeWhile d hd
    rcases Bool.or_eq_true_iff.1 hblank with hspace | htab
    · exact eq_of_beq hspace
    · exact absurd (eq_of_beq htab ▸ hd) (List.idxOf?_eq_none_iff.1 hidx)
  refine .inr ⟨(l.takeWhile isBlank).length, first, more, ?_, ⟨of_dropWhile hbody, hhash, ?_⟩, ?_⟩
  · rw [← hmargin, ← hbody, List.takeWhile_append_dropWhile]
  · intro hzero
    have hempty : (l.takeWhile isBlank).isEmpty = true :=
      List.isEmpty_iff.2 (List.eq_nil_of_length_eq_zero hzero)
    rw [hempty, Bool.true_and] at hmarker hpercent
    exact ⟨hbody ▸ eq_false_of_ne_true hmarker, fun hc => hpercent (beq_iff_eq.2 hc)⟩
  · rw [← hbody]
    split at h
    · next hread =>
      cases h
      exact hread
    · cases h

end Margins

theorem isMarker_iff : isMarker cs = true ↔
    ∃ d more, (d = '-' ∨ d = '.') ∧ cs = d :: d :: d :: more ∧ isApart more = true := by
  constructor
  · intro h
    unfold isMarker at h
    split at h
    · exact ⟨_, _, .inl rfl, rfl, h⟩
    · exact ⟨_, _, .inr rfl, rfl, h⟩
    · cases h
  · rintro ⟨d, more, rfl | rfl, rfl, h⟩ <;> exact h

/-- What is no blank stands in front of a trailer. -/
theorem Trailer.of_append {more : List Char} (hw : Trailer w) (hc : c ≠ ' ')
    (h : cs ++ w = c :: more) : ∃ rest, cs = c :: rest ∧ rest ++ w = more := by
  cases cs with
  | nil =>
    cases hw with
    | nothing => cases h
    | comment => exact absurd (List.cons.inj h).1.symm hc
  | cons d rest =>
    obtain ⟨rfl, hrest⟩ := List.cons.inj h
    exact ⟨rest, rfl, hrest⟩

theorem Trailer.isMarker_append (hw : Trailer w) (cs : List Char) :
    isMarker (cs ++ w) = isMarker cs := by
  rw [Bool.eq_iff_iff, isMarker_iff, isMarker_iff]
  constructor
  · rintro ⟨d, more, hd, hcs, hapart⟩
    have hspace : d ≠ ' ' := by rcases hd with rfl | rfl <;> decide
    obtain ⟨ds, rfl, hds⟩ := hw.of_append hspace hcs
    obtain ⟨es, rfl, hes⟩ := hw.of_append hspace hds
    obtain ⟨rest, rfl, rfl⟩ := hw.of_append hspace hes
    exact ⟨d, rest, hd, rfl, (hw.isApart_append rest).symm.trans hapart⟩
  · rintro ⟨d, more, hd, rfl, hapart⟩
    exact ⟨d, more ++ w, hd, rfl, (hw.isApart_append more).trans hapart⟩

theorem Silent.moved (h : Silent l) (margin : Nat) (hw : Trailer w) :
    Silent (List.replicate margin ' ' ++ l ++ w) := by
  rw [Silent, List.append_assoc, List.dropWhile_append_of_pos (blank_of_mem_replicate margin)]
  exact hw.head_dropWhile rfl rfl h

theorem BeginsAt.moved {n : Nat} {more : List Char} (h : BeginsAt n c more) (margin : Nat)
    (hw : Trailer w) : BeginsAt (n + margin) c (more ++ w) where
  notBlank := h.notBlank
  notComment := h.notComment
  margin hzero := by
    rw [← List.cons_append, hw.isMarker_append]
    exact h.margin (Nat.eq_zero_of_add_eq_zero_right hzero)

theorem lineTokens_moved (line' : Nat) (hfound : List.Forall₂ (Moved margin) found found')
    (hw : Trailer w) (h : lineTokens line found l = .ok ts) :
    ∃ ts', lineTokens line' found' (List.replicate margin ' ' ++ l ++ w) = .ok ts' ∧
      List.Forall₂ (Moved margin) ts ts' := by
  rcases of_lineTokens h with ⟨hsilent, rfl⟩ | ⟨n, c, more, rfl, hbegins, hread⟩
  · exact ⟨found', lineTokens_silent (hsilent.moved margin hw), hfound⟩
  · obtain ⟨ts', hts', hmoved⟩ := readLine_moved line' hfound hw hread
    refine ⟨ts', ?_, hmoved⟩
    have hline : List.replicate margin ' ' ++ (List.replicate n ' ' ++ c :: more) ++ w =
        List.replicate (n + margin) ' ' ++ c :: (more ++ w) := by
      rw [← List.append_assoc, List.replicate_append_replicate, Nat.add_comm margin,
        List.append_assoc, List.cons_append]
    rw [hline, lineTokens_body (hbegins.moved margin hw), ← List.cons_append, hts']
    rfl

/-! ## Meanings -/

section Meanings

variable {opened opened' : Nat} {r : String × List Char} {v : Value} {t t' : Token}

/-- Columns are only counted to place an error. -/
theorem readQuotedFrom_moved {front : List Char}
    (h : readQuotedFrom opened column front cs = .ok r) :
    readQuotedFrom opened' column' front cs = .ok r := by
  fun_induction readQuotedFrom opened column front cs generalizing column' with
  | case1 | case5 | case6 => cases h
  | case2 =>
    rw [readQuotedFrom]
    exact h
  | case3 column front code rest c hc ih =>
    rw [readQuotedFrom_short hc]
    exact ih h
  | case4 column front code rest hcode width c hc =>
    rename_i ih
    rw [readQuotedFrom_numbered hcode hc]
    exact ih h
  | case7 column front c rest hquote hescape hlast ih =>
    have hslash : c ≠ '\\' := fun hc => by
      cases rest with
      | nil => exact hlast hc rfl
      | cons d rest => exact hescape d rest hc rfl
    rw [readQuotedFrom_plain hquote hslash]
    exact ih h

/-- Entries with the same texts, wherever their values stand. -/
structure Entry.Alike (e e' : Entry) : Prop where
  key : e'.key = e.key
  value : e'.value.map Prod.fst = e.value.map Prod.fst

theorem entryValue?_moved (column column' : Nat) (rest : List Char) :
    (entryValue? column' rest).map Prod.fst = (entryValue? column rest).map Prod.fst := by
  unfold entryValue?
  dsimp only
  split <;> rfl

theorem entry_of_readQuoted {quoted behind : List Char} {key : String}
    (h : readQuoted column quoted = .ok (key, behind)) :
    quotedEntry? column cs quoted =
      match behind.dropWhile (· == ' ') with
      | ':' :: rest =>
        if rest.head?.all (· == ' ') then
          .ok (some ⟨key, entryValue? (column + (cs.length - rest.length)) rest⟩)
        else .ok none
      | _ => .ok none := by
  unfold quotedEntry?
  rw [h]
  rfl

theorem quoted_entry_moved {quoted : List Char} {r : Option Entry} (column' : Nat)
    (h : quotedEntry? column cs quoted = .ok r) :
    ∃ r', quotedEntry? column' cs quoted = .ok r' ∧ Option.Rel Entry.Alike r r' := by
  obtain ⟨⟨key, behind⟩, hquoted, -⟩ := of_bind h
  have hquoted' : readQuoted column' quoted = .ok (key, behind) := readQuotedFrom_moved hquoted
  rw [entry_of_readQuoted hquoted] at h
  rw [entry_of_readQuoted hquoted']
  split at h
  · next rest hcolon =>
    split at h
    · next hrest =>
      cases h
      rw [if_pos hrest]
      exact ⟨_, rfl, .some ⟨rfl, entryValue?_moved _ _ rest⟩⟩
    · next hrest =>
      cases h
      rw [if_neg hrest]
      exact ⟨none, rfl, .none⟩
  · cases h
    exact ⟨none, rfl, .none⟩

theorem splitEntry_moved {r : Option Entry} (column' : Nat) (h : splitEntry column cs = .ok r) :
    ∃ r', splitEntry column' cs = .ok r' ∧ Option.Rel Entry.Alike r r' := by
  unfold splitEntry at h ⊢
  split at h
  · exact quoted_entry_moved column' h
  next hquote =>
  dsimp only
  split at h
  · cases h
  next hquestion =>
  rw [if_neg hquestion]
  split at h
  · cases h
    exact ⟨none, rfl, .none⟩
  next before rest hcolon =>
  dsimp only at h ⊢
  split at h
  · cases h
  next hkey =>
  rw [if_neg hkey]
  split at h
  · cases h
  · cases h
    exact ⟨_, rfl, .some ⟨rfl, entryValue?_moved _ _ rest⟩⟩

theorem scalar_moved (column' : Nat) (h : scalar column cs = .ok v) :
    scalar column' cs = .ok v := by
  unfold scalar at h ⊢
  split at h
  · next quoted =>
    split at h
    · cases h
    · next text hquoted =>
      have hquoted' : readQuoted column' quoted = .ok (text, []) := readQuotedFrom_moved hquoted
      rw [hquoted']
      exact h
    · cases h
  next hquote =>
  split at h
  · next hempty => rw [if_pos hempty, h]
  next hsequence =>
  rw [if_neg hsequence]
  split at h
  · next hempty => rw [if_pos hempty, h]
  next hmapping =>
  rw [if_neg hmapping]
  split at h
  · cases h
  · cases h
  · cases hvalue : plainValue cs with
    | ok u =>
      rw [hvalue] at h
      exact h
    | error e =>
      rw [hvalue] at h
      cases h

/-- What stands behind the colon of an entry has the same meaning. -/
theorem Inline.moved {x x' : Option (List Char × Nat)} {y : Option Value} (h : Inline x y)
    (hx : x'.map Prod.fst = x.map Prod.fst) : Inline x' y := by
  cases h with
  | nothing =>
    rw [Option.map_none, Option.map_eq_none_iff] at hx
    rw [hx]
    exact .nothing
  | scalar h =>
    obtain ⟨⟨text, column'⟩, rfl, rfl⟩ := Option.map_eq_some_iff.1 hx
    exact .scalar (scalar_moved column' h)

theorem reader_scalar_moved (ht : Moved margin t t') (h : Lexicon.reader.scalar t v) :
    Lexicon.reader.scalar t' v := by
  obtain ⟨text, hlexeme, hentry, hv⟩ := h
  obtain ⟨r', hentry', hr⟩ := splitEntry_moved t'.column hentry
  cases hr
  exact ⟨text, ht.lexeme.trans hlexeme, hentry', scalar_moved _ hv⟩

theorem reader_entry_moved {k : String} {x : Option Value} (ht : Moved margin t t')
    (h : Lexicon.reader.entry t k x) : Lexicon.reader.entry t' k x := by
  obtain ⟨text, e, hlexeme, hentry, hkey, hvalue⟩ := h
  obtain ⟨r', hentry', hr⟩ := splitEntry_moved t'.column hentry
  cases hr with
  | @some _ e' halike =>
    exact ⟨text, e', ht.lexeme.trans hlexeme, hentry', halike.key.trans hkey,
      hvalue.moved halike.value⟩

theorem moved_append {ts us ws : List Token} (h : List.Forall₂ (Moved margin) (ts ++ us) ws) :
    ∃ ts' us', ws = ts' ++ us' ∧ List.Forall₂ (Moved margin) ts ts' ∧
      List.Forall₂ (Moved margin) us us' :=
  ⟨ws.take ts.length, ws.drop ts.length, (List.take_append_drop _ _).symm,
    (List.forall₂_take_append _ _ _ h.flip).flip, (List.forall₂_drop_append _ _ _ h.flip).flip⟩

/-- What belongs together under one margin belongs together under another. -/
theorem Spelled.moved {c : Nat} {p : Phrase} {ts ts' : List Token} (h : Spelled .reader c p ts)
    (hmoved : List.Forall₂ (Moved margin) ts ts') : Spelled .reader (c + margin) p ts' := by
  induction h generalizing ts' with
  | scalar h =>
    obtain ⟨t', _, ht, hnil, rfl⟩ := List.forall₂_cons_left_iff.1 hmoved
    cases hnil
    exact ht.column ▸ .scalar (reader_scalar_moved ht h)
  | sequence _ ih => exact .sequence (ih hmoved)
  | mapping _ hkeys ih => exact .mapping (ih hmoved) hkeys
  | nothing =>
    cases hmoved
    exact .nothing
  | deeper hd _ ih => exact .deeper (Nat.add_lt_add_right hd margin) (ih hmoved)
  | item hdash _ ih =>
    obtain ⟨t', us, ht, hus, rfl⟩ := List.forall₂_cons_left_iff.1 hmoved
    exact ht.column ▸ .item (ht.lexeme.trans hdash) (ht.column ▸ ih hus)
  | lastItem _ ih => exact .lastItem (ih hmoved)
  | moreItems _ _ ih ih' =>
    obtain ⟨ts', us', rfl, hts, hus⟩ := moved_append hmoved
    exact .moreItems (ih hts) (ih' hus)
  | inlineMember hentry =>
    obtain ⟨t', us, ht, hus, rfl⟩ := List.forall₂_cons_left_iff.1 hmoved
    cases hus
    exact ht.column ▸ .inlineMember (reader_entry_moved ht hentry)
  | nestedMember hentry _ ih =>
    obtain ⟨t', us, ht, hus, rfl⟩ := List.forall₂_cons_left_iff.1 hmoved
    exact ht.column ▸ .nestedMember (reader_entry_moved ht hentry) (ht.column ▸ ih hus)
  | alignedMember hentry _ ih =>
    obtain ⟨t', us, ht, hus, rfl⟩ := List.forall₂_cons_left_iff.1 hmoved
    exact ht.column ▸ .alignedMember (reader_entry_moved ht hentry) (ht.column ▸ ih hus)
  | lastMember _ ih => exact .lastMember (ih hmoved)
  | moreMembers _ _ ih ih' =>
    obtain ⟨ts', us', rfl, hts, hus⟩ := moved_append hmoved
    exact .moreMembers (ih hts) (ih' hus)

end Meanings

end Yaml

end PackageAudit
