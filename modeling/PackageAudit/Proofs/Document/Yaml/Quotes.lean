import PackageAudit.Proofs.Document.Yaml.Located
import PackageAudit.Proofs.Document.Yaml.Plain

/-!
# Proofs.Document.Yaml.Quotes — quoted texts and the comments of their lines

A line is cut into its content and a comment by one scanner, and the quoted keys and values of the
content are found again by others. Where a quoted text begins and where it ends has to be the same
for all of them, or a comment could be cut out of a quoted text.

* `Yaml.CutOff`, `Yaml.cut_of_tokenOn` — what a line holds behind its content;
* `Yaml.Opens` — the quoted texts that are read from a content;
* `Yaml.ready_of_value` — where the value of an entry begins, the line lets a quoted text begin;
* `Yaml.quoted_of_cause` — what is refused about quotes among tokens;
* `Yaml.QuotesAgree` — what the line and the readers of its content agree about;
* `Yaml.quotes_agree` — they do, for every line and every text.
-/

namespace PackageAudit

/-- What only the reader of quoted texts refuses. -/
def YamlFault.OfQuotes : YamlFault → Prop
  | unterminatedString | invalidEscape _ => True
  | _ => False

namespace Yaml

variable {column opened place line : Nat} {cs front l quoted rest tail text : List Char}
  {mode : Mode} {entry : Entry} {fault : YamlFault}

/-! ## What is cut off -/

/-- What stands on a line behind its content: blanks, and perhaps a comment behind them. -/
inductive CutOff : List Char → Prop where
  | blanks (n : Nat) : CutOff (List.replicate n ' ')
  | comment (n : Nat) (text : List Char) : CutOff (List.replicate (n + 1) ' ' ++ '#' :: text)

theorem takeWhile_blank (cs : List Char) :
    cs.takeWhile (· == ' ') = List.replicate (cs.takeWhile (· == ' ')).length ' ' :=
  List.eq_replicate_of_mem fun d hd => eq_of_beq (List.all_eq_true.1 List.all_takeWhile d hd)

/-- The blanks at the end of what has been passed are cut off with what follows. -/
theorem reverse_append_cut (front cs : List Char) :
    front.reverse ++ cs = (front.dropWhile (· == ' ')).reverse ++
      (List.replicate (front.takeWhile (· == ' ')).length ' ' ++ cs) := by
  rw [← List.reverse_replicate, ← takeWhile_blank, ← List.append_assoc, ← List.reverse_append,
    List.takeWhile_append_dropWhile]

theorem cut_of_readContent (h : readContent mode front column cs = .ok text) :
    ∃ tail, front.reverse ++ cs = text ++ tail ∧ CutOff tail := by
  -- On the characters of the line.
  fun_induction readContent mode front column cs with
  | case1 | case3 | case8 => cases h
  | case2 front =>
    cases h
    exact ⟨[], by rw [List.append_nil, List.reverse_cons], .blanks 0⟩
  | case4 front column opened d rest ih =>
    obtain ⟨tail, heq, hcut⟩ := ih h
    exact ⟨tail, by rw [← heq]; simp, hcut⟩
  | case5 front column opened c d rest hslash ih =>
    obtain ⟨tail, heq, hcut⟩ := ih h
    exact ⟨tail, by rw [← heq]; simp, hcut⟩
  | case6 mode front column hmode =>
    cases h
    refine ⟨_, reverse_append_cut front [], ?_⟩
    rw [List.append_nil]
    exact .blanks _
  | case7 front column mode c rest _ _ hcomment =>
    cases h
    obtain ⟨rfl, hhead⟩ := hcomment
    obtain ⟨more, rfl⟩ := List.head?_eq_some_iff.1 hhead
    refine ⟨_, reverse_append_cut (' ' :: more) ('#' :: rest), ?_⟩
    rw [List.takeWhile_cons_of_pos (by rfl), List.length_cons]
    exact .comment _ rest
  | case9 front column mode c rest _ _ hcomment htab next ih =>
    obtain ⟨tail, heq, hcut⟩ := ih h
    exact ⟨tail, by rw [← heq]; simp, hcut⟩

/-- A content with what is cut off behind it; the line is read up to the end of the content. -/
structure Cut (column : Nat) (text tail : List Char) : Prop where
  cutOff : CutOff tail
  first : ∀ c, text.head? = some c → c ≠ ' '
  read : readContent .ready [] column (text ++ tail) = .ok text

theorem cut_of_tokenOn (h : TokenOn l ⟨.content text, line, column⟩) :
    ∃ tail, l.drop column = text ++ tail ∧ Cut column text tail := by
  cases h with
  | content hfirst hread =>
    obtain ⟨tail, heq, hcut⟩ := cut_of_readContent hread
    rw [List.reverse_nil, List.nil_append] at heq
    rw [heq] at hread
    refine ⟨tail, heq, hcut, fun c hc => ?_, hread⟩
    obtain ⟨d, more, hcs, hspace, -⟩ := hfirst
    obtain ⟨rest, rfl⟩ := List.head?_eq_some_iff.1 hc
    obtain ⟨rfl, -⟩ := List.cons.inj (hcs.symm.trans heq)
    exact hspace

/-! ## Quoted texts on a line -/

/-- A quoted text that is accepted on its line is closed there. -/
theorem closed_of_readContent (h : readContent (.quoted opened) front column cs = .ok text) :
    ∃ inside behind column', Closed inside ∧ cs = inside ++ behind ∧
      readContent .plain (inside.reverse ++ front) column' behind = .ok text := by
  -- On the characters that are left; a backslash passes two of them.
  induction hlength : cs.length using Nat.strongRecOn generalizing front column cs with
  | ind n ih =>
  cases cs with
  | nil =>
    rw [readContent] at h
    cases h
  | cons c rest =>
  by_cases hquote : c = '"'
  · subst hquote
    rw [readContent_close] at h
    exact ⟨['"'], rest, column + 1, .quote, rfl, h⟩
  cases rest with
  | nil =>
    rw [readContent, if_neg hquote] at h
    cases h
  | cons d rest =>
  simp only [List.length_cons] at hlength
  by_cases hslash : c = '\\'
  · subst hslash
    rw [readContent_escape] at h
    obtain ⟨inside, behind, column', hclosed, rfl, hread⟩ := ih rest.length (by omega) h rfl
    exact ⟨_, behind, column', .escaped hclosed, rfl, by simpa using hread⟩
  · rw [readContent_inside hquote hslash] at h
    obtain ⟨inside, behind, column', hclosed, heq, hread⟩ :=
      ih (d :: rest).length (by simp only [List.length_cons]; omega) h rfl
    rw [heq]
    exact ⟨_, behind, column', .inside hquote hslash hclosed, rfl, by simpa using hread⟩

/-- Where a quoted text may begin, the one that begins is closed in the content of the line. -/
theorem closed_of_ready
    (h : readContent .ready front column ('"' :: quoted ++ tail) =
      .ok (front.reverse ++ '"' :: quoted)) :
    ∃ inside, Closed inside ∧ inside <+: quoted := by
  rw [List.cons_append, readContent_open] at h
  obtain ⟨inside, behind, column', hclosed, heq, hread⟩ := closed_of_readContent h
  refine ⟨inside, hclosed, List.prefix_of_prefix_length_le ⟨behind, heq.symm⟩
    (List.prefix_append quoted tail) ?_⟩
  -- The closing quote is no blank, so the content reaches to it.
  have hreaches := (partOf_of_readContent hread).reaches
  obtain ⟨init, rfl⟩ := hclosed.last
  rw [List.reverse_append, List.reverse_singleton, List.append_assoc, List.singleton_append,
    dropWhile_blank (by decide)] at hreaches
  simp only [List.length_cons, List.length_append, List.length_reverse, List.length_nil]
    at hreaches ⊢
  omega

/-! ## Quoted texts of a content -/

/--
The quoted texts that are read from a content, from behind their opening quotes: at its beginning,
as a key or as a scalar, and at the beginning of the value of the entry that it is.
-/
inductive Opens (column : Nat) (text : List Char) : List Char → Prop where
  | first {quoted : List Char} (h : text = '"' :: quoted) : Opens column text quoted
  | value {entry : Entry} {quoted : List Char} {place : Nat}
      (hentry : splitEntry column text = .ok (some entry))
      (hvalue : entry.value = some ('"' :: quoted, place)) : Opens column text quoted

/-- Behind a colon that ends a key, a quoted text may begin at the value. -/
theorem ready_of_colon {value : List Char} {column' : Nat}
    (hread : readContent .plain front column (':' :: (rest ++ tail)) = .ok text)
    (hrest : rest.head?.all (· == ' ') = true)
    (hvalue : entryValue? column' rest = some (value, place)) :
    ∃ n column', rest = List.replicate n ' ' ++ value ∧
      readContent .ready (List.replicate n ' ' ++ ':' :: front) column' (value ++ tail) =
        .ok text := by
  obtain ⟨n, hblanks⟩ := exists_blanks rest
  unfold entryValue? at hvalue
  dsimp only at hvalue
  split at hvalue
  · cases hvalue
  next hne =>
  cases hvalue
  have hhead : (rest ++ tail).head?.all (· == ' ') = true := by
    cases rest with
    | nil => exact absurd rfl hne
    | cons c rest => exact hrest
  obtain ⟨column₁, hskip⟩ := readContent_blanks (column + 1) n (':' :: front)
    (rest.dropWhile (· == ' ') ++ tail)
  refine ⟨n, column₁, hblanks, ?_⟩
  rw [← hskip, ← List.append_assoc, ← hblanks, ← readContent_colon hhead, hread]

/-- Where the value of an entry begins, the line lets a quoted text begin. -/
theorem ready_of_value {value : List Char} (hcut : Cut column text tail)
    (hentry : splitEntry column text = .ok (some entry))
    (hvalue : entry.value = some (value, place)) :
    ∃ front column', text = front.reverse ++ value ∧
      readContent .ready front column' (value ++ tail) = .ok text := by
  have hread := hcut.read
  rcases of_splitEntry hentry with
    ⟨quoted, rfl, hquoted⟩ | ⟨key, n, rest, behind, rfl, hquote, hne, -, hjoined, hrest, rfl⟩
  · obtain ⟨n, rest, behind, hkey, hrest, hplace⟩ := of_quotedEntry? hquoted
    obtain ⟨inside, rfl, -, hpass⟩ := readContent_of_readQuotedFrom hkey
    obtain ⟨column₁, hpass⟩ := hpass column ['"'] (column + 1) tail
    rw [List.cons_append, readContent_open, hpass, List.append_assoc] at hread
    obtain ⟨-, column₂, hread⟩ := clean_of_plain (joined_blanks n _) hread (by simp; omega)
    obtain ⟨m, column₃, rfl, hread⟩ := ready_of_colon hread hrest (hplace ▸ hvalue)
    exact ⟨_, column₃, by simp, hread⟩
  · obtain ⟨c, key, rfl⟩ := List.exists_cons_of_ne_nil hne
    have hquote : c ≠ '"' := fun hc => hquote (congrArg some hc)
    -- The line passes the key with its blanks, and stands at the colon.
    have hline : c :: key ++ (List.replicate n ' ' ++ ':' :: rest) ++ tail =
        c :: (key ++ List.replicate n ' ') ++ ':' :: (rest ++ tail) := by simp
    rw [hline] at hread
    have hcolon : Joined (c :: (key ++ List.replicate n ' ')) (':' :: (rest ++ tail)) :=
      hjoined.congr rfl
    obtain ⟨-, column₁, hread⟩ :=
      clean_of_ready ⟨hquote, hcut.first c rfl⟩ hcolon hread (by simp)
    obtain ⟨m, column₂, rfl, hread⟩ := ready_of_colon hread hrest hvalue
    exact ⟨_, column₂, by simp, hread⟩

/-- Every quoted text that is read from a content is closed in it. -/
theorem closed_of_opens (hcut : Cut column text tail) (h : Opens column text quoted) :
    ∃ inside, Closed inside ∧ inside <+: quoted := by
  cases h with
  | first h =>
    subst h
    have hread : readContent .ready [] column ('"' :: quoted ++ tail) =
        .ok (List.reverse [] ++ '"' :: quoted) := hcut.read
    exact closed_of_ready hread
  | value hentry hvalue =>
    obtain ⟨front, column', rfl, hread⟩ := ready_of_value hcut hentry hvalue
    exact closed_of_ready hread

/-! ## Readers of closed texts -/

/-- A text from behind an opening quote on, which holds the closing quote. -/
def Closes (cs : List Char) : Prop :=
  ∃ inside, Closed inside ∧ inside <+: cs

theorem not_closes_nil : ¬ Closes [] := fun ⟨_, hclosed, hprefix⟩ =>
  hclosed.ne_nil (List.prefix_nil.1 hprefix)

/-- The first character is the closing quote, or a backslash with the next one, or is passed. -/
theorem Closes.of_cons {c : Char} (h : Closes (c :: cs)) :
    c = '"' ∨ (c = '\\' ∧ ∃ d more, cs = d :: more ∧ Closes more) ∨ (c ≠ '\\' ∧ Closes cs) := by
  obtain ⟨inside, hclosed, behind, heq⟩ := h
  cases hclosed with
  | quote => exact .inl (List.cons.inj heq).1.symm
  | @escaped d inside hclosed =>
    obtain ⟨rfl, rfl⟩ := List.cons.inj heq
    exact .inr (.inl ⟨rfl, d, _, rfl, inside, hclosed, List.prefix_append inside behind⟩)
  | @inside c inside _ hslash hclosed =>
    obtain ⟨rfl, rfl⟩ := List.cons.inj heq
    exact .inr (.inr ⟨hslash, inside, hclosed, List.prefix_append inside behind⟩)

theorem Closes.of_append {ds : List Char} (h : Closes (ds ++ cs))
    (hds : ∀ d ∈ ds, d ≠ '"' ∧ d ≠ '\\') : Closes cs := by
  induction ds with
  | nil => exact h
  | cons d ds ih =>
    obtain ⟨hd, hds⟩ := List.forall_mem_cons.1 hds
    rcases h.of_cons with hquote | ⟨hslash, -⟩ | ⟨-, h⟩
    · exact absurd hquote hd.1
    · exact absurd hslash hd.2
    · exact ih h hds

theorem Closes.of_escape {c : Char} (h : Closes ('\\' :: c :: cs)) : Closes cs := by
  rcases h.of_cons with hquote | ⟨-, d, more, heq, h⟩ | ⟨hslash, -⟩
  · exact absurd hquote (by decide)
  · obtain ⟨rfl, rfl⟩ := List.cons.inj heq
    exact h
  · exact absurd rfl hslash

/-- The reader of quoted texts does not miss a closing quote that is there. -/
theorem Closes.terminated (hcs : Closes cs)
    (h : readQuotedFrom opened column front cs = .error (fault, place)) :
    fault ≠ .unterminatedString := by
  -- On the steps of the reader: what is left holds the closing quote still.
  fun_induction readQuotedFrom opened column front cs with
  | case1 => exact absurd hcs not_closes_nil
  | case2 => cases h
  | case3 column front code rest c hc ih => exact ih hcs.of_escape h
  | case4 column front code rest hcode width c hc ih =>
    have hrest := hcs.of_escape
    rw [← List.take_append_drop width rest] at hrest
    exact ih (hrest.of_append (ne_of_numbered? hc)) h
  | case5 =>
    cases h
    rintro ⟨⟩
  | case6 =>
    rcases hcs.of_cons with hquote | ⟨-, d, more, heq, -⟩ | ⟨hslash, -⟩
    · exact absurd hquote (by decide)
    · cases heq
    · exact absurd rfl hslash
  | case7 column front c rest hquote hslash hlast ih =>
    rcases hcs.of_cons with rfl | ⟨rfl, d, more, rfl, -⟩ | ⟨-, hrest⟩
    · exact absurd rfl hquote
    · exact (hslash d more rfl rfl).elim
    · exact ih hrest h

/-! ## Faults of quoted texts -/

theorem not_ofQuotes_of_indicatorFault? (h : indicatorFault? cs = some fault) :
    ¬ fault.OfQuotes := by
  unfold indicatorFault? at h
  split at h
  · cases h
  dsimp only at h
  -- On the first character, and on what follows a question mark or a dash.
  split at h <;> (try split at h) <;> cases h <;> exact id

/-- What is refused about quotes in an entry is refused about the quotes around its key. -/
theorem quoted_of_splitEntry (h : splitEntry column cs = .error (fault, place))
    (hfault : fault.OfQuotes) :
    ∃ quoted, cs = '"' :: quoted ∧ readQuoted column quoted = .error (fault, place) := by
  unfold splitEntry at h
  split at h
  · next quoted =>
    rcases of_bind_error h with hquoted | ⟨⟨key, behind⟩, -, h⟩
    · exact ⟨quoted, rfl, hquoted⟩
    · dsimp only at h
      split at h
      · split at h <;> cases h
      · cases h
  split at h
  · cases h
    exact hfault.elim
  split at h
  · cases h
  dsimp only at h
  split at h
  · cases h
    exact hfault.elim
  split at h
  · next hindicator =>
    cases h
    exact (not_ofQuotes_of_indicatorFault? hindicator hfault).elim
  · cases h

theorem quoted_of_scalar (h : scalar column cs = .error (fault, place))
    (hfault : fault.OfQuotes) :
    ∃ quoted, cs = '"' :: quoted ∧ readQuoted column quoted = .error (fault, place) := by
  unfold scalar at h
  split at h
  · next quoted =>
    split at h
    · next hquoted =>
      cases h
      exact ⟨quoted, rfl, hquoted⟩
    · cases h
    · cases h
      exact hfault.elim
  split at h
  · cases h
  split at h
  · cases h
  split at h
  · next hindicator =>
    cases h
    exact (not_ofQuotes_of_indicatorFault? hindicator hfault).elim
  · cases h
    exact hfault.elim
  · cases hvalue : plainValue cs with
    | ok v =>
      rw [hvalue] at h
      cases h
    | error fault =>
      rw [hvalue] at h
      cases h
      obtain ⟨text, rfl⟩ := of_plainValue_error hvalue
      exact hfault.elim

/-- What is refused about quotes among tokens is refused about a quoted text of one of them. -/
theorem quoted_of_cause {ts : List Token} {e : YamlError} (h : Cause ts e)
    (hfault : e.fault.OfQuotes) :
    ∃ t ∈ ts, ∃ text quoted column place, t.lexeme = .content text ∧
      Opens t.column text quoted ∧ readQuoted column quoted = .error (e.fault, place) := by
  have hline {α : Type} {line : Nat} {x : Column α} (hx : onLine line x = .error e) :
      ∃ place, x = .error (e.fault, place) := by
    cases x with
    | ok a => cases hx
    | error at' =>
      cases hx
      exact ⟨_, rfl⟩
  cases h with
  | @place t fault ht hany =>
    -- A fault that may be about any character is none of quotes.
    cases fault with
    | unterminatedString => exact absurd (hany 'a') (by decide : ¬ 'a' = '"')
    | invalidEscape sequence => exact absurd (hany 'a') (by decide : ¬ 'a' = '\\')
    | _ => exact hfault.elim
  | dash => exact hfault.elim
  | entry ht htext h =>
    obtain ⟨place, h⟩ := hline h
    obtain ⟨quoted, hquoted, hread⟩ := quoted_of_splitEntry h hfault
    exact ⟨_, ht, _, quoted, _, place, htext, .first hquoted, hread⟩
  | scalar ht htext h =>
    obtain ⟨place, h⟩ := hline h
    obtain ⟨quoted, hquoted, hread⟩ := quoted_of_scalar h hfault
    exact ⟨_, ht, _, quoted, _, place, htext, .first hquoted, hread⟩
  | value ht hentry hvalue h =>
    obtain ⟨place, h⟩ := hline h
    obtain ⟨quoted, rfl, hread⟩ := quoted_of_scalar h hfault
    obtain ⟨-, text, htext, hentry⟩ := hentry
    exact ⟨_, ht, _, quoted, _, place, htext, .value hentry hvalue, hread⟩

/-! ## Agreement -/

/-- What the line of a content and the readers of its keys and values agree about. -/
structure QuotesAgree (column : Nat) (text tail : List Char) : Prop where
  /-- Every quoted text that is read is closed in the content. -/
  closes : ∀ quoted, Opens column text quoted → Closes quoted
  /-- It is read up to its closing quote. -/
  ends : ∀ quoted place s behind, Opens column text quoted →
    readQuoted place quoted = .ok (s, behind) → ∃ inside, Closed inside ∧ quoted = inside ++ behind
  /-- On the whole line it would be closed there, too: what is cut off lies behind it. -/
  apart : ∀ quoted inside, Opens column text quoted → Closed inside → inside <+: quoted ++ tail →
    inside <+: quoted
  /-- No reader misses a closing quote. -/
  entry : ∀ place, splitEntry column text ≠ .error (.unterminatedString, place)
  scalar : ∀ place, scalar column text ≠ .error (.unterminatedString, place)
  value : ∀ entry value column' place, splitEntry column text = .ok (some entry) →
    entry.value = some (value, column') →
    Yaml.scalar column' value ≠ .error (.unterminatedString, place)

theorem Cut.agree (hcut : Cut column text tail) : QuotesAgree column text tail where
  closes quoted := closed_of_opens hcut
  ends quoted place s behind _ h := closed_of_readQuotedFrom h
  apart quoted inside hopens hclosed hprefix := by
    obtain ⟨inside', hclosed', hprefix'⟩ := closed_of_opens hcut hopens
    obtain ⟨u, hu⟩ := hprefix
    obtain ⟨w, hw⟩ := hprefix'.trans (List.prefix_append quoted tail)
    rwa [hclosed.eq_of_append hclosed' (hu.trans hw.symm)]
  entry place h := by
    obtain ⟨quoted, hquoted, hread⟩ := quoted_of_splitEntry h trivial
    exact Closes.terminated (closed_of_opens hcut (.first hquoted)) hread rfl
  scalar place h := by
    obtain ⟨quoted, hquoted, hread⟩ := quoted_of_scalar h trivial
    exact Closes.terminated (closed_of_opens hcut (.first hquoted)) hread rfl
  value entry value column' place hentry hvalue h := by
    obtain ⟨quoted, rfl, hread⟩ := quoted_of_scalar h trivial
    exact Closes.terminated (closed_of_opens hcut (.value hentry hvalue)) hread rfl

theorem terminated_of_cause {ts : List Token} {e : YamlError}
    (hts : ∀ t ∈ ts, ∀ text, t.lexeme = .content text →
      ∃ tail, QuotesAgree t.column text tail) (h : Cause ts e) : e.fault ≠ .unterminatedString := by
  intro hfault
  obtain ⟨t, ht, text, quoted, column, place, htext, hopens, hread⟩ :=
    quoted_of_cause h (hfault ▸ trivial)
  obtain ⟨tail, hagree⟩ := hts t ht text htext
  exact (hagree.closes quoted hopens).terminated hread hfault

theorem agree_of_tokenOn {t : Token} (h : TokenOn l t) (htext : t.lexeme = .content text) :
    ∃ tail, l.drop t.column = text ++ tail ∧ CutOff tail ∧ QuotesAgree t.column text tail := by
  obtain ⟨lexeme, line, column⟩ := t
  obtain rfl : lexeme = .content text := htext
  obtain ⟨tail, heq, hcut⟩ := cut_of_tokenOn h
  exact ⟨tail, heq, hcut.cutOff, hcut.agree⟩

/--
For every line with tokens, what is left of the line behind each content is blanks and a comment,
and all quoted texts that are read from the content are closed in it. So whenever a text has tokens,
no quote is reported as missing, whatever is made of the tokens.
-/
theorem quotes_agree :
    (∀ line found l ts, lineTokens line found l = .ok ts → ∃ new, ts = new ++ found ∧
      ∀ t ∈ new, ∀ text, t.lexeme = .content text →
        ∃ tail, l.drop t.column = text ++ tail ∧ CutOff tail ∧ QuotesAgree t.column text tail) ∧
    ∀ cs ts e, tokens cs = .ok ts → readText cs = .error e → e.fault ≠ .unterminatedString := by
  constructor
  · intro line found l ts h
    rw [lineTokens_found] at h
    obtain ⟨new, hnew, rfl⟩ := of_map h
    refine ⟨new, rfl, fun t ht text htext => ?_⟩
    rcases tokenOn_of_lineTokens hnew t ht with hnil | ⟨hon, -⟩
    · cases hnil
    · exact agree_of_tokenOn hon htext
  · intro cs ts e htokens h
    rcases readText_cause h with herror | ⟨us, hus, hcause⟩
    · cases htokens.symm.trans herror
    · cases htokens.symm.trans hus
      refine terminated_of_cause (fun t ht text htext => ?_) hcause
      obtain ⟨l, -, hon⟩ := tokenOn_of_tokens htokens t ht
      obtain ⟨tail, -, -, hagree⟩ := agree_of_tokenOn hon htext
      exact ⟨tail, hagree⟩

/--
A comment sign within a quoted key, an escaped quote within its value, and a comment behind. An
escape that does not exist is refused for what it is.
-/
theorem quotes_agree_escape :
    lineTokens 0 [] "\"a #\": \"b\\\" #\" # c\"".toList =
        .ok [⟨.content "\"a #\": \"b\\\" #\"".toList, 0, 0⟩] ∧
      (∃ tail, "\"a #\": \"b\\\" #\" # c\"".toList.drop 0 =
          "\"a #\": \"b\\\" #\"".toList ++ tail ∧ CutOff tail ∧
        QuotesAgree 0 "\"a #\": \"b\\\" #\"".toList tail) ∧
      readText "a: \"\\q\"".toList = .error ⟨.invalidEscape "\\q", 1, 5⟩ ∧
      YamlFault.invalidEscape "\\q" ≠ .unterminatedString := by
  have hline : lineTokens 0 [] "\"a #\": \"b\\\" #\" # c\"".toList =
      .ok [⟨.content "\"a #\": \"b\\\" #\"".toList, 0, 0⟩] := by cbv
  have htokens : tokens "a: \"\\q\"".toList =
      .ok [⟨.content "a: \"\\q\"".toList, 0, 0⟩] := by cbv
  have htext : readText "a: \"\\q\"".toList = .error ⟨.invalidEscape "\\q", 1, 5⟩ := by cbv
  obtain ⟨new, hnew, hagree⟩ := quotes_agree.1 0 [] _ _ hline
  rw [List.append_nil] at hnew
  subst hnew
  exact ⟨hline, hagree _ List.mem_cons_self _ rfl, htext, quotes_agree.2 _ _ _ htokens htext⟩

end Yaml

end PackageAudit
