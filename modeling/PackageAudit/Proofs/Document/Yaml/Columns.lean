import PackageAudit.Proofs.Document.Yaml.Margin

/-!
# Proofs.Document.Yaml.Columns — the characters that the faults of a line are about

* `YamlFault.Shows` — the characters that a fault may be about;
* `Yaml.StandsAt` — characters that stand on a line from a column on;
* `Yaml.Points` — a fault and a column of the line at which stands what the fault is about;
* `Yaml.readContent_points`, `Yaml.splitEntry_points`, `Yaml.scalar_points` — the faults of
  contents, entries and scalars point at such characters;
* `Yaml.splitEntry_shown` — the value of an entry stands where the entry says.

Columns count from zero here, as the readers have them.
-/

namespace PackageAudit

/--
The characters that a fault may be about. What is about an entry or a line as a whole may begin with
any character, and no character is invalid UTF-8.
-/
def YamlFault.Shows : YamlFault → Char → Prop
  | tab, c => c = '\t'
  | blockScalar, c => c = '|' ∨ c = '>'
  | anchor, c => c = '&'
  | reference, c => c = '*'
  | tag, c => c = '!'
  | singleQuoted, c => c = '\''
  | flowCollection, c => c ∈ ['[', ']', '{', '}', ',']
  | complexKey, c => c = '?'
  | directive, c => c = '%'
  | reservedIndicator indicator, c => c = indicator
  | mappingValueNotAllowed, c => c = ':'
  | unexpectedSequenceEntry, c => c = '-'
  | unterminatedString, c => c = '"'
  | invalidEscape _, c => c = '\\'
  | invalidUtf8, _ => False
  | documentMarker, _ | ambiguousLiteral _, _ | duplicateKey _, _ | expectedKey, _
  | unexpectedIndentation, _ | multiLineScalar, _ | trailingContent, _ | tooDeep _, _ => True

namespace Yaml

variable {column opened : Nat} {cs ds l text rest front : List Char} {c : Char} {mode : Mode}
  {fault : YamlFault}

/-! ## Places on a line -/

/-- The characters stand on a line from a column on. -/
def StandsAt (l : List Char) (column : Nat) (cs : List Char) : Prop :=
  cs <+: l.drop column

theorem StandsAt.head (h : StandsAt l column (c :: cs)) : l[column]? = some c := by
  obtain ⟨tail, htail⟩ := h
  rw [← List.head?_drop, ← htail]
  rfl

theorem StandsAt.left (h : StandsAt l column (cs ++ ds)) : StandsAt l column cs :=
  (List.prefix_append cs ds).trans h

theorem StandsAt.right (h : StandsAt l column (cs ++ ds)) : StandsAt l (column + cs.length) ds := by
  obtain ⟨tail, htail⟩ := h
  refine ⟨tail, ?_⟩
  rw [← List.drop_drop, ← htail, List.append_assoc, List.drop_left]

theorem StandsAt.next (h : StandsAt l column (c :: cs)) : StandsAt l (column + 1) cs := by
  have h : StandsAt l column ([c] ++ cs) := h
  exact h.right

theorem standsAt_append (front rest : List Char) : StandsAt (front ++ rest) front.length rest :=
  ⟨[], by rw [List.append_nil, List.drop_left]⟩

/-- What is left of a text stands where the text ends without it. -/
theorem StandsAt.suffix (h : StandsAt l column cs) (hrest : rest <:+ cs) :
    StandsAt l (column + (cs.length - rest.length)) rest := by
  obtain ⟨front, rfl⟩ := hrest
  rw [List.length_append, Nat.add_sub_cancel]
  exact h.right

/-- What is dropped in front of a text moves its column. -/
theorem StandsAt.dropWhile (h : StandsAt l column cs) (p : Char → Bool) :
    StandsAt l (column + (cs.length - (cs.dropWhile p).length)) (cs.dropWhile p) :=
  h.suffix (List.dropWhile_suffix p)

/-- On a line stands a character that a fault is about. -/
def Points (l : List Char) (e : YamlFault × Nat) : Prop :=
  ∃ c, l[e.2]? = some c ∧ e.1.Shows c

theorem StandsAt.points (h : StandsAt l column cs) (hhead : cs.head? = some c)
    (hc : fault.Shows c) : Points l (fault, column) := by
  obtain ⟨rest, rfl⟩ := List.head?_eq_some_iff.1 hhead
  exact ⟨c, h.head, hc⟩

/-- Some faults are about whatever stands there. -/
theorem StandsAt.points_any (h : StandsAt l column cs) (hne : cs ≠ [])
    (hany : ∀ c, fault.Shows c) : Points l (fault, column) := by
  obtain ⟨c, rest, rfl⟩ := List.exists_cons_of_ne_nil hne
  exact h.points rfl (hany c)

/-! ## Contents -/

variable {e : YamlFault × Nat}

/-- The quote that is open. -/
def Mode.OpenedIn (l : List Char) : Mode → Prop
  | .quoted opened => l[opened]? = some '"'
  | _ => True

theorem nextMode_openedIn (h : StandsAt l column (c :: rest))
    (hmode : ∀ opened, mode ≠ .quoted opened) : (nextMode mode column c rest).OpenedIn l := by
  unfold nextMode
  split
  · exact h.head
  · split <;> trivial
  · cases mode with
    | quoted opened => exact absurd rfl (hmode opened)
    | ready | plain => trivial
  · trivial

theorem readContent_points (hcs : StandsAt l column cs) (hmode : mode.OpenedIn l)
    (h : readContent mode front column cs = .error e) : Points l e := by
  fun_induction readContent mode front column cs with
  | case1 front column opened =>
    cases h
    exact ⟨_, hmode, rfl⟩
  | case2 => cases h
  | case3 front column opened c hquote =>
    cases h
    exact ⟨_, hmode, rfl⟩
  | case4 front column opened d rest ih => exact ih hcs.next.next hmode h
  | case5 front column opened c d rest hslash ih =>
    refine ih hcs.next ?_ h
    split
    · trivial
    · exact hmode
  | case6 => cases h
  | case7 => cases h
  | case8 front column mode rest =>
    cases h
    exact hcs.points rfl rfl
  | case9 front column mode c rest hlast hinside hcomment htab next ih =>
    have hquoted := not_quoted_of_cases hlast hinside
    exact ih hcs.next (nextMode_openedIn hcs hquoted) h

theorem readContent_standsAt (hcs : StandsAt l column cs)
    (h : readContent .ready [] column cs = .ok text) : StandsAt l column text := by
  obtain ⟨tail, htail⟩ := (partOf_of_readContent h).starts
  rw [List.reverse_nil, List.nil_append] at htail
  rw [htail] at hcs
  exact hcs.left

/-! ## Scalars and entries -/

/-- The rest behind a quoted text is the end of what was read. -/
theorem suffix_of_readQuoted {behind : List Char} {key : String}
    (h : readQuoted column cs = .ok (key, behind)) : behind <:+ cs := by
  obtain ⟨inside, rfl, -⟩ := readContent_of_readQuotedFrom h
  exact List.suffix_append inside behind

theorem length_of_numbered? {width : Nat} (h : numbered? width ds = some c) :
    ds.length = width := by
  unfold numbered? at h
  split at h
  · cases h
  · next hwidth => exact not_not.1 (not_or.1 hwidth).2

theorem readQuotedFrom_points (hopened : l[opened]? = some '"') (hcs : StandsAt l column cs)
    (h : readQuotedFrom opened column front cs = .error e) : Points l e := by
  fun_induction readQuotedFrom opened column front cs with
  | case1 =>
    cases h
    exact ⟨_, hopened, rfl⟩
  | case2 => cases h
  | case3 column front code rest c hc ih => exact ih hcs.next.next h
  | case4 column front code rest hcode width c hc ih =>
    have hwidth : (rest.take width).length = width := length_of_numbered? hc
    refine ih ?_ h
    have hbehind : StandsAt l (column + 2) (rest.take width ++ rest.drop width) := by
      rw [List.take_append_drop]
      exact hcs.next.next
    have hbehind := hbehind.right
    rwa [hwidth] at hbehind
  | case5 column front code rest hcode width hnumbered =>
    cases h
    exact hcs.points rfl rfl
  | case6 =>
    cases h
    exact ⟨_, hopened, rfl⟩
  | case7 column front c rest hquote hescape hlast ih => exact ih hcs.next h

theorem readQuoted_points (hcs : StandsAt l column ('"' :: cs))
    (h : readQuoted column cs = .error e) : Points l e :=
  readQuotedFrom_points hcs.head hcs.next h

/-- A value behind a colon shows something, and stands where the entry says. -/
def ValueShown (l : List Char) (value : Option (List Char × Nat)) : Prop :=
  ∀ text column, value = some (text, column) → text ≠ [] ∧ StandsAt l column text

theorem entryValue?_shown (h : StandsAt l column rest) :
    ValueShown l (entryValue? column rest) := by
  intro text column' hvalue
  unfold entryValue? at hvalue
  dsimp only at hvalue
  split at hvalue
  · cases hvalue
  · next hne =>
    cases hvalue
    exact ⟨fun hnil => hne (List.isEmpty_iff.2 hnil), h.dropWhile _⟩

/-- The first characters of a plain text that decide a fault show it. -/
theorem indicatorFault?_shows (h : indicatorFault? cs = some fault) :
    ∃ c, cs.head? = some c ∧ fault.Shows c := by
  unfold indicatorFault? at h
  split at h
  · cases h
  next c rest =>
  refine ⟨c, rfl, ?_⟩
  dsimp only at h
  have hsoft {fault' : YamlFault} {apart : Bool}
      (h : (if apart then some fault' else none) = some fault) : fault = fault' := by
    split at h
    · exact (Option.some.inj h).symm
    · cases h
  -- One case for each indicator, in the order of the definition; the last one is for all others.
  split at h
  case h_1 =>
    cases h
    exact .inl rfl
  case h_2 =>
    cases h
    exact .inr rfl
  case h_3 | h_4 | h_5 | h_6 | h_14 | h_15 =>
    cases h
    rfl
  case h_7 | h_8 | h_9 | h_10 | h_11 =>
    cases h
    simp only [YamlFault.Shows, List.mem_cons, true_or, or_true]
  case h_12 | h_13 =>
    rw [hsoft h]
    rfl
  case h_16 => cases h

theorem splitEntry_points (hcs : StandsAt l column cs) (hne : cs ≠ [])
    (h : splitEntry column cs = .error e) : Points l e := by
  unfold splitEntry at h
  split at h
  · next quoted =>
    cases hquoted : readQuoted column quoted with
    | error e' =>
      unfold quotedEntry? at h
      rw [hquoted] at h
      cases h
      exact readQuoted_points hcs hquoted
    | ok r =>
      obtain ⟨key, behind⟩ := r
      rw [entry_of_readQuoted hquoted] at h
      split at h
      · split at h <;> cases h
      · cases h
  split at h
  · next hquestion =>
    cases h
    exact hcs.points hquestion.1 rfl
  split at h
  · cases h
  dsimp only at h
  split at h
  · cases h
    exact hcs.points_any hne fun _ => trivial
  split at h
  · next fault hfault =>
    cases h
    obtain ⟨c, hhead, hshows⟩ := indicatorFault?_shows hfault
    exact hcs.points hhead hshows
  · cases h

theorem splitEntry_shown {entry : Entry} (hcs : StandsAt l column cs)
    (h : splitEntry column cs = .ok (some entry)) : ValueShown l entry.value := by
  have hvalue {rest : List Char} (hrest : rest <:+ cs) :
      ValueShown l (entryValue? (column + (cs.length - rest.length)) rest) :=
    entryValue?_shown (hcs.suffix hrest)
  unfold splitEntry at h
  split at h
  · next quoted =>
    obtain ⟨⟨key, behind⟩, hquoted, -⟩ := of_bind h
    rw [entry_of_readQuoted hquoted] at h
    split at h
    · next rest hcolon =>
      split at h
      · cases h
        have hrest : ':' :: rest <:+ behind := hcolon ▸ List.dropWhile_suffix _
        have hbehind := (suffix_of_readQuoted hquoted).trans (List.suffix_cons '"' quoted)
        exact hvalue (((List.suffix_cons ':' rest).trans hrest).trans hbehind)
      · cases h
    · cases h
  split at h
  · cases h
  split at h
  · cases h
  next before rest hcolon =>
  obtain ⟨key, -, rfl, -, -⟩ := of_splitColonFrom hcolon
  dsimp only at h
  split at h
  · cases h
  split at h
  · cases h
  · cases h
    exact hvalue ((List.suffix_cons _ _).trans (List.suffix_append _ _))

theorem of_plainValue_error (h : plainValue cs = .error fault) :
    ∃ text, fault = .ambiguousLiteral text := by
  unfold plainValue at h
  dsimp only at h
  split at h
  · cases h
  split at h
  · cases h
    exact ⟨_, rfl⟩
  · split at h <;> cases h

theorem scalar_points (hcs : StandsAt l column cs) (hne : cs ≠ [])
    (h : scalar column cs = .error e) : Points l e := by
  unfold scalar at h
  split at h
  · next quoted =>
    split at h
    · next e' hquoted =>
      cases h
      exact readQuoted_points hcs hquoted
    · cases h
    · next text rest hrest hquoted =>
      cases h
      have hsuffix := (suffix_of_readQuoted hquoted).trans (List.suffix_cons '"' quoted)
      exact (hcs.suffix hsuffix).points_any hrest fun _ => trivial
  split at h
  · cases h
  split at h
  · cases h
  split at h
  · next fault hfault =>
    cases h
    obtain ⟨c, hhead, hshows⟩ := indicatorFault?_shows hfault
    exact hcs.points hhead hshows
  · next before rest _ hcolon =>
    cases h
    obtain ⟨key, hbefore, rfl, -, -⟩ := of_splitColonFrom hcolon
    obtain rfl : before = key := hbefore
    exact hcs.right.points rfl rfl
  · cases hvalue : plainValue cs with
    | ok v =>
      rw [hvalue] at h
      cases h
    | error fault =>
      rw [hvalue] at h
      cases h
      obtain ⟨text, rfl⟩ := of_plainValue_error hvalue
      exact hcs.points_any hne fun _ => trivial

end Yaml

end PackageAudit
