import PackageAudit.Document.Yaml.Reader

/-!
# Proofs.Document.Yaml.Mapping — a plain entry at the head of a mapping

* `Yaml.Word` — texts that are plain scalars wherever they stand;
* `Yaml.entryLine` — the line of an entry with one word for its key and one for its value;
* `Yaml.readMembers_last`, `Yaml.readMembers_next`, `Yaml.of_readMembers` — one step of the reader
  of mappings;
* `Yaml.goesOn_of_readMembers` — the values in front of an entry do not decide how the rest is read;
* `Yaml.readText_entryLine` — in front of entries that can be read, the value of a plain entry may
  be exchanged.
-/

namespace PackageAudit

namespace Yaml

/-! ## Results -/

section Results

variable {ε α β : Type} {a : α} {b : β}

theorem of_onLine {line : Nat} {x : Column α} (h : onLine line x = .ok a) : x = .ok a := by
  cases x with
  | ok a => cases h; rfl
  | error e => cases h

theorem of_map {x : Except ε α} {f : α → β} (h : x.map f = .ok b) : ∃ a, x = .ok a ∧ f a = b := by
  cases x with
  | ok a => exact ⟨a, rfl, Except.ok.inj h⟩
  | error e => cases h

theorem of_bind {x : Except ε α} {f : α → Except ε β} (h : x >>= f = .ok b) :
    ∃ a, x = .ok a ∧ f a = .ok b := by
  cases x with
  | ok a => exact ⟨a, rfl, h⟩
  | error e => cases h

end Results

/-! ## Words -/

/-- Letters and digits, at least one. -/
structure Word (cs : List Char) : Prop where
  ne_nil : cs ≠ []
  alphanumeric : ∀ c ∈ cs, c.isAlphanum = true

section Words

variable {c d : Char} {cs k w : List Char} {column : Nat}

theorem ne_of_isAlphanum (hd : d.isAlphanum = false) (hc : c.isAlphanum = true) : c ≠ d := by
  rintro rfl
  exact absurd hc (by rw [hd]; exact Bool.false_ne_true)

/-- A word does not hold a character that is neither a letter nor a digit. -/
theorem Word.not_mem (hw : Word w) (hd : d.isAlphanum = false) : d ∉ w := fun hmem =>
  ne_of_isAlphanum hd (hw.alphanumeric d hmem) rfl

theorem Word.head (hw : Word w) : ∃ c cs, w = c :: cs ∧ c.isAlphanum = true := by
  cases w with
  | nil => exact absurd rfl hw.ne_nil
  | cons c cs => exact ⟨c, cs, rfl, hw.alphanumeric c List.mem_cons_self⟩

theorem Word.last (hw : Word w) : ∃ cs c, w = cs ++ [c] ∧ c.isAlphanum = true := by
  refine ⟨_, _, (List.dropLast_concat_getLast hw.ne_nil).symm, ?_⟩
  exact hw.alphanumeric _ (List.getLast_mem hw.ne_nil)

/-- A letter or a digit indicates nothing but a plain scalar. -/
theorem indicatorFault?_cons (hc : c.isAlphanum = true) : indicatorFault? (c :: cs) = none := by
  unfold indicatorFault?
  dsimp only
  split
  all_goals first | rfl | exact absurd hc (by decide)

theorem splitColonFrom_eq_none {front : List Char} (h : ':' ∉ cs) :
    splitColonFrom front cs = none := by
  induction cs generalizing front with
  | nil => rfl
  | cons c cs ih =>
    rw [List.mem_cons, not_or] at h
    rw [splitColonFrom, if_neg fun hc => h.1 hc.1.symm]
    exact ih h.2

theorem Word.isEmptyFlow (hw : Word w) {left right : Char} (hleft : left.isAlphanum = false) :
    isEmptyFlow left right w = false := by
  obtain ⟨c, cs, rfl, hc⟩ := hw.head
  rw [Yaml.isEmptyFlow, beq_eq_false_iff_ne.2 (ne_of_isAlphanum hleft hc)]
  rfl

/-- A word in the place of a scalar is a plain one. -/
theorem Word.scalar (hw : Word w) : scalar column w = (plainValue w).mapError (·, column) := by
  unfold Yaml.scalar
  split
  · exact absurd List.mem_cons_self (hw.not_mem (by decide))
  · have hcolon : splitColon? w = none := splitColonFrom_eq_none (hw.not_mem (by decide))
    have hfault : indicatorFault? w = none := by
      obtain ⟨c, cs, rfl, hc⟩ := hw.head
      exact indicatorFault?_cons hc
    rw [hw.isEmptyFlow (by decide), hw.isEmptyFlow (by decide), hfault, hcolon]
    rfl

end Words

/-! ## Lines -/

/-- The line of an entry. -/
def entryLine (k w : List Char) : List Char :=
  k ++ ':' :: ' ' :: w

section Lines

variable {k w cs : List Char} {line column : Nat}

theorem entryLine_head (hk : Word k) :
    ∃ c cs, entryLine k w = c :: cs ∧ c.isAlphanum = true := by
  obtain ⟨c, cs, rfl, hc⟩ := hk.head
  exact ⟨c, cs ++ ':' :: ' ' :: w, rfl, hc⟩

theorem not_mem_entryLine {d : Char} (hk : Word k) (hw : Word w) (hd : d.isAlphanum = false)
    (hcolon : d ≠ ':') (hspace : d ≠ ' ') : d ∉ entryLine k w := by
  rw [entryLine, List.mem_append, List.mem_cons, List.mem_cons]
  rintro (h | h | h | h)
  · exact hk.not_mem hd h
  · exact hcolon h
  · exact hspace h
  · exact hw.not_mem hd h

/-- Without comments, tabs and quotes the content of a line is all of it, up to blanks behind. -/
theorem readContent_plain {mode : Mode} (front : List Char) (column : Nat)
    (hmode : ∀ c, mode ≠ .quoted c) (hhash : '#' ∉ cs) (htab : '\t' ∉ cs) (hquote : '"' ∉ cs) :
    readContent mode front column cs =
      .ok ((cs.reverse ++ front).dropWhile (· == ' ')).reverse := by
  -- On the characters; the mode changes with each of them, but never to that of quoted text.
  induction cs generalizing mode front column with
  | nil =>
    rw [readContent.eq_def]
    cases mode with
    | quoted c => exact absurd rfl (hmode c)
    | ready | plain => rfl
  | cons c cs ih =>
    rw [List.mem_cons, not_or] at hhash htab hquote
    rw [List.reverse_cons, List.append_assoc, readContent.eq_def]
    have hnext : ∀ next : Mode, (∀ c, next ≠ .quoted c) →
        readContent next (c :: front) (column + 1) cs =
          .ok ((cs.reverse ++ ([c] ++ front)).dropWhile (· == ' ')).reverse := fun next hnext =>
      ih _ _ hnext hhash.2 htab.2 hquote.2
    cases mode with
    | quoted c => exact absurd rfl (hmode c)
    | ready | plain =>
      dsimp only
      rw [if_neg fun h => hhash.1 h.1.symm, if_neg (Ne.symm htab.1)]
      apply hnext
      intro d
      split
      · exact absurd rfl hquote.1
      · split <;> exact Mode.noConfusion
      · exact Mode.noConfusion
      · exact Mode.noConfusion

/-- Nothing of an entry is dropped as a blank at the end of its line. -/
theorem dropWhile_entryLine (hw : Word w) :
    (entryLine k w).reverse.dropWhile (· == ' ') = (entryLine k w).reverse := by
  obtain ⟨cs, c, rfl, hc⟩ := hw.last
  have hspace : (c == ' ') = false := beq_eq_false_iff_ne.2 (ne_of_isAlphanum (by decide) hc)
  rw [entryLine, ← List.cons_append, ← List.cons_append, ← List.append_assoc,
    List.reverse_append, List.reverse_singleton, List.singleton_append,
    List.dropWhile_cons_of_neg (by rw [hspace]; exact Bool.false_ne_true)]

theorem lineTokens_entryLine (hk : Word k) (hw : Word w) :
    lineTokens line [] (entryLine k w) = .ok [⟨.content (entryLine k w), line, 0⟩] := by
  have hcontent : readContent .ready [] 0 (entryLine k w) = .ok (entryLine k w) := by
    have hready : ∀ c, Mode.ready ≠ .quoted c := fun _ h => nomatch h
    have hmem {d : Char} := not_mem_entryLine (d := d) hk hw
    have hplain := readContent_plain [] 0 hready
      (hmem (by decide) (by decide) (by decide)) (hmem (by decide) (by decide) (by decide))
      (hmem (by decide) (by decide) (by decide))
    rwa [List.append_nil, dropWhile_entryLine hw, List.reverse_reverse] at hplain
  obtain ⟨c, cs, hcs, hc⟩ := entryLine_head (w := w) hk
  have hne {d : Char} (hd : d.isAlphanum = false) : c ≠ d := ne_of_isAlphanum hd hc
  have hbeq {d : Char} (hd : d.isAlphanum = false) : (c == d) = false :=
    beq_eq_false_iff_ne.2 (hne hd)
  have hline : readLine line [] 0 (c :: cs) = .ok [⟨.content (c :: cs), line, 0⟩] := by
    rw [readLine.eq_def]
    split
    · next rest h => exact absurd (List.cons.inj h).1 (hne (by decide))
    · rw [← hcs, hcontent]
      rfl
  have hmarker : isMarker (c :: cs) = false := by
    unfold isMarker
    split
    · next h => exact absurd (List.cons.inj h).1 (hne (by decide))
    · next h => exact absurd (List.cons.inj h).1 (hne (by decide))
    · rfl
  have hmargin : (c :: cs).takeWhile (fun c => c == ' ' || c == '\t') = [] := by
    apply List.takeWhile_cons_of_neg
    rw [hbeq (by decide), hbeq (by decide)]
    exact Bool.false_ne_true
  rw [hcs, lineTokens, hmargin]
  dsimp only [List.length_nil, List.drop_zero, List.head?_cons]
  -- The line is not blank, it does not begin with a tab, and it is no directive or marker.
  split
  · next h => cases h
  · next h => exact absurd (Option.some.inj h) (hne (by decide))
  · next h =>
    cases h
    simp only [List.drop_zero, hmarker, hbeq (d := '%') (by decide), hline, Bool.and_false,
      Bool.false_eq_true, if_false]
    rfl

theorem splitColonFrom_entryLine {front : List Char} (hk : ':' ∉ k) :
    splitColonFrom front (entryLine k w) = some (front.reverse ++ k, ' ' :: w) := by
  induction k generalizing front with
  | nil =>
    rw [List.append_nil]
    rfl
  | cons c k ih =>
    rw [List.mem_cons, not_or] at hk
    have hne : ¬ (c = ':' ∧ (entryLine k w).head?.all (· == ' ') = true) := fun h => hk.1 h.1.symm
    rw [entryLine, List.cons_append, ← entryLine, splitColonFrom, if_neg hne, ih hk.2,
      List.reverse_cons, List.append_assoc, List.singleton_append]

theorem entryValue?_word (column : Nat) (hw : Word w) :
    ∃ c, entryValue? column (' ' :: w) = some (w, c) := by
  have hdrop : (' ' :: w).dropWhile (· == ' ') = w := by
    obtain ⟨c, cs, rfl, hc⟩ := hw.head
    have hspace : (c == ' ') = false := beq_eq_false_iff_ne.2 (ne_of_isAlphanum (by decide) hc)
    rw [List.dropWhile_cons_of_pos (by decide),
      List.dropWhile_cons_of_neg (by rw [hspace]; exact Bool.false_ne_true)]
  have hne : w.isEmpty = false := List.isEmpty_eq_false_iff.2 hw.ne_nil
  rw [entryValue?, hdrop, hne]
  exact ⟨_, rfl⟩

/-- The line of an entry is split into its key and its value. -/
theorem splitEntry_entryLine (column : Nat) (hk : Word k) (hw : Word w) :
    ∃ c, splitEntry column (entryLine k w) = .ok (some ⟨.ofList k, some (w, c)⟩) := by
  have hkey : (k.reverse.dropWhile (· == ' ')).reverse = k := by
    obtain ⟨cs, c, rfl, hc⟩ := hk.last
    have hspace : (c == ' ') = false := beq_eq_false_iff_ne.2 (ne_of_isAlphanum (by decide) hc)
    rw [List.reverse_append, List.reverse_singleton, List.singleton_append,
      List.dropWhile_cons_of_neg (by rw [hspace]; exact Bool.false_ne_true), List.reverse_cons,
      List.reverse_reverse]
  have hne : k.isEmpty = false := List.isEmpty_eq_false_iff.2 hk.ne_nil
  have hfault : indicatorFault? (entryLine k w) = none := by
    obtain ⟨c, cs, hcs, hc⟩ := entryLine_head (w := w) hk
    exact hcs ▸ indicatorFault?_cons hc
  obtain ⟨c, hvalue⟩ :=
    entryValue?_word (column + ((entryLine k w).length - (' ' :: w).length)) hw
  refine ⟨c, ?_⟩
  unfold splitEntry
  split
  · next h =>
    have hquote : '"' ∉ entryLine k w := not_mem_entryLine hk hw (by decide) (by decide) (by decide)
    exact absurd (h ▸ List.mem_cons_self) hquote
  · have hquestion : ¬ ((entryLine k w).head? = some '?' ∧
        (entryLine k w).tail.head?.all (· == ' ') = true) := by
      obtain ⟨c, cs, hcs, hc⟩ := entryLine_head (w := w) hk
      rw [hcs]
      exact fun h => ne_of_isAlphanum (by decide) hc (Option.some.inj h.1)
    rw [if_neg hquestion, splitColon?, splitColonFrom_entryLine (hk.not_mem (by decide)),
      List.reverse_nil, List.nil_append]
    dsimp only
    rw [hkey, hne, hfault, hvalue]
    rfl

end Lines

/-! ## Tokens -/

section Tokens

variable (line : Nat)

/-- The tokens of a line do not depend on those found before. -/
theorem readLine_found (found : List Token) (column : Nat) (cs : List Char) :
    readLine line found column cs = (readLine line [] column cs).map (· ++ found) := by
  have hcontent (found : List Token) (x : Column (List Char)) (place : List Char → Token) :
      x.map (fun text => place text :: found) =
        (x.map fun text => [place text]).map (· ++ found) := by
    cases x <;> rfl
  induction hlength : cs.length using Nat.strongRecOn generalizing found column cs with
  | ind n ih =>
  rw [readLine.eq_def, readLine.eq_def line []]
  split
  · next rest =>
    by_cases hapart : isApart rest
    · rw [if_pos hapart, if_pos hapart]
      dsimp only
      -- Behind a dash the line goes on, and the dash is found in front of what follows.
      split
      · rfl
      · rfl
      · rfl
      · have hshort : (rest.dropWhile (· == ' ')).length < n := by
          rw [← hlength]
          exact Nat.lt_succ_of_le (List.dropWhile_sublist _).length_le
        rw [ih _ hshort (_ :: found) _ _ rfl, ih _ hshort [_] _ _ rfl]
        cases readLine line [] _ _ with
        | error e => rfl
        | ok ts => exact congrArg Except.ok (List.append_cons ts _ found)
    · rw [if_neg hapart, if_neg hapart]
      exact hcontent _ _ _
  · exact hcontent _ _ _

theorem lineTokens_found (found : List Token) (cs : List Char) :
    lineTokens line found cs = (lineTokens line [] cs).map (· ++ found) := by
  unfold lineTokens
  dsimp only
  split
  · rfl
  · rfl
  · split
    · rfl
    · split
      · rfl
      · split
        · rfl
        · rw [readLine_found]
          cases readLine line [] _ _ with
          | ok ts => rfl
          | error e => rfl

theorem tokensFrom_found (found : List Token) (ls : List (List Char)) :
    tokensFrom line found ls = (tokensFrom line [] ls).map (· ++ found) := by
  induction ls generalizing line found with
  | nil => rfl
  | cons cs ls ih =>
    rw [tokensFrom, lineTokens_found, tokensFrom]
    cases lineTokens line [] cs with
    | error e => rfl
    | ok ts =>
      change tokensFrom (line + 1) (ts ++ found) ls = (tokensFrom (line + 1) ts ls).map (· ++ found)
      rw [ih, ih _ ts]
      cases tokensFrom (line + 1) [] ls with
      | error e => rfl
      | ok us => exact congrArg Except.ok (List.append_assoc us ts found).symm

end Tokens

/-- The tokens of a text whose first line is a plain entry. -/
theorem tokens_entryLine {k w : List Char} (cs : List Char) (hk : Word k) (hw : Word w) :
    tokens (entryLine k w ++ '\n' :: cs) =
      (tokensFrom 1 [] (lines cs)).map fun found =>
        ⟨.content (entryLine k w), 0, 0⟩ :: found.reverse := by
  have hmem {d : Char} := not_mem_entryLine (d := d) hk hw
  have hreturn : (entryLine k w).getLast? ≠ some '\r' := fun h =>
    hmem (by decide) (by decide) (by decide) (List.mem_of_getLast? h)
  have hlines : lines (entryLine k w ++ '\n' :: cs) = entryLine k w :: lines cs := by
    unfold lines
    rw [List.splitOn_append_cons_self_of_not_mem (hmem (by decide) (by decide) (by decide)),
      List.map_cons, if_neg hreturn]
  rw [tokens, hlines, tokensFrom, lineTokens_entryLine hk hw]
  dsimp only
  rw [tokensFrom_found]
  cases tokensFrom (0 + 1) [] (lines cs) with
  | error e => rfl
  | ok found => exact congrArg Except.ok List.reverse_concat

/-! ## Members -/

/-- What the reader makes of the value of an entry. -/
def Entry.read (depth indent line : Nat) (entry : Entry) (s : List Token) :
    Except YamlError (OptionalReading s Value) :=
  match entry.value with
  | some (text, column) => (onLine line (scalar column text)).map .nothing
  | none => readBlock depth (fun t => indent < t.column || isDashAt indent t) s

/-- What follows an entry of a mapping at column `indent`: its end, or the next entry. -/
inductive Follows (indent : Nat) : List Token → Option (Token × Entry × List Token) → Prop where
  | nothing {rest : List Token} (hdedent : checkDedent indent rest = .ok ())
      (h : ∀ t, rest.head? = some t → t.column < indent) : Follows indent rest none
  | entry {t : Token} {entry : Entry} {text : List Char} {more : List Token}
      (hdedent : checkDedent indent (t :: more) = .ok ()) (hcolumn : ¬ t.column < indent)
      (hlexeme : t.lexeme = .content text)
      (hentry : onLine t.line (splitEntry t.column text) = .ok (some entry)) :
      Follows indent (t :: more) (some (t, entry, more))

theorem Follows.eq_cons {indent : Nat} {rest more : List Token} {t : Token} {entry : Entry}
    (h : Follows indent rest (some (t, entry, more))) : rest = t :: more := by
  cases h
  rfl

section Members

variable {depth indent : Nat} {start s : List Token} {members : List (String × Value)}
  {token : Token} {entry : Entry} {h : s.length < start.length} {r : Reading start Value}

theorem any_key_iff {α : Type} {entries : List (String × α)} {key : String} :
    (entries.any fun entry => entry.1 == key) = true ↔ key ∈ entries.map Prod.fst := by
  simp only [List.any_eq_true, beq_iff_eq, List.mem_map]

/-- The last entry of a mapping: its key is new, and nothing of the mapping follows it. -/
theorem readMembers_last {m : OptionalReading s Value} (hnew : entry.key ∉ members.map Prod.fst)
    (hm : entry.read depth indent token.line s = .ok m) (hfollows : Follows indent m.rest none) :
    readMembers depth indent start members token entry s h =
      .ok ⟨.object (members.reverse ++ [(entry.key, m.value)]) [], m.rest,
        Nat.lt_of_le_of_lt m.notLonger h⟩ := by
  rw [readMembers, if_neg (mt any_key_iff.1 hnew)]
  dsimp only
  split
  · next hm' => cases hm.symm.trans hm'
  next m' hm' =>
  cases hm.symm.trans hm'
  obtain ⟨v, rest, hle⟩ := m
  dsimp only at hfollows
  cases hfollows with
  | nothing hdedent hlast =>
    dsimp only
    split
    · next hfault => cases hdedent.symm.trans hfault
    · rw [List.reverse_cons]
    · rw [if_pos (hlast _ rfl), List.reverse_cons]

/-- Any other entry is one member more, and the mapping goes on behind it. -/
theorem readMembers_next {m : OptionalReading s Value} {t : Token} {next : Entry}
    {more : List Token} (hnew : entry.key ∉ members.map Prod.fst)
    (hm : entry.read depth indent token.line s = .ok m)
    (hfollows : Follows indent m.rest (some (t, next, more))) (h' : more.length < start.length) :
    readMembers depth indent start members token entry s h =
      readMembers depth indent start ((entry.key, m.value) :: members) t next more h' := by
  rw [readMembers, if_neg (mt any_key_iff.1 hnew)]
  dsimp only
  split
  · next hm' => cases hm.symm.trans hm'
  next m' hm' =>
  cases hm.symm.trans hm'
  obtain ⟨v, rest, hle⟩ := m
  cases hfollows with
  | entry hdedent hcolumn hlexeme hentry =>
    dsimp only
    split
    · next hfault => cases hdedent.symm.trans hfault
    · next hnil => cases hnil
    next hcons =>
    cases hcons
    rw [if_neg hcolumn]
    split
    · next hdash => cases hlexeme.symm.trans hdash
    next hcontent =>
    cases hlexeme.symm.trans hcontent
    split
    · next hfault => cases hentry.symm.trans hfault
    · next hnone => cases hentry.symm.trans hnone
    next hsome =>
    cases hentry.symm.trans hsome
    rfl

/-- Every entry of a mapping that is read is one of these. -/
theorem of_readMembers (hread : readMembers depth indent start members token entry s h = .ok r) :
    entry.key ∉ members.map Prod.fst ∧ ∃ m, entry.read depth indent token.line s = .ok m ∧
      ((Follows indent m.rest none ∧
          r.value = .object (members.reverse ++ [(entry.key, m.value)]) [] ∧ r.rest = m.rest) ∨
        ∃ t next more h', Follows indent m.rest (some (t, next, more)) ∧
          readMembers depth indent start ((entry.key, m.value) :: members) t next more h' =
            .ok r) := by
  rw [readMembers] at hread
  split at hread
  · cases hread
  next hnew =>
  dsimp only at hread
  split at hread
  · cases hread
  next m hm =>
  refine ⟨mt any_key_iff.2 hnew, m, hm, ?_⟩
  obtain ⟨v, rest, hle⟩ := m
  dsimp only at hread
  split at hread
  · cases hread
  · -- No line is left.
    next hdedent =>
    cases hread
    refine .inl ⟨.nothing hdedent ?_, by rw [List.reverse_cons], rfl⟩
    exact fun _ h => absurd h (Option.some_ne_none _).symm
  next t more hdedent =>
  split at hread
  · -- The next line is one of a mapping around this one.
    next hcolumn =>
    cases hread
    refine .inl ⟨.nothing hdedent ?_, by rw [List.reverse_cons], rfl⟩
    rintro _ ⟨⟩
    exact hcolumn
  next hcolumn =>
  split at hread
  · cases hread
  next text hlexeme =>
  split at hread
  · cases hread
  · cases hread
  · next next hentry =>
    exact .inr ⟨t, next, more, _, .entry hdedent hcolumn hlexeme hentry, hread⟩

/--
Where an entry with the key `key` has been read down to `rest`, the mapping goes on with `ms` and
ends at `last`, whatever the values of its members up to that entry are.
-/
def GoesOn (depth indent : Nat) (keys : List String) (key : String) (s rest last : List Token)
    (ms : List (String × Value)) : Prop :=
  ∀ ⦃start members token entry m⦄ (h : s.length < start.length),
    members.map Prod.fst = keys → entry.key = key →
    Entry.read depth indent token.line entry s = .ok m → m.rest = rest →
    ∃ r : Reading start Value, readMembers depth indent start members token entry s h = .ok r ∧
      r.value = .object (members.reverse ++ (key, m.value) :: ms) [] ∧ r.rest = last

/-- The values that are already read show in their places and nowhere else. -/
theorem goesOn_of_readMembers
    (hread : readMembers depth indent start members token entry s h = .ok r) :
    ∃ m ms, entry.read depth indent token.line s = .ok m ∧
      r.value = .object (members.reverse ++ (entry.key, m.value) :: ms) [] ∧
      GoesOn depth indent (members.map Prod.fst) entry.key s m.rest r.rest ms := by
  -- On the lines that are left; the values read so far are only carried along.
  induction hlength : s.length using Nat.strongRecOn generalizing s members token entry with
  | ind n ih =>
  obtain ⟨hnew, m, hm, ⟨hfollows, hvalue, hrest⟩ | ⟨t, next, more, h', hfollows, hmore⟩⟩ :=
    of_readMembers hread
  · refine ⟨m, [], hm, hvalue, ?_⟩
    intro start' members' token' entry' m' h' hkeys hkey hm' hrest'
    refine ⟨_, readMembers_last (hkeys ▸ hkey ▸ hnew) hm' (hrest' ▸ hfollows), ?_, ?_⟩
    · rw [hkey]
    · exact hrest'.trans hrest.symm
  · have hshort : more.length < s.length := m.length_of_rest hfollows.eq_cons
    obtain ⟨m₁, ms, hm₁, hvalue, hgoes⟩ := ih _ (hlength ▸ hshort) hmore rfl
    rw [List.reverse_cons, List.append_assoc] at hvalue
    refine ⟨m, (next.key, m₁.value) :: ms, hm, hvalue, ?_⟩
    intro start' members' token' entry' m' h'' hkeys hkey hm' hrest'
    have hkeys' : ((entry'.key, m'.value) :: members').map Prod.fst =
        ((entry.key, m.value) :: members).map Prod.fst := by
      rw [List.map_cons, List.map_cons, hkeys, hkey]
    have hroom : more.length < start'.length := Nat.lt_trans hshort h''
    obtain ⟨r', hr', hvalue', hrest''⟩ := hgoes hroom hkeys' rfl hm₁ rfl
    refine ⟨r', ?_, ?_, hrest''⟩
    · rw [readMembers_next (hkeys ▸ hkey ▸ hnew) hm' (hrest' ▸ hfollows) hroom, hr']
    · rw [hvalue', List.reverse_cons, List.append_assoc, hkey]
      rfl

end Members

/-! ## Texts -/

/-- The node of a text is a mapping if its first line is a plain entry. -/
theorem readNode_entryLine {k w : List Char} (rest : List Token) (hk : Word k) (hw : Word w) :
    ∃ c h, readNode 0 ⟨.content (entryLine k w), 0, 0⟩ rest =
      readMembers 1 0 (⟨.content (entryLine k w), 0, 0⟩ :: rest) []
        ⟨.content (entryLine k w), 0, 0⟩ ⟨.ofList k, some (w, c)⟩ rest h := by
  obtain ⟨c, hc⟩ := splitEntry_entryLine 0 hk hw
  refine ⟨c, Nat.lt_succ_self _, ?_⟩
  rw [readNode]
  dsimp only
  rw [hc]
  rfl

theorem readText_eq_ok_iff {cs : List Char} {first : Token} {rest : List Token} {root : Value}
    (htokens : tokens cs = .ok (first :: rest)) :
    readText cs = .ok root ↔
      ∃ r, readNode 0 first rest = .ok r ∧ r.value = root ∧ r.rest = [] := by
  unfold readText
  rw [htokens]
  constructor
  · intro h
    obtain ⟨_, ⟨⟩, h⟩ := of_bind h
    obtain ⟨r, hr, h⟩ := of_bind h
    obtain ⟨_, -, h⟩ := of_bind h
    split at h
    · next hrest =>
      cases h
      exact ⟨r, hr, rfl, hrest⟩
    · cases h
  · rintro ⟨⟨root, rest', hshorter⟩, hr, rfl, hrest⟩
    dsimp only at hrest
    subst hrest
    change (readNode 0 first rest >>= _) = _
    rw [hr]
    rfl

/--
In front of entries that can be read, the value of a plain entry may be exchanged for any other
plain scalar: the text is read as the same mapping but for that value.
-/
theorem readText_entryLine {k w w' cs : List Char} {v v' root : Value} (hk : Word k) (hw : Word w)
    (hw' : Word w') (hv : plainValue w = .ok v) (hv' : plainValue w' = .ok v')
    (hread : readText (entryLine k w ++ '\n' :: cs) = .ok root) :
    ∃ ms, root = .object ((.ofList k, v) :: ms) [] ∧
      readText (entryLine k w' ++ '\n' :: cs) = .ok (.object ((.ofList k, v') :: ms) []) := by
  have hvalue {w : List Char} {v : Value} (hw : Word w) (hv : plainValue w = .ok v) (c : Nat)
      (rest : List Token) :
      Entry.read 1 0 0 ⟨.ofList k, some (w, c)⟩ rest = .ok ⟨v, rest, Nat.le_refl _⟩ := by
    rw [Entry.read]
    dsimp only
    rw [hw.scalar, hv]
    rfl
  have htokens {w : List Char} (hw : Word w) := tokens_entryLine cs hk hw
  -- The lines behind the entry have the same tokens whatever its value is.
  cases hfound : tokensFrom 1 [] (lines cs) with
  | error e =>
    unfold readText at hread
    rw [htokens hw, hfound] at hread
    cases hread
  | ok found =>
    simp only [hfound, Except.map] at htokens
    obtain ⟨r, hr, rfl, hrest⟩ := (readText_eq_ok_iff (htokens hw)).1 hread
    obtain ⟨c, h, hnode⟩ := readNode_entryLine found.reverse hk hw
    obtain ⟨c', h', hnode'⟩ := readNode_entryLine found.reverse hk hw'
    rw [hnode] at hr
    obtain ⟨m, ms, hm, hmembers, hgoes⟩ := goesOn_of_readMembers hr
    cases (hvalue hw hv c _).symm.trans hm
    have hkey : (⟨.ofList k, some (w', c')⟩ : Entry).key = .ofList k := rfl
    have hm' : Entry.read 1 0 (Token.mk (.content (entryLine k w')) 0 0).line
        ⟨.ofList k, some (w', c')⟩ found.reverse = .ok ⟨v', found.reverse, Nat.le_refl _⟩ :=
      hvalue hw' hv' c' _
    obtain ⟨r', hr', hmembers', hrest'⟩ :=
      hgoes h' List.map_nil hkey hm' (Eq.refl found.reverse)
    refine ⟨ms, hmembers, (readText_eq_ok_iff (htokens hw')).2 ⟨r', ?_, hmembers', ?_⟩⟩
    · rw [hnode', hr']
    · rw [hrest', hrest]

end Yaml

end PackageAudit
