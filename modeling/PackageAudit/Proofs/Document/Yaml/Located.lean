import PackageAudit.Proofs.Document.Yaml.Columns
import PackageAudit.Proofs.Document.Yaml.Noise

/-!
# Proofs.Document.Yaml.Located — the places of errors in YAML texts

An error of the reader has the line and the column of a character, and the fault is about that
character.

* `Yaml.Shown` — a token that stands in the lines of a text where it says;
* `Yaml.PointsIn` — an error that points at a character of the lines;
* `Yaml.tokens_shown`, `Yaml.tokensFrom_points` — the tokens of lines, and what is refused about
  lines;
* `Yaml.of_readItems_error`, `Yaml.of_readMembers_error` — how one step of the reader can fail;
* `Yaml.Cause` — the token for which tokens are refused, and why;
* `Yaml.readNode_cause`, `Yaml.readText_cause` — every error has such a cause, by induction on the
  number of tokens;
* `Yaml.parse_error_stands` — whole texts.
-/

namespace PackageAudit

namespace Yaml

variable {line column : Nat} {cs l text : List Char} {fault : YamlFault}

/-! ## Results -/

section Results

variable {ε α β : Type} {e : ε}

theorem of_map_error {x : Except ε α} {f : α → β} (h : x.map f = .error e) : x = .error e := by
  cases x with
  | ok a => cases h
  | error e' => exact congrArg Except.error (Except.error.inj h)

theorem of_bind_error {x : Except ε α} {f : α → Except ε β} (h : x >>= f = .error e) :
    x = .error e ∨ ∃ a, x = .ok a ∧ f a = .error e := by
  cases x with
  | ok a => exact .inr ⟨a, rfl, h⟩
  | error e' => exact .inl (congrArg Except.error (Except.error.inj h))

end Results

/-! ## Tokens -/

variable {found ts : List Token} {ls rows : List (List Char)} {t : Token}

/-- The characters that a token shows. -/
def Lexeme.chars : Lexeme → List Char
  | .dash => ['-']
  | .content text => text

/-- A token shows something, and stands where it says. -/
structure Shown (ls : List (List Char)) (t : Token) : Prop where
  ne_nil : t.lexeme.chars ≠ []
  stands : ∃ l, ls[t.line]? = some l ∧ StandsAt l t.column t.lexeme.chars

theorem TokenOn.shown (hl : ls[t.line]? = some l) (h : TokenOn l t) : Shown ls t := by
  cases h with
  | @dash line column rest hdash => exact ⟨List.cons_ne_nil _ _, l, hl, ⟨rest, hdash.symm⟩⟩
  | content hfirst hread =>
    refine ⟨?_, l, hl, readContent_standsAt (List.prefix_refl _) hread⟩
    obtain ⟨c, rest, hcs, hspace, hhash⟩ := hfirst
    rw [hcs] at hread
    exact ne_nil_of_readContent hread hspace hhash

/-- Every token of a text stands in its lines. -/
theorem tokens_shown (h : tokens cs = .ok ts) : ∀ t ∈ ts, Shown (lines cs) t := by
  intro t ht
  obtain ⟨l, hl, hon⟩ := tokenOn_of_tokens h t ht
  exact hon.shown hl

theorem content_points (hcs : StandsAt l column cs)
    (h : ((readContent .ready [] column cs).map fun text =>
      (⟨.content text, line, column⟩ : Token) :: found) = .error e) : Points l e := by
  have hready : Mode.OpenedIn l .ready := trivial
  exact readContent_points hcs hready (of_map_error h)

theorem readLine_points (hcs : StandsAt l column cs)
    (h : readLine line found column cs = .error e) : Points l e := by
  fun_induction readLine line found column cs with
  | case1 | case2 => cases h
  | case3 found column rest hapart hle next column₁ hhead =>
    cases h
    exact (hcs.next.dropWhile _).points hhead rfl
  | case4 found column rest hapart found₁ hle next column₁ c hhash htab hhead ih =>
    exact ih (hcs.next.dropWhile _) h
  | case5 | case6 => exact content_points hcs h

/-- An error points at a character of a line, line and column counting from one. -/
inductive PointsIn (ls : List (List Char)) : YamlError → Prop where
  | mk {fault : YamlFault} {line column : Nat} {l : List Char} (hl : ls[line]? = some l)
      (h : Points l (fault, column)) : PointsIn ls ⟨fault, line + 1, column + 1⟩

theorem lineTokens_points {e : YamlError} (hl : ls[line]? = some l)
    (h : lineTokens line found l = .error e) : PointsIn ls e := by
  have hplace : StandsAt l (l.takeWhile isBlank).length (l.dropWhile isBlank) := by
    have h := standsAt_append (l.takeWhile isBlank) (l.dropWhile isBlank)
    rwa [List.takeWhile_append_dropWhile] at h
  rw [lineTokens_eq] at h
  split at h
  · cases h
  · cases h
  next first hhash hhead =>
  -- Only a line without a margin is refused for its first character.
  have hfirst {fault : YamlFault} (hempty : (l.takeWhile isBlank).isEmpty = true)
      (hshows : fault.Shows first) : PointsIn ls ⟨fault, line + 1, 1⟩ := by
    rw [List.isEmpty_iff.1 hempty] at hplace
    exact .mk hl (hplace.points hhead hshows)
  split at h
  · next column htab =>
    cases h
    obtain ⟨hlt, htab, -⟩ := List.idxOf?_eq_some_iff.1 htab
    have hmargin := List.takeWhile_prefix isBlank (l := l)
    have hcolumn := List.prefix_iff_getElem?.1 hmargin column hlt
    rw [htab] at hcolumn
    exact .mk hl ⟨'\t', hcolumn, rfl⟩
  dsimp only at h
  split at h
  · next hmarker =>
    cases h
    exact hfirst (Bool.and_eq_true_iff.1 hmarker).1 trivial
  split at h
  · next hpercent =>
    cases h
    obtain ⟨hempty, hpercent⟩ := Bool.and_eq_true_iff.1 hpercent
    exact hfirst hempty (eq_of_beq hpercent)
  split at h
  · cases h
  · next fault column hread =>
    cases h
    exact .mk hl (readLine_points hplace hread)

theorem of_drop_eq_cons (h : ls.drop line = l :: rows) :
    ls[line]? = some l ∧ ls.drop (line + 1) = rows := by
  rw [← List.head?_drop, ← List.tail_drop, h]
  exact ⟨rfl, rfl⟩

theorem tokensFrom_points {e : YamlError} (hrows : ls.drop line = rows)
    (h : tokensFrom line found rows = .error e) : PointsIn ls e := by
  fun_induction tokensFrom line found rows with
  | case1 => cases h
  | case2 line found l rest found' hline ih => exact ih (of_drop_eq_cons hrows).2 h
  | case3 line found l rest e' hline =>
    cases h
    exact lineTokens_points (of_drop_eq_cons hrows).1 hline

/-! ## Tokens at their places -/

variable {depth c : Nat} {s rest start more : List Token} {belongs : Token → Bool} {entry : Entry}
  {items : List Value} {members : List (String × Value)} {token : Token} {e : YamlError}

/-- An error that a whole token is blamed for. -/
theorem Shown.points (ht : Shown ls t) (hany : ∀ c, fault.Shows c) :
    PointsIn ls ⟨fault, t.line + 1, t.column + 1⟩ := by
  obtain ⟨hne, l, hl, hplace⟩ := ht
  exact .mk hl (hplace.points_any hne hany)

theorem Shown.points_dash (ht : Shown ls t) (hdash : t.lexeme = .dash) :
    PointsIn ls ⟨.unexpectedSequenceEntry, t.line + 1, t.column + 1⟩ := by
  obtain ⟨-, l, hl, hplace⟩ := ht
  rw [hdash] at hplace
  exact .mk hl (hplace.points rfl rfl)

theorem onLine_points {α : Type} {x : Column α} (hl : ls[line]? = some l)
    (hx : ∀ ⦃e⦄, x = .error e → Points l e) (h : onLine line x = .error e) : PointsIn ls e := by
  cases x with
  | ok a => cases h
  | error at' =>
    obtain ⟨fault, column⟩ := at'
    cases h
    exact .mk hl (hx rfl)

theorem Shown.entry_points (ht : Shown ls t) (htext : t.lexeme = .content text)
    (h : onLine t.line (splitEntry t.column text) = .error e) : PointsIn ls e := by
  obtain ⟨hne, l, hl, hplace⟩ := ht
  rw [htext] at hne hplace
  exact onLine_points hl (fun _ => splitEntry_points hplace hne) h

theorem Shown.scalar_points (ht : Shown ls t) (htext : t.lexeme = .content text)
    (h : onLine t.line (scalar t.column text) = .error e) : PointsIn ls e := by
  obtain ⟨hne, l, hl, hplace⟩ := ht
  rw [htext] at hne hplace
  exact onLine_points hl (fun _ => Yaml.scalar_points hplace hne) h

/-- The value of an entry on a line stands there where the entry says. -/
def Entry.StandsOn (ls : List (List Char)) (line : Nat) (entry : Entry) : Prop :=
  ∃ l, ls[line]? = some l ∧ ValueShown l entry.value

theorem Shown.entry_standsOn (ht : Shown ls t) (h : EntryAt c t entry) :
    entry.StandsOn ls t.line := by
  obtain ⟨-, l, hl, hplace⟩ := ht
  obtain ⟨-, text, htext, hentry⟩ := h
  rw [htext] at hplace
  exact ⟨l, hl, splitEntry_shown hplace hentry⟩

/-! ## Steps that fail -/

/-- An entry of a sequence fails, or what follows it, or an entry behind it. -/
theorem of_readItems_error {h : s.length < start.length}
    (hread : readItems depth c start items s h = .error e) :
    readBlock depth (fun t => c < t.column) s = .error e ∨
      ∃ item, readBlock depth (fun t => c < t.column) s = .ok item ∧
        (checkDedent c item.rest = .error e ∨
          ∃ t more h', item.rest = t :: more ∧ isDashAt c t = true ∧
            readItems depth c start (item.value :: items) more h' = .error e) := by
  rw [readItems] at hread
  split at hread
  · next hitem =>
    cases hread
    exact .inl hitem
  next item hitem =>
  refine .inr ⟨item, hitem, ?_⟩
  obtain ⟨v, rest, hle⟩ := item
  dsimp only at hread
  split at hread
  · next hdedent =>
    cases hread
    exact .inl hdedent
  · cases hread
  next t more hdedent =>
  split at hread
  · next hdash => exact .inr ⟨t, more, _, rfl, hdash, hread⟩
  · cases hread

/-- What follows an entry of a mapping is neither its end nor the next entry. -/
inductive Misfit (c : Nat) : List Token → YamlError → Prop where
  | deeper {rest : List Token} {e : YamlError} (h : checkDedent c rest = .error e) :
      Misfit c rest e
  | dash {t : Token} {more : List Token} (hdedent : checkDedent c (t :: more) = .ok ())
      (hcolumn : ¬ t.column < c) (h : t.lexeme = .dash) :
      Misfit c (t :: more) ⟨.unexpectedSequenceEntry, t.line + 1, t.column + 1⟩
  | refused {t : Token} {more : List Token} {text : List Char} {e : YamlError}
      (hdedent : checkDedent c (t :: more) = .ok ()) (hcolumn : ¬ t.column < c)
      (htext : t.lexeme = .content text)
      (h : onLine t.line (splitEntry t.column text) = .error e) : Misfit c (t :: more) e
  | scalar {t : Token} {more : List Token} {text : List Char}
      (hdedent : checkDedent c (t :: more) = .ok ()) (hcolumn : ¬ t.column < c)
      (htext : t.lexeme = .content text)
      (h : onLine t.line (splitEntry t.column text) = .ok none) :
      Misfit c (t :: more) ⟨.expectedKey, t.line + 1, t.column + 1⟩

/-- An entry of a mapping fails, by its key or by its value, or an entry behind it. -/
theorem of_readMembers_error {h : s.length < start.length}
    (hread : readMembers depth c start members token entry s h = .error e) :
    (entry.key ∈ members.map Prod.fst ∧
        e = ⟨.duplicateKey entry.key, token.line + 1, token.column + 1⟩) ∨
      entry.key ∉ members.map Prod.fst ∧ (entry.read depth c token.line s = .error e ∨
        ∃ m, entry.read depth c token.line s = .ok m ∧
          (Misfit c m.rest e ∨
            ∃ t next more h', Follows c m.rest (some (t, next, more)) ∧
              readMembers depth c start ((entry.key, m.value) :: members) t next more h' =
                .error e)) := by
  rw [readMembers] at hread
  split at hread
  · next hrepeated =>
    cases hread
    exact .inl ⟨any_key_iff.1 hrepeated, rfl⟩
  next hnew =>
  refine .inr ⟨mt any_key_iff.2 hnew, ?_⟩
  dsimp only at hread
  split at hread
  · next hvalue =>
    cases hread
    exact .inl hvalue
  next m hm =>
  refine .inr ⟨m, hm, ?_⟩
  obtain ⟨v, rest, hle⟩ := m
  dsimp only at hread
  split at hread
  · next hdedent =>
    cases hread
    exact .inl (.deeper hdedent)
  · cases hread
  next t more hdedent =>
  split at hread
  · cases hread
  next hcolumn =>
  split at hread
  · next hdash =>
    cases hread
    exact .inl (.dash hdedent hcolumn hdash)
  next text htext =>
  split at hread
  · next hentry =>
    cases hread
    exact .inl (.refused hdedent hcolumn htext hentry)
  · next hentry =>
    cases hread
    exact .inl (.scalar hdedent hcolumn htext hentry)
  · next next hentry =>
    exact .inr ⟨t, next, more, _, .entry hdedent hcolumn htext hentry, hread⟩

/-! ## Causes -/

/-- The tokens for which the reader of blocks fails, and why. -/
inductive Cause (s : List Token) : YamlError → Prop where
  /-- A token is not to stand there, whatever its characters are. -/
  | place {t : Token} {fault : YamlFault} (ht : t ∈ s) (hany : ∀ c, fault.Shows c) :
      Cause s ⟨fault, t.line + 1, t.column + 1⟩
  | dash {t : Token} (ht : t ∈ s) (hdash : t.lexeme = .dash) :
      Cause s ⟨.unexpectedSequenceEntry, t.line + 1, t.column + 1⟩
  | entry {t : Token} {text : List Char} {e : YamlError} (ht : t ∈ s)
      (htext : t.lexeme = .content text)
      (h : onLine t.line (splitEntry t.column text) = .error e) : Cause s e
  | scalar {t : Token} {text : List Char} {e : YamlError} (ht : t ∈ s)
      (htext : t.lexeme = .content text) (h : onLine t.line (scalar t.column text) = .error e) :
      Cause s e
  /-- The value of an entry on its line. -/
  | value {t : Token} {entry : Entry} {text : List Char} {c column : Nat} {e : YamlError}
      (ht : t ∈ s) (hentry : EntryAt c t entry) (hvalue : entry.value = some (text, column))
      (h : onLine t.line (Yaml.scalar column text) = .error e) : Cause s e

theorem Cause.mono {u : List Token} (h : Cause s e) (hsub : s ⊆ u) : Cause u e := by
  cases h with
  | place ht hany => exact .place (hsub ht) hany
  | dash ht hdash => exact .dash (hsub ht) hdash
  | entry ht htext h => exact .entry (hsub ht) htext h
  | scalar ht htext h => exact .scalar (hsub ht) htext h
  | value ht hentry hvalue h => exact .value (hsub ht) hentry hvalue h

theorem Cause.points (h : Cause s e) (hs : ∀ t ∈ s, Shown ls t) : PointsIn ls e := by
  cases h with
  | place ht hany => exact (hs _ ht).points hany
  | dash ht hdash => exact (hs _ ht).points_dash hdash
  | entry ht htext h => exact (hs _ ht).entry_points htext h
  | scalar ht htext h => exact (hs _ ht).scalar_points htext h
  | value ht hentry hvalue h =>
    obtain ⟨l, hl, hshown⟩ := (hs _ ht).entry_standsOn hentry
    obtain ⟨hne, hplace⟩ := hshown _ _ hvalue
    exact onLine_points hl (fun _ => Yaml.scalar_points hplace hne) h

/-! ## Blocks -/

theorem checkDedent_cause (h : checkDedent c s = .error e) : Cause s e := by
  cases s with
  | nil => cases h
  | cons t s =>
    rw [checkDedent] at h
    split at h
    · split at h
      · cases h
        exact .place List.mem_cons_self fun _ => trivial
      · split at h
        all_goals
          cases h
          exact .place List.mem_cons_self fun _ => trivial
    · cases h

theorem Misfit.cause (h : Misfit c s e) : Cause s e := by
  cases h with
  | deeper hdedent => exact checkDedent_cause hdedent
  | dash _ _ hdash => exact .dash List.mem_cons_self hdash
  | refused _ _ htext hentry => exact .entry List.mem_cons_self htext hentry
  | scalar => exact .place List.mem_cons_self fun _ => trivial

/-- Every node at the head of tokens that is refused is refused for one of them. -/
def Blames (s : List Token) : Prop :=
  ∀ ⦃depth first more⦄, s = first :: more → ∀ ⦃e⦄, readNode depth first more = .error e → Cause s e

theorem suffix_of_readBlock {r : OptionalReading s Value}
    (h : readBlock depth belongs s = .ok r) : r.rest <:+ s := by
  rcases of_readBlock h with ⟨-, hrest, -⟩ | ⟨first, more, node, rfl, -, hnode, -, hrest⟩
  · rw [hrest]
  · obtain ⟨⟨⟨ts, hts, -⟩, -⟩, -⟩ := found_of_readNode _ rfl hnode
    rw [hrest]
    exact ⟨ts, hts.symm⟩

theorem readBlock_cause (hnode : Blames s) (h : readBlock depth belongs s = .error e) :
    Cause s e := by
  rw [readBlock.eq_def] at h
  split at h
  · cases h
  split at h
  · exact hnode rfl (of_map_error h)
  · cases h

theorem Entry.suffix_of_read {m : OptionalReading s Value}
    (h : entry.read depth c line s = .ok m) : m.rest <:+ s := by
  unfold Entry.read at h
  split at h
  · obtain ⟨v, -, rfl⟩ := of_map h
    exact List.suffix_rfl
  · exact suffix_of_readBlock h

theorem Entry.read_cause (hentry : EntryAt c token entry) (hnode : Blames s)
    (h : entry.read depth c token.line s = .error e) : Cause (token :: s) e := by
  unfold Entry.read at h
  split at h
  · next text column hbehind =>
    exact .value List.mem_cons_self hentry hbehind (of_map_error h)
  · exact (readBlock_cause hnode h).mono (List.subset_cons_self _ _)

theorem readItems_cause {h : s.length < start.length}
    (hnode : ∀ u, u.length ≤ s.length → Blames u)
    (hread : readItems depth c start items s h = .error e) : Cause s e := by
  -- On the tokens that are left.
  induction hlength : s.length using Nat.strongRecOn generalizing s items with
  | ind n ih =>
  rcases of_readItems_error hread with hitem | ⟨item, hitem, hstep⟩
  · exact readBlock_cause (hnode s (Nat.le_refl _)) hitem
  have hrest : item.rest ⊆ s := (suffix_of_readBlock hitem).subset
  rcases hstep with hdedent | ⟨t, more, h', hcons, -, hmore⟩
  · exact (checkDedent_cause hdedent).mono hrest
  · have hshort : more.length < s.length := item.length_of_rest hcons
    have hcause := ih _ (hlength ▸ hshort)
      (fun u hu => hnode u (Nat.le_trans hu (Nat.le_of_lt hshort))) hmore rfl
    exact hcause.mono fun u hu => hrest (hcons ▸ List.mem_cons_of_mem t hu)

theorem readMembers_cause {h : s.length < start.length}
    (hnode : ∀ u, u.length ≤ s.length → Blames u) (hentry : EntryAt c token entry)
    (hread : readMembers depth c start members token entry s h = .error e) :
    Cause (token :: s) e := by
  -- As for sequences, with the place of the entry whose value is read next.
  induction hlength : s.length using Nat.strongRecOn generalizing s token members entry with
  | ind n ih =>
  rcases of_readMembers_error hread with ⟨-, rfl⟩ | ⟨-, hvalue | ⟨m, hm, hstep⟩⟩
  · exact .place List.mem_cons_self fun _ => trivial
  · exact Entry.read_cause hentry (hnode s (Nat.le_refl _)) hvalue
  have hrest : m.rest ⊆ token :: s := fun u hu =>
    List.mem_cons_of_mem token ((Entry.suffix_of_read hm).subset hu)
  rcases hstep with hmisfit | ⟨t, next, more, h', hfollows, hmore⟩
  · exact hmisfit.cause.mono hrest
  · have hshort : more.length < s.length := m.length_of_rest hfollows.eq_cons
    have hcause := ih _ (hlength ▸ hshort)
      (fun u hu => hnode u (Nat.le_trans hu (Nat.le_of_lt hshort))) hfollows.entry_at hmore rfl
    rw [← hfollows.eq_cons] at hcause
    exact hcause.mono hrest

theorem readNode_cause (s : List Token) : Blames s := by
  -- The nodes in a collection are read from fewer tokens.
  induction hlength : s.length using Nat.strongRecOn generalizing s with
  | ind n ih =>
  rintro depth first more rfl e hread
  have hnode : ∀ u, u.length ≤ more.length → Blames u := fun u hu =>
    ih _ (hlength ▸ Nat.lt_succ_of_le hu) u rfl
  rw [readNode] at hread
  split at hread
  · split at hread
    · cases hread
      exact .place List.mem_cons_self fun _ => trivial
    · exact (readItems_cause hnode hread).mono (List.subset_cons_self _ _)
  next text htext =>
  split at hread
  · next hentry =>
    cases hread
    exact .entry List.mem_cons_self htext hentry
  · split at hread
    · cases hread
    · next hscalar =>
      cases hread
      exact .scalar List.mem_cons_self htext hscalar
  · next entry hentry =>
    split at hread
    · cases hread
      exact .place List.mem_cons_self fun _ => trivial
    · exact readMembers_cause hnode ⟨rfl, text, htext, of_onLine hentry⟩ hread

/-- What is refused in a text is refused about its lines, or for one of their tokens. -/
theorem readText_cause (h : readText cs = .error e) :
    tokens cs = .error e ∨ ∃ ts, tokens cs = .ok ts ∧ Cause ts e := by
  unfold readText at h
  rcases of_bind_error h with htokens | ⟨ts, htokens, h⟩
  · exact .inl htokens
  refine .inr ⟨ts, htokens, ?_⟩
  split at h
  · cases h
  next first rest =>
  rcases of_bind_error h with hroot | ⟨root, hroot, h⟩
  · exact readNode_cause _ rfl hroot
  have hrest : root.rest ⊆ first :: rest := by
    obtain ⟨⟨⟨ts, hts, -⟩, -⟩, -⟩ := found_of_readNode _ rfl hroot
    have hsub := List.subset_append_right ts root.rest
    rwa [← hts] at hsub
  rcases of_bind_error h with hdedent | ⟨_, -, h⟩
  · exact (checkDedent_cause hdedent).mono hrest
  split at h
  · cases h
  · next extra more hextra =>
    cases h
    exact .place (hrest (hextra ▸ List.mem_cons_self)) fun _ => trivial

/-! ## Texts -/

theorem readText_points (h : readText cs = .error e) : PointsIn (lines cs) e := by
  rcases readText_cause h with htokens | ⟨ts, htokens, hcause⟩
  · exact tokensFrom_points (List.drop_zero (l := lines cs)) (of_map_error htokens)
  · exact hcause.points (tokens_shown htokens)

/-- A character stands at a line and a column of a text, both of which count from one. -/
inductive StandsIn (cs : List Char) : Nat → Nat → Char → Prop where
  | mk {i j : Nat} {l : List Char} {c : Char} (hl : (cs.splitOn '\n')[i]? = some l)
      (hc : l[j]? = some c) : StandsIn cs (i + 1) (j + 1) c

theorem PointsIn.stands (h : PointsIn (lines cs) e) :
    ∃ c, StandsIn cs e.line e.column c ∧ e.fault.Shows c := by
  obtain ⟨hl, c, hc, hshows⟩ := h
  rw [lines_eq, List.getElem?_map] at hl
  obtain ⟨raw, hraw, rfl⟩ := Option.map_eq_some_iff.1 hl
  obtain ⟨hlt, rfl⟩ := List.getElem?_eq_some_iff.1 hc
  exact ⟨_, .mk hraw (List.prefix_iff_getElem?.1 (chomp_isPrefix raw) _ hlt), hshows⟩

/--
What is refused in a text is refused for the character at the line and the column of the error,
a byte order mark in front being left out, and the fault is about that character.
-/
theorem parse_error_stands (cs : List Char) (e : YamlError)
    (h : parse (Utf8.encode cs) = .error e) :
    ∃ c, StandsIn (dropMark cs) e.line e.column c ∧ e.fault.Shows c := by
  rw [parse_encode] at h
  exact (readText_points (of_map_error h)).stands

/-- A block scalar for the value of an entry in a sequence below its key. -/
theorem parse_error_stands_blockScalar :
    parse (textBytes "a:\n  - b: |") = .error ⟨.blockScalar, 2, 8⟩ ∧
      ∃ c, StandsIn (dropMark "a:\n  - b: |".toList) 2 8 c ∧ YamlFault.blockScalar.Shows c := by
  have hread : parse (textBytes "a:\n  - b: |") = .error ⟨.blockScalar, 2, 8⟩ := by
    cbv
  exact ⟨hread, parse_error_stands "a:\n  - b: |".toList _ hread⟩

end Yaml

end PackageAudit
