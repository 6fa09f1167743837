import PackageAudit.Proofs.Document.Json.Located
import PackageAudit.Proofs.Document.Yaml.Quotes
import PackageAudit.Proofs.Text.Lines

/-!
# Proofs.Document.Messages — what is said about documents, on one line

Whatever a document holds, messages about it show keys and texts of it in quotes and characters by
their numbers, and so they stay on one line. There is one exception: an escape sequence that JSON
does not have is shown as it is, and a line feed may stand in it. In YAML the same is shown, but a
quoted text does not reach behind its line.

* `isLine_formatPath`, `isLine_mismatch` — the path of a place, and a value of another kind;
* `JsonFault.Told`, `YamlFault.Told` — a fault that is told on one line, escape sequences of JSON
  aside;
* `Json.Tells`, `Json.Stops` — readers all of whose faults are told;
* `Json.told_of_read_error` — the reader of JSON texts is one, under any rules, by induction on what
  is left of the input;
* `Yaml.isLine_of_parse_error` — the errors of the reader of YAML texts.
-/

namespace PackageAudit

/-! ## Numbers and paths -/

@[simp]
theorem isLine_hexNumber (width n : Nat) : IsLine (hexNumber width n) := by
  simp [IsLine, hexNumber]

/-- Capitals are no line feeds. -/
theorem IsLine.toUpper {s : String} (h : IsLine s) : IsLine s.toUpper := by
  rw [IsLine, String.toUpper, String.toList_map, List.mem_map]
  rintro ⟨c, hc, hupper⟩
  by_cases hlower : c.isLower = true
  · have hcapital : c.toUpper.isUpper = true := by simp [Char.isAlpha, hlower]
    rw [hupper] at hcapital
    exact absurd hcapital (by decide)
  · rw [Char.toUpper_eq_of_not_isLower hlower] at hupper
    exact h (hupper ▸ hc)

theorem Key.not_mem_of_isIdentifier {cs : List Char} (h : Key.isIdentifier cs = true) :
    '\n' ∉ cs := by
  cases cs with
  | nil => exact List.not_mem_nil
  | cons c rest =>
    obtain ⟨hc, hrest⟩ := Bool.and_eq_true_iff.1 h
    rw [List.mem_cons, not_or]
    refine ⟨?_, fun hmem => ?_⟩
    · rintro rfl
      exact absurd hc (by decide)
    · exact absurd (List.all_eq_true.1 hrest _ hmem) (by decide)

theorem Key.not_mem_text (key : Key) : '\n' ∉ key.text := by
  cases key with
  | index i => simp [text]
  | member name =>
    rw [text]
    split
    · next hname => simpa using not_mem_of_isIdentifier hname
    · simpa using (Yaml.unbroken_quoteChars name.toList).1

/-- The path of a place is shown on one line, whatever the keys on the way to it are. -/
@[simp]
theorem isLine_formatPath (keys : List Key) : IsLine (formatPath keys) := by
  rw [formatPath]
  split
  · simp [IsLine]
  · simpa [IsLine] using fun key _ => key.not_mem_text

@[simp]
theorem isLine_kindName (kind : Kind) : IsLine kind.name := by
  cases kind <;> decide

/-- A value of another kind than was asked for. -/
@[simp]
theorem isLine_mismatch (n : Node) (expected : Kind) : IsLine (n.mismatch expected).message := by
  simp [IsLine, toString, Node.mismatch, DocumentError.message, Node.path]

/-! ## JSON texts -/

theorem Utf8.suffix_skipBroken (a : UInt8) (rest : Bytes) : skipBroken a rest <:+ rest := by
  unfold skipBroken
  split
  · next more _ =>
    split
    · exact (List.drop_suffix _ _).trans (List.suffix_cons _ _)
    · exact List.suffix_refl _
  · exact List.suffix_refl _

/-- No line feed is read from a text without one. -/
theorem Utf8.not_mem_decodeLossy {s : Bytes} (h : '\n'.toUInt8 ∉ s) : '\n' ∉ decodeLossy s := by
  have hfrom : ∀ front : List Char, '\n' ∉ front → '\n' ∉ lossyFrom front s := by
    intro front hfront
    fun_induction lossyFrom front s with
    | case1 front s c r hc _ ih =>
      rw [decodeChar_eq_some_iff.1 hc, List.mem_append, not_or] at h
      refine ih h.2 ?_
      rw [List.mem_cons, not_or]
      refine ⟨?_, hfront⟩
      rintro rfl
      exact h.1 List.mem_cons_self
    | case2 front => simpa using hfront
    | case3 front a rest _ _ ih =>
      have hrest : '\n'.toUInt8 ∉ skipBroken a rest := fun hmem =>
        h (List.mem_cons_of_mem a ((suffix_skipBroken a rest).subset hmem))
      refine ih hrest ?_
      rw [List.mem_cons, not_or]
      exact ⟨by decide, hfront⟩
  exact hfrom [] List.not_mem_nil

/-- What a fault shows as it is stands on one line, escape sequences aside. -/
def JsonFault.Told : JsonFault → Prop
  | unexpected found expected => IsLine found ∧ IsLine expected
  | malformedNumber literal => IsLine literal
  | invalidUnicode detail => IsLine detail
  | _ => True

theorem JsonFault.isLine_message {fault : JsonFault} (h : fault.Told)
    (hescape : ∀ sequence, fault = .invalidEscape sequence → IsLine sequence) :
    IsLine fault.message := by
  unfold message
  cases fault with
  | unexpected found expected => simp [IsLine, toString, h.1, h.2]
  | malformedNumber literal =>
    have hliteral : IsLine literal := h
    simp [IsLine, toString, hliteral]
  | controlCharacter code => simp [IsLine, (isLine_hexNumber 4 code).toUpper]
  | invalidEscape sequence => simp [IsLine, toString, hescape sequence rfl]
  | invalidUnicode detail =>
    have hdetail : IsLine detail := h
    simp [IsLine, toString, hdetail]
  | _ => simp [IsLine, toString]

theorem JsonError.isLine_message {e : JsonError} (h : e.fault.Told)
    (hescape : ∀ sequence, e.fault = .invalidEscape sequence → IsLine sequence) :
    IsLine e.message := by
  unfold message
  simp [IsLine, toString, JsonFault.isLine_message h hescape]

namespace Json

variable {α β : Type} {o : JsonOptions} {s t rest start : Bytes}

/-- Every fault is told. -/
def Tells (x : Leaf α) : Prop :=
  ∀ e, x = .error e → e.1.Told

theorem tells_ok (a : α) : Tells (.ok a) :=
  nofun

theorem tells_error {fault : JsonFault} {place : Bytes} (h : fault.Told) :
    Tells (.error (fault, place) : Leaf α) := by
  rintro _ ⟨⟩
  exact h

theorem Tells.bind {x : Leaf α} {f : α → Leaf β} (hx : Tells x) (hf : ∀ a, Tells (f a)) :
    Tells (x >>= f) := by
  cases x with
  | ok a => exact hf a
  | error e =>
    rintro _ ⟨⟩
    exact hx e rfl

/-- What stands at a place is shown by a visible character, or by its number. -/
@[simp]
theorem isLine_describe (b : UInt8) : IsLine (describe b) := by
  rw [describe]
  split
  · next hvisible =>
    have hfeed : Char.ofUInt8 b ≠ '\n' := by
      rw [Ne, ofUInt8_eq_iff (by decide)]
      rintro rfl
      exact absurd hvisible (by decide)
    simpa [IsLine] using hfeed.symm
  · simp [IsLine]

theorem told_unexpected {expected : String} (h : IsLine expected) (place : Bytes) :
    (unexpected expected place).Told := by
  cases place with
  | nil => trivial
  | cons b rest => exact ⟨isLine_describe b, h⟩

/-! ### Strings -/

theorem tells_readUnit (escape s : Bytes) : Tells (readUnit escape s) := by
  unfold readUnit
  split
  · split
    · exact tells_ok _
    · exact tells_error trivial
  · exact tells_error trivial

theorem tells_loneSurrogate {unit : Nat} {escape : Bytes} (h : rest.length < escape.length) :
    Tells (loneSurrogate o unit escape rest h) := by
  unfold loneSurrogate
  split
  · exact tells_ok _
  · have hdetail : IsLine ("unpaired surrogate \\u" ++ (hexNumber 4 unit).toUpper) := by
      simp [IsLine, (isLine_hexNumber 4 unit).toUpper]
    exact tells_error hdetail

theorem tells_readNumbered {escape digits : Bytes} (h : digits.length < escape.length) :
    Tells (readNumbered o escape digits h) := by
  unfold readNumbered
  refine (tells_readUnit _ _).bind fun first => ?_
  by_cases hhigh : isHighSurrogate first.value = true
  · rw [if_pos hhigh]
    intro e he
    obtain ⟨more, hmore, he⟩ | ⟨-, he⟩ := (match_after afterNumbered? (P := (· = _))).1 he
    · refine (tells_readUnit _ _).bind (fun second => ?_) e he
      split
      · split
        · exact tells_ok _
        · exact tells_loneSurrogate _
      · exact tells_loneSurrogate _
    · exact tells_loneSurrogate _ e he
  · rw [if_neg hhigh]
    split
    · exact tells_ok _
    · exact tells_loneSurrogate _

theorem tells_readEscape (s : Bytes) : Tells (readEscape o s) := by
  unfold readEscape
  split
  · split
    · exact tells_ok _
    · split
      · exact tells_readNumbered _
      · exact tells_error trivial
  · exact tells_error trivial
  · exact tells_error trivial

theorem tells_readPlain (b : UInt8) (rest : Bytes) : Tells (readPlain o b rest) := by
  unfold readPlain
  split
  · split
    · exact tells_ok _
    · exact tells_error trivial
  · split
    · exact tells_ok _
    · split
      · exact tells_ok _
      · have hdetail :
            IsLine ("invalid UTF-8 sequence starting with byte 0x" ++ hexNumber 2 b.toNat) := by
          simp [IsLine]
        exact tells_error hdetail

theorem tells_readTextFrom {front : List Char} (h : s.length ≤ start.length) :
    Tells (readTextFrom o start front s h) := by
  -- On the characters of the string.
  induction hlength : s.length using Nat.strong_induction_on generalizing s front with
  | _ n ih =>
  rw [readTextFrom.eq_def]
  cases s with
  | nil => exact tells_error trivial
  | cons b rest =>
  dsimp only
  split
  · exact tells_ok _
  have hcharacter : Tells (if Char.ofUInt8 b = '\\' then readEscape o (b :: rest)
      else readPlain o b rest) := by
    split
    · exact tells_readEscape _
    · exact tells_readPlain b rest
  split
  · next e he =>
    rintro _ ⟨⟩
    exact hcharacter e he
  · next r hr => exact ih _ (hlength ▸ r.shorter) _ rfl

theorem tells_readText (s : Bytes) : Tells (readText o s) :=
  tells_readTextFrom _

/-! ### Numbers -/

/-- From `s` on to `rest` there is no line feed. -/
def Passes (s rest : Bytes) : Prop :=
  ∃ front, s = front ++ rest ∧ '\n'.toUInt8 ∉ front

theorem Passes.trans (h : Passes s t) (h' : Passes t rest) : Passes s rest := by
  obtain ⟨front, rfl, hfront⟩ := h
  obtain ⟨front', rfl, hfront'⟩ := h'
  exact ⟨front ++ front', (List.append_assoc _ _ _).symm, by simp [hfront, hfront']⟩

theorem Passes.isLine_excerpt (h : Passes s rest) : IsLine (excerpt s rest) := by
  obtain ⟨front, rfl, hfront⟩ := h
  have hshown : excerpt (front ++ rest) rest = .ofList (Utf8.decodeLossy front) := by
    rw [excerpt, List.length_append, Nat.add_sub_cancel, List.take_left]
  rw [hshown, IsLine, String.toList_ofList]
  exact Utf8.not_mem_decodeLossy hfront

theorem passes_dropMinus (s : Bytes) : Passes s (dropMinus s) := by
  refine ⟨_, minus_dropMinus s, ?_⟩
  unfold minus
  split <;> decide

theorem passes_digits (s : Bytes) : Passes s (s.dropWhile isDigit) := by
  refine ⟨s.takeWhile isDigit, List.takeWhile_append_dropWhile.symm, fun hfeed => ?_⟩
  exact absurd (List.mem_takeWhile_imp hfeed) (by decide)

theorem passes_readSign (s : Bytes) : Passes s (readSign s).2 := by
  obtain ⟨sign, hsign, hs⟩ := exponentSign_readSign s
  refine ⟨sign, hs, ?_⟩
  generalize (readSign s).1 = negative at hsign
  cases hsign <;> decide

theorem passes_point (h : after? '.' s = some rest) : Passes s rest :=
  ⟨[_], eq_cons_of_after? (by decide) h, by decide⟩

theorem passes_exponentMark (h : afterExponentMark? s = some rest) : Passes s rest := by
  obtain ⟨mark, rfl | rfl, hs⟩ := afterExponentMark?_eq_some_iff.1 h
  · exact ⟨[_], hs, by decide⟩
  · exact ⟨[_], hs, by decide⟩

theorem told_malformed (h : Passes start rest) : (malformed start rest).1.Told :=
  h.isLine_excerpt

theorem tells_readExponent {l : Literal} (hs : Passes start s) (h : s.length < start.length) :
    Tells (readExponent start l s h) := by
  unfold readExponent
  split
  · rintro _ ⟨⟩
  · next more hmark =>
    dsimp only
    split
    · rintro _ ⟨⟩
      exact told_malformed
        (((hs.trans (passes_exponentMark hmark)).trans (passes_readSign more)).trans
          (passes_digits _))
    · rintro _ ⟨⟩

theorem tells_readNumber {o : JsonOptions} (s : Bytes) : Tells (readNumber o s) := by
  -- A malformed number is shown from its start on, and none of its parts holds a line feed.
  have hwhole : Passes s ((dropMinus s).dropWhile isDigit) :=
    (passes_dropMinus s).trans (passes_digits _)
  intro e he
  unfold readNumber at he
  dsimp only at he
  split at he
  · cases he
    trivial
  split at he
  · split at he
    · cases he
      exact told_malformed hwhole
    · exact tells_readExponent hwhole _ e he
  · next more hpoint =>
    have hfraction := (hwhole.trans (passes_point hpoint)).trans (passes_digits more)
    split at he
    · cases he
      exact told_malformed hfraction
    · exact tells_readExponent hfraction _ e he

/-! ### Values -/

/-- Every stop has a fault that is told. -/
def Stops (x : Except Stop α) : Prop :=
  ∀ stop, x = .error stop → stop.fault.Told

theorem stops_stop {expected : String} (h : IsLine expected) (path : List Key) (place : Bytes) :
    Stops (stop expected path place : Except Stop α) := by
  rintro _ ⟨⟩
  exact told_unexpected h place

theorem Tells.stops {x : Leaf α} (h : Tells x) (path : List Key) : Stops (Leaf.under path x) := by
  cases x with
  | ok a => rintro _ ⟨⟩
  | error e =>
    rintro _ ⟨⟩
    exact h e rfl

theorem Stops.map {x : Except Stop α} (h : Stops x) (f : α → β) : Stops (x.map f) := by
  cases x with
  | ok a => rintro _ ⟨⟩
  | error e =>
    rintro _ ⟨⟩
    exact h e rfl

theorem stops_readName (first : Char) (others : List Char) (value : Value) (path : List Key)
    (s : Bytes) : Stops (readName first others value path s) := by
  unfold readName
  split
  · rintro _ ⟨⟩
  · exact stops_stop (by simp [IsLine]) path s

theorem stops_readItems {site : Site} {index : Nat} {items : List Value}
    (hvalues : ∀ t, t.length < start.length → ∀ site, Stops (readValue o site t))
    (h : s.length < start.length) : Stops (readItems o site start index items s h) := by
  -- On what is left of the array; its values are read from less than the array itself.
  induction hlength : s.length using Nat.strong_induction_on generalizing s index items with
  | _ n ih =>
  rw [readItems]
  have hblank := Nat.lt_of_le_of_lt (length_skipBlanks_le s) h
  split
  · next e he =>
    rintro _ ⟨⟩
    exact hvalues _ hblank _ e he
  dsimp only
  split
  · next r hr more hcomma =>
    refine ih _ ?_ _ rfl
    have := lt_of_after? hcomma
    have := length_skipBlanks_le r.rest
    have := length_skipBlanks_le s
    have := r.shorter
    omega
  · split
    · rintro _ ⟨⟩
    · exact stops_stop (by simp [IsLine]) _ _

theorem stops_readMembers {site : Site} {members : Members}
    (hvalues : ∀ t, t.length < start.length → ∀ site, Stops (readValue o site t))
    (h : s.length < start.length) : Stops (readMembers o site start members s h) := by
  induction hlength : s.length using Nat.strong_induction_on generalizing s members with
  | _ n ih =>
  rw [readMembers]
  dsimp only
  split
  · exact stops_stop (by simp [IsLine]) _ _
  next s₂ hquote =>
  split
  · next e he =>
    rintro _ ⟨⟩
    exact (tells_readText s₂).stops _ e he
  next name hname =>
  split
  · exact stops_stop (by simp [IsLine]) _ _
  next s₄ hcolon =>
  split
  · rintro _ ⟨⟩
    trivial
  have hvalue : (skipBlanks s₄).length < s.length := by
    have := lt_of_after? hquote
    have := lt_of_after? hcolon
    have := name.shorter
    have := length_skipBlanks_le s
    have := length_skipBlanks_le name.rest
    have := length_skipBlanks_le s₄
    omega
  split
  · next e he =>
    rintro _ ⟨⟩
    exact hvalues _ (Nat.lt_trans hvalue h) _ e he
  next r hr =>
  split
  · next more hcomma =>
    refine ih _ ?_ _ rfl
    have := lt_of_after? hcomma
    have := length_skipBlanks_le r.rest
    have := r.shorter
    omega
  · split
    · rintro _ ⟨⟩
    · exact stops_stop (by simp [IsLine]) _ _

theorem stops_readValue (site : Site) (s : Bytes) : Stops (readValue o site s) := by
  -- Objects and arrays ask for values of shorter inputs only, and so one induction serves both.
  induction hlength : s.length using Nat.strong_induction_on generalizing s site with
  | _ n ih =>
  have hvalues : ∀ t, t.length < s.length → ∀ site, Stops (readValue o site t) :=
    fun t ht site => ih _ (hlength ▸ ht) site t rfl
  rw [readValue.eq_def]
  split
  · exact stops_stop (by simp [IsLine]) _ _
  · split
    · split
      · rintro _ ⟨⟩
        trivial
      · split
        · rintro _ ⟨⟩
        · exact stops_readMembers hvalues _
    · split
      · rintro _ ⟨⟩
        trivial
      · split
        · rintro _ ⟨⟩
        · exact stops_readItems hvalues _
    · exact ((tells_readText _).stops _).map _
    · exact stops_readName _ _ _ _ _
    · exact stops_readName _ _ _ _ _
    · exact stops_readName _ _ _ _ _
    · split
      · exact ((tells_readNumber _).stops _).map _
      · exact stops_stop (by simp [IsLine]) _ _

theorem stops_readTextOf (s : Bytes) : Stops (readTextOf o s) := by
  unfold readTextOf
  dsimp only
  split
  · rintro _ ⟨⟩
    trivial
  · split
    · next e he =>
      rintro _ ⟨⟩
      exact stops_readValue _ _ e he
    · split
      · rintro _ ⟨⟩
      · rintro _ ⟨⟩
        trivial

/-- Whatever a text holds, under any rules, what is said of it is told. -/
theorem told_of_read_error {e : JsonError} (h : read o s = .error e) : e.fault.Told := by
  unfold read at h
  split at h
  · cases h
  · next stop hstop =>
    cases h
    exact stops_readTextOf s stop hstop

end Json

/-! ## YAML texts -/

/-- What a fault shows as it is stands on one line. -/
def YamlFault.Told : YamlFault → Prop
  | invalidEscape sequence => IsLine sequence
  | _ => True

theorem YamlFault.isLine_message {fault : YamlFault} (h : fault.Told) : IsLine fault.message := by
  unfold message
  cases fault with
  | invalidEscape sequence =>
    have hsequence : IsLine sequence := h
    simp [IsLine, toString, hsequence]
  | _ => simp [IsLine, toString]

namespace Yaml

variable {line column opened place : Nat} {cs front l quoted text : List Char} {mode : Mode}
  {found : List Token} {fault : YamlFault} {e : YamlError}

/-! ### Lines -/

theorem told_of_readContent {at' : YamlFault × Nat}
    (h : readContent mode front column cs = .error at') : at'.1.Told := by
  fun_induction readContent mode front column cs with
  | case1 | case3 | case8 =>
    cases h
    trivial
  | case2 | case6 | case7 => cases h
  | case4 front column opened d rest ih => exact ih h
  | case5 front column opened c d rest hslash ih => exact ih h
  | case9 front column mode c rest _ _ hcomment htab next ih => exact ih h

theorem told_of_readLine {at' : YamlFault × Nat}
    (h : readLine line found column cs = .error at') : at'.1.Told := by
  fun_induction readLine line found column cs with
  | case1 | case2 => cases h
  | case3 =>
    cases h
    trivial
  | case4 found column rest hapart found₁ hle next column₁ c hhash htab hhead ih => exact ih h
  | case5 | case6 => exact told_of_readContent (of_map_error h)

theorem told_of_lineTokens (h : lineTokens line found l = .error e) : e.fault.Told := by
  rw [lineTokens_eq] at h
  split at h
  · cases h
  · cases h
  split at h
  · cases h
    trivial
  dsimp only at h
  split at h
  · cases h
    trivial
  split at h
  · cases h
    trivial
  split at h
  · cases h
  · next hread =>
    cases h
    exact told_of_readLine hread

theorem told_of_tokens (h : tokens cs = .error e) : e.fault.Told := by
  have hfrom : ∀ line found rows, tokensFrom line found rows = .error e → e.fault.Told := by
    intro line found rows h
    fun_induction tokensFrom line found rows with
    | case1 => cases h
    | case2 line found l rest found' hline ih => exact ih h
    | case3 line found l rest e' hline =>
      cases h
      exact told_of_lineTokens hline
  exact hfrom 0 [] (lines cs) (of_map_error h)

/-! ### Quoted texts -/

theorem told_of_readQuotedFrom {at' : YamlFault × Nat} (hcs : '\n' ∉ cs)
    (h : readQuotedFrom opened column front cs = .error at') : at'.1.Told := by
  fun_induction readQuotedFrom opened column front cs with
  | case1 | case6 =>
    cases h
    trivial
  | case2 => cases h
  | case3 column front code rest c hc ih =>
    exact ih (fun hmem => hcs (List.mem_cons_of_mem _ (List.mem_cons_of_mem _ hmem))) h
  | case4 column front code rest hcode width c hc ih =>
    refine ih (fun hmem => hcs ?_) h
    exact List.mem_cons_of_mem _ (List.mem_cons_of_mem _ (List.mem_of_mem_drop hmem))
  | case5 column front code rest hcode width hnumbered =>
    cases h
    have hsequence : '\n' ∉ '\\' :: code :: rest.take width := fun hmem =>
      hcs ((((rest.take_sublist width).cons_cons code).cons_cons '\\').subset hmem)
    simpa [YamlFault.Told, IsLine] using hsequence
  | case7 column front c rest hquote hescape hlast ih =>
    exact ih (fun hmem => hcs (List.mem_cons_of_mem _ hmem)) h

/-- No quoted text of a content reaches behind its line. -/
theorem not_mem_of_opens {t : Token} (hon : TokenOn l t) (hl : '\n' ∉ l)
    (htext : t.lexeme = .content text) (hopens : Opens t.column text quoted) : '\n' ∉ quoted := by
  obtain ⟨lexeme, line, column⟩ := t
  obtain rfl : lexeme = .content text := htext
  obtain ⟨tail, hdrop, hcut⟩ := cut_of_tokenOn hon
  have htext : '\n' ∉ text := fun hmem =>
    hl (List.mem_of_mem_drop (hdrop ▸ List.mem_append_left tail hmem))
  cases hopens with
  | first h =>
    subst h
    exact fun hmem => htext (List.mem_cons_of_mem _ hmem)
  | value hentry hvalue =>
    obtain ⟨front, -, rfl, -⟩ := ready_of_value hcut hentry hvalue
    exact fun hmem => htext (List.mem_append_right _ (List.mem_cons_of_mem _ hmem))

/-! ### Texts -/

theorem told_of_readText (h : readText cs = .error e) : e.fault.Told := by
  rcases readText_cause h with htokens | ⟨ts, htokens, hcause⟩
  · exact told_of_tokens htokens
  -- Only in a quoted text is something shown as it is, and it stands on the line of its token.
  by_cases hquotes : e.fault.OfQuotes
  · obtain ⟨t, ht, text, quoted, column, place, htext, hopens, hread⟩ :=
      quoted_of_cause hcause hquotes
    obtain ⟨l, hl, hon⟩ := tokenOn_of_tokens htokens t ht
    have hline := not_mem_of_mem_lines (List.mem_of_getElem? hl)
    exact told_of_readQuotedFrom (not_mem_of_opens hon hline htext hopens) hread
  · cases hfault : e.fault with
    | invalidEscape sequence => exact absurd (hfault ▸ trivial) hquotes
    | _ => trivial

/-- Whatever a text holds, what is said of it stays on one line. -/
theorem isLine_of_parse_error {s : Bytes} (h : parse s = .error e) : IsLine e.message := by
  have htold : e.fault.Told := by
    unfold parse read at h
    split at h
    · cases h
      trivial
    · exact told_of_readText (of_map_error h)
  unfold YamlError.message
  simp [IsLine, toString, YamlFault.isLine_message htold]

end Yaml

end PackageAudit
