import Mathlib.Data.Bool.AllAny
import PackageAudit.Proofs.Document.NumberText
import PackageAudit.Proofs.Document.Value
import PackageAudit.Proofs.Document.Yaml.Numeral

/-!
# Proofs.Document.Yaml.Content — contents as a printer writes them

* `Yaml.readQuoted_quoteChars` — a quoted text is read back as the text;
* `Yaml.readContent_quoteChars` — on its line it ends at its closing quote;
* `Yaml.Bare` — words and their negatives, which are written without quotes;
* `Yaml.Flat` — a text that stands for a value wherever it is the content of a line;
* `Yaml.flat_render` — the texts of scalars and of empty arrays and objects;
* `Yaml.splitEntry_quoteChars` — an entry with its key in quotes.
-/

namespace PackageAudit

namespace Value

/-- Scalars and empty collections, which are written on one line. -/
def isFlat : Value → Bool
  | array (_ :: _) => false
  | object (_ :: _) _ => false
  | _ => true

/-- An integer of 64 bits. -/
def IsInteger : Number → Prop
  | .int n => Json.Fits n
  | .float _ => False

end Value

namespace Yaml

open Json (escapeChar quoteChars hexDigit Fits DigitChars)

variable {column opened : Nat} {front cs rest text : List Char} {c d : Char}

/-! ## Quoted texts -/

section Quoted

theorem readQuotedFrom_short (h : shortEscape? d = some c) :
    readQuotedFrom opened column front ('\\' :: d :: rest) =
      readQuotedFrom opened (column + 2) (c :: front) rest := by
  rw [readQuotedFrom, h]

theorem readQuotedFrom_numbered (hshort : shortEscape? d = none)
    (h : numbered? (escapeWidth d) (rest.take (escapeWidth d)) = some c) :
    readQuotedFrom opened column front ('\\' :: d :: rest) =
      readQuotedFrom opened (column + 2 + escapeWidth d) (c :: front)
        (rest.drop (escapeWidth d)) := by
  rw [readQuotedFrom, hshort]
  dsimp only
  rw [h]

theorem readQuotedFrom_plain (hquote : c ≠ '"') (hslash : c ≠ '\\') :
    readQuotedFrom opened column front (c :: rest) =
      readQuotedFrom opened (column + 1) (c :: front) rest := by
  rw [readQuotedFrom.eq_def]
  split
  · next h => cases h
  · next h => exact absurd (List.cons.inj h).1 hquote
  · next h => exact absurd (List.cons.inj h).1 hslash
  · next h => exact absurd (List.cons.inj h).1 hslash
  · next h =>
    cases h
    rfl

theorem numbered?_hexDigit (h : c.toNat < 0x20) :
    numbered? 4 ['0', '0', hexDigit (c.toNat / 16), hexDigit (c.toNat % 16)] = some c := by
  have hall : ∀ n < 0x20,
      numbered? 4 ['0', '0', hexDigit (n / 16), hexDigit (n % 16)] = some (Char.ofNat n) := by
    decide
  rw [hall _ h, Char.ofNat_toNat]

/-- A character is read back from its spelling. -/
theorem readQuotedFrom_escapeChar (opened column : Nat) (front rest : List Char) (c : Char) :
    ∃ column', readQuotedFrom opened column front (escapeChar c ++ rest) =
      readQuotedFrom opened column' (c :: front) rest := by
  unfold escapeChar
  split
  case h_8 hquote hslash _ _ _ _ _ =>
    split
    · next hlow =>
      exact ⟨column + 2 + 4, readQuotedFrom_numbered rfl (numbered?_hexDigit hlow)⟩
    · exact ⟨column + 1, readQuotedFrom_plain hquote hslash⟩
  all_goals exact ⟨column + 2, readQuotedFrom_short rfl⟩

theorem readQuotedFrom_flatMap (opened column : Nat) (front cs rest : List Char) :
    readQuotedFrom opened column front (cs.flatMap escapeChar ++ '"' :: rest) =
      .ok (.ofList (front.reverse ++ cs), rest) := by
  induction cs generalizing column front with
  | nil =>
    rw [List.append_nil, List.flatMap_nil, List.nil_append, readQuotedFrom]
  | cons c cs ih =>
    rw [List.flatMap_cons, List.append_assoc]
    obtain ⟨column', h⟩ := readQuotedFrom_escapeChar opened column front _ c
    rw [h, ih, List.reverse_cons, List.append_assoc, List.singleton_append]

/-- A quoted text is read back as the text, up to its closing quote. -/
theorem readQuoted_quoteChars (column : Nat) (cs rest : List Char) :
    readQuoted column (cs.flatMap escapeChar ++ '"' :: rest) = .ok (.ofList cs, rest) :=
  readQuotedFrom_flatMap column (column + 1) [] cs rest

/-! ## Quotes on a line -/

theorem readContent_open :
    readContent .ready front column ('"' :: rest) =
      readContent (.quoted column) ('"' :: front) (column + 1) rest := by
  rw [readContent.eq_def]
  dsimp only
  rw [if_neg fun h => absurd h.1 (by decide), if_neg (by decide)]
  rfl

theorem readContent_escape :
    readContent (.quoted opened) front column ('\\' :: d :: rest) =
      readContent (.quoted opened) (d :: '\\' :: front) (column + 2) rest := by
  rw [readContent.eq_def]
  rfl

theorem readContent_inside (hquote : c ≠ '"') (hslash : c ≠ '\\') :
    readContent (.quoted opened) front column (c :: d :: rest) =
      readContent (.quoted opened) (c :: front) (column + 1) (d :: rest) := by
  rw [readContent.eq_def]
  dsimp only
  rw [if_neg hslash, if_neg hquote]

theorem readContent_close :
    readContent (.quoted opened) front column ('"' :: rest) =
      readContent .plain ('"' :: front) (column + 1) rest := by
  rw [readContent.eq_def]
  cases rest with
  | nil =>
    rw [readContent.eq_def]
    rfl
  | cons d rest => rfl

/-- The spelling of a character keeps within its quotes. -/
theorem readContent_escapeChar (opened column : Nat) (front rest : List Char) (c d : Char) :
    ∃ column', readContent (.quoted opened) front column (escapeChar c ++ d :: rest) =
      readContent (.quoted opened) ((escapeChar c).reverse ++ front) column' (d :: rest) := by
  have hhex : ∀ n < 0x10, hexDigit n ≠ '"' ∧ hexDigit n ≠ '\\' := by decide
  -- The last case is that of characters without a short escape, which are numbered if they are low.
  unfold escapeChar
  split
  case h_8 hquote hslash _ _ _ _ _ =>
    split
    · next hlow =>
      obtain ⟨hhigh, hhigh'⟩ := hhex (c.toNat / 16) (by omega)
      obtain ⟨hlow, hlow'⟩ := hhex (c.toNat % 16) (by omega)
      simp only [List.cons_append, List.nil_append]
      exact ⟨_, by
        rw [readContent_escape, readContent_inside (by decide) (by decide),
          readContent_inside (by decide) (by decide), readContent_inside hhigh hhigh',
          readContent_inside hlow hlow']
        rfl⟩
    · exact ⟨column + 1, readContent_inside hquote hslash⟩
  all_goals exact ⟨column + 2, readContent_escape⟩

theorem readContent_flatMap (opened column : Nat) (front cs rest : List Char) :
    ∃ column', readContent (.quoted opened) front column (cs.flatMap escapeChar ++ '"' :: rest) =
      readContent .plain ('"' :: ((cs.flatMap escapeChar).reverse ++ front)) column' rest := by
  induction cs generalizing column front with
  | nil => exact ⟨column + 1, readContent_close⟩
  | cons c cs ih =>
    rw [List.flatMap_cons, List.append_assoc]
    -- What follows the first character begins with the next one or with the closing quote.
    obtain ⟨d, more, hmore⟩ : ∃ d more, cs.flatMap escapeChar ++ '"' :: rest = d :: more :=
      List.exists_cons_of_ne_nil (List.append_ne_nil_of_right_ne_nil _ (List.cons_ne_nil _ _))
    obtain ⟨column₁, h₁⟩ := readContent_escapeChar opened column front more c d
    obtain ⟨column₂, h₂⟩ := ih column₁ ((escapeChar c).reverse ++ front)
    refine ⟨column₂, ?_⟩
    rw [hmore, h₁, ← hmore, h₂, List.reverse_append, List.append_assoc]

theorem quoteChars_append (cs rest : List Char) :
    quoteChars cs ++ rest = '"' :: (cs.flatMap escapeChar ++ '"' :: rest) := by
  rw [quoteChars, List.cons_append, List.append_assoc, List.singleton_append]

/-- A quoted text ends at its closing quote. -/
theorem readContent_quoteChars (column : Nat) (front cs rest : List Char) :
    ∃ column', readContent .ready front column (quoteChars cs ++ rest) =
      readContent .plain ((quoteChars cs).reverse ++ front) column' rest := by
  obtain ⟨column', h⟩ := readContent_flatMap column (column + 1) ('"' :: front) cs rest
  refine ⟨column', ?_⟩
  rw [quoteChars_append, readContent_open, h, quoteChars, List.reverse_cons, List.reverse_append,
    List.reverse_singleton, List.append_assoc, List.append_assoc]
  rfl

end Quoted

/-! ## Blanks and colons -/

theorem readContent_blank :
    readContent .ready front column (' ' :: rest) =
      readContent .ready (' ' :: front) (column + 1) rest := by
  rw [readContent.eq_def]
  dsimp only
  rw [if_neg fun h => absurd h.1 (by decide), if_neg (by decide)]
  rfl

theorem readContent_blanks (column n : Nat) (front rest : List Char) :
    ∃ column', readContent .ready front column (List.replicate n ' ' ++ rest) =
      readContent .ready (List.replicate n ' ' ++ front) column' rest := by
  induction n generalizing column front with
  | zero => exact ⟨column, rfl⟩
  | succ n ih =>
    obtain ⟨column', h⟩ := ih (column + 1) (' ' :: front)
    refine ⟨column', ?_⟩
    rw [List.replicate_succ, List.cons_append, readContent_blank, h, List.append_cons,
      ← List.replicate_succ', List.replicate_succ]

/-- Behind a colon that ends a key a scalar may start. -/
theorem readContent_colon (h : rest.head?.all (· == ' ') = true) :
    readContent .plain front column (':' :: rest) =
      readContent .ready (':' :: front) (column + 1) rest := by
  rw [readContent.eq_def]
  dsimp only
  rw [if_neg fun h => absurd h.1 (by decide), if_neg (by decide), if_pos h]
  rfl

/-! ## Ends of lines -/

theorem not_quoted_of_ready : ∀ c, Mode.ready ≠ .quoted c := fun _ h => nomatch h

theorem not_quoted_of_plain : ∀ c, Mode.plain ≠ .quoted c := fun _ h => nomatch h

theorem dropWhile_blank (hc : c ≠ ' ') : (c :: cs).dropWhile (· == ' ') = c :: cs :=
  List.dropWhile_cons_of_neg fun h => hc (eq_of_beq h)

theorem readContent_nil {mode : Mode} (hmode : ∀ c, mode ≠ .quoted c) (hc : c ≠ ' ') :
    readContent mode (c :: front) column [] = .ok (c :: front).reverse := by
  rw [readContent_plain (c :: front) column hmode List.not_mem_nil List.not_mem_nil
    List.not_mem_nil, List.reverse_nil, List.nil_append, dropWhile_blank hc]

/-- Without comments, tabs and quotes, and without a blank at the end, nothing is dropped. -/
theorem readContent_unquoted (hlast : cs.getLast? = some c) (hc : c ≠ ' ') (hhash : '#' ∉ cs)
    (htab : '\t' ∉ cs) (hquote : '"' ∉ cs) :
    readContent .ready front column cs = .ok (front.reverse ++ cs) := by
  rw [readContent_plain front column not_quoted_of_ready hhash htab hquote]
  obtain ⟨init, rfl⟩ := List.getLast?_eq_some_iff.1 hlast
  rw [List.reverse_append, List.reverse_singleton, List.singleton_append, List.cons_append,
    dropWhile_blank hc, List.reverse_cons, List.reverse_append, List.reverse_reverse,
    List.append_assoc]

/-! ## Scalars and empty collections -/

/-- A text that shows at the beginning of a line: no blank, comment, mark or break is in the way. -/
structure Visible (text : List Char) : Prop where
  head : ∃ c rest, text = c :: rest ∧ c ∉ [' ', '\t', '#', '%', '\uFEFF']
  noMarker : isMarker text = false
  unbroken : '\n' ∉ text ∧ '\r' ∉ text

/-- A text that stands for a value wherever it is the content of a line. -/
structure Flat (text : List Char) (v : Value) : Prop extends Visible text where
  noDash : ∀ rest, text = '-' :: rest → isApart rest = false
  content : ∀ front column, readContent .ready front column text = .ok (front.reverse ++ text)
  noEntry : ∀ column, splitEntry column text = .ok none
  scalar : ∀ column, scalar column text = .ok v

/-- Words and their negatives. -/
inductive Bare : List Char → Prop where
  | word {w : List Char} (hw : Word w) : Bare w
  | minus {w : List Char} (hw : Word w) : Bare ('-' :: w)

section Bare

theorem Bare.not_mem (h : Bare cs) (hd : d.isAlphanum = false) (hminus : d ≠ '-') : d ∉ cs := by
  cases h with
  | word hw => exact hw.not_mem hd
  | minus hw => exact List.not_mem_cons_of_ne_of_not_mem hminus (hw.not_mem hd)

theorem Bare.head (h : Bare cs) :
    ∃ c rest, cs = c :: rest ∧ (c.isAlphanum = true ∨ c = '-' ∧ Word rest) := by
  cases h with
  | word hw =>
    obtain ⟨c, rest, rfl, hc⟩ := hw.head
    exact ⟨c, rest, rfl, .inl hc⟩
  | minus hw => exact ⟨'-', _, rfl, .inr ⟨rfl, hw⟩⟩

theorem Bare.last (h : Bare cs) : ∃ front c, cs = front ++ [c] ∧ c.isAlphanum = true := by
  cases h with
  | word hw => exact hw.last
  | minus hw =>
    obtain ⟨front, c, rfl, hc⟩ := hw.last
    exact ⟨'-' :: front, c, rfl, hc⟩

/-- A dash in front of a word is part of it. -/
theorem Bare.noDash (h : Bare cs) (hcs : cs = '-' :: rest) : isApart rest = false := by
  obtain ⟨c, rest', rfl, hc | ⟨-, hw⟩⟩ := h.head
  · exact absurd (List.cons.inj hcs).1 (ne_of_isAlphanum (by decide) hc)
  · obtain ⟨-, rfl⟩ := List.cons.inj hcs
    obtain ⟨d, more, rfl, hd⟩ := hw.head
    have hspace : (d == ' ') = false := beq_eq_false_iff_ne.2 (ne_of_isAlphanum (by decide) hd)
    have htab : (d == '\t') = false := beq_eq_false_iff_ne.2 (ne_of_isAlphanum (by decide) hd)
    rw [isApart, List.head?_cons, Option.all_some, hspace, htab, Bool.or_false]

theorem Bare.indicatorFault? (h : Bare cs) : indicatorFault? cs = none := by
  obtain ⟨c, rest, rfl, hc | ⟨rfl, hw⟩⟩ := h.head
  · exact indicatorFault?_cons hc
  · obtain ⟨d, more, rfl, hd⟩ := hw.head
    have hspace : (d == ' ') = false := beq_eq_false_iff_ne.2 (ne_of_isAlphanum (by decide) hd)
    rw [Yaml.indicatorFault?, List.head?_cons, Option.all_some, hspace]
    rfl

theorem Bare.isMarker (h : Bare cs) : isMarker cs = false := by
  unfold Yaml.isMarker
  split
  · next rest =>
    -- The second dash would be a letter or a digit.
    obtain ⟨c, rest', hcs, hc | ⟨-, hw⟩⟩ := h.head
    · obtain ⟨rfl, -⟩ := List.cons.inj hcs
      cases hc
    · obtain ⟨-, rfl⟩ := List.cons.inj hcs
      exact absurd List.mem_cons_self (hw.not_mem (by decide))
  · next rest => exact absurd List.mem_cons_self (h.not_mem (by decide) (by decide))
  · rfl

theorem Bare.visible (h : Bare cs) : Visible cs where
  head := by
    have hmem {d : Char} := h.not_mem (d := d)
    obtain ⟨c, rest, rfl, hc⟩ := h.head
    refine ⟨c, rest, rfl, fun hd => ?_⟩
    simp only [List.mem_cons, List.not_mem_nil, or_false] at hd
    rcases hd with rfl | rfl | rfl | rfl | rfl
    all_goals exact hmem (by decide) (by decide) List.mem_cons_self
  noMarker := h.isMarker
  unbroken := ⟨h.not_mem (by decide) (by decide), h.not_mem (by decide) (by decide)⟩

theorem Bare.content (h : Bare cs) (front : List Char) (column : Nat) :
    readContent .ready front column cs = .ok (front.reverse ++ cs) := by
  have hmem {d : Char} := h.not_mem (d := d)
  obtain ⟨init, c, hcs, hc⟩ := h.last
  have hlast : cs.getLast? = some c := List.getLast?_eq_some_iff.2 ⟨init, hcs⟩
  exact readContent_unquoted hlast (ne_of_isAlphanum (by decide) hc)
    (hmem (by decide) (by decide)) (hmem (by decide) (by decide)) (hmem (by decide) (by decide))

theorem Bare.splitColon? (h : Bare cs) : splitColon? cs = none :=
  splitColonFrom_eq_none (h.not_mem (by decide) (by decide))

theorem Bare.noEntry (h : Bare cs) (column : Nat) : splitEntry column cs = .ok none := by
  unfold splitEntry
  split
  · exact absurd List.mem_cons_self (h.not_mem (by decide) (by decide))
  · have hquestion : '?' ∉ cs := h.not_mem (by decide) (by decide)
    rw [if_neg fun hhead => hquestion (List.mem_of_head? hhead.1), h.splitColon?]

theorem Bare.isEmptyFlow (h : Bare cs) {left right : Char} (hleft : left.isAlphanum = false)
    (hminus : left ≠ '-') : isEmptyFlow left right cs = false := by
  have hmem := h.not_mem hleft hminus
  obtain ⟨c, rest, rfl, -⟩ := h.head
  have hc : (c == left) = false :=
    beq_eq_false_iff_ne.2 fun hc => hmem (hc ▸ List.mem_cons_self)
  rw [Yaml.isEmptyFlow, hc, Bool.false_and, Bool.false_and]

theorem Bare.scalar (h : Bare cs) (column : Nat) :
    scalar column cs = (plainValue cs).mapError (·, column) := by
  unfold Yaml.scalar
  split
  · exact absurd List.mem_cons_self (h.not_mem (by decide) (by decide))
  · rw [h.isEmptyFlow (by decide) (by decide), h.isEmptyFlow (by decide) (by decide),
      h.indicatorFault?, h.splitColon?]
    rfl

theorem Bare.flat {v : Value} (h : Bare cs) (hv : plainValue cs = .ok v) : Flat cs v where
  toVisible := h.visible
  noDash _ := h.noDash
  content := h.content
  noEntry := h.noEntry
  scalar column := by rw [h.scalar, hv]; rfl

end Bare

/-! ## Integers -/

section Integers

/-- Digits and dashes are no name. -/
theorem namedValue?_of_numeral {text : String}
    (h : text.toList.all (fun c => c.isDigit || c == '-') = true) : namedValue? text = none := by
  unfold namedValue?
  split
  all_goals first | rfl | exact absurd h (by decide)

theorem toLower_of_isDigit (h : c.isDigit = true) : c.toLower = c := by
  have hall : ∀ n < 0x80, (Char.ofNat n).isDigit = true →
      (Char.ofNat n).toLower = Char.ofNat n := by decide
  have hc := hall c.toNat (Json.lt_of_isDigit h)
  rw [Char.ofNat_toNat] at hc
  exact hc h

theorem isAmbiguous_of_numeral {text : String}
    (h : text.toList.all (fun c => c.isDigit || c == '-') = true) : isAmbiguous text = false := by
  have hlower : text.toList.map Char.toLower = text.toList := by
    refine (List.map_congr_left fun c hc => ?_).trans (List.map_id _)
    rcases Bool.or_eq_true_iff.1 (List.all_eq_true.1 h c hc) with hdigit | hminus
    · exact toLower_of_isDigit hdigit
    · rw [eq_of_beq hminus]
      rfl
  -- There is a letter in every name, and lower case leaves digits and dashes as they are.
  have hnames : ∀ name ∈ ["null", "true", "false", ".inf", "+.inf", "-.inf", ".nan"],
      name.toList.all (fun c => c.isDigit || c == '-') = false := by decide
  rw [isAmbiguous, ← Bool.not_eq_true, List.contains_iff_mem]
  intro hmem
  have hname := hnames _ hmem
  rw [String.toList_map, hlower, h] at hname
  cases hname

theorem integer?_toDigits (negative : Bool) (n : Nat) :
    integer? negative (Nat.toDigits 10 n) = some (if negative then -(n : Int) else n) := by
  have hdigits : (Nat.toDigits 10 n).all Char.isDigit = true :=
    List.all_eq_true.2 (Json.digitChars_toDigits n)
  have hvalue : Digits.value (Nat.toDigits 10 n) = n := Nat.ofDigitChars_ten_toDigits
  rw [integer?, if_pos ⟨Nat.toDigits_ne_nil, hdigits⟩, hvalue]

theorem word_toDigits (n : Nat) : Word (Nat.toDigits 10 n) where
  ne_nil := Nat.toDigits_ne_nil
  alphanumeric c hc := HexChar.isAlphanum (.inl (Json.digitChars_toDigits n c hc))

theorem decimalNumber?_of_integer? {negative : Bool} {ds : List Char} {n : Int}
    (hsign : splitSign cs = (negative, ds)) (hinteger : integer? negative ds = some n)
    (h : Fits n) : decimalNumber? cs = some (.int n) := by
  rw [decimalNumber?, hsign]
  dsimp only
  rw [hinteger, Option.filter_some, if_pos ((Json.inRange_iff n).2 h)]

theorem number?_toString {n : Int} (h : Fits n) : number? (toString n).toList = some (.int n) := by
  rw [Json.toList_toString]
  split
  · next hn =>
    have hvalue : -(n.natAbs : Int) = n := by omega
    have hinteger : integer? true (Nat.toDigits 10 n.natAbs) = some n := by
      rw [integer?_toDigits, if_pos rfl, hvalue]
    have hsign : splitSign ('-' :: Nat.toDigits 10 n.natAbs) = (true, Nat.toDigits 10 n.natAbs) :=
      rfl
    exact decimalNumber?_of_integer? hsign hinteger h
  · next hn =>
    have hvalue : (n.natAbs : Int) = n := by omega
    have hhex : ∀ c ∈ Nat.toDigits 10 n.natAbs, HexChar c := fun c hc =>
      .inl (Json.digitChars_toDigits _ c hc)
    have hinteger : integer? false (Nat.toDigits 10 n.natAbs) = some n := by
      rw [integer?_toDigits, if_neg Bool.false_ne_true, hvalue]
    rw [List.nil_append, number?_eq_decimalNumber? hhex]
    exact decimalNumber?_of_integer? (splitSign_of_forall hhex) hinteger h

/-- An integer that fits is read back from its digits. -/
theorem plainValue_toString {n : Int} (h : Fits n) :
    plainValue (toString n).toList = .ok (.number (.int n)) := by
  have hnumeral : (toString n).toList.all (fun c => c.isDigit || c == '-') = true := by
    rw [Json.toList_toString, List.all_append, Bool.and_eq_true]
    constructor
    · split <;> rfl
    · refine List.all_eq_true.2 fun c hc => ?_
      rw [Json.digitChars_toDigits _ c hc, Bool.true_or]
  rw [plainValue, String.ofList_toList]
  rw [namedValue?_of_numeral hnumeral, isAmbiguous_of_numeral hnumeral, number?_toString h]
  rfl

theorem bare_toString (n : Int) : Bare (toString n).toList := by
  rw [Json.toList_toString]
  split
  · exact .minus (word_toDigits _)
  · exact .word (word_toDigits _)

end Integers

/-! ## Texts between quotes and brackets -/

section Enclosed

/-- Nothing between quotes is a control character. -/
theorem le_of_mem_quoteChars (h : d ∈ quoteChars cs) : 0x20 ≤ d.toNat := by
  have hhex : ∀ n < 0x10, 0x20 ≤ (hexDigit n).toNat := by decide
  have hescape (c : Char) : ∀ d ∈ escapeChar c, 0x20 ≤ d.toNat := by
    unfold escapeChar
    split
    case h_8 =>
      split
      · next hlow =>
        simp only [List.forall_mem_cons]
        have hfirst := hhex (c.toNat / 16) (by omega)
        have hsecond := hhex (c.toNat % 16) (by omega)
        exact ⟨by decide, by decide, by decide, by decide, hfirst, hsecond, nofun⟩
      · next hhigh => exact List.forall_mem_singleton.2 (Nat.le_of_not_lt hhigh)
    all_goals exact List.all_iff_forall_prop.1 (by decide)
  rw [quoteChars, List.mem_cons, List.mem_append, List.mem_flatMap, List.mem_singleton] at h
  rcases h with rfl | ⟨c, -, hd⟩ | rfl
  · decide
  · exact hescape c d hd
  · decide

theorem unbroken_quoteChars (cs : List Char) : '\n' ∉ quoteChars cs ∧ '\r' ∉ quoteChars cs := by
  constructor
  all_goals exact fun h => absurd (le_of_mem_quoteChars h) (by decide)

theorem visible_quoteChars (hrest : '\n' ∉ rest ∧ '\r' ∉ rest) (cs : List Char) :
    Visible (quoteChars cs ++ rest) where
  head := ⟨'"', _, rfl, by decide⟩
  noMarker := rfl
  unbroken := by
    obtain ⟨hfeed, hreturn⟩ := unbroken_quoteChars cs
    exact ⟨List.not_mem_append hfeed hrest.1, List.not_mem_append hreturn hrest.2⟩

theorem flat_quoteChars (cs : List Char) : Flat (quoteChars cs) (.string (.ofList cs)) where
  toVisible :=
    List.append_nil (quoteChars cs) ▸ visible_quoteChars ⟨List.not_mem_nil, List.not_mem_nil⟩ cs
  noDash rest h := by cases (List.cons.inj h).1
  content front column := by
    obtain ⟨column', h⟩ := readContent_quoteChars column front cs []
    rw [List.append_nil] at h
    have hquotes : (quoteChars cs).reverse ++ front =
        '"' :: ((cs.flatMap escapeChar).reverse ++ '"' :: front) := by
      rw [quoteChars, List.reverse_cons, List.reverse_append, List.append_assoc, List.append_assoc]
      rfl
    rw [h, hquotes, readContent_nil not_quoted_of_plain (by decide), ← hquotes, List.reverse_append,
      List.reverse_reverse]
  noEntry column := by
    rw [← List.append_nil (quoteChars cs), quoteChars_append, splitEntry, quotedEntry?,
      readQuoted_quoteChars]
    rfl
  scalar column := by
    rw [← List.append_nil (quoteChars cs), quoteChars_append, Yaml.scalar, readQuoted_quoteChars]

theorem flat_brackets : Flat ['[', ']'] (.array []) where
  head := ⟨'[', _, rfl, by decide⟩
  noMarker := rfl
  unbroken := by decide
  noDash rest h := by cases (List.cons.inj h).1
  content _ _ :=
    readContent_unquoted rfl (by decide) (by decide) (by decide) (by decide)
  noEntry column := rfl
  scalar column := rfl

theorem flat_braces : Flat ['\x7b', '\x7d'] (.object [] []) where
  head := ⟨'\x7b', _, rfl, by decide⟩
  noMarker := rfl
  unbroken := by decide
  noDash rest h := by cases (List.cons.inj h).1
  content _ _ :=
    readContent_unquoted rfl (by decide) (by decide) (by decide) (by decide)
  noEntry column := rfl
  scalar column := rfl

end Enclosed

/-! ## Texts of values -/

theorem flat_render {v : Value} (hflat : v.isFlat = true)
    (hnumbers : v.AllNumbers Value.IsInteger) : Flat v.render.toList v.current := by
  have hword {w : List Char} {u : Value} (hne : w ≠ []) (halphanum : w.all Char.isAlphanum = true)
      (hu : plainValue w = .ok u) : Flat w u :=
    (Bare.word ⟨hne, List.all_eq_true.1 halphanum⟩).flat hu
  cases v with
  | null => exact hword (by decide) (by decide) rfl
  | bool b =>
    cases b with
    | true => exact hword (by decide) (by decide) rfl
    | false => exact hword (by decide) (by decide) rfl
  | number n =>
    cases n with
    | int n => exact (bare_toString n).flat (plainValue_toString hnumbers)
    | float x => cases hnumbers
  | string s =>
    have hs := flat_quoteChars s.toList
    rw [String.ofList_toList] at hs
    rwa [Value.render, Json.quote, String.toList_ofList]
  | array items =>
    cases items with
    | nil => exact flat_brackets
    | cons v vs => cases hflat
  | object members replaced =>
    cases members with
    | nil =>
      rw [Value.render, Value.current]
      exact flat_braces
    | cons m ms => cases hflat

/-! ## Entries with quoted keys -/

section Entries

theorem splitEntry_quoteChars (column : Nat) (cs : List Char)
    (h : rest.head?.all (· == ' ') = true) :
    ∃ column', splitEntry column (quoteChars cs ++ ':' :: rest) =
      .ok (some ⟨.ofList cs, entryValue? column' rest⟩) := by
  refine ⟨column + ((quoteChars cs ++ ':' :: rest).length - rest.length), ?_⟩
  have hcolon : (':' :: rest).dropWhile (· == ' ') = ':' :: rest := dropWhile_blank (by decide)
  rw [quoteChars_append, splitEntry, quotedEntry?, readQuoted_quoteChars]
  simp only [bind, Except.bind, hcolon, h, if_true]
  rfl

theorem head?_blanks (n : Nat) (text : List Char) :
    (List.replicate (n + 1) ' ' ++ text).head?.all (· == ' ') = true :=
  rfl

/-- Behind the blanks stands the value. -/
theorem entryValue?_blanks (column n : Nat) (h : Visible text) :
    ∃ column', entryValue? column (List.replicate n ' ' ++ text) = some (text, column') := by
  obtain ⟨c, more, rfl, hc⟩ := h.head
  have hdrop : (List.replicate n ' ' ++ c :: more).dropWhile (· == ' ') = c :: more := by
    rw [List.dropWhile_append_of_pos fun d hd => beq_iff_eq.2 (List.eq_of_mem_replicate hd)]
    exact dropWhile_blank fun h => hc (h ▸ List.mem_cons_self)
  rw [entryValue?, hdrop]
  exact ⟨_, rfl⟩

/-- A key without a value fills its line. -/
theorem readContent_key (column : Nat) (cs : List Char) :
    readContent .ready [] column (quoteChars cs ++ [':']) = .ok (quoteChars cs ++ [':']) := by
  obtain ⟨column', h⟩ := readContent_quoteChars column [] cs [':']
  rw [h, readContent_colon rfl, readContent_nil not_quoted_of_ready (by decide), List.append_nil,
    List.reverse_cons, List.reverse_reverse]

theorem readContent_entry {v : Value} (h : Flat text v) (column n : Nat) (cs : List Char) :
    readContent .ready [] column (quoteChars cs ++ ':' :: (List.replicate (n + 1) ' ' ++ text)) =
      .ok (quoteChars cs ++ ':' :: (List.replicate (n + 1) ' ' ++ text)) := by
  obtain ⟨column₁, h₁⟩ :=
    readContent_quoteChars column [] cs (':' :: (List.replicate (n + 1) ' ' ++ text))
  obtain ⟨column₂, h₂⟩ := readContent_blanks (column₁ + 1) (n + 1)
    (':' :: ((quoteChars cs).reverse ++ [])) text
  rw [h₁, readContent_colon (head?_blanks n text), h₂, h.content]
  simp

end Entries

end Yaml

end PackageAudit
