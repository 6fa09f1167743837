import PackageAudit.Proofs.Document.Yaml.Columns
import PackageAudit.Proofs.Document.Yaml.Plain

/-!
# Proofs.Document.Yaml.Positions — lines and contents read by positions

The tokens of a line, the entry that a content is, and its scalar are found by numbers of
characters here, in loops that go up to the length of a text. Whoever asks for a character asks for
one that may not be there.

* `Failure` — what such a reader stops for: a fault of the text, or a fault of its own;
* `Checked.item`, `Checked.slice` — characters and parts of a text that may not be there;
* `Yaml.Positions.lexLine`, `Yaml.Positions.splitEntry`, `Yaml.Positions.scalar` — the readers;
* `Yaml.Positions.lexLine_eq`, `Yaml.Positions.splitEntry_eq`, `Yaml.Positions.scalar_eq` — they
  read what `Yaml.lineTokens`, `Yaml.splitEntry` and `Yaml.scalar` read, and so no position is out
  of range and every loop comes to its end.
-/

namespace PackageAudit

/-! ## Checked positions -/

/-- Why a reader stops that goes by positions. -/
inductive Failure (ε : Type) where
  /-- The text is refused. -/
  | refused (e : ε)
  /-- Nothing is at the position that is asked for. -/
  | outOfRange
  /-- A loop is where it was. -/
  | stuck
  /-- More calls lie in each other than are allowed. -/
  | tooManyCalls

/-- The same reason, with another fault of the text. -/
def Failure.map {ε ε' : Type} (f : ε → ε') : Failure ε → Failure ε'
  | refused e => refused (f e)
  | outOfRange => outOfRange
  | stuck => stuck
  | tooManyCalls => tooManyCalls

/-- What a reader finds, if it does not stop. -/
abbrev Checked (ε α : Type) := Except (Failure ε) α

namespace Checked

variable {ε α β : Type} {xs : List α} {x : α} {rest : List α} {i j : Nat}

/-- What is found or refused without positions. -/
def ofExcept : Except ε α → Checked ε α :=
  Except.mapError .refused

/-- Refuse the text. -/
def refuse (e : ε) : Checked ε α :=
  .error (.refused e)

/-- What is at a position. -/
def item (xs : List α) (i : Nat) : Checked ε α :=
  match xs[i]? with
  | some x => .ok x
  | none => .error .outOfRange

/-- What is in front of a position. -/
def previous (xs : List α) : Nat → Checked ε α
  | 0 => .error .outOfRange
  | i + 1 => item xs i

/-- What is from one position on and in front of another. -/
def slice (xs : List α) (i j : Nat) : Checked ε (List α) :=
  if i ≤ j ∧ j ≤ xs.length then .ok ((xs.take j).drop i) else .error .outOfRange

/-- A test that is only made if another one holds. -/
def andThen (a b : Checked ε Bool) : Checked ε Bool := do
  if ← a then b else pure false

/-- Whether a thing is at a position. -/
def isAt [BEq α] (x : α) (xs : List α) (i : Nat) : Checked ε Bool :=
  (item xs i).map (· == x)

/-- Whether a position is the end, or one of some things is there. -/
def endOr (p : α → Bool) (xs : List α) (i : Nat) : Checked ε Bool :=
  if i = xs.length then pure true else (item xs i).map p

theorem andThen_ok {a b : Checked ε Bool} {p q : Bool} (ha : a = .ok p)
    (hb : p = true → b = .ok q) : andThen a b = .ok (p && q) := by
  rw [ha]
  cases p with
  | false => rfl
  | true => exact hb rfl

theorem item_of_drop (h : xs.drop i = x :: rest) : (item xs i : Checked ε α) = .ok x := by
  have hi : xs[i]? = some x := by rw [← List.head?_drop, h]; rfl
  rw [item, hi]

theorem isAt_of_drop [BEq α] {y : α} (h : xs.drop i = x :: rest) :
    (isAt y xs i : Checked ε Bool) = .ok (x == y) := by
  rw [isAt, item_of_drop h]
  rfl

theorem endOr_of_le {p : α → Bool} (h : i ≤ xs.length) :
    (endOr p xs i : Checked ε Bool) = .ok ((xs.drop i).head?.all p) := by
  unfold endOr
  split
  · next hend => rw [hend, List.drop_length]; rfl
  · next hend =>
    obtain ⟨x, rest, hx⟩ := List.exists_cons_of_ne_nil
      (List.ne_nil_of_length_pos (l := xs.drop i) (by rw [List.length_drop]; omega))
    rw [item_of_drop hx, hx]
    rfl

theorem slice_of_le (hij : i ≤ j) (hj : j ≤ xs.length) :
    (slice xs i j : Checked ε (List α)) = .ok ((xs.take j).drop i) :=
  if_pos ⟨hij, hj⟩

@[simp] theorem ofExcept_ok (a : α) : (ofExcept (.ok a) : Checked ε α) = .ok a :=
  rfl

@[simp] theorem ofExcept_error (e : ε) :
    (ofExcept (.error e) : Checked ε α) = .error (.refused e) :=
  rfl

@[simp] theorem ok_bind (a : α) (f : α → Checked ε β) : ((.ok a : Checked ε α) >>= f) = f a :=
  rfl

@[simp] theorem pure_eq_ok (a : α) : (pure a : Checked ε α) = .ok a :=
  rfl

/-- The part of a text up to a position and the one that is there. -/
theorem take_succ_of_drop (hij : i ≤ j) (h : xs.drop j = x :: rest) :
    (xs.take (j + 1)).drop i = (xs.take j).drop i ++ [x] := by
  have hx : xs[j]? = some x := by rw [← List.head?_drop, h]; rfl
  have hj : j < xs.length := (List.getElem?_eq_some_iff.1 hx).1
  rw [List.take_add_one, hx, Option.toList_some, List.drop_append_of_le_length]
  rw [List.length_take]
  omega

theorem lt_of_drop (h : xs.drop i = x :: rest) : i < xs.length := by
  refine Nat.lt_of_not_le fun hle => ?_
  rw [List.drop_eq_nil_of_le hle] at h
  cases h

theorem drop_succ_of_drop (h : xs.drop i = x :: rest) : xs.drop (i + 1) = rest := by
  rw [← List.drop_drop, h]
  rfl

/-- An end of a text by the position at which it begins. -/
theorem drop_of_suffix (h : rest <:+ xs) : xs.drop (xs.length - rest.length) = rest :=
  (List.suffix_iff_eq_drop.1 h).symm

end Checked

namespace Yaml

namespace Positions

open Checked

/-- What a reader finds on a line, faults having their columns. -/
abbrev CheckedColumn (α : Type) := Checked (YamlFault × Nat) α

/-! ## The readers -/

/-- The first position from one on at which no blank is. -/
def skipBlanks {ε : Type} (chars : List Char) (i : Nat) : Checked ε Nat :=
  if h : i < chars.length then do
    if (← item chars i) = ' ' then skipBlanks chars (i + 1) else pure i
  else pure i
  termination_by chars.length - i

/-- A text without the blanks at its end. -/
def trimEnd (cs : List Char) : List Char :=
  (cs.reverse.dropWhile (· == ' ')).reverse

/-! ### Lines -/

/-- Whether a comment would start at a position behind `start`. -/
def startsComment (chars : List Char) (start j : Nat) : CheckedColumn Bool :=
  if j = start then pure true else (previous chars j).map (· == ' ')

/--
The end of the content that begins at `start`, from position `j` of it on, and the position of the
quote that is open there.
-/
def scanContent (chars : List Char) (start : Nat) (ready : Bool) (quote : Option Nat) (j : Nat) :
    CheckedColumn (Nat × Option Nat) :=
  if _h : j < chars.length then do
    let c ← item chars j
    match quote with
    | some opened =>
      if c = '\\' then scanContent chars start ready (some opened) (j + 2)
      else scanContent chars start ready (if c = '"' then none else some opened) (j + 1)
    | none =>
      if c = '"' ∧ ready then scanContent chars start false (some j) (j + 1)
      else if ← andThen (pure (c == '#')) (startsComment chars start j) then pure (j, none)
      else if c = '\t' then refuse (.tab, j)
      else if ← andThen (pure (c == ':')) (endOr (· == ' ') chars (j + 1)) then do
        let next ← skipBlanks chars (j + 1)
        if _h : j < next then scanContent chars start true none next else .error .stuck
      else scanContent chars start (c == ' ' && ready) none (j + 1)
  else pure (chars.length, quote)
  termination_by chars.length - j

/-- The content that begins at `start`, if no quote is open at its end. -/
def closeContent (chars : List Char) (start : Nat) :
    Nat × Option Nat → CheckedColumn (List Char)
  | (_, some opened) => refuse (.unterminatedString, opened)
  | (stop, none) => return trimEnd (← slice chars start stop)

/-- The content of a line from a position on. -/
def lexContent (chars : List Char) (start : Nat) : CheckedColumn (List Char) :=
  scanContent chars start true none start >>= closeContent chars start

/-- Whether a dash that starts a sequence entry is at a position. -/
def isDash (chars : List Char) (i : Nat) : CheckedColumn Bool :=
  andThen (isAt '-' chars i) (endOr (fun c => c == ' ' || c == '\t') chars (i + 1))

/-- The tokens of a line from a position on, in front of those in `found`, last first. -/
def lexFrom (line : Nat) (chars : List Char) (found : List Token) (i : Nat) :
    CheckedColumn (List Token) := do
  if ← isDash chars i then
    let found := ⟨.dash, line, i⟩ :: found
    let next ← skipBlanks chars (i + 1)
    if ← andThen (pure (next < chars.length)) (isAt '\t' chars next) then refuse (.tab, next)
    else if next = chars.length then pure found
    else if ← isAt '#' chars next then pure found
    else if _h : i < next ∧ next < chars.length then lexFrom line chars found next
    else .error .stuck
  else return ⟨.content (← lexContent chars i), line, i⟩ :: found
  termination_by chars.length - i

/-- Whether a line begins with a marker between documents. -/
def isMarker (chars : List Char) : CheckedColumn Bool :=
  if chars.length < 3 then pure false
  else do
    let front ← slice chars 0 3
    andThen (pure (front == ['-', '-', '-'] || front == ['.', '.', '.']))
      (endOr (fun c => c == ' ' || c == '\t') chars 3)

/-- Place a fault of a content on its line. -/
def onLine {α : Type} (line : Nat) (x : CheckedColumn α) : Checked YamlError α :=
  x.mapError (.map fun (fault, column) => ⟨fault, line + 1, column + 1⟩)

/-- The tokens of a line, in front of those in `found`, last first. -/
def lexLine (line : Nat) (found : List Token) (chars : List Char) :
    Checked YamlError (List Token) :=
  match chars.findIdx? (!isBlank ·) with
  | none => pure found
  | some first => onLine line do
    if ← isAt '#' chars first then pure found
    else
      match (← slice chars 0 first).idxOf? '\t' with
      | some tab => refuse (.tab, tab)
      | none =>
        if ← andThen (pure (first == 0)) (isMarker chars) then refuse (.documentMarker, 0)
        else if ← andThen (pure (first == 0)) (isAt '%' chars 0) then refuse (.directive, 0)
        else lexFrom line chars found first

/-! ### Contents -/

/-- A quoted text from a position in it on, and the position behind its closing quote. -/
def readQuoted (column : Nat) (chars : List Char) (i : Nat) (out : List Char) :
    CheckedColumn (String × Nat) :=
  if _h : i < chars.length then do
    match ← item chars i with
    | '"' => pure (.ofList out.reverse, i + 1)
    | '\\' =>
      match chars[i + 1]? with
      | none => refuse (.unterminatedString, column)
      | some code =>
        match shortEscape? code with
        | some c => readQuoted column chars (i + 2) (c :: out)
        | none =>
          let stop := i + 2 + escapeWidth code
          let digits? := if stop ≤ chars.length then some ((chars.take stop).drop (i + 2)) else none
          match digits?.bind (numbered? (escapeWidth code)) with
          | some c => readQuoted column chars stop (c :: out)
          | none =>
            let sequence ← slice chars i (min stop chars.length)
            refuse (.invalidEscape (.ofList sequence), column + i)
    | c => readQuoted column chars (i + 1) (c :: out)
  else refuse (.unterminatedString, column)
  termination_by chars.length - i

/-- Whether a colon that ends a key is at a position. -/
def endsKey (chars : List Char) (i : Nat) : CheckedColumn Bool :=
  andThen (isAt ':' chars i) (endOr (· == ' ') chars (i + 1))

/-- The first position from one on of a colon that ends a key. -/
def findColon (chars : List Char) (i : Nat) : CheckedColumn (Option Nat) :=
  if h : i < chars.length then do
    if ← endsKey chars i then pure (some i)
    else findColon chars (i + 1)
  else pure none
  termination_by chars.length - i

/-- The fault that the first characters decide, the second of which is looked at in any case. -/
def indicatorFault? (chars : List Char) : CheckedColumn (Option YamlFault) := do
  let _ ← endOr (· == ' ') chars 1
  pure (Yaml.indicatorFault? chars)

/-- The key of the entry that a content is, if it is one, and the position of its colon. -/
def splitKey (column : Nat) (chars : List Char) :
    CheckedColumn (Option (String × Nat)) := do
  if ← isAt '"' chars 0 then
    let (key, behind) ← readQuoted column chars 1 []
    let i ← skipBlanks chars behind
    if ← andThen (pure (i < chars.length)) (endsKey chars i) then pure (some (key, i))
    else pure none
  else if ← andThen (isAt '?' chars 0) (endOr (· == ' ') chars 1) then refuse (.complexKey, column)
  else
    match ← findColon chars 0 with
    | none => pure none
    | some colon =>
      let key := trimEnd (← slice chars 0 colon)
      if key.isEmpty then refuse (.expectedKey, column)
      else
        match ← indicatorFault? chars with
        | some fault => refuse (fault, column)
        | none => pure (some (.ofList key, colon))

/-- An entry with its key and the position of its colon. -/
def entryAt (column : Nat) (chars : List Char) (key : String) (colon : Nat) :
    CheckedColumn Entry := do
  let v ← skipBlanks chars (colon + 1)
  if v < chars.length then
    let value ← slice chars v chars.length
    pure ⟨key, some (value, column + v)⟩
  else pure ⟨key, none⟩

/-- The entry that a content at `column` is, if it is one. -/
def splitEntry (column : Nat) (chars : List Char) : CheckedColumn (Option Entry) := do
  match ← splitKey column chars with
  | none => pure none
  | some (key, colon) => return some (← entryAt column chars key colon)

/-- Whether blanks are all that is between the first character and a bracket at the end. -/
def isEmptyUpTo (right : Char) (chars : List Char) : CheckedColumn Bool :=
  if chars.length < 2 then pure false
  else andThen (isAt right chars (chars.length - 1)) do
    let inside ← slice chars 1 (chars.length - 1)
    pure (inside.all (· == ' '))

/-- The value of a scalar that stands at `column`. -/
def scalar (column : Nat) (chars : List Char) : CheckedColumn Value := do
  if ← isAt '"' chars 0 then
    let (text, behind) ← readQuoted column chars 1 []
    if behind = chars.length then pure (.string text)
    else refuse (.trailingContent, column + behind)
  else if ← andThen (isAt '[' chars 0) (isEmptyUpTo ']' chars) then pure (.array [])
  else if ← andThen (isAt '\x7b' chars 0) (isEmptyUpTo '\x7d' chars) then pure (.object [] [])
  else
    match ← indicatorFault? chars with
    | some fault => refuse (fault, column)
    | none =>
      match ← findColon chars 0 with
      | some colon => refuse (.mappingValueNotAllowed, column + colon)
      | none => ofExcept ((plainValue chars).mapError (·, column))

/-! ## Lines -/

variable {ε : Type} {chars rest front : List Char} {c : Char} {i j k start : Nat} {ready : Bool}
  {quote : Option Nat}

/-- The blanks from a position on are skipped. -/
structure Skipped (chars : List Char) (i k : Nat) : Prop where
  le : i ≤ k
  inside : k ≤ chars.length
  drop : chars.drop k = (chars.drop i).dropWhile (· == ' ')

theorem exists_cons_of_lt (h : i < chars.length) : ∃ c rest, chars.drop i = c :: rest :=
  List.exists_cons_of_ne_nil (List.ne_nil_of_length_pos (by rw [List.length_drop]; omega))

theorem skipBlanks_eq (h : i ≤ chars.length) :
    ∃ k, (skipBlanks chars i : Checked ε Nat) = .ok k ∧ Skipped chars i k := by
  fun_induction skipBlanks (ε := ε) chars i with
  | case1 i hi ih =>
    obtain ⟨c, rest, hc⟩ := exists_cons_of_lt hi
    rw [item_of_drop hc]
    by_cases hspace : c = ' '
    · obtain ⟨k, hk, hle, hinside, hdrop⟩ := ih hi
      refine ⟨k, ?_, ⟨by omega, hinside, ?_⟩⟩
      · subst hspace
        exact hk
      · rw [hdrop, drop_succ_of_drop hc, hc, hspace]
        rfl
    · refine ⟨i, if_neg hspace, Nat.le_refl _, h, ?_⟩
      rw [hc, dropWhile_blank hspace]
  | case2 i hi =>
    have hend : i = chars.length := by omega
    exact ⟨i, rfl, Nat.le_refl _, h, by rw [hend, List.drop_length]; rfl⟩

/-- What the state of the loop over a content is to the reader of contents. -/
def mode : Bool → Option Nat → Mode
  | _, some opened => .quoted opened
  | true, none => .ready
  | false, none => .plain

/-- The characters of a content up to a position, last first. -/
def passed (chars : List Char) (start j : Nat) : List Char :=
  ((chars.take j).drop start).reverse

theorem passed_succ (hstart : start ≤ j) (h : chars.drop j = c :: rest) :
    passed chars start (j + 1) = c :: passed chars start j := by
  rw [passed, take_succ_of_drop hstart h, List.reverse_append]
  rfl

theorem passed_start : passed chars start start = [] := by
  rw [passed, List.drop_eq_nil_of_le (List.length_take_le _ _)]
  rfl

/-- Where a comment would start, there is a blank in front. -/
theorem startsComment_eq (hstart : start ≤ j) (hne : j ≠ start) (hj : j ≤ chars.length) :
    startsComment chars start j = .ok ((passed chars start j).head? == some ' ') := by
  obtain ⟨i, rfl⟩ : ∃ i, j = i + 1 := ⟨j - 1, by omega⟩
  obtain ⟨c, rest, hc⟩ := exists_cons_of_lt (i := i) (by omega : i < chars.length)
  rw [startsComment, if_neg hne, previous, item_of_drop hc, passed_succ (by omega) hc]
  rfl

theorem scanContent_quoted (h : chars.drop j = c :: rest) (opened : Nat) :
    scanContent chars start ready (some opened) j =
      if c = '\\' then scanContent chars start ready (some opened) (j + 2)
      else scanContent chars start ready (if c = '"' then none else some opened) (j + 1) := by
  rw [scanContent, dif_pos (lt_of_drop h), item_of_drop h]
  rfl

theorem scanContent_end (h : chars.length ≤ j) :
    scanContent chars start ready quote j = .ok (chars.length, quote) := by
  rw [scanContent, dif_neg (Nat.not_lt.2 h)]
  rfl

theorem scanContent_blank (h : chars.drop j = ' ' :: rest) :
    scanContent chars start ready none j = scanContent chars start ready none (j + 1) := by
  rw [scanContent, dif_pos (lt_of_drop h), item_of_drop h]
  rfl

theorem scanContent_skip (hk : skipBlanks chars i = (.ok k : CheckedColumn Nat)) :
    scanContent chars start ready none i = scanContent chars start ready none k := by
  fun_induction skipBlanks chars i with
  | case1 i hi ih =>
    obtain ⟨c, rest, hc⟩ := exists_cons_of_lt hi
    rw [item_of_drop hc] at hk
    by_cases hspace : c = ' '
    · subst hspace
      rw [scanContent_blank hc]
      exact ih hk
    · have hi : (if c = ' ' then skipBlanks chars (i + 1) else pure i) = Except.ok k := hk
      rw [if_neg hspace] at hi
      rw [Except.ok.inj hi]
  | case2 i hi => rw [Except.ok.inj hk]

/-- One character outside of quotes. -/
theorem scanContent_next (h : chars.drop j = c :: rest) (hstart : start ≤ j)
    (hfirst : chars[start]? ≠ some '#') :
    scanContent chars start ready none j =
      if c = '"' ∧ ready = true then scanContent chars start false (some j) (j + 1)
      else if c == '#' && (passed chars start j).head? == some ' ' then .ok (j, none)
      else if c = '\t' then refuse (.tab, j)
      else if c == ':' && rest.head?.all (· == ' ') then scanContent chars start true none (j + 1)
      else scanContent chars start (c == ' ' && ready) none (j + 1) := by
  have hj := lt_of_drop h
  have hcomment : andThen (pure (c == '#')) (startsComment chars start j) =
      .ok (c == '#' && (passed chars start j).head? == some ' ') := by
    refine andThen_ok rfl fun hhash => startsComment_eq hstart ?_ (Nat.le_of_lt hj)
    rintro rfl
    rw [← List.head?_drop, h, eq_of_beq hhash] at hfirst
    exact hfirst rfl
  have hcolon : andThen (pure (c == ':')) (endOr (· == ' ') chars (j + 1)) =
      (.ok (c == ':' && rest.head?.all (· == ' ')) : CheckedColumn Bool) := by
    refine andThen_ok rfl fun _ => ?_
    rw [endOr_of_le hj, drop_succ_of_drop h]
  obtain ⟨k, hk, hskipped⟩ := skipBlanks_eq (ε := YamlFault × Nat) (i := j + 1) hj
  have hskip : j < k := hskipped.le
  rw [scanContent, dif_pos hj, item_of_drop h]
  simp only [bind, Except.bind]
  have hjump : scanContent chars start true none (j + 1) = scanContent chars start true none k :=
    scanContent_skip hk
  rw [hcomment, hcolon, hk, hjump]
  simp only [dif_pos hskip]
  rfl

theorem not_quoted_of_mode : ∀ opened, mode ready none ≠ .quoted opened := by
  cases ready <;> exact nofun

theorem nextMode_eq (hopen : ¬ (c = '"' ∧ ready = true)) :
    nextMode (mode ready none) j c rest =
      mode (if c == ':' && rest.head?.all (· == ' ') then true else c == ' ' && ready) none := by
  unfold nextMode
  split
  · next hready =>
    cases ready with
    | false => cases hready
    | true => exact absurd ⟨rfl, rfl⟩ hopen
  · cases rest.head?.all (· == ' ') <;> rfl
  · rfl
  · next c _ _ hcolon hspace _ =>
    have hcolon : (c == ':') = false := beq_eq_false_iff_ne.2 hcolon
    have hspace : (c == ' ') = false := beq_eq_false_iff_ne.2 hspace
    rw [hcolon, hspace]
    rfl

theorem readContent_tab :
    readContent (mode ready none) front j ('\t' :: rest) = .error (.tab, j) := by
  rw [readContent.eq_def]
  cases ready <;> rfl

/-- The content up to a position, blanks at its end dropped. -/
theorem closeContent_eq (hstart : start ≤ j) (hj : j ≤ chars.length) :
    closeContent chars start (j, none) =
      .ok ((passed chars start j).dropWhile (· == ' ')).reverse := by
  rw [closeContent, slice_of_le hstart hj]
  rfl

/-- The loop over a content does what the reader of contents does. -/
theorem scanContent_eq (hstart : start ≤ j) (hj : j ≤ chars.length)
    (hfirst : chars[start]? ≠ some '#') (hready : quote ≠ none → ready = false) :
    (scanContent chars start ready quote j >>= closeContent chars start) =
      ofExcept (readContent (mode ready quote) (passed chars start j) j (chars.drop j)) := by
  -- On the characters that are left; a backslash in quotes passes two of them.
  induction hlength : chars.length - j using Nat.strongRecOn generalizing j ready quote with
  | ind n ih =>
  rcases Nat.lt_or_ge j chars.length with hlt | hend
  swap
  · rw [scanContent_end hend, List.drop_eq_nil_of_le hend]
    cases quote with
    | some opened => rw [mode, readContent]; rfl
    | none =>
      have hclose := closeContent_eq hstart hj
      rw [Nat.le_antisymm hj hend] at hclose ⊢
      rw [readContent]
      · exact hclose
      · exact not_quoted_of_mode
  obtain ⟨c, rest, hc⟩ := exists_cons_of_lt hlt
  have hrest := drop_succ_of_drop hc
  have hpassed := passed_succ hstart hc
  have hnext (ready : Bool) (quote : Option Nat) (hready : quote ≠ none → ready = false) :=
    ih (chars.length - (j + 1)) (by omega) (j := j + 1) (by omega) hlt hready rfl
  rw [hrest, hpassed] at hnext
  rw [hc]
  cases quote with
  | some opened =>
    obtain rfl : ready = false := hready (Option.some_ne_none opened)
    rw [scanContent_quoted hc, mode]
    by_cases hquote : c = '"'
    · subst hquote
      rw [if_neg (by decide), if_pos rfl, readContent_close]
      exact hnext false none fun h => absurd rfl h
    cases rest with
    | nil =>
      -- The line ends in quotes; a backslash would pass one character too many.
      have hlast : chars.length ≤ j + 1 := List.drop_eq_nil_iff.1 hrest
      rw [scanContent_end (Nat.le_succ_of_le hlast), scanContent_end hlast, if_neg hquote,
        readContent, if_neg hquote]
      split <;> rfl
    | cons d rest =>
    by_cases hslash : c = '\\'
    · subst hslash
      have hbehind : (scanContent chars start false (some opened) (j + 2) >>=
          closeContent chars start) =
          ofExcept (readContent (mode false (some opened)) (passed chars start (j + 2)) (j + 2)
            (chars.drop (j + 2))) :=
        ih (chars.length - (j + 2)) (by omega) (by omega) (lt_of_drop hrest) (fun _ => rfl) rfl
      rw [drop_succ_of_drop hrest, passed_succ (by omega) hrest, hpassed] at hbehind
      rw [if_pos rfl, readContent_escape]
      exact hbehind
    · rw [if_neg hslash, if_neg hquote, readContent_inside hquote hslash]
      exact hnext false (some opened) fun _ => rfl
  | none =>
    rw [scanContent_next hc hstart hfirst]
    by_cases hopen : c = '"' ∧ ready = true
    · obtain ⟨rfl, rfl⟩ := hopen
      rw [if_pos ⟨rfl, rfl⟩, mode, readContent_open]
      exact hnext false (some j) fun _ => rfl
    rw [if_neg hopen]
    by_cases hcomment : (c == '#' && (passed chars start j).head? == some ' ') = true
    · obtain ⟨hhash, hblank⟩ := Bool.and_eq_true_iff.1 hcomment
      rw [if_pos hcomment, eq_of_beq hhash,
        readContent_comment not_quoted_of_mode (eq_of_beq hblank)]
      exact closeContent_eq hstart hj
    rw [if_neg hcomment]
    by_cases htab : c = '\t'
    · rw [if_pos htab, htab, readContent_tab]
      rfl
    rw [if_neg htab, readContent_next not_quoted_of_mode (fun h => hcomment ?_) htab,
      nextMode_eq hopen, ← hnext _ _ fun h => absurd rfl h]
    · split <;> rfl
    · rw [h.1, h.2]
      rfl

/-- A content is found by positions as it is found without. -/
theorem lexContent_eq (hi : i ≤ chars.length) (hfirst : chars[i]? ≠ some '#') :
    lexContent chars i = ofExcept (Yaml.readContent .ready [] i (chars.drop i)) := by
  rw [lexContent, scanContent_eq (Nat.le_refl i) hi hfirst fun h => absurd rfl h, passed_start]
  rfl

theorem isDash_eq (hc : chars.drop i = c :: rest) :
    isDash chars i = .ok (c == '-' && isApart rest) := by
  refine andThen_ok (isAt_of_drop hc) fun _ => ?_
  rw [endOr_of_le (lt_of_drop hc), drop_succ_of_drop hc]
  rfl

/-- A tab behind the blanks of a dash. -/
theorem readLine_tabDash {line column : Nat} {found : List Token} {more : List Char}
    (hapart : isApart rest = true) (hnext : rest.dropWhile (· == ' ') = '\t' :: more) :
    readLine line found column ('-' :: rest) =
      .error (.tab, column + 1 + (rest.length - ('\t' :: more).length)) := by
  rw [readLine, if_pos hapart]
  dsimp only
  rw [hnext]
  rfl

/-- The tokens of a line from its first character that is no blank. -/
theorem lexFrom_eq {line : Nat} {found : List Token} (hfirst : Begins (chars.drop i)) :
    lexFrom line chars found i = ofExcept (readLine line found i (chars.drop i)) := by
  -- On the characters that are left behind each dash.
  induction hlength : chars.length - i using Nat.strongRecOn generalizing i found with
  | ind n ih =>
  obtain ⟨c, rest, hc, hspace, hhash⟩ := hfirst
  have hi := lt_of_drop hc
  rw [lexFrom, isDash_eq hc, hc]
  simp only [bind, Except.bind]
  cases hdash : c == '-' && isApart rest with
  | false =>
    rw [if_neg Bool.false_ne_true, readLine_text]
    · rw [lexContent_eq (Nat.le_of_lt hi), ← hc]
      · cases Yaml.readContent .ready [] i (chars.drop i) <;> rfl
      · rw [← List.head?_drop, hc]
        exact fun h => hhash (Option.some.inj h)
    · intro rest' heq
      obtain ⟨rfl, rfl⟩ := List.cons.inj heq
      exact hdash
  | true =>
  obtain ⟨hminus, hapart⟩ := Bool.and_eq_true_iff.1 hdash
  obtain rfl : c = '-' := eq_of_beq hminus
  obtain ⟨k, hk, hskipped⟩ := skipBlanks_eq (ε := YamlFault × Nat) (i := i + 1) hi
  have hle := hskipped.le
  have hnext := hskipped.drop
  rw [drop_succ_of_drop hc] at hnext
  have hrest : rest.length = chars.length - (i + 1) := by
    rw [← drop_succ_of_drop hc, List.length_drop]
  rw [if_pos rfl, hk]
  dsimp only
  cases hdrop : chars.drop k with
  | nil =>
    have hend : k = chars.length :=
      Nat.le_antisymm hskipped.inside (List.drop_eq_nil_iff.1 hdrop)
    have htab : andThen (pure (decide (k < chars.length))) (isAt '\t' chars k) =
        (.ok false : CheckedColumn Bool) := by
      rw [hend, decide_eq_false (Nat.lt_irrefl _)]
      rfl
    rw [htab, readLine_lastDash hapart]
    · dsimp only
      rw [if_neg Bool.false_ne_true, if_pos hend]
      rfl
    · rw [← hnext, hdrop]
      exact nofun
  | cons d more =>
    have hlt := lt_of_drop hdrop
    have hcolumn : k = i + 1 + (rest.length - (d :: more).length) := by
      have hmore := congrArg List.length hdrop
      rw [List.length_drop] at hmore
      omega
    have htab : andThen (pure (decide (k < chars.length))) (isAt '\t' chars k) =
        (.ok (d == '\t') : CheckedColumn Bool) := by
      rw [decide_eq_true hlt]
      exact isAt_of_drop hdrop
    rw [htab, isAt_of_drop hdrop]
    dsimp only
    rw [hdrop] at hnext
    by_cases hd : d = '\t'
    · subst hd
      rw [readLine_tabDash hapart hnext.symm, ← hcolumn]
      rfl
    rw [if_neg (mt eq_of_beq hd), if_neg (Nat.ne_of_lt hlt)]
    by_cases hd' : d = '#'
    · subst hd'
      rw [readLine_lastDash hapart]
      · rfl
      · rw [← hnext]
        rintro _ ⟨⟩
        rfl
    rw [if_neg (mt eq_of_beq hd'), dif_pos ⟨hle, hlt⟩, readLine_nextDash hapart hnext.symm hd' hd,
      ← hcolumn, ← hdrop]
    refine ih _ (by omega) ⟨d, more, hdrop, ?_, hd'⟩ rfl
    exact beq_eq_false_iff_ne.1 (of_dropWhile (p := (· == ' ')) hnext.symm)

theorem isMarker_eq (chars : List Char) : isMarker chars = .ok (Yaml.isMarker chars) := by
  unfold isMarker
  split
  · next hshort =>
    refine congrArg Except.ok (eq_false_of_ne_true fun h => ?_).symm
    obtain ⟨d, more, -, rfl, -⟩ := isMarker_iff.1 h
    simp only [List.length_cons] at hshort
    omega
  next hlong =>
  have hlong := Nat.not_lt.1 hlong
  rw [slice_of_le (Nat.zero_le 3) hlong]
  refine (andThen_ok rfl fun _ => endOr_of_le hlong).trans (congrArg Except.ok ?_)
  rw [Bool.eq_iff_iff, isMarker_iff, Bool.and_eq_true, Bool.or_eq_true, beq_iff_eq, beq_iff_eq,
    List.drop_zero]
  constructor
  · rintro ⟨hfront | hfront, hapart⟩
    all_goals have hchars := List.take_append_drop 3 chars
    all_goals rw [hfront] at hchars
    · exact ⟨'-', chars.drop 3, .inl rfl, hchars.symm, hapart⟩
    · exact ⟨'.', chars.drop 3, .inr rfl, hchars.symm, hapart⟩
  · rintro ⟨d, more, rfl | rfl, rfl, hapart⟩
    · exact ⟨.inl rfl, hapart⟩
    · exact ⟨.inr rfl, hapart⟩

theorem onLine_ofExcept {α : Type} (line : Nat) (x : Column α) :
    onLine line (ofExcept x) = ofExcept (Yaml.onLine line x) := by
  cases x <;> rfl

/-- The first thing that is not of a kind is behind all those in front that are. -/
theorem findIdx?_not (p : Char → Bool) (cs : List Char) :
    cs.findIdx? (!p ·) =
      if cs.dropWhile p = [] then none else some (cs.takeWhile p).length := by
  induction cs with
  | nil => rfl
  | cons c cs ih =>
    rw [List.findIdx?_cons, ih, List.dropWhile_cons, List.takeWhile_cons]
    cases p c with
    | false => rfl
    | true =>
      simp only [Bool.not_true, Bool.false_eq_true, if_false, if_true]
      split <;> rfl

/-- The tokens of a line that begins with a character of its own. -/
theorem lineTokens_first {line : Nat} {found : List Token} {first : Char} {more : List Char}
    (hbody : chars.dropWhile isBlank = first :: more) (hhash : first ≠ '#') :
    lineTokens line found chars =
      match (chars.takeWhile isBlank).idxOf? '\t' with
      | some column => fail .tab line column
      | none =>
        if (chars.takeWhile isBlank).isEmpty && Yaml.isMarker (first :: more) then
          fail .documentMarker line 0
        else if (chars.takeWhile isBlank).isEmpty && first == '%' then fail .directive line 0
        else
          Yaml.onLine line
            (readLine line found (chars.takeWhile isBlank).length (first :: more)) := by
  rw [lineTokens_eq, hbody, List.head?_cons]
  split
  · next h => cases h
  · next h => exact absurd (Option.some.inj h) hhash
  next h =>
  cases h
  cases (chars.takeWhile isBlank).idxOf? '\t' with
  | some tab => rfl
  | none =>
    dsimp only
    cases readLine line found (chars.takeWhile isBlank).length (first :: more) <;> rfl

/-- The tokens of a line are found by positions as they are found without. -/
theorem lexLine_eq (line : Nat) (found : List Token) (chars : List Char) :
    lexLine line found chars = ofExcept (lineTokens line found chars) := by
  rw [lexLine, findIdx?_not]
  cases hbody : chars.dropWhile isBlank with
  | nil =>
    rw [if_pos rfl, lineTokens_eq, hbody]
    rfl
  | cons first more =>
  have hdrop : chars.drop (chars.takeWhile isBlank).length = first :: more := by
    rw [drop_takeWhile, hbody]
  have hfront : (slice chars 0 (chars.takeWhile isBlank).length : CheckedColumn (List Char)) =
      .ok (chars.takeWhile isBlank) := by
    rw [slice_of_le (Nat.zero_le _) (Nat.le_of_lt (lt_of_drop hdrop)), List.drop_zero,
      ← List.prefix_iff_eq_take.1 (List.takeWhile_prefix _)]
  rw [if_neg (List.cons_ne_nil _ _)]
  dsimp only
  rw [isAt_of_drop hdrop, hfront]
  simp only [bind, Except.bind]
  by_cases hhash : first = '#'
  · subst hhash
    rw [lineTokens_eq, hbody]
    rfl
  rw [if_neg (mt eq_of_beq hhash)]
  have hempty : ((chars.takeWhile isBlank).length == 0) = (chars.takeWhile isBlank).isEmpty := by
    cases chars.takeWhile isBlank <;> rfl
  have hwhole (h : ((chars.takeWhile isBlank).length == 0) = true) : chars = first :: more := by
    rwa [eq_of_beq h, List.drop_zero] at hdrop
  have hmarker : andThen (pure ((chars.takeWhile isBlank).length == 0)) (isMarker chars) =
      .ok ((chars.takeWhile isBlank).isEmpty && Yaml.isMarker (first :: more)) := by
    rw [← hempty]
    exact andThen_ok rfl fun h => hwhole h ▸ isMarker_eq chars
  have hpercent : andThen (pure ((chars.takeWhile isBlank).length == 0)) (isAt '%' chars 0) =
      (.ok ((chars.takeWhile isBlank).isEmpty && first == '%') : CheckedColumn Bool) := by
    rw [← hempty]
    exact andThen_ok rfl fun h => isAt_of_drop (hwhole h)
  have hspace : first ≠ ' ' := by
    rintro rfl
    exact absurd (of_dropWhile hbody) (by decide)
  have hbegins : Begins (chars.drop (chars.takeWhile isBlank).length) :=
    ⟨first, more, hdrop, hspace, hhash⟩
  rw [hmarker, hpercent, lexFrom_eq hbegins, hdrop, lineTokens_first hbody hhash]
  cases (chars.takeWhile isBlank).idxOf? '\t' with
  | some tab => rfl
  | none =>
    dsimp only
    split
    · rfl
    split
    · rfl
    · exact onLine_ofExcept line _

/-! ## Contents -/

/-- The digits of an escape, if the text is long enough for them. -/
theorem digits_eq {width : Nat} (hi : i ≤ chars.length) (hrest : chars.drop i = rest) :
    (if i + width ≤ chars.length then some ((chars.take (i + width)).drop i) else none).bind
      (numbered? width) = numbered? width (rest.take width) := by
  subst hrest
  split
  · rw [List.drop_take, Nat.add_sub_cancel_left]
    rfl
  · next hshort =>
    have hwidth : ((chars.drop i).take width).length ≠ width := by
      rw [List.length_take, List.length_drop]
      omega
    rw [numbered?, if_pos (.inr hwidth)]
    rfl

/-- A quoted text is read by positions as it is read without. -/
theorem readQuoted_eq (column : Nat) (out : List Char) (hi : i ≤ chars.length) :
    readQuoted column chars i out =
      ofExcept ((readQuotedFrom column (column + i) out (chars.drop i)).map
        fun (text, behind) => (text, chars.length - behind.length)) := by
  -- On the characters that are left.
  induction hlength : chars.length - i using Nat.strongRecOn generalizing i out with
  | ind n ih =>
  rcases Nat.lt_or_ge i chars.length with hlt | hend
  swap
  · rw [readQuoted, dif_neg (Nat.not_lt.2 hend), List.drop_eq_nil_of_le hend, readQuotedFrom]
    rfl
  obtain ⟨c, rest, hc⟩ := exists_cons_of_lt hlt
  have hrest := drop_succ_of_drop hc
  have hleft : rest.length = chars.length - (i + 1) := by rw [← hrest, List.length_drop]
  rw [readQuoted, dif_pos hlt, item_of_drop hc, hc]
  simp only [bind, Except.bind]
  split
  · have hbehind : chars.length - rest.length = i + 1 := by omega
    rw [readQuotedFrom, ← hbehind]
    rfl
  · cases rest with
    | nil =>
      rw [List.getElem?_eq_none (List.drop_eq_nil_iff.1 hrest), readQuotedFrom]
      rfl
    | cons code more =>
    have hcode : chars[i + 1]? = some code := by rw [← List.head?_drop, hrest]; rfl
    have hmore : chars.drop (i + 2) = more := drop_succ_of_drop hrest
    have hinside := lt_of_drop hrest
    rw [hcode]
    dsimp only
    cases hshort : shortEscape? code with
    | some d =>
      rw [readQuotedFrom_short hshort, ← hmore]
      exact ih _ (by omega) _ hinside rfl
    | none =>
    dsimp only
    rw [digits_eq hinside hmore]
    cases hnumbered : numbered? (escapeWidth code) (more.take (escapeWidth code)) with
    | some d =>
      have hwidth := length_of_numbered? hnumbered
      rw [List.length_take, ← hmore, List.length_drop] at hwidth
      have hcolumn : column + i + 2 + escapeWidth code = column + (i + 2 + escapeWidth code) := by
        omega
      rw [readQuotedFrom_numbered hshort hnumbered, hcolumn, ← hmore, List.drop_drop]
      exact ih _ (by omega) (i := i + 2 + escapeWidth code) _ (by omega) rfl
    | none =>
      have hsequence : (chars.take (min (i + 2 + escapeWidth code) chars.length)).drop i =
          '\\' :: code :: more.take (escapeWidth code) := by
        have htake : ∀ n, ('\\' :: code :: more).take (n + 2) = '\\' :: code :: more.take n :=
          fun n => rfl
        have hall : ('\\' :: code :: more).length = chars.length - i := by
          rw [← hc, List.length_drop]
        rw [List.drop_take, hc, ← htake, List.take_eq_take_iff, hall]
        omega
      rw [slice_of_le (by omega) (Nat.min_le_right _ _), hsequence, readQuotedFrom, hshort]
      dsimp only
      rw [hnumbered]
      rfl
  · next hquote hslash =>
    rw [readQuotedFrom_plain hquote hslash, ← hrest]
    exact ih _ (by omega) _ hlt rfl

theorem endsKey_eq (hc : chars.drop i = c :: rest) :
    endsKey chars i = .ok (c == ':' && rest.head?.all (· == ' ')) := by
  refine andThen_ok (isAt_of_drop hc) fun _ => ?_
  rw [endOr_of_le (lt_of_drop hc), drop_succ_of_drop hc]

theorem findColon_eq (hi : i ≤ chars.length) :
    findColon chars i = .ok ((splitColonFrom (chars.take i).reverse (chars.drop i)).map
      fun (before, _) => before.length) := by
  -- On the characters that are left.
  induction hlength : chars.length - i using Nat.strongRecOn generalizing i with
  | ind n ih =>
  rcases Nat.lt_or_ge i chars.length with hlt | hend
  swap
  · rw [findColon, dif_neg (Nat.not_lt.2 hend), List.drop_eq_nil_of_le hend]
    rfl
  obtain ⟨c, rest, hc⟩ := exists_cons_of_lt hlt
  have hrest := drop_succ_of_drop hc
  rw [findColon, dif_pos hlt, endsKey_eq hc, hc, splitColonFrom]
  simp only [bind, Except.bind, Bool.and_eq_true, beq_iff_eq]
  split
  · rw [Option.map_some, List.reverse_reverse, List.length_take, Nat.min_eq_left hi]
    rfl
  · have hfront : c :: (chars.take i).reverse = (chars.take (i + 1)).reverse := by
      have htake := take_succ_of_drop (Nat.zero_le i) hc
      rw [List.drop_zero, List.drop_zero] at htake
      rw [htake, List.reverse_append]
      rfl
    rw [hfront, ← hrest]
    exact ih _ (by omega) hlt rfl

theorem indicatorFault?_eq (hne : chars ≠ []) :
    indicatorFault? chars = .ok (Yaml.indicatorFault? chars) := by
  rw [indicatorFault?, endOr_of_le (List.length_pos_of_ne_nil hne)]
  rfl

/-- An entry by the position of its colon. -/
theorem entryAt_eq {column colon : Nat} (key : String) (hc : chars.drop colon = c :: rest) :
    entryAt column chars key colon =
      .ok ⟨key, entryValue? (column + (chars.length - rest.length)) rest⟩ := by
  have hlt := lt_of_drop hc
  have hrest := drop_succ_of_drop hc
  obtain ⟨v, hv, hle, hinside, hdrop⟩ := skipBlanks_eq (ε := YamlFault × Nat) (i := colon + 1) hlt
  rw [hrest] at hdrop
  have hlength := congrArg List.length hdrop
  have hleft := congrArg List.length hrest
  rw [List.length_drop] at hlength hleft
  have hsuffix := (List.dropWhile_suffix (l := rest) (· == ' ')).length_le
  rw [entryAt, hv, entryValue?]
  simp only [bind, Except.bind]
  split
  · next hv =>
    have hcolumn : chars.length - rest.length + (rest.length - (rest.dropWhile (· == ' ')).length) =
        v := by omega
    rw [slice_of_le hinside (Nat.le_refl _), List.take_length, hdrop, if_neg, Nat.add_assoc,
      hcolumn]
    · rfl
    · rw [List.isEmpty_iff, ← hdrop, List.drop_eq_nil_iff]
      exact Nat.not_le.2 hv
  · next hv =>
    rw [if_pos]
    · rfl
    · rw [List.isEmpty_iff, ← hdrop, List.drop_eq_nil_iff]
      exact Nat.not_lt.1 hv

/-- What is in front of the first colon that ends a key. -/
theorem findColon_zero (chars : List Char) :
    findColon chars 0 = .ok ((splitColon? chars).map fun (before, _) => before.length) :=
  findColon_eq (Nat.zero_le _)

/-- A quoted text at the beginning of a content, read by positions. -/
theorem readQuoted_first (column : Nat) (quoted : List Char) :
    readQuoted column ('"' :: quoted) 1 [] = ofExcept ((Yaml.readQuoted column quoted).map
      fun (text, behind) => (text, ('"' :: quoted).length - behind.length)) :=
  readQuoted_eq column [] (Nat.le_add_left 1 _)

theorem splitEntry_quoted (column : Nat) (quoted : List Char) :
    splitEntry column ('"' :: quoted) = ofExcept (Yaml.splitEntry column ('"' :: quoted)) := by
  have hfirst : ('"' :: quoted).drop 0 = '"' :: quoted := rfl
  rw [splitEntry, splitKey, isAt_of_drop hfirst, readQuoted_first, Yaml.splitEntry]
  cases hquoted : Yaml.readQuoted column quoted with
  | error e =>
    rw [ quotedEntry?, hquoted]
    rfl
  | ok r =>
  obtain ⟨key, behind⟩ := r
  have hsuffix := (suffix_of_readQuoted hquoted).trans (List.suffix_cons '"' quoted)
  obtain ⟨k, hk, -, hinside, hdrop⟩ := skipBlanks_eq (ε := YamlFault × Nat)
    (Nat.sub_le ('"' :: quoted).length behind.length)
  rw [drop_of_suffix hsuffix] at hdrop
  have hmodel := @entry_of_readQuoted column ('"' :: quoted) _ _ _ hquoted
  rw [← hdrop] at hmodel
  simp only [Except.map, ofExcept_ok, ok_bind, beq_self_eq_true, if_true, hk]
  cases hrest : ('"' :: quoted).drop k with
  | nil =>
    rw [hrest] at hmodel
    rw [decide_eq_false (Nat.not_lt.2 (List.drop_eq_nil_iff.1 hrest)), hmodel]
    rfl
  | cons c rest =>
    have hcolon : andThen (pure (decide (k < ('"' :: quoted).length))) (endsKey ('"' :: quoted) k) =
        .ok (c == ':' && rest.head?.all (· == ' ')) := by
      rw [decide_eq_true (lt_of_drop hrest)]
      exact endsKey_eq hrest
    rw [hrest] at hmodel
    rw [hcolon, ok_bind]
    by_cases hc : c = ':'
    · subst hc
      rw [hmodel]
      cases hblank : rest.head?.all (· == ' ') with
      | false => simp [hblank]
      | true => simp [hblank, entryAt_eq key hrest]
    · split at hmodel
      · next heq => exact absurd (List.cons.inj heq).1 hc
      · rw [hmodel, beq_eq_false_iff_ne.2 hc]
        rfl

/-- An entry with a plain key. -/
theorem splitEntry_plain (column : Nat) (hquote : c ≠ '"') :
    Yaml.splitEntry column (c :: rest) =
      if c == '?' && rest.head?.all (· == ' ') then .error (.complexKey, column)
      else
        match splitColon? (c :: rest) with
        | none => .ok none
        | some (before, behind) =>
          if (trimEnd before).isEmpty then .error (.expectedKey, column)
          else
            match Yaml.indicatorFault? (c :: rest) with
            | some fault => .error (fault, column)
            | none => .ok (some ⟨.ofList (trimEnd before),
                entryValue? (column + ((c :: rest).length - behind.length)) behind⟩) := by
  unfold Yaml.splitEntry
  split
  · next heq => exact absurd (List.cons.inj heq).1 hquote
  · simp only [List.head?_cons, Option.some.injEq, List.tail_cons, Bool.and_eq_true, beq_iff_eq]
    rfl

theorem splitEntry_eq (column : Nat) (hne : chars ≠ []) :
    splitEntry column chars = ofExcept (Yaml.splitEntry column chars) := by
  obtain ⟨c, rest, rfl⟩ := List.exists_cons_of_ne_nil hne
  have hfirst : (c :: rest).drop 0 = c :: rest := rfl
  by_cases hquote : c = '"'
  · subst hquote
    exact splitEntry_quoted column rest
  have hquestion : andThen (isAt '?' (c :: rest) 0) (endOr (· == ' ') (c :: rest) 1) =
      (.ok (c == '?' && rest.head?.all (· == ' ')) : CheckedColumn Bool) :=
    andThen_ok (isAt_of_drop hfirst) fun _ => endOr_of_le (Nat.le_add_left 1 _)
  rw [splitEntry, splitKey, isAt_of_drop hfirst, beq_eq_false_iff_ne.2 hquote, hquestion,
    findColon_zero, indicatorFault?_eq hne, splitEntry_plain column hquote]
  simp only [ok_bind, Bool.false_eq_true, if_false]
  split
  · rfl
  cases hcolon : splitColon? (c :: rest) with
  | none => rfl
  | some halves =>
  obtain ⟨before, behind⟩ := halves
  obtain ⟨before', hbefore, hsplit, -, -⟩ := of_splitColonFrom hcolon
  obtain rfl : before = before' := hbefore
  have hslice : (slice (c :: rest) 0 before.length : CheckedColumn (List Char)) = .ok before := by
    have hlength : before.length ≤ (c :: rest).length := by
      rw [hsplit, List.length_append]
      exact Nat.le_add_right _ _
    rw [slice_of_le (Nat.zero_le _) hlength, hsplit, List.take_left]
    rfl
  have hdrop : (c :: rest).drop before.length = ':' :: behind := by rw [hsplit, List.drop_left]
  simp only [Option.map_some, ok_bind, hslice]
  split
  · rfl
  cases Yaml.indicatorFault? (c :: rest) with
  | some fault => rfl
  | none => simp [entryAt_eq _ hdrop]

theorem isEmptyUpTo_eq (left right : Char) (hne : chars ≠ []) :
    andThen (isAt left chars 0) (isEmptyUpTo right chars) = .ok (isEmptyFlow left right chars) := by
  obtain ⟨c, rest, rfl⟩ := List.exists_cons_of_ne_nil hne
  have hfirst : (c :: rest).drop 0 = c :: rest := rfl
  rw [isEmptyFlow, Bool.and_assoc]
  refine andThen_ok (isAt_of_drop hfirst) fun _ => ?_
  rcases List.eq_nil_or_concat' rest with rfl | ⟨inside, d, rfl⟩
  · rfl
  have hlength : (c :: (inside ++ [d])).length = inside.length + 2 := by simp
  have hlast : (c :: (inside ++ [d])).drop (inside.length + 1) = [d] := List.drop_left
  have hinside : (c :: (inside ++ [d])).take (inside.length + 1) = c :: inside :=
    congrArg (c :: ·) List.take_left
  have hslice : (slice (c :: (inside ++ [d])) 1 (inside.length + 2 - 1) : CheckedColumn _) =
      .ok inside := by
    rw [slice_of_le (by omega) (by omega)]
    exact congrArg (fun cs : List Char => Except.ok (cs.drop 1)) hinside
  rw [isEmptyUpTo, if_neg (by omega), hlength, List.getLast?_concat, List.dropLast_concat]
  refine andThen_ok (isAt_of_drop hlast) fun _ => ?_
  rw [hslice]
  rfl

theorem scalar_quoted (column : Nat) (quoted : List Char) :
    scalar column ('"' :: quoted) = ofExcept (Yaml.scalar column ('"' :: quoted)) := by
  have hfirst : ('"' :: quoted).drop 0 = '"' :: quoted := rfl
  rw [scalar, isAt_of_drop hfirst, readQuoted_first, Yaml.scalar]
  cases hquoted : Yaml.readQuoted column quoted with
  | error e => rfl
  | ok r =>
  obtain ⟨text, behind⟩ := r
  have hlength := ((suffix_of_readQuoted hquoted).trans (List.suffix_cons '"' quoted)).length_le
  simp only [Except.map, ofExcept_ok, ok_bind, beq_self_eq_true, if_true]
  cases behind with
  | nil => exact if_pos rfl
  | cons c rest =>
    rw [if_neg]
    · rfl
    · simp only [List.length_cons] at hlength ⊢
      omega

/-- A scalar without quotes. -/
theorem scalar_plain (column : Nat) (hquote : c ≠ '"') :
    Yaml.scalar column (c :: rest) =
      if isEmptyFlow '[' ']' (c :: rest) then .ok (.array [])
      else if isEmptyFlow '\x7b' '\x7d' (c :: rest) then .ok (.object [] [])
      else
        match Yaml.indicatorFault? (c :: rest), splitColon? (c :: rest) with
        | some fault, _ => .error (fault, column)
        | none, some (before, _) => .error (.mappingValueNotAllowed, column + before.length)
        | none, none => (plainValue (c :: rest)).mapError (·, column) := by
  unfold Yaml.scalar
  split
  · next heq => exact absurd (List.cons.inj heq).1 hquote
  · rfl

/-- A scalar is read by positions as it is read without. -/
theorem scalar_eq (column : Nat) (hne : chars ≠ []) :
    scalar column chars = ofExcept (Yaml.scalar column chars) := by
  obtain ⟨c, rest, rfl⟩ := List.exists_cons_of_ne_nil hne
  have hfirst : (c :: rest).drop 0 = c :: rest := rfl
  by_cases hquote : c = '"'
  · subst hquote
    exact scalar_quoted column rest
  rw [scalar, isAt_of_drop hfirst, beq_eq_false_iff_ne.2 hquote, isEmptyUpTo_eq '[' ']' hne,
    isEmptyUpTo_eq '\x7b' '\x7d' hne, indicatorFault?_eq hne, findColon_zero,
    scalar_plain column hquote]
  simp only [ok_bind, Bool.false_eq_true, if_false]
  split
  · rfl
  split
  · rfl
  cases Yaml.indicatorFault? (c :: rest) with
  | some fault => rfl
  | none => cases splitColon? (c :: rest) <;> rfl

end Positions

end Yaml

end PackageAudit
