import Mathlib
import PackageAudit.Proofs.Document.Json.Written

/-!
# Proofs.Document.Json.Relaxed — texts under relaxed rules

What is read under some rules is read in the same way where more of them are relaxed
(`Json.read_relaxed`): every value, in the same slot, under the same parent and the same key.

* `JsonOptions.RelaxedTo` — the order of the rules;
* `Refines` — what one reader finds, the other finds as well;
* `Json.readNumber_relaxed`, `Json.readText_relaxed` — the values in which most rules are checked;
* `Json.readTree_relaxed` — the trees, by induction on what is left of the input.

A relaxed rule is only asked where the strict one stops, so the readers agree up to there.
-/

namespace PackageAudit

/-! ## Readers that find no less -/

/-- What `x` results in, `y` results in. -/
def Refines {ε α : Type} (x y : Except ε α) : Prop :=
  ∀ a, x = .ok a → y = .ok a

namespace Refines

variable {ε α β : Type} {x y : Except ε α}

theorem refl (x : Except ε α) : Refines x x :=
  fun _ h => h

theorem error (e : ε) (y : Except ε α) : Refines (.error e) y :=
  nofun

theorem bind {f g : α → Except ε β} (h : Refines x y) (hfg : ∀ a, Refines (f a) (g a)) :
    Refines (x >>= f) (y >>= g) := by
  intro b hb
  cases x with
  | error e => cases hb
  | ok a =>
    rw [h a rfl]
    exact hfg a b hb

/-- A reader that refuses less finds no less. -/
theorem ite {p q : Prop} [Decidable p] [Decidable q] {e : ε} (hpq : q → p) (h : Refines x y) :
    Refines (if p then .error e else x) (if q then .error e else y) := by
  intro a ha
  split at ha
  · cases ha
  · next hp =>
    rw [if_neg (mt hpq hp)]
    exact h a ha

theorem toOption (h : Refines x y) {a : α} (ha : x.toOption = some a) : y.toOption = some a := by
  cases x with
  | error e => cases ha
  | ok b =>
    rw [h b rfl]
    exact ha

end Refines

/-! ## The order of the rules -/

/-- Every rule that `o` relaxes is relaxed by `o'`. -/
structure JsonOptions.RelaxedTo (o o' : JsonOptions) : Prop where
  leadingZeros : o.leadingZeros = true → o'.leadingZeros = true
  malformedDecimals : o.malformedDecimals = true → o'.malformedDecimals = true
  controlCharacters : o.controlCharacters = true → o'.controlCharacters = true
  invalidUnicode : o.invalidUnicode = true → o'.invalidUnicode = true
  duplicateKeys : o.duplicateKeys = true → o'.duplicateKeys = true
  byteOrderMark : o.byteOrderMark = true → o'.byteOrderMark = true

theorem JsonOptions.relaxedTo_legacy (o : JsonOptions) : o.RelaxedTo .legacy :=
  ⟨fun _ => rfl, fun _ => rfl, fun _ => rfl, fun _ => rfl, fun _ => rfl, fun _ => rfl⟩

namespace Json

variable {o o' : JsonOptions} {s : Bytes}

/-! ## Numbers and strings -/

theorem readNumber_relaxed (h : o.RelaxedTo o') (s : Bytes) :
    Refines (readNumber o s) (readNumber o' s) := by
  unfold readNumber
  refine .ite (fun hzero => ⟨hzero.1, hzero.2.1, mt h.leadingZeros hzero.2.2⟩) ?_
  dsimp only
  split
  · exact .refl _
  · refine .ite (fun hpoint => ⟨hpoint.1, mt h.malformedDecimals hpoint.2⟩) (.refl _)

theorem loneSurrogate_relaxed (h : o.RelaxedTo o') (unit : Nat) {escape rest : Bytes}
    (hrest : rest.length < escape.length) :
    Refines (loneSurrogate o unit escape rest hrest) (loneSurrogate o' unit escape rest hrest) := by
  unfold loneSurrogate
  intro r hr
  split at hr
  · next hunicode => rwa [if_pos (h.invalidUnicode hunicode)]
  · cases hr

theorem readNumbered_relaxed (h : o.RelaxedTo o') {escape digits : Bytes}
    (hdigits : digits.length < escape.length) :
    Refines (readNumbered o escape digits hdigits) (readNumbered o' escape digits hdigits) := by
  unfold readNumbered
  refine .bind (.refl _) fun first => ?_
  by_cases hhigh : isHighSurrogate first.value = true
  · rw [if_pos hhigh, if_pos hhigh]
    intro c hc
    refine (match_after afterNumbered? (P := (· = Except.ok c))).2 ?_
    obtain ⟨more, hmore, hc⟩ | ⟨hnone, hc⟩ := (match_after afterNumbered? (P := (· = _))).1 hc
    · refine .inl ⟨more, hmore, Refines.bind (.refl _) (fun second => ?_) c hc⟩
      split
      · generalize pairValue first.value second.value = n
        split
        · exact .refl _
        · exact loneSurrogate_relaxed h _ _
      · exact loneSurrogate_relaxed h _ _
    · exact .inr ⟨hnone, loneSurrogate_relaxed h _ _ c hc⟩
  · rw [if_neg hhigh, if_neg hhigh]
    split
    · exact .refl _
    · exact loneSurrogate_relaxed h _ _

theorem readEscape_relaxed (h : o.RelaxedTo o') (s : Bytes) :
    Refines (readEscape o s) (readEscape o' s) := by
  unfold readEscape
  split
  · split
    · exact .refl _
    · split
      · exact readNumbered_relaxed h _
      · exact .refl _
  · exact .refl _
  · exact .refl _

theorem readPlain_relaxed (h : o.RelaxedTo o') (b : UInt8) (rest : Bytes) :
    Refines (readPlain o b rest) (readPlain o' b rest) := by
  unfold readPlain
  split
  · intro r hr
    split at hr
    · next hcontrol => rwa [if_pos (h.controlCharacters hcontrol)]
    · cases hr
  · split
    · exact .refl _
    · intro r hr
      split at hr
      · next hunicode => rwa [if_pos (h.invalidUnicode hunicode)]
      · cases hr

/-- One character, escaped or not, that is no closing quote. -/
theorem readCharacter_relaxed (h : o.RelaxedTo o') (b : UInt8) (rest : Bytes) :
    Refines (if Char.ofUInt8 b = '\\' then readEscape o (b :: rest) else readPlain o b rest)
      (if Char.ofUInt8 b = '\\' then readEscape o' (b :: rest) else readPlain o' b rest) := by
  split
  · exact readEscape_relaxed h _
  · exact readPlain_relaxed h _ _

theorem readTextFrom_relaxed (h : o.RelaxedTo o') {start : Bytes} (front : List Char)
    (s : Bytes) (hs : s.length ≤ start.length) :
    Refines (readTextFrom o start front s hs) (readTextFrom o' start front s hs) := by
  induction hlength : s.length using Nat.strong_induction_on generalizing s front with
  | _ n ih =>
  rw [readTextFrom.eq_def, readTextFrom.eq_def o']
  cases s with
  | nil => exact .error _ _
  | cons b rest =>
    dsimp only
    split
    · exact .refl _
    · intro r hr
      split at hr
      · cases hr
      · next c hc =>
        rw [readCharacter_relaxed h b rest c hc]
        exact ih _ (hlength ▸ c.shorter) _ _ _ rfl _ hr

theorem readText_relaxed (h : o.RelaxedTo o') (s : Bytes) :
    Refines (readText o s) (readText o' s) :=
  readTextFrom_relaxed h [] s (Nat.le_refl _)

/-! ## Trees -/

theorem readScalar_relaxed (h : o.RelaxedTo o') {b : UInt8} {rest : Bytes}
    {r : Reading (b :: rest) Scalar} (hr : readScalar o b rest = some r) :
    readScalar o' b rest = some r := by
  unfold readScalar at hr ⊢
  split at hr
  case h_1 =>
    obtain ⟨text, htext, rfl⟩ := Option.map_eq_some_iff.1 hr
    rw [(readText_relaxed h rest).toOption htext]
    rfl
  case h_2 => exact hr
  case h_3 => exact hr
  case h_4 => exact hr
  case h_5 =>
    split at hr
    · next hnumber =>
      obtain ⟨n, hn, rfl⟩ := Option.map_eq_some_iff.1 hr
      have hnumber' : (Char.ofUInt8 b == '-' || (Char.ofUInt8 b).isDigit ||
          (Char.ofUInt8 b == '.' && o'.malformedDecimals)) = true := by
        simp only [Bool.or_eq_true, Bool.and_eq_true] at hnumber ⊢
        exact hnumber.imp_right (And.imp_right h.malformedDecimals)
      rw [if_pos hnumber', (readNumber_relaxed h _).toOption hn]
      rfl
    · cases hr

theorem readKey_relaxed (h : o.RelaxedTo o') {r : Reading s String} (hr : readKey o s = some r) :
    readKey o' s = some r := by
  obtain ⟨quote, hquote, hr⟩ := Option.bind_eq_some_iff.1 hr
  obtain ⟨key, hkey, hr⟩ := Option.bind_eq_some_iff.1 hr
  rw [readKey, hquote, Option.bind_eq_bind, Option.bind_some,
    (readText_relaxed h quote.rest).toOption hkey]
  exact hr

/-- A tree is read in the same way. -/
def ReadAlike (o o' : JsonOptions) (s : Bytes) : Prop :=
  ∀ ⦃depth r⦄, readTree o depth s = some r → readTree o' depth s = some r

theorem readTrees_relaxed {s : Bytes} (hvalues : ∀ t, t.length ≤ s.length → ReadAlike o o' t)
    {depth : Nat} {r : Reading s (List Written)} (hr : readTrees o depth s = some r) :
    readTrees o' depth s = some r := by
  have hblank := length_skipBlanks_le s
  obtain ⟨w, hw, ⟨comma, more, hcomma, hmore, rfl⟩ | ⟨hnone, close, hclose, rfl⟩⟩ :=
    readTrees_cases hr
  · have hshort : comma.rest.length < s.length :=
      Nat.lt_trans comma.shorter (Nat.lt_of_lt_of_le w.shorter hblank)
    rw [readTrees, hvalues _ hblank hw]
    dsimp only [Reading.widen]
    rw [hcomma]
    dsimp only
    rw [readTrees_relaxed (fun t ht => hvalues t (Nat.le_trans ht (Nat.le_of_lt hshort))) hmore]
    rfl
  · rw [readTrees, hvalues _ hblank hw]
    dsimp only [Reading.widen]
    rw [hnone]
    dsimp only
    rw [hclose]
    rfl
  termination_by s.length

theorem readTreeMembers_relaxed (h : o.RelaxedTo o') {s : Bytes}
    (hvalues : ∀ t, t.length ≤ s.length → ReadAlike o o' t)
    {depth : Nat} {keys : List String} {r : Reading s (List (String × Written))}
    (hr : readTreeMembers o depth keys s = some r) :
    readTreeMembers o' depth keys s = some r := by
  obtain ⟨key, w, hkey, hnew, hw, hmore⟩ := readTreeMembers_cases hr
  have hnew' : ¬ (key.value ∈ keys ∧ ¬ o'.duplicateKeys = true) :=
    fun hrepeated => hnew ⟨hrepeated.1, mt h.duplicateKeys hrepeated.2⟩
  have hbehind := Nat.lt_of_le_of_lt (length_skipBlanks_le key.rest) key.shorter
  rw [readTreeMembers, readKey_relaxed h hkey]
  dsimp only
  rw [if_neg hnew', hvalues _ (Nat.le_of_lt hbehind) hw]
  dsimp only [Reading.map, Reading.widen, Reading.next]
  obtain ⟨comma, more, hcomma, hmore, rfl⟩ | ⟨hnone, close, hclose, rfl⟩ := hmore
  · have hshort : comma.rest.length < s.length :=
      Nat.lt_trans comma.shorter (Nat.lt_trans w.shorter hbehind)
    rw [hcomma]
    dsimp only
    rw [readTreeMembers_relaxed h
      (fun t ht => hvalues t (Nat.le_trans ht (Nat.le_of_lt hshort))) hmore]
    rfl
  · rw [hnone]
    dsimp only
    rw [hclose]
    rfl
  termination_by s.length

theorem readTree_relaxed (h : o.RelaxedTo o') (s : Bytes) : ReadAlike o o' s := by
  -- Values within a container are read from shorter inputs.
  induction hlength : s.length using Nat.strong_induction_on generalizing s with
  | _ n ih =>
  intro depth r hr
  cases s with
  | nil =>
    rw [readTree] at hr
    cases hr
  | cons b rest =>
    have hvalues : ∀ t, t.length ≤ rest.length → ReadAlike o o' t := fun t ht =>
      ih _ (hlength ▸ Nat.lt_succ_of_le ht) t rfl
    by_cases hobject : Char.ofUInt8 b = '\x7b'
    · obtain ⟨hroom, ⟨close, hclose, rfl⟩ | ⟨hnone, members, hmembers, rfl⟩⟩ :=
        readTree_object hobject hr
      · rw [readTree, if_pos hobject, if_neg hroom, hclose]
      · rw [readTree, if_pos hobject, if_neg hroom, hnone]
        dsimp only
        rw [readTreeMembers_relaxed h hvalues hmembers]
        rfl
    by_cases harray : Char.ofUInt8 b = '['
    · obtain ⟨hroom, ⟨close, hclose, rfl⟩ | ⟨hnone, items, hitems, rfl⟩⟩ :=
        readTree_array hobject harray hr
      · rw [readTree, if_neg hobject, if_pos harray, if_neg hroom, hclose]
      · rw [readTree, if_neg hobject, if_pos harray, if_neg hroom, hnone]
        dsimp only
        rw [readTrees_relaxed hvalues hitems]
        rfl
    · obtain ⟨x, hx, rfl⟩ := readTree_scalar hobject harray hr
      rw [readTree, if_neg hobject, if_neg harray, readScalar_relaxed h hx]
      rfl

/-! ## Texts -/

theorem written_relaxed (h : o.RelaxedTo o') {w : Written} (hw : written o s = some w) :
    written o' s = some w := by
  unfold written at hw ⊢
  dsimp only at hw ⊢
  split at hw
  · cases hw
  next hmarked =>
  rw [if_neg fun hrefused => hmarked ⟨hrefused.1, mt h.byteOrderMark hrefused.2⟩]
  obtain ⟨r, hr, rfl⟩ := Option.map_eq_some_iff.1 hw
  obtain ⟨hr, hend⟩ := Option.filter_eq_some_iff.1 hr
  rw [readTree_relaxed h _ hr, Option.filter_some, if_pos hend]
  rfl

/--
Relaxing rules does not change what is read: where a text is a document under some rules, it is the
same document where more of them are relaxed, and its values stand in the same slots, each with the
same content, the same parent and the same key.
-/
theorem read_relaxed {d : Document} (h : o.RelaxedTo o') (hread : read o s = .ok d) :
    read o' s = .ok d ∧
      ∃ w : Written, w.settle = d.root ∧ arena o s = some w.slots ∧ arena o' s = some w.slots ∧
        w.slots.length = d.size := by
  obtain ⟨w, hw, hroot⟩ := read_eq_ok_iff.1 hread
  have hw' : written o' s = some w := written_relaxed h hw
  refine ⟨read_eq_ok_iff.2 ⟨w, hw', hroot⟩, w, hroot, ?_, ?_, ?_⟩
  · rw [arena, hw, Option.map_some]
  · rw [arena, hw', Option.map_some]
  · rw [Written.length_slots, hroot, Document.size]

/-- A key that is repeated has two slots, of which its object holds the second. -/
theorem read_relaxed_repeated_key :
    ∃ d, read { JsonOptions.strict with duplicateKeys := true }
        (textBytes "\x7b\"a\":1,\"b\":[],\"a\":2\x7d") = .ok d ∧
      JsonOptions.RelaxedTo { JsonOptions.strict with duplicateKeys := true } .legacy ∧
      read .legacy (textBytes "\x7b\"a\":1,\"b\":[],\"a\":2\x7d") = .ok d ∧
      arena .legacy (textBytes "\x7b\"a\":1,\"b\":[],\"a\":2\x7d") = some
        [⟨.object [("a", 3), ("b", 2)], none, none⟩,
          ⟨.scalar (.number (.int 1)), some 0, some (.member "a")⟩,
          ⟨.array [], some 0, some (.member "b")⟩,
          ⟨.scalar (.number (.int 2)), some 0, some (.member "a")⟩] := by
  have hrelaxed := JsonOptions.relaxedTo_legacy { JsonOptions.strict with duplicateKeys := true }
  have hread : read { JsonOptions.strict with duplicateKeys := true }
      (textBytes "\x7b\"a\":1,\"b\":[],\"a\":2\x7d") =
      .ok ⟨.object [("a", .number (.int 2)), ("b", .array [])] [("a", .number (.int 1))]⟩ := by
    cbv
  refine ⟨_, hread, hrelaxed, (read_relaxed hrelaxed hread).1, ?_⟩
  obtain ⟨w, -, hslots, hslots', -⟩ := (read_relaxed hrelaxed hread).2
  rw [hslots', ← hslots]
  cbv

end Json

end PackageAudit
