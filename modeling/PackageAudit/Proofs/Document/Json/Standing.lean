import PackageAudit.Proofs.Document.Json.Located

/-!
# Proofs.Document.Json.Standing — the numbers of a document stand in its text

What is read under any rules has the numbers of literals that stand in the text, with nothing around
them that could belong to them; it has no key twice in one object, and it nests no deeper than 512.

* `Json.StandsIn` — the number of a literal that stands in a text;
* `Json.suffix_of_readText`, `Json.suffix_of_readNumber` — what a reader leaves is the end of the
  input;
* `Json.ReadIn` — what holds of a value that is read in a text;
* `Json.readIn_of_readItems`, `Json.readIn_of_readMembers` — it holds of a container, if it holds of
  what the reader finds in it;
* `Json.readIn_of_read` — it holds of every document, by induction on what is left of the input.
-/

namespace PackageAudit

namespace Json

variable {o : JsonOptions} {b : UInt8} {c : Char} {s rest text : Bytes}

/-! ## What is left of an input -/

theorem suffix_skipBlanks (s : Bytes) : skipBlanks s <:+ s :=
  List.dropWhile_suffix isBlank

theorem suffix_of_after? (hc : c.toNat < 256) (h : after? c s = some rest) : rest <:+ s :=
  ⟨[c.toUInt8], (eq_cons_of_after? hc h).symm⟩

theorem suffix_of_readUnit {start : Bytes} {unit : Reading s Nat}
    (h : readUnit start s = .ok unit) : unit.rest <:+ s := by
  obtain ⟨ds, -, hs⟩ := (readUnit_iff start).1 ⟨unit, h, rfl, rfl⟩
  exact ⟨ds, hs.symm⟩

theorem suffix_of_loneSurrogate {start : Bytes} {unit : Nat} {h : rest.length < start.length}
    {r : Reading start Char} (hread : loneSurrogate o unit start rest h = .ok r) :
    r.rest = rest := by
  unfold loneSurrogate at hread
  split at hread
  · cases hread
    rfl
  · cases hread

theorem suffix_of_readNumbered {start : Bytes} {h : s.length < start.length}
    {r : Reading start Char} (hread : readNumbered o start s h = .ok r) : r.rest <:+ s := by
  unfold readNumbered at hread
  cases hfirst : readUnit start s with
  | error e =>
    rw [hfirst] at hread
    cases hread
  | ok first =>
  have hrest := suffix_of_readUnit hfirst
  have hlone {unit : Nat} {h : first.rest.length < start.length}
      (hread : loneSurrogate o unit start first.rest h = .ok r) : r.rest <:+ s :=
    suffix_of_loneSurrogate hread ▸ hrest
  rw [hfirst, ok_bind] at hread
  split at hread
  · obtain ⟨more, hmore, hread⟩ | ⟨-, hread⟩ :=
      (match_after afterNumbered? (P := (· = _))).1 hread
    · cases hsecond : readUnit first.rest more with
      | error e =>
        rw [hsecond] at hread
        cases hread
      | ok second =>
      have hmore : more <:+ first.rest := ⟨escape 'u' [], (afterNumbered?_iff.1 hmore).symm⟩
      rw [hsecond, ok_bind] at hread
      split at hread
      · split at hread
        · cases hread
          exact (suffix_of_readUnit hsecond).trans (hmore.trans hrest)
        · exact hlone hread
      · exact hlone hread
    · exact hlone hread
  · split at hread
    · cases hread
      exact hrest
    · exact hlone hread

theorem suffix_of_readEscape {r : Reading s Char} (hread : readEscape o s = .ok r) :
    r.rest <:+ s := by
  unfold readEscape at hread
  split at hread
  · next first letter rest =>
    split at hread
    · cases hread
      exact ⟨[first, letter], rfl⟩
    · split at hread
      · exact (suffix_of_readNumbered hread).trans ⟨[first, letter], rfl⟩
      · cases hread
  · cases hread
  · cases hread

theorem suffix_of_readPlain {r : Reading (b :: rest) Char} (hread : readPlain o b rest = .ok r) :
    r.rest <:+ b :: rest := by
  unfold readPlain at hread
  split at hread
  · split at hread
    · cases hread
      exact List.suffix_cons b rest
    · cases hread
  · split at hread
    · next h =>
      cases hread
      exact ⟨_, (Utf8.decodeChar_eq_some_iff.1 h).symm⟩
    · split at hread
      · cases hread
        exact List.suffix_cons b rest
      · cases hread

theorem suffix_of_readTextFrom {start : Bytes} {front : List Char} {h : s.length ≤ start.length}
    {r : Reading start String} (hread : readTextFrom o start front s h = .ok r) : r.rest <:+ s := by
  induction hlength : s.length using Nat.strong_induction_on generalizing s front with
  | _ n ih =>
  rw [readTextFrom.eq_def] at hread
  cases s with
  | nil => cases hread
  | cons b rest =>
    dsimp only at hread
    split at hread
    · cases hread
      exact List.suffix_cons b rest
    split at hread
    · cases hread
    next c hc =>
    have hsuffix : c.rest <:+ b :: rest := by
      split at hc
      · exact suffix_of_readEscape hc
      · exact suffix_of_readPlain hc
    exact (ih _ (hlength ▸ c.shorter) hread rfl).trans hsuffix

/-- Behind a string is the end of the input. -/
theorem suffix_of_readText {k : String} (h : Yields (readText o s) k rest) : rest <:+ s := by
  obtain ⟨r, hr, -, rfl⟩ := h
  exact suffix_of_readTextFrom hr

/-- Behind a number is the end of the input. -/
theorem suffix_of_readNumber {n : Number} (h : Yields (readNumber o s) n rest) : rest <:+ s := by
  obtain ⟨l, bs, -, -, -, rfl, -⟩ := readNumber_iff.1 h
  exact List.suffix_append bs rest

/-! ## Where values begin -/

/-- At `s` a value may begin: nothing in front of it in the text could belong to a number. -/
def BeginsAt (text s : Bytes) : Prop :=
  ∃ front, text = front ++ s ∧ Clear front

theorem BeginsAt.suffix (h : BeginsAt text s) : s <:+ text := by
  obtain ⟨front, htext, -⟩ := h
  exact ⟨front, htext.symm⟩

theorem BeginsAt.skipBlanks (h : BeginsAt text s) : BeginsAt text (skipBlanks s) := by
  obtain ⟨front, rfl, hclear⟩ := h
  obtain ⟨w, hw, hs⟩ := blank_skipBlanks s
  exact ⟨front ++ w, by rw [List.append_assoc, ← hs], hclear.append (clear_of_blank hw)⟩

theorem beginsAt_behind (hs : b :: rest <:+ text) (hb : ¬ InNumber b) : BeginsAt text rest := by
  obtain ⟨front, rfl⟩ := hs
  exact ⟨front ++ [b], by rw [List.append_assoc, List.singleton_append], clear_concat front hb⟩

theorem beginsAt_of_mark (hs : s <:+ text) (hc : c.toNat < 256) (hclear : ¬ InNumber c.toUInt8)
    (h : after? c (skipBlanks s) = some rest) : BeginsAt text rest := by
  refine beginsAt_behind ?_ hclear
  rw [← eq_cons_of_after? hc h]
  exact (suffix_skipBlanks s).trans hs

/-- The literal stands in the text, and nothing around it could belong to it. -/
def Literal.StandsIn (l : Literal) (o : JsonOptions) (text : Bytes) : Prop :=
  ∃ bs front rest, LooseNumeral l bs ∧ l.Allowed o ∧ text = front ++ (bs ++ rest) ∧
    Clear front ∧ l.Ends rest

/-- The number is that of a literal that stands in the text. -/
def StandsIn (o : JsonOptions) (text : Bytes) (n : Number) : Prop :=
  ∃ l : Literal, l.StandsIn o text ∧ Denotes l n

theorem standsIn_of_readNumber {n : Number} (hbegins : BeginsAt text s)
    (hread : Yields (readNumber o s) n rest) : StandsIn o text n := by
  obtain ⟨front, rfl, hclear⟩ := hbegins
  obtain ⟨l, bs, hl, ho, hn, rfl, hends⟩ := readNumber_iff.1 hread
  exact ⟨l, ⟨bs, front, rest, hl, ho, rfl, hclear, hends⟩, hn⟩

/-! ## What holds of a value -/

/-- What holds of a value in a text that may nest as deep as `room`. -/
structure ReadIn (o : JsonOptions) (text : Bytes) (room : Nat) (v : Value) : Prop where
  numbers : v.AllNumbers (StandsIn o text)
  keys : v.KeysDistinct
  shallow : v.nesting ≤ room

section Values

variable {room : Nat} {v : Value} {vs : List Value} {m : Members} {name : String}

theorem readIn_null : ReadIn o text room .null :=
  ⟨trivial, trivial, Nat.zero_le _⟩

theorem readIn_bool (b : Bool) : ReadIn o text room (.bool b) :=
  ⟨trivial, trivial, Nat.zero_le _⟩

theorem readIn_string (k : String) : ReadIn o text room (.string k) :=
  ⟨trivial, trivial, Nat.zero_le _⟩

theorem readIn_number {n : Number} (h : StandsIn o text n) : ReadIn o text room (.number n) :=
  ⟨h, trivial, Nat.zero_le _⟩

theorem ReadIn.array (hroom : 0 < room) (h : ∀ v ∈ vs, ReadIn o text (room - 1) v) :
    ReadIn o text room (.array vs) := by
  refine ⟨Value.allNumbersOf_iff.2 fun v hv => (h v hv).numbers,
    Value.allKeysDistinct_iff.2 fun v hv => (h v hv).keys, ?_⟩
  have hnesting := Value.nestingAll_le_iff.2 fun v hv => (h v hv).shallow
  rw [Value.nesting]
  omega

/-- The members read so far have different keys, and the same holds of their values. -/
structure Members.ReadIn (o : JsonOptions) (text : Bytes) (room : Nat) (m : Members) : Prop where
  keys : (m.kept.map Prod.fst).Nodup
  values : ∀ l ∈ m.kept, Json.ReadIn o text room l.2

theorem Members.readIn_empty : Members.ReadIn o text room ⟨[], []⟩ :=
  ⟨List.nodup_nil, List.forall_mem_nil _⟩

theorem Members.ReadIn.put (hm : m.ReadIn o text room) (name : String)
    (hv : Json.ReadIn o text room v) : (m.put name v).ReadIn o text room := by
  rw [Members.put]
  split
  · next kept old hreplace =>
    obtain ⟨hkeys, hmem⟩ := Value.of_replace? hreplace
    refine ⟨hkeys ▸ hm.keys, fun l hl => ?_⟩
    rcases hmem l hl with hl | hl
    · exact hm.values l hl
    · exact hl ▸ hv
  · next hnew =>
    exact ⟨List.nodup_cons.2 ⟨replace?_eq_none_iff.1 hnew, hm.keys⟩,
      List.forall_mem_cons.2 ⟨hv, hm.values⟩⟩

theorem Members.ReadIn.toValue (hroom : 0 < room) (hm : m.ReadIn o text (room - 1)) :
    Json.ReadIn o text room m.toValue := by
  have hvalues : ∀ l ∈ m.kept.reverse, Json.ReadIn o text (room - 1) l.2 := fun l hl =>
    hm.values l (List.mem_reverse.1 hl)
  refine ⟨Value.membersNumbers_iff.2 fun l hl => (hvalues l hl).numbers, ⟨?_,
    Value.membersKeysDistinct_iff.2 fun l hl => (hvalues l hl).keys⟩, ?_⟩
  · rw [List.map_reverse, List.nodup_reverse]
    exact hm.keys
  · have hnesting := Value.nestingMembers_le_iff.2 fun l hl => (hvalues l hl).shallow
    rw [Members.toValue, Value.nesting]
    omega

end Values

/-! ## Every value -/

variable {site : Site} {v : Value}

/-- It holds of every value that begins at `s`, and behind the value is the end of the input. -/
def ReadsIn (o : JsonOptions) (text s : Bytes) : Prop :=
  BeginsAt text s → ∀ ⦃site v rest⦄, Yields (readValue o site s) v rest →
    ReadIn o text site.room v ∧ rest <:+ s

theorem readIn_of_readItems {start : Bytes} {index : Nat} {items : List Value}
    {h : s.length < start.length} (hvalues : ∀ t, t.length ≤ s.length → ReadsIn o text t)
    (hbegins : BeginsAt text s) (hroom : 0 < site.room)
    (hitems : ∀ u ∈ items, ReadIn o text (site.room - 1) u)
    (hread : Yields (readItems o site start index items s h) v rest) :
    ReadIn o text site.room v ∧ rest <:+ s := by
  induction hlength : s.length using Nat.strong_induction_on generalizing s index items with
  | _ n ih =>
  rw [readItems] at hread
  dsimp only at hread
  split at hread
  · exact absurd hread not_yields_error
  next r hr =>
  obtain ⟨hvalue, hrest⟩ :=
    hvalues _ (length_skipBlanks_le s) hbegins.skipBlanks ⟨r, hr, rfl, rfl⟩
  have hmore : ∀ u ∈ r.value :: items, ReadIn o text (site.room - 1) u :=
    List.forall_mem_cons.2 ⟨hvalue, hitems⟩
  have hrest : r.rest <:+ s := hrest.trans (suffix_skipBlanks s)
  have hbehind {c : Char} {t : Bytes} (hc : c.toNat < 256) (h : after? c (skipBlanks r.rest) = some t) :
      t <:+ s :=
    (suffix_of_after? hc h).trans ((suffix_skipBlanks r.rest).trans hrest)
  split at hread
  · next more hcomma =>
    have hshort : more.length < s.length :=
      calc more.length < (skipBlanks r.rest).length := lt_of_after? hcomma
        _ ≤ r.rest.length := length_skipBlanks_le r.rest
        _ ≤ s.length := hrest.length_le
    obtain ⟨hv, hend⟩ := ih _ (hlength ▸ hshort)
      (fun t ht => hvalues t (Nat.le_trans ht (Nat.le_of_lt hshort)))
      (beginsAt_of_mark (hrest.trans hbegins.suffix) (by decide) (by decide) hcomma) hmore hread rfl
    exact ⟨hv, hend.trans (hbehind (by decide) hcomma)⟩
  · split at hread
    · next hclose =>
      obtain ⟨rfl, rfl⟩ := yields_ok.1 hread
      exact ⟨.array hroom fun u hu => hmore u (List.mem_reverse.1 hu), hbehind (by decide) hclose⟩
    · exact absurd hread not_yields_error

theorem readIn_of_readMembers {start : Bytes} {m : Members} {h : s.length < start.length}
    (hvalues : ∀ t, t.length ≤ s.length → ReadsIn o text t) (hs : s <:+ text)
    (hroom : 0 < site.room) (hm : m.ReadIn o text (site.room - 1))
    (hread : Yields (readMembers o site start m s h) v rest) :
    ReadIn o text site.room v ∧ rest <:+ s := by
  induction hlength : s.length using Nat.strong_induction_on generalizing s m with
  | _ n ih =>
  rw [readMembers] at hread
  dsimp only at hread
  split at hread
  · exact absurd hread not_yields_error
  next s₂ hquote =>
  split at hread
  · exact absurd hread not_yields_error
  next name hname =>
  split at hread
  · exact absurd hread not_yields_error
  next s₄ hcolon =>
  split at hread
  · exact absurd hread not_yields_error
  split at hread
  · exact absurd hread not_yields_error
  next r hr =>
  have hname : name.rest <:+ s :=
    (suffix_of_readText ((under_yields _).1 ⟨name, hname, rfl, rfl⟩)).trans
      ((suffix_of_after? (by decide) hquote).trans (suffix_skipBlanks s))
  have hvaluePlace : s₄ <:+ s :=
    (suffix_of_after? (by decide) hcolon).trans ((suffix_skipBlanks name.rest).trans hname)
  have hbegins : BeginsAt text s₄ :=
    beginsAt_of_mark (hname.trans hs) (by decide) (by decide) hcolon
  obtain ⟨hvalue, hrest⟩ := hvalues _
    (Nat.le_trans (length_skipBlanks_le s₄) hvaluePlace.length_le) hbegins.skipBlanks
    ⟨r, hr, rfl, rfl⟩
  have hmore := hm.put name.value hvalue
  have hrest : r.rest <:+ s := hrest.trans ((suffix_skipBlanks s₄).trans hvaluePlace)
  have hbehind {c : Char} {t : Bytes} (hc : c.toNat < 256) (h : after? c (skipBlanks r.rest) = some t) :
      t <:+ s :=
    (suffix_of_after? hc h).trans ((suffix_skipBlanks r.rest).trans hrest)
  split at hread
  · next more hcomma =>
    have hshort : more.length < s.length :=
      calc more.length < (skipBlanks r.rest).length := lt_of_after? hcomma
        _ ≤ r.rest.length := length_skipBlanks_le r.rest
        _ ≤ s.length := hrest.length_le
    obtain ⟨hv, hend⟩ := ih _ (hlength ▸ hshort)
      (fun t ht => hvalues t (Nat.le_trans ht (Nat.le_of_lt hshort)))
      ((hbehind (by decide) hcomma).trans hs) hmore hread rfl
    exact ⟨hv, hend.trans (hbehind (by decide) hcomma)⟩
  · split at hread
    · next hclose =>
      obtain ⟨rfl, rfl⟩ := yields_ok.1 hread
      exact ⟨hmore.toValue hroom, hbehind (by decide) hclose⟩
    · exact absurd hread not_yields_error

theorem readsIn (o : JsonOptions) (text s : Bytes) : ReadsIn o text s := by
  -- Values within a container are read from shorter inputs.
  induction hlength : s.length using Nat.strong_induction_on generalizing s with
  | _ n ih =>
  intro hbegins site v rest hread
  cases s with
  | nil =>
    rw [readValue] at hread
    exact absurd hread not_yields_error
  | cons b s =>
    have hvalues : ∀ t, t.length ≤ s.length → ReadsIn o text t := fun t ht =>
      ih _ (hlength ▸ Nat.lt_succ_of_le ht) t rfl
    have hinside : s <:+ b :: s := List.suffix_cons b s
    have hname {first : Char} {others : List Char} {value : Value}
        (hword : (first :: others).all (·.toNat < 0x80) = true)
        (hvalue : ReadIn o text site.room value)
        (hread : Yields (readName first others value site.path (b :: s)) v rest) :
        ReadIn o text site.room v ∧ rest <:+ b :: s := by
      obtain ⟨rfl, hs⟩ := (readName_iff hword).1 hread
      exact ⟨hvalue, ⟨_, hs.symm⟩⟩
    rw [readValue] at hread
    split at hread
    case h_1 =>
      split at hread
      · exact absurd hread not_yields_error
      next hdepth =>
      have hroom : 0 < site.room := Nat.sub_pos_of_lt (Nat.lt_of_not_le hdepth)
      dsimp only at hread
      split at hread
      · next hclose =>
        obtain ⟨rfl, rfl⟩ := yields_ok.1 hread
        exact ⟨Members.readIn_empty.toValue hroom, (suffix_of_after? (by decide) hclose).trans
          ((suffix_skipBlanks s).trans hinside)⟩
      · obtain ⟨hv, hrest⟩ := readIn_of_readMembers hvalues (hinside.trans hbegins.suffix) hroom
          Members.readIn_empty hread
        exact ⟨hv, hrest.trans hinside⟩
    case h_2 hb =>
      split at hread
      · exact absurd hread not_yields_error
      next hdepth =>
      have hroom : 0 < site.room := Nat.sub_pos_of_lt (Nat.lt_of_not_le hdepth)
      dsimp only at hread
      split at hread
      · next hclose =>
        obtain ⟨rfl, rfl⟩ := yields_ok.1 hread
        exact ⟨.array hroom (List.forall_mem_nil _), (suffix_of_after? (by decide) hclose).trans
          ((suffix_skipBlanks s).trans hinside)⟩
      · have hbracket : ¬ InNumber b := by
          rw [(ofUInt8_eq_iff (by decide)).1 hb]
          decide
        obtain ⟨hv, hrest⟩ := readIn_of_readItems hvalues
          (beginsAt_behind hbegins.suffix hbracket) hroom (List.forall_mem_nil _) hread
        exact ⟨hv, hrest.trans hinside⟩
    case h_3 =>
      obtain ⟨r, hr, rfl, rfl⟩ := map_yields.1 hread
      have htext := suffix_of_readText ((under_yields _).1 ⟨r, hr, rfl, rfl⟩)
      exact ⟨readIn_string r.value, htext.trans hinside⟩
    case h_4 => exact hname rfl (readIn_bool true) hread
    case h_5 => exact hname rfl (readIn_bool false) hread
    case h_6 => exact hname rfl readIn_null hread
    case h_7 =>
      split at hread
      · obtain ⟨r, hr, rfl, rfl⟩ := map_yields.1 hread
        have hnumber := (under_yields _).1 ⟨r, hr, rfl, rfl⟩
        exact ⟨readIn_number (standsIn_of_readNumber hbegins hnumber),
          suffix_of_readNumber hnumber⟩
      · exact absurd hread not_yields_error

/-- A document of a JSON text, whatever the rules. -/
theorem readIn_of_read {d : Document} (h : read o text = .ok d) : ReadIn o text 512 d.root := by
  unfold read at h
  split at h
  · next root hroot =>
    cases h
    unfold readTextOf at hroot
    dsimp only at hroot
    split at hroot
    · cases hroot
    split at hroot
    · cases hroot
    next r hr =>
    split at hroot
    · cases hroot
      have hbegins : BeginsAt text (if byteOrderMark.isPrefixOf text then text.drop 3 else text) := by
        split
        · next hmark =>
          obtain ⟨rest, rfl⟩ := List.isPrefixOf_iff_prefix.1 hmark
          exact ⟨byteOrderMark, rfl, clear_concat [0xEF, 0xBB] (by decide)⟩
        · exact ⟨[], rfl, .nil⟩
      exact (readsIn o text _ hbegins.skipBlanks ⟨r, hr, rfl, rfl⟩).1
    · cases hroot
  · cases h

end Json

end PackageAudit
