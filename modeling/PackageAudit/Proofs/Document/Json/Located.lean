import PackageAudit.Proofs.Document.Json.Builder
import PackageAudit.Proofs.Document.Json.Strictness

/-!
# Proofs.Document.Json.Located — where a text breaks a rule

A text that only the relaxed reader accepts has a document. What the strict reader says of such a
text names a slot of it, and a byte of the text:

* `Json.BadText`, `Json.BadLiteral`, `Json.OpensKey` — the bytes from which on a rule is broken;
* `Json.Breaks` — the same with the part of the tree that is concerned;
* `Json.locatedAt_items`, `Json.locatedAt_members` — the parts of a container, if the values in it
  are located;
* `Json.located` — every value, by induction on what is left of the input;
* `Json.Offends` — the slot that is concerned;
* `Json.parse_error_located` — whole texts.

Both readers find the same up to the byte at which the strict one stops, so its path leads through
the tree that the relaxed one reads.
-/

namespace PackageAudit

namespace Json

variable {b : UInt8} {s front place pre : Bytes} {fault : JsonFault}

/-! ## Bytes in front of a number -/

/-- A byte that may belong to a number. -/
def InNumber (b : UInt8) : Prop :=
  Digit b ∨ b ∈ ['-', '+', '.', 'e', 'E'].map Char.toUInt8

instance : DecidablePred InNumber := fun b =>
  inferInstanceAs (Decidable (Digit b ∨ b ∈ ['-', '+', '.', 'e', 'E'].map Char.toUInt8))

/-- A number behind these bytes does not begin among them. -/
def Clear (front : Bytes) : Prop :=
  ∀ b, front.getLast? = some b → ¬ InNumber b

theorem Clear.nil : Clear [] :=
  nofun

theorem clear_concat (s : Bytes) (hb : ¬ InNumber b) : Clear (s ++ [b]) := by
  intro last hlast
  rw [List.getLast?_concat] at hlast
  cases hlast
  exact hb

theorem Clear.append (hpre : Clear pre) (hfront : Clear front) : Clear (pre ++ front) := by
  intro b hb
  rw [List.getLast?_append] at hb
  cases hlast : front.getLast? with
  | some last =>
    rw [hlast] at hb
    cases hb
    exact hfront _ hlast
  | none =>
    rw [hlast] at hb
    exact hpre b hb

theorem clear_of_blank (h : Blank s) : Clear s := by
  intro b hb
  rcases h b (List.mem_of_getLast? hb) with rfl | rfl | rfl | rfl <;> decide

theorem clear_of_keyText {k : String} {p : Bytes} (h : KeyText k p) : Clear p := by
  cases h with
  | @mk w t w' _ _ _ =>
    have hcolon : w ++ (t ++ (w' ++ [':'.toUInt8])) = (w ++ t ++ w') ++ [':'.toUInt8] := by
      simp only [List.append_assoc]
    rw [hcolon]
    exact clear_concat _ (by decide)

/-! ## Broken rules -/

/-- A string opens in `front`, is read as `name` down to `rest`, and is bad at `place`. -/
inductive BadText (place : Bytes) (fault : JsonFault) : Bytes → String → Bytes → Prop
  | mk {before inside : Bytes} {name : Reading (inside ++ place) String}
      (hread : readText .legacy (inside ++ place) = .ok name)
      (hinside : name.rest.length < place.length) (hbad : BadCharacter place fault) :
      BadText place fault (before ++ '"'.toUInt8 :: inside) name.value name.rest

/-- A bad number begins at `place`, behind `front`, and reads as `value`. -/
structure BadLiteral (front place : Bytes) (fault : JsonFault) (value : Number) : Prop where
  clear : Clear front
  bad : BadNumber place fault
  read : ∃ n, readNumber .legacy place = .ok n ∧ n.value = value

/-- At `place` opens the quote of a key. -/
def OpensKey (place : Bytes) (key : String) : Prop :=
  ∃ behind, place = '"'.toUInt8 :: behind ∧ ∃ name, readText .strict behind = .ok name ∧
    name.value = key ∧ ∃ value, after? ':' (skipBlanks name.rest) = some value

/-- Behind `front`, at `place`, a rule is broken in the part of a tree to which keys lead. -/
inductive Breaks (front place : Bytes) (fault : JsonFault) : Written → List Key → Prop
  | string {name : String} {rest : Bytes} (h : BadText place fault front name rest) :
      Breaks front place fault (.scalar (.string name)) []
  | key {name : String} {rest value : Bytes} {members : List (String × Written)}
      (h : BadText place fault front name rest) (hcolon : after? ':' (skipBlanks rest) = some value)
      (hmember : name ∈ members.map Prod.fst) : Breaks front place fault (.object members) []
  | number {value : Number} (h : BadLiteral front place fault value) :
      Breaks front place fault (.scalar (.number value)) []
  | repeated {key : String} {x : Written} {before behind : List (String × Written)}
      (hfault : fault = .duplicateKey key) (hkey : OpensKey place key)
      (hearlier : key ∈ before.map Prod.fst) :
      Breaks front place fault (.object (before ++ (key, x) :: behind)) [.member key]
  | part {w x : Written} {key : Key} {keys : List Key} (hpart : (key, x) ∈ w.parts)
      (h : Breaks front place fault x keys) : Breaks front place fault w (key :: keys)

theorem BadText.prepend {name : String} {rest : Bytes} (pre : Bytes)
    (h : BadText place fault front name rest) : BadText place fault (pre ++ front) name rest := by
  cases h with
  | @mk before inside name hread hinside hbad =>
    rw [← List.append_assoc]
    exact .mk hread hinside hbad

theorem Breaks.prepend {w : Written} {keys : List Key} (hpre : Clear pre)
    (h : Breaks front place fault w keys) : Breaks (pre ++ front) place fault w keys := by
  induction h with
  | string h => exact .string (h.prepend pre)
  | key h hcolon hmember => exact .key (h.prepend pre) hcolon hmember
  | number h => exact .number ⟨hpre.append h.clear, h.bad, h.read⟩
  | repeated hfault hkey hearlier => exact .repeated hfault hkey hearlier
  | part hpart _ ih => exact .part hpart ih

/-! ## Where the strict reader stops -/

variable {above : List Key} {stop : Stop} {w x : Written} {site : Site}

/-- The place at which a reader of `s` stopped breaks a rule in the part that the path names. -/
def LocatedAt (s : Bytes) (above : List Key) (stop : Stop) (w : Written) : Prop :=
  ∃ front keys, s = front ++ stop.place ∧ stop.path = keys.reverse ++ above ∧
    Breaks front stop.place stop.fault w keys

theorem LocatedAt.prepend {t : Bytes} (h : LocatedAt t above stop w) (hs : s = pre ++ t)
    (hpre : Clear pre) : LocatedAt s above stop w := by
  obtain ⟨front, keys, rfl, hpath, hbreaks⟩ := h
  exact ⟨pre ++ front, keys, by rw [hs, List.append_assoc], hpath, hbreaks.prepend hpre⟩

theorem LocatedAt.part {key : Key} (hpart : (key, x) ∈ w.parts)
    (h : LocatedAt s (key :: above) stop x) : LocatedAt s above stop w := by
  obtain ⟨front, keys, hs, hpath, hbreaks⟩ := h
  refine ⟨front, key :: keys, hs, ?_, .part hpart hbreaks⟩
  rw [hpath, List.reverse_cons, List.append_assoc, List.singleton_append]

/-- Where only the strict reader refuses the value at the head of `s`, it says where. -/
def Located (s : Bytes) : Prop :=
  ∀ ⦃site stop r⦄, readValue .strict site s = .error stop →
    readTree .legacy site.depth s = some r → LocatedAt s site.path stop r.value

/-- What the strict reader finds is the tree that the relaxed one reads. -/
theorem settle_of_readTree {v : Reading s Value} {r : Reading s Written}
    (hstrict : readValue .strict site s = .ok v)
    (hlegacy : readTree .legacy site.depth s = some r) : r.map Written.settle = v := by
  have htree := settles .strict s site
  rw [hstrict] at htree
  obtain ⟨r', hr', rfl⟩ := Option.map_eq_some_iff.1 htree.symm
  have hrelaxed := readTree_relaxed (JsonOptions.relaxedTo_legacy .strict) s hr'
  cases hrelaxed.symm.trans hlegacy
  rfl

/-- From a value that the strict reader finds on, up to a mark, no number goes on behind it. -/
theorem exists_clear_front {v : Reading (skipBlanks s) Value} {c : Char}
    {mark : Reading v.rest Unit} (hread : readValue .strict site (skipBlanks s) = .ok v)
    (hmark : mark? c v.rest = some mark) (hc : c.toNat < 256) (hclear : ¬ InNumber c.toUInt8) :
    ∃ pre, s = pre ++ mark.rest ∧ Clear pre := by
  obtain ⟨⟨bs, -, hs⟩, -⟩ := item_of_readValue (found_of_readValue _) hread
  refine ⟨bs ++ [c.toUInt8], ?_, clear_concat bs hclear⟩
  rw [List.append_assoc, List.singleton_append, ← eq_cons_of_after? hc (after?_of_mark? hmark)]
  exact hs

/-! ## Containers -/

/-- Behind a part the others stop a reader, or neither a comma follows nor the end. -/
def StopsBehind (close : Char) (rest : Bytes) (others : Bytes → Prop) : Prop :=
  (∃ comma, mark? ',' rest = some comma ∧ others comma.rest) ∨
    (mark? ',' rest = none ∧ mark? close rest = none)

theorem readItems_error {o : JsonOptions} {start : Bytes} {index : Nat} {items : List Value}
    {h : s.length < start.length} (hread : readItems o site start index items s h = .error stop) :
    readValue o ⟨site.depth + 1, .index index :: site.path⟩ (skipBlanks s) = .error stop ∨
      ∃ v, readValue o ⟨site.depth + 1, .index index :: site.path⟩ (skipBlanks s) = .ok v ∧
        StopsBehind ']' v.rest fun more => ∃ h,
          readItems o site start (index + 1) (v.value :: items) more h = .error stop := by
  rw [readItems] at hread
  dsimp only at hread
  split at hread
  · next he =>
    cases hread
    exact .inl he
  · next v hv =>
    refine .inr ⟨v, hv, ?_⟩
    split at hread
    · next more hcomma => exact .inl ⟨_, mark?_eq_some hcomma, _, hread⟩
    · next hcomma =>
      split at hread
      · cases hread
      · next hclose => exact .inr ⟨mark?_eq_none hcomma, mark?_eq_none hclose⟩

theorem readMembers_error {o : JsonOptions} {start behindQuote : Bytes} {m : Members}
    {h : s.length < start.length} (hquote : after? '"' (skipBlanks s) = some behindQuote)
    (hread : readMembers o site start m s h = .error stop) :
    (∃ fault place, readText o behindQuote = .error (fault, place) ∧
      stop = ⟨fault, site.path, place⟩) ∨
    ∃ name, readText o behindQuote = .ok name ∧
      ∀ ⦃behindColon⦄, after? ':' (skipBlanks name.rest) = some behindColon →
        (m.isKey name.value = true ∧
          stop = ⟨.duplicateKey name.value, .member name.value :: site.path, skipBlanks s⟩) ∨
        readValue o ⟨site.depth + 1, .member name.value :: site.path⟩ (skipBlanks behindColon) =
          .error stop ∨
        ∃ v, readValue o ⟨site.depth + 1, .member name.value :: site.path⟩
            (skipBlanks behindColon) = .ok v ∧
          StopsBehind '\x7d' v.rest fun more => ∃ h,
            readMembers o site start (m.put name.value v.value) more h = .error stop := by
  rw [readMembers] at hread
  dsimp only at hread
  split at hread
  · next hnone => cases hquote.symm.trans hnone
  next found hfound =>
  cases hquote.symm.trans hfound
  cases hname : readText o behindQuote with
  | error e =>
    rw [hname] at hread
    cases hread
    exact .inl ⟨_, _, rfl, rfl⟩
  | ok name =>
    refine .inr ⟨name, rfl, fun behindColon hcolon => ?_⟩
    rw [hname] at hread
    dsimp only [Leaf.under] at hread
    split at hread
    · next hnone => cases hcolon.symm.trans hnone
    next found hfound =>
    cases hcolon.symm.trans hfound
    split at hread
    · next hrepeated =>
      cases hread
      exact .inl ⟨(Bool.and_eq_true_iff.1 hrepeated).1, rfl⟩
    split at hread
    · next he =>
      cases hread
      exact .inr (.inl he)
    · next v hv =>
      refine .inr (.inr ⟨v, hv, ?_⟩)
      split at hread
      · next more hcomma => exact .inl ⟨_, mark?_eq_some hcomma, _, hread⟩
      · next hcomma =>
        split at hread
        · cases hread
        · next hclose => exact .inr ⟨mark?_eq_none hcomma, mark?_eq_none hclose⟩

theorem LocatedAt.item {before behind : List Written}
    (h : LocatedAt (skipBlanks s) (.index before.length :: above) stop x) :
    LocatedAt s above stop (.array (before ++ x :: behind)) := by
  obtain ⟨blanks, hblanks, hs⟩ := blank_skipBlanks s
  have hpart : (Key.index before.length, x) ∈ (Written.array (before ++ x :: behind)).parts := by
    rw [Written.parts, List.mapIdx_append, List.mapIdx_cons, Nat.zero_add]
    exact List.mem_append_right _ List.mem_cons_self
  exact (h.part hpart).prepend hs (clear_of_blank hblanks)

section Members

variable {members : List (String × Written)}

/-- A key belongs to its object until the colon has been passed. -/
theorem locatedAt_key {behindQuote value : Bytes} {name : Reading behindQuote String}
    (hquote : after? '"' (skipBlanks s) = some behindQuote)
    (hstrict : readText .strict behindQuote = .error (fault, place))
    (hlegacy : readText .legacy behindQuote = .ok name)
    (hcolon : after? ':' (skipBlanks name.rest) = some value)
    (hmember : name.value ∈ members.map Prod.fst) :
    LocatedAt s above ⟨fault, above, place⟩ (.object members) := by
  obtain ⟨blanks, -, hs⟩ := blank_skipBlanks s
  obtain ⟨inside, rfl, hbad, hinside⟩ := badCharacter_of_readText hstrict hlegacy
  refine ⟨blanks ++ '"'.toUInt8 :: inside, [], ?_, rfl, ?_⟩
  · rw [hs, eq_cons_of_after? (by decide) hquote, List.append_assoc, List.cons_append]
  · exact .key (.mk hlegacy hinside hbad) hcolon hmember

theorem LocatedAt.member {key : String} {p t : Bytes}
    (h : LocatedAt (skipBlanks t) (.member key :: above) stop x) (hp : KeyText key p)
    (hs : s = p ++ t) (hmember : (key, x) ∈ members) :
    LocatedAt s above stop (.object members) := by
  obtain ⟨blanks, hblanks, ht⟩ := blank_skipBlanks t
  have hpart : (Key.member key, x) ∈ (Written.object members).parts :=
    List.mem_map.2 ⟨_, hmember, rfl⟩
  have hfront : s = p ++ blanks ++ skipBlanks t := by
    rw [hs, List.append_assoc, ← ht]
  exact (h.part hpart).prepend hfront ((clear_of_keyText hp).append (clear_of_blank hblanks))

end Members

theorem locatedAt_items {s start : Bytes} {index : Nat} {items : List Value}
    {h : s.length < start.length} {before : List Written} {r : Reading s (List Written)}
    (hvalues : ∀ t, t.length ≤ s.length → Located t) (hindex : before.length = index)
    (hstrict : readItems .strict site start index items s h = .error stop)
    (hlegacy : readTrees .legacy (site.depth + 1) s = some r) :
    LocatedAt s site.path stop (.array (before ++ r.value)) := by
  have hblank := length_skipBlanks_le s
  obtain ⟨x, hx, hmore⟩ := readTrees_cases hlegacy
  rcases readItems_error hstrict with he | ⟨v, hv, hstop⟩
  · -- The reader stopped in this element, whatever follows it.
    have hitem : LocatedAt (skipBlanks s) (.index index :: site.path) stop x.value :=
      hvalues _ hblank he hx
    obtain ⟨behind, hbehind⟩ : ∃ behind, r.value = x.value :: behind := by
      obtain ⟨comma, more, -, -, rfl⟩ | ⟨-, close, -, rfl⟩ := hmore
      · exact ⟨more.value, rfl⟩
      · exact ⟨[], rfl⟩
    rw [hbehind]
    subst hindex
    exact hitem.item
  · obtain rfl := settle_of_readTree hv hx
    rcases hstop with ⟨comma, hcomma, h', hothers⟩ | ⟨hnone, hnone'⟩
    · obtain ⟨_, more, hcomma', hmore, rfl⟩ | ⟨hnone, -⟩ := hmore
      · cases hcomma.symm.trans hcomma'
        have hshort : comma.rest.length < s.length :=
          Nat.lt_trans comma.shorter (Nat.lt_of_lt_of_le x.shorter hblank)
        have hlonger : (before ++ [x.value]).length = index + 1 := by
          rw [List.length_append, hindex, List.length_singleton]
        have hbehind := locatedAt_items
          (fun t ht => hvalues t (Nat.le_trans ht (Nat.le_of_lt hshort))) hlonger hothers hmore
        rw [List.append_assoc] at hbehind
        obtain ⟨pre, hs, hclear⟩ := exists_clear_front hv hcomma (by decide) (by decide)
        exact hbehind.prepend hs hclear
      · cases hcomma.symm.trans hnone
    · -- Where the array ends for one reader, it ends for the other.
      obtain ⟨comma, more, hcomma, -⟩ | ⟨-, close, hclose, -⟩ := hmore
      · cases hnone.symm.trans hcomma
      · cases hnone'.symm.trans hclose
  termination_by s.length

theorem locatedAt_members {s start : Bytes} {m : Members} {h : s.length < start.length}
    {before : List (String × Written)} {keys : List String}
    {r : Reading s (List (String × Written))} (hvalues : ∀ t, t.length ≤ s.length → Located t)
    (hkeys : ∀ key, m.isKey key = true ↔ key ∈ before.map Prod.fst)
    (hstrict : readMembers .strict site start m s h = .error stop)
    (hlegacy : readTreeMembers .legacy (site.depth + 1) keys s = some r) :
    LocatedAt s site.path stop (.object (before ++ r.value)) := by
  -- The relaxed reader finds a key, a colon and a value; the strict one stops at one of them, or
  -- behind the member.
  obtain ⟨key, x, hkey, -, hx, hmore⟩ := readTreeMembers_cases hlegacy
  obtain ⟨behindQuote, hquote, name, hname, hcolon, hvalue⟩ := readKey_cases hkey
  have hbehindKey : (skipBlanks key.rest).length < s.length :=
    Nat.lt_of_le_of_lt (length_skipBlanks_le key.rest) key.shorter
  obtain ⟨behind, hbehind⟩ : ∃ behind, r.value = (name.value, x.value) :: behind := by
    rw [← hvalue]
    obtain ⟨comma, more, -, -, rfl⟩ | ⟨-, close, -, rfl⟩ := hmore
    · exact ⟨more.value, rfl⟩
    · exact ⟨[], rfl⟩
  have hmember : (name.value, x.value) ∈ before ++ r.value := by
    rw [hbehind]
    exact List.mem_append_right _ List.mem_cons_self
  rcases readMembers_error hquote hstrict with ⟨fault, place, he, rfl⟩ | ⟨name', hname', hstop⟩
  · exact locatedAt_key hquote he hname hcolon (List.mem_map_of_mem hmember)
  cases (readText_relaxed (JsonOptions.relaxedTo_legacy .strict) _ _ hname').symm.trans hname
  obtain ⟨p, hp, hsplit⟩ := keyText_of_readText hquote ⟨name, hname', rfl, rfl⟩ hcolon
  rcases hstop hcolon with ⟨hrepeated, rfl⟩ | he | ⟨v, hv, hstop⟩
  · obtain ⟨blanks, -, hs⟩ := blank_skipBlanks s
    have hopens : OpensKey (skipBlanks s) name.value :=
      ⟨behindQuote, eq_cons_of_after? (by decide) hquote, name, hname', rfl, _, hcolon⟩
    refine ⟨blanks, [.member name.value], hs, rfl, ?_⟩
    rw [hbehind]
    exact .repeated rfl hopens ((hkeys _).1 hrepeated)
  · have hitem : LocatedAt (skipBlanks key.rest) (.member name.value :: site.path) stop x.value :=
      hvalues _ (Nat.le_of_lt hbehindKey) he hx
    exact hitem.member hp hsplit hmember
  · obtain rfl := settle_of_readTree hv hx
    rcases hstop with ⟨comma, hcomma, h', hothers⟩ | ⟨hnone, hnone'⟩
    · obtain ⟨_, more, hcomma', hmore, rfl⟩ | ⟨hnone, -⟩ := hmore
      · cases hcomma.symm.trans hcomma'
        have hshort : comma.rest.length < s.length :=
          Nat.lt_trans comma.shorter (Nat.lt_trans x.shorter hbehindKey)
        have hkeys' : ∀ k, (m.put name.value x.value.settle).isKey k = true ↔
            k ∈ (before ++ [(key.value, x.value)]).map Prod.fst := by
          intro k
          rw [isKey_put, hkeys, List.map_append, List.mem_append, or_comm, ← hvalue]
          exact or_congr_right List.mem_singleton.symm
        have hothers' := locatedAt_members
          (fun t ht => hvalues t (Nat.le_trans ht (Nat.le_of_lt hshort))) hkeys' hothers hmore
        rw [List.append_assoc] at hothers'
        obtain ⟨pre, hrest, hclear⟩ := exists_clear_front hv hcomma (by decide) (by decide)
        have hfront : s = p ++ pre ++ comma.rest := by
          rw [List.append_assoc, ← hrest]
          exact hsplit
        exact hothers'.prepend hfront ((clear_of_keyText hp).append hclear)
      · cases hcomma.symm.trans hnone
    · obtain ⟨comma, more, hcomma, -⟩ | ⟨-, close, hclose, -⟩ := hmore
      · cases hnone.symm.trans hcomma
      · cases hnone'.symm.trans hclose
  termination_by s.length

/-! ## Values -/

theorem locatedAt_string {rest : Bytes} {name : Reading rest String}
    (hquote : Char.ofUInt8 b = '"') (hstrict : readValue .strict site (b :: rest) = .error stop)
    (hlegacy : readText .legacy rest = .ok name) :
    LocatedAt (b :: rest) site.path stop (.scalar (.string name.value)) := by
  rw [readValue] at hstrict
  simp only [hquote] at hstrict
  cases hname : readText .strict rest with
  | ok name =>
    rw [hname] at hstrict
    cases hstrict
  | error e =>
    obtain ⟨fault, place⟩ := e
    rw [hname] at hstrict
    cases hstrict
    obtain ⟨inside, rfl, hbad, hinside⟩ := badCharacter_of_readText hname hlegacy
    have hb : b = '"'.toUInt8 := (ofUInt8_eq_iff (by decide)).1 hquote
    refine ⟨[] ++ '"'.toUInt8 :: inside, [], ?_, rfl, .string (.mk hlegacy hinside hbad)⟩
    rw [hb]
    rfl

theorem locatedAt_number {rest : Bytes} {n : Reading (b :: rest) Number}
    (hstop : (Char.ofUInt8 b = '.' ∧
        stop = ⟨unexpected "a value" (b :: rest), site.path, b :: rest⟩) ∨
      (Leaf.under site.path (readNumber .strict (b :: rest))).map (·.map Value.number) =
        .error stop)
    (hlegacy : readNumber .legacy (b :: rest) = .ok n) :
    LocatedAt (b :: rest) site.path stop (.scalar (.number n.value)) := by
  rcases hstop with ⟨hpoint, rfl⟩ | hstrict
  · rw [ofUInt8_eq_iff (by decide)] at hpoint
    subst hpoint
    exact ⟨[], [], rfl, rfl, .number ⟨.nil, .point rfl, n, hlegacy, rfl⟩⟩
  · cases hn : readNumber .strict (b :: rest) with
    | ok n =>
      rw [hn] at hstrict
      cases hstrict
    | error e =>
      obtain ⟨fault, place⟩ := e
      rw [hn] at hstrict
      cases hstrict
      obtain ⟨rfl, hbad⟩ := badNumber_of_readNumber hn hlegacy
      exact ⟨[], [], rfl, rfl, .number ⟨.nil, hbad, n, hlegacy, rfl⟩⟩

theorem locatedAt_scalar {rest : Bytes} {x : Reading (b :: rest) Scalar}
    (hobject : Char.ofUInt8 b ≠ '\x7b') (harray : Char.ofUInt8 b ≠ '[')
    (hstrict : readValue .strict site (b :: rest) = .error stop)
    (hlegacy : readScalar .legacy b rest = some x) :
    LocatedAt (b :: rest) site.path stop (.scalar x.value) := by
  have hnone : readScalar .strict b rest = none := by
    have hvalue : (readValue .strict site (b :: rest)).toOption =
        (readScalar .strict b rest).map (·.map Scalar.toValue) := toOption_readScalar hobject harray
    rw [hstrict] at hvalue
    exact Option.map_eq_none_iff.1 hvalue.symm
  unfold readScalar at hnone hlegacy
  split at hlegacy
  case h_1 hquote =>
    obtain ⟨name, hname, rfl⟩ := Option.map_eq_some_iff.1 hlegacy
    exact locatedAt_string hquote hstrict (eq_ok_of_toOption hname)
  -- No rule is about a value with a name of its own.
  case h_2 h =>
    simp only [h] at hnone
    cases hnone.symm.trans hlegacy
  case h_3 h =>
    simp only [h] at hnone
    cases hnone.symm.trans hlegacy
  case h_4 h =>
    simp only [h] at hnone
    cases hnone.symm.trans hlegacy
  case h_5 =>
    split at hlegacy
    · next hnumber =>
      obtain ⟨n, hn, rfl⟩ := Option.map_eq_some_iff.1 hlegacy
      refine locatedAt_number ?_ (eq_ok_of_toOption hn)
      rw [readValue] at hstrict
      split at hstrict <;> try contradiction
      split at hstrict
      · exact .inr hstrict
      · next hother =>
        cases hstrict
        have hstart : Char.ofUInt8 b = '-' ∨ (Char.ofUInt8 b).isDigit = true ∨
            Char.ofUInt8 b = '.' := by
          simpa [JsonOptions.legacy, or_assoc] using hnumber
        have hnot : ¬ Char.ofUInt8 b = '-' ∧ ¬ (Char.ofUInt8 b).isDigit = true := by
          simpa [JsonOptions.strict] using hother
        exact .inl ⟨(hstart.resolve_left hnot.1).resolve_left hnot.2, rfl⟩
    · cases hlegacy

theorem located (s : Bytes) : Located s := by
  -- Values within a container are read from shorter inputs. Where a container may not begin, or
  -- ends at once, the readers do the same.
  induction hlength : s.length using Nat.strong_induction_on generalizing s with
  | _ n ih =>
  intro site stop r hstrict hlegacy
  cases s with
  | nil =>
    rw [readTree] at hlegacy
    cases hlegacy
  | cons b rest =>
    have hvalues : ∀ t, t.length ≤ rest.length → Located t := fun t ht =>
      ih _ (hlength ▸ Nat.lt_succ_of_le ht) t rfl
    have hopened : b :: rest = [] ++ [b] ++ rest := rfl
    by_cases hobject : Char.ofUInt8 b = '\x7b'
    · obtain ⟨hroom, hmembers⟩ := readTree_object hobject hlegacy
      rw [readValue] at hstrict
      simp only [hobject] at hstrict
      rw [if_neg hroom] at hstrict
      split at hstrict
      · cases hstrict
      · next hopen =>
        rw [mark?_eq_none hopen] at hmembers
        obtain ⟨close, hclose, -⟩ | ⟨-, members, hmembers, rfl⟩ := hmembers
        · cases hclose
        · have hkeys : ∀ key, Members.isKey ⟨[], []⟩ key = true ↔
              key ∈ ([] : List (String × Written)).map Prod.fst := by
            simp [Members.isKey]
          have hlocated := locatedAt_members hvalues hkeys hstrict hmembers
          refine hlocated.prepend hopened (clear_concat [] ?_)
          rw [(ofUInt8_eq_iff (by decide)).1 hobject]
          decide
    by_cases harray : Char.ofUInt8 b = '['
    · obtain ⟨hroom, hitems⟩ := readTree_array hobject harray hlegacy
      rw [readValue] at hstrict
      simp only [harray] at hstrict
      rw [if_neg hroom] at hstrict
      split at hstrict
      · cases hstrict
      · next hopen =>
        rw [mark?_eq_none hopen] at hitems
        obtain ⟨close, hclose, -⟩ | ⟨-, items, hitems, rfl⟩ := hitems
        · cases hclose
        · have hindex : ([] : List Written).length = 0 := rfl
          have hlocated := locatedAt_items hvalues hindex hstrict hitems
          refine hlocated.prepend hopened (clear_concat [] ?_)
          rw [(ofUInt8_eq_iff (by decide)).1 harray]
          decide
    · obtain ⟨x, hx, rfl⟩ := readTree_scalar hobject harray hlegacy
      exact locatedAt_scalar hobject harray hstrict hx

/-- A text that only the strict reader refuses begins with a mark, or a value in it is located. -/
theorem located_text (hstrict : readTextOf .strict s = .error stop)
    (hlegacy : written .legacy s = some w) :
    (stop = ⟨.byteOrderMark, [], s⟩ ∧ byteOrderMark <+: s) ∨ LocatedAt s [] stop w := by
  unfold readTextOf at hstrict
  unfold written at hlegacy
  dsimp only at hstrict hlegacy
  cases hmark : byteOrderMark.isPrefixOf s with
  | true =>
    rw [hmark] at hstrict
    cases hstrict
    exact .inl ⟨rfl, List.isPrefixOf_iff_prefix.1 hmark⟩
  | false =>
    rw [hmark, Bool.false_and, if_neg Bool.false_ne_true] at hstrict
    rw [hmark, if_neg fun h => Bool.false_ne_true h.1, if_neg Bool.false_ne_true] at hlegacy
    obtain ⟨r, hr, rfl⟩ := Option.map_eq_some_iff.1 hlegacy
    obtain ⟨hr, hend⟩ := Option.filter_eq_some_iff.1 hr
    cases hv : readValue .strict ⟨0, []⟩ (skipBlanks (if false = true then s.drop 3 else s)) with
    | error e =>
      rw [hv] at hstrict
      cases hstrict
      obtain ⟨blanks, hblanks, hs⟩ := blank_skipBlanks s
      exact .inr ((located _ hv hr).prepend hs (clear_of_blank hblanks))
    | ok v =>
      -- Behind the value the strict reader finds nothing either.
      obtain rfl := settle_of_readTree hv hr
      rw [hv] at hstrict
      dsimp only [Reading.map] at hstrict
      rw [List.isEmpty_iff.1 hend] at hstrict
      cases hstrict

/-! ## The slot that is concerned -/

/-- Behind `front`, at `place`, a rule is broken in the value of a slot. -/
inductive Offends (front place : Bytes) (a : Arena) (number : Nat) (slot : Slot)
    (fault : JsonFault) : Prop
  /-- A bad character in the string. -/
  | string {name : String} {rest : Bytes} (h : BadText place fault front name rest)
      (hslot : slot.content = .scalar (.string name))
  /-- A bad character in a key of the object. -/
  | key {name : String} {rest value : Bytes} (h : BadText place fault front name rest)
      (hcolon : after? ':' (skipBlanks rest) = some value)
      (hslot : ∃ child, slot.content.child? (.member name) = some child)
  | number {value : Number} (h : BadLiteral front place fault value)
      (hslot : slot.content = .scalar (.number value))
  /-- The slot of a member whose key an earlier member of the object has. -/
  | repeated {key : String} (hfault : fault = .duplicateKey key) (hkey : OpensKey place key)
      (hslot : slot.key = some (.member key))
      (hearlier : ∃ first < number, ∃ content,
        a.slots[first]? = some ⟨content, slot.parent, some (.member key)⟩)
  /-- A byte order mark in front of the whole tree. -/
  | byteOrderMark (hfault : fault = .byteOrderMark) (hfront : front = [])
      (hplace : byteOrderMark <+: place) (hslot : number = a.root)

theorem exists_child_of_mem {name : String} {members : List (String × Written)} (number : Nat)
    (h : name ∈ members.map Prod.fst) :
    ∃ child, ((Written.object members).content number).child? (.member name) = some child := by
  obtain ⟨member, hmember, rfl⟩ := List.mem_map.1 h
  have hpart : (Key.member member.1, member.2) ∈ (Written.object members).parts :=
    List.mem_map.2 ⟨member, hmember, rfl⟩
  obtain ⟨m, hm, -⟩ := Written.exists_mem_numberedFrom (number + 1) hpart
  rcases Written.child_cases (.object members) number (.member member.1) with
    ⟨child, _, -, hchild, -⟩ | ⟨hnone, -, -⟩
  · exact ⟨child, hchild⟩
  · exact absurd hm (hnone _ _)

/-- The slot of a part that keys lead to, with the way back. -/
theorem offends_of_breaks {keys before : List Key} {number : Nat}
    (hx : Written.Stored w before number x) (h : Breaks front place fault x keys) :
    ∃ m slot, w.slots[m]? = some slot ∧ w.arena.climb m [] = some (before ++ keys) ∧
      Offends front place w.arena m slot fault := by
  induction h generalizing before number with
  | string h =>
    obtain ⟨parent, key, hslot⟩ := Written.exists_slot hx
    exact ⟨number, _, hslot, Written.climb_stored hx [], .string h rfl⟩
  | key h hcolon hmember =>
    obtain ⟨parent, key, hslot⟩ := Written.exists_slot hx
    have hchild := exists_child_of_mem number hmember
    exact ⟨number, _, hslot, Written.climb_stored hx [], .key h hcolon hchild⟩
  | number h =>
    obtain ⟨parent, key, hslot⟩ := Written.exists_slot hx
    exact ⟨number, _, hslot, Written.climb_stored hx [], .number h rfl⟩
  | @repeated key y earlier behind hfault hkey hearlier =>
    obtain ⟨member, hmember, rfl⟩ := List.mem_map.1 hearlier
    have hparts : (Written.object (earlier ++ (member.1, y) :: behind)).parts =
        (Written.object earlier).parts ++
          (.member member.1, y) :: (Written.object behind).parts := by
      simp only [Written.parts, List.map_append, List.map_cons]
    have hfirst : (Key.member member.1, member.2) ∈ (Written.object earlier).parts :=
      List.mem_map.2 ⟨member, hmember, rfl⟩
    obtain ⟨first, hfirst, hlt⟩ := Written.exists_mem_numberedFrom (number + 1) hfirst
    have hnumbered := congrArg (Written.numberedFrom (number + 1)) hparts
    rw [Written.numberedFrom_append, Written.numberedFrom] at hnumbered
    have hm := hnumbered ▸ List.mem_append_right _ List.mem_cons_self
    have hfirst' := hnumbered ▸ List.mem_append_left _ hfirst
    exact ⟨_, _, Written.slot_of_part hx hm, Written.keys_stored (hx.part hm),
      .repeated hfault hkey rfl ⟨first, hlt, _, Written.slot_of_part hx hfirst'⟩⟩
  | part hpart _ ih =>
    obtain ⟨m, hm, -⟩ := Written.exists_mem_numberedFrom (number + 1) hpart
    obtain ⟨m', slot, hslot, hclimb, hoffends⟩ := ih (hx.part hm)
    rw [List.append_assoc, List.singleton_append] at hclimb
    exact ⟨m', slot, hslot, hclimb, hoffends⟩

/--
Where the strict reader refuses a text that the relaxed one reads, its path is that of a slot of the
document, and at its offset stands the byte that breaks a rule there.
-/
theorem parse_error_located {s : Bytes} {e : JsonError} {d : Document}
    (hstrict : parse s = .error e) (hlegacy : read .legacy s = .ok d) :
    ∃ a number slot, build .legacy s = some a ∧ a.Holds d ∧ a.slots[number]? = some slot ∧
      a.path? (.present number) = some (formatPath e.path) ∧
      Offends (s.take e.offset) (s.drop e.offset) a number slot e.fault := by
  obtain ⟨w, hw, hbuild, hholds⟩ := build_of_read hlegacy
  unfold parse read at hstrict
  cases htext : readTextOf .strict s with
  | ok v =>
    rw [htext] at hstrict
    cases hstrict
  | error stop =>
    rw [htext] at hstrict
    cases hstrict
    obtain ⟨rfl, hmark⟩ | ⟨front, keys, hs, hpath, hbreaks⟩ := located_text htext hw
    · have hclimb : w.arena.climb 0 [] = some [] := Written.keys_stored .root
      refine ⟨w.arena, 0, _, hbuild, hholds, w.slot_of_root, ?_, ?_⟩
      · rw [Arena.path?, hclimb]
        rfl
      · dsimp only
        rw [Nat.sub_self, List.take_zero, List.drop_zero]
        exact .byteOrderMark rfl rfl hmark rfl
    · obtain ⟨number, slot, hslot, hclimb, hoffends⟩ := offends_of_breaks .root hbreaks
      refine ⟨w.arena, number, slot, hbuild, hholds, hslot, ?_, ?_⟩
      · rw [Arena.path?, hclimb, hpath, List.append_nil, List.reverse_reverse]
        rfl
      · have hoffset : s.length - stop.place.length = front.length := by
          rw [hs, List.length_append, Nat.add_sub_cancel]
        dsimp only
        rw [hoffset, hs, List.take_left, List.drop_left]
        exact hoffends

/-- A key that is repeated, in front of a number that is refused as well. -/
theorem parse_error_located_nested :
    ∃ e d, parse (textBytes "[0,\x7b\"a\":1,\"a\":02\x7d]") = .error e ∧
      e.path = [.index 1, .member "a"] ∧ e.offset = 10 ∧
      read .legacy (textBytes "[0,\x7b\"a\":1,\"a\":02\x7d]") = .ok d ∧
      ∃ a number slot, build .legacy (textBytes "[0,\x7b\"a\":1,\"a\":02\x7d]") = some a ∧
        a.Holds d ∧ a.slots[number]? = some slot ∧
        a.path? (.present number) = some (formatPath e.path) ∧
        Offends ((textBytes "[0,\x7b\"a\":1,\"a\":02\x7d]").take e.offset)
          ((textBytes "[0,\x7b\"a\":1,\"a\":02\x7d]").drop e.offset) a number slot e.fault := by
  have hstrict : parse (textBytes "[0,\x7b\"a\":1,\"a\":02\x7d]") =
      .error ⟨.duplicateKey "a", [.index 1, .member "a"], 10⟩ := by cbv
  have hlegacy : read .legacy (textBytes "[0,\x7b\"a\":1,\"a\":02\x7d]") =
      .ok ⟨.array [.number (.int 0),
        .object [("a", .number (.int 2))] [("a", .number (.int 1))]]⟩ := by
    cbv
  exact ⟨_, _, hstrict, rfl, rfl, hlegacy, parse_error_located hstrict hlegacy⟩

end Json

end PackageAudit
