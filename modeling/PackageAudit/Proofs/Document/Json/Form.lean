import PackageAudit.Document.Json.Form
import PackageAudit.Proofs.Document.Json.Relaxed

/-!
# Proofs.Document.Json.Form — what a form picks from a tree

Where a text can be read as a tree, a form picks from it what it names, whatever else there is
(`Json.ofForm?_of_written`). Texts that are no such trees can still be values of a form: what nobody
reads may nest deeper, and its characters may be broken.

* `Json.Form.pick?` — the value of a form in a tree;
* `Json.skipValue_of_readTree` — every tree can be passed over;
* `Json.readForm_of_readTree` — what is read at the head of the input is picked from the tree there.
-/

namespace PackageAudit

namespace Reading

variable {α β γ : Type} {b : UInt8} {s : Bytes}

theorem map_behind (f : α → β) (r : Reading s α) :
    (r.behind : Reading (b :: s) α).map f = (r.map f).behind :=
  rfl

theorem map_map (f : α → β) (g : β → γ) (r : Reading s α) : (r.map f).map g = r.map (g ∘ f) :=
  rfl

end Reading

namespace Json

/-! ## Picking -/

mutual

/-- What a form picks from a tree. -/
def Form.pick? (form : Form) : Written → Option Value
  | .scalar x =>
    match form, x with
    | .text, .string t => some (.string t)
    | _, _ => none
  | .array ws =>
    match form with
    | .text => none
    | .list items => (pickItems? (fun _ => some items) 0 ws).map .array
    | .record fields => (pickItems? (fun i => fields[i]?.map (·.2)) 0 ws).map .array
  | .object ws =>
    match form with
    | .record fields =>
      ((pickFields? fields ws).filter fun ms => (ms.map (·.1)).Nodup).map fun ms => .object ms []
    | _ => none

/-- What the forms of their positions pick from the elements of an array. -/
def pickItems? (form? : Nat → Option Form) (index : Nat) : List Written → Option (List Value)
  | [] => some []
  | w :: ws => do
    let form ← form? index
    let v ← form.pick? w
    let vs ← pickItems? form? (index + 1) ws
    pure (v :: vs)

/-- What the forms of their keys pick from the members of an object. -/
def pickFields? (fields : List (String × Form)) :
    List (String × Written) → Option (List (String × Value))
  | [] => some []
  | (key, w) :: ws => do
    let member ← (fields.lookup key).elim (some []) fun form =>
      (form.pick? w).map fun v => [(key, v)]
    let members ← pickFields? fields ws
    pure (member ++ members)

end

/-! ## Passing over trees -/

variable {s : Bytes} {depth : Nat}

theorem relaxedTo_unknown : known.RelaxedTo unknown :=
  ⟨nofun, nofun, nofun, nofun, fun _ => rfl, nofun⟩

/-- A tree can be passed over. -/
def Skips (s : Bytes) : Prop :=
  ∀ ⦃depth r⦄, readTree known depth s = some r → skipValue s = some (r.map fun _ => ())

theorem skipItems_of_readTrees {s : Bytes} (hvalues : ∀ t, t.length ≤ s.length → Skips t)
    {r : Reading s (List Written)} (hr : readTrees known depth s = some r) :
    skipItems s = some (r.map fun _ => ()) := by
  have hblank := length_skipBlanks_le s
  obtain ⟨w, hw, ⟨comma, more, hcomma, hmore, rfl⟩ | ⟨hnone, close, hclose, rfl⟩⟩ :=
    readTrees_cases hr
  · have hshort : comma.rest.length < s.length :=
      Nat.lt_trans comma.shorter (Nat.lt_of_lt_of_le w.shorter hblank)
    rw [skipItems, hvalues _ hblank hw]
    dsimp only [Reading.map, Reading.widen]
    rw [hcomma]
    dsimp only
    rw [skipItems_of_readTrees (fun t ht => hvalues t (Nat.le_trans ht (Nat.le_of_lt hshort)))
      hmore]
    rfl
  · rw [skipItems, hvalues _ hblank hw]
    dsimp only [Reading.map, Reading.widen]
    rw [hnone]
    dsimp only
    rw [hclose]
    rfl
  termination_by s.length

theorem skipMembers_of_readTreeMembers {s : Bytes} (hvalues : ∀ t, t.length ≤ s.length → Skips t)
    {keys : List String} {r : Reading s (List (String × Written))}
    (hr : readTreeMembers known depth keys s = some r) :
    skipMembers s = some (r.map fun _ => ()) := by
  obtain ⟨key, w, hkey, -, hw, hmore⟩ := readTreeMembers_cases hr
  have hbehind := Nat.lt_of_le_of_lt (length_skipBlanks_le key.rest) key.shorter
  rw [skipMembers, readKey_relaxed relaxedTo_unknown hkey]
  dsimp only
  rw [hvalues _ (Nat.le_of_lt hbehind) hw]
  dsimp only [Reading.map, Reading.widen, Reading.next]
  obtain ⟨comma, more, hcomma, hmore, rfl⟩ | ⟨hnone, close, hclose, rfl⟩ := hmore
  · have hshort : comma.rest.length < s.length :=
      Nat.lt_trans comma.shorter (Nat.lt_trans w.shorter hbehind)
    rw [hcomma]
    dsimp only
    rw [skipMembers_of_readTreeMembers
      (fun t ht => hvalues t (Nat.le_trans ht (Nat.le_of_lt hshort))) hmore]
    rfl
  · rw [hnone]
    dsimp only
    rw [hclose]
    rfl
  termination_by s.length

theorem skipValue_of_readTree (s : Bytes) : Skips s := by
  -- Values within a container are passed over from shorter inputs.
  induction hlength : s.length using Nat.strong_induction_on generalizing s with
  | _ n ih =>
  intro depth r hr
  cases s with
  | nil =>
    rw [readTree] at hr
    cases hr
  | cons b rest =>
    have hvalues : ∀ t, t.length ≤ rest.length → Skips t := fun t ht =>
      ih _ (hlength ▸ Nat.lt_succ_of_le ht) t rfl
    by_cases hobject : Char.ofUInt8 b = '\x7b'
    · obtain ⟨-, ⟨close, hclose, rfl⟩ | ⟨hnone, members, hmembers, rfl⟩⟩ :=
        readTree_object hobject hr
      · rw [skipValue, if_pos hobject, hclose]
        rfl
      · rw [skipValue, if_pos hobject, hnone]
        dsimp only
        rw [skipMembers_of_readTreeMembers hvalues hmembers]
        rfl
    by_cases harray : Char.ofUInt8 b = '['
    · obtain ⟨-, ⟨close, hclose, rfl⟩ | ⟨hnone, items, hitems, rfl⟩⟩ :=
        readTree_array hobject harray hr
      · rw [skipValue, if_neg hobject, if_pos harray, hclose]
        rfl
      · rw [skipValue, if_neg hobject, if_pos harray, hnone]
        dsimp only
        rw [skipItems_of_readTrees hvalues hitems]
        rfl
    · obtain ⟨x, hx, rfl⟩ := readTree_scalar hobject harray hr
      rw [skipValue, if_neg hobject, if_neg harray, toOption_readScalar hobject harray,
        readScalar_relaxed relaxedTo_unknown hx]
      rfl

/-! ## Reading what trees have -/

/-- What is read from the head of the input is picked from the tree there. -/
def Picks (s : Bytes) : Prop :=
  ∀ ⦃depth r⦄, readTree known depth s = some r → ∀ form : Form,
    readForm form s = (form.pick? r.value).map fun v => r.map fun _ => v

theorem readItemsOf_of_readTrees {s : Bytes} (hvalues : ∀ t, t.length ≤ s.length → Picks t)
    {r : Reading s (List Written)} (hr : readTrees known depth s = some r)
    (form? : Nat → Option Form) (index : Nat) :
    readItemsOf form? index s = (pickItems? form? index r.value).map fun vs => r.map fun _ => vs := by
  have hblank := length_skipBlanks_le s
  obtain ⟨w, hw, hmore⟩ := readTrees_cases hr
  have hfirst := hvalues _ hblank hw
  rw [readItemsOf]
  obtain ⟨comma, more, hcomma, hmore, rfl⟩ | ⟨hnone, close, hclose, rfl⟩ := hmore
  · have hshort : comma.rest.length < s.length :=
      Nat.lt_trans comma.shorter (Nat.lt_of_lt_of_le w.shorter hblank)
    have hrest := readItemsOf_of_readTrees
      (fun t ht => hvalues t (Nat.le_trans ht (Nat.le_of_lt hshort))) hmore form? (index + 1)
    dsimp only [Reading.next, Reading.map]
    rw [pickItems?]
    cases form? index with
    | none => rfl
    | some form =>
      dsimp only
      rw [hfirst form]
      cases hpick : form.pick? w.value with
      | none => simp [hpick]
      | some v =>
        dsimp only [Option.map_some, Reading.map, Reading.widen]
        rw [hcomma]
        dsimp only
        rw [hrest]
        cases pickItems? form? (index + 1) more.value with
        | none => simp
        | some vs => simp [hpick, Reading.map]
  · dsimp only [Reading.next, Reading.map]
    rw [pickItems?]
    cases form? index with
    | none => rfl
    | some form =>
      dsimp only
      rw [hfirst form]
      cases hpick : form.pick? w.value with
      | none => simp [hpick]
      | some v =>
        dsimp only [Option.map_some, Reading.map, Reading.widen]
        rw [hnone]
        dsimp only
        rw [hclose]
        simp [hpick, pickItems?]
  termination_by s.length

theorem readMember_of_readTree {s : Bytes} (hvalues : Picks s) {w : Reading s Written}
    (hw : readTree known depth s = some w) (fields : List (String × Form)) (key : String) :
    (fields.lookup key).elim ((skipValue s).map fun r => r.map fun _ => [])
        (fun form => (readForm form s).map fun r => r.map fun v => [(key, v)]) =
      ((fields.lookup key).elim (some []) fun form =>
        (form.pick? w.value).map fun v => [(key, v)]).map fun member => w.map fun _ => member := by
  cases fields.lookup key with
  | none =>
    rw [skipValue_of_readTree s hw]
    rfl
  | some form =>
    rw [Option.elim_some, Option.elim_some, hvalues hw form]
    cases form.pick? w.value <;> rfl

theorem readFields_of_readTreeMembers {s : Bytes} (hvalues : ∀ t, t.length ≤ s.length → Picks t)
    {keys : List String} {r : Reading s (List (String × Written))}
    (hr : readTreeMembers known depth keys s = some r) (fields : List (String × Form)) :
    readFields fields s = (pickFields? fields r.value).map fun ms => r.map fun _ => ms := by
  obtain ⟨key, w, hkey, -, hw, hmore⟩ := readTreeMembers_cases hr
  have hbehind := Nat.lt_of_le_of_lt (length_skipBlanks_le key.rest) key.shorter
  rw [readFields, hkey]
  dsimp only
  rw [readMember_of_readTree (hvalues _ (Nat.le_of_lt hbehind)) hw]
  obtain ⟨comma, more, hcomma, hmore, rfl⟩ | ⟨hnone, close, hclose, rfl⟩ := hmore
  · have hshort : comma.rest.length < s.length :=
      Nat.lt_trans comma.shorter (Nat.lt_trans w.shorter hbehind)
    have hrest := readFields_of_readTreeMembers
      (fun t ht => hvalues t (Nat.le_trans ht (Nat.le_of_lt hshort))) hmore fields
    dsimp only [Reading.next, Reading.map]
    rw [pickFields?]
    cases (fields.lookup key.value).elim (some []) fun form =>
        (form.pick? w.value).map fun v => [(key.value, v)] with
    | none => rfl
    | some member =>
      dsimp only [Option.map_some, Reading.map, Reading.widen, Reading.next]
      rw [hcomma]
      dsimp only
      rw [hrest]
      cases pickFields? fields more.value with
      | none => rfl
      | some members => rfl
  · dsimp only [Reading.next, Reading.map]
    rw [pickFields?]
    cases (fields.lookup key.value).elim (some []) fun form =>
        (form.pick? w.value).map fun v => [(key.value, v)] with
    | none => rfl
    | some member =>
      dsimp only [Option.map_some, Reading.map, Reading.widen, Reading.next]
      rw [hnone]
      dsimp only
      rw [hclose]
      simp [pickFields?]
  termination_by s.length

theorem readArray_of_readTree {b : UInt8} {rest : Bytes} (harray : Char.ofUInt8 b = '[')
    (hvalues : ∀ t, t.length ≤ rest.length → Picks t) {r : Reading (b :: rest) Written}
    (hr : readTree known depth (b :: rest) = some r) :
    ∃ ws, r.value = .array ws ∧ ∀ form? : Nat → Option Form,
      (readArray form? rest).map (·.behind) =
        (pickItems? form? 0 ws).map fun vs => r.map fun _ => vs := by
  have hobject : Char.ofUInt8 b ≠ '\x7b' := by
    rw [harray]
    decide
  obtain ⟨-, ⟨close, hclose, rfl⟩ | ⟨hnone, items, hitems, rfl⟩⟩ := readTree_array hobject harray hr
  · refine ⟨[], rfl, fun form? => ?_⟩
    rw [readArray, hclose]
    rfl
  · refine ⟨items.value, rfl, fun form? => ?_⟩
    rw [readArray, hnone]
    dsimp only
    rw [readItemsOf_of_readTrees hvalues hitems form? 0]
    cases pickItems? form? 0 items.value <;> rfl

theorem readObject_of_readTree {b : UInt8} {rest : Bytes} (hobject : Char.ofUInt8 b = '\x7b')
    (hvalues : ∀ t, t.length ≤ rest.length → Picks t) {r : Reading (b :: rest) Written}
    (hr : readTree known depth (b :: rest) = some r) :
    ∃ ws, r.value = .object ws ∧ ∀ fields : List (String × Form),
      (readObject fields rest).map (·.behind) =
        ((pickFields? fields ws).filter fun ms => (ms.map (·.1)).Nodup).map fun ms =>
          r.map fun _ => ms := by
  obtain ⟨-, ⟨close, hclose, rfl⟩ | ⟨hnone, members, hmembers, rfl⟩⟩ := readTree_object hobject hr
  · refine ⟨[], rfl, fun fields => ?_⟩
    rw [readObject, hclose]
    rfl
  · refine ⟨members.value, rfl, fun fields => ?_⟩
    rw [readObject, hnone]
    dsimp only
    rw [readFields_of_readTreeMembers hvalues hmembers fields]
    cases pickFields? fields members.value with
    | none => rfl
    | some ms =>
      by_cases hnodup : (ms.map (·.1)).Nodup
      · simp [Option.filter_some, hnodup, Reading.map, Reading.behind]
      · simp [Option.filter_some, hnodup, Reading.map]

/-- A text is read where one stands, and no other value without parts is a text. -/
theorem readText_of_readScalar {b : UInt8} {rest : Bytes} {x : Reading (b :: rest) Scalar}
    (hx : readScalar known b rest = some x) :
    (if Char.ofUInt8 b = '"' then
        (readText known rest).toOption.map fun r => (r.map Value.string).behind
      else none) = (Form.text.pick? (.scalar x.value)).map fun v => x.map fun _ => v := by
  unfold readScalar at hx
  split at hx
  case h_1 hquote =>
    obtain ⟨text, htext, rfl⟩ := Option.map_eq_some_iff.1 hx
    rw [if_pos hquote, htext]
    rfl
  case h_2 hfirst =>
    rw [value_of_readWord hx, hfirst]
    rfl
  case h_3 hfirst =>
    rw [value_of_readWord hx, hfirst]
    rfl
  case h_4 hfirst =>
    rw [value_of_readWord hx, hfirst]
    rfl
  case h_5 hquote _ _ _ =>
    split at hx
    · obtain ⟨n, -, rfl⟩ := Option.map_eq_some_iff.1 hx
      rw [if_neg hquote]
      rfl
    · cases hx

theorem readForm_of_readTree (s : Bytes) : Picks s := by
  -- Values within a container are read from shorter inputs.
  induction hlength : s.length using Nat.strong_induction_on generalizing s with
  | _ n ih =>
  intro depth r hr form
  cases s with
  | nil =>
    rw [readTree] at hr
    cases hr
  | cons b rest =>
    have hvalues : ∀ t, t.length ≤ rest.length → Picks t := fun t ht =>
      ih _ (hlength ▸ Nat.lt_succ_of_le ht) t rfl
    by_cases harray : Char.ofUInt8 b = '['
    · obtain ⟨ws, hvalue, hitems⟩ := readArray_of_readTree harray hvalues hr
      cases form with
      | text => simp [readForm, hvalue, Form.pick?, harray]
      | list items =>
        have hread := congrArg (Option.map (Reading.map Value.array)) (hitems fun _ => some items)
        simpa [readForm, hvalue, Form.pick?, harray, Function.comp_def, Reading.map_behind,
          Reading.map_map] using hread
      | record fields =>
        have hread := congrArg (Option.map (Reading.map Value.array))
          (hitems fun i => fields[i]?.map (·.2))
        simpa [readForm, hvalue, Form.pick?, harray, Function.comp_def, Reading.map_behind,
          Reading.map_map] using hread
    by_cases hobject : Char.ofUInt8 b = '\x7b'
    · obtain ⟨ws, hvalue, hfields⟩ := readObject_of_readTree hobject hvalues hr
      cases form with
      | text => simp [readForm, hvalue, Form.pick?, hobject]
      | list items => simp [readForm, hvalue, Form.pick?, hobject]
      | record fields =>
        have hread := congrArg (Option.map (Reading.map fun ms => Value.object ms []))
          (hfields fields)
        simpa [readForm, hvalue, Form.pick?, hobject, Function.comp_def, Reading.map_behind,
          Reading.map_map] using hread
    · obtain ⟨x, hx, rfl⟩ := readTree_scalar hobject harray hr
      cases form with
      | text =>
        rw [readForm]
        exact readText_of_readScalar hx
      | list items => simp [readForm, Form.pick?, harray, Reading.map]
      | record fields => simp [readForm, Form.pick?, harray, hobject, Reading.map]

/-! ## Texts -/

/-- Where a text is a tree, the value of a form is the one that the form picks from it. -/
theorem ofForm?_of_written {w : Written} (hw : written known s = some w) (form : Form) :
    ofForm? form s = form.pick? w := by
  unfold written at hw
  dsimp only at hw
  split at hw
  · cases hw
  next hmarked =>
  have hplain : ¬ byteOrderMark.isPrefixOf s = true := fun hmark => hmarked ⟨hmark, nofun⟩
  rw [if_neg hplain] at hw
  obtain ⟨r, hr, rfl⟩ := Option.map_eq_some_iff.1 hw
  obtain ⟨hr, hend⟩ := Option.filter_eq_some_iff.1 hr
  rw [ofForm?, readForm_of_readTree _ hr form]
  cases form.pick? r.value with
  | none => rfl
  | some v => simp [Option.filter_some, Reading.map, hend]

end Json

end PackageAudit
