import PackageAudit.Proofs.Document.Path

/-!
# Proofs.Document.Equality — equal trees and their texts

Equality of trees compares doubles as IEEE does: the two zeros are equal, and a NaN equals nothing.
So it is symmetric and transitive, and a tree equals itself unless there is a NaN in it. Where there
are no doubles it is equality of texts, since a text shows where each of its parts ends.

* `Binary64.comparand` — what comparison sees of a double;
* `Value.same_array`, `Value.same_object` — what arrays and objects are equal to;
* `Value.same_symm`, `Value.same_trans`, `Value.same_self_iff` — a partial equivalence;
* `Value.render_of_same` — equal trees have one text;
* `intercalate_append_inj` — parts between commas, up to a bracket;
* `Value.render_append_inj` — the text of a tree, and what follows it;
* `Node.same_present` — places in documents.
-/

namespace PackageAudit

/-! ## Numbers -/

namespace Binary64

/-- What comparison sees of a double: nothing of a NaN, and of a zero not the sign. -/
def comparand : Binary64 → Option Binary64
  | finite negative index => some (finite (negative && index.val != 0) index)
  | infinite negative => some (infinite negative)
  | nan => none

theorem same_iff {x y : Binary64} :
    x.same y = true ↔ x.comparand ≠ none ∧ x.comparand = y.comparand := by
  cases x with
  | finite a i =>
    cases y with
    | finite b j =>
      by_cases hij : i = j
      · subst hij
        by_cases hi : i.val = 0
        · simp [same, comparand, hi]
        · simp [same, comparand, hi, bne_iff_ne.2 hi]
      · simp [same, comparand, hij]
    | infinite | nan => simp [same, comparand]
  | infinite a => cases y <;> simp [same, comparand]
  | nan => simp [same, comparand]

theorem same_symm {x y : Binary64} (h : x.same y = true) : y.same x = true := by
  obtain ⟨hx, heq⟩ := same_iff.1 h
  exact same_iff.2 ⟨heq ▸ hx, heq.symm⟩

theorem same_trans {x y z : Binary64} (hxy : x.same y = true) (hyz : y.same z = true) :
    x.same z = true := by
  obtain ⟨hx, heq⟩ := same_iff.1 hxy
  exact same_iff.2 ⟨hx, heq.trans (same_iff.1 hyz).2⟩

end Binary64

namespace Number

theorem same_int {i : Int} {n : Number} : (int i).same n = true ↔ n = int i := by
  cases n with
  | int j => rw [same, beq_iff_eq, int.injEq, eq_comm]
  | float y => exact iff_of_false Bool.false_ne_true Number.noConfusion

theorem same_float {x : Binary64} {n : Number} :
    (float x).same n = true ↔ ∃ y, n = float y ∧ x.same y = true := by
  cases n with
  | int j => exact iff_of_false Bool.false_ne_true nofun
  | float y => simp [same]

theorem same_symm {m n : Number} (h : m.same n = true) : n.same m = true := by
  cases m with
  | int i =>
    obtain rfl := same_int.1 h
    exact h
  | float x =>
    obtain ⟨y, rfl, hxy⟩ := same_float.1 h
    exact same_float.2 ⟨x, rfl, Binary64.same_symm hxy⟩

theorem same_trans {m n k : Number} (hmn : m.same n = true) (hnk : n.same k = true) :
    m.same k = true := by
  cases m with
  | int i =>
    obtain rfl := same_int.1 hmn
    exact hnk
  | float x =>
    obtain ⟨y, rfl, hxy⟩ := same_float.1 hmn
    obtain ⟨z, rfl, hyz⟩ := same_float.1 hnk
    exact same_float.2 ⟨z, rfl, Binary64.same_trans hxy hyz⟩

end Number

/-! ## Lists -/

/-- Relations between the parts of lists compose as those between single parts do. -/
theorem forall₂_comp {α : Type} {R S T : α → α → Prop} {as bs cs : List α}
    (hcomp : ∀ a ∈ as, ∀ b c, R a b → S b c → T a c) (hR : List.Forall₂ R as bs)
    (hS : List.Forall₂ S bs cs) : List.Forall₂ T as cs := by
  induction hR generalizing cs with
  | nil =>
    cases hS
    exact .nil
  | cons hab _ ih =>
    rw [List.forall_mem_cons] at hcomp
    cases hS with
    | cons hbc hrest => exact .cons (hcomp.1 _ _ hab hbc) (ih hcomp.2 hrest)

theorem map_eq_map_of_forall₂ {α β : Type} {R : α → α → Prop} {f : α → β} {as bs : List α}
    (heq : ∀ a ∈ as, ∀ b, R a b → f a = f b) (h : List.Forall₂ R as bs) : as.map f = bs.map f := by
  rw [← List.forall₂_eq_eq_eq, List.forall₂_map_left_iff, List.forall₂_map_right_iff]
  exact ((List.forall₂_and_left as bs).2 ⟨heq, h⟩).imp fun a b h => h.1 b h.2

/-! ## Trees -/

namespace Value

section Equality

variable {u v w : Value}

theorem same_null : null.same v = true ↔ v = null := by
  cases v <;> simp [same]

theorem same_bool {b : Bool} : (bool b).same v = true ↔ v = bool b := by
  cases v with
  | bool c => rw [same, beq_iff_eq, bool.injEq, eq_comm]
  | null | number | string | array | object =>
    exact iff_of_false Bool.false_ne_true Value.noConfusion

theorem same_string {s : String} : (string s).same v = true ↔ v = string s := by
  cases v with
  | string t => rw [same, beq_iff_eq, string.injEq, eq_comm]
  | null | bool | number | array | object =>
    exact iff_of_false Bool.false_ne_true Value.noConfusion

theorem same_number {m : Number} :
    (number m).same v = true ↔ ∃ n, v = number n ∧ m.same n = true := by
  cases v <;> simp [same]

theorem same_array {us : List Value} :
    (array us).same v = true ↔
      ∃ vs, v = array vs ∧ List.Forall₂ (fun u v => u.same v = true) us vs := by
  cases v <;> simp [same, sameAll_iff]

theorem same_object {ms replaced : List (String × Value)} :
    (object ms replaced).same v = true ↔ ∃ ns replaced', v = object ns replaced' ∧
      List.Forall₂ (fun m n => m.1 = n.1 ∧ m.2.same n.2 = true) ms ns := by
  cases v <;> simp [same, sameMembers_iff]

theorem same_symm (h : u.same v = true) : v.same u = true := by
  induction u using induction generalizing v with
  | null =>
    obtain rfl := same_null.1 h
    exact h
  | bool b =>
    obtain rfl := same_bool.1 h
    exact h
  | number m =>
    obtain ⟨n, rfl, hmn⟩ := same_number.1 h
    exact same_number.2 ⟨m, rfl, Number.same_symm hmn⟩
  | string s =>
    obtain rfl := same_string.1 h
    exact h
  | array us ih =>
    obtain ⟨vs, rfl, hall⟩ := same_array.1 h
    refine same_array.2 ⟨us, rfl, List.Forall₂.flip ?_⟩
    exact ((List.forall₂_and_left us vs).2 ⟨ih, hall⟩).imp fun u v h => h.1 h.2
  | object ms replaced ih =>
    obtain ⟨ns, replaced', rfl, hall⟩ := same_object.1 h
    refine same_object.2 ⟨ms, replaced, rfl, List.Forall₂.flip ?_⟩
    exact ((List.forall₂_and_left ms ns).2 ⟨ih, hall⟩).imp fun m n h => ⟨h.2.1.symm, h.1 h.2.2⟩

theorem same_trans (huv : u.same v = true) (hvw : v.same w = true) : u.same w = true := by
  induction u using induction generalizing v w with
  | null =>
    obtain rfl := same_null.1 huv
    exact hvw
  | bool b =>
    obtain rfl := same_bool.1 huv
    exact hvw
  | number m =>
    obtain ⟨n, rfl, hmn⟩ := same_number.1 huv
    obtain ⟨k, rfl, hnk⟩ := same_number.1 hvw
    exact same_number.2 ⟨k, rfl, Number.same_trans hmn hnk⟩
  | string s =>
    obtain rfl := same_string.1 huv
    exact hvw
  | array us ih =>
    obtain ⟨vs, rfl, hall⟩ := same_array.1 huv
    obtain ⟨ws, rfl, hall'⟩ := same_array.1 hvw
    refine same_array.2 ⟨ws, rfl, forall₂_comp (fun u hu v w h h' => ?_) hall hall'⟩
    exact ih u hu h h'
  | object ms replaced ih =>
    obtain ⟨ns, replaced', rfl, hall⟩ := same_object.1 huv
    obtain ⟨ks, replaced'', rfl, hall'⟩ := same_object.1 hvw
    refine same_object.2 ⟨ks, replaced'', rfl, forall₂_comp (fun m hm n k h h' => ?_) hall hall'⟩
    exact ⟨h.1.trans h'.1, ih m hm h.2 h'.2⟩

/-- No number of the tree is a NaN. -/
def NanFree (v : Value) : Prop :=
  v.AllNumbers fun n => n ≠ .float .nan

/-- A tree equals itself unless there is a NaN in it. -/
theorem same_self_iff : v.same v = true ↔ v.NanFree := by
  unfold NanFree
  induction v using induction with
  | null => exact iff_of_true rfl trivial
  | bool b => exact iff_of_true (beq_self_eq_true b) trivial
  | number n => exact number_same_self_iff
  | string s => exact iff_of_true (beq_self_eq_true s) trivial
  | array vs ih =>
    rw [same, sameAll_iff, List.forall₂_same, AllNumbers, allNumbersOf_iff]
    exact forall₂_congr ih
  | object ms replaced ih =>
    rw [same, sameMembers_iff, List.forall₂_same, AllNumbers, membersNumbers_iff]
    exact forall₂_congr fun m hm => (and_iff_right rfl).trans (ih m hm)

end Equality

/-! ## Texts of equal trees -/

/-- No number of the tree is a double. -/
def FloatFree (v : Value) : Prop :=
  v.AllNumbers fun n => ∀ x, n ≠ .float x

section Texts

variable {u v : Value}

/-- Equal trees without doubles have one text. -/
theorem render_of_same (hu : u.FloatFree) (h : u.same v = true) : u.render = v.render := by
  unfold FloatFree at hu
  induction u using induction generalizing v with
  | null => rw [same_null.1 h]
  | bool b => rw [same_bool.1 h]
  | number m =>
    obtain ⟨n, rfl, hmn⟩ := same_number.1 h
    cases m with
    | int i => rw [Number.same_int.1 hmn]
    | float x => exact absurd rfl (hu x)
  | string s => rw [same_string.1 h]
  | array us ih =>
    obtain ⟨vs, rfl, hall⟩ := same_array.1 h
    rw [AllNumbers, allNumbersOf_iff] at hu
    rw [render, render, renderAll_eq_map, renderAll_eq_map,
      map_eq_map_of_forall₂ (fun u hmem v => ih u hmem (hu u hmem)) hall]
  | object ms replaced ih =>
    obtain ⟨ns, replaced', rfl, hall⟩ := same_object.1 h
    rw [AllNumbers, membersNumbers_iff] at hu
    rw [render, render, renderMembers_eq_map, renderMembers_eq_map,
      map_eq_map_of_forall₂ (fun m hmem n h => ?_) hall]
    rw [h.1, ih m hmem (hu m hmem) h.2]

end Texts

end Value

/-! ## Trees of equal texts -/

section Parts

variable {α : Type} {f : α → List Char} {R : α → α → Prop} {close : Char} {r r' : List Char}

theorem intercalate_cons (a : α) (as : List α) (t : List Char) :
    [','].intercalate ((a :: as).map f) ++ t =
      f a ++ if as = [] then t else ',' :: ([','].intercalate (as.map f) ++ t) := by
  cases as with
  | nil => rw [List.map_singleton, List.intercalate_singleton, if_pos rfl]
  | cons b bs =>
    rw [if_neg (List.cons_ne_nil b bs), List.map_cons, List.map_cons, List.intercalate_cons_cons,
      List.append_assoc, List.append_assoc]
    rfl

/--
Parts between commas, up to a closing bracket, show where they end if each part does and none begins
with the bracket.
-/
theorem intercalate_append_inj (hclose : close.isDigit = false) (hcomma : close ≠ ',')
    {as bs : List α} (hinj : ∀ a ∈ as, ∀ b ∈ bs, ∀ r r', DigitsEnd r → DigitsEnd r' →
      f a ++ r = f b ++ r' → R a b ∧ r = r')
    (has : ∀ a ∈ as, ∃ c cs, f a = c :: cs ∧ c ≠ close)
    (hbs : ∀ b ∈ bs, ∃ c cs, f b = c :: cs ∧ c ≠ close)
    (h : [','].intercalate (as.map f) ++ close :: r = [','].intercalate (bs.map f) ++ close :: r') :
    List.Forall₂ R as bs ∧ r = r' := by
  have hnone {a : α} (ha : ∃ c cs, f a = c :: cs ∧ c ≠ close) (as : List α) (r r' : List Char) :
      close :: r ≠ [','].intercalate ((a :: as).map f) ++ close :: r' := by
    obtain ⟨c, cs, hc, hne⟩ := ha
    rw [intercalate_cons, hc]
    exact fun h => hne (List.cons.inj h).1.symm
  have hends (as : List α) (r : List Char) :
      DigitsEnd (if as = [] then close :: r
        else ',' :: ([','].intercalate (as.map f) ++ close :: r)) := by
    split
    · exact digitsEnd_cons hclose r
    · exact digitsEnd_cons rfl _
  induction as generalizing bs with
  | nil =>
    cases bs with
    | nil => exact ⟨.nil, (List.cons.inj h).2⟩
    | cons b bs => exact absurd h (hnone (hbs b List.mem_cons_self) bs r r')
  | cons a as ih =>
    cases bs with
    | nil => exact absurd h.symm (hnone (has a List.mem_cons_self) as r' r)
    | cons b bs =>
      rw [intercalate_cons, intercalate_cons] at h
      obtain ⟨hab, hrest⟩ := hinj a List.mem_cons_self b List.mem_cons_self _ _ (hends as r)
        (hends bs r') h
      have hparts : [','].intercalate (as.map f) ++ close :: r =
          [','].intercalate (bs.map f) ++ close :: r' := by
        split_ifs at hrest with hnil hnil' hnil'
        · rw [hnil, hnil', hrest]
        · exact absurd (List.cons.inj hrest).1 hcomma
        · exact absurd (List.cons.inj hrest).1.symm hcomma
        · exact (List.cons.inj hrest).2
      obtain ⟨hall, hr⟩ := ih
        (fun a ha b hb => hinj a (List.mem_cons_of_mem _ ha) b (List.mem_cons_of_mem _ hb))
        (fun a ha => has a (List.mem_cons_of_mem _ ha))
        (fun b hb => hbs b (List.mem_cons_of_mem _ hb)) hparts
      exact ⟨.cons hab hall, hr⟩

end Parts

theorem exists_head_toDigits (n : Nat) :
    ∃ c cs, Nat.toDigits 10 n = c :: cs ∧ c.isDigit = true := by
  obtain ⟨c, cs, hn⟩ := List.exists_cons_of_ne_nil (Nat.toDigits_ne_nil (b := 10) (n := n))
  exact ⟨c, cs, hn, Json.digitChars_toDigits n c (hn ▸ List.mem_cons_self)⟩

/-- An integer ends where no digit follows. -/
theorem toString_append_inj {i j : Int} {r r' : List Char} (hr : DigitsEnd r) (hr' : DigitsEnd r')
    (h : (toString i).toList ++ r = (toString j).toList ++ r') : i = j ∧ r = r' := by
  have hminus (n : Nat) (r r' : List Char) : '-' :: r ≠ Nat.toDigits 10 n ++ r' := by
    obtain ⟨c, cs, hn, hc⟩ := exists_head_toDigits n
    rw [hn]
    intro heq
    obtain ⟨rfl, -⟩ := List.cons.inj heq
    exact absurd hc (by decide)
  rw [Json.toList_toString, Json.toList_toString] at h
  split_ifs at h with hi hj hj
  · obtain ⟨habs, hrest⟩ := toDigits_append_inj hr hr' (List.cons.inj h).2
    exact ⟨by omega, hrest⟩
  · exact absurd h (hminus j.natAbs _ r')
  · exact absurd h.symm (hminus i.natAbs _ r)
  · obtain ⟨habs, hrest⟩ := toDigits_append_inj hr hr' h
    exact ⟨by omega, hrest⟩

namespace Value

/-- The kind of the values whose text begins with a character. -/
def kindAt (c : Char) : Kind :=
  match c with
  | 'n' => .null
  | 't' | 'f' => .bool
  | '"' => .string
  | '[' => .array
  | '\x7b' => .object
  | c => if c == '-' || c.isDigit then .number else .absent

theorem kindAt_of_isDigit {c : Char} (h : c.isDigit = true) : kindAt c = .number := by
  unfold kindAt
  split
  case h_7 => rw [h, Bool.or_true, if_pos rfl]
  all_goals exact absurd h (by decide)

/-- The characters of a member. -/
def memberChars (m : String × Value) : List Char :=
  Json.quoteChars m.1.toList ++ ':' :: m.2.render.toList

theorem toList_render_array (vs : List Value) :
    (array vs).render.toList =
      '[' :: ([','].intercalate (vs.map fun v => v.render.toList) ++ [']']) := by
  rw [render, renderAll_eq_map, String.toList_append, String.toList_append,
    String.toList_intercalate, List.map_map]
  rfl

theorem toList_render_object (ms replaced : List (String × Value)) :
    (object ms replaced).render.toList =
      '\x7b' :: ([','].intercalate (ms.map memberChars) ++ ['\x7d']) := by
  have hmember : String.toList ∘ (fun m : String × Value => Json.quote m.1 ++ ":" ++ m.2.render) =
      memberChars := by
    funext m
    rw [Function.comp_apply, String.toList_append, String.toList_append, Json.quote,
      String.toList_ofList, List.append_assoc]
    rfl
  rw [render, renderMembers_eq_map, String.toList_append, String.toList_append,
    String.toList_intercalate, List.map_map, hmember]
  rfl

section Texts

variable {u v : Value} {r r' : List Char}

/-- A text shows at once of which kind the value is. -/
theorem head_render (h : v.FloatFree) :
    ∃ c cs, v.render.toList = c :: cs ∧ kindAt c = v.kind := by
  cases v with
  | null => exact ⟨_, _, rfl, rfl⟩
  | bool b => cases b <;> exact ⟨_, _, rfl, rfl⟩
  | number n =>
    cases n with
    | float x => exact absurd rfl (h x)
    | int i =>
      have htext : (number (.int i)).render.toList = _ := Json.toList_toString i
      rw [htext]
      split_ifs
      · exact ⟨_, _, rfl, rfl⟩
      · obtain ⟨c, cs, hi, hc⟩ := exists_head_toDigits i.natAbs
        exact ⟨c, cs, hi, kindAt_of_isDigit hc⟩
  | string s => exact ⟨'"', _, by rw [render, Json.quote, String.toList_ofList, Json.quoteChars], rfl⟩
  | array vs => exact ⟨_, _, toList_render_array vs, rfl⟩
  | object ms replaced => exact ⟨_, _, toList_render_object ms replaced, rfl⟩

theorem kind_eq_of_render (hu : u.FloatFree) (hv : v.FloatFree)
    (h : u.render.toList ++ r = v.render.toList ++ r') : u.kind = v.kind := by
  obtain ⟨c, cs, hc, hkind⟩ := head_render hu
  obtain ⟨d, ds, hd, hkind'⟩ := head_render hv
  rw [hc, hd] at h
  rw [← hkind, ← hkind', (List.cons.inj h).1]

theorem head_ne_bracket (h : v.FloatFree) : ∃ c cs, v.render.toList = c :: cs ∧ c ≠ ']' := by
  obtain ⟨c, cs, hc, hkind⟩ := head_render h
  refine ⟨c, cs, hc, ?_⟩
  rintro rfl
  cases v <;> cases hkind

/-- A key shows where it ends. -/
theorem memberChars_append_inj {m n : String × Value}
    (h : memberChars m ++ r = memberChars n ++ r') :
    m.1 = n.1 ∧ m.2.render.toList ++ r = n.2.render.toList ++ r' := by
  rw [memberChars, memberChars, List.append_assoc, List.append_assoc] at h
  obtain ⟨hkey, hrest⟩ := Json.quoteChars_append_inj h
  exact ⟨String.toList_injective hkey, (List.cons.inj hrest).2⟩

/-- No text of a tree without doubles is the beginning of another one, unless a digit follows. -/
theorem render_append_inj (hu : u.FloatFree) (hv : v.FloatFree) (hr : DigitsEnd r)
    (hr' : DigitsEnd r') (h : u.render.toList ++ r = v.render.toList ++ r') :
    u.same v = true ∧ r = r' := by
  -- On the first tree. The first character leaves of the other one only the same kind.
  induction u using induction generalizing v r r' with
  | null =>
    cases v with
    | null => exact ⟨rfl, List.append_cancel_left h⟩
    | _ => cases kind_eq_of_render hu hv h
  | bool b =>
    cases v with
    | bool c =>
      cases b <;> cases c
      · exact ⟨rfl, List.append_cancel_left h⟩
      · exact absurd (List.cons.inj h).1 (by decide)
      · exact absurd (List.cons.inj h).1 (by decide)
      · exact ⟨rfl, List.append_cancel_left h⟩
    | _ => cases kind_eq_of_render hu hv h
  | number m =>
    cases v with
    | number n =>
      cases m with
      | float x => exact absurd rfl (hu x)
      | int i =>
        cases n with
        | float y => exact absurd rfl (hv y)
        | int j =>
          obtain ⟨rfl, hrest⟩ := toString_append_inj hr hr' h
          exact ⟨beq_self_eq_true i, hrest⟩
    | _ => cases kind_eq_of_render hu hv h
  | string s =>
    cases v with
    | string t =>
      rw [render, render, Json.quote, Json.quote, String.toList_ofList, String.toList_ofList] at h
      obtain ⟨hst, hrest⟩ := Json.quoteChars_append_inj h
      exact ⟨beq_iff_eq.2 (String.toList_injective hst), hrest⟩
    | _ => cases kind_eq_of_render hu hv h
  | array us ih =>
    cases v with
    | array vs =>
      have hus := allNumbersOf_iff.1 hu
      have hvs := allNumbersOf_iff.1 hv
      rw [toList_render_array, toList_render_array, List.cons_append, List.cons_append,
        List.append_assoc, List.append_assoc] at h
      obtain ⟨hall, hrest⟩ := intercalate_append_inj rfl (by decide)
        (fun u hmem v hmem' r r' hr hr' h => ih u hmem (hus u hmem) (hvs v hmem') hr hr' h)
        (fun u hmem => head_ne_bracket (hus u hmem)) (fun v hmem => head_ne_bracket (hvs v hmem))
        (List.cons.inj h).2
      exact ⟨sameAll_iff.2 hall, hrest⟩
    | _ => cases kind_eq_of_render hu hv h
  | object ms replaced ih =>
    cases v with
    | object ns replaced' =>
      have hms := membersNumbers_iff.1 hu
      have hns := membersNumbers_iff.1 hv
      have hquote (m : String × Value) : ∃ c cs, memberChars m = c :: cs ∧ c ≠ '\x7d' :=
        ⟨'"', _, rfl, by decide⟩
      have hparts : ∀ m ∈ ms, ∀ n ∈ ns, ∀ r r', DigitsEnd r → DigitsEnd r' →
          memberChars m ++ r = memberChars n ++ r' →
          (m.1 = n.1 ∧ m.2.same n.2 = true) ∧ r = r' := by
        intro m hmem n hmem' r r' hr hr' h
        obtain ⟨hkey, hvalue⟩ := memberChars_append_inj h
        obtain ⟨hsame, hrest⟩ := ih m hmem (hms m hmem) (hns n hmem') hr hr' hvalue
        exact ⟨⟨hkey, hsame⟩, hrest⟩
      rw [toList_render_object, toList_render_object, List.cons_append, List.cons_append,
        List.append_assoc, List.append_assoc] at h
      obtain ⟨hall, hrest⟩ := intercalate_append_inj rfl (by decide) hparts (fun m _ => hquote m)
        (fun n _ => hquote n) (List.cons.inj h).2
      exact ⟨sameMembers_iff.2 hall, hrest⟩
    | _ => cases kind_eq_of_render hu hv h

/-- Trees without doubles are equal if and only if their texts are. -/
theorem same_iff_render (hu : u.FloatFree) (hv : v.FloatFree) :
    u.same v = true ↔ u.render = v.render := by
  have hend : DigitsEnd [] := nofun
  exact ⟨render_of_same hu, fun h => (render_append_inj hu hv hend hend (by rw [h])).1⟩

end Texts

end Value

/-! ## Places -/

namespace Node

section Equality

variable {m n k : Node}

theorem same_symm (h : m.same n = true) : n.same m = true := by
  cases m with
  | present u around =>
    cases n with
    | present v around' => exact Value.same_symm h
    | absent keys => cases h
  | absent keys =>
    cases n with
    | present v around => cases h
    | absent keys' => rfl

theorem same_trans (hmn : m.same n = true) (hnk : n.same k = true) : m.same k = true := by
  cases n with
  | present v around =>
    cases m with
    | absent keys => cases hmn
    | present u around' =>
      cases k with
      | absent keys => cases hnk
      | present w around'' => exact Value.same_trans hmn hnk
  | absent keys =>
    cases m with
    | present u around => cases hmn
    | absent keys' => exact hnk

end Equality

/--
Equality of places in documents, of one document or of several. It is symmetric and transitive. A
place with a value in it equals itself if and only if there is no NaN in the value, and equals
another one, if there is no double in either value, if and only if they have one text.
-/
theorem same_present :
    (∀ m n : Node, m.same n = n.same m) ∧
    (∀ m n k : Node, m.same n = true → n.same k = true → m.same k = true) ∧
    (∀ (n : Node) (v : Value), n.value? = some v → (n.same n = true ↔ v.NanFree)) ∧
    ∀ (m n : Node) (u v : Value), m.value? = some u → n.value? = some v →
      u.FloatFree → v.FloatFree → (m.same n = true ↔ m.render = n.render) := by
  refine ⟨fun m n => Bool.eq_iff_iff.2 ⟨same_symm, same_symm⟩, fun m n k => same_trans,
    fun n v hv => ?_, fun m n u v hu hv hfree hfree' => ?_⟩
  · rw [same, hv]
    exact Value.same_self_iff
  · rw [same, render, render, hu, hv]
    exact Value.same_iff_render hfree hfree'

/-- A member that JSON repeats beside its like in YAML, and a NaN. -/
theorem same_present_readers :
    (∃ d e, Json.read .legacy (textBytes "\x7b\"a\":0,\"a\":[1,\"b\"]\x7d") = .ok d ∧
      Yaml.read false (textBytes "a:\n- 1\n- b\n") = .ok e ∧
      d.rootNode.same e.rootNode = true ∧ (e.rootNode.get "a").same (d.rootNode.get "a") = true) ∧
    ∃ d, Yaml.read false (textBytes "- .nan\n") = .ok d ∧ d.rootNode.same d.rootNode = false := by
  obtain ⟨hcomm, -, hself, htext⟩ := same_present
  have hjson : Json.read .legacy (textBytes "\x7b\"a\":0,\"a\":[1,\"b\"]\x7d") =
      .ok ⟨.object [("a", .array [.number (.int 1), .string "b"])] [("a", .number (.int 0))]⟩ := by
    cbv
  have hyaml : Yaml.read false (textBytes "a:\n- 1\n- b\n") =
      .ok ⟨.object [("a", .array [.number (.int 1), .string "b"])] []⟩ := by cbv
  have hnan : Yaml.read false (textBytes "- .nan\n") =
      .ok ⟨.array [.number (.float .nan)]⟩ := by cbv
  have hitems : (Value.array [.number (.int 1), .string "b"]).FloatFree :=
    ⟨fun _ => Number.noConfusion, trivial, trivial⟩
  have hroot (replaced : List (String × Value)) :
      (Value.object [("a", .array [.number (.int 1), .string "b"])] replaced).FloatFree :=
    ⟨hitems, trivial⟩
  refine ⟨⟨_, _, hjson, hyaml, ?_, ?_⟩, _, hnan, ?_⟩
  · exact (htext _ _ _ _ rfl rfl (hroot _) (hroot _)).2 rfl
  · rw [hcomm]
    exact (htext _ _ _ _ rfl rfl hitems hitems).2 rfl
  · rw [← Bool.not_eq_true, hself _ _ rfl]
    exact fun h => h.1 rfl

end Node

end PackageAudit
