import PackageAudit.Proofs.Document.Json.Standing
import PackageAudit.Proofs.Document.Yaml.Mapping

/-!
# Proofs.Document.Built — what holds of every tree that a reader builds

* `Value.WellFormed` — the integers of a tree fit 64 bits, and no object has a key twice;
* `Json.wellFormed_of_read` — the trees of JSON texts, under any rules;
* `Yaml.wellFormed_of_read` — the trees of YAML texts.

The reader of YAML texts recurs on the lines that are left, so the proof is an induction on their
number; the invariant says nothing about the lines that were read.
-/

namespace PackageAudit

namespace Value

open Json

variable {vs : List Value} {ms replaced : List (String × Value)}

/-- The numbers that a reader may build: an integer out of range has to be a double. -/
def Representable : Number → Prop
  | .int n => Fits n
  | .float _ => True

/-- The integers of the tree fit 64 bits, and no object has a key twice. -/
structure WellFormed (v : Value) : Prop where
  numbers : v.AllNumbers Representable
  keys : v.KeysDistinct

theorem wellFormed_null : null.WellFormed :=
  ⟨trivial, trivial⟩

theorem wellFormed_string (s : String) : (string s).WellFormed :=
  ⟨trivial, trivial⟩

theorem wellFormed_number {n : Number} (h : Representable n) : (number n).WellFormed :=
  ⟨h, trivial⟩

theorem wellFormed_array (h : ∀ v ∈ vs, v.WellFormed) : (array vs).WellFormed :=
  ⟨allNumbersOf_iff.2 fun v hv => (h v hv).numbers, allKeysDistinct_iff.2 fun v hv => (h v hv).keys⟩

theorem wellFormed_object (hkeys : (ms.map Prod.fst).Nodup) (h : ∀ m ∈ ms, m.2.WellFormed) :
    (object ms replaced).WellFormed :=
  ⟨membersNumbers_iff.2 fun m hm => (h m hm).numbers, hkeys,
    membersKeysDistinct_iff.2 fun m hm => (h m hm).keys⟩

end Value

open Value

/-! ## JSON -/

namespace Json

theorem representable_of_denotes {l : Literal} {n : Number} (h : Denotes l n) :
    Representable n := by
  cases h with
  | int _ _ hn => exact hn
  | float => trivial

/-- Whatever the rules, the tree of a JSON text is well formed. -/
theorem wellFormed_of_read {o : JsonOptions} {s : Bytes} {d : Document} (h : read o s = .ok d) :
    d.root.WellFormed := by
  have hroot := readIn_of_read h
  refine ⟨hroot.numbers.mono fun n hn => ?_, hroot.keys⟩
  obtain ⟨l, -, hn⟩ := hn
  exact representable_of_denotes hn

end Json

/-! ## YAML -/

namespace Yaml

variable {v : Value} {s : List Token} {depth indent : Nat}

theorem representable_of_number? {cs : List Char} {n : Number} :
    number? cs = some n → Representable n := by
  have hradix {base : Nat} {digits : List Char} (h : radixNumber? base digits = some n) :
      Representable n := by
    unfold radixNumber? at h
    split at h
    · cases h
    obtain ⟨k, -, h⟩ := Option.bind_eq_some_iff.1 h
    split at h
    · next hk =>
      cases h
      exact (Json.inRange_iff _).1 hk
    · split at h <;> cases h
      trivial
  intro h
  unfold number? at h
  split at h
  · exact hradix h
  · exact hradix h
  · unfold decimalNumber? at h
    dsimp only at h
    split at h
    · next hint =>
      cases h
      exact (Json.inRange_iff _).1 (Option.filter_eq_some_iff.1 hint).2
    · obtain ⟨d, -, rfl⟩ := Option.map_eq_some_iff.1 h
      trivial

theorem wellFormed_of_namedValue? {text : String} (h : namedValue? text = some v) :
    v.WellFormed := by
  unfold namedValue? at h
  split at h <;> cases h
  all_goals exact ⟨trivial, trivial⟩

theorem wellFormed_of_scalar {column : Nat} {cs : List Char} :
    scalar column cs = .ok v → v.WellFormed := by
  intro h
  unfold scalar at h
  split at h
  · -- text in quotes
    split at h <;> cases h
    exact wellFormed_string _
  -- flow collections, of which only the empty ones are read
  split at h
  · cases h
    exact wellFormed_array (List.forall_mem_nil _)
  split at h
  · cases h
    exact wellFormed_object List.nodup_nil (List.forall_mem_nil _)
  split at h
  · cases h
  · cases h
  · unfold plainValue at h
    dsimp only at h
    split at h
    · next hnamed =>
      cases h
      exact wellFormed_of_namedValue? hnamed
    split at h
    · cases h
    split at h
    · next hnumber =>
      cases h
      exact wellFormed_number (representable_of_number? hnumber)
    · cases h
      exact wellFormed_string _

/-- Every block that the reader finds at the head of `s` is well formed. -/
def WellRead (s : List Token) : Prop :=
  ∀ ⦃depth belongs r⦄, readBlock depth belongs s = .ok r → r.value.WellFormed

theorem wellFormed_of_readItems {start : List Token} {items : List Value}
    {h : s.length < start.length} {r : Reading start Value}
    (hblocks : ∀ t, t.length ≤ s.length → WellRead t) (hitems : ∀ u ∈ items, u.WellFormed)
    (hread : readItems depth indent start items s h = .ok r) : r.value.WellFormed := by
  induction hlength : s.length using Nat.strong_induction_on generalizing s items with
  | _ n ih =>
  rw [readItems] at hread
  split at hread
  · cases hread
  next item hitem =>
  have hmore : ∀ u ∈ item.value :: items, u.WellFormed :=
    List.forall_mem_cons.2 ⟨hblocks s (Nat.le_refl _) hitem, hitems⟩
  have harray := wellFormed_array fun u (hu : u ∈ (item.value :: items).reverse) =>
    hmore u (List.mem_reverse.1 hu)
  dsimp only at hread
  -- A list ends where the lines end or where the next one is none of its elements.
  split at hread
  · cases hread
  · cases hread
    exact harray
  · next next more _ hrest =>
    split at hread
    · have hshort := item.length_of_rest hrest
      exact ih _ (hlength ▸ hshort) (fun t ht => hblocks t (Nat.le_trans ht (Nat.le_of_lt hshort)))
        hmore hread rfl
    · cases hread
      exact harray

theorem wellFormed_of_readMembers {start : List Token} {members : List (String × Value)}
    {token : Token} {entry : Entry} {h : s.length < start.length} {r : Reading start Value}
    (hblocks : ∀ t, t.length ≤ s.length → WellRead t)
    (hkeys : (members.map Prod.fst).Nodup) (hvalues : ∀ m ∈ members, m.2.WellFormed)
    (hread : readMembers depth indent start members token entry s h = .ok r) :
    r.value.WellFormed := by
  induction hlength : s.length using Nat.strong_induction_on generalizing s members token entry with
  | _ n ih =>
  rw [readMembers] at hread
  split at hread
  · cases hread
  next hnew =>
  dsimp only at hread
  split at hread
  · cases hread
  next member hmember =>
  have hvalue : member.value.WellFormed := by
    split at hmember
    · obtain ⟨u, hu, rfl⟩ := of_map hmember
      exact wellFormed_of_scalar (of_onLine hu)
    · exact hblocks s (Nat.le_refl _) hmember
  have hkeys' : (((entry.key, member.value) :: members).map Prod.fst).Nodup := by
    refine List.nodup_cons.2 ⟨fun hmem => hnew ?_, hkeys⟩
    obtain ⟨m, hm, hkey⟩ := List.mem_map.1 hmem
    exact List.any_eq_true.2 ⟨m, hm, beq_iff_eq.2 hkey⟩
  have hvalues' : ∀ m ∈ (entry.key, member.value) :: members, m.2.WellFormed :=
    List.forall_mem_cons.2 ⟨hvalue, hvalues⟩
  have hobject : (object ((entry.key, member.value) :: members).reverse []).WellFormed := by
    refine wellFormed_object ?_ fun m hm => hvalues' m (List.mem_reverse.1 hm)
    rw [List.map_reverse, List.nodup_reverse]
    exact hkeys'
  -- A mapping ends where the lines end or where the next one stands further to the left.
  split at hread
  · cases hread
  · cases hread
    exact hobject
  next next more _ hrest =>
  split at hread
  · cases hread
    exact hobject
  split at hread
  · cases hread
  split at hread
  · cases hread
  · cases hread
  · have hshort := member.length_of_rest hrest
    exact ih _ (hlength ▸ hshort) (fun t ht => hblocks t (Nat.le_trans ht (Nat.le_of_lt hshort)))
      hkeys' hvalues' hread rfl

theorem wellFormed_of_readNode {first : Token} {rest : List Token}
    {r : Reading (first :: rest) Value} (hblocks : ∀ t, t.length ≤ rest.length → WellRead t)
    (hread : readNode depth first rest = .ok r) : r.value.WellFormed := by
  rw [readNode] at hread
  split at hread
  · split at hread
    · cases hread
    · exact wellFormed_of_readItems hblocks (List.forall_mem_nil _) hread
  split at hread
  · cases hread
  · split at hread
    · next hvalue =>
      cases hread
      exact wellFormed_of_scalar (of_onLine hvalue)
    · cases hread
  · split at hread
    · cases hread
    · refine wellFormed_of_readMembers hblocks ?_ (List.forall_mem_nil _) hread
      exact List.nodup_nil

theorem wellRead (s : List Token) : WellRead s := by
  induction hlength : s.length using Nat.strong_induction_on generalizing s with
  | _ n ih =>
  intro depth belongs r hread
  rw [readBlock.eq_def] at hread
  split at hread
  · cases hread
    exact wellFormed_null
  · next first rest =>
    have hblocks : ∀ t, t.length ≤ rest.length → WellRead t := fun t ht =>
      ih _ (hlength ▸ Nat.lt_succ_of_le ht) t rfl
    split at hread
    · obtain ⟨found, hfound, rfl⟩ := of_map hread
      exact wellFormed_of_readNode hblocks hfound
    · cases hread
      exact wellFormed_null

theorem wellFormed_of_readText {cs : List Char} (h : readText cs = .ok v) : v.WellFormed := by
  obtain ⟨ts, -, h⟩ := of_bind h
  split at h
  · cases h
    exact wellFormed_null
  · obtain ⟨root, hroot, h⟩ := of_bind h
    obtain ⟨_, -, h⟩ := of_bind h
    split at h
    · cases h
      exact wellFormed_of_readNode (fun t _ => wellRead t) hroot
    · cases h

/-- The tree of a YAML text is well formed, whether or not broken characters were allowed. -/
theorem wellFormed_of_read {lossy : Bool} {s : Bytes} {d : Document} (h : read lossy s = .ok d) :
    d.root.WellFormed := by
  unfold read at h
  split at h
  · split at h
    · obtain ⟨root, hroot, rfl⟩ := of_map h
      exact wellFormed_of_readText hroot
    · cases h
  · obtain ⟨root, hroot, rfl⟩ := of_map h
    exact wellFormed_of_readText hroot

end Yaml

end PackageAudit
