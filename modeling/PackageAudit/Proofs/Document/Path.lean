import Mathlib
import PackageAudit.Proofs.Document.Json.Builder
import PackageAudit.Proofs.Document.Yaml.Builder
import PackageAudit.Proofs.Document.Yaml.Content

/-!
# Proofs.Document.Path — the way back through a document, and what its text tells

Both readers link every slot with the container that it hangs off. So the path of a place is the way
that led to it, whether or not something stands there.

A path is a text without marks between its steps, and a key may be any text. Still every step shows
where it ends: an index at its bracket, a quoted key at its closing quote, and a bare key where
something else than a letter, a digit or an underscore follows.

* `Arena.Navigable`, `Document.Navigable` — the way back is the way down;
* `Arena.Full` — every slot is led to, by one way;
* `linked_of_read` — the slots of JSON texts, under any rules, and of YAML texts;
* `append_inj_of_all`, `Json.quoteChars_append_inj`, `toDigits_append_inj` — runs of characters,
  quoted texts and numbers;
* `Key.text_append_inj` — one step;
* `formatPath_append_inj` — a whole path, and what follows it;
* `Arena.Linked.pathsDistinct` — where keys lead to every slot, no two slots have one path;
* `paths_distinct` — the documents that are read.
-/

namespace PackageAudit

/-! ## The way back -/

namespace Arena

/-- The way back is the way down. -/
structure Navigable (a : Arena) : Prop where
  /-- The path of a place, present or absent, is the text of the way to it. -/
  path : ∀ keys, ∃ p, a.walk keys = some p ∧ a.path? p = some (formatPath keys)
  /-- A present place has the last key of the way, and hangs off the place before it. -/
  back : ∀ keys key number, a.walk (keys ++ [key]) = some (.present number) →
    a.key? (.present number) = some key ∧ a.parent? (.present number) = a.walk keys

/-- Every slot is led to. -/
structure Full (a : Arena) : Prop where
  unique : ∀ number < a.slots.length, ∃! keys, a.walk keys = some (.present number)
  /-- There are as many slots as ways that lead to a value. -/
  size : {keys | ∃ number, a.walk keys = some (.present number)}.ncard = a.slots.length

variable {a : Arena}

theorem Linked.navigable (h : a.Linked) : a.Navigable where
  path := h.path_walk
  back _ _ _ hwalk := h.back_walk hwalk

theorem Linked.lt_of_walk (h : a.Linked) {keys : List Key} {number : Nat}
    (hwalk : a.walk keys = some (.present number)) : number < a.slots.length := by
  by_contra hge
  have hclimb := h.climb_walk hwalk []
  rw [climb, List.getElem?_eq_none (Nat.le_of_not_lt hge)] at hclimb
  cases hclimb

/-- Links let no two ways lead to one slot, so it is enough that some way does. -/
theorem Linked.full (h : a.Linked)
    (hreach : ∀ number < a.slots.length, ∃ keys, a.walk keys = some (.present number)) :
    a.Full where
  unique number hnumber := by
    obtain ⟨keys, hkeys⟩ := hreach number hnumber
    exact ⟨keys, hkeys, fun others hothers => h.walk_injective hothers hkeys⟩
  size := by
    choose way hway using hreach
    refine Set.ncard_eq_of_bijective way ?_ (fun i hi => ⟨i, hway i hi⟩) fun i j hi hj heq => ?_
    · rintro keys ⟨number, hwalk⟩
      have hlt := h.lt_of_walk hwalk
      exact ⟨number, hlt, h.walk_injective (hway number hlt) hwalk⟩
    · have hplaces := (hway i hi).symm.trans (heq ▸ hway j hj)
      cases hplaces
      rfl

end Arena

namespace Document

/-- The way back is the way down. -/
structure Navigable (d : Document) : Prop where
  path : ∀ keys, (d.walk keys).path = formatPath keys
  back : ∀ keys key value around, d.walk (keys ++ [key]) = .present value around →
    (d.walk (keys ++ [key])).key? = some key ∧
      (d.walk (keys ++ [key])).parent? = some (d.walk keys)

theorem keys_walk (d : Document) (keys : List Key) : (d.walk keys).keys = keys := by
  induction keys using List.reverseRecOn with
  | nil => rfl
  | append_singleton keys key ih => rw [walk_append, Node.keys_step, ih]

theorem navigable (d : Document) : d.Navigable where
  path keys := congrArg formatPath (d.keys_walk keys)
  back keys key value around hwalk := by
    rw [walk_append] at hwalk ⊢
    exact Node.back_step hwalk

end Document

/--
The slots that the readers fill are linked: in the document of a JSON text, under any rules, and of
a YAML text the way back from every place is the way down to it, and unless a key may be repeated
the keys of the document lead to every slot.
-/
theorem linked_of_read :
    (∀ (o : JsonOptions) (s : Bytes) (d : Document), Json.read o s = .ok d →
      ∃ a, Json.build o s = some a ∧ a.Holds d ∧ d.Navigable ∧ a.Linked ∧
        a.Navigable ∧ (o.duplicateKeys = false → a.Full)) ∧
    ∀ (lossy : Bool) (s : Bytes) (d : Document), Yaml.read lossy s = .ok d →
      ∃ a, Yaml.build lossy s = .ok a ∧ a.Holds d ∧ d.Navigable ∧ a.Linked ∧ a.Navigable ∧
        a.Full := by
  refine ⟨fun o s d hread => ?_, fun lossy s d hread => ?_⟩
  · obtain ⟨w, hw, hbuild, hholds⟩ := Json.build_of_read hread
    refine ⟨w.arena, hbuild, hholds, d.navigable, w.linked, w.linked.navigable, fun ho => ?_⟩
    have hdistinct := Json.keysDistinct_of_written ho hw
    exact w.linked.full fun number hnumber => hdistinct.exists_walk hnumber
  · obtain ⟨w, hdistinct, hroot, hbuild⟩ := Yaml.build_of_read hread
    have hholds : w.arena.Holds d := by
      have hdocument : d = ⟨w.settle⟩ := by rw [hroot]
      exact hdocument ▸ w.holds
    exact ⟨w.arena, hbuild, hholds, d.navigable, w.linked, w.linked.navigable,
      w.linked.full fun number hnumber => hdistinct.exists_walk hnumber⟩

/-- Two texts, with a member that is replaced and with an element that is missing. -/
theorem linked_of_read_replaced :
    (∃ d, Json.read .legacy (textBytes "\x7b\"a\":1,\"a\":[2]\x7d") = .ok d ∧
      ∃ a, Json.build .legacy (textBytes "\x7b\"a\":1,\"a\":[2]\x7d") = some a ∧ a.Holds d ∧
        d.Navigable ∧ a.Linked ∧ a.Navigable) ∧
    (∃ d, Json.read .strict (textBytes "[1,\x7b\x7d]") = .ok d ∧
      ∃ a, Json.build .strict (textBytes "[1,\x7b\x7d]") = some a ∧ a.Holds d ∧ a.Full) ∧
    ∃ d, Yaml.read false (textBytes "a:\n-\n- b\n") = .ok d ∧
      ∃ a, Yaml.build false (textBytes "a:\n-\n- b\n") = .ok a ∧ a.Holds d ∧ d.Navigable ∧
        a.Linked ∧ a.Navigable ∧ a.Full := by
  have hlegacy : Json.read .legacy (textBytes "\x7b\"a\":1,\"a\":[2]\x7d") =
      .ok ⟨.object [("a", .array [.number (.int 2)])] [("a", .number (.int 1))]⟩ := by cbv
  have hstrict : Json.read .strict (textBytes "[1,\x7b\x7d]") =
      .ok ⟨.array [.number (.int 1), .object [] []]⟩ := by cbv
  have hyaml : Yaml.read false (textBytes "a:\n-\n- b\n") =
      .ok ⟨.object [("a", .array [.null, .string "b"])] []⟩ := by cbv
  refine ⟨⟨_, hlegacy, ?_⟩, ⟨_, hstrict, ?_⟩, _, hyaml, linked_of_read.2 _ _ _ hyaml⟩
  · obtain ⟨a, hbuild, hholds, hdocument, hlinked, hnavigable, -⟩ := linked_of_read.1 _ _ _ hlegacy
    exact ⟨a, hbuild, hholds, hdocument, hlinked, hnavigable⟩
  · obtain ⟨a, hbuild, hholds, -, -, -, hfull⟩ := linked_of_read.1 _ _ _ hstrict
    exact ⟨a, hbuild, hholds, hfull rfl⟩

/-! ## Texts that show where they end -/

/-- A run of characters of one kind ends where another kind follows. -/
theorem append_inj_of_all {α : Type} {p : α → Bool} {as bs r r' : List α}
    (has : ∀ a ∈ as, p a = true) (hbs : ∀ b ∈ bs, p b = true)
    (hr : ∀ c, r.head? = some c → p c = false) (hr' : ∀ c, r'.head? = some c → p c = false)
    (h : as ++ r = bs ++ r') : as = bs ∧ r = r' := by
  have hrun {as r : List α} (has : ∀ a ∈ as, p a = true)
      (hr : ∀ c, r.head? = some c → p c = false) : (as ++ r).takeWhile p = as := by
    rw [List.takeWhile_append_of_pos has]
    cases r with
    | nil => exact List.append_nil as
    | cons c r =>
      have hc : ¬ p c = true := by rw [hr c rfl]; exact Bool.false_ne_true
      rw [List.takeWhile_cons_of_neg hc, List.append_nil]
  obtain rfl : as = bs := by rw [← hrun has hr, h, hrun hbs hr']
  exact ⟨rfl, List.append_cancel_left h⟩

/-- No digit follows. -/
def DigitsEnd (r : List Char) : Prop :=
  ∀ c, r.head? = some c → c.isDigit = false

theorem digitsEnd_cons {c : Char} (h : c.isDigit = false) (r : List Char) : DigitsEnd (c :: r) := by
  rintro _ ⟨⟩
  exact h

/-- A number ends where no digit follows. -/
theorem toDigits_append_inj {m n : Nat} {r r' : List Char} (hr : DigitsEnd r) (hr' : DigitsEnd r')
    (h : Nat.toDigits 10 m ++ r = Nat.toDigits 10 n ++ r') : m = n ∧ r = r' := by
  obtain ⟨hdigits, hrest⟩ :=
    append_inj_of_all (Json.digitChars_toDigits m) (Json.digitChars_toDigits n) hr hr' h
  refine ⟨?_, hrest⟩
  rw [← Json.natural_toDigits m, hdigits, Json.natural_toDigits]

/-- A quoted text ends at its closing quote. -/
theorem Json.quoteChars_append_inj {cs ds r r' : List Char}
    (h : quoteChars cs ++ r = quoteChars ds ++ r') : cs = ds ∧ r = r' := by
  -- what can be read back is told apart
  have hread (cs r : List Char) :
      Yaml.readQuoted 0 (quoteChars cs ++ r).tail = .ok (.ofList cs, r) := by
    rw [quoteChars, List.cons_append, List.append_assoc]
    exact Yaml.readQuoted_quoteChars 0 cs r
  have heq := (hread cs r).symm.trans (h ▸ hread ds r')
  obtain ⟨htext, hrest⟩ := Prod.mk.inj (Except.ok.inj heq)
  exact ⟨String.ofList_injective htext, hrest⟩

/-! ## Steps -/

namespace Key

/-- The characters of bare keys. -/
def isNameChar (c : Char) : Bool :=
  c.isAlphanum || c == '_'

variable {k l : Key} {cs r r' : List Char}

theorem isNameChar_of_isIdentifier (h : isIdentifier cs = true) : ∀ c ∈ cs, isNameChar c = true := by
  cases cs with
  | nil => exact List.forall_mem_nil _
  | cons c cs =>
    rw [isIdentifier, Bool.and_eq_true, List.all_eq_true] at h
    refine List.forall_mem_cons.2 ⟨?_, h.2⟩
    rw [isNameChar, Char.isAlphanum, Bool.or_right_comm, Bool.or_eq_true]
    exact .inl h.1

/-- A step ends where no character of bare keys follows. -/
def Ends (r : List Char) : Prop :=
  ∀ c, r.head? = some c → isNameChar c = false

/-- A bare key does not begin with a quote. -/
theorem isIdentifier_ne_quoteChars (h : isIdentifier cs = true) (ds r r' : List Char) :
    cs ++ r ≠ Json.quoteChars ds ++ r' := by
  cases cs with
  | nil => cases h
  | cons c cs =>
    intro heq
    obtain ⟨rfl, -⟩ := List.cons.inj heq
    exact absurd (isNameChar_of_isIdentifier h _ List.mem_cons_self) (by decide)

theorem member_append_inj {name other : String} (hr : Ends r) (hr' : Ends r')
    (h : (member name).text ++ r = (member other).text ++ r') : name = other ∧ r = r' := by
  have h : (if isIdentifier name.toList then name.toList else Json.quoteChars name.toList) ++ r =
      (if isIdentifier other.toList then other.toList else Json.quoteChars other.toList) ++ r' :=
    (List.cons.inj h).2
  have hname (h : name.toList = other.toList ∧ r = r') : name = other ∧ r = r' :=
    ⟨String.toList_injective h.1, h.2⟩
  split_ifs at h with hbare hother hother
  · exact hname (append_inj_of_all (isNameChar_of_isIdentifier hbare)
      (isNameChar_of_isIdentifier hother) hr hr' h)
  · exact absurd h (isIdentifier_ne_quoteChars hbare _ r r')
  · exact absurd h.symm (isIdentifier_ne_quoteChars hother _ r' r)
  · exact hname (Json.quoteChars_append_inj h)

theorem index_append_inj {i j : Nat} (h : (index i).text ++ r = (index j).text ++ r') :
    i = j ∧ r = r' := by
  have h : ((toString i).toList ++ [']']) ++ r = ((toString j).toList ++ [']']) ++ r' :=
    (List.cons.inj h).2
  have hdigits (n : Nat) : (toString n).toList = Nat.toDigits 10 n := Nat.toList_repr
  rw [List.append_assoc, List.append_assoc, hdigits, hdigits] at h
  obtain ⟨hij, hrest⟩ := toDigits_append_inj (digitsEnd_cons rfl r) (digitsEnd_cons rfl r') h
  exact ⟨hij, (List.cons.inj hrest).2⟩

/-- No two steps have one text, whatever follows that does not go on with a bare key. -/
theorem text_append_inj (hr : Ends r) (hr' : Ends r') (h : k.text ++ r = l.text ++ r') :
    k = l ∧ r = r' := by
  cases k with
  | index i =>
    cases l with
    | index j => exact (index_append_inj h).imp_left (congrArg index)
    | member other => exact absurd (List.cons.inj h).1 (by decide)
  | member name =>
    cases l with
    | index j => exact absurd (List.cons.inj h).1 (by decide)
    | member other => exact (member_append_inj hr hr' h).imp_left (congrArg member)

/-- Behind the point of a member stands a character of bare keys, or a quote. -/
theorem head_member (name : String) :
    ∃ c cs, (member name).text = '.' :: c :: cs ∧ (isNameChar c = true ∨ c = '"') := by
  rw [text]
  split
  · next hbare =>
    cases hname : name.toList with
    | nil =>
      rw [hname] at hbare
      cases hbare
    | cons c cs =>
      rw [hname] at hbare
      exact ⟨c, cs, rfl, .inl (isNameChar_of_isIdentifier hbare c List.mem_cons_self)⟩
  · exact ⟨'"', _, rfl, .inr rfl⟩

theorem head_text (k : Key) : ∃ c cs, k.text = c :: cs ∧ (c = '.' ∨ c = '[') := by
  cases k with
  | index i => exact ⟨_, _, rfl, .inr rfl⟩
  | member name => exact ⟨_, _, rfl, .inl rfl⟩

end Key

/-! ## Paths -/

/-- A path ends where neither a bare key goes on nor another step begins. -/
def PathEnds (r : List Char) : Prop :=
  ∀ c, r.head? = some c → Key.isNameChar c = false ∧ c ≠ '.' ∧ c ≠ '[' ∧ c ≠ '"'

section Paths

variable {ks ls : List Key} {r r' : List Char}

theorem ends_flatMap (hr : PathEnds r) (ks : List Key) : Key.Ends (ks.flatMap Key.text ++ r) := by
  intro c hc
  cases ks with
  | nil => exact (hr c hc).1
  | cons k ks =>
    obtain ⟨d, ds, hk, hd⟩ := k.head_text
    rw [List.flatMap_cons, hk] at hc
    cases hc
    rcases hd with rfl | rfl <;> decide

/-- No text of steps is the beginning of another one. -/
theorem flatMap_append_inj (hr : PathEnds r) (hr' : PathEnds r')
    (h : ks.flatMap Key.text ++ r = ls.flatMap Key.text ++ r') : ks = ls ∧ r = r' := by
  have hmore {k : Key} {ks : List Key} {r r' : List Char} (hr : PathEnds r) :
      r ≠ (k :: ks).flatMap Key.text ++ r' := by
    rintro rfl
    obtain ⟨c, cs, hk, hc⟩ := k.head_text
    have hends := hr c (by rw [List.flatMap_cons, hk]; rfl)
    exact hc.elim hends.2.1 hends.2.2.1
  induction ks generalizing ls with
  | nil =>
    cases ls with
    | nil => exact ⟨rfl, h⟩
    | cons l ls => exact absurd h (hmore hr)
  | cons k ks ih =>
    cases ls with
    | nil => exact absurd h.symm (hmore hr')
    | cons l ls =>
      rw [List.flatMap_cons, List.flatMap_cons, List.append_assoc, List.append_assoc] at h
      obtain ⟨rfl, hrest⟩ := Key.text_append_inj (ends_flatMap hr ks) (ends_flatMap hr' ls) h
      exact (ih hrest).imp_left (congrArg (k :: ·))

theorem toList_formatPath (ks : List Key) :
    (formatPath ks).toList = if ks = [] then ['.'] else ks.flatMap Key.text := by
  cases ks with
  | nil => rfl
  | cons k ks => exact String.toList_ofList

/-- The point of the root is no beginning of another path. -/
theorem point_ne_flatMap (hr : PathEnds r) (hls : ls ≠ []) :
    ['.'] ++ r ≠ ls.flatMap Key.text ++ r' := by
  cases ls with
  | nil => exact absurd rfl hls
  | cons l ls =>
    intro h
    rw [List.flatMap_cons, List.append_assoc] at h
    cases l with
    | index i => exact absurd (List.cons.inj h).1 (by decide)
    | member name =>
      obtain ⟨c, cs, hl, hc⟩ := Key.head_member name
      rw [hl] at h
      have hrest : r = c :: (cs ++ (ls.flatMap Key.text ++ r')) := (List.cons.inj h).2
      have hends := hr c (by rw [hrest]; rfl)
      rcases hc with hc | hc
      · exact Bool.false_ne_true (hends.1.symm.trans hc)
      · exact hends.2.2.2 hc

/-- No two paths have one text, whatever follows that goes on with neither. -/
theorem formatPath_append_inj (hr : PathEnds r) (hr' : PathEnds r')
    (h : (formatPath ks).toList ++ r = (formatPath ls).toList ++ r') : ks = ls ∧ r = r' := by
  rw [toList_formatPath, toList_formatPath] at h
  split_ifs at h with hks hls hls
  · exact ⟨hks.trans hls.symm, (List.cons.inj h).2⟩
  · exact absurd h (point_ne_flatMap hr hls)
  · exact absurd h.symm (point_ne_flatMap hr' hks)
  · exact flatMap_append_inj hr hr' h

theorem formatPath_injective (h : formatPath ks = formatPath ls) : ks = ls := by
  have hends : PathEnds [] := nofun
  exact (formatPath_append_inj hends hends (by rw [h])).1

end Paths

/-! ## Places are told apart -/

namespace Arena

/-- The path of a place tells it apart from all others. -/
structure PathsDistinct (a : Arena) : Prop where
  /-- Every slot has a path, and no other slot has that. -/
  slots : ∀ i j, i < a.slots.length → j < a.slots.length → i ≠ j →
    ∃ p q, a.path? (.present i) = some p ∧ a.path? (.present j) = some q ∧ p ≠ q
  /-- Keys lead to places, present or absent, and other keys to places with another path. -/
  places : ∀ ks ls, ∃ p q, a.walk ks = some p ∧ a.walk ls = some q ∧
    (a.path? p = a.path? q → ks = ls ∧ p = q)

variable {a : Arena}

/-- Where keys lead to every slot, paths tell the slots apart. -/
theorem Linked.pathsDistinct (h : a.Linked) (hfull : a.Full) : a.PathsDistinct where
  slots i j hi hj hij := by
    have hpath {number : Nat} (hnumber : number < a.slots.length) :
        ∃ keys, a.walk keys = some (.present number) ∧
          a.path? (.present number) = some (formatPath keys) := by
      obtain ⟨keys, hwalk, -⟩ := hfull.unique number hnumber
      obtain ⟨p, hp, hpath⟩ := h.path_walk keys
      cases hwalk.symm.trans hp
      exact ⟨keys, hwalk, hpath⟩
    obtain ⟨ks, hks, hi⟩ := hpath hi
    obtain ⟨ls, hls, hj⟩ := hpath hj
    refine ⟨_, _, hi, hj, fun heq => hij ?_⟩
    rw [formatPath_injective heq] at hks
    cases hks.symm.trans hls
    rfl
  places ks ls := by
    obtain ⟨p, hp, hpath⟩ := h.path_walk ks
    obtain ⟨q, hq, hpath'⟩ := h.path_walk ls
    refine ⟨p, q, hp, hq, fun heq => ?_⟩
    rw [hpath, hpath'] at heq
    obtain rfl := formatPath_injective (Option.some.inj heq)
    exact ⟨rfl, Option.some.inj (hp.symm.trans hq)⟩

end Arena

theorem Written.KeysDistinct.pathsDistinct {w : Written} (h : w.KeysDistinct) :
    w.arena.PathsDistinct :=
  w.linked.pathsDistinct (w.linked.full fun _ => h.exists_walk)

/--
No two sequences of keys have one path, and a path shows where it ends. So in the documents that are
read no two places have one path: not two ways through the document, and not two slots either, if no
object of the text has a key twice.
-/
theorem paths_distinct :
    (∀ ks ls, formatPath ks = formatPath ls → ks = ls) ∧
    (∀ ks ls r r', PathEnds r → PathEnds r' →
      (formatPath ks).toList ++ r = (formatPath ls).toList ++ r' → ks = ls ∧ r = r') ∧
    (∀ (d : Document) (ks ls : List Key), (d.walk ks).path = (d.walk ls).path → ks = ls) ∧
    (∀ (o : JsonOptions) (s : Bytes) (d : Document), Json.read o s = .ok d →
      ∃ w a, Json.written o s = some w ∧ Json.build o s = some a ∧ a.Holds d ∧
        (o.duplicateKeys = false → w.KeysDistinct) ∧ (w.KeysDistinct → a.PathsDistinct)) ∧
    ∀ (lossy : Bool) (s : Bytes) (d : Document), Yaml.read lossy s = .ok d →
      ∃ a, Yaml.build lossy s = .ok a ∧ a.Holds d ∧ a.PathsDistinct := by
  refine ⟨fun ks ls => formatPath_injective, fun ks ls r r' => formatPath_append_inj,
    fun d ks ls h => ?_, fun o s d hread => ?_, fun lossy s d hread => ?_⟩
  · rw [d.navigable.path, d.navigable.path] at h
    exact formatPath_injective h
  · obtain ⟨w, hw, hbuild, hholds⟩ := Json.build_of_read hread
    exact ⟨w, w.arena, hw, hbuild, hholds, fun ho => Json.keysDistinct_of_written ho hw,
      Written.KeysDistinct.pathsDistinct⟩
  · obtain ⟨w, hdistinct, hroot, hbuild⟩ := Yaml.build_of_read hread
    obtain rfl : d = ⟨w.settle⟩ := by rw [hroot]
    exact ⟨w.arena, hbuild, w.holds, hdistinct.pathsDistinct⟩

/-- A key with a point in it, an empty key, and a list in a block. -/
theorem paths_distinct_point :
    formatPath [.member "a.b"] ≠ formatPath [.member "a", .member "b"] ∧
    (∃ d, Json.read .strict (textBytes "\x7b\"a.b\":[0],\"\":\x7b\x7d\x7d") = .ok d ∧
      ∃ a, Json.build .strict (textBytes "\x7b\"a.b\":[0],\"\":\x7b\x7d\x7d") = some a ∧
        a.Holds d ∧ a.PathsDistinct) ∧
    ∃ d, Yaml.read false (textBytes "a:\n- b\n") = .ok d ∧
      ∃ a, Yaml.build false (textBytes "a:\n- b\n") = .ok a ∧ a.Holds d ∧ a.PathsDistinct := by
  obtain ⟨hkeys, -, -, hjson, hyaml⟩ := paths_distinct
  have hread : Json.read .strict (textBytes "\x7b\"a.b\":[0],\"\":\x7b\x7d\x7d") =
      .ok ⟨.object [("a.b", .array [.number (.int 0)]), ("", .object [] [])] []⟩ := by cbv
  have hblock : Yaml.read false (textBytes "a:\n- b\n") =
      .ok ⟨.object [("a", .array [.string "b"])] []⟩ := by cbv
  refine ⟨fun h => ?_, ⟨_, hread, ?_⟩, _, hblock, hyaml _ _ _ hblock⟩
  · exact absurd (congrArg List.length (hkeys _ _ h)) (by decide)
  · obtain ⟨w, a, -, hbuild, hholds, hdistinct, hpaths⟩ := hjson _ _ _ hread
    exact ⟨a, hbuild, hholds, hpaths (hdistinct rfl)⟩

end PackageAudit
