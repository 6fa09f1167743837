import PackageAudit.Document.Value
import PackageAudit.Document.Yaml.Reader

/-!
# Proofs.Document.Yaml.Grammar — blocks of tokens and what they stand for

Where the tokens of a text stand decides which of them belong together. The grammar says so without
the reader, and leaves open what a single content means.

* `Yaml.Lexicon` — the meaning of contents: scalars, and entries with their keys;
* `Yaml.Spelled` — the nodes, sequences and mappings that tokens spell at a column;
* `Yaml.Spelled.mono` — a derivation may be read under any other meaning of its contents;
* `Value.height` — how many arrays and objects lie around the innermost value.
-/

namespace PackageAudit

namespace Value

/-! ## Height -/

mutual

/--
How many arrays and objects lie around the innermost value. An empty one adds nothing, as it lies
around no value.
-/
def height : Value → Nat
  | array items => heightAll items
  | object members _ => heightMembers members
  | _ => 0

def heightAll : List Value → Nat
  | [] => 0
  | v :: vs => max (height v + 1) (heightAll vs)

def heightMembers : List (String × Value) → Nat
  | [] => 0
  | (_, v) :: ms => max (height v + 1) (heightMembers ms)

end

theorem heightAll_le_iff {vs : List Value} {n : Nat} :
    heightAll vs ≤ n ↔ ∀ v ∈ vs, v.height + 1 ≤ n := by
  induction vs with
  | nil => simp [heightAll]
  | cons v vs ih => rw [heightAll, Nat.max_le, ih, List.forall_mem_cons]

theorem heightMembers_le_iff {ms : List (String × Value)} {n : Nat} :
    heightMembers ms ≤ n ↔ ∀ m ∈ ms, m.2.height + 1 ≤ n := by
  induction ms with
  | nil => simp [heightMembers]
  | cons m ms ih => rw [heightMembers, Nat.max_le, ih, List.forall_mem_cons]

end Value

namespace Yaml

/-! ## Contents -/

/-- What contents mean: a scalar, or an entry of a mapping, perhaps with its value on its line. -/
structure Lexicon where
  scalar : Token → Value → Prop
  entry : Token → String → Option Value → Prop

/-- What stands behind the colon of an entry, and its value. -/
inductive Inline : Option (List Char × Nat) → Option Value → Prop where
  | nothing : Inline none none
  | scalar {text : List Char} {column : Nat} {v : Value} (h : scalar column text = .ok v) :
      Inline (some (text, column)) (some v)

/-- Contents as they are split into entries and read as scalars. -/
def Lexicon.reader : Lexicon where
  scalar t v := ∃ text, t.lexeme = .content text ∧ splitEntry t.column text = .ok none ∧
    Yaml.scalar t.column text = .ok v
  entry t k v := ∃ text entry, t.lexeme = .content text ∧
    splitEntry t.column text = .ok (some entry) ∧ entry.key = k ∧ Inline entry.value v

/-! ## Blocks -/

/-- The parts of a text that spell values. -/
inductive Phrase where
  /-- A node whose first token stands at the column. -/
  | node (v : Value)
  /-- A node that stands deeper than the column, or nothing. -/
  | nested (v : Value)
  | item (v : Value)
  | items (vs : List Value)
  | member (k : String) (v : Value)
  | members (ms : List (String × Value))

/--
The tokens that spell a part of a text at a column. The entries of a sequence or mapping all stand
at its column, and what belongs to one of them stands deeper. Only a sequence may stand at the
column of the key that it belongs to, since its dashes tell it from the entries around it.
-/
inductive Spelled (l : Lexicon) : Nat → Phrase → List Token → Prop where
  | scalar {t : Token} {v : Value} (h : l.scalar t v) : Spelled l t.column (.node v) [t]
  | sequence {c : Nat} {vs : List Value} {ts : List Token} (h : Spelled l c (.items vs) ts) :
      Spelled l c (.node (.array vs)) ts
  | mapping {c : Nat} {ms : List (String × Value)} {ts : List Token}
      (h : Spelled l c (.members ms) ts) (hkeys : (ms.map Prod.fst).Nodup) :
      Spelled l c (.node (.object ms [])) ts
  | nothing {c : Nat} : Spelled l c (.nested .null) []
  | deeper {c d : Nat} {v : Value} {ts : List Token} (hd : c < d)
      (h : Spelled l d (.node v) ts) : Spelled l c (.nested v) ts
  | item {t : Token} {v : Value} {ts : List Token} (ht : t.lexeme = .dash)
      (h : Spelled l t.column (.nested v) ts) : Spelled l t.column (.item v) (t :: ts)
  | lastItem {c : Nat} {v : Value} {ts : List Token} (h : Spelled l c (.item v) ts) :
      Spelled l c (.items [v]) ts
  | moreItems {c : Nat} {v : Value} {vs : List Value} {ts us : List Token}
      (h : Spelled l c (.item v) ts) (hs : Spelled l c (.items vs) us) :
      Spelled l c (.items (v :: vs)) (ts ++ us)
  | inlineMember {t : Token} {k : String} {v : Value} (ht : l.entry t k (some v)) :
      Spelled l t.column (.member k v) [t]
  | nestedMember {t : Token} {k : String} {v : Value} {ts : List Token} (ht : l.entry t k none)
      (h : Spelled l t.column (.nested v) ts) : Spelled l t.column (.member k v) (t :: ts)
  | alignedMember {t : Token} {k : String} {vs : List Value} {ts : List Token}
      (ht : l.entry t k none) (h : Spelled l t.column (.items vs) ts) :
      Spelled l t.column (.member k (.array vs)) (t :: ts)
  | lastMember {c : Nat} {k : String} {v : Value} {ts : List Token}
      (h : Spelled l c (.member k v) ts) : Spelled l c (.members [(k, v)]) ts
  | moreMembers {c : Nat} {k : String} {v : Value} {ms : List (String × Value)}
      {ts us : List Token} (h : Spelled l c (.member k v) ts) (hs : Spelled l c (.members ms) us) :
      Spelled l c (.members ((k, v) :: ms)) (ts ++ us)

/-- What is spelled does not change when its contents keep their meanings. -/
theorem Spelled.mono {l l' : Lexicon} {c : Nat} {p : Phrase} {ts : List Token}
    (h : Spelled l c p ts) (hscalar : ∀ t ∈ ts, ∀ v, l.scalar t v → l'.scalar t v)
    (hentry : ∀ t ∈ ts, ∀ k v, l.entry t k v → l'.entry t k v) : Spelled l' c p ts := by
  induction h with
  | scalar h => exact .scalar (hscalar _ List.mem_cons_self _ h)
  | sequence _ ih => exact .sequence (ih hscalar hentry)
  | mapping _ hkeys ih => exact .mapping (ih hscalar hentry) hkeys
  | nothing => exact .nothing
  | deeper hd _ ih => exact .deeper hd (ih hscalar hentry)
  | item ht _ ih =>
    rw [List.forall_mem_cons] at hscalar hentry
    exact .item ht (ih hscalar.2 hentry.2)
  | lastItem _ ih => exact .lastItem (ih hscalar hentry)
  | moreItems _ _ ih ih' =>
    rw [List.forall_mem_append] at hscalar hentry
    exact .moreItems (ih hscalar.1 hentry.1) (ih' hscalar.2 hentry.2)
  | inlineMember ht => exact .inlineMember (hentry _ List.mem_cons_self _ _ ht)
  | nestedMember ht _ ih =>
    rw [List.forall_mem_cons] at hscalar hentry
    exact .nestedMember (hentry.1 _ _ ht) (ih hscalar.2 hentry.2)
  | alignedMember ht _ ih =>
    rw [List.forall_mem_cons] at hscalar hentry
    exact .alignedMember (hentry.1 _ _ ht) (ih hscalar.2 hentry.2)
  | lastMember _ ih => exact .lastMember (ih hscalar hentry)
  | moreMembers _ _ ih ih' =>
    rw [List.forall_mem_append] at hscalar hentry
    exact .moreMembers (ih hscalar.1 hentry.1) (ih' hscalar.2 hentry.2)

end Yaml

end PackageAudit
