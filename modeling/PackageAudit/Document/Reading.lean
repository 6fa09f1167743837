/-!
# Document.Reading — a part read off the front of an input

* `Reading s α` — something read from `s`, and the rest of `s`, which is shorter than `s`;
* `OptionalReading s α` — the same, where nothing may have been read.

A reader that returns readings can call itself on the rest of what it was given.
-/

namespace PackageAudit

/-- A value read from the front of `s`, with what follows it. -/
structure Reading {τ : Type} (s : List τ) (α : Type) where
  value : α
  rest : List τ
  shorter : rest.length < s.length

namespace Reading

variable {τ α β : Type} {s t : List τ}

/-- The same reading, of another value. -/
def map (f : α → β) (r : Reading s α) : Reading s β :=
  ⟨f r.value, r.rest, r.shorter⟩

/-- The same reading seen from an earlier place of the input. -/
def widen (h : s.length ≤ t.length) (r : Reading s α) : Reading t α :=
  ⟨r.value, r.rest, Nat.lt_of_lt_of_le r.shorter h⟩

/-- The first item, read as a value. -/
def head {a : τ} (value : α) : Reading (a :: s) α :=
  ⟨value, s, Nat.lt_succ_self _⟩

/-- The first item and `n` more, read as a value. -/
def headAnd (n : Nat) {a : τ} (value : α) : Reading (a :: s) α :=
  ⟨value, s.drop n, Nat.lt_succ_of_le (List.drop_sublist n s).length_le⟩

/-- A reading of what stands behind the first item. -/
def behind {a : τ} (r : Reading s α) : Reading (a :: s) α :=
  ⟨r.value, r.rest, Nat.lt_succ_of_lt r.shorter⟩

/-- A reading of what stands behind another one. -/
def next (first : Reading s β) (r : Reading first.rest α) : Reading s α :=
  ⟨r.value, r.rest, Nat.lt_trans r.shorter first.shorter⟩

end Reading

/-- A value read from the front of `s`, or made up where nothing stood, with what follows. -/
structure OptionalReading {τ : Type} (s : List τ) (α : Type) where
  value : α
  rest : List τ
  notLonger : rest.length ≤ s.length

namespace OptionalReading

variable {τ α : Type} {s t : List τ}

/-- A value that stands for nothing. -/
def nothing (value : α) : OptionalReading s α :=
  ⟨value, s, Nat.le_refl _⟩

/-- The same reading, of another value. -/
def map {β : Type} (f : α → β) (r : OptionalReading s α) : OptionalReading s β :=
  ⟨f r.value, r.rest, r.notLonger⟩

/-- The same reading seen from an earlier place of the input. -/
def widen (h : s.length ≤ t.length) (r : OptionalReading s α) : OptionalReading t α :=
  ⟨r.value, r.rest, Nat.le_trans r.notLonger h⟩

/-- A reading of what stands behind the first item. -/
def behind {a : τ} (r : OptionalReading s α) : OptionalReading (a :: s) α :=
  ⟨r.value, r.rest, Nat.le_succ_of_le r.notLonger⟩

theorem length_of_rest {r : OptionalReading s α} {a : τ} (h : r.rest = a :: t) :
    t.length < s.length :=
  Nat.lt_of_lt_of_le (h ▸ Nat.lt_succ_self _) r.notLonger

end OptionalReading

/-- A reading of something is a reading of something or nothing. -/
def Reading.toOptional {τ α : Type} {s : List τ} (r : Reading s α) : OptionalReading s α :=
  ⟨r.value, r.rest, Nat.le_of_lt r.shorter⟩

end PackageAudit
