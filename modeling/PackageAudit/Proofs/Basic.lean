import Mathlib.Data.List.Nodup

/-!
# Proofs.Basic — results of computations that may fail, and look-ups

* `bind_eq_ok_iff`, `map_eq_ok_iff`, `mapError_eq_ok_iff`, `mapError_eq_error_iff` — a result stems
  from the results of the parts;
* `Lookup.mem_of_lookup` — what is found under a key is in the list with that key;
* `Lookup.lookup_eq_some_iff_mem` — and whatever is in the list is found, if no key is there twice;
* `Lookup.lookup_eq_none_iff_notMem` — nothing is found under any other key.
-/

namespace PackageAudit

/-! ## Results -/

section Results

variable {ε ε' α β : Type}

theorem bind_eq_ok_iff {x : Except ε α} {f : α → Except ε β} {b : β} :
    x >>= f = .ok b ↔ ∃ a, x = .ok a ∧ f a = .ok b := by
  cases x <;> simp [bind, Except.bind]

theorem map_eq_ok_iff {x : Except ε α} {f : α → β} {b : β} :
    x.map f = .ok b ↔ ∃ a, x = .ok a ∧ f a = b := by
  cases x <;> simp [Except.map]

theorem mapError_eq_ok_iff {x : Except ε α} {f : ε → ε'} {a : α} :
    x.mapError f = .ok a ↔ x = .ok a := by
  cases x <;> constructor <;> intro h <;> cases h <;> rfl

theorem mapError_eq_error_iff {x : Except ε α} {f : ε → ε'} {e' : ε'} :
    x.mapError f = .error e' ↔ ∃ e, x = .error e ∧ f e = e' := by
  cases x <;> simp [Except.mapError]

end Results

/-! ## Look-ups -/

namespace Lookup

variable {α β : Type} [BEq α] [LawfulBEq α] {pairs : List (α × β)} {key : α} {value : β}

theorem lookup_cons_eq [DecidableEq α] (pair : α × β) :
    (pair :: pairs).lookup key = if key = pair.1 then some pair.2 else pairs.lookup key := by
  rw [List.lookup_cons]
  by_cases h : key = pair.1
  · rw [if_pos h, beq_iff_eq.2 h]
  · rw [if_neg h, beq_eq_false_iff_ne.2 h]

theorem mem_of_lookup (h : pairs.lookup key = some value) : (key, value) ∈ pairs := by
  obtain ⟨before, behind, rfl, -⟩ := List.lookup_eq_some_iff.1 h
  exact List.mem_append_right _ List.mem_cons_self

theorem lookup_eq_some_iff_mem (hnodup : (pairs.map Prod.fst).Nodup) :
    pairs.lookup key = some value ↔ (key, value) ∈ pairs := by
  refine ⟨mem_of_lookup, fun h => ?_⟩
  obtain ⟨before, behind, rfl⟩ := List.append_of_mem h
  refine List.lookup_eq_some_iff.2 ⟨before, behind, rfl, fun other hother => ?_⟩
  rw [List.map_append, List.nodup_append] at hnodup
  have hne := hnodup.2.2 other.1 (List.mem_map_of_mem hother) key (by simp)
  simpa using hne.symm

theorem lookup_eq_none_iff_notMem : pairs.lookup key = none ↔ key ∉ pairs.map Prod.fst := by
  rw [List.lookup_eq_none_iff]
  constructor
  · intro h hmem
    obtain ⟨pair, hpair, rfl⟩ := List.mem_map.1 hmem
    simpa using h pair hpair
  · intro h pair hpair
    have hne : key ≠ pair.1 := by
      rintro rfl
      exact h (List.mem_map_of_mem hpair)
    simpa using hne

/-- The same if a key is there more than once, but always with one value. -/
theorem lookup_eq_some_iff_of_unique
    (hone : ∀ key a b, (key, a) ∈ pairs → (key, b) ∈ pairs → a = b) :
    pairs.lookup key = some value ↔ (key, value) ∈ pairs := by
  refine ⟨mem_of_lookup, fun hmem => ?_⟩
  cases hlookup : pairs.lookup key with
  | none => exact absurd (List.mem_map_of_mem hmem) (lookup_eq_none_iff_notMem.1 hlookup)
  | some other => rw [hone key other value (mem_of_lookup hlookup) hmem]

/-- The order of different keys does not matter. -/
theorem lookup_reverse (hnodup : (pairs.map Prod.fst).Nodup) :
    pairs.reverse.lookup key = pairs.lookup key := by
  have hreverse : (pairs.reverse.map Prod.fst).Nodup := by
    rwa [List.map_reverse, List.nodup_reverse]
  refine Option.ext fun value => ?_
  rw [lookup_eq_some_iff_mem hreverse, lookup_eq_some_iff_mem hnodup, List.mem_reverse]

end Lookup

end PackageAudit
