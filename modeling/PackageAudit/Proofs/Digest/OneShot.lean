import Mathlib.Data.List.Induction
import PackageAudit.Digest.Xxh64

/-!
# Proofs.Digest.OneShot — the hash of bytes that are all there

Bytes that arrive one by one are held until they fill a stripe. The same hash comes from cutting all
of them into stripes at once:

* `Xxh64.stripe` — the bytes cut into stripes;
* `Xxh64.lanes` — the accumulators after a number of stripes;
* `Xxh64.hash` — the hash of bytes that are all there;
* `Xxh64.pushAll_start` — what the state is after any bytes;
* `Xxh64.finish_pushAll` — both hashes are one.
-/

namespace PackageAudit

namespace Xxh64

variable {bs more : Bytes} {count i : Nat}

/-- How many bytes the accumulators take in at once. -/
def stripeLength : Nat := 32

/-- A stripe of bytes, counted from zero. -/
def stripe (bs : Bytes) (i : Nat) : Bytes :=
  (bs.drop (stripeLength * i)).take stripeLength

/-- The bytes that fill no stripe. -/
def remainder (bs : Bytes) : Bytes :=
  bs.drop (stripeLength * (bs.length / stripeLength))

/-- Every accumulator takes in a word of a stripe. -/
def absorb (h : Xxh64) (stripe : Bytes) : Xxh64 :=
  { h with
    a := round h.a (wordAt 0 stripe)
    b := round h.b (wordAt 8 stripe)
    c := round h.c (wordAt 16 stripe)
    d := round h.d (wordAt 24 stripe) }

/-- The accumulators after the first stripes. -/
def lanes (bs : Bytes) (count : Nat) : Xxh64 :=
  (List.range count).foldl (fun h i => h.absorb (stripe bs i)) start

/-- The hash of bytes that are all there; few bytes leave the accumulators out. -/
def hash (bs : Bytes) : UInt64 :=
  let acc := if bs.length < stripeLength then prime₅
    else (lanes bs (bs.length / stripeLength)).merged
  avalanche (mixRest (acc + .ofNat bs.length) (remainder bs))

example : hash "".toUTF8.toList = 0xEF46DB3751D8E999 := by decide +kernel

example : hash "Nobody inspects the spammish repetition".toUTF8.toList = 0xFBCEA83C8A378BF1 := by
  decide +kernel

/-! ## Stripes -/

/-- What comes behind a stripe does not change it. -/
theorem stripe_append (h : stripeLength * (i + 1) ≤ bs.length) :
    stripe (bs ++ more) i = stripe bs i := by
  rw [Nat.mul_succ] at h
  have hroom : stripeLength ≤ (bs.drop (stripeLength * i)).length := by
    rw [List.length_drop]
    omega
  rw [stripe, stripe, List.drop_append_of_le_length (by omega), List.take_append_of_le_length hroom]

@[simp] theorem lanes_zero (bs : Bytes) : lanes bs 0 = start := rfl

theorem lanes_succ (bs : Bytes) (count : Nat) :
    lanes bs (count + 1) = (lanes bs count).absorb (stripe bs count) := by
  rw [lanes, List.range_succ, List.foldl_append, List.foldl_cons, List.foldl_nil, lanes]

theorem lanes_append (h : stripeLength * count ≤ bs.length) :
    lanes (bs ++ more) count = lanes bs count := by
  induction count with
  | zero => rw [lanes_zero, lanes_zero]
  | succ count ih =>
    have hbefore : stripeLength * count ≤ bs.length :=
      Nat.le_trans (Nat.mul_le_mul_left _ (Nat.le_succ count)) h
    rw [lanes_succ, lanes_succ, stripe_append h, ih hbefore]

/-- One more byte that fills no stripe is left like the others. -/
theorem remainder_append_of_partial {b : UInt8}
    (h : bs.length % stripeLength ≠ stripeLength - 1) :
    (bs ++ [b]).length / stripeLength = bs.length / stripeLength ∧
      remainder (bs ++ [b]) = remainder bs ++ [b] := by
  unfold stripeLength at h
  have hcount : (bs ++ [b]).length / stripeLength = bs.length / stripeLength := by
    rw [List.length_append, List.length_singleton]
    unfold stripeLength
    omega
  have hle : stripeLength * (bs.length / stripeLength) ≤ bs.length := Nat.mul_div_le _ _
  rw [remainder, remainder, hcount, List.drop_append_of_le_length hle]
  exact ⟨rfl, rfl⟩

/-- One more byte that fills a stripe leaves none. -/
theorem remainder_append_of_full {b : UInt8} (h : bs.length % stripeLength = stripeLength - 1) :
    (bs ++ [b]).length / stripeLength = bs.length / stripeLength + 1 ∧
      stripe (bs ++ [b]) (bs.length / stripeLength) = remainder bs ++ [b] ∧
      remainder (bs ++ [b]) = [] := by
  have hle : stripeLength * (bs.length / stripeLength) ≤ bs.length := Nat.mul_div_le _ _
  have hlength : (bs ++ [b]).length = stripeLength * (bs.length / stripeLength + 1) := by
    rw [List.length_append, List.length_singleton]
    unfold stripeLength at h ⊢
    omega
  have hcount : (bs ++ [b]).length / stripeLength = bs.length / stripeLength + 1 := by
    rw [hlength]
    exact Nat.mul_div_cancel_left _ (by decide)
  refine ⟨hcount, ?_, ?_⟩
  · rw [stripe, List.drop_append_of_le_length hle]
    refine List.take_of_length_le ?_
    rw [List.length_append, List.length_drop, List.length_singleton]
    unfold stripeLength at h ⊢
    omega
  · rw [remainder, hcount, ← hlength, List.drop_length]

/-! ## Bytes one by one -/

/--
After any bytes the accumulators have taken in all full stripes, and the bytes behind these are held
back.
-/
theorem pushAll_start (bs : Bytes) :
    start.pushAll bs =
      { lanes bs (bs.length / stripeLength) with
        held := (remainder bs).reverse
        total := bs.length } := by
  -- Byte by byte from the front, so the last one is taken off.
  induction bs using List.reverseRecOn with
  | nil => rfl
  | append_singleton bs b ih =>
    have hpush : start.pushAll (bs ++ [b]) = (start.pushAll bs).push b := List.foldl_append
    have hle : stripeLength * (bs.length / stripeLength) ≤ bs.length := Nat.mul_div_le _ _
    rw [hpush, ih, push]
    split
    · next hfull =>
      obtain ⟨hcount, hstripe, hrest⟩ := remainder_append_of_full (b := b) hfull
      rw [hcount, lanes_succ, lanes_append hle, hstripe, hrest, List.length_append]
      simp only [List.reverse_cons, List.reverse_reverse]
      rfl
    · next hpartial =>
      obtain ⟨hcount, hrest⟩ := remainder_append_of_partial (b := b) hpartial
      rw [hcount, lanes_append hle, hrest, List.length_append, List.reverse_append]
      rfl

/-- Bytes that arrive one by one have the hash that all of them have at once. -/
theorem finish_pushAll (bs : Bytes) : (start.pushAll bs).finish = hash bs := by
  rw [pushAll_start, finish, hash]
  simp only [List.reverse_reverse]
  rfl

end Xxh64

end PackageAudit
