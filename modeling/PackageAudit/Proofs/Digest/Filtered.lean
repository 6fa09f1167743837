import Mathlib.Order.Bounds.Defs
import PackageAudit.Digest.Filtered
import PackageAudit.Package.Source
import PackageAudit.Proofs.Digest.OneShot

/-!
# Proofs.Digest.Filtered — digests do not depend on how a content arrives

A content arrives in pieces, as long as they happen to be, or by way of reads that fill a buffer at
most. A line break may stand across two pieces, and a block may end within one. None of this
changes the digest:

* `FilteredDigest.kept` — a content without its line breaks, `padded` — filled up to whole blocks;
* `FilteredDigest.of_eq` — the digest of a content, from its bytes all at once;
* `FilteredDigest.ofReads` — the digest of what is read until the end;
* `FilteredDigest.ofReads_eq` — it is that of the content, unless a read fails;
* `FilteredDigest.chunks_exact` — one digest for a content and for all ways to take it apart.
-/

namespace PackageAudit

namespace Xxh64

theorem pushAll_append (h : Xxh64) (a b : Bytes) : h.pushAll (a ++ b) = (h.pushAll a).pushAll b :=
  List.foldl_append

end Xxh64

namespace FilteredDigest

variable {a b : Bytes}

/-! ## Contents -/

/-- A content without its line breaks. -/
def kept (content : Bytes) : Bytes :=
  content.filter (!isLineBreak ·)

theorem kept_eq_filter (content : Bytes) :
    kept content = content.filter fun b => b ≠ 0x0D ∧ b ≠ 0x0A := by
  refine List.filter_congr fun b _ => ?_
  simp only [isLineBreak, Bool.not_or, Bool.decide_and, ne_eq, decide_not]
  rfl

/-- The length of as many whole blocks as a length needs. -/
def wholeLength (length : Nat) : Nat :=
  blockLength * ((length + (blockLength - 1)) / blockLength)

/-- Bytes with zeros behind them, so that they make up whole blocks. -/
def padded (bs : Bytes) : Bytes :=
  bs ++ List.replicate (wholeLength bs.length - bs.length) 0

/-- There are no more whole blocks than needed. -/
theorem wholeLength_isLeast (length : Nat) :
    IsLeast {whole | length ≤ whole ∧ blockLength ∣ whole} (wholeLength length) := by
  unfold wholeLength blockLength
  constructor
  · exact ⟨by omega, Nat.dvd_mul_right _ _⟩
  · rintro _ ⟨hle, count, rfl⟩
    omega

theorem length_padded (bs : Bytes) : (padded bs).length = wholeLength bs.length := by
  have hle : bs.length ≤ wholeLength bs.length := (wholeLength_isLeast bs.length).1.1
  rw [padded, List.length_append, List.length_replicate]
  omega

theorem padded_of_dvd {bs : Bytes} (h : blockLength ∣ bs.length) : padded bs = bs := by
  have hle : wholeLength bs.length ≤ bs.length :=
    (wholeLength_isLeast bs.length).2 ⟨Nat.le_refl _, h⟩
  rw [padded, Nat.sub_eq_zero_of_le hle, List.replicate_zero, List.append_nil]

/-- What a length lacks is as much as is left of the last block, if that is not whole. -/
theorem append_padding (bs : Bytes) :
    bs ++ (if bs.length % blockLength = 0 then []
      else List.replicate (blockLength - bs.length % blockLength) 0) = padded bs := by
  unfold padded wholeLength blockLength
  split
  · next hwhole =>
    rw [show 32 * ((bs.length + (32 - 1)) / 32) - bs.length = 0 by omega, List.replicate_zero]
  · next hexcess =>
    rw [show 32 * ((bs.length + (32 - 1)) / 32) - bs.length = 32 - bs.length % 32 by omega]

/-! ## Pieces -/

namespace Hasher

theorem update_append (h : Hasher) (a b : Bytes) : h.update (a ++ b) = (h.update a).update b := by
  simp only [update, List.filter_append, Xxh64.pushAll_append, List.length_append, Nat.add_assoc]

/-- Pieces one after the other come to what they make up. -/
theorem foldl_update (h : Hasher) (pieces : List Bytes) :
    pieces.foldl update h = h.update pieces.flatten := by
  induction pieces generalizing h with
  | nil => rfl
  | cons piece pieces ih => rw [List.foldl_cons, ih, List.flatten_cons, update_append]

/-- What the last block lacks is filled up with zeros. -/
theorem finish_update_start (content : Bytes) :
    (start.update content).finish =
      ⟨Xxh64.hash (padded (kept content)), (kept content).length⟩ := by
  have hupdate : start.update content =
      ⟨Xxh64.start.pushAll (kept content), (kept content).length⟩ := by
    rw [← Nat.zero_add (kept content).length]
    rfl
  rw [hupdate, finish, ← Xxh64.finish_pushAll, ← append_padding, Xxh64.pushAll_append]

end Hasher

/-- The digest of a content, from what is kept of it. -/
theorem of_eq (content : Bytes) :
    of content = ⟨Xxh64.hash (padded (kept content)), (kept content).length⟩ :=
  Hasher.finish_update_start content

/-- The digest of a content is a digest of what is kept of it. -/
theorem of_eq_of_kept (h : kept a = kept b) : of a = of b := by
  rw [of_eq, of_eq, h]

theorem ofPieces_eq (pieces : List Bytes) : ofPieces pieces = of pieces.flatten := by
  rw [ofPieces, Hasher.foldl_update, of]

/-! ## Reads -/

/-- What one read after the other yields: bytes, no bytes at the end, or a failure. -/
abbrev Reads := List (Except String Bytes)

namespace Reads

/-- How many bytes and answers are still to come. -/
def remaining : Reads → Nat
  | [] => 0
  | .error _ :: rest => remaining rest + 1
  | .ok piece :: rest => remaining rest + (piece.length + 1)

/-- Read as much as there is room for; what there is no room for stays behind. -/
def next (room : Nat) : Reads → Except String (Bytes × Reads)
  | [] => .ok ([], [])
  | .error message :: _ => .error message
  | .ok piece :: rest =>
    if piece.length ≤ room then .ok (piece, rest)
    else .ok (piece.take room, .ok (piece.drop room) :: rest)

/-- What is yielded up to the end, and the failure that comes before it. -/
def stream : Reads → Stream
  | [] => .ofBytes []
  | .error message :: _ => ⟨[], some message⟩
  | .ok piece :: rest =>
    if piece = [] then .ofBytes [] else ⟨piece ++ (stream rest).content, (stream rest).failure⟩

variable {room : Nat} {reads rest : Reads} {chunk : Bytes} {message : String}

theorem next_eq_error (h : next room reads = .error message) :
    ∃ rest, reads = .error message :: rest := by
  fun_cases next room reads with
  | case1 => cases h
  | case2 message' rest =>
    cases h
    exact ⟨rest, rfl⟩
  | case3 piece rest hroom =>
    rw [next, if_pos hroom] at h
    cases h
  | case4 piece rest hroom =>
    rw [next, if_neg hroom] at h
    cases h

/-- Bytes are the end, a piece that there is room for, or the front of one that there is not. -/
theorem next_eq_ok (h : next room reads = .ok (chunk, rest)) :
    (reads = [] ∧ chunk = []) ∨ reads = .ok chunk :: rest ∨
      ∃ piece behind, room < piece.length ∧ reads = .ok piece :: behind ∧
        chunk = piece.take room ∧ rest = .ok (piece.drop room) :: behind := by
  fun_cases next room reads with
  | case1 =>
    cases h
    exact .inl ⟨rfl, rfl⟩
  | case2 message rest => cases h
  | case3 piece behind hroom =>
    rw [next, if_pos hroom] at h
    cases h
    exact .inr (.inl rfl)
  | case4 piece behind hroom =>
    rw [next, if_neg hroom] at h
    cases h
    exact .inr (.inr ⟨piece, behind, Nat.lt_of_not_le hroom, rfl, rfl, rfl⟩)

theorem remaining_of_next (h : next room reads = .ok (chunk, rest)) (hchunk : chunk ≠ []) :
    rest.remaining < reads.remaining := by
  obtain ⟨-, rfl⟩ | rfl | ⟨piece, behind, hroom, rfl, rfl, rfl⟩ := next_eq_ok h
  · exact absurd rfl hchunk
  · rw [remaining]
    omega
  · have hpos : 0 < (piece.take room).length := List.length_pos_iff.2 hchunk
    rw [List.length_take] at hpos
    rw [remaining, remaining, List.length_drop]
    omega

/-- Nothing is read at the end only. -/
theorem stream_of_next_nil (hroom : 0 < room) (h : next room reads = .ok ([], rest)) :
    reads.stream = .ofBytes [] := by
  obtain ⟨rfl, -⟩ | rfl | ⟨piece, behind, hlong, rfl, hfront, -⟩ := next_eq_ok h
  · rfl
  · rfl
  · have hlength := congrArg List.length hfront
    rw [List.length_take, List.length_nil] at hlength
    omega

/-- Otherwise it is the first part of what is yielded. -/
theorem stream_of_next (h : next room reads = .ok (chunk, rest)) (hchunk : chunk ≠ []) :
    reads.stream = ⟨chunk ++ rest.stream.content, rest.stream.failure⟩ := by
  obtain ⟨-, rfl⟩ | rfl | ⟨piece, behind, hlong, rfl, rfl, rfl⟩ := next_eq_ok h
  · exact absurd rfl hchunk
  · rw [stream, if_neg hchunk]
  · have hpiece : piece ≠ [] := List.ne_nil_of_length_pos (Nat.zero_lt_of_lt hlong)
    have hback : piece.drop room ≠ [] := by
      rw [ne_eq, List.drop_eq_nil_iff]
      exact Nat.not_le.2 hlong
    rw [stream, stream, if_neg hpiece, if_neg hback, ← List.append_assoc, List.take_append_drop]

/-- Reads that yield pieces and do not fail yield these up to the end. -/
theorem stream_map_ok {pieces : List Bytes} (h : ∀ piece ∈ pieces, piece ≠ []) :
    stream (pieces.map .ok) = .ofBytes pieces.flatten := by
  induction pieces with
  | nil => rfl
  | cons piece pieces ih =>
    obtain ⟨hpiece, hpieces⟩ := List.forall_mem_cons.1 h
    rw [List.map_cons, stream, if_neg hpiece, ih hpieces, List.flatten_cons]
    rfl

end Reads

/-- How much room there is for what is read at once. -/
def bufferLength : Nat := 64 * 1024

/-- Feed everything that is read until the end. -/
def feedReads (h : Hasher) (reads : Reads) : Except String FilteredDigest :=
  match _hnext : reads.next bufferLength with
  | .error message => .error message
  | .ok (chunk, rest) =>
    if _hend : chunk = [] then .ok h.finish else feedReads (h.update chunk) rest
termination_by reads.remaining
decreasing_by exact Reads.remaining_of_next _hnext _hend

/-- The digest of what is read until the end. -/
def ofReads (reads : Reads) : Except String FilteredDigest :=
  feedReads .start reads

theorem feedReads_eq (h : Hasher) (reads : Reads) :
    feedReads h reads = reads.stream.readAll.map fun content => (h.update content).finish := by
  fun_induction feedReads h reads with
  | case1 h reads message hnext =>
    obtain ⟨rest, rfl⟩ := Reads.next_eq_error hnext
    rfl
  | case2 h reads rest hnext =>
    rw [Reads.stream_of_next_nil (by decide) hnext]
    rfl
  | case3 h reads chunk rest hnext hend ih =>
    rw [ih, Reads.stream_of_next hnext hend]
    cases hfailure : rest.stream.failure with
    | none => simp [Stream.readAll, hfailure, Except.map, Hasher.update_append]
    | some message => simp [Stream.readAll, hfailure, Except.map]

/-- What is read has the digest of the content, whatever the reads are, unless one fails. -/
theorem ofReads_eq (reads : Reads) : ofReads reads = reads.stream.readAll.map of :=
  feedReads_eq .start reads

/-! ## Content in pieces -/

/--
However a content is taken apart, be it between the two bytes of a line break, it has one digest:
from its pieces one after the other, from reads that yield those of them that are not empty, and
from the whole. That is the number of bytes that belong to no line break, and the hash of those
bytes with zeros up to the next whole block of 32, of which there are none behind whole blocks.
-/
theorem chunks_exact (pieces : List Bytes) :
    let rest := pieces.flatten.filter fun b => b ≠ 0x0D ∧ b ≠ 0x0A
    let digest : FilteredDigest := ⟨Xxh64.hash (padded rest), rest.length⟩
    ofPieces pieces = digest ∧
      ofReads ((pieces.filter (· ≠ [])).map .ok) = .ok digest ∧
      of pieces.flatten = digest ∧
      IsLeast {whole | rest.length ≤ whole ∧ 32 ∣ whole} (padded rest).length ∧
      (32 ∣ rest.length → padded rest = rest) := by
  intro rest digest
  have hwhole : of pieces.flatten = digest := by
    rw [of_eq, kept_eq_filter]
  have hpieces : ∀ piece ∈ pieces.filter (· ≠ []), piece ≠ [] := fun piece hmem =>
    of_decide_eq_true (List.mem_filter.1 hmem).2
  have hreads : ofReads ((pieces.filter (· ≠ [])).map .ok) = .ok digest := by
    rw [ofReads_eq, Reads.stream_map_ok hpieces, List.flatten_filter_ne_nil, ← hwhole]
    rfl
  have hlength := wholeLength_isLeast rest.length
  rw [← length_padded] at hlength
  exact ⟨(ofPieces_eq pieces).trans hwhole, hreads, hwhole, hlength, padded_of_dvd⟩

/-- A line break across two pieces leaves one whole block, which is hashed as it is. -/
theorem chunks_exact_across :
    let pieces : List Bytes := [List.replicate 31 0x61 ++ [0x0D], [], [0x0A, 0x62]]
    let block : Bytes := List.replicate 31 0x61 ++ [0x62]
    32 ∣ block.length ∧ ofPieces pieces = ⟨Xxh64.hash block, 32⟩ ∧
      ofReads [.ok (List.replicate 31 0x61 ++ [0x0D]), .ok [0x0A, 0x62]] =
        .ok ⟨Xxh64.hash block, 32⟩ := by
  intro pieces block
  have hrest : (pieces.flatten.filter fun b => b ≠ 0x0D ∧ b ≠ 0x0A) = block := by decide
  have hwhole : 32 ∣ block.length := by decide
  obtain ⟨hpieces, hreads, -, -, hpadded⟩ := chunks_exact pieces
  rw [hrest] at hpieces hreads hpadded
  rw [hpadded hwhole] at hpieces hreads
  exact ⟨hwhole, hpieces, hreads⟩

end FilteredDigest

end PackageAudit
