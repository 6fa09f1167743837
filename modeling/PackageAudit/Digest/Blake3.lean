import PackageAudit.Digest.Endian

/-!
# Digest.Blake3 — the BLAKE3 hash of a content

* `Blake3.compress` — the compression function;
* `Blake3.Node` — the last input of a chunk or of a pair of subtrees, before it is compressed;
* `Blake3.tree` — the node of a content: one chunk, or two subtrees of which the left one is full;
* `Blake3.hash` — the 32 bytes of the root.
-/

namespace PackageAudit

namespace Blake3

/-- Eight words that chain one compression to the next. -/
abbrev Chain := Vector UInt32 8

/-- Sixteen words: a block of the input, or the state of a compression. -/
abbrev Block := Vector UInt32 16

def initial : Chain :=
  #v[0x6A09E667, 0xBB67AE85, 0x3C6EF372, 0xA54FF53A, 0x510E527F, 0x9B05688C, 0x1F83D9AB, 0x5BE0CD19]

/-! ## Compression -/

/-- Uses of the compression function, as bits of one word. -/
def chunkStart : UInt32 := 1
def chunkEnd : UInt32 := 2
def parent : UInt32 := 4
def root : UInt32 := 8

def rotateRight (x n : UInt32) : UInt32 :=
  (x >>> n) ||| (x <<< (32 - n))

/-- Mix two words of input into four words of the state. -/
def mix (v : Block) (a b c d : Fin 16) (x y : UInt32) : Block :=
  let va := v[a] + v[b] + x
  let vd := rotateRight (v[d] ^^^ va) 16
  let vc := v[c] + vd
  let vb := rotateRight (v[b] ^^^ vc) 12
  let va := va + vb + y
  let vd := rotateRight (vd ^^^ va) 8
  let vc := vc + vd
  let vb := rotateRight (vb ^^^ vc) 7
  (((v.set a va).set b vb).set c vc).set d vd

/-- One round: the columns of the state, then its diagonals. -/
def round (m v : Block) : Block :=
  let v := mix v 0 4 8 12 m[0] m[1]
  let v := mix v 1 5 9 13 m[2] m[3]
  let v := mix v 2 6 10 14 m[4] m[5]
  let v := mix v 3 7 11 15 m[6] m[7]
  let v := mix v 0 5 10 15 m[8] m[9]
  let v := mix v 1 6 11 12 m[10] m[11]
  let v := mix v 2 7 8 13 m[12] m[13]
  mix v 3 4 9 14 m[14] m[15]

/-- The order in which the next round takes the words of the input. -/
def permute (m : Block) : Block :=
  #v[m[2], m[6], m[3], m[10], m[7], m[0], m[4], m[13], m[1], m[11], m[12], m[5], m[9], m[14], m[15],
    m[8]]

/-- A number of rounds, the input permuted between them. -/
def rounds : Nat → Block → Block → Block
  | 0, _, v => v
  | n + 1, m, v => rounds n (permute m) (round m v)

/-- The sixteen words made of a chain, a block of input with its length, and its use. -/
def compress (chain : Chain) (block : Block) (counter : Nat) (length flags : UInt32) : Block :=
  let v : Block := chain ++
    #v[initial[0], initial[1], initial[2], initial[3], .ofNat counter,
      .ofNat (counter / 0x100000000), length, flags]
  let v := rounds 7 block v
  Vector.ofFn fun (i : Fin 16) =>
    if _h : i.val < 8 then v[i.val] ^^^ v[i.val + 8] else v[i.val] ^^^ chain[i.val - 8]

/-! ## Tree -/

/-- What is compressed last for a part of the content. -/
structure Node where
  chain : Chain
  block : Block
  counter : Nat
  length : UInt32
  flags : UInt32

/-- The chain that represents a part inside the tree. -/
def Node.chaining (n : Node) : Chain :=
  (compress n.chain n.block n.counter n.length n.flags).take 8

/-- The hash of a part that is the whole content. -/
def Node.hash (n : Node) : Bytes :=
  ((compress n.chain n.block 0 n.length (n.flags ||| root)).toList.take 8).flatMap fun word =>
    Endian.bytes 4 word.toNat

/-- The words of at most 64 bytes, zeros behind them. -/
def blockOf (bs : Bytes) : Block :=
  Vector.ofFn fun (i : Fin 16) => Endian.word32 ((bs.drop (4 * i.val)).take 4)

/-- The node of the rest of a chunk, block by block. -/
def chunkFrom (chain : Chain) (counter : Nat) (flags : UInt32) (bs : Bytes) : Node :=
  if _h : bs.length ≤ 64 then ⟨chain, blockOf bs, counter, .ofNat bs.length, flags ||| chunkEnd⟩
  else
    let next := (compress chain (blockOf (bs.take 64)) counter 64 flags).take 8
    chunkFrom next counter 0 (bs.drop 64)
  termination_by bs.length
  decreasing_by simp only [List.length_drop]; omega

/-- The node of a chunk of at most 1024 bytes. -/
def chunk (counter : Nat) (bs : Bytes) : Node :=
  chunkFrom initial counter chunkStart bs

/-- The node above two subtrees. -/
def pair (left right : Node) : Node :=
  ⟨initial, left.chaining ++ right.chaining, 0, 64, parent⟩

/-- How many chunks belong to the left subtree: the greatest power of two that leaves a rest. -/
def leftChunks (length : Nat) : Nat :=
  Nat.pow 2 ((length - 1) / 1024).log2

theorem leftChunks_bounds {n : Nat} (h : 1024 < n) :
    0 < 1024 * leftChunks n ∧ 1024 * leftChunks n < n := by
  have hne : (n - 1) / 1024 ≠ 0 := by omega
  have := Nat.log2_self_le hne
  have := Nat.two_pow_pos ((n - 1) / 1024).log2
  simp only [leftChunks, Nat.pow_eq]
  omega

/-- The node of a part of the content whose first chunk has the number `counter`. -/
def tree (counter : Nat) (bs : Bytes) : Node :=
  if h : bs.length ≤ 1024 then chunk counter bs
  else
    have := leftChunks_bounds (Nat.not_le.1 h)
    let left := leftChunks bs.length
    pair (tree counter (bs.take (1024 * left))) (tree (counter + left) (bs.drop (1024 * left)))
  termination_by bs.length
  decreasing_by
    all_goals simp only [List.length_take, List.length_drop]
    all_goals omega

/-- The hash of a content. -/
def hash (content : Bytes) : Bytes :=
  (tree 0 content).hash

end Blake3

end PackageAudit
