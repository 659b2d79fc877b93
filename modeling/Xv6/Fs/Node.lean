import Xv6.Fs.Owner

/-!
# What an inode is on the disk

A `Node` is an allocated inode with all that belongs to it: its fields, the block at each of its
spots, and the bytes of its content. `nodeAt e T data n` reads it from a table of inodes and from
the data blocks; `c.node e` takes the table of the disk. A node depends on the entry of the table and
on its own blocks only (`nodeAt_frame`).
-/

namespace Xv6.Fs
open Lib

/-- the address of the `bn`-th block of the content; 0 is no block. -/
def Dinode.blockOf (d : Dinode) (data : Nat → Block) (bn : Nat) : Nat :=
  if h : bn < MAXFILE then d.block data (spot ⟨bn, h⟩) else 0

/-- the byte at the offset `k` of the content. -/
def Dinode.byteAt (d : Dinode) (data : Nat → Block) (k : Nat) : UInt8 :=
  if d.blockOf data (k / BSIZE) = 0 then 0
  else byte (data (d.blockOf data (k / BSIZE))) (k % BSIZE)

structure Node where
  d : Dinode
  blk : Spot → Nat
  bytes : Nat → UInt8

/-- the node of a dinode. -/
def Dinode.node (d : Dinode) (data : Nat → Block) : Node :=
  ⟨d, d.block data, fun k => if k < d.size then d.byteAt data k else 0⟩

def nodeAt (e : Env) (T : Nat → Dinode) (data : Nat → Block) (n : Nat) : Option Node :=
  if n < e.ninodes ∧ (T n).type ≠ 0 then some ((T n).node data) else none

def Core.node (e : Env) (c : Core) (n : Nat) : Option Node := nodeAt e c.dinode c.data n

variable {e : Env} {T T' : Nat → Dinode} {data data' : Nat → Block} {c c' : Core} {i : Ip} {n k : Nat}
  {d : Dinode} {x : Node}

lemma nodeAt_live (hn : n < e.ninodes) (ht : (T n).type ≠ 0) :
    nodeAt e T data n = some ((T n).node data) := if_pos ⟨hn, ht⟩

lemma nodeAt_none (h : ¬ (n < e.ninodes ∧ (T n).type ≠ 0)) : nodeAt e T data n = none := if_neg h

lemma nodeAt_eq_some : nodeAt e T data n = some x ↔ (n < e.ninodes ∧ (T n).type ≠ 0) ∧ (T n).node data = x := by
  unfold nodeAt
  split
  · next h => exact ⟨fun hx => ⟨h, Option.some.inj hx⟩, fun hx => congrArg some hx.2⟩
  · next h => exact ⟨fun hx => (by cases hx), fun hx => absurd hx.1 h⟩

lemma blockOf_lt (h : k < MAXFILE) : d.blockOf data k = d.block data (spot ⟨k, h⟩) := dif_pos h

lemma blockOf_ge (h : ¬ k < MAXFILE) : d.blockOf data k = 0 := dif_neg h

lemma lt_of_blockOf (h : d.blockOf data k ≠ 0) : k < MAXFILE := by
  by_contra hk
  exact h (blockOf_ge hk)

lemma byteAt_none (h : d.blockOf data (k / BSIZE) = 0) : d.byteAt data k = 0 := if_pos h

lemma byteAt_some (h : d.blockOf data (k / BSIZE) ≠ 0) :
    d.byteAt data k = byte (data (d.blockOf data (k / BSIZE))) (k % BSIZE) := if_neg h

lemma byteAt_congr {d' : Dinode} (hb : d'.blockOf data' (k / BSIZE) = d.blockOf data (k / BSIZE))
    (hd : d.blockOf data (k / BSIZE) ≠ 0 → data' (d.blockOf data (k / BSIZE)) = data (d.blockOf data (k / BSIZE))) :
    d'.byteAt data' k = d.byteAt data k := by
  by_cases h0 : d.blockOf data (k / BSIZE) = 0
  · rw [byteAt_none h0, byteAt_none (hb.trans h0)]
  · rw [byteAt_some h0, byteAt_some (by rw [hb]; exact h0), hb, hd h0]

lemma nz_inj {a b : Nat} (h : nz a = nz b) : a = b := by
  unfold nz at h
  split at h <;> split at h
  · next ha hb => rw [ha, hb]
  · cases h
  · cases h
  · exact Option.some.inj h

lemma byteAt_frame (hl : n < e.ninodes ∧ (T n).type ≠ 0) (hT : T' n = T n)
    (hd : ∀ x b, own e T data (.inode n x) = some b → data' b = data b) :
    (∀ x, (T' n).block data' x = (T n).block data x) ∧ ∀ k, (T' n).byteAt data' k = (T n).byteAt data k := by
  have hl' : n < e.ninodes ∧ (T' n).type ≠ 0 := by rw [hT]; exact hl
  have hblk : ∀ x, (T' n).block data' x = (T n).block data x := by
    intro x
    have h1 := own_frame (x := x) hT (hd .indirect)
    rw [own_live hl.1 hl.2, own_live hl'.1 hl'.2] at h1
    exact nz_inj h1
  have hof : ∀ bn, (T' n).blockOf data' bn = (T n).blockOf data bn := by
    intro bn
    unfold Dinode.blockOf
    split
    · exact hblk _
    · rfl
  refine ⟨hblk, fun k => byteAt_congr (hof _) fun h0 => ?_⟩
  by_cases hk : k / BSIZE < MAXFILE
  · rw [blockOf_lt hk] at h0 ⊢
    exact hd _ _ (own_eq_some.mpr ⟨hl, rfl, h0⟩)
  · exact absurd (lt_of_blockOf h0) hk

lemma nodeAt_frame (hT : T' n = T n)
    (hd : ∀ x b, own e T data (.inode n x) = some b → data' b = data b) :
    nodeAt e T' data' n = nodeAt e T data n := by
  by_cases hl : n < e.ninodes ∧ (T n).type ≠ 0
  · have hl' : n < e.ninodes ∧ (T' n).type ≠ 0 := by rw [hT]; exact hl
    rw [nodeAt_live hl.1 hl.2, nodeAt_live hl'.1 hl'.2]
    obtain ⟨hblk, hbyte⟩ := byteAt_frame hl hT hd
    unfold Dinode.node
    rw [funext hblk, funext hbyte, hT]
  · rw [nodeAt_none hl, nodeAt_none (by rw [hT]; exact hl)]

lemma Copy.node_eq {y : Inode} (h : Copy e T y) : nodeAt e T data y.inum = some (y.d.node data) := by
  have hty := h.type_ne
  rw [h.same] at hty ⊢
  exact nodeAt_live h.inum_lt hty

/-- the same inodes, addresses and contents; the cache is left out. -/
structure Core.Same (c c' : Core) : Prop where
  used : c'.used = c.used
  dinode : c'.dinode = c.dinode
  data : c'.data = c.data

lemma Core.Same.refl (c : Core) : c.Same c := ⟨rfl, rfl, rfl⟩

lemma Core.Same.trans {c'' : Core} (h : c.Same c') (h' : c'.Same c'') : c.Same c'' :=
  ⟨h'.used.trans h.used, h'.dinode.trans h.dinode, h'.data.trans h.data⟩

lemma Core.Same.node (h : c.Same c') : c'.node e = c.node e := by
  unfold Core.node
  rw [h.dinode, h.data]

end Xv6.Fs
