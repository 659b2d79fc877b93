import Xv6.Fs.Blocks
import Xv6.Lib.Places

/-!
# Who owns a block

A block of the disk belongs to the metadata (`Place.fixed`), or to a spot of an allocated inode: one
of its addresses, or an entry of its indirect block. `Sound e T c` says, for a table `T` of inodes,

    owns    a block is marked in the free map iff it belongs to a place, and to one only;
    full    a file or directory has a block for each index below its size;
    copy    what the inode cache holds of an inode is what the table has;
    apart   no inode is in the cache twice.

`Inv` is `Sound` with the inode table of the disk. Between a change of an inode in memory and its
`iupdate`, the table that counts is the one that the `iupdate` will leave (`Core.tbl`).
-/

namespace Xv6.Fs
open Lib Function

inductive Spot where
  | addr (k : Fin (NDIRECT + 1))
  | entry (j : Fin NINDIRECT)
  deriving DecidableEq

inductive Place where
  | fixed (b : Nat)
  | inode (n : Nat) (x : Spot)
  deriving DecidableEq

/-- the address of the indirect block. -/
def Spot.indirect : Spot := .addr (Fin.last NDIRECT)

/-- the spot of the `bn`-th block of the content. -/
def spot (bn : Fin MAXFILE) : Spot :=
  if h : bn.val < NDIRECT then .addr ⟨bn, Nat.lt_succ_of_lt h⟩
  else .entry ⟨bn - NDIRECT, Nat.sub_lt_left_of_lt_add (Nat.le_of_not_lt h) bn.isLt⟩

/-- the address at a spot; 0 is no block. -/
def Dinode.block (d : Dinode) (data : Nat → Block) : Spot → Nat
  | .addr k => d.addrs k
  | .entry j =>
    if d.addrs (Fin.last NDIRECT) = 0 then 0 else word (data (d.addrs (Fin.last NDIRECT))) j

def nz (b : Nat) : Option Nat := if b = 0 then none else some b

def own (e : Env) (T : Nat → Dinode) (data : Nat → Block) : Place → Option Nat
  | .fixed b => if b < e.nmeta then some b else none
  | .inode n x => if n < e.ninodes ∧ (T n).type ≠ 0 then nz ((T n).block data x) else none

/-- the cache entry holds the inode of the table `T`, which is allocated. -/
structure Copy (e : Env) (T : Nat → Dinode) (x : Inode) : Prop where
  inum_lt : x.inum < e.ninodes
  same : x.d = T x.inum
  type_ne : x.d.type ≠ 0

/-- the entry is referenced, and read from the disk. -/
structure Core.Held (c : Core) (i : Ip) : Prop where
  ref : 0 < (c.inode i).ref
  valid : (c.inode i).valid = true

structure Sound (e : Env) (T : Nat → Dinode) (c : Core) : Prop where
  owns : Owns (· < e.size) c.used (own e T c.data)
  full : ∀ n (bn : Fin MAXFILE), n < e.ninodes → (T n).type ≠ 0 → (T n).type ≠ T_DEV →
    bn * BSIZE < (T n).size → ∃ b, own e T c.data (.inode n (spot bn)) = some b
  copy : ∀ i, c.Held i → Copy e T (c.inode i)
  apart : ∀ i j, 0 < (c.inode i).ref → 0 < (c.inode j).ref → (c.inode i).inum = (c.inode j).inum → i = j

abbrev Inv (e : Env) (c : Core) : Prop := Sound e c.dinode c

/-- the inode table after an `iupdate` of `i`. -/
def Core.tbl (c : Core) (i : Ip) : Nat → Dinode :=
  Function.update c.dinode (c.inode i).inum (c.inode i).d

variable {e : Env} {T T' : Nat → Dinode} {data data' : Nat → Block} {c c' : Core} {i : Ip} {n : Nat}
  {x : Spot} {a b : Nat} {d : Dinode} {y : Inode} {j : Fin NINDIRECT}

/-! ## the places -/

lemma nz_eq_some : nz a = some b ↔ a = b ∧ b ≠ 0 := by
  unfold nz
  split
  · next h => simp [h, eq_comm]
  · next h =>
    constructor
    · intro hs
      cases hs
      exact ⟨rfl, h⟩
    · intro ⟨hs, _⟩
      rw [hs]

lemma own_eq_some : own e T data (.inode n x) = some b ↔
    (n < e.ninodes ∧ (T n).type ≠ 0) ∧ (T n).block data x = b ∧ b ≠ 0 := by
  show (if _ then _ else _) = _ ↔ _
  split
  · next h => rw [nz_eq_some]; exact ⟨fun hb => ⟨h, hb⟩, And.right⟩
  · next h => exact ⟨fun hb => (by cases hb), fun hb => absurd hb.1 h⟩

lemma own_live (hn : n < e.ninodes) (ht : (T n).type ≠ 0) :
    own e T data (.inode n x) = nz ((T n).block data x) := if_pos ⟨hn, ht⟩

lemma block_entry_none (h : d.addrs (Fin.last NDIRECT) = 0) :
    d.block data (.entry j) = 0 := if_pos h

lemma block_entry (h : d.addrs (Fin.last NDIRECT) ≠ 0) :
    d.block data (.entry j) = word (data (d.addrs (Fin.last NDIRECT))) j := if_neg h

lemma block_of_addrs (ha : ∀ k, d.addrs k = 0) (x : Spot) : d.block data x = 0 := by
  cases x with
  | addr k => exact ha k
  | entry => exact block_entry_none (ha _)

lemma Copy.own_eq (h : Copy e T y) (x : Spot) : own e T data (.inode y.inum x) = nz (y.d.block data x) := by
  have hty := h.type_ne
  rw [h.same] at hty
  rw [own_live h.inum_lt hty, ← h.same]

lemma Copy.of_eq {y z : Inode} (h : Copy e T y) (hn : z.inum = y.inum) (hd : z.d = y.d) : Copy e T z :=
  ⟨by rw [hn]; exact h.inum_lt, by rw [hn, hd]; exact h.same, by rw [hd]; exact h.type_ne⟩

lemma spot_ne_indirect (bn : Fin MAXFILE) : spot bn ≠ .indirect := by
  unfold spot Spot.indirect
  split
  · next h =>
    intro hs
    have := congrArg Fin.val (Spot.addr.inj hs)
    exact absurd this (Nat.ne_of_lt h)
  · intro hs
    cases hs

lemma spot_injective {m m' : Fin MAXFILE} (h : spot m = spot m') : m = m' := by
  unfold spot at h
  split at h <;> split at h
  · have hv := congrArg Fin.val (Spot.addr.inj h)
    exact Fin.ext hv
  · cases h
  · cases h
  · next h1 h2 =>
    have hv : m.val - NDIRECT = m'.val - NDIRECT := congrArg Fin.val (Spot.entry.inj h)
    exact Fin.ext (by omega)

lemma spot_direct {bn : Nat} (hd : bn < NDIRECT) :
    ∃ m : Fin MAXFILE, m.val = bn ∧ spot m = .addr ⟨bn, Nat.lt_succ_of_lt hd⟩ :=
  ⟨⟨bn, Nat.lt_of_lt_of_le hd (Nat.le_add_right _ _)⟩, rfl, dif_pos hd⟩

lemma spot_entry {bn : Nat} (hd : ¬ bn < NDIRECT) (hj : bn - NDIRECT < NINDIRECT) :
    ∃ m : Fin MAXFILE, m.val = bn ∧ spot m = .entry ⟨bn - NDIRECT, hj⟩ := by
  have hm : bn < MAXFILE := by
    have := Nat.add_lt_add_left hj NDIRECT
    rwa [Nat.add_sub_of_le (Nat.le_of_not_lt hd)] at this
  exact ⟨⟨bn, hm⟩, rfl, dif_neg hd⟩

lemma own_frame (hT : T' n = T n)
    (hd : ∀ b, own e T data (.inode n .indirect) = some b → data' b = data b) :
    own e T' data' (.inode n x) = own e T data (.inode n x) := by
  by_cases hl : n < e.ninodes ∧ (T n).type ≠ 0
  · rw [own_live hl.1 hl.2, own_live hl.1 (by rw [hT]; exact hl.2), hT]
    cases x with
    | addr => rfl
    | entry j =>
      by_cases h0 : (T n).addrs (Fin.last NDIRECT) = 0
      · rw [block_entry_none h0, block_entry_none h0]
      · have hb := hd _ (own_eq_some.mpr ⟨hl, rfl, h0⟩)
        rw [block_entry h0, block_entry h0]
        exact congrArg (fun y => nz (word y j)) hb
  · show (if _ then _ else _) = if _ then _ else _
    rw [hT, if_neg hl, if_neg hl]

lemma data_update_of_ne {y : Block} (hb : own e T data (.inode n .indirect) ≠ some a) :
    ∀ b, own e T data (.inode n .indirect) = some b → update data a y b = data b := by
  intro b h
  refine update_of_ne ?_ _ _
  intro hab
  rw [hab] at h
  exact hb h

namespace Sound

lemma ne_zero_of_free (h : Sound e T c) (ha : c.used a = false) : a ≠ 0 := by
  intro h0
  have hp : own e T c.data (.fixed 0) = some 0 := by
    apply if_pos
    have := e.nblocks_lt
    show 0 < e.size - e.nblocks
    omega
  rw [h0, h.owns.used_of hp] at ha
  cases ha

lemma inside (h : Sound e T c) (hb : own e T c.data (.inode n x) = some b) : e.nmeta ≤ b ∧ b < e.size := by
  refine ⟨Nat.le_of_not_lt fun hm => ?_, h.owns.data _ b hb⟩
  have hf : own e T c.data (.fixed b) = some b := if_pos hm
  cases h.owns.one _ _ _ hb hf

lemma tbl_eq (h : Inv e c) (hi : c.Held i) : c.tbl i = c.dinode := by
  unfold Core.tbl
  rw [(h.copy i hi).same]
  exact update_eq_self _ _

lemma setDinode (h : Sound e T c) (n : Nat) (d : Dinode) : Sound e T (c.setDinode n d) :=
  ⟨h.owns, h.full, fun i hi => h.copy i ⟨hi.ref, hi.valid⟩, h.apart⟩

lemma written (h : Sound e (c.tbl i) c) : Inv e (c.setDinode (c.inode i).inum (c.inode i).d) :=
  h.setDinode _ _

/-! ## one entry of the cache changes -/

section
variable (h : Sound e T c) (hy : 0 < y.ref → y.valid = true → Copy e T y)
include h hy

lemma setInode
    (ha : 0 < y.ref → ∀ j, j ≠ i → 0 < (c.inode j).ref → (c.inode j).inum ≠ y.inum) :
    Sound e T (c.setInode i y) := by
  have hself := c.setInode_self i y
  have hne : ∀ j, j ≠ i → (c.setInode i y).inode j = c.inode j := fun j => c.setInode_of_ne y
  refine ⟨h.owns, h.full, fun j hj => ?_, fun j k hj hk hjk => ?_⟩
  · by_cases hji : j = i
    · have hr := hj.ref
      have hv := hj.valid
      rw [hji, hself] at hr hv ⊢
      exact hy hr hv
    · have hr := hj.ref
      have hv := hj.valid
      rw [hne j hji] at hr hv ⊢
      exact h.copy j ⟨hr, hv⟩
  · by_cases hji : j = i <;> by_cases hki : k = i
    · rw [hji, hki]
    · rw [hji, hself] at hj hjk
      rw [hne k hki] at hk hjk
      exact absurd hjk.symm (ha hj k hki hk)
    · rw [hki, hself] at hk hjk
      rw [hne j hji] at hj hjk
      exact absurd hjk (ha hk j hji hj)
    · rw [hne j hji, hne k hki] at hjk
      rw [hne j hji] at hj
      rw [hne k hki] at hk
      exact h.apart j k hj hk hjk

lemma setInode_same
    (hn : y.inum = (c.inode i).inum) (hr : 0 < y.ref → 0 < (c.inode i).ref) :
    Sound e T (c.setInode i y) := by
  refine h.setInode hy fun hp j hj hjr hjn => hj ?_
  rw [hn] at hjn
  exact h.apart j i hjr (hr hp) hjn

end

end Sound

/-! ## a change in memory, with the table that follows it -/

lemma Sound.copies (h : Sound e T c) (hi : c.Held i) (hd : d.type ≠ 0) {j : Ip}
    (hj : (c.setCopy i d).Held j) :
    Copy e (update T (c.inode i).inum d) ((c.setCopy i d).inode j) := by
  by_cases hji : j = i
  · rw [hji, c.setCopy_self]
    refine ⟨(h.copy i hi).inum_lt, ?_, hd⟩
    show d = update T (c.inode i).inum d (c.inode i).inum
    rw [update_self]
  · have hs := c.setCopy_of_ne d hji
    have hr := hj.ref
    have hv := hj.valid
    rw [hs] at hr hv ⊢
    have hc := h.copy j ⟨hr, hv⟩
    refine ⟨hc.inum_lt, ?_, hc.type_ne⟩
    rw [update_of_ne, hc.same]
    intro hn
    exact hji (h.apart j i hr hi.ref hn)

lemma Sound.aparts (h : Sound e T c) (d : Dinode) (j k : Ip)
    (hj : 0 < ((c.setCopy i d).inode j).ref) (hk : 0 < ((c.setCopy i d).inode k).ref)
    (hjk : ((c.setCopy i d).inode j).inum = ((c.setCopy i d).inode k).inum) : j = k := by
  have hs : ∀ m, ((c.setCopy i d).inode m).ref = (c.inode m).ref ∧
      ((c.setCopy i d).inode m).inum = (c.inode m).inum := by
    intro m
    by_cases hm : m = i
    · rw [hm, c.setCopy_self]
      exact ⟨rfl, rfl⟩
    · rw [c.setCopy_of_ne d hm]
      exact ⟨rfl, rfl⟩
  rw [(hs j).1] at hj
  rw [(hs k).1] at hk
  rw [(hs j).2, (hs k).2] at hjk
  exact h.apart j k hj hk hjk

end Xv6.Fs
