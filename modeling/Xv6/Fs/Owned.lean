import Xv6.Fs.Walk

/-!
# Every block has one owner

`Owned` is read off the disk, as it stands after a call: the free map marks the metadata and the
blocks that are referred to from one place. A file system keeps it, once its files and directories
have no holes (`Whole`): where an inode has no block for an index below its size, `bmap` allocates
one for a mere `readi`, and its address never reaches the disk. `mkfs` leaves such a hole at the
end of the root directory, when the entries fill its blocks.
-/

namespace Xv6.Fs
open Lib List

/-- the spot `p.2` of the allocated inode `p.1` refers to the block `b`. -/
def Refers (e : Env) (c : Core) (p : Nat × Spot) (b : Nat) : Prop :=
  (p.1 < e.ninodes ∧ (c.dinode p.1).type ≠ 0) ∧ (c.dinode p.1).block c.data p.2 = b ∧ b ≠ 0

structure Owned (e : Env) (c : Core) : Prop where
  used_iff : ∀ b, b < e.size → (c.used b = true ↔ b < e.nmeta ∨ ∃! p, Refers e c p b)
  once : ∀ p q b, Refers e c p b → Refers e c q b → p = q

/-- the addresses are those of data blocks, and no file or directory has a hole. -/
structure Whole (e : Env) (c : Core) : Prop where
  inside : ∀ p b, Refers e c p b → e.nmeta ≤ b ∧ b < e.size
  full : ∀ n (bn : Fin MAXFILE), n < e.ninodes → (c.dinode n).type ≠ 0 →
    (c.dinode n).type ≠ T_DEV → bn * BSIZE < (c.dinode n).size → ∃ b, Refers e c (n, spot bn) b

variable {e : Env} {c : Core} {s t : State} {a : Call} {b : Nat} {p : Nat × Spot} {files : Nat}

/-! ## the two readings of ownership -/

lemma own_fixed {x : Nat} : own e c.dinode c.data (.fixed x) = some b ↔ x = b ∧ b < e.nmeta := by
  show (if x < e.nmeta then some x else none) = some b ↔ _
  split
  · next h =>
    constructor
    · intro hx
      cases hx
      exact ⟨rfl, h⟩
    · intro hx
      rw [hx.1]
  · next h =>
    constructor
    · intro hx
      cases hx
    · intro hx
      rw [hx.1] at h
      exact absurd hx.2 h

lemma own_refers : own e c.dinode c.data (.inode p.1 p.2) = some b ↔ Refers e c p b := own_eq_some

lemma exists_own : (∃ p, own e c.dinode c.data p = some b) ↔ b < e.nmeta ∨ ∃ p, Refers e c p b := by
  constructor
  · rintro ⟨p, hp⟩
    cases p with
    | fixed => exact .inl (own_fixed.mp hp).2
    | inode n x => exact .inr ⟨(n, x), own_refers.mp hp⟩
  · rintro (hm | ⟨p, hp⟩)
    · exact ⟨.fixed b, own_fixed.mpr ⟨rfl, hm⟩⟩
    · exact ⟨.inode p.1 p.2, own_refers.mpr hp⟩

lemma exists_unique_refers (h : ∀ p q b, Refers e c p b → Refers e c q b → p = q) :
    (∃! p, Refers e c p b) ↔ ∃ p, Refers e c p b :=
  ⟨ExistsUnique.exists, fun ⟨p, hp⟩ => ⟨p, hp, fun q hq => h q p b hq hp⟩⟩

lemma Owned.owns (h : Owned e c) (hw : Whole e c) : Owns (· < e.size) c.used (own e c.dinode c.data) := by
  refine ⟨fun p q b hp hq => ?_, fun p b hp => ?_, fun b hb => ?_⟩
  · -- the metadata is not referred to
    have apart : ∀ p, b < e.nmeta → ¬ Refers e c p b := fun p hm hr =>
      Nat.not_lt.mpr (hw.inside p b hr).1 hm
    cases p with
    | fixed =>
      cases q with
      | fixed => rw [(own_fixed.mp hp).1, (own_fixed.mp hq).1]
      | inode m y => exact absurd (own_refers.mp hq) (apart (m, y) (own_fixed.mp hp).2)
    | inode n x =>
      cases q with
      | fixed => exact absurd (own_refers.mp hp) (apart (n, x) (own_fixed.mp hq).2)
      | inode m y =>
        have hpq := h.once (n, x) (m, y) b (own_refers.mp hp) (own_refers.mp hq)
        rw [(Prod.mk.inj hpq).1, (Prod.mk.inj hpq).2]
  · cases p with
    | fixed => exact Nat.lt_of_lt_of_le (own_fixed.mp hp).2 (Nat.sub_le _ _)
    | inode n x => exact (hw.inside (n, x) b (own_refers.mp hp)).2
  · rw [h.used_iff b hb, exists_unique_refers h.once, exists_own]

lemma Sound.owned (h : Inv e c) : Owned e c := by
  have once : ∀ p q b, Refers e c p b → Refers e c q b → p = q := by
    intro p q b hp hq
    have hpq := h.owns.one _ _ b (own_refers.mpr hp) (own_refers.mpr hq)
    exact Prod.ext (Place.inode.inj hpq).1 (Place.inode.inj hpq).2
  refine ⟨fun b hb => ?_, once⟩
  rw [h.owns.used_iff b hb, exists_unique_refers once, exists_own]

/-! ## runs -/

section
variable {used : Nat → Bool} {dinode : Nat → Dinode} {data : Nat → Block}

lemma Ready.boot (h : Owned e (State.boot used dinode data).core)
    (hw : Whole e (State.boot used dinode data).core) :
    Ready e (State.boot used dinode data).core := by
  have hzero : ∀ i : Ip, 0 < ((State.boot used dinode data).core.inode i).ref → i.val = 0 := by
    intro i hi
    by_contra hne
    have hr : ((State.boot used dinode data).core.inode i).ref = 0 := if_neg hne
    omega
  refine ⟨⟨h.owns hw, fun n bn hn ht hd hs => ?_, fun i hi => ?_, fun i j hi hj _ => ?_⟩, fun i => ?_⟩
  · obtain ⟨b, hb⟩ := hw.full n bn hn ht hd hs
    exact ⟨b, own_refers.mpr hb⟩
  · cases hi.valid
  · exact Fin.ext ((hzero i hi).trans (hzero j hj).symm)
  · show (0 : Int) ≤ if i.val = 0 then 1 else 0
    split <;> decide

end

lemma step_ready (h : Ready e s.core) : (∀ t, step e s a = .ok t →
      Ready e t.core ∧ ∃ o, Effect e (fun _ => False) o s.core t.core) ∧
    ∀ x, step e s a = .error x → Benign x := by
  unfold step
  split
  · next hg =>
    have hrun := (does_call a h hg.1 hg.2 s rfl).elim
    split
    · next u hu =>
      constructor
      · intro t ht
        cases ht
        exact hrun.1 _ _ hu
      · intro x hx
        cases hx
    · next x hx =>
      constructor
      · intro t ht
        cases ht
      · intro y hy
        cases hy
        exact hrun.2 _ hx
  · constructor
    · intro t ht
      cases ht
    · intro x hx
      cases hx
      unfold Benign
      decide

/-- **Every block has one owner**, after any calls on a disk without holes, and `bfree` is never
given a free block. -/
theorem blocks_owned {used : Nat → Bool} {dinode : Nat → Dinode} {data : Nat → Block}
    {tr : List (State × Call)} (h : Path (step e) (State.boot used dinode data) tr t)
    (h0 : Owned e (State.boot used dinode data).core)
    (hw : Whole e (State.boot used dinode data).core) :
    Owned e t.core ∧ ∀ a, step e t a ≠ .error (.panic "freeing free block") := by
  have ht : Ready e t.core :=
    h.invariant (fun s => Ready e s.core) (fun _ _ => True)
      (fun s a s' hs _ hst => ((step_ready hs).1 s' hst).1) (fun _ _ => trivial) (.boot h0 hw)
  exact ⟨ht.inv.owned, fun a ha => (step_ready ht).2 _ ha rfl⟩

/-! ## the disks of `mkfs` -/

/-- a disk of `mkfs`: 30 blocks of log, 26 of inodes, one of the free map. -/
def mkfsEnv : Env where
  size := 1000
  nblocks := 941
  nblocks_lt := by decide
  size_lt := by decide
  ninodes := 200
  nlog := 30
  inodestart := 32
  bmapstart := 58
  read := fun _ => none
  write := fun _ => none

/-- the root directory with `files` files, named by one letter each. -/
def rootBlock (files : Nat) : Block := fun k =>
  let entry := k.val / DESIZE
  let pos := k.val % DESIZE
  if files + 2 ≤ entry then 0
  else if pos = 0 then if entry < 2 then 1 else UInt8.ofNat entry
  else if entry = 0 then if pos = 2 then 46 else 0
  else if entry = 1 then if pos = 2 ∨ pos = 3 then 46 else 0
  else if pos = 2 then UInt8.ofNat (95 + entry) else 0

/-- the root has the first data block; its size is rounded up to the next block, beyond the end. -/
def rootDinode (files : Nat) : Dinode :=
  ⟨T_DIR, 0, 0, 1, ((files + 2) * DESIZE / BSIZE + 1) * BSIZE, fun k => if k.val = 0 then 59 else 0⟩

def mkfsDinode (files n : Nat) : Dinode :=
  if n = ROOTINO then rootDinode files
  else if 2 ≤ n ∧ n < files + 2 then ⟨T_FILE, 0, 0, 1, 0, fun _ => 0⟩
  else Dinode.zero

/-- what `mkfs` makes of at most 30 empty files. -/
def mkfs (files : Nat) : State :=
  State.boot (fun b => b < 60) (mkfsDinode files) fun b => if b = 59 then rootBlock files else fun _ => 0

lemma mkfs_refers : Refers mkfsEnv (mkfs files).core p b ↔ p = (ROOTINO, spot ⟨0, by decide⟩) ∧ b = 59 := by
  constructor
  · obtain ⟨n, x⟩ := p
    rintro ⟨-, hb, hb0⟩
    replace hb : (mkfsDinode files n).block (mkfs files).core.data x = b := hb
    by_cases hn : n = ROOTINO
    · have hd : mkfsDinode files n = rootDinode files := if_pos hn
      rw [hd] at hb
      cases x with
      | addr k =>
        replace hb : (if k.val = 0 then 59 else 0) = b := hb
        split at hb
        · next hk =>
          have hs : spot ⟨0, by decide⟩ = .addr k := congrArg Spot.addr (Fin.ext hk.symm)
          rw [hn, hs]
          exact ⟨rfl, hb.symm⟩
        · exact absurd hb.symm hb0
      | entry => exact absurd (hb.symm.trans (block_entry_none rfl)) hb0
    · have hz : ∀ k, (mkfsDinode files n).addrs k = 0 := by
        intro k
        unfold mkfsDinode
        rw [if_neg hn]
        split <;> rfl
      exact absurd (hb.symm.trans (block_of_addrs hz x)) hb0
  · rintro ⟨rfl, rfl⟩
    refine ⟨⟨by decide, ?_⟩, rfl, by decide⟩
    show T_DIR ≠ 0
    decide

lemma mkfs_owned (files : Nat) : Owned mkfsEnv (mkfs files).core := by
  have once : ∀ p q b, Refers mkfsEnv (mkfs files).core p b → Refers mkfsEnv (mkfs files).core q b →
      p = q := fun p q b hp hq => (mkfs_refers.mp hp).1.trans (mkfs_refers.mp hq).1.symm
  refine ⟨fun b _ => ?_, once⟩
  have hmeta : mkfsEnv.nmeta = 59 := rfl
  rw [exists_unique_refers once, hmeta]
  show decide (b < 60) = true ↔ _
  rw [decide_eq_true_eq]
  constructor
  · intro hb
    rcases Nat.lt_or_eq_of_le (Nat.le_of_lt_succ hb) with hb | hb
    · exact .inl hb
    · exact .inr ⟨_, mkfs_refers.mpr ⟨rfl, hb⟩⟩
  · rintro (hb | ⟨p, hp⟩)
    · omega
    · rw [(mkfs_refers.mp hp).2]
      decide

lemma mkfs_whole (h : files < 30) : Whole mkfsEnv (mkfs files).core := by
  refine ⟨fun p b hp => ?_, fun n bn _ ht _ hs => ?_⟩
  · rw [(mkfs_refers.mp hp).2]
    decide
  · replace hs : bn.val * BSIZE < (mkfsDinode files n).size := hs
    replace ht : (mkfsDinode files n).type ≠ 0 := ht
    unfold mkfsDinode at hs ht
    split at hs
    · next hn =>
      have hbn : bn = ⟨0, by decide⟩ := by
        replace hs : bn.val * 512 < ((files + 2) * 16 / 512 + 1) * 512 := hs
        apply Fin.ext
        show bn.val = 0
        omega
      rw [hn, hbn]
      exact ⟨59, mkfs_refers.mpr ⟨rfl, rfl⟩⟩
    · split at hs <;> exact absurd hs (Nat.not_lt_zero _)

lemma mkfs_root : (mkfs 0).core.node mkfsEnv ROOTINO ≠ none := by
  unfold Core.node nodeAt
  rw [if_pos (by decide)]
  exact Option.some_ne_none _

lemma mkfs_node {x : Node} (hx : (mkfs 0).core.node mkfsEnv n = some x) :
    n = ROOTINO ∧ (rootDinode 0).node (mkfs 0).core.data = x := by
  obtain ⟨⟨-, hty⟩, hx⟩ := nodeAt_eq_some.mp hx
  replace hty : (mkfsDinode 0 n).type ≠ 0 := hty
  replace hx : (mkfsDinode 0 n).node (mkfs 0).core.data = x := hx
  unfold mkfsDinode at hty hx
  by_cases hn : n = ROOTINO
  · rw [if_pos hn] at hx
    exact ⟨hn, hx⟩
  · rw [if_neg hn, if_neg (by omega)] at hty
    exact absurd rfl hty

lemma mkfs_nlink {x : Node} (hx : (mkfs 0).core.node mkfsEnv n = some x) : x.d.nlink = 1 := by
  rw [← (mkfs_node hx).2]
  rfl

lemma mkfs_linked (n : Nat) (x : Node) (hx : (mkfs 0).core.node mkfsEnv n = some x) : x.d.nlink ≠ 0 := by
  rw [mkfs_nlink hx]
  exact Int.one_ne_zero

/-- the slots of the inode cache for the root and for the next inode. -/
def root : Ip := ⟨0, by decide⟩
def slot1 : Ip := ⟨1, by decide⟩

/-- "/x" -/
def pathX : List UInt8 := [47, 120]

/-- a file of two blocks is written, and its name removed; with the last reference its blocks are
freed again. -/
theorem blocks_owned_file : ∃ tr t, Path (step mkfsEnv) (mkfs 0) tr t ∧ tr.length = 4 ∧
    (t.core.dinode 2).type = 0 ∧ t.core.used 61 = false ∧ Owned mkfsEnv t.core ∧
    ∀ a, step mkfsEnv t a ≠ .error (.panic "freeing free block") := by
  obtain ⟨tr, t, h, hlen, htype, hu⟩ : ∃ tr t, Path (step mkfsEnv) (mkfs 0) tr t ∧ tr.length = 4 ∧
      (t.core.dinode 2).type = 0 ∧ t.core.used 61 = false := Path.of_labels [.create true root pathX,
    .write slot1 (replicate 600 7) 0, .unlink root pathX, .close slot1] (by decide +kernel)
  exact ⟨tr, t, h, hlen, htype, hu, blocks_owned h (mkfs_owned 0) (mkfs_whole (by decide))⟩

/-- no address of an inode is `b`, and there are no indirect blocks. -/
def unreferenced (e : Env) (c : Core) (b : Nat) : Bool :=
  (range e.ninodes).all fun n => (c.dinode n).addrs (Fin.last NDIRECT) = 0 ∧
    (finRange (NDIRECT + 1)).all fun k => (c.dinode n).addrs k ≠ b

lemma not_refers (h : unreferenced e c b = true) (p : Nat × Spot) : ¬ Refers e c p b := by
  obtain ⟨n, x⟩ := p
  rintro ⟨⟨hn, -⟩, hb, hb0⟩
  have hall := all_eq_true.mp h n (mem_range.mpr hn)
  simp only [decide_eq_true_eq, all_eq_true] at hall
  cases x with
  | addr k => exact hall.2 k (mem_finRange k) hb
  | entry => exact hb0 (hb.symm.trans (block_entry_none hall.1))

/-- thirty files fill the block of the root directory. To create one more, `dirlookup` reads on up
to the size, in a block that is allocated for it and that no inode on the disk refers to. -/
theorem hole_leaks_block : Owned mkfsEnv (mkfs 30).core ∧
    ∃ t, step mkfsEnv (mkfs 30) (.create true root [47, 65]) = .ok t ∧
      t.core.used 60 = true ∧ ¬ Owned mkfsEnv t.core := by
  refine ⟨mkfs_owned 30, ?_⟩
  have run : stepTo (step mkfsEnv) (mkfs 30) (.create true root [47, 65])
      (fun t => t.core.used 60 && unreferenced mkfsEnv t.core 60) = true := by decide +kernel
  obtain ⟨t, h, ht⟩ := of_stepTo run
  simp only [Bool.and_eq_true] at ht
  refine ⟨t, h, ht.1, fun hown => ?_⟩
  rcases (hown.used_iff 60 (by decide)).mp ht.1 with hm | ⟨p, hp, -⟩
  · exact absurd hm (by decide)
  · exact not_refers ht.2 p hp

end Xv6.Fs
