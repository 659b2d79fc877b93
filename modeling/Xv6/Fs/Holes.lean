import Xv6.Fs.Owned

/-!
# Files have no holes

A file or directory has a block for each index below its size, and for no other (`NoHoles`). Every
edit of a node keeps that (`Effect.all`), once each block has one owner: a block that is in use, but
not marked in the free map, can be given away and cleared (`unmarked_block_makes_hole`). In a file
without holes `readi` finds its blocks there; a block that `writei` allocates lies beyond the old
size, so that the `iupdate` for the new size records it.
-/

namespace Xv6.Fs
open Lib Function

/-- the blocks of a file or directory are those below its size. -/
def NoHoles (e : Env) (c : Core) : Prop :=
  ∀ n b, n < e.ninodes → (c.dinode n).type ≠ 0 → (c.dinode n).type ≠ T_DEV →
    ((c.dinode n).blockOf c.data b ≠ 0 ↔ b < ((c.dinode n).size + (BSIZE - 1)) / BSIZE)

/-- the same for one node. -/
structure Node.Tight (x : Node) : Prop where
  max : x.d.size ≤ MAXFILE * BSIZE
  blk : ∀ m : Fin MAXFILE, x.blk (spot m) ≠ 0 ↔ m * BSIZE < x.d.size

/-- the failures of a look-up; none is one of `balloc`. -/
def LookFail (x : Stop) : Prop :=
  x = .panic "dirlookup not DIR" ∨ x = .panic "dirlookup read" ∨ x = .panic "bmap: out of range" ∨
    x = .panic "iget: no inodes"

instance : Looks LookFail := ⟨.inl rfl, .inr (.inl rfl), .inr (.inr (.inl rfl)), .inr (.inr (.inr rfl))⟩

/-- what follows for reads and writes of the inode `i`. A `balloc` marks a block in the free map, or
fails; what it marks stays so. -/
structure Recorded (e : Env) (s : State) (i : Ip) : Prop where
  /-- `readi` returns, and has changed nothing. -/
  readi : ∀ off n, n < 2 ^ 32 → ∃ r s', readi e i off n s = .ok (r, s') ∧ s'.core = s.core
  /-- `dirlookup` changes the inode cache only. -/
  dirlookup : ∀ name, (∀ r s', dirlookup e i name s = .ok (r, s') → s.core.Same s'.core) ∧
    ∀ x, dirlookup e i name s = .error x → LookFail x
  /-- a block that `writei` allocates is found on the disk, in the inode, whose size has grown. -/
  writei : ∀ src off r s', src.length < 2 ^ 32 → writei e i src off s = .ok (r, s') →
    ∀ b, b < e.size → s.core.used b = false → s'.core.used b = true →
      (s.core.dinode (s.core.inode i).inum).size < (s'.core.dinode (s.core.inode i).inum).size ∧
      ∃ x, Refers e s'.core ((s.core.inode i).inum, x) b

variable {e : Env} {c c' : Core} {s t : State} {i : Ip} {n b off : Nat} {x y : Node} {K : Nat → Prop}
  {o : Option Edit}

/-! ## nodes without holes -/

lemma lt_ceil {size : Nat} : b < (size + (BSIZE - 1)) / BSIZE ↔ b * BSIZE < size := by
  show b < (size + 511) / 512 ↔ b * 512 < size
  omega

lemma NoHoles.tight (h : NoHoles e c) (hx : c.node e n = some x) (ht : x.d.type ≠ T_DEV) : x.Tight := by
  obtain ⟨⟨hn, hty⟩, hd⟩ := nodeAt_eq_some.mp hx
  rw [← hd] at ht ⊢
  constructor
  · refine Nat.le_of_not_lt fun hs => ?_
    have hb := (h n MAXFILE hn hty ht).mpr (lt_ceil.mpr hs)
    exact hb (blockOf_ge (Nat.lt_irrefl _))
  · intro m
    have hb := h n m hn hty ht
    rw [lt_ceil, blockOf_lt m.isLt] at hb
    exact hb

lemma noHoles_of_tight (h : ∀ n x, c.node e n = some x → x.d.type ≠ T_DEV → x.Tight) : NoHoles e c := by
  intro n b hn hty ht
  have hx := h n _ (nodeAt_live hn hty) ht
  rw [lt_ceil]
  by_cases hb : b < MAXFILE
  · rw [blockOf_lt hb]
    exact hx.blk ⟨b, hb⟩
  · rw [blockOf_ge hb]
    refine ⟨fun h0 => absurd rfl h0, fun hs => ?_⟩
    have h1 : b * BSIZE < MAXFILE * BSIZE := Nat.lt_of_lt_of_le hs hx.max
    exact absurd (Nat.lt_of_mul_lt_mul_right h1) hb

lemma Node.Wrote.tight {src : List UInt8} (h : x.Tight) (hoff : off ≤ x.d.size)
    (hmax : off + src.length ≤ MAXFILE * BSIZE) (hy : x.Wrote off src y) : y.Tight := by
  have hs : y.d.size = max x.d.size (off + src.length) := by rw [hy.fields]
  constructor
  · rw [hs]
    exact Nat.max_le.mpr ⟨h.max, hmax⟩
  · intro m
    rw [hy.spots m, h.blk m, hs]
    show m.val * 512 < x.d.size ∨ off < off + src.length ∧ off / 512 ≤ m.val ∧
      m.val * 512 < off + src.length ↔ m.val * 512 < max x.d.size (off + src.length)
    omega

lemma Node.new_tight (type major minor : Int) : (Node.new type major minor).Tight :=
  ⟨Nat.zero_le _, fun _ => ⟨fun h => absurd rfl h, fun h => absurd h (Nat.not_lt_zero _)⟩⟩

/-! ## every edit -/

/-- **A property of nodes is kept by every edit**, if it is kept by a change of the link count and by
a write. -/
theorem Effect.all {P : Node → Prop} (hnew : ∀ type major minor, P (Node.new type major minor))
    (hrel : ∀ x v, P x → P (x.relink v))
    (hw : ∀ x off src y, P x → x.d.type ≠ T_DEV → off ≤ x.d.size →
      off + src.length ≤ MAXFILE * BSIZE → x.Wrote off src y → P y)
    (h : Effect e K o c c') (hc : ∀ n x, c.node e n = some x → P x) :
    ∀ n x, c'.node e n = some x → P x := by
  have idle : ∀ {K : Nat → Prop} {a b : Core}, Idle e K a b → (∀ n x, a.node e n = some x → P x) →
      ∀ n x, b.node e n = some x → P x := fun hi ha n x hx => ha n x (hi.eq_of_some hx)
  have upd : ∀ {A : Nat → Option Node} {n : Nat} {y : Node}, (∀ n x, A n = some x → P x) → P y →
      ∀ m x, update A n (some y) m = some x → P x := by
    intro A n y hA hy m x hx
    rw [update_apply] at hx
    split at hx
    · rw [← Option.some.inj hx]
      exact hy
    · exact hA m x hx
  have enter : ∀ {x y : Node} {name : List UInt8} {m : Nat}, P x → x.d.type = T_DIR → x.Entered name m y → P y := by
    intro x y name m hx ht hy
    refine hw x _ _ y hx (by rw [ht]; decide) hy.inside ?_ hy.wrote
    rw [length_dirent]
    exact hy.room
  cases h with
  | idle h => exact idle h hc
  | make h₁ h h₂ =>
    obtain ⟨x, y, z, hx, ht, hy, hz, hA⟩ := h.nodes
    have hc1 := idle h₁ hc
    apply idle h₂
    rw [hA]
    refine upd (upd hc1 ?_) ?_
    · unfold Node.Born at hy
      split at hy
      · next hdir =>
        obtain ⟨y1, h1, h2⟩ := hy
        have ht1 : y1.d.type = T_DIR := h1.fields.1.trans hdir
        exact enter (enter (hnew _ _ _) hdir h1) ht1 h2
      · rw [hy]
        exact hnew _ _ _
    · split at hz
      · exact enter (hrel x 1 (hc1 _ x hx)) ht hz
      · exact enter (hc1 _ x hx) ht hz
  | link h₁ ht hm h₂ hn h3 =>
    obtain ⟨x, hx, hA⟩ := hm
    obtain ⟨x', y, hx', ht', hy, hA'⟩ := hn
    have hc1 := idle h₁ hc
    have hc2 := idle h₂ (by rw [hA]; exact upd hc1 (hrel x 1 (hc1 _ x hx)))
    apply idle h3
    rw [hA']
    exact upd hc2 (enter (hc2 _ x' hx') ht' hy)
  | nolink h₁ hm hd hu h₂ hd' hv h3 =>
    obtain ⟨x, hx, hA, hx', hA'⟩ := nolink_nodes hm hd hu h₂ hd' hv
    have hc1 := idle h₁ hc
    have hc2 := idle h₂ (by rw [hA]; exact upd hc1 (hrel x 1 (hc1 _ x hx)))
    apply idle h3
    rw [hA']
    exact upd hc2 (hrel _ _ (hc2 _ _ hx'))
  | unlink h₁ hn h₂ hm h3 =>
    obtain ⟨x, u, y, off, hx, ht, -, -, -, hu, -, -, hoff, hmax, hy, hA⟩ := hn
    obtain ⟨u', hu', hA'⟩ := hm
    have hc1 := idle h₁ hc
    have hpy : P y := hw x off _ y (hc1 _ x hx) (by rw [ht]; decide) hoff
      (by rw [List.length_replicate]; exact hmax) hy
    have hc2 := idle h₂ (by
      rw [hA]
      apply upd hc1
      split
      · exact hrel y _ hpy
      · exact hpy)
    apply idle h3
    rw [hA']
    exact upd hc2 (hrel u' _ (hc2 _ u' hu'))
  | write h₁ hx ht hoff hmax hy hnode h₂ =>
    have hc1 := idle h₁ hc
    apply idle h₂
    rw [hnode]
    exact upd hc1 (hw _ _ _ _ (hc1 _ _ hx) ht hoff hmax hy)

lemma Effect.noHoles (h : Effect e K o c c') (hc : NoHoles e c) : NoHoles e c' := by
  refine noHoles_of_tight (h.all (P := fun x => x.d.type ≠ T_DEV → x.Tight)
    (fun type major minor _ => Node.new_tight type major minor) (fun x v hx ht => ?_)
    (fun x off src y hx ht hoff hmax hy _ => hy.tight (hx ht) hoff hmax)
    fun n x hx ht => hc.tight hx ht)
  have hx := hx ht
  exact ⟨hx.max, hx.blk⟩

/-! ## what follows -/

lemma refers_of_node {p : Nat × Spot} (hn : c'.node e p.1 = c.node e p.1) (h : Refers e c' p b) : Refers e c p b := by
  have hx : c'.node e p.1 = some ((c'.dinode p.1).node c'.data) := nodeAt_live h.1.1 h.1.2
  rw [hn] at hx
  obtain ⟨hl, hd⟩ := nodeAt_eq_some.mp hx
  have hb : (c.dinode p.1).block c.data p.2 = (c'.dinode p.1).block c'.data p.2 :=
    congrFun (congrArg Node.blk hd) p.2
  exact ⟨hl, hb.trans h.2.1, h.2.2⟩

lemma Ready.recorded (h : Ready e s.core) (hh : NoHoles e s.core) (hi : s.core.Held i) : Recorded e s i := by
  have hnode : s.core.node e (s.core.inode i).inum = some (s.core.nodeOf i) :=
    (h.inv.copy i hi).node_eq
  refine ⟨fun off n hn => ?_, fun name => ?_, fun src off r s' hlen hw b hb hf hu => ?_⟩
  · -- a failure is not allowed at all
    have hr : Runs (fun _ => False) (readi e i off n) (fun _ c' => c' = s.core) s.core := by
      by_cases ht : (s.core.inode i).d.type = T_DEV
      · unfold readi
        refine does_get (does_ite (fun _ => ?_) fun hne => absurd ht hne)
        refine does_ite (fun _ => does_pure rfl) fun _ => ?_
        split <;> exact does_pure rfl
      · have hrange : InRange (fun _ => False) (s.core.inode i).d := .inr (hh.tight hnode ht).max
        exact (does_readi h.inv hi hrange hn).mono fun _ _ hc => hc.1
    have hw := (hr s rfl).elim
    cases hm : readi e i off n s with
    | ok p => exact ⟨p.1, p.2, rfl, hw.1 _ _ hm⟩
    | error x => exact (hw.2 x hm).elim
  · have hctx : Ctx e (s.core.others i) [(i, (s.core.inode i).inum)] [i] s.core :=
      (h.bring hi.ref).known mem_fst_head hi.valid
    have hrun : Runs LookFail (dirlookup e i name) _ s.core := does_dirlookup hctx List.mem_cons_self
    have hd := (hrun s rfl).elim
    refine ⟨fun r s' hm => ?_, fun x hx => hd.2 x hx⟩
    obtain ⟨-, hf⟩ := hd.1 r s' hm
    rcases r with _ | ⟨ip, off⟩
    · rw [hf.2]
      exact .refl _
    · obtain ⟨m, -, -, hs⟩ := hf
      exact hs
  · obtain ⟨h', -, hend⟩ := ((does_writei h.inv hi hlen) s rfl).elim.1 r s' hw
    have hnew : s'.core.used ≠ s.core.used := by
      intro heq
      rw [heq, hf] at hu
      cases hu
    generalize hc : s'.core = c' at hend h' hu hnew ⊢
    cases hend with
    | same => exact absurd rfl hnew
    | wrote ht hoff hmax hn hy hused =>
      have hx' := congrFun hn (s.core.inode i).inum
      rw [update_self] at hx'
      constructor
      · rw [dinode_of_node hnode, dinode_of_node hx']
        exact hused.resolve_left hnew
      · -- the owner of the block is not another inode, which has kept its blocks
        obtain ⟨p, hp⟩ := (h'.owns.used_iff b hb).mp hu
        have hold : ∀ q, own e s.core.dinode s.core.data q ≠ some b := h.inv.owns.not_owned hf
        cases p with
        | fixed k => exact absurd hp (hold (.fixed k))
        | inode m z =>
          have href : Refers e c' (m, z) b := own_refers.mp hp
          by_cases hm : m = (s.core.inode i).inum
          · rw [← hm]
            exact ⟨z, href⟩
          · have hkeep : c'.node e m = s.core.node e m := by rw [hn, update_of_ne hm]
            exact absurd (own_refers.mpr (refers_of_node hkeep href)) (hold _)

/-- **Files have no holes**, after any calls on a disk where they had none and where every block has
one owner; reads do not allocate, and writes record what they allocate. -/
theorem no_holes {used : Nat → Bool} {dinode : Nat → Dinode} {data : Nat → Block}
    {tr : List (State × Call)} (h : Path (step e) (State.boot used dinode data) tr t)
    (h0 : NoHoles e (State.boot used dinode data).core)
    (hown : Owned e (State.boot used dinode data).core)
    (hin : ∀ p b, Refers e (State.boot used dinode data).core p b → e.nmeta ≤ b ∧ b < e.size) :
    NoHoles e t.core ∧ Ready e t.core ∧
      ∀ s i, Ready e s.core → NoHoles e s.core → s.core.Held i → Recorded e s i := by
  have hw : Whole e (State.boot used dinode data).core := by
    refine ⟨hin, fun n bn hn hty ht hs => ?_⟩
    have hb := (h0 n bn hn hty ht).mpr (lt_ceil.mpr hs)
    rw [blockOf_lt bn.isLt] at hb
    exact ⟨_, ⟨hn, hty⟩, rfl, hb⟩
  have ht := h.invariant (fun s => Ready e s.core ∧ NoHoles e s.core) (fun _ _ => True) (fun s a s' hs _ hst => by
      obtain ⟨hr, o, heff⟩ := (step_ready hs.1).1 s' hst
      exact ⟨hr, heff.noHoles hs.2⟩)
    (fun _ _ => trivial) ⟨.boot hown hw, h0⟩
  exact ⟨ht.2, ht.1, fun s i hr hh hi => hr.recorded hh hi⟩

/-- the root directory of `mkfs` has one block, and the other files are empty. -/
theorem mkfs_noHoles {files : Nat} (h : files < 30) : NoHoles mkfsEnv (mkfs files).core := by
  refine noHoles_of_tight fun n x hx _ => ?_
  obtain ⟨⟨hn, hty⟩, hd⟩ := nodeAt_eq_some.mp hx
  have hblk : ∀ m : Fin MAXFILE, x.blk (spot m) ≠ 0 ↔ n = ROOTINO ∧ m.val = 0 := by
    intro m
    rw [← hd]
    constructor
    · intro h0
      have href : Refers mkfsEnv (mkfs files).core (n, spot m)
          (((mkfs files).core.dinode n).block (mkfs files).core.data (spot m)) := ⟨⟨hn, hty⟩, rfl, h0⟩
      have hp := (mkfs_refers.mp href).1
      refine ⟨(Prod.mk.inj hp).1, ?_⟩
      rw [spot_injective (Prod.mk.inj hp).2]
    · rintro ⟨hn, hm⟩
      have hp : Refers mkfsEnv (mkfs files).core (n, spot m) 59 :=
        mkfs_refers.mpr ⟨by rw [hn]; exact congrArg _ (congrArg spot (Fin.ext hm)), rfl⟩
      exact fun h0 => absurd (hp.2.1.symm.trans h0) (by decide)
  have hsize : x.d.size = if n = ROOTINO then 512 else 0 := by
    rw [← hd]
    show (mkfsDinode files n).size = _
    unfold mkfsDinode
    split
    · show ((files + 2) * 16 / 512 + 1) * 512 = 512
      omega
    · split <;> rfl
  constructor
  · rw [hsize]
    split <;> decide
  · intro m
    rw [hblk, hsize]
    show n = ROOTINO ∧ m.val = 0 ↔ m.val * 512 < if n = ROOTINO then 512 else 0
    split <;> omega

/-- a file of two blocks is written; it can be read, and has no hole. -/
theorem no_holes_file : ∃ tr t, Path (step mkfsEnv) (mkfs 0) tr t ∧ tr.length = 2 ∧
    t.core.used 60 = true ∧ t.core.Held slot1 ∧ NoHoles mkfsEnv t.core ∧
    Recorded mkfsEnv t slot1 := by
  obtain ⟨tr, t, h, hlen, hu, hr, hv⟩ : ∃ tr t, Path (step mkfsEnv) (mkfs 0) tr t ∧ tr.length = 2 ∧
      t.core.used 60 = true ∧ 0 < (t.core.inode slot1).ref ∧ (t.core.inode slot1).valid = true :=
    Path.of_labels [.create true root pathX, .write slot1 (List.replicate 600 7) 0] (by decide +kernel)
  have hold := no_holes h (mkfs_noHoles (by decide)) (mkfs_owned 0) (mkfs_whole (by decide)).inside
  exact ⟨tr, t, h, hlen, hu, ⟨hr, hv⟩, hold.1, hold.2.2 t slot1 hold.2.1 hold.1 ⟨hr, hv⟩⟩

/-! ## a disk whose blocks are not all marked -/

/-- a file of 13 blocks, the last one through the indirect block 72. -/
def longDinode : Dinode := ⟨T_FILE, 0, 0, 1, 13 * BSIZE, fun k => 60 + k.val⟩

def unmarkedData (b : Nat) : Block :=
  if b = 59 then rootBlock 1 else if b = 72 then fun k => if k.val = 0 then 73 else 0 else fun _ => 0

/-- the free map lacks the block 72. -/
def unmarked : State :=
  State.boot (fun b => b < 72 || b == 73)
    (fun n => if n = ROOTINO then rootDinode 1 else if n = 2 then longDinode else Dinode.zero)
    unmarkedData

lemma unmarked_noHoles : NoHoles mkfsEnv unmarked.core := by
  have hroot : ∀ m : Fin MAXFILE, (rootDinode 1).block unmarkedData (spot m) ≠ 0 ↔
      m * BSIZE < (rootDinode 1).size := by decide +kernel
  have hlong : ∀ m : Fin MAXFILE, longDinode.block unmarkedData (spot m) ≠ 0 ↔
      m * BSIZE < longDinode.size := by decide +kernel
  refine noHoles_of_tight fun n x hx _ => ?_
  obtain ⟨⟨-, hty⟩, hd⟩ := nodeAt_eq_some.mp hx
  replace hd : (if n = ROOTINO then rootDinode 1 else if n = 2 then longDinode
    else Dinode.zero).node unmarkedData = x := hd
  replace hty : (if n = ROOTINO then rootDinode 1 else if n = 2 then longDinode
    else Dinode.zero).type ≠ 0 := hty
  by_cases h1 : n = ROOTINO
  · rw [if_pos h1] at hd
    rw [← hd]
    exact ⟨by decide, hroot⟩
  · rw [if_neg h1] at hd hty
    by_cases h2 : n = 2
    · rw [if_pos h2] at hd
      rw [← hd]
      exact ⟨by decide, hlong⟩
    · rw [if_neg h2] at hty
      exact absurd rfl hty

/-- a new directory gets the block 72, and its entries are taken for addresses of the long file:
there is a block for the index 16, beyond the size. -/
theorem unmarked_block_makes_hole : NoHoles mkfsEnv unmarked.core ∧
    ∃ t, step mkfsEnv unmarked (.mkdir root [47, 100]) = .ok t ∧ ¬ NoHoles mkfsEnv t.core := by
  refine ⟨unmarked_noHoles, ?_⟩
  have run : stepTo (step mkfsEnv) unmarked (.mkdir root [47, 100])
      (fun t => (t.core.dinode 2).type == T_FILE && ((t.core.dinode 2).size == 13 * BSIZE &&
        (t.core.dinode 2).blockOf t.core.data 16 != 0)) = true := by decide +kernel
  obtain ⟨t, h, ht⟩ := of_stepTo run
  simp only [Bool.and_eq_true, beq_iff_eq, bne_iff_ne] at ht
  refine ⟨t, h, fun hno => ?_⟩
  have hb := (hno 2 16 (by decide) (by rw [ht.1]; decide) (by rw [ht.1]; decide)).mp ht.2.2
  rw [ht.2.1] at hb
  exact absurd hb (by decide)

end Xv6.Fs
