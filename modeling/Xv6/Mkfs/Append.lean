import Xv6.Mkfs.Image
import Xv6.Fs.Write

/-!
# `iappend` in terms of the kernel's blocks and nodes

While `iappend` runs, the inode is in memory (`din`), as it is in the kernel between a `bmap` and the `iupdate`. So the
image and `din` are read as a state of the kernel with this inode in its cache (`Image.hold`), with the blocks below
`freeblock` in use. A turn of the loop is then a turn of `writei` (`Wrote.turn`), and `iappend` a write at the end.

`need n` is the number of blocks of a file of `n` bytes; `freeblock` counts them.
-/

namespace Xv6.Mkfs
open Lib Fs Function

lemma nblocks_lt : FSSIZE - nmeta < FSSIZE := by decide

lemma fssize_lt : FSSIZE < 2 ^ 32 := by decide

/-- the super block that `mkfs` writes. -/
def env (read : Int → Option (Nat → Option (List UInt8))) (write : Int → Option (List UInt8 → Option Nat)) : Env where
  size := FSSIZE
  nblocks := FSSIZE - nmeta
  nblocks_lt := nblocks_lt
  size_lt := fssize_lt
  ninodes := NINODES
  nlog := nlog
  inodestart := inodestart
  bmapstart := bmapstart
  read := read
  write := write

/-- without devices. -/
def layout : Env := env (fun _ => none) fun _ => none

/-- the number of blocks of a file of `n` bytes, with its indirect block. -/
def need (n : Nat) : Nat := (n + (BSIZE - 1)) / BSIZE + if NDIRECT * BSIZE < n then 1 else 0

/-! ## the image as a state of the kernel -/

lemma entry_lt : 0 < NINODE := by decide

/-- the entry of the inode cache for the inode in memory. -/
def entry : Ip := ⟨0, entry_lt⟩

/-- no inode is in memory. -/
def Image.view (im : Image) : Core where
  used := fun b => b < im.freeblock
  dinode := im.dinode
  data := im.data
  inode := fun _ => ⟨0, 0, false, false, Dinode.zero⟩

/-- the inode `inum` is in memory. -/
def Image.hold (im : Image) (inum : Nat) (din : Dinode) : Core :=
  im.view.setInode entry ⟨inum, 1, true, true, din⟩

variable {im im' : Image} {inum off rest b x : Nat} {d din : Dinode} {k : Fin (NDIRECT + 1)} {y : Block} {n : Nat}
  {p : List UInt8}

lemma hold_inode : (im.hold inum din).inode entry = ⟨inum, 1, true, true, din⟩ :=
  Core.setInode_self _ _ _

lemma held : (im.hold inum din).Held entry := by
  constructor
  · rw [hold_inode]
    exact Int.one_pos
  · rw [hold_inode]

lemma hold_setCopy : (im.hold inum din).setCopy entry d = im.hold inum d := by
  unfold Core.setCopy
  rw [hold_inode]
  unfold Image.hold Core.setInode
  rw [update_idem]

lemma hold_tbl : (im.hold inum din).tbl entry = update im.dinode inum din := by
  unfold Core.tbl
  rw [hold_inode]
  rfl

/-- the state with the inode in memory is sound. -/
abbrev Image.Sound (im : Image) (inum : Nat) (din : Dinode) : Prop :=
  Fs.Sound layout ((im.hold inum din).tbl entry) (im.hold inum din)

/-- the inode in memory has the block `x` at the spot `y`. -/
abbrev Image.Owns (im : Image) (inum : Nat) (din : Dinode) (y : Spot) (x : Nat) : Prop :=
  own layout ((im.hold inum din).tbl entry) (im.hold inum din).data (.inode inum y) = some x

/-- the blocks from `freeblock` on are still zero. -/
def Zero (im : Image) : Prop := ∀ b, im.freeblock ≤ b → b < FSSIZE → im.sect b = fun _ => 0

lemma iblock_lt (hn : n < NINODES) : iblock n < nmeta := by
  unfold iblock
  show n / 8 + 32 < 59
  have hn : n < 200 := hn
  omega

lemma dinode_wsect (hb : nmeta ≤ b) : ({ im with sect := update im.sect b y } : Image).dinode = im.dinode := by
  funext n
  unfold Image.dinode
  split
  · next hn =>
    have hne : iblock n ≠ b := by
      have := iblock_lt hn
      omega
    show getDinode (update im.sect b y (iblock n)) _ = _
    rw [update_of_ne hne]
  · rfl

lemma data_wsect (hb : nmeta ≤ b) : ({ im with sect := update im.sect b y } : Image).data = update im.data b y := by
  funext z
  unfold Image.data
  show (if z < nmeta then _ else update im.sect b y z) = _
  by_cases hz : z = b
  · rw [hz, if_neg (by omega), update_self, update_self]
  · rw [update_of_ne hz, update_of_ne hz]

lemma hold_wsect (hb : nmeta ≤ b) :
    ({ im with sect := update im.sect b y } : Image).hold inum din = (im.hold inum din).setData b y := by
  unfold Image.hold Image.view Core.setInode Core.setData
  rw [dinode_wsect hb, data_wsect hb]

lemma hold_newBlock (hz : Zero im) (hm : nmeta ≤ im.freeblock) (hb : im.freeblock < FSSIZE) :
    ({ im with freeblock := im.freeblock + 1 } : Image).hold inum din =
      ((im.hold inum din).setUsed im.freeblock true).setData im.freeblock fun _ => 0 := by
  have hused : (fun b => decide (b < im.freeblock + 1)) =
      update (fun b => decide (b < im.freeblock)) im.freeblock true := by
    funext b
    by_cases h : b = im.freeblock
    · rw [h, update_self]
      exact decide_eq_true (Nat.lt_succ_self _)
    · rw [update_of_ne h, decide_eq_decide]
      omega
  have hdata : update im.data im.freeblock (fun _ => 0) = im.data := by
    have h0 : im.data im.freeblock = fun _ => 0 := by
      unfold Image.data
      rw [if_neg (by omega)]
      exact hz _ (Nat.le_refl _) hb
    rw [← h0, update_eq_self]
  unfold Image.hold Image.view Core.setInode Core.setData Core.setUsed
  rw [hused, hdata]
  rfl

/-! ## a block for the next bytes -/

/-- `iappend` has written the file up to the offset `off`; the other files have `rest` blocks. -/
structure Loop (im : Image) (inum : Nat) (din : Dinode) (off rest : Nat) : Prop where
  sound : Sound layout ((im.hold inum din).tbl entry) (im.hold inum din)
  zero : Zero im
  spots : ∀ m, m < MAXFILE → (din.blockOf im.data m ≠ 0 ↔ m * BSIZE < off)
  indirect : din.addrs (Fin.last NDIRECT) ≠ 0 ↔ NDIRECT * BSIZE < off
  tail : ∀ k, off ≤ k → din.byteAt im.data k = 0
  count : im.freeblock = rest + need off
  le : im.freeblock ≤ FSSIZE

lemma nmeta_le (h : im.Sound inum din) : nmeta ≤ im.freeblock := by
  by_contra hlt
  have hlt : im.freeblock < nmeta := Nat.lt_of_not_le hlt
  have hsize : im.freeblock < layout.size := Nat.lt_trans hlt (by decide)
  have hown : own layout ((im.hold inum din).tbl entry) (im.hold inum din).data (.fixed im.freeblock) =
      some im.freeblock := if_pos hlt
  have h1 := (h.owns.used_iff im.freeblock hsize).mpr ⟨_, hown⟩
  have h2 : im.freeblock < im.freeblock := of_decide_eq_true h1
  exact Nat.lt_irrefl _ h2

lemma own_hold (h : im.Sound inum din) (y : Spot) :
    own layout ((im.hold inum din).tbl entry) (im.hold inum din).data (.inode inum y) = nz (din.block im.data y) := by
  have h1 : own layout ((im.hold inum din).tbl entry) (im.hold inum din).data
      (.inode ((im.hold inum din).inode entry).inum y) = _ := (h.copy entry held).own_eq y
  rw [hold_inode] at h1
  exact h1

lemma owns_iff (h : im.Sound inum din) {y : Spot} : im.Owns inum din y x ↔ din.block im.data y = x ∧ x ≠ 0 := by
  rw [← nz_eq_some, ← own_hold h]

lemma Image.Owns.inside {y : Spot} (hown : im.Owns inum din y x) (h : im.Sound inum din) :
    nmeta ≤ x ∧ x < FSSIZE ∧ im.data x = im.sect x ∧ x < im.freeblock := by
  obtain ⟨hxm, hxs⟩ := Fs.Sound.inside h hown
  have hused := (h.owns.used_iff x hxs).mpr ⟨_, hown⟩
  exact ⟨hxm, hxs, if_neg (Nat.not_lt.mpr hxm), of_decide_eq_true hused⟩

lemma Image.Owns.blockOf {m : Fin MAXFILE} (hown : im.Owns inum din (spot m) x) (h : im.Sound inum din) :
    din.blockOf im.data m = x ∧ x ≠ 0 := by
  rw [blockOf_lt m.isLt]
  exact (owns_iff h).mp hown

variable {E : Exit → Prop}

lemma wp_rsect (hb : b < FSSIZE) : wp E (rsect b) (fun y im' => y = im.sect b ∧ im' = im) im := by
  unfold rsect
  apply wp_get_seq
  rw [if_pos hb]
  exact wp_pure ⟨rfl, rfl⟩

lemma wp_rsect_full {Q : Block → Image → Prop} (hE : E (.perror "read")) (hb : FSSIZE ≤ b) : wp E (rsect b) Q im := by
  unfold rsect
  apply wp_get_seq
  rw [if_neg (Nat.not_lt.mpr hb)]
  exact wp_throw hE

/-- there is no block left: the address is behind the image, and cannot be read. -/
def Full (E : Exit → Prop) (x : Nat) : Prop := E (.perror "read") ∧ FSSIZE ≤ x

section
variable (hs : im.Sound inum din) (hz : Zero im) (hle : im.freeblock ≤ FSSIZE)
include hs hz hle

lemma wp_mapAddr (hroom : E (.perror "read") ∨ din.addrs k ≠ 0 ∨ im.freeblock < FSSIZE) :
    wp E (mapAddr din k) (fun r im' => Full E r.2 ∨
      (Adds layout entry (· = .inode inum (.addr k)) (im.hold inum din) (im'.hold inum r.1) ∧ Zero im' ∧
        im'.freeblock ≤ FSSIZE) ∧
      (r.2 ≠ 0 ∧ r.1.addrs k = r.2 ∧ r.2 = if din.addrs k = 0 then im.freeblock else din.addrs k) ∧
      (∀ k', k' ≠ k → r.1.addrs k' = din.addrs k') ∧
      im' = ⟨im.sect, im.freeinode, im.freeblock + if din.addrs k = 0 then 1 else 0⟩) im := by
  have hm := nmeta_le hs
  unfold mapAddr
  by_cases h0 : din.addrs k = 0
  · simp only [if_pos h0]
    by_cases hb : im.freeblock < FSSIZE
    · right
      have hu : (im.hold inum din).used im.freeblock = false := decide_eq_false (Nat.lt_irrefl _)
      have h0' : ((im.hold inum din).inode entry).d.addrs k = 0 := by
        rw [hold_inode]
        exact h0
      have hadd := Adds.newAddr hs held (a := im.freeblock) hb hu h0'
      have heq : (im.hold inum din).newAddr entry k im.freeblock =
          ({ im with freeblock := im.freeblock + 1 } : Image).hold inum (din.setAddr k im.freeblock) := by
        unfold Core.newAddr Core.setAddr
        rw [← hold_newBlock hz hm hb, hold_inode, hold_setCopy]
      rw [heq, hold_inode] at hadd
      refine ⟨⟨hadd, fun b h1 h2 => hz b (Nat.le_of_succ_le h1) h2, hb⟩, ⟨?_, update_self _ _ _, rfl⟩,
        fun k' hk => update_of_ne hk _ _, rfl⟩
      have hm : 59 ≤ im.freeblock := hm
      omega
    · left
      refine ⟨?_, Nat.le_of_not_lt hb⟩
      exact hroom.resolve_right fun h => h.elim (fun h => h h0) hb
  · simp only [if_neg h0]
    right
    exact ⟨⟨.refl hs, hz, hle⟩, ⟨h0, rfl, rfl⟩, fun _ _ => rfl, rfl⟩

lemma wp_mapEntry {j : Fin NINDIRECT}
    (hb : din.addrs (Fin.last NDIRECT) = b) (hb0 : b ≠ 0)
    (hroom : E (.perror "read") ∨ word (im.data b) j ≠ 0 ∨ im.freeblock < FSSIZE) :
    wp E (mapEntry b j) (fun x im' => Full E x ∨
      (Adds layout entry (· = .inode inum (.entry j)) (im.hold inum din) (im'.hold inum din) ∧ Zero im' ∧
        im'.freeblock ≤ FSSIZE) ∧ im'.Owns inum din (.entry j) x ∧
      im'.freeblock = im.freeblock + (if word (im.data b) j = 0 then 1 else 0) ∧
      im'.freeinode = im.freeinode ∧ ∀ z, z ≠ b → im'.sect z = im.sect z) im := by
  have hm := nmeta_le hs
  have hd : ((im.hold inum din).inode entry).d = din := by rw [hold_inode]
  have hown : im.Owns inum din .indirect b := (owns_iff hs).mpr ⟨hb, hb0⟩
  obtain ⟨hbm, hbs, hdata, hused⟩ := hown.inside hs
  unfold mapEntry
  apply wp_seq (wp_rsect hbs)
  rintro y im' ⟨rfl, rfl⟩
  rw [hdata] at hroom ⊢
  by_cases h0 : word (im'.sect b) j = 0
  · rw [if_pos h0, if_pos h0]
    by_cases hf : im'.freeblock < FSSIZE
    · right
      have hu : (im'.hold inum din).used im'.freeblock = false := decide_eq_false (Nat.lt_irrefl _)
      have hb' : ((im'.hold inum din).inode entry).d.addrs (Fin.last NDIRECT) = b := by
        rw [hd]
        exact hb
      have h0' : word ((im'.hold inum din).data b) j = 0 := by
        show word (im'.data b) j = 0
        rw [hdata]
        exact h0
      obtain ⟨hadd, hown'⟩ := Adds.newEntry hs held (a := im'.freeblock) hf hu hb' hb0 h0'
      have heq : (im'.hold inum din).newEntry b j im'.freeblock =
          (⟨update im'.sect b (setWord (im'.sect b) j im'.freeblock), im'.freeinode,
            im'.freeblock + 1⟩ : Image).hold inum din := by
        have h1 : ({ im' with freeblock := im'.freeblock + 1 } : Image).data b = im'.sect b := hdata
        unfold Core.newEntry
        rw [← hold_newBlock hz hm hf]
        show Core.setData _ b (setWord (({ im' with freeblock := im'.freeblock + 1 } : Image).data b) j _) = _
        rw [h1, ← hold_wsect hbm]
      have htbl : ((im'.hold inum din).newEntry b j im'.freeblock).tbl entry = (im'.hold inum din).tbl entry := rfl
      rw [← htbl, heq, hold_inode] at hown'
      rw [heq, hold_inode] at hadd
      refine ⟨⟨hadd, fun z h1 h2 => ?_, hf⟩, hown', rfl, rfl, fun z hz => update_of_ne hz _ _⟩
      have hne : z ≠ b := by
        have h1 : im'.freeblock + 1 ≤ z := h1
        omega
      show update im'.sect b _ z = _
      rw [update_of_ne hne]
      exact hz z (Nat.le_of_succ_le h1) h2
    · left
      refine ⟨?_, Nat.le_of_not_lt hf⟩
      exact hroom.resolve_right fun h => h.elim (fun h => h h0) hf
  · rw [if_neg h0, if_neg h0]
    right
    refine ⟨⟨.refl hs, hz, hle⟩, ?_, rfl, rfl, fun _ _ => rfl⟩
    rw [owns_iff hs, block_entry (hb ▸ hb0), hb, hdata]
    exact ⟨rfl, h0⟩

end

lemma need_succ (off : Nat) : need (off + 1) =
    need off + (if off % BSIZE = 0 then 1 else 0) + if off = NDIRECT * BSIZE then 1 else 0 := by
  unfold need
  show (off + 1 + 511) / 512 + (if 6144 < off + 1 then 1 else 0) =
    (off + 511) / 512 + (if 6144 < off then 1 else 0) + (if off % 512 = 0 then 1 else 0) +
      if off = 6144 then 1 else 0
  split_ifs <;> omega

lemma need_block (h0 : 0 < n) (hn : n ≤ BSIZE - off % BSIZE) : need (off + n) = need (off + 1) := by
  have hn : n ≤ 512 - off % 512 := hn
  unfold need
  show (off + n + 511) / 512 + (if 6144 < off + n then 1 else 0) =
    (off + 1 + 511) / 512 + (if 6144 < off + 1 then 1 else 0)
  split_ifs <;> omega

lemma need_mono {m n : Nat} (h : m ≤ n) : need m ≤ need n := by
  unfold need
  show (m + 511) / 512 + (if 6144 < m then 1 else 0) ≤ (n + 511) / 512 + (if 6144 < n then 1 else 0)
  split_ifs <;> omega

/-- the block of the offset `off` is there iff `off` is not at the start of a block. -/
theorem Loop.there (hl : Loop im inum din off rest) (hm : off / BSIZE < MAXFILE) :
    din.blockOf im.data (off / BSIZE) = 0 ↔ off % BSIZE = 0 := by
  have h1 := hl.spots _ hm
  have h2 : off / 512 * 512 < off ↔ ¬ off % 512 = 0 := by omega
  have h3 : din.blockOf im.data (off / BSIZE) ≠ 0 ↔ ¬ off % BSIZE = 0 := h1.trans h2
  exact not_iff_not.mp h3

lemma room_of_missing {e p q r s : Prop} (h : e ∨ r) (hp : q ↔ p) (hr : p → r → s) : e ∨ ¬ q ∨ s := by
  by_cases h0 : q
  · exact h.imp_right fun h => .inr (hr (hp.mp h0) h)
  · exact .inr (.inl h0)

lemma wp_mapBlock (hl : Loop im inum din off rest) (hfbn : off / BSIZE < MAXFILE)
    (hroom : E (.perror "read") ∨ rest + need (off + 1) ≤ FSSIZE) :
    wp E (mapBlock din (off / BSIZE)) (fun r im' => Full E r.2 ∨ ∃ m : Fin MAXFILE, m.val = off / BSIZE ∧
      (Adds layout entry (Mapped inum m) (im.hold inum din) (im'.hold inum r.1) ∧ Zero im' ∧ im'.freeblock ≤ FSSIZE) ∧
      im'.Owns inum r.1 (spot m) r.2 ∧ im'.freeblock = rest + need (off + 1) ∧ im'.freeinode = im.freeinode ∧
      (r.1.addrs (Fin.last NDIRECT) ≠ 0 ↔ NDIRECT * BSIZE < off + 1) ∧
      ∀ z, z ≠ r.1.addrs (Fin.last NDIRECT) → im'.sect z = im.sect z) im := by
  have hthere := hl.there hfbn
  have hneed := need_succ off
  have hcount := hl.count
  unfold mapBlock
  split
  · next hd =>
    -- a direct address
    have hoff : off ≠ NDIRECT * BSIZE := by
      have h1 : off / 512 < 12 := hd
      show off ≠ 6144
      omega
    rw [if_neg hoff, Nat.add_zero] at hneed
    obtain ⟨m, hm, hsp⟩ := spot_direct hd
    have haddr : din.addrs ⟨off / BSIZE, Nat.lt_succ_of_lt hd⟩ = 0 ↔ off % BSIZE = 0 := by
      rw [← hthere, blockOf_lt hfbn]
      have : (⟨off / BSIZE, hfbn⟩ : Fin MAXFILE) = m := Fin.ext hm.symm
      rw [this, hsp]
      rfl
    refine wp_mono (wp_mapAddr hl.sound hl.zero hl.le (room_of_missing hroom haddr fun h0 h => ?_)) ?_
    · rw [if_pos h0] at hneed
      omega
    · rintro r im' (hfull | ⟨⟨hA, hz, hle⟩, ⟨hr0, hr, -⟩, hlast, him⟩)
      · exact .inl hfull
      · refine .inr ⟨m, hm, ⟨hA.mono fun q hq => ?_, hz, hle⟩, ?_, ?_, ?_, ?_, fun _ _ => by rw [him]⟩
        · rw [hq, ← hsp]
          exact .inl rfl
        · rw [hsp]
          exact (owns_iff hA.grown.sound).mpr ⟨hr, hr0⟩
        · rw [him]
          show im.freeblock + _ = _
          rw [hneed, if_congr haddr rfl rfl, hcount]
          omega
        · rw [him]
        · have hne : Fin.last NDIRECT ≠ ⟨off / BSIZE, Nat.lt_succ_of_lt hd⟩ := by
            intro he
            have h1 : NDIRECT = off / BSIZE := congrArg Fin.val he
            exact absurd hd (Nat.not_lt.mpr (Nat.le_of_eq h1))
          rw [hlast _ hne, hl.indirect]
          omega
  · next hd =>
    have hj : off / BSIZE - NDIRECT < NINDIRECT := Nat.sub_lt_left_of_lt_add (Nat.le_of_not_lt hd) hfbn
    have hge : NDIRECT * BSIZE ≤ off := by
      have h1 : ¬ off / 512 < 12 := hd
      show 6144 ≤ off
      omega
    obtain ⟨m, hm, hsp⟩ := spot_entry hd hj
    have hind : din.addrs (Fin.last NDIRECT) = 0 ↔ off = NDIRECT * BSIZE := by
      have h1 := hl.indirect
      constructor
      · intro h0
        by_contra hne
        exact h1.mpr (by omega) h0
      · intro h0
        by_contra hne
        have h2 := h1.mp hne
        omega
    -- the first address, then the entry
    have hroom1 : E (.perror "read") ∨ din.addrs (Fin.last NDIRECT) ≠ 0 ∨ im.freeblock < FSSIZE := by
      refine room_of_missing hroom hind fun h0 h => ?_
      rw [if_pos h0] at hneed
      omega
    apply wp_seq (wp_mapAddr hl.sound hl.zero hl.le hroom1)
    rintro ⟨din1, b⟩ im1 (hfull | ⟨⟨hA, hz, hle⟩, ⟨hb0, hb, hb'⟩, -, him⟩)
    · -- the indirect block cannot be read
      obtain ⟨hE, hb⟩ := hfull
      refine wp_seq (Q := fun _ _ => False) ?_ fun _ _ h => h.elim
      exact wp_seq (wp_rsect_full (Q := fun _ _ => False) hE hb) fun _ _ h => h.elim
    · have hb' : b = if din.addrs (Fin.last NDIRECT) = 0 then im.freeblock else din.addrs (Fin.last NDIRECT) := hb'
      have hdata : im1.data = im.data := by
        rw [him]
        rfl
      have hfree : im1.freeblock = im.freeblock + if off = NDIRECT * BSIZE then 1 else 0 := by
        rw [him]
        rw [if_congr hind rfl rfl]
      -- the entry is zero iff the offset is at the start of a block
      have hword : word (im1.data b) (off / BSIZE - NDIRECT) = 0 ↔ off % BSIZE = 0 := by
        rw [hdata]
        by_cases h0 : din.addrs (Fin.last NDIRECT) = 0
        · rw [if_pos h0] at hb'
          have hoff := hind.mp h0
          have hmod : off % BSIZE = 0 := by
            rw [hoff]
            exact Nat.mul_mod_left _ _
          have hlt : im.freeblock < FSSIZE := by
            rw [if_pos hoff] at hfree
            omega
          have hnm := nmeta_le hl.sound
          have hzero : im.data b = fun _ => 0 := by
            unfold Image.data
            rw [hb', if_neg (by omega)]
            exact hl.zero _ (Nat.le_refl _) hlt
          rw [hzero, word_zero]
          exact ⟨fun _ => hmod, fun _ => rfl⟩
        · rw [if_neg h0] at hb'
          rw [← hthere, blockOf_lt hfbn]
          have hmm : (⟨off / BSIZE, hfbn⟩ : Fin MAXFILE) = m := Fin.ext hm.symm
          rw [hmm, hsp, block_entry h0, hb']
      have hroom2 : E (.perror "read") ∨ word (im1.data b) (⟨off / BSIZE - NDIRECT, hj⟩ : Fin NINDIRECT) ≠ 0 ∨
          im1.freeblock < FSSIZE := by
        refine room_of_missing hroom hword fun h0 h => ?_
        rw [if_pos h0] at hneed
        omega
      apply wp_seq (wp_mapEntry (j := ⟨off / BSIZE - NDIRECT, hj⟩) hA.grown.sound hz hle hb hb0 hroom2)
      rintro x im2 (hfull | ⟨⟨hA', hz', hle'⟩, hown, hfree', hino, hsect⟩)
      · exact wp_pure (.inl hfull)
      · refine wp_pure (.inr ⟨m, hm, ⟨?_, hz', hle'⟩, ?_, ?_, ?_, ?_, fun z hz => ?_⟩)
        · have h1 : Adds layout entry (Mapped inum m) (im.hold inum din) (im1.hold inum din1) :=
            hA.mono fun q hq => .inr hq
          refine h1.trans (hA'.mono fun q hq => ?_)
          rw [hq, ← hsp]
          exact .inl rfl
        · rw [hsp]
          exact hown
        · rw [hfree', if_congr hword rfl rfl, hfree, hneed, hcount]
          omega
        · rw [hino, him]
        · rw [hb]
          exact ⟨fun _ => Nat.lt_succ_of_le hge, fun _ => hb0⟩
        · rw [hb] at hz
          rw [hsect z hz, him]

/-! ## the loop -/

lemma sub_div_mul (off : Nat) : off - off / BSIZE * BSIZE = off % BSIZE := by
  show off - off / 512 * 512 = off % 512
  omega

lemma succ_div_mul_sub (off : Nat) : (off / BSIZE + 1) * BSIZE - off = BSIZE - off % BSIZE := by
  show (off / 512 + 1) * 512 - off = 512 - off % 512
  omega

section
variable {m : Fin MAXFILE} {din' : Dinode}

lemma tail_mapped (hl : Loop im inum din off rest)
    (hA : Adds layout entry (Mapped inum m) (im.hold inum din) (im'.hold inum din'))
    (hown : im'.Owns inum din' (spot m) x) (hsect : ∀ z, z ≠ din'.addrs (Fin.last NDIRECT) → im'.sect z = im.sect z)
    {k : Nat} (hk : off ≤ k) : din'.byteAt im'.data k = 0 := by
  have hg := hA.grown
  by_cases h0 : din'.blockOf im'.data (k / BSIZE) = 0
  · exact byteAt_none h0
  have hkm : k / BSIZE < MAXFILE := lt_of_blockOf h0
  have hx := hown.blockOf hg.sound
  have hA' : Adds layout entry (Mapped ((im.hold inum din).inode entry).inum m) (im.hold inum din)
      (im'.hold inum din') := by
    rw [hold_inode]
    exact hA
  by_cases hold : din.blockOf im.data (k / BSIZE) = 0
  · -- the block is new: it had no owner
    have hkx : k / BSIZE = m.val := by
      have h1 := hA'.blockOf_iff hl.sound held (by rw [hold_inode]; exact fun h => hx.2 (hx.1.symm.trans h))
        ⟨k / BSIZE, hkm⟩
      rw [hold_inode, hold_inode] at h1
      exact (h1.mp h0).resolve_left fun h => h hold
    obtain ⟨hxm, hxs⟩ := hg.sound.inside hown
    have hfree : im.freeblock ≤ x := by
      by_contra hlt
      have hu : (im.hold inum din).used x = true := decide_eq_true (Nat.lt_of_not_le hlt)
      obtain ⟨q, hq⟩ := (hl.sound.owns.used_iff x hxs).mp hu
      have hqm := hg.sound.owns.one _ _ _ (hg.more q x hq) hown
      rw [hqm, own_hold hl.sound, nz_eq_some] at hq
      rw [hkx, blockOf_lt m.isLt, hq.1] at hold
      exact hx.2 hold
    have hne : x ≠ din'.addrs (Fin.last NDIRECT) := by
      intro he
      have h1 : im'.Owns inum din' .indirect x := (owns_iff hg.sound).mpr ⟨he.symm, hx.2⟩
      exact spot_ne_indirect m (Place.inode.inj (hg.sound.owns.one _ _ _ hown h1)).2
    have hdata : im'.data x = fun _ => 0 := by
      have h1 : im'.data x = im'.sect x := if_neg (Nat.not_lt.mpr hxm)
      rw [h1, hsect x hne, hl.zero x hfree hxs]
    rw [byteAt_some h0, hkx, hx.1, hdata]
    unfold byte
    rw [dite_eq_ite, ite_self]
  · have h1 := hA'.block_kept hl.sound held ⟨k / BSIZE, hkm⟩ (by rw [hold_inode]; exact hold)
    rw [hold_inode, hold_inode] at h1
    exact (byteAt_congr h1.1 fun _ => h1.2).trans (hl.tail k hk)

lemma tail_spliced {n k : Nat} (hs : im.Sound inum din) (hm : m.val = off / BSIZE)
    (hown : im.Owns inum din (spot m) x) (hk : off + n ≤ k) :
    din.byteAt (update im.data x (splice (im.data x) (off % BSIZE) n p)) k = din.byteAt im.data k := by
  have hof : ∀ j, din.blockOf (update im.data x (splice (im.data x) (off % BSIZE) n p)) j =
      din.blockOf im.data j := by
    intro j
    have h1 := blockOf_setData hs held (by rw [hold_inode]; exact hown) (splice (im.data x) (off % BSIZE) n p) j
    rw [hold_inode] at h1
    exact h1
  have hx := hown.blockOf hs
  by_cases h0 : din.blockOf im.data (k / BSIZE) = 0
  · rw [byteAt_none h0, byteAt_none ((hof _).trans h0)]
  · rw [byteAt_some h0, byteAt_some (by rw [hof]; exact h0), hof]
    by_cases hb : din.blockOf im.data (k / BSIZE) = x
    · rw [hb, update_self, byte_splice (Nat.mod_lt k (by decide))]
      refine if_neg fun hin => ?_
      -- two blocks of the content are different
      have hown' : im.Owns inum din (spot ⟨k / BSIZE, lt_of_blockOf h0⟩) x := by
        rw [owns_iff hs, ← blockOf_lt (lt_of_blockOf h0)]
        exact ⟨hb, hx.2⟩
      have hv := congrArg Fin.val (spot_injective (Place.inode.inj (hs.owns.one _ _ _ hown' hown)).2)
      have hv : k / BSIZE = off / BSIZE := hv.trans hm
      have h2 := ((same_block hv).2.1 n).mp hin.2
      omega
    · rw [update_of_ne hb]

end

lemma wp_turn (hl : Loop im inum din off rest) (hfbn : off / BSIZE < MAXFILE)
    (hroom : E (.perror "read") ∨ rest + need (off + 1) ≤ FSSIZE) (h0 : 0 < n) (hn : n ≤ BSIZE - off % BSIZE) :
    wp E (appendTurn din off n p) (fun din' im' => Loop im' inum din' (off + n) rest ∧
      Wrote layout entry off (off + n) (fun x => p.getD (x - off) 0) (im.hold inum din) (im'.hold inum din') ∧
      im'.freeinode = im.freeinode) im := by
  unfold appendTurn
  rw [sub_div_mul]
  apply wp_seq (wp_mapBlock hl hfbn hroom)
  rintro ⟨din1, x⟩ im1 (⟨hE, hx⟩ | ⟨m, hm, ⟨hA, hz, hle⟩, hown, hcount, hino, hind, hsect⟩)
  · -- there is no block left
    exact wp_seq (wp_rsect_full (Q := fun _ _ => False) hE hx) fun _ _ h => h.elim
  · obtain ⟨hxm, hxs, hdata, hused⟩ := hown.inside hA.grown.sound
    apply wp_seq (wp_rsect hxs)
    rintro y im' ⟨rfl, rfl⟩
    apply wp_modify_seq
    have hturn : Wrote layout entry off (off + n) (fun x => p.getD (x - off) 0) (im.hold inum din)
        ((im'.hold inum din1).setData x (splice ((im'.hold inum din1).data x) (off % BSIZE) n p)) :=
      Wrote.turn hl.sound held (by rw [hold_inode]; exact hA) hm (by rw [hold_inode]; exact hown) h0 hn
    have hdata' : (im'.hold inum din1).data x = im'.sect x := hdata
    rw [hdata', ← hold_wsect hxm] at hturn
    refine wp_pure ⟨⟨hturn.grown.sound, fun z h1 h2 => ?_, fun j hj => ?_, ?_, fun k hk => ?_, ?_, hle⟩, hturn, hino⟩
    · have hne : z ≠ x := by
        have h1 : im'.freeblock ≤ z := h1
        omega
      show update im'.sect x _ z = _
      rw [update_of_ne hne]
      exact hz z h1 h2
    · have h1 := hturn.spots j hj
      rw [hold_inode, hold_inode] at h1
      apply h1.trans
      show (din.blockOf im.data j ≠ 0 ∨ _) ↔ _
      rw [hl.spots j hj, span_turn h0 hn]
      have hn : n ≤ 512 - off % 512 := hn
      show (j * 512 < off ∨ j = off / 512) ↔ j * 512 < off + n
      omega
    · rw [hind]
      have hn : n ≤ 512 - off % 512 := hn
      show 6144 < off + 1 ↔ 6144 < off + n
      omega
    · rw [data_wsect hxm, ← hdata, tail_spliced hA.grown.sound hm hown hk]
      exact tail_mapped hl hA hown hsect (by omega)
    · rw [hcount, need_block h0 hn]

lemma wp_appendLoop (fuel : Nat) : ∀ {im : Image} {din : Dinode} {off : Nat} {p : List UInt8},
    Loop im inum din off rest → p.length ≤ fuel → (E (.assert "fbn < MAXFILE") ∨ off + p.length ≤ MAXFILE * BSIZE) →
    (E (.perror "read") ∨ rest + need (off + p.length) ≤ FSSIZE) →
    wp E (appendLoop fuel din off p) (fun r im' => r.2 = off + p.length ∧ Loop im' inum r.1 (off + p.length) rest ∧
      Wrote layout entry off (off + p.length) (fun x => p.getD (x - off) 0) (im.hold inum din) (im'.hold inum r.1) ∧
      im'.freeinode = im.freeinode) im := by
  induction fuel with
  | zero =>
    intro im din off p hl hf _ _
    have hp : p = [] := List.length_eq_zero_iff.mp (Nat.le_zero.mp hf)
    rw [hp]
    exact ⟨rfl, hl, .refl hl.sound, rfl⟩
  | succ fuel ih =>
    intro im din off p hl hf hmax hroom
    unfold appendLoop
    by_cases hp : p = []
    · rw [if_pos hp, hp]
      exact ⟨rfl, hl, .refl hl.sound, rfl⟩
    · have hpos : 0 < p.length := List.length_pos_iff.mpr hp
      rw [if_neg hp]
      by_cases hfbn : MAXFILE ≤ off / BSIZE
      · rw [if_pos hfbn]
        refine wp_throw (hmax.resolve_right ?_)
        have hfbn : 140 ≤ off / 512 := hfbn
        show ¬ off + p.length ≤ 140 * 512
        omega
      · rw [if_neg hfbn, succ_div_mul_sub]
        have hm0 : 0 < BSIZE - off % BSIZE := Nat.sub_pos_of_lt (Nat.mod_lt off (by decide))
        generalize hn : min p.length (BSIZE - off % BSIZE) = n
        have hlen : (p.drop n).length = p.length - n := List.length_drop
        have hend : off + n + (p.drop n).length = off + p.length := by omega
        have hroom1 : E (.perror "read") ∨ rest + need (off + 1) ≤ FSSIZE :=
          hroom.imp_right fun h => Nat.le_trans (Nat.add_le_add_left (need_mono (by omega)) _) h
        apply wp_seq (wp_turn hl (Nat.lt_of_not_le hfbn) hroom1 (by omega) (by omega))
        rintro din' im' ⟨hl', hw, hino⟩
        have hnext := @ih im' din' (off + n) (p.drop n) hl' (by omega) (by rw [hend]; exact hmax)
          (by rw [hend]; exact hroom)
        rw [hend] at hnext
        apply wp_mono hnext
        rintro r im'' ⟨h1, h2, h3, h4⟩
        refine ⟨h1, h2, hw.trans (h3.congr fun x hx _ => ?_) (by omega) (by omega), h4.trans hino⟩
        exact (getD_drop hx).symm

end Xv6.Mkfs
