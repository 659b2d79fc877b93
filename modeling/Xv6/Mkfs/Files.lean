import Xv6.Mkfs.Append

/-!
# The files of an image

`Good im fs`: the inodes 1, 2, ... of the image are the files `fs`, each a type and its content. `format` leaves no
file, `ialloc` adds an empty one, and `iappend` appends to one; all stop only when the image is full or the file too
large.
-/

namespace Xv6.Mkfs
open Lib Fs Function List

/-- a node with the content `l`. -/
structure IsFile (x : Node) (ty : Int) (l : List UInt8) : Prop where
  fields : x.d = ⟨ty, 0, 0, 1, l.length, x.d.addrs⟩
  bytes : ∀ k, k < l.length → x.bytes k = l.getD k 0
  spots : ∀ m : Fin MAXFILE, x.blk (spot m) ≠ 0 ↔ m * BSIZE < l.length
  indirect : x.blk .indirect ≠ 0 ↔ NDIRECT * BSIZE < l.length
  small : l.length ≤ MAXFILE * BSIZE
  type : ty = T_DIR ∨ ty = T_FILE

def Holds (im : Image) (n : Nat) (ty : Int) (l : List UInt8) : Prop :=
  ∃ x, im.view.node layout n = some x ∧ IsFile x ty l

/-- the blocks of these files. -/
def needs : List (Int × List UInt8) → Nat
  | [] => 0
  | f :: fs => need f.2.length + needs fs

structure Good (im : Image) (fs : List (Int × List UInt8)) : Prop where
  inv : Inv layout im.view
  zero : Zero im
  freeinode : im.freeinode = fs.length + 1
  few : fs.length < NINODES
  files : ∀ (t : Nat) ty l, fs[t]? = some (ty, l) → Holds im (t + 1) ty l
  tail : ∀ (t : Nat) ty l, fs[t]? = some (ty, l) → ∀ k, l.length ≤ k → (im.dinode (t + 1)).byteAt im.data k = 0
  free : ∀ n, n = 0 ∨ fs.length < n → im.dinode n = Dinode.zero
  count : im.freeblock = nmeta + needs fs
  le : im.freeblock ≤ FSSIZE

variable {im im' : Image} {inum n t : Nat} {d : Dinode} {E : Exit → Prop} {ty : Int} {l p : List UInt8}
  {fs : List (Int × List UInt8)} {T : Nat → Dinode} {data : Nat → Block}

lemma needs_append (fs gs : List (Int × List UInt8)) : needs (fs ++ gs) = needs fs + needs gs := by
  induction fs with
  | nil => simp [needs]
  | cons f fs ih =>
    show need f.2.length + needs (fs ++ gs) = need f.2.length + needs fs + needs gs
    rw [ih, Nat.add_assoc]

lemma needs_set (g : Int × List UInt8) {f : Int × List UInt8} (ht : fs[t]? = some f) :
    needs (fs.set t g) + need f.2.length = needs fs + need g.2.length := by
  induction fs generalizing t with
  | nil => cases ht
  | cons f' fs ih =>
    cases t with
    | zero =>
      cases ht
      show need g.2.length + needs fs + need f.2.length = need f.2.length + needs fs + need g.2.length
      omega
    | succ t =>
      have h1 := ih ht
      show need f'.2.length + needs (fs.set t g) + need f.2.length = need f'.2.length + needs fs + need g.2.length
      omega

/-! ## inodes -/

def Image.putInode (im : Image) (n : Nat) (d : Dinode) : Image :=
  { im with sect := Function.update im.sect (iblock n) (putDinode (im.sect (iblock n)) (n % IPB) d) }

lemma mod_IPB_lt (n : Nat) : n % IPB < IPB := Nat.mod_lt n (by decide)

section
variable (hn : n < NINODES)
include hn

lemma iblock_lt_fssize : iblock n < FSSIZE := Nat.lt_trans (iblock_lt hn) (by decide)

lemma wp_winode {Q : Unit → Image → Prop} (hq : Q () (im.putInode n d)) : wp E (winode n d) Q im := by
  unfold winode
  apply wp_seq (Q := fun y im' => y = im.sect (iblock n) ∧ im' = im)
  · unfold rsect
    apply wp_get_seq
    rw [if_pos (iblock_lt_fssize hn)]
    exact wp_pure ⟨rfl, rfl⟩
  rintro y im' ⟨rfl, rfl⟩
  exact wp_modify hq

lemma wp_rinode {Q : Dinode → Image → Prop} (hq : Q (im.dinode n) im) : wp E (rinode n) Q im := by
  unfold rinode
  apply wp_seq (Q := fun y im' => y = im.sect (iblock n) ∧ im' = im)
  · unfold rsect
    apply wp_get_seq
    rw [if_pos (iblock_lt_fssize hn)]
    exact wp_pure ⟨rfl, rfl⟩
  rintro y im' ⟨rfl, rfl⟩
  have h1 : im'.dinode n = getDinode (im'.sect (iblock n)) (n % IPB) := if_pos hn
  rw [h1] at hq
  exact wp_pure hq

lemma putInode_dinode (hd : Fits d) : (im.putInode n d).dinode = update im.dinode n d := by
  funext m
  by_cases hm : m < NINODES
  · have h1 : (im.putInode n d).dinode m = getDinode ((im.putInode n d).sect (iblock m)) (m % IPB) := if_pos hm
    have h2 : im.dinode m = getDinode (im.sect (iblock m)) (m % IPB) := if_pos hm
    rw [h1]
    show getDinode (update im.sect (iblock n) _ (iblock m)) (m % IPB) = _
    by_cases hmn : m = n
    · rw [hmn, update_self, update_self, getDinode_put hd (mod_IPB_lt n)]
    · rw [update_of_ne hmn, h2]
      by_cases hb : iblock m = iblock n
      · -- another inode of the same block
        have hne : m % IPB ≠ n % IPB := by
          have hb : m / 8 + 32 = n / 8 + 32 := hb
          show m % 8 ≠ n % 8
          omega
        rw [hb, update_self, getDinode_put_of_ne (mod_IPB_lt n) (mod_IPB_lt m) hne]
      · rw [update_of_ne hb]
  · have hmn : m ≠ n := by
      rintro rfl
      exact hm hn
    have h1 : (im.putInode n d).dinode m = Dinode.zero := if_neg hm
    have h2 : im.dinode m = Dinode.zero := if_neg hm
    rw [update_of_ne hmn, h1, h2]

lemma putInode_data : (im.putInode n d).data = im.data := by
  have hb := iblock_lt hn
  funext z
  unfold Image.data
  by_cases hz : z < nmeta
  · rw [if_pos hz, if_pos hz]
  · rw [if_neg hz, if_neg hz]
    exact update_of_ne (by omega) _ _

lemma fits_dinode : Fits (im.dinode n) := by
  have h1 : im.dinode n = getDinode (im.sect (iblock n)) (n % IPB) := if_pos hn
  rw [h1]
  exact fits_get _ _

end

lemma view_sound {c : Core} (h : Sound layout T c) (hu : im.view.used = c.used)
    (hd : im.data = c.data) : Sound layout T im.view := by
  have hnone : ∀ i, ¬ 0 < (im.view.inode i).ref := fun i => Int.lt_irrefl 0
  have hd : im.view.data = c.data := hd
  refine ⟨?_, ?_, fun i hi => absurd hi.ref (hnone i), fun i _ hi => absurd hi (hnone i)⟩
  · rw [hu, hd]
    exact h.owns
  · rw [hd]
    exact h.full

lemma Good.nmeta_le (hg : Good im fs) : nmeta ≤ im.freeblock := by
  rw [hg.count]
  exact Nat.le_add_right _ _

lemma Good.zero_putInode (hg : Zero im) (hm : nmeta ≤ im.freeblock) (hn : n < NINODES) : Zero (im.putInode n d) := by
  intro b h1 h2
  have h1 : im.freeblock ≤ b := h1
  have hne : b ≠ iblock n := by
    have := iblock_lt hn
    omega
  show update im.sect (iblock n) _ b = _
  rw [update_of_ne hne]
  exact hg b h1 h2

/-! ## `format` -/

lemma wp_zeroes (is : List Nat) : wp E (is.forM fun i => wsect i fun _ => 0)
    (fun _ im' => im'.freeinode = im.freeinode ∧ im'.freeblock = im.freeblock ∧
      ∀ b, im'.sect b = if b ∈ is then fun _ => 0 else im.sect b) im := by
  induction is generalizing im with
  | nil => exact ⟨rfl, rfl, fun b => (if_neg (not_mem_nil)).symm⟩
  | cons i is ih =>
    apply wp_modify_seq
    apply wp_mono ih
    rintro _ im' ⟨h1, h2, h3⟩
    refine ⟨h1, h2, fun b => ?_⟩
    rw [h3 b]
    by_cases hb : b ∈ is
    · rw [if_pos hb, if_pos (mem_cons_of_mem _ hb)]
    · rw [if_neg hb]
      show update im.sect i _ b = _
      by_cases hbi : b = i
      · rw [hbi, update_self, if_pos mem_cons_self]
      · rw [update_of_ne hbi, if_neg]
        intro hm
        exact (mem_cons.mp hm).elim hbi hb

lemma getDinode_zero (j : Nat) : getDinode (fun _ => 0) j = Dinode.zero := by
  unfold getDinode Dinode.zero
  simp only [word_zero]
  rfl

lemma own_fixed_iff {x b : Nat} : own layout T data (.fixed x) = some b ↔ x = b ∧ b < nmeta := by
  show (if x < nmeta then some x else none) = some b ↔ _
  split
  · next hx =>
    constructor
    · intro h
      cases h
      exact ⟨rfl, hx⟩
    · rintro ⟨rfl, -⟩
      rfl
  · next hx =>
    constructor
    · intro h
      cases h
    · rintro ⟨rfl, h⟩
      exact absurd h hx

lemma sound_empty (hT : im.dinode = fun _ => Dinode.zero) (hf : im.freeblock = nmeta) : Inv layout im.view := by
  have hnone : ∀ n x, own layout im.view.dinode im.view.data (.inode n x) = none := by
    intro n x
    refine if_neg fun h => h.2 ?_
    show (im.dinode n).type = 0
    rw [hT]
    rfl
  have hown : ∀ p b, own layout im.view.dinode im.view.data p = some b ↔ p = .fixed b ∧ b < nmeta := by
    intro p b
    cases p with
    | fixed =>
      rw [own_fixed_iff]
      exact and_congr_left fun _ => ⟨fun h => congrArg Place.fixed h, fun h => Place.fixed.inj h⟩
    | inode =>
      rw [hnone]
      exact ⟨fun h => (by cases h), fun h => (by cases h.1)⟩
  refine ⟨⟨fun p q b hp hq => ?_, fun p b hp => ?_, fun b _ => ?_⟩, fun n bn _ ht => ?_,
    fun i hi => absurd hi.ref (Int.lt_irrefl 0), fun i _ hi => absurd hi (Int.lt_irrefl 0)⟩
  · rw [((hown p b).mp hp).1, ((hown q b).mp hq).1]
  · exact Nat.lt_trans ((hown p b).mp hp).2 (by decide)
  · show decide (b < im.freeblock) = true ↔ _
    rw [hf, decide_eq_true_iff]
    exact ⟨fun h => ⟨.fixed b, (hown _ b).mpr ⟨rfl, h⟩⟩, fun ⟨p, hp⟩ => ((hown p b).mp hp).2⟩
  · refine absurd ?_ ht
    show (im.dinode n).type = 0
    rw [hT]
    rfl

lemma wp_format (hino : im.freeinode = 1) : wp E format (fun _ im' => Good im' []) im := by
  unfold format
  generalize hl : range FSSIZE = is
  apply wp_modify_seq
  apply wp_seq (wp_zeroes is)
  rintro _ im₁ ⟨h1, h2, h3⟩
  apply wp_modify
  have hsect : ∀ b, b ≠ 1 → b < FSSIZE → update im₁.sect 1 (setWords (fun _ => 0) 0 7 superWord) b = fun _ => 0 := by
    intro b hb hlt
    rw [update_of_ne hb, h3 b, if_pos (hl ▸ mem_range.mpr hlt)]
  generalize update im₁.sect 1 (setWords (fun _ => 0) 0 7 superWord) = sect at hsect
  have hfree : im₁.freeblock = nmeta := h2
  have hdinode : (⟨sect, im₁.freeinode, im₁.freeblock⟩ : Image).dinode = fun _ => Dinode.zero := by
    funext n
    unfold Image.dinode
    split
    · next hn =>
      have hne : iblock n ≠ 1 := by
        show n / 8 + 32 ≠ 1
        omega
      show getDinode (sect (iblock n)) _ = _
      rw [hsect _ hne (iblock_lt_fssize hn), getDinode_zero]
    · rfl
  refine ⟨sound_empty hdinode hfree, fun b hb hlt => hsect b ?_ hlt, ?_, by decide, fun t ty l ht => ?_,
    fun t ty l ht => ?_, fun n _ => congrFun hdinode n, hfree, ?_⟩
  · rw [hfree] at hb
    have hb : 59 ≤ b := hb
    omega
  · rw [h1]
    exact hino
  · cases ht
  · cases ht
  · rw [hfree]
    decide

/-! ## `ialloc` -/

/-- the inode that `ialloc` writes. -/
def newInode (ty : Int) : Dinode := { Dinode.zero with type := ty, nlink := 1 }

lemma fits_new (hty : ty = T_DIR ∨ ty = T_FILE) : Fits (newInode ty) := by
  rcases hty with rfl | rfl
  all_goals exact ⟨by decide, by decide, by decide, by decide, by decide, fun _ => Nat.two_pow_pos 32⟩

lemma isFile_new (hty : ty = T_DIR ∨ ty = T_FILE) (data : Nat → Block) : IsFile ((newInode ty).node data) ty [] := by
  have h0 : ∀ x, (newInode ty).block data x = 0 := block_of_addrs fun _ => rfl
  refine ⟨rfl, fun k hk => absurd hk (Nat.not_lt_zero k), fun m => ?_, ?_, Nat.zero_le _, hty⟩
  · exact ⟨fun h => absurd (h0 (spot m)) h, fun h => absurd h (Nat.not_lt_zero _)⟩
  · exact ⟨fun h => absurd (h0 .indirect) h, fun h => absurd h (Nat.not_lt_zero _)⟩

lemma own_new (hT : T n = Dinode.zero) (q : Place) :
    own layout (update T n (newInode ty)) data q = own layout T data q := by
  cases q with
  | fixed => rfl
  | inode m x =>
    by_cases hm : m = n
    · have h1 : own layout T data (.inode m x) = none := if_neg fun h => h.2 (by rw [hm, hT]; rfl)
      rw [h1]
      show (if _ then nz ((update T n (newInode ty) m).block data x) else none) = none
      rw [hm, update_self, block_of_addrs (fun _ => rfl)]
      exact ite_self _
    · exact own_frame (update_of_ne hm _ _) fun _ _ => rfl

lemma wp_ialloc (hg : Good im fs) (hty : ty = T_DIR ∨ ty = T_FILE) (hn : fs.length + 1 < NINODES) :
    wp E (ialloc ty) (fun n im' => n = fs.length + 1 ∧ Good im' (fs ++ [(ty, [])]) ∧
      im'.freeblock = im.freeblock) im := by
  have hino := hg.freeinode
  have hz := hg.free _ (.inr (Nat.lt_succ_self fs.length))
  have hty0 : (newInode ty).type ≠ 0 := by rcases hty with rfl | rfl <;> decide
  unfold ialloc
  apply wp_get_seq
  rw [hino]
  refine wp_modify_seq (g := fun _ => { im with freeinode := fs.length + 1 + 1 }) ?_
  refine wp_seq (Q := fun _ im' => im' = ({ im with freeinode := fs.length + 1 + 1 } : Image).putInode (fs.length + 1)
    (newInode ty)) (wp_winode hn rfl) ?_
  rintro _ im' rfl
  have hdinode := @putInode_dinode { im with freeinode := fs.length + 1 + 1 } _ _ hn (fits_new hty)
  have hdata := @putInode_data { im with freeinode := fs.length + 1 + 1 } _ (newInode ty) hn
  have hdata : (({ im with freeinode := fs.length + 1 + 1 } : Image).putInode (fs.length + 1) (newInode ty)).data =
    im.data := hdata
  generalize him : ({ im with freeinode := fs.length + 1 + 1 } : Image).putInode (fs.length + 1) (newInode ty) = im'
    at hdinode hdata
  have hdinode : im'.dinode = update im.dinode (fs.length + 1) (newInode ty) := hdinode
  have hfree : im'.freeblock = im.freeblock := by rw [← him]; rfl
  -- the nodes
  have hold : ∀ m, m ≠ fs.length + 1 → im'.view.node layout m = im.view.node layout m := by
    intro m hm
    refine nodeAt_frame ?_ fun _ _ _ => congrFun hdata _
    show im'.dinode m = im.dinode m
    rw [hdinode, update_of_ne hm]
  refine wp_pure ⟨rfl, ⟨?_, ?_, ?_, ?_, ?_, ?_, ?_, ?_, ?_⟩, hfree⟩
  · have h1 := hg.inv
    have hown : ∀ q, own layout im'.dinode im'.view.data q = own layout im.dinode im.view.data q := by
      intro q
      show own layout im'.dinode im'.data q = own layout im.dinode im.data q
      rw [hdinode, hdata]
      exact own_new hz q
    have hu : im'.view.used = im.view.used := by
      show (fun b => decide (b < im'.freeblock)) = fun b => decide (b < im.freeblock)
      rw [hfree]
    refine ⟨h1.owns.reframe hown fun b _ => congrFun hu b, fun m bn hm ht hdev hs => ?_,
      fun i hi => absurd hi.ref (Int.lt_irrefl 0), fun i _ hi => absurd hi (Int.lt_irrefl 0)⟩
    have hT : im'.view.dinode m = update im.dinode (fs.length + 1) (newInode ty) m := congrFun hdinode m
    show ∃ b, own layout im'.dinode im'.view.data (.inode m (spot bn)) = some b
    rw [hown]
    rw [hT] at ht hdev hs
    by_cases hmn : m = fs.length + 1
    · rw [hmn, update_self] at hs
      exact absurd hs (Nat.not_lt_zero _)
    · rw [update_of_ne hmn] at ht hdev hs
      exact h1.full m bn hm ht hdev hs
  · rw [← him]
    exact Good.zero_putInode (fun b h1 h2 => hg.zero b h1 h2) hg.nmeta_le hn
  · rw [← him, length_append]
    rfl
  · rw [length_append]
    exact hn
  · intro t ty' l ht
    by_cases htl : t < fs.length
    · rw [getElem?_append_left htl] at ht
      obtain ⟨x, hx, hf⟩ := hg.files t ty' l ht
      exact ⟨x, (hold _ (by omega)).trans hx, hf⟩
    · -- the new one
      rw [List.getElem?_append_right (Nat.le_of_not_lt htl)] at ht
      have ht0 : t - fs.length = 0 := by
        have := (List.getElem?_eq_some_iff.mp ht).1
        rw [length_singleton] at this
        omega
      rw [ht0] at ht
      cases ht
      have htn : t + 1 = fs.length + 1 := by omega
      refine ⟨(newInode ty).node im'.data, ?_, isFile_new hty _⟩
      have hT : im'.view.dinode (t + 1) = newInode ty := by
        show im'.dinode (t + 1) = _
        rw [hdinode, htn, update_self]
      have h1 : im'.view.node layout (t + 1) = some ((im'.view.dinode (t + 1)).node im'.view.data) :=
        nodeAt_live (by rw [htn]; exact hn) (by rw [hT]; exact hty0)
      rw [hT] at h1
      exact h1
  · intro t ty' l ht k hk
    rw [hdata, hdinode]
    by_cases htl : t < fs.length
    · rw [List.getElem?_append_left htl] at ht
      rw [update_of_ne (by omega)]
      exact hg.tail t ty' l ht k hk
    · have htl' : t < (fs ++ [(ty, [])]).length := (List.getElem?_eq_some_iff.mp ht).1
      rw [length_append, length_singleton] at htl'
      rw [show t + 1 = fs.length + 1 by omega, update_self]
      apply byteAt_none
      unfold Dinode.blockOf
      split
      · exact block_of_addrs (fun _ => rfl) _
      · rfl
  · intro m hm
    rw [length_append, length_singleton] at hm
    rw [hdinode, update_of_ne (by omega)]
    exact hg.free m (by omega)
  · have h0 : needs [(ty, [])] = 0 := by simp [needs, need]
    rw [hfree, hg.count, needs_append, h0, Nat.add_zero]
  · rw [hfree]
    exact hg.le

/-! ## `iappend` -/

lemma getD_append {k : Nat} (hk : k < (l ++ p).length) :
    (l ++ p).getD k 0 = if l.length ≤ k ∧ k < l.length + p.length then p.getD (k - l.length) 0 else l.getD k 0 := by
  rw [length_append] at hk
  by_cases h : k < l.length
  · rw [if_neg (by omega), List.getD_append _ _ _ _ h]
  · rw [if_pos (by omega), List.getD_append_right _ _ _ _ (Nat.le_of_not_lt h)]

lemma Good.copy {x : Node} (hg : Good im fs) (hx : im.view.node layout inum = some x) :
    x = (im.dinode inum).node im.data ∧ Sound layout im.dinode (im.hold inum (im.dinode inum)) := by
  obtain ⟨⟨hn, ht⟩, hnode⟩ := nodeAt_eq_some.mp hx
  refine ⟨hnode.symm, hg.inv.setInode (fun _ _ => ⟨hn, rfl, ht⟩) fun _ j _ hj => ?_⟩
  exact absurd hj (Int.lt_irrefl 0)

lemma addrs_lt {din : Dinode} (hs : Sound layout ((im.hold inum din).tbl entry) (im.hold inum din))
    (k : Fin (NDIRECT + 1)) : din.addrs k < 2 ^ 32 := by
  by_cases h0 : din.addrs k = 0
  · rw [h0]
    exact Nat.two_pow_pos 32
  · have h1 := own_hold hs (.addr k)
    have h2 : nz (din.block im.data (.addr k)) = some (din.addrs k) := nz_eq_some.mpr ⟨rfl, h0⟩
    have h3 : din.addrs k < FSSIZE := (hs.inside (h1.trans h2)).2
    exact Nat.lt_trans h3 fssize_lt

lemma Good.inode (hg : Good im fs) (ht : fs[t]? = some (ty, l)) :
    IsFile ((im.dinode (t + 1)).node im.data) ty l ∧ t + 1 < NINODES ∧
      im.dinode (t + 1) = ⟨ty, 0, 0, 1, l.length, (im.dinode (t + 1)).addrs⟩ ∧
      Sound layout im.dinode (im.hold (t + 1) (im.dinode (t + 1))) := by
  obtain ⟨x, hx, hfile⟩ := hg.files t ty l ht
  obtain ⟨rfl, hsound⟩ := hg.copy hx
  have htl : t < fs.length := (List.getElem?_eq_some_iff.mp ht).1
  exact ⟨hfile, Nat.lt_of_le_of_lt htl hg.few, hfile.fields, hsound⟩

section
variable {im₁ : Image} {din : Dinode} {rest : Nat}

lemma Wrote.din_eq {lo hi : Nat} {f : Nat → UInt8}
    (hw : Wrote layout entry lo hi f (im.hold inum d) (im₁.hold inum din)) : ∃ a, din = { d with addrs := a } := by
  obtain ⟨a, ha⟩ := hw.grown.self
  rw [hold_inode, hold_inode] at ha
  exact ⟨a, congrArg Inode.d ha⟩

lemma Good.appended (hg : Good im fs) (ht : fs[t]? = some (ty, l)) (hrest : im.freeblock = rest + need l.length)
    (hl : Loop im₁ (t + 1) din (l.length + p.length) rest)
    (hw : Wrote layout entry l.length (l.length + p.length) (fun x => p.getD (x - l.length) 0)
      (im.hold (t + 1) (im.dinode (t + 1))) (im₁.hold (t + 1) din)) (hino : im₁.freeinode = im.freeinode) :
    Good (im₁.putInode (t + 1) { din with size := l.length + p.length }) (fs.set t (ty, l ++ p)) := by
  obtain ⟨hfile, hn, hfields, hsound⟩ := hg.inode ht
  have hlen : (l ++ p).length = l.length + p.length := length_append
  have htype : ty ≠ 0 ∧ ty ≠ T_DEV := by rcases hfile.type with h | h <;> rw [h] <;> decide
  obtain ⟨a, hdin⟩ := Wrote.din_eq hw
  have hsmall : l.length + p.length ≤ MAXFILE * BSIZE := by
    by_cases hp : 0 < p.length
    · exact hw.inside (by omega)
    · have := hfile.small
      omega
  generalize hd : ({ din with size := l.length + p.length } : Dinode) = d
  have hd' : d = ⟨ty, 0, 0, 1, l.length + p.length, din.addrs⟩ := by rw [← hd, hdin, hfields]
  have hfits : Fits d := by
    have h1 := @fits_dinode im _ hn
    rw [hfields] at h1
    rw [hd']
    exact ⟨h1.type, h1.major, h1.minor, h1.nlink, Nat.lt_of_le_of_lt hsmall (by decide),
      @addrs_lt im₁ (t + 1) din hl.sound⟩
  have hT : im₁.dinode = im.dinode := hw.grown.dinode
  have hdinode := @putInode_dinode im₁ _ _ hn hfits
  have hdata := @putInode_data im₁ _ d hn
  rw [hT] at hdinode
  -- the nodes
  have hnode : (im₁.putInode (t + 1) d).view.node layout =
      update (im.view.node layout) (t + 1) (some (d.node im₁.data)) := by
    have h1 : (im₁.putInode (t + 1) d).view.node layout = update
        ((im.hold (t + 1) (im.dinode (t + 1))).node layout) ((im.hold (t + 1) (im.dinode (t + 1))).inode entry).inum
        (some (d.node (im₁.hold (t + 1) din).data)) :=
      hw.node_update hsound held hdata (by rw [hold_inode]; exact hdinode) (by rw [hd']; exact htype.1)
    rw [hold_inode] at h1
    exact h1
  have hwrote : ((im.dinode (t + 1)).node im.data).Wrote l.length p (d.node im₁.data) := by
    have h1 := hw.node hsound held (d := d)
    rw [hold_inode, hold_inode] at h1
    refine h1 ?_ ?_ ?_
    · rw [hfields]
      exact htype.2
    · rw [hfields]
    · have h2 : (im.dinode (t + 1)).size = l.length := by rw [hfields]
      rw [h2, Nat.max_eq_right (Nat.le_add_right _ _), hd]
  refine ⟨?_, Good.zero_putInode hl.zero (Mkfs.nmeta_le hl.sound) hn, ?_, ?_, ?_, ?_, ?_, ?_, hl.le⟩
  · -- the owners
    have h1 := hl.sound.setCopy held (d := d) (by rw [hold_inode, ← hd]) (by rw [hold_inode, ← hd])
      (fun _ bn hbn => ?_)
    · rw [hold_setCopy, hold_tbl, hold_inode, update_idem, hT] at h1
      have h2 : Sound layout (im₁.putInode (t + 1) d).dinode (im₁.hold (t + 1) d) := by
        rw [hdinode]
        exact h1
      exact view_sound h2 rfl hdata
    · have h2 : (bn : Nat) * BSIZE < l.length + p.length := by
        rw [hd'] at hbn
        exact hbn
      have h3 := (hl.spots bn bn.isLt).mpr h2
      rw [hold_inode]
      exact ⟨_, (own_hold hl.sound _).trans (nz_eq_some.mpr ⟨(blockOf_lt bn.isLt).symm, h3⟩)⟩
  · rw [length_set]
    exact hino.trans hg.freeinode
  · rw [length_set]
    exact hg.few
  · intro t' ty' l' ht'
    unfold Holds
    rw [hnode]
    by_cases htt : t' = t
    · rw [htt, List.getElem?_set_self (List.getElem?_eq_some_iff.mp ht).1] at ht'
      cases ht'
      refine ⟨_, by rw [htt]; exact update_self _ _ _, ?_⟩
      refine ⟨?_, fun k hk => ?_, fun m => ?_, ?_, by rw [hlen]; exact hsmall, hfile.type⟩
      · show d = ⟨ty, 0, 0, 1, (l ++ p).length, d.addrs⟩
        rw [hlen, hd']
      · rw [hwrote.bytes k, getD_append hk]
        refine ite_congr rfl (fun _ => rfl) fun hr => hfile.bytes k ?_
        rw [hlen] at hk
        omega
      · rw [hlen]
        refine Iff.trans ?_ (hl.spots m m.isLt)
        rw [blockOf_lt m.isLt, ← hd]
        rfl
      · rw [hlen]
        refine Iff.trans ?_ hl.indirect
        rw [← hd]
        rfl
    · rw [List.getElem?_set_ne (Ne.symm htt)] at ht'
      obtain ⟨x, hx, hf⟩ := hg.files t' ty' l' ht'
      refine ⟨x, ?_, hf⟩
      rw [update_of_ne (by omega)]
      exact hx
  · intro t' ty' l' ht' k hk
    rw [hdata, hdinode]
    by_cases htt : t' = t
    · rw [htt, List.getElem?_set_self (List.getElem?_eq_some_iff.mp ht).1] at ht'
      cases ht'
      rw [htt, update_self, ← hd]
      exact hl.tail k (by rw [← hlen]; exact hk)
    · rw [List.getElem?_set_ne (Ne.symm htt)] at ht'
      rw [update_of_ne (by omega)]
      obtain ⟨hfile', hn', hfields', -⟩ := hg.inode ht'
      have hty' : (im.dinode (t' + 1)).type ≠ 0 := by
        rw [hfields']
        show ty' ≠ 0
        rcases hfile'.type with h | h <;> rw [h] <;> decide
      have hframe := @byteAt_frame layout im.dinode im.dinode im.data im₁.data (t' + 1) ⟨hn', hty'⟩ rfl
        fun x b hb => ?_
      · exact (hframe.2 k).trans (hg.tail t' ty' l' ht' k hk)
      · apply hw.others (t' + 1) x b (by rw [hold_inode]; exact fun h => htt (Nat.succ.inj h))
        rw [hold_tbl, update_eq_self]
        exact hb
  · intro m hm
    rw [length_set] at hm
    have htl : t < fs.length := (List.getElem?_eq_some_iff.mp ht).1
    rw [hdinode, update_of_ne (by omega)]
    exact hg.free m hm
  · have h1 := needs_set (ty, l ++ p) ht
    have h2 := hl.count
    have h3 := hg.count
    have h1 : needs (fs.set t (ty, l ++ p)) + need l.length = needs fs + need (l ++ p).length := h1
    show im₁.freeblock = _
    rw [hlen] at h1
    omega

end

lemma wp_iappend (hg : Good im fs) (ht : fs[t]? = some (ty, l))
    (hmax : E (.assert "fbn < MAXFILE") ∨ (l ++ p).length ≤ MAXFILE * BSIZE)
    (hroom : E (.perror "read") ∨ im.freeblock + need (l ++ p).length ≤ FSSIZE + need l.length) :
    wp E (iappend (t + 1) p) (fun _ im' => Good im' (fs.set t (ty, l ++ p)) ∧
      im'.freeblock + need l.length = im.freeblock + need (l ++ p).length) im := by
  obtain ⟨hfile, hn, hfields, hsound⟩ := hg.inode ht
  have hsize : (im.dinode (t + 1)).size = l.length := by rw [hfields]
  have hlen : (l ++ p).length = l.length + p.length := length_append
  -- the other files
  obtain ⟨rest, hrest⟩ : ∃ rest, im.freeblock = rest + need l.length := by
    refine ⟨im.freeblock - need l.length, ?_⟩
    have h1 : needs (fs.set t (0, [])) + need l.length = needs fs + need ([] : List UInt8).length := needs_set (0, []) ht
    have h2 := hg.count
    have h3 : need ([] : List UInt8).length = 0 := by simp [need]
    omega
  have hloop : Loop im (t + 1) (im.dinode (t + 1)) l.length rest := by
    refine ⟨?_, hg.zero, fun m hm => ?_, hfile.indirect, hg.tail t ty l ht, hrest, hg.le⟩
    · rw [hold_tbl, update_eq_self]
      exact hsound
    · rw [blockOf_lt hm]
      exact hfile.spots ⟨m, hm⟩
  rw [hlen] at hmax hroom
  unfold iappend
  apply wp_seq (Q := fun din im' => din = im.dinode (t + 1) ∧ im' = im) (wp_rinode hn ⟨rfl, rfl⟩)
  rintro din im0 ⟨rfl, rfl⟩
  rw [hsize]
  apply wp_seq (wp_appendLoop p.length hloop (Nat.le_refl _) hmax (hroom.imp_right fun h => by omega))
  rintro ⟨din', off⟩ im₁ ⟨hoff, hl, hw, hino⟩
  have hoff : off = l.length + p.length := hoff
  rw [hoff]
  refine wp_winode hn ⟨hg.appended ht hrest hl hw hino, ?_⟩
  have h1 := hl.count
  show im₁.freeblock + _ = _
  rw [hlen]
  omega

end Xv6.Mkfs
