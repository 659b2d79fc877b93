import Xv6.Mkfs.Files

/-!
# The kernel reads what `mkfs` wrote

`Built` are the images that `ialloc` and `iappend` make from a formatted one. On such an image a fresh inode gets a
byte string, cut into calls of `iappend` in any way; `readi` of the kernel then finds it.
-/

namespace Xv6.Mkfs
open Lib Fs List

/-- the images that `mkfs` builds, call by call. -/
inductive Built : Image → Prop
  | formatted {im im' : Image} (h0 : im.freeinode = 1) (h : format im = .ok ((), im')) : Built im'
  | allocated {im im' : Image} {n : Nat} {ty : Int} (h : Built im) (hn : im.freeinode < NINODES)
      (hty : ty = T_DIR ∨ ty = T_FILE) (hr : ialloc ty im = .ok (n, im')) : Built im'
  | appended {im im' : Image} {n : Nat} {p : List UInt8} (h : Built im) (h0 : 0 < n) (hn : n < im.freeinode)
      (hr : iappend n p im = .ok ((), im')) : Built im'

/-- a new inode, and calls of `iappend` for it. -/
def writeFile (ty : Int) (chunks : List (List UInt8)) : P Nat := do
  let inum ← ialloc ty
  chunks.forM (iappend inum)
  pure inum

variable {im im' : Image} {ty : Int} {n : Nat} {E : Exit → Prop} {fs : List (Int × List UInt8)} {l : List UInt8}
  {chunks : List (List UInt8)}

lemma Built.good (h : Built im) : ∃ fs, Good im fs := by
  induction h with
  | @formatted im im' h0 h =>
    have hw : wp (fun _ => True) format (fun _ im' => Good im' []) im := wp_format h0
    exact ⟨[], hw.elim.1 () im' h⟩
  | allocated _ hn hty hr ih =>
    obtain ⟨fs, hg⟩ := ih
    rw [hg.freeinode] at hn
    exact ⟨_, ((wp_ialloc (E := fun _ => True) hg hty hn).elim.1 _ _ hr).2.1⟩
  | @appended im im' n p _ h0 hn hr ih =>
    obtain ⟨fs, hg⟩ := ih
    rw [hg.freeinode] at hn
    obtain ⟨t, rfl⟩ : ∃ t, n = t + 1 := ⟨n - 1, by omega⟩
    have ht : fs[t]? = some (fs[t]) := List.getElem?_eq_getElem (by omega)
    exact ⟨_, ((wp_iappend (E := fun _ => True) hg ht (.inl trivial) (.inl trivial)).elim.1 _ _ hr).1⟩

lemma wp_chunks (chunks : List (List UInt8)) : ∀ {im : Image} {l : List UInt8}, Good im (fs ++ [(ty, l)]) →
    (l ++ chunks.flatten).length ≤ MAXFILE * BSIZE →
    im.freeblock + need (l ++ chunks.flatten).length ≤ FSSIZE + need l.length →
    wp E (chunks.forM (iappend (fs.length + 1))) (fun _ im' => Good im' (fs ++ [(ty, l ++ chunks.flatten)]) ∧
      im'.freeblock + need l.length = im.freeblock + need (l ++ chunks.flatten).length) im := by
  induction chunks with
  | nil =>
    intro im l hg _ _
    rw [flatten_nil, append_nil]
    exact ⟨hg, rfl⟩
  | cons p chunks ih =>
    intro im l hg hmax hroom
    rw [flatten_cons, ← append_assoc] at hmax hroom ⊢
    have hle : (l ++ p).length ≤ (l ++ p ++ chunks.flatten).length := by
      have := @length_append _ (l ++ p) chunks.flatten
      omega
    have hneed := need_mono hle
    have ht : (fs ++ [(ty, l)])[fs.length]? = some (ty, l) := by simp
    apply wp_seq (wp_iappend (p := p) hg ht (.inr (Nat.le_trans hle hmax)) (.inr (by omega)))
    rintro _ im1 ⟨hg1, hfree⟩
    rw [set_append_right _ _ (Nat.le_refl _), Nat.sub_self, set_cons_zero] at hg1
    apply wp_mono (ih hg1 hmax (by omega))
    rintro _ im2 ⟨hg2, hfree2⟩
    exact ⟨hg2, by omega⟩

lemma wp_writeFile (hg : Good im fs) (hn : fs.length + 1 < NINODES) (hty : ty = T_DIR ∨ ty = T_FILE)
    (hmax : chunks.flatten.length ≤ MAXFILE * BSIZE) (hroom : im.freeblock + need chunks.flatten.length ≤ FSSIZE) :
    wp E (writeFile ty chunks) (fun n im' => n = fs.length + 1 ∧ Good im' (fs ++ [(ty, chunks.flatten)])) im := by
  have h0 : need ([] : List UInt8).length = 0 := by simp [need]
  unfold writeFile
  apply wp_seq (wp_ialloc hg hty hn)
  rintro n im1 ⟨rfl, hg1, hfree⟩
  refine wp_seq (wp_chunks chunks hg1 hmax ?_) ?_
  · rw [h0, hfree]
    exact hroom
  rintro _ im2 ⟨hg2, -⟩
  exact wp_pure ⟨rfl, hg2⟩

/-! ## the kernel -/

lemma Good.readable (hg : Good im fs) {t : Nat} (ht : fs[t]? = some (ty, l)) {e : Env} (hm : e.nmeta = nmeta)
    (hs : e.size = FSSIZE) : Readable e (im.dinode (t + 1)) im.data := by
  obtain ⟨hfile, hn, hfields, hsound⟩ := hg.inode ht
  have hh : (im.hold (t + 1) (im.dinode (t + 1))).Held entry := held
  have hdev : ((im.hold (t + 1) (im.dinode (t + 1))).inode entry).d.type ≠ T_DEV := by
    rw [hold_inode]
    show (im.dinode (t + 1)).type ≠ T_DEV
    rw [hfields]
    show ty ≠ T_DEV
    rcases hfile.type with h | h <;> rw [h] <;> decide
  have h1 := Sound.readable hsound hh hdev
  rw [hold_inode] at h1
  refine ⟨h1.there, fun x hx => ?_⟩
  rw [hm, hs]
  exact h1.inside x hx

lemma Good.readi_eq (hg : Good im fs) {t : Nat} (ht : fs[t]? = some (ty, l)) :
    ((im.dinode (t + 1)).node im.data).readi 0 l.length = some l := by
  obtain ⟨hfile, -, hfields, -⟩ := hg.inode ht
  have hsize : (im.dinode (t + 1)).size = l.length := by rw [hfields]
  have hlt : ¬ ((im.dinode (t + 1)).size < 0 ∨ (0 + l.length) % 2 ^ 32 < 0) := by omega
  unfold Node.readi
  refine (if_neg hlt).trans (congrArg some ?_)
  show (List.range (min l.length ((im.dinode (t + 1)).size - 0))).map _ = l
  rw [hsize, Nat.sub_zero, Nat.min_self]
  refine ext_getElem (by simp) fun k hk _ => ?_
  rw [length_map, length_range] at hk
  rw [getElem_map, getElem_range, Nat.zero_add, hfile.bytes k hk]
  exact getD_eq_getElem _ _ hk

lemma ok_of_runs {α : Type} {m : M α} {Q : α → Core → Prop} {s : State} (h : Runs (fun _ => False) m Q s.core) :
    ∃ a s', m s = .ok (a, s') ∧ Q a s'.core := by
  have h1 := (h s rfl).elim
  cases hm : m s with
  | ok r => exact ⟨r.1, r.2, rfl, h1.1 _ _ hm⟩
  | error x => exact (h1.2 x hm).elim

/-- For every image that `mkfs` builds, every byte string and every way to cut it into calls of `iappend` on a fresh
inode: with enough blocks left, the calls succeed, the inode has the size of the string, and `readi` of the kernel, with
this inode in memory and these data blocks on the disk, returns the string. -/
theorem kernel_reads_back {read : Int → Option (Nat → Option (List UInt8))}
    {write : Int → Option (List UInt8 → Option Nat)} (hb : Built im) (hn : im.freeinode < NINODES)
    (hty : ty = T_DIR ∨ ty = T_FILE) (hmax : chunks.flatten.length ≤ MAXFILE * BSIZE)
    (hroom : im.freeblock + need chunks.flatten.length ≤ FSSIZE) :
    ∃ im', writeFile ty chunks im = .ok (im.freeinode, im') ∧
      (im'.dinode im.freeinode).size = chunks.flatten.length ∧
      ∀ (s : State) (i : Ip), s.core.data = im'.data → (s.core.inode i).d = im'.dinode im.freeinode →
        ∃ s', readi (env read write) i 0 chunks.flatten.length s = .ok (some chunks.flatten, s') ∧
          s'.core = s.core := by
  obtain ⟨fs, hg⟩ := hb.good
  have hino := hg.freeinode
  rw [hino] at hn ⊢
  have hw : wp (fun _ => False) (writeFile ty chunks)
    (fun n im' => n = fs.length + 1 ∧ Good im' (fs ++ [(ty, chunks.flatten)])) im := wp_writeFile hg hn hty hmax hroom
  cases hr : writeFile ty chunks im with
  | error x => exact (hw.elim.2 x hr).elim
  | ok r =>
    obtain ⟨n, im'⟩ := r
    obtain ⟨rfl, hg'⟩ := hw.elim.1 n im' hr
    have ht : (fs ++ [(ty, chunks.flatten)])[fs.length]? = some (ty, chunks.flatten) := by simp
    obtain ⟨hfile, -, hfields, -⟩ := hg'.inode ht
    have hsize : (im'.dinode (fs.length + 1)).size = chunks.flatten.length := by rw [hfields]
    have hdev : (im'.dinode (fs.length + 1)).type ≠ T_DEV := by
      rw [hfields]
      show ty ≠ T_DEV
      rcases hfile.type with h | h <;> rw [h] <;> decide
    refine ⟨im', rfl, hsize, fun s i hdata hd => ?_⟩
    have hread : Readable (env read write) (s.core.inode i).d s.core.data := by
      rw [hdata, hd]
      exact hg'.readable ht (show FSSIZE - (FSSIZE - nmeta) = nmeta by decide) rfl
    have hrun : Runs (fun _ => False) (readi (env read write) i 0 chunks.flatten.length)
        (fun r c' => c' = s.core ∧ r = ((s.core.inode i).d.node s.core.data).readi 0 chunks.flatten.length) s.core :=
      does_readi_there hread (by rw [hd]; exact hdev) (.inr (by rw [hd, hsize]; exact hmax))
        (Nat.lt_of_le_of_lt hmax (by decide))
    obtain ⟨r, s', hok, hcore, hr⟩ := ok_of_runs hrun
    rw [hdata, hd, hg'.readi_eq ht] at hr
    rw [hr] at hok
    exact ⟨s', hok, hcore⟩

/-- 1300 bytes in three calls. -/
def threeBlocks : List (List UInt8) := [replicate 600 1, [], replicate 700 2]

/-- They fill three blocks of an image without files, and the second call that writes begins inside of a block. -/
theorem kernel_reads_back_blocks : ∃ im im' : Image, Built im ∧
    writeFile T_FILE threeBlocks im = .ok (im.freeinode, im') ∧ (im'.dinode im.freeinode).size = 1300 ∧
    ∀ (s : State) (i : Ip), s.core.data = im'.data → (s.core.inode i).d = im'.dinode im.freeinode →
      ∃ s', readi (env (fun _ => none) fun _ => none) i 0 1300 s = .ok (some threeBlocks.flatten, s') := by
  have hf : wp (fun _ => False) format (fun _ im' => Good im' []) Image.start := wp_format rfl
  cases hr : format Image.start with
  | error x => exact (hf.elim.2 x hr).elim
  | ok r =>
    obtain ⟨⟨⟩, im⟩ := r
    have hg := hf.elim.1 () im hr
    have hb : Built im := .formatted rfl hr
    have hlen : threeBlocks.flatten.length = 1300 := by decide +kernel
    obtain ⟨im', h1, h2, h3⟩ := @kernel_reads_back im T_FILE threeBlocks (fun _ => none) (fun _ => none) hb
      (by rw [hg.freeinode]; decide) (.inr rfl) (by rw [hlen]; decide) (by rw [hg.count, hlen]; decide)
    rw [hlen] at h2 h3
    exact ⟨im, im', hb, h1, h2, fun s i hd hi => (h3 s i hd hi).imp fun _ => And.left⟩

end Xv6.Mkfs
