import Xv6.Fs.Content

/-!
# The content of a file: `writei`

A turn of the loop of `writei` maps a block and copies a part of the source to it; `Wrote lo hi f c c'`
is what the turns up to the offset `hi` have done. Below the size all blocks are there, and only the
content is written; above it, `writei` ends with an `iupdate`. In terms of nodes (`Node.Wrote`): the
bytes from `off` on are those of the source, the others stay, and no other node changes.
-/

namespace Xv6.Fs
open Lib Function List

variable {e : Env} {T T' : Nat → Dinode} {c c' : Core} {i : Ip} {n a b : Nat} {c'' : Core} {src : List UInt8}
variable {m : Fin MAXFILE} {d : Dinode}

/-! ## the copy in memory changes -/

lemma own_congr {data : Nat → Block}
    (hT : ∀ n, (T' n).type = (T n).type ∧ (T' n).addrs = (T n).addrs) (q : Place) :
    own e T' data q = own e T data q := by
  cases q with
  | fixed => rfl
  | inode n x =>
    have hb : (T' n).block data x = (T n).block data x := by
      cases x with
      | addr k => exact congrFun (hT n).2 k
      | entry j =>
        show (if (T' n).addrs _ = 0 then 0 else word (data ((T' n).addrs _)) j) = _
        rw [(hT n).2]
        rfl
    show (if _ ∧ (T' n).type ≠ 0 then nz ((T' n).block data x) else none) = _
    rw [hb, (hT n).1]
    rfl

section
variable (h : Sound e T c) (hb : own e T c.data (.inode n (spot m)) = some b)
include h hb

lemma own_setData (y : Block) (q : Place) : own e T (c.setData b y).data q = own e T c.data q := by
  cases q with
  | fixed => rfl
  | inode =>
    refine own_frame rfl (data_update_of_ne fun hb' => ?_)
    exact spot_ne_indirect m (Place.inode.inj (h.owns.one _ _ _ hb hb')).2

lemma Sound.setData (y : Block) : Sound e T (c.setData b y) := by
  have hown := own_setData h hb y
  refine ⟨h.owns.reframe hown fun _ _ => rfl, fun n bn hn ht hd hs => ?_,
    fun i hi => h.copy i ⟨hi.ref, hi.valid⟩, h.apart⟩
  rw [hown]
  exact h.full n bn hn ht hd hs

end

lemma Sound.setCopy (h : Sound e T c) (hi : c.Held i)
    (ht : d.type = (c.inode i).d.type) (ha : d.addrs = (c.inode i).d.addrs)
    (hfull : d.type ≠ T_DEV → ∀ bn : Fin MAXFILE, bn * BSIZE < d.size →
      ∃ b, own e T c.data (.inode (c.inode i).inum (spot bn)) = some b) :
    Sound e (update T (c.inode i).inum d) (c.setCopy i d) := by
  have hc := h.copy i hi
  have hown : ∀ q, own e (update T (c.inode i).inum d) (c.setCopy i d).data q = own e T c.data q := by
    refine own_congr fun n => ?_
    rw [update_apply]
    split
    · next hn =>
      rw [hn, ← hc.same]
      exact ⟨ht, ha⟩
    · exact ⟨rfl, rfl⟩
  have hd : d.type ≠ 0 := by rw [ht]; exact hc.type_ne
  refine ⟨h.owns.reframe hown fun _ _ => rfl, fun n bn hn hty hdev hs => ?_,
    fun j hj => h.copies hi hd hj, h.aparts d⟩
  rw [hown]
  rw [update_apply] at hty hdev hs
  split at hs
  · next hn =>
    rw [if_pos hn] at hdev
    rw [hn]
    exact hfull hdev bn hs
  · next hn =>
    rw [if_neg hn] at hty hdev
    exact h.full n bn ‹_› hty hdev hs

/-- only copies of inodes have changed in the cache. -/
def Keeps (c c' : Core) : Prop := ∀ j, ∃ d, c'.inode j = { c.inode j with d := d }

lemma Keeps.trans (h : Keeps c c') (h' : Keeps c' c'') : Keeps c c'' := by
  intro j
  obtain ⟨d, hd⟩ := h j
  obtain ⟨d', hd'⟩ := h' j
  exact ⟨d', by rw [hd', hd]⟩

lemma Keeps.of_eq (h : c'.inode = c.inode) : Keeps c c' := fun j => ⟨_, by rw [h]⟩

lemma Keeps.setCopy (c : Core) (i : Ip) (d : Dinode) : Keeps c (c.setCopy i d) := by
  intro j
  by_cases hj : j = i
  · rw [hj]
    exact ⟨d, c.setCopy_self i d⟩
  · exact ⟨_, c.setCopy_of_ne d hj⟩

lemma Grown.keeps (h : Grown e i c c') : Keeps c c' := by
  intro j
  by_cases hj : j = i
  · obtain ⟨f, hf⟩ := h.self
    rw [hj]
    exact ⟨_, hf⟩
  · exact ⟨_, h.others j hj⟩

lemma does_update (h : Sound e (c.tbl i) c) (hi : c.Held i)
    (ht : d.type = (c.inode i).d.type) (ha : d.addrs = (c.inode i).d.addrs)
    (hfull : d.type ≠ T_DEV → ∀ bn : Fin MAXFILE, bn * BSIZE < d.size →
      ∃ b, own e (c.tbl i) c.data (.inode (c.inode i).inum (spot bn)) = some b) :
    Does (iupdate e i) (fun _ c' => Inv e c' ∧ Keeps c c') (c.setCopy i d) := by
  refine (does_iupdate i).mono fun _ c' hc => ?_
  rw [hc]
  constructor
  · apply Sound.written
    rw [tbl_setCopy]
    exact h.setCopy hi ht ha hfull
  · exact Keeps.setCopy c i d

/-! ## the loop -/

lemma own_spot (h : Sound e (c.tbl i) c) (hi : c.Held i) :
    own e (c.tbl i) c.data (.inode (c.inode i).inum (spot m)) = some b ↔
      (c.inode i).d.blockOf c.data m = b ∧ b ≠ 0 := by
  rw [(h.copy i hi).own_eq, blockOf_lt m.isLt]
  exact nz_eq_some

lemma span_split {lo mid hi m : Nat} (h1 : lo ≤ mid) (h2 : mid ≤ hi) :
    ((lo < mid ∧ lo / BSIZE ≤ m ∧ m * BSIZE < mid) ∨
      (mid < hi ∧ mid / BSIZE ≤ m ∧ m * BSIZE < hi)) ↔ lo < hi ∧ lo / BSIZE ≤ m ∧ m * BSIZE < hi := by
  show ((lo < mid ∧ lo / 512 ≤ m ∧ m * 512 < mid) ∨
    (mid < hi ∧ mid / 512 ≤ m ∧ m * 512 < hi)) ↔ lo < hi ∧ lo / 512 ≤ m ∧ m * 512 < hi
  omega

/-- the bytes from `lo` to `hi` have been written, with the values `f`. -/
structure Wrote (e : Env) (i : Ip) (lo hi : Nat) (f : Nat → UInt8) (c c' : Core) : Prop where
  grown : Grown e i c c'
  inside : lo < hi → hi ≤ MAXFILE * BSIZE
  others : ∀ n x b, n ≠ (c.inode i).inum → own e (c.tbl i) c.data (.inode n x) = some b → c'.data b = c.data b
  spots : ∀ m, m < MAXFILE → ((c'.inode i).d.blockOf c'.data m ≠ 0 ↔
    (c.inode i).d.blockOf c.data m ≠ 0 ∨ lo < hi ∧ lo / BSIZE ≤ m ∧ m * BSIZE < hi)
  bytes : ∀ k, (c.inode i).d.blockOf c.data (k / BSIZE) ≠ 0 ∨ (lo ≤ k ∧ k < hi) →
    (c'.inode i).d.byteAt c'.data k =
      if lo ≤ k ∧ k < hi then f k else (c.inode i).d.byteAt c.data k

namespace Wrote
variable {lo mid hi : Nat} {f f' : Nat → UInt8}

lemma congr (h : Wrote e i lo hi f c c') (hf : ∀ k, lo ≤ k → k < hi → f' k = f k) : Wrote e i lo hi f' c c' := by
  refine ⟨h.grown, h.inside, h.others, h.spots, fun k hk => ?_⟩
  rw [h.bytes k hk]
  refine ite_congr rfl (fun hr => ?_) fun _ => rfl
  exact (hf k hr.1 hr.2).symm

lemma refl (h : Sound e (c.tbl i) c) : Wrote e i lo lo f c c := by
  refine ⟨.refl h, fun hlt => absurd hlt (Nat.lt_irrefl _), fun _ _ _ _ _ => rfl, fun m _ => ?_, fun k _ => ?_⟩
  · exact ⟨.inl, fun hm => hm.elim id fun hm => absurd hm.1 (Nat.lt_irrefl _)⟩
  · rw [if_neg]
    omega

lemma there (h : Wrote e i lo hi f c c') {k : Nat} (h1 : lo ≤ k) (h2 : k < hi) :
    (c'.inode i).d.blockOf c'.data (k / BSIZE) ≠ 0 := by
  have hin : hi ≤ 140 * 512 := h.inside (by omega)
  refine (h.spots (k / BSIZE) ?_).mpr (.inr ⟨by omega, Nat.div_le_div_right h1,
    Nat.lt_of_le_of_lt (Nat.div_mul_le_self _ _) h2⟩)
  show k / 512 < 140
  omega

lemma trans (h : Wrote e i lo mid f c c') (h' : Wrote e i mid hi f c' c'')
    (h1 : lo ≤ mid) (h2 : mid ≤ hi) : Wrote e i lo hi f c c'' := by
  refine ⟨h.grown.trans h'.grown, fun hlt => ?_, fun n x b hn hb => ?_, fun m hm => ?_, fun k hk => ?_⟩
  · rcases Nat.eq_or_lt_of_le h2 with he | hlt'
    · rw [← he]
      exact h.inside (by omega)
    · exact h'.inside hlt'
  · rw [h'.others n x b (by rw [h.grown.inum]; exact hn) (h.grown.more _ _ hb), h.others n x b hn hb]
  · rw [h'.spots m hm, h.spots m hm, or_assoc, span_split h1 h2]
  · have hin : (c'.inode i).d.blockOf c'.data (k / BSIZE) ≠ 0 ∨ (mid ≤ k ∧ k < hi) := by
      by_cases hm : mid ≤ k ∧ k < hi
      · exact .inr hm
      · left
        rcases hk with h0 | hr
        · exact (h.spots _ (lt_of_blockOf h0)).mpr (.inl h0)
        · exact h.there hr.1 (by omega)
    rw [h'.bytes k hin]
    by_cases hm : mid ≤ k ∧ k < hi
    · rw [if_pos hm, if_pos (by omega)]
    · rw [if_neg hm, h.bytes k (hk.imp_right fun hr => by omega)]
      exact if_congr (by omega) rfl rfl

end Wrote

variable {m k off : Nat}

lemma byte_splice {x : Block} {pos : Nat} (hk : k < BSIZE) :
    byte (splice x pos m src) k =
      if pos ≤ k ∧ k < pos + m then src.getD (k - pos) 0 else byte x k := by
  unfold byte
  rw [dif_pos hk, dif_pos hk]
  rfl

lemma same_block (h : k / BSIZE = off / BSIZE) :
    (off % BSIZE ≤ k % BSIZE ↔ off ≤ k) ∧ (∀ m, k % BSIZE < off % BSIZE + m ↔ k < off + m) ∧
      k % BSIZE - off % BSIZE = k - off := by
  replace h : k / 512 = off / 512 := h
  show (off % 512 ≤ k % 512 ↔ off ≤ k) ∧ (∀ m, k % 512 < off % 512 + m ↔ k < off + m) ∧ k % 512 - off % 512 = k - off
  refine ⟨by omega, fun m => by omega, by omega⟩

lemma block_end (hk : k ≤ BSIZE - off % BSIZE) : off + k ≤ (off / BSIZE + 1) * BSIZE := by
  have h : k ≤ 512 - off % 512 := hk
  show off + k ≤ (off / 512 + 1) * 512
  omega

lemma span_turn (h0 : 0 < k) (hk : k ≤ BSIZE - off % BSIZE) :
    (off < off + k ∧ off / BSIZE ≤ m ∧ m * BSIZE < off + k) ↔ m = off / BSIZE := by
  replace hk : k ≤ 512 - off % 512 := hk
  show (off < off + k ∧ off / 512 ≤ m ∧ m * 512 < off + k) ↔ m = off / 512
  omega

section
variable {m : Fin MAXFILE} {c₁ : Core}

lemma Grown.setData (h : Grown e i c c₁)
    (hb : own e (c₁.tbl i) c₁.data (.inode (c₁.inode i).inum (spot m)) = some b) (y : Block) :
    Grown e i c (c₁.setData b y) := by
  refine h.trans ⟨h.sound.setData hb y, rfl, fun _ _ => rfl, ⟨_, rfl⟩, fun p x hp => ?_⟩
  exact (own_setData h.sound hb y p).trans hp

section
variable (hA : Adds e i (Mapped (c.inode i).inum m) c c₁) (h : Sound e (c.tbl i) c) (hi : c.Held i)
include hA h hi

lemma Adds.blockOf_iff (hb : (c₁.inode i).d.blockOf c₁.data m ≠ 0) (j : Fin MAXFILE) :
    (c₁.inode i).d.blockOf c₁.data j ≠ 0 ↔ (c.inode i).d.blockOf c.data j ≠ 0 ∨ j.val = m.val := by
  have hg := hA.grown
  constructor
  · intro h0
    have ho := (own_spot hg.sound (hg.held hi)).mpr ⟨rfl, h0⟩
    rw [hg.inum] at ho
    rcases hA.only _ _ ho with hold | hq | hq
    · left
      rw [((own_spot h hi).mp hold).1]
      exact h0
    · exact .inr (congrArg Fin.val (spot_injective (Place.inode.inj hq).2))
    · exact absurd (Place.inode.inj hq).2 (spot_ne_indirect j)
  · rintro (h0 | hj)
    · have ho := hg.more _ _ ((own_spot h hi).mpr ⟨rfl, h0⟩)
      rw [← hg.inum] at ho
      rw [((own_spot hg.sound (hg.held hi)).mp ho).1]
      exact h0
    · rw [hj]
      exact hb

lemma Adds.block_kept (j : Fin MAXFILE) (h0 : (c.inode i).d.blockOf c.data j ≠ 0) :
    (c₁.inode i).d.blockOf c₁.data j = (c.inode i).d.blockOf c.data j ∧
      c₁.data ((c.inode i).d.blockOf c.data j) = c.data ((c.inode i).d.blockOf c.data j) := by
  have hg := hA.grown
  have ho := (own_spot h hi).mpr ⟨rfl, h0⟩
  have ho' := hg.more _ _ ho
  rw [← hg.inum] at ho'
  refine ⟨((own_spot hg.sound (hg.held hi)).mp ho').1, hA.kept _ _ (fun hq => ?_) ho⟩
  exact spot_ne_indirect j (Place.inode.inj hq).2

end

lemma blockOf_setData (h : Sound e (c.tbl i) c) (hi : c.Held i)
    (hb : own e (c.tbl i) c.data (.inode (c.inode i).inum (spot m)) = some b) (y : Block) (j : Nat) :
    (c.inode i).d.blockOf (c.setData b y).data j = (c.inode i).d.blockOf c.data j := by
  by_cases hj : j < MAXFILE
  · rw [blockOf_lt hj, blockOf_lt hj]
    have h1 := own_setData h hb y (.inode (c.inode i).inum (spot ⟨j, hj⟩))
    rw [(h.copy i hi).own_eq, (h.copy i hi).own_eq] at h1
    exact nz_inj h1
  · rw [blockOf_ge hj, blockOf_ge hj]

lemma Wrote.turn {off k : Nat} (h : Sound e (c.tbl i) c) (hi : c.Held i)
    (hA : Adds e i (Mapped (c.inode i).inum m) c c₁) (hm : m.val = off / BSIZE)
    (hb : own e (c₁.tbl i) c₁.data (.inode (c.inode i).inum (spot m)) = some b) (h0 : 0 < k)
    (hk : k ≤ BSIZE - off % BSIZE) : Wrote e i off (off + k) (fun x => src.getD (x - off) 0) c
      (c₁.setData b (splice (c₁.data b) (off % BSIZE) k src)) := by
  have hg := hA.grown
  have hi1 := hg.held hi
  rw [← hg.inum] at hb
  obtain ⟨hblk, hb0⟩ := (own_spot hg.sound hi1).mp hb
  have hof := blockOf_setData hg.sound hi1 hb (splice (c₁.data b) (off % BSIZE) k src)
  -- the blocks other than `b`
  have hdata : ∀ x, x ≠ b → (c₁.setData b (splice (c₁.data b) (off % BSIZE) k src)).data x = c₁.data x :=
    fun x hx => update_of_ne hx _ _
  refine ⟨hg.setData hb _, fun _ => ?_, fun n x b' hn hb' => ?_, fun j hj => ?_, fun j hj => ?_⟩
  · have h1 := block_end hk
    have h2 : (off / BSIZE + 1) * BSIZE ≤ MAXFILE * BSIZE := by
      rw [← hm]
      exact Nat.mul_le_mul_right _ m.isLt
    exact Nat.le_trans h1 h2
  · have hb'' := hg.more _ _ hb'
    rw [hdata, hA.kept _ _ (fun hq => hn (Place.inode.inj hq).1) hb']
    intro hbb
    rw [hbb] at hb''
    have hq := hg.sound.owns.one _ _ _ hb'' hb
    exact hn ((Place.inode.inj hq).1.trans hg.inum)
  · show (c₁.inode i).d.blockOf _ j ≠ 0 ↔ _
    rw [hof, span_turn h0 hk, hA.blockOf_iff h hi (by rw [hblk]; exact hb0) ⟨j, hj⟩, hm]
  · show (c₁.inode i).d.byteAt _ j = _
    by_cases hjm : j / BSIZE = off / BSIZE
    · -- the block of this turn
      have hbj : (c₁.inode i).d.blockOf c₁.data (j / BSIZE) = b := by rw [hjm, ← hm]; exact hblk
      have hbyte : (c₁.inode i).d.byteAt
          (c₁.setData b (splice (c₁.data b) (off % BSIZE) k src)).data j =
            byte (splice (c₁.data b) (off % BSIZE) k src) (j % BSIZE) := by
        rw [byteAt_some (by rw [hof, hbj]; exact hb0), hof, hbj]
        exact congrArg (fun y => byte y (j % BSIZE)) (update_self _ _ _)
      obtain ⟨h1, h2, h3⟩ := same_block hjm
      rw [hbyte, byte_splice (Nat.mod_lt j (by decide)), h3]
      refine ite_congr (propext (and_congr h1 (h2 k))) (fun _ => rfl) fun hr => ?_
      have hold := hj.resolve_right hr
      obtain ⟨h4, h5⟩ := hA.block_kept h hi ⟨j / BSIZE, lt_of_blockOf hold⟩ hold
      rw [byteAt_some hold, ← h5, ← h4, hbj]
    · have hr : ¬ (off ≤ j ∧ j < off + k) := by
        intro hr
        refine hjm ((span_turn h0 hk).mp ⟨by omega, Nat.div_le_div_right hr.1, ?_⟩)
        exact Nat.lt_of_le_of_lt (Nat.div_mul_le_self _ _) hr.2
      have hold := hj.resolve_right hr
      obtain ⟨h4, h5⟩ := hA.block_kept h hi ⟨j / BSIZE, lt_of_blockOf hold⟩ hold
      rw [if_neg hr]
      refine byteAt_congr ((hof _).trans h4) fun _ => ?_
      rw [hdata, h5]
      intro hbb
      -- two blocks of the content are different
      have ho := (own_spot hg.sound hi1 (m := ⟨j / BSIZE, lt_of_blockOf hold⟩)).mpr ⟨h4.trans hbb, hb0⟩
      have hq := hg.sound.owns.one _ _ _ ho hb
      have hv := congrArg Fin.val (spot_injective (Place.inode.inj hq).2)
      exact hjm (hv.trans hm)

end

variable {src : List UInt8} {off k : Nat} {d : Dinode} {f : Nat → UInt8}

lemma getD_drop {x : Nat} (h : off + k ≤ x) : (src.drop k).getD (x - (off + k)) 0 = src.getD (x - off) 0 := by
  rw [getD_eq_getElem?_getD, getD_eq_getElem?_getD, List.getElem?_drop]
  congr 2
  omega

lemma does_writeLoop (fuel : Nat) : ∀ {c : Core} (_ : Sound e (c.tbl i) c) (_ : c.Held i)
    (src : List UInt8) (off : Nat), src.length ≤ fuel →
    Does (writeLoop e i fuel src off) (fun off' c' => off' = off + src.length ∧
      Wrote e i off (off + src.length) (fun x => src.getD (x - off) 0) c c') c := by
  induction fuel with
  | zero =>
    intro c h _ src off hf
    have hn : src = [] := length_eq_zero_iff.mp (Nat.le_zero.mp hf)
    rw [hn]
    exact does_pure ⟨rfl, .refl h⟩
  | succ fuel ih =>
    intro c h hi src off hf
    refine does_ite (fun hn => does_pure ?_) fun hn => ?_
    · rw [hn]
      exact ⟨rfl, .refl h⟩
    have hpos : 0 < src.length := length_pos_iff.mpr hn
    refine (does_bmap h hi _).seq fun b c₁ ⟨m, hm, hA, hb⟩ => ?_
    refine (does_bwriteLog b _).seq fun _ c2 hc2 => ?_
    have hm0 : 0 < BSIZE - off % BSIZE := Nat.sub_pos_of_lt (Nat.mod_lt off (by decide))
    generalize hk : min src.length (BSIZE - off % BSIZE) = k at hc2
    have hl : (src.drop k).length = src.length - k := length_drop
    have hturn : Wrote e i off (off + k) (fun x => src.getD (x - off) 0) c
        (c₁.setData b (splice (c₁.data b) (off % BSIZE) k src)) :=
      Wrote.turn h hi hA hm hb (by omega) (by omega)
    rw [← hc2] at hturn
    refine (ih hturn.grown.sound (hturn.grown.held hi) (src.drop k) (off + k) (by omega)).mono
      fun off' c' ⟨ho, hw⟩ => ⟨by omega, ?_⟩
    have hend : off + k + (src.drop k).length = off + src.length := by omega
    rw [hend] at hw
    refine hturn.trans (hw.congr fun x hx _ => ?_) (by omega) (by omega)
    exact (getD_drop hx).symm

lemma does_writeLoop_within (fuel : Nat) : ∀ {c : Core} (_ : Inv e c) (_ : c.Held i)
    (_ : (c.inode i).d.type ≠ T_DEV) (src : List UInt8) (off : Nat), src.length ≤ fuel →
    off + src.length ≤ (c.inode i).d.size →
    Does (writeLoop e i fuel src off) (fun off' c' => Inv e c' ∧ off' = off + src.length ∧
      c'.inode = c.inode ∧ c'.used = c.used) c := by
  induction fuel with
  | zero =>
    intro c h _ _ src off hf _
    refine does_pure ⟨h, ?_, rfl, rfl⟩
    omega
  | succ fuel ih =>
    intro c h hi ht src off hf hs
    refine does_ite (fun hn => does_pure ⟨h, by rw [hn]; rfl, rfl, rfl⟩) fun hn => ?_
    have hpos : 0 < src.length := length_pos_iff.mpr hn
    have hlt : off < (c.inode i).d.size := by omega
    refine (does_bmap_full h hi ht (.inl (by decide)) (div_mul_lt hlt)).seq fun b c' ⟨hc, _, _, m, hb⟩ => ?_
    rw [hc]
    refine (does_bwriteLog b _).seq fun _ c' hc => ?_
    rw [hc]
    have hm : 0 < BSIZE - off % BSIZE := Nat.sub_pos_of_lt (Nat.mod_lt off (by decide))
    generalize hk : min src.length (BSIZE - off % BSIZE) = k
    have hk1 : 0 < k := by omega
    have hk2 : k ≤ src.length := by omega
    have hl : (src.drop k).length = src.length - k := length_drop
    refine (@ih (c.setData b _) (h.setData hb _) ⟨hi.ref, hi.valid⟩ ht (src.drop k) (off + k)
      (by omega) ?_).mono fun off' c' ⟨h', ho, hi'⟩ => ⟨h', by omega, hi'⟩
    show off + k + (src.drop k).length ≤ (c.inode i).d.size
    omega

/-! ## nodes -/

/-- the node `x` with the bytes of `src` from `off` on. -/
structure Node.Wrote (x : Node) (off : Nat) (src : List UInt8) (y : Node) : Prop where
  fields : y.d = { x.d with size := max x.d.size (off + src.length), addrs := y.d.addrs }
  bytes : ∀ k, y.bytes k =
    if off ≤ k ∧ k < off + src.length then src.getD (k - off) 0 else x.bytes k
  spots : ∀ m : Fin MAXFILE, y.blk (spot m) ≠ 0 ↔ x.blk (spot m) ≠ 0 ∨
    (off < off + src.length ∧ off / BSIZE ≤ m ∧ m * BSIZE < off + src.length)

/-- how `writei` ends: with no effect on the disk, for a device or a bad offset, or with a new node. -/
inductive WriteEnd (e : Env) (i : Ip) (src : List UInt8) (off : Nat) (c : Core) :
    Option Nat → Core → Prop
  | same {r : Option Nat} (h : (c.inode i).d.type = T_DEV ∨ r = none) : WriteEnd e i src off c r c
  | wrote {c' : Core} {y : Node} (ht : (c.inode i).d.type ≠ T_DEV) (hoff : off ≤ (c.inode i).d.size)
      (hmax : off + src.length ≤ MAXFILE * BSIZE)
      (hnode : c'.node e = Function.update (c.node e) (c.inode i).inum (some y))
      (hy : ((c.inode i).d.node c.data).Wrote off src y)
      (hused : c'.used = c.used ∨ (c.inode i).d.size < y.d.size) :
      WriteEnd e i src off c (some src.length) c'

section
variable (h : Inv e c) (hi : c.Held i)
include h hi

lemma blockOf_full (ht : (c.inode i).d.type ≠ T_DEV)
    (hk : k < (c.inode i).d.size) (hm : k / BSIZE < MAXFILE) :
    (c.inode i).d.blockOf c.data (k / BSIZE) ≠ 0 := by
  have hc := h.copy i hi
  have hty := hc.type_ne
  rw [hc.same] at ht hk hty
  obtain ⟨b, hb⟩ := h.full _ ⟨k / BSIZE, hm⟩ hc.inum_lt hty ht (div_mul_lt hk)
  rw [blockOf_lt hm, hc.same, (own_eq_some.mp hb).2.1]
  exact (own_eq_some.mp hb).2.2

lemma Wrote.node
    (ht : (c.inode i).d.type ≠ T_DEV)
    (hw : Fs.Wrote e i off (off + src.length) (fun x => src.getD (x - off) 0) c c')
    (hoff : off ≤ (c.inode i).d.size)
    (hd : d = { (c'.inode i).d with size := max (c.inode i).d.size (off + src.length) }) :
    ((c.inode i).d.node c.data).Wrote off src (d.node c'.data) := by
  obtain ⟨f, hf⟩ := hw.grown.self
  have hof : ∀ bn, d.blockOf c'.data bn = (c'.inode i).d.blockOf c'.data bn := by
    intro bn
    rw [hd]
    rfl
  have hat : ∀ k, d.byteAt c'.data k = (c'.inode i).d.byteAt c'.data k := by
    intro k
    rw [hd]
    rfl
  have hsize : d.size = max (c.inode i).d.size (off + src.length) := by rw [hd]
  refine ⟨?_, fun k => ?_, fun m => ?_⟩
  · show d = { (c.inode i).d with size := max (c.inode i).d.size (off + src.length), addrs := d.addrs }
    rw [hd, hf]
  · show (if k < d.size then d.byteAt c'.data k else 0) =
      if _ then _ else if k < (c.inode i).d.size then (c.inode i).d.byteAt c.data k else 0
    rw [hsize, hat]
    by_cases hr : off ≤ k ∧ k < off + src.length
    · rw [if_pos hr, if_pos (by omega), hw.bytes k (.inr hr), if_pos hr]
    · rw [if_neg hr]
      by_cases hk : k < (c.inode i).d.size
      · rw [if_pos hk, if_pos (by omega)]
        by_cases hm : k / BSIZE < MAXFILE
        · rw [hw.bytes k (.inl (blockOf_full h hi ht hk hm)), if_neg hr]
        · rw [byteAt_none (blockOf_ge hm), byteAt_none (blockOf_ge hm)]
      · rw [if_neg hk, if_neg (by omega)]
  · have h1 := hw.spots m m.isLt
    rw [← hof, blockOf_lt m.isLt, blockOf_lt m.isLt] at h1
    exact h1

lemma Wrote.node_update {lo hi' : Nat} (hw : Fs.Wrote e i lo hi' f c c') (hdata : c''.data = c'.data)
    (hT : c''.dinode = update c.dinode (c.inode i).inum d) (ht : d.type ≠ 0) :
    c''.node e = update (c.node e) (c.inode i).inum (some (d.node c'.data)) := by
  funext n
  show nodeAt e c''.dinode c''.data n = _
  rw [hdata, hT, update_apply]
  split
  · next hn =>
    rw [hn]
    apply (nodeAt_live (h.copy i hi).inum_lt (by rw [update_self]; exact ht)).trans
    rw [update_self]
  · next hn =>
    refine nodeAt_frame (update_of_ne hn _ _) fun x b hb => hw.others n x b hn ?_
    rw [Sound.tbl_eq h hi]
    exact hb

lemma Wrote.full (ht : (c.inode i).d.type ≠ T_DEV)
    (hw : Fs.Wrote e i off (off + src.length) f c c') (hoff : off ≤ (c.inode i).d.size)
    (hlen : 0 < src.length) (bn : Fin MAXFILE) (hbn : bn * BSIZE < off + src.length) :
    ∃ b, own e (c'.tbl i) c'.data (.inode (c'.inode i).inum (spot bn)) = some b := by
  refine ⟨_, (own_spot hw.grown.sound (hw.grown.held hi)).mpr ⟨rfl, ?_⟩⟩
  apply (hw.spots bn bn.isLt).mpr
  by_cases hbo : off / BSIZE ≤ bn.val
  · exact .inr ⟨by omega, hbo, hbn⟩
  · -- a block below the old size
    left
    have hdiv : bn.val * BSIZE / BSIZE = bn.val := Nat.mul_div_cancel _ (by decide)
    have hlt : bn.val * BSIZE < (c.inode i).d.size := by
      show bn.val * 512 < (c.inode i).d.size
      replace hbo : ¬ off / 512 ≤ bn.val := hbo
      omega
    have hne := blockOf_full h hi ht hlt (by rw [hdiv]; exact bn.isLt)
    rw [hdiv] at hne
    exact hne

/-- **A write keeps the owners**, writes the bytes of the node, and a block that it adds is recorded
on the disk. -/
theorem does_writei (hn : src.length < 2 ^ 32) :
    Does (writei e i src off) (fun r c' => Inv e c' ∧ Keeps c c' ∧ WriteEnd e i src off c r c') c := by
  have hk : Keeps c c := .of_eq rfl
  have hc := h.copy i hi
  unfold writei
  refine does_get (does_ite (fun hdev => ?_) fun ht => ?_)
  · refine does_ite (fun _ => does_pure ⟨h, hk, .same (.inl hdev)⟩) fun _ => ?_
    split <;> exact does_pure ⟨h, hk, .same (.inl hdev)⟩
  · refine does_ite (fun _ => does_pure ⟨h, hk, .same (.inr rfl)⟩) fun hlt => ?_
    refine does_ite (fun _ => does_pure ⟨h, hk, .same (.inr rfl)⟩) fun hmax => ?_
    have hoff : off ≤ (c.inode i).d.size := Nat.le_of_not_lt (not_or.mp hlt).1
    rw [no_wrap hn (not_or.mp hlt).2] at hmax
    replace hmax := Nat.le_of_not_lt hmax
    have htbl := Sound.tbl_eq h hi
    have h0 : Sound e (c.tbl i) c := by rw [htbl]; exact h
    have hloop := does_writeLoop _ h0 hi src off (Nat.le_refl _)
    by_cases hs : off + src.length ≤ (c.inode i).d.size
    · refine ((does_writeLoop_within _ h hi ht src off (Nat.le_refl _) hs).and hloop).seq
        fun off' c' ⟨⟨h', ho, hin, hu⟩, _, hw⟩ => does_get (does_ite (fun hgt => ?_) fun _ => ?_)
      · rw [hin] at hgt
        omega
      · have hT : c'.dinode = update c.dinode (c.inode i).inum (c'.inode i).d := by
          rw [hw.grown.dinode, hin, hc.same, update_eq_self]
        have hnode := hw.node_update h hi rfl hT (by rw [hin]; exact hc.type_ne)
        refine does_pure ⟨h', .of_eq hin, .wrote ht hoff hmax hnode (hw.node h hi ht hoff ?_) (.inl hu)⟩
        rw [hin, Nat.max_eq_left hs]
    · refine hloop.seq fun off' c' ⟨ho, hw⟩ => does_get ?_
      have hg := hw.grown
      obtain ⟨f, hf⟩ := hg.self
      refine does_ite (fun hgt => ?_) fun hgt => ?_
      · have hup := does_update (d := { (c'.inode i).d with size := off' }) hg.sound (hg.held hi) rfl rfl
          fun _ bn hbn => hw.full h hi ht hoff hgt.1 bn (by rw [← ho]; exact hbn)
        refine does_modify_seq ((hup.and (does_iupdate i)).seq
          fun _ c'' ⟨⟨h'', hk'⟩, hc''⟩ => does_pure ⟨h'', hg.keeps.trans hk', ?_⟩)
        generalize hd : ({ (c'.inode i).d with size := off' } : Dinode) = d at hc''
        have hT : c''.dinode = update c.dinode (c.inode i).inum d := by
          rw [hc'']
          show update c'.dinode ((c'.setCopy i d).inode i).inum ((c'.setCopy i d).inode i).d = _
          rw [c'.setCopy_self, hg.dinode, ← hg.inum]
        have hty : d.type ≠ 0 := by rw [← hd, hf]; exact hc.type_ne
        have hnode := hw.node_update h hi (by rw [hc'']; rfl) hT hty
        have hmx : max (c.inode i).d.size (off + src.length) = off' := by omega
        have hsize : d.size = off' := by rw [← hd]
        refine .wrote ht hoff hmax hnode (hw.node h hi ht hoff (by rw [hmx, hd])) (.inr ?_)
        show (c.inode i).d.size < d.size
        omega
      · rw [hf] at hgt
        have : ¬ (0 < src.length ∧ (c.inode i).d.size < off') := hgt
        omega

end

end Xv6.Fs
