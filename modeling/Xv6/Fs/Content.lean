import Xv6.Fs.Node

/-!
# The content of a file: `bmap` and `readi`

A new block goes to an empty spot of the inode (`Core.newAddr`, `Core.newEntry`); nothing else
changes its owner. `Grown i c c'` collects what `bmap` does to the owners, `Adds` what it does to the
blocks. In a file without holes `readi` finds all its blocks there, and returns the bytes of the
node.
-/

namespace Xv6.Fs
open Lib Function List

/-- the new block `a` becomes the address `k` of `i`. -/
def Core.newAddr (c : Core) (i : Ip) (k : Fin (NDIRECT + 1)) (a : Nat) : Core :=
  ((c.setUsed a true).setData a fun _ => 0).setAddr i k a

/-- the new block `a` becomes the entry `j` of the indirect block `b`. -/
def Core.newEntry (c : Core) (b j a : Nat) : Core :=
  let c := (c.setUsed a true).setData a fun _ => 0
  c.setData b (setWord (c.data b) j a)

variable {e : Env} {T T' : Nat → Dinode} {c c' : Core} {i : Ip} {n a b : Nat} {k : Fin (NDIRECT + 1)}
  {j : Fin NINDIRECT}

/-! ## a new block -/

lemma Sound.grow (h : Sound e T c) (ha : a < e.size) (hu : c.used a = false) {p : Place}
    (hp : own e T c.data p = none)
    (hown : ∀ q, own e T' c'.data q = if q = p then some a else own e T c.data q)
    (hused : c'.used = update c.used a true)
    (hT : ∀ n, (T' n).type = (T n).type ∧ (T' n).size = (T n).size)
    (hcopy : ∀ i, c'.Held i → Copy e T' (c'.inode i))
    (hapart : ∀ i j, 0 < (c'.inode i).ref → 0 < (c'.inode j).ref →
      (c'.inode i).inum = (c'.inode j).inum → i = j) : Sound e T' c' := by
  refine ⟨h.owns.alloc ha hu hp hown fun x => ?_, fun n bn hn ht hd hs => ?_, hcopy, hapart⟩
  · rw [hused, update_apply]
  · rw [(hT n).1] at ht hd
    rw [(hT n).2] at hs
    obtain ⟨b, hb⟩ := h.full n bn hn ht hd hs
    refine ⟨b, ?_⟩
    rw [hown, if_neg, hb]
    intro hq
    rw [hq, hp] at hb
    cases hb

lemma Sound.fresh (h : Sound e T c) (hu : c.used a = false) (n : Nat) :
    ∀ b, own e T c.data (.inode n .indirect) = some b → update c.data a (fun _ => 0) b = c.data b :=
  data_update_of_ne (h.owns.not_owned hu _)

lemma block_setAddr {d : Dinode} {data : Nat → Block} (ha : a ≠ 0) (h0 : d.addrs k = 0)
    (hne : d.addrs (Fin.last NDIRECT) ≠ a) :
    (d.setAddr k a).block (update data a fun _ => 0) (.entry j) = d.block data (.entry j) := by
  by_cases hk : Fin.last NDIRECT = k
  · have hs : (d.setAddr k a).addrs (Fin.last NDIRECT) = a := by
      rw [hk]
      exact update_self _ _ _
    rw [block_entry (by rw [hs]; exact ha), hs, update_self, word_zero, block_entry_none (by rw [hk]; exact h0)]
  · have hs : (d.setAddr k a).addrs (Fin.last NDIRECT) = d.addrs (Fin.last NDIRECT) :=
      update_of_ne hk _ _
    by_cases hz : d.addrs (Fin.last NDIRECT) = 0
    · rw [block_entry_none hz, block_entry_none (hs.trans hz)]
    · rw [block_entry hz, block_entry (by rw [hs]; exact hz), hs, update_of_ne hne]

lemma own_newAddr (h : Sound e T c) (hi : c.Held i) (hu : c.used a = false)
    (h0 : (c.inode i).d.addrs k = 0) (q : Place) :
    own e (update T (c.inode i).inum ((c.inode i).d.setAddr k a)) (c.newAddr i k a).data q =
      if q = .inode (c.inode i).inum (.addr k) then some a else own e T c.data q := by
  have hc := h.copy i hi
  have ha := h.ne_zero_of_free hu
  cases q with
  | fixed => rw [if_neg (by simp)]; rfl
  | inode n x =>
    by_cases hn : n = (c.inode i).inum
    · have hnew : Copy e (update T (c.inode i).inum ((c.inode i).d.setAddr k a))
          { c.inode i with d := (c.inode i).d.setAddr k a } := by
        refine ⟨hc.inum_lt, ?_, hc.type_ne⟩
        rw [update_self]
      have hlive : own e (update T (c.inode i).inum ((c.inode i).d.setAddr k a))
          (c.newAddr i k a).data (.inode (c.inode i).inum x) = _ := hnew.own_eq x
      rw [hn, hc.own_eq, hlive]
      cases x with
      | addr k' =>
        show nz (update (c.inode i).d.addrs k a k') = if _ then _ else nz _
        by_cases hk : k' = k
        · rw [hk, update_self, if_pos rfl]
          exact if_neg ha
        · rw [update_of_ne hk, if_neg (by simp [hk])]
          rfl
      | entry =>
        rw [if_neg (by simp)]
        refine congrArg nz (block_setAddr ha h0 fun hla => ?_)
        apply h.owns.not_owned hu (.inode (c.inode i).inum .indirect)
        rw [hc.own_eq]
        exact nz_eq_some.mpr ⟨hla, ha⟩
    · rw [if_neg (by simp [hn])]
      exact own_frame (update_of_ne hn _ _) (h.fresh hu n)

lemma own_newEntry (h : Sound e T c) (hi : c.Held i) (ha : a < e.size)
    (hu : c.used a = false) (hb : (c.inode i).d.addrs (Fin.last NDIRECT) = b) (hb0 : b ≠ 0)
    (q : Place) : own e T (c.newEntry b j a).data q =
      if q = .inode (c.inode i).inum (.entry j) then some a else own e T c.data q := by
  have hc := h.copy i hi
  have ho : own e T c.data (.inode (c.inode i).inum .indirect) = some b := by
    rw [hc.own_eq]
    exact nz_eq_some.mpr ⟨hb, hb0⟩
  have hab : b ≠ a := by
    intro hab
    rw [hab] at ho
    exact h.owns.not_owned hu _ ho
  have hdata : ∀ x, (c.newEntry b j a).data x =
      if x = b then setWord (c.data b) j a else if x = a then fun _ => 0 else c.data x := by
    intro x
    show update (update c.data a fun _ => 0) b (setWord (update c.data a (fun _ => 0) b) j a) x = _
    rw [update_apply, update_of_ne hab, update_apply]
  cases q with
  | fixed => rw [if_neg (by simp)]; rfl
  | inode n x =>
    by_cases hn : n = (c.inode i).inum
    · rw [hn, hc.own_eq, hc.own_eq]
      cases x with
      | addr => rw [if_neg (by simp)]; rfl
      | entry j' =>
        rw [block_entry (hb ▸ hb0), block_entry (hb ▸ hb0), hb, hdata, if_pos rfl]
        by_cases hj : j' = j
        · rw [hj, if_pos rfl, word_setWord_same _ _ j.isLt, Nat.mod_eq_of_lt]
          · exact if_neg (h.ne_zero_of_free hu)
          · exact Nat.lt_trans ha e.size_lt
        · rw [if_neg (by simp [hj]), word_setWord_ne]
          intro hv
          exact hj (Fin.ext hv.symm)
    · rw [if_neg (by simp [hn])]
      refine own_frame rfl fun x hx => ?_
      rw [hdata, if_neg, if_neg]
      · intro hxa
        rw [hxa] at hx
        exact h.owns.not_owned hu _ hx
      · intro hxb
        rw [hxb] at hx
        exact hn (Place.inode.inj (h.owns.one _ _ _ hx ho)).1

/-! ## `bmap` -/

/-- `i` has got more blocks, in memory and in its indirect block. -/
structure Grown (e : Env) (i : Ip) (c c' : Core) : Prop where
  sound : Sound e (c'.tbl i) c'
  dinode : c'.dinode = c.dinode
  others : ∀ j, j ≠ i → c'.inode j = c.inode j
  self : ∃ f, c'.inode i = { c.inode i with d := { (c.inode i).d with addrs := f } }
  more : ∀ p b, own e (c.tbl i) c.data p = some b → own e (c'.tbl i) c'.data p = some b

namespace Grown

lemma refl (h : Sound e (c.tbl i) c) : Grown e i c c :=
  ⟨h, rfl, fun _ _ => rfl, ⟨_, rfl⟩, fun _ _ hp => hp⟩

lemma trans {c'' : Core} (h : Grown e i c c') (h' : Grown e i c' c'') : Grown e i c c'' := by
  refine ⟨h'.sound, h'.dinode.trans h.dinode, fun j hj => (h'.others j hj).trans (h.others j hj), ?_,
    fun p b hp => h'.more p b (h.more p b hp)⟩
  obtain ⟨f, hf⟩ := h.self
  obtain ⟨f', hf'⟩ := h'.self
  exact ⟨f', by rw [hf', hf]⟩

lemma held (h : Grown e i c c') (hi : c.Held i) : c'.Held i := by
  obtain ⟨f, hf⟩ := h.self
  exact ⟨by rw [hf]; exact hi.ref, by rw [hf]; exact hi.valid⟩

lemma inum (h : Grown e i c c') : (c'.inode i).inum = (c.inode i).inum := by
  obtain ⟨f, hf⟩ := h.self
  rw [hf]

end Grown

lemma tbl_setCopy (c : Core) (i : Ip) (d : Dinode) : (c.setCopy i d).tbl i = update (c.tbl i) (c.inode i).inum d := by
  have hs := c.setCopy_self i d
  unfold Core.tbl
  rw [hs]
  exact (update_idem _ _ _).symm

lemma tbl_self (c : Core) (i : Ip) : c.tbl i (c.inode i).inum = (c.inode i).d :=
  update_self _ _ _

section
variable (h : Sound e (c.tbl i) c) (hi : c.Held i) (ha : a < e.size) (hu : c.used a = false)
include h hi ha hu

lemma Grown.newAddr (h0 : (c.inode i).d.addrs k = 0) : Grown e i c (c.newAddr i k a) := by
  have htbl : (c.newAddr i k a).tbl i =
      update (c.tbl i) (c.inode i).inum ((c.inode i).d.setAddr k a) := tbl_setCopy c i _
  have hown := own_newAddr h hi hu h0
  have hp : own e (c.tbl i) c.data (.inode (c.inode i).inum (.addr k)) = none := by
    rw [(h.copy i hi).own_eq]
    exact if_pos h0
  rw [← htbl] at hown
  refine ⟨h.grow ha hu hp hown rfl (fun n => ?_) (fun j hj => ?_)
    (h.aparts ((c.inode i).d.setAddr k a)), rfl, fun j hj => c.setCopy_of_ne _ hj, ⟨_, c.setCopy_self i _⟩,
    ?_⟩
  · rw [htbl, update_apply]
    split
    · next hn =>
      rw [hn, tbl_self]
      exact ⟨rfl, rfl⟩
    · exact ⟨rfl, rfl⟩
  · rw [htbl]
    exact h.copies (d := (c.inode i).d.setAddr k a) hi (h.copy i hi).type_ne ⟨hj.ref, hj.valid⟩
  · intro q b hq
    rw [hown, if_neg, hq]
    intro hqp
    rw [hqp, hp] at hq
    cases hq

lemma Grown.newEntry (hb : (c.inode i).d.addrs (Fin.last NDIRECT) = b)
    (hb0 : b ≠ 0) (h0 : word (c.data b) j = 0) : Grown e i c (c.newEntry b j a) ∧
      own e (c.tbl i) (c.newEntry b j a).data (.inode (c.inode i).inum (.entry j)) = some a := by
  have hown := own_newEntry h hi (j := j) ha hu hb hb0
  have hp : own e (c.tbl i) c.data (.inode (c.inode i).inum (.entry j)) = none := by
    rw [(h.copy i hi).own_eq, block_entry (by rw [hb]; exact hb0), hb]
    exact if_pos h0
  refine ⟨⟨h.grow ha hu hp hown rfl (fun n => ⟨rfl, rfl⟩) (fun j hj => h.copy j ⟨hj.ref, hj.valid⟩)
    h.apart, rfl, fun j hj => rfl, ⟨_, rfl⟩, ?_⟩, ?_⟩
  · intro q x hq
    show own e (c.tbl i) _ q = _
    rw [hown, if_neg, hq]
    intro hqp
    rw [hqp, hp] at hq
    cases hq
  · rw [hown, if_pos rfl]

end

/-- besides, the places outside `S` got nothing, and of the blocks that were there only the indirect
block of `i` has changed. -/
structure Adds (e : Env) (i : Ip) (S : Place → Prop) (c c' : Core) : Prop where
  grown : Grown e i c c'
  kept : ∀ q b, q ≠ .inode (c.inode i).inum .indirect → own e (c.tbl i) c.data q = some b → c'.data b = c.data b
  only : ∀ q b, own e (c'.tbl i) c'.data q = some b → own e (c.tbl i) c.data q = some b ∨ S q

namespace Adds
variable {S S' : Place → Prop}

lemma refl (h : Sound e (c.tbl i) c) : Adds e i S c c :=
  ⟨.refl h, fun _ _ _ _ => rfl, fun _ _ hq => .inl hq⟩

lemma mono (h : Adds e i S c c') (hS : ∀ q, S q → S' q) : Adds e i S' c c' :=
  ⟨h.grown, h.kept, fun q b hq => (h.only q b hq).imp_right (hS q)⟩

lemma trans {c'' : Core} (h : Adds e i S c c') (h' : Adds e i S c' c'') : Adds e i S c c'' := by
  refine ⟨h.grown.trans h'.grown, fun q b hq hb => ?_, fun q b hq => ?_⟩
  · have hq' : q ≠ .inode (c'.inode i).inum .indirect := by rw [h.grown.inum]; exact hq
    rw [h'.kept q b hq' (h.grown.more q b hb), h.kept q b hq hb]
  · rcases h'.only q b hq with hq | hq
    · exact h.only q b hq
    · exact .inr hq

section
variable (h : Sound e (c.tbl i) c) (hi : c.Held i) (ha : a < e.size) (hu : c.used a = false)
include h hi ha hu

lemma newAddr
    (h0 : (c.inode i).d.addrs k = 0) :
    Adds e i (· = .inode (c.inode i).inum (.addr k)) c (c.newAddr i k a) := by
  have htbl : (c.newAddr i k a).tbl i =
      update (c.tbl i) (c.inode i).inum ((c.inode i).d.setAddr k a) := tbl_setCopy c i _
  refine ⟨.newAddr h hi ha hu h0, fun q b _ hb => update_of_ne ?_ _ _, fun q b hq => ?_⟩
  · intro hba
    rw [hba] at hb
    exact h.owns.not_owned hu q hb
  · rw [htbl, own_newAddr h hi hu h0] at hq
    split at hq
    · next hqp => exact .inr hqp
    · exact .inl hq

lemma newEntry (hb : (c.inode i).d.addrs (Fin.last NDIRECT) = b) (hb0 : b ≠ 0)
    (h0 : word (c.data b) j = 0) :
    Adds e i (· = .inode (c.inode i).inum (.entry j)) c (c.newEntry b j a) ∧
      own e (c.tbl i) (c.newEntry b j a).data (.inode (c.inode i).inum (.entry j)) = some a := by
  have hnew := Grown.newEntry h hi ha hu hb hb0 h0
  refine ⟨⟨hnew.1, fun q x hq hx => ?_, fun q x hq => ?_⟩, hnew.2⟩
  · have hxa : x ≠ a := fun hxa => h.owns.not_owned hu q (hxa ▸ hx)
    have hxb : x ≠ b := by
      intro hxb
      have ho : own e (c.tbl i) c.data (.inode (c.inode i).inum .indirect) = some b := by
        rw [(h.copy i hi).own_eq]
        exact nz_eq_some.mpr ⟨hb, hb0⟩
      rw [hxb] at hx
      exact hq (h.owns.one _ _ _ hx ho)
    show update (update c.data a fun _ => 0) b _ x = c.data x
    rw [update_of_ne hxb, update_of_ne hxa]
  · have htbl : (c.newEntry b j a).tbl i = c.tbl i := rfl
    rw [htbl, own_newEntry h hi ha hu hb hb0] at hq
    split at hq
    · next hqp => exact .inr hqp
    · exact .inl hq

end

end Adds

variable {E : Stop → Prop} {bn off : Nat} {d : Dinode} {data : Nat → Block}

lemma does_bmapAddr (h : Sound e (c.tbl i) c) (hi : c.Held i) :
    Does (bmapAddr e i k) (fun b c' => Adds e i (· = .inode (c.inode i).inum (.addr k)) c c' ∧
      b ≠ 0 ∧ (c'.inode i).d.addrs k = b) c := by
  unfold bmapAddr
  refine does_get (does_ite (fun h0 => ?_) fun h0 => does_pure ⟨.refl h, h0, rfl⟩)
  refine does_balloc.seq fun a c' ⟨ha, hu, hc⟩ => does_modify_seq (does_pure ?_)
  rw [hc]
  refine ⟨.newAddr h hi ha hu h0, h.ne_zero_of_free hu, ?_⟩
  rw [Core.setAddr, Core.setCopy_self]
  exact update_self _ _ _

lemma does_bmapEntry (h : Sound e (c.tbl i) c) (hi : c.Held i)
    (hb : (c.inode i).d.addrs (Fin.last NDIRECT) = b) (hb0 : b ≠ 0) :
    Does (bmapEntry e b j) (fun x c' => Adds e i (· = .inode (c.inode i).inum (.entry j)) c c' ∧
      own e (c'.tbl i) c'.data (.inode (c.inode i).inum (.entry j)) = some x) c := by
  unfold bmapEntry
  refine (does_bread b).seq fun x c' ⟨_, hx, hc⟩ => ?_
  rw [hx, hc]
  refine does_ite (fun h0 => ?_) fun h0 => does_pure ⟨.refl h, ?_⟩
  · refine does_balloc.seq fun a c' ⟨ha, hu, hc⟩ => does_modify_seq ?_
    refine (does_logWrite b).seq fun _ _ hc' => does_pure ?_
    rw [hc', hc]
    exact Adds.newEntry h hi ha hu hb hb0 h0
  · rw [(h.copy i hi).own_eq, block_entry (by rw [hb]; exact hb0), hb]
    exact if_neg h0

/-- the place of the block `m` of the content, and the place of the indirect block. -/
def Mapped (n : Nat) (m : Fin MAXFILE) (q : Place) : Prop :=
  q = .inode n (spot m) ∨ q = .inode n .indirect

lemma does_bmap (h : Sound e (c.tbl i) c) (hi : c.Held i) (bn : Nat) :
    Does (bmap e i bn) (fun b c' => ∃ m : Fin MAXFILE, m.val = bn ∧
      Adds e i (Mapped (c.inode i).inum m) c c' ∧
      own e (c'.tbl i) c'.data (.inode (c.inode i).inum (spot m)) = some b) c := by
  unfold bmap
  split
  · next hd =>
    obtain ⟨m, hm, hs⟩ := spot_direct hd
    refine (does_bmapAddr h hi).mono fun b c' ⟨hg, hb0, hb⟩ => ⟨m, hm, hg.mono fun q hq => ?_, ?_⟩
    · rw [hq, ← hs]
      exact .inl rfl
    · rw [hs, ← hg.grown.inum, (hg.grown.sound.copy i (hg.grown.held hi)).own_eq]
      show nz ((c'.inode i).d.addrs _) = _
      rw [hb]
      exact if_neg hb0
  · next hd =>
    refine does_ite (fun hj => ?_) fun _ => does_throw (by decide)
    obtain ⟨m, hm, hs⟩ := spot_entry hd hj
    refine (does_bmapAddr h hi).seq fun b c' ⟨hg, hb0, hb⟩ => ?_
    refine (does_bmapEntry hg.grown.sound (hg.grown.held hi) (j := ⟨bn - NDIRECT, hj⟩) hb hb0).mono
      fun x c'' ⟨hg', hx⟩ => ⟨m, hm, ?_, ?_⟩
    · have h1 : Adds e i (Mapped (c.inode i).inum m) c c' := hg.mono fun q hq => .inr hq
      refine h1.trans (hg'.mono fun q hq => ?_)
      rw [hq, ← hs, hg.grown.inum]
      exact .inl rfl
    · rw [hs, ← hg.grown.inum]
      exact hx

/-- a failure of `bmap` for its index is allowed, or the file is not too large. -/
def InRange (E : Stop → Prop) (d : Dinode) : Prop :=
  E (.panic "bmap: out of range") ∨ d.size ≤ MAXFILE * BSIZE

/-- the blocks below the size are there, and can be read. -/
structure Readable (e : Env) (d : Dinode) (data : Nat → Block) : Prop where
  there : ∀ bn, bn < MAXFILE → bn * BSIZE < d.size → d.blockOf data bn ≠ 0
  inside : ∀ x, d.block data x ≠ 0 → e.nmeta ≤ d.block data x ∧ d.block data x < e.size

lemma Sound.readable (h : Inv e c) (hi : c.Held i) (ht : (c.inode i).d.type ≠ T_DEV) :
    Readable e (c.inode i).d c.data := by
  have hc := h.copy i hi
  have hown : ∀ x, own e c.dinode c.data (.inode (c.inode i).inum x) = nz ((c.inode i).d.block c.data x) := hc.own_eq
  refine ⟨fun bn hbn hs => ?_, fun x hx => h.inside ((hown x).trans (if_neg hx))⟩
  have hty := hc.type_ne
  rw [hc.same] at hs ht hty
  obtain ⟨b, hb⟩ := h.full _ ⟨bn, hbn⟩ hc.inum_lt hty ht hs
  rw [hown, nz_eq_some] at hb
  rw [blockOf_lt hbn, hb.1]
  exact hb.2

lemma does_bmap_there (h : Readable e (c.inode i).d c.data) (hr : InRange E (c.inode i).d)
    (hs : bn * BSIZE < (c.inode i).d.size) :
    Runs E (bmap e i bn) (fun b c' => c' = c ∧ b = (c.inode i).d.blockOf c.data bn ∧ b ≠ 0 ∧ bn < MAXFILE) c := by
  have result : ∀ m : Fin MAXFILE, m.val = bn → ∀ b, b = (c.inode i).d.block c.data (spot m) →
      b = (c.inode i).d.blockOf c.data bn ∧ b ≠ 0 ∧ bn < MAXFILE := by
    rintro m rfl b rfl
    have hne := h.there m m.isLt hs
    rw [blockOf_lt m.isLt] at hne ⊢
    exact ⟨rfl, hne, m.isLt⟩
  unfold bmap
  split
  · next hd =>
    obtain ⟨m, hm, hsp⟩ := spot_direct hd
    have hr := result m hm _ rfl
    rw [hsp] at hr
    unfold bmapAddr
    exact does_get (does_ite (fun h0 => absurd h0 hr.2.1) fun _ => does_pure ⟨rfl, hr⟩)
  · next hd =>
    refine does_ite (fun hj => ?_) fun hj => ?_
    on_goal 2 =>
      rcases hr with hr | hr
      · exact does_throw hr
      · have hlt : bn * BSIZE < MAXFILE * BSIZE := Nat.lt_of_lt_of_le hs hr
        replace hlt : bn < NDIRECT + NINDIRECT := Nat.lt_of_mul_lt_mul_right hlt
        exact absurd (Nat.sub_lt_left_of_lt_add (Nat.le_of_not_lt hd) hlt) hj
    obtain ⟨m, hm, hsp⟩ := spot_entry hd hj
    have hr := result m hm _ rfl
    rw [hsp] at hr
    have hl : (c.inode i).d.addrs (Fin.last NDIRECT) ≠ 0 := fun h0 => hr.2.1 (block_entry_none h0)
    rw [block_entry hl] at hr
    have hfirst : Runs E (bmapAddr e i (Fin.last NDIRECT))
        (fun x c' => x = (c.inode i).d.addrs (Fin.last NDIRECT) ∧ c' = c) c := by
      unfold bmapAddr
      exact does_get (does_ite (fun h0 => absurd h0 hl) fun _ => does_pure ⟨rfl, rfl⟩)
    refine hfirst.seq fun x c' ⟨hx, hc'⟩ => ?_
    rw [hx, hc']
    unfold bmapEntry
    obtain ⟨h1, h2⟩ := h.inside .indirect hl
    refine (does_bread_data h1 h2).seq fun y c' ⟨hy, hc'⟩ => ?_
    rw [hy, hc']
    exact does_ite (fun h0 => absurd h0 hr.2.1) fun _ => does_pure ⟨rfl, hr⟩

lemma does_bmap_full (h : Inv e c) (hi : c.Held i) (ht : (c.inode i).d.type ≠ T_DEV)
    (hr : InRange E (c.inode i).d) (hs : bn * BSIZE < (c.inode i).d.size) :
    Runs E (bmap e i bn) (fun b c' => c' = c ∧ b = (c.inode i).d.blockOf c.data bn ∧ b ≠ 0 ∧
      ∃ m : Fin MAXFILE, own e c.dinode c.data (.inode (c.inode i).inum (spot m)) = some b) c := by
  refine (does_bmap_there (h.readable hi ht) hr hs).mono fun b c' ⟨hc, hb, hb0, hlt⟩ => ⟨hc, hb, hb0, ⟨bn, hlt⟩, ?_⟩
  rw [(h.copy i hi).own_eq]
  rw [blockOf_lt hlt] at hb
  exact nz_eq_some.mpr ⟨hb.symm, hb0⟩

/-! ## `readi` -/

lemma div_mul_lt {size : Nat} (h : off < size) : off / BSIZE * BSIZE < size :=
  Nat.lt_of_le_of_lt (Nat.div_mul_le_self off BSIZE) h

lemma div_mod_add {k : Nat} (hk : k < BSIZE - off % BSIZE) :
    (off + k) / BSIZE = off / BSIZE ∧ (off + k) % BSIZE = off % BSIZE + k := by
  replace hk : k < 512 - off % 512 := hk
  show (off + k) / 512 = off / 512 ∧ (off + k) % 512 = off % 512 + k
  omega

/-- `n` bytes of the content from `off` on. -/
def Dinode.read (d : Dinode) (data : Nat → Block) (off n : Nat) : List UInt8 :=
  (range n).map fun k => d.byteAt data (off + k)

lemma slice_eq_read {m : Nat}
    (h0 : d.blockOf data (off / BSIZE) ≠ 0) (hm : m ≤ BSIZE - off % BSIZE) :
    slice (data (d.blockOf data (off / BSIZE))) (off % BSIZE) m = d.read data off m := by
  unfold slice Dinode.read
  apply map_congr_left
  intro k hk
  have hk' : k < BSIZE - off % BSIZE := Nat.lt_of_lt_of_le (mem_range.mp hk) hm
  obtain ⟨h1, h2⟩ := div_mod_add hk'
  rw [byteAt_some (by rw [h1]; exact h0), h1, h2]

lemma read_append (off m n : Nat) : d.read data off m ++ d.read data (off + m) n = d.read data off (m + n) := by
  unfold Dinode.read
  rw [range_add, map_append, map_map]
  congr 1
  apply map_congr_left
  intro k _
  rw [Nat.add_assoc]
  rfl

lemma does_readLoop (h : Readable e (c.inode i).d c.data) (hr : InRange E (c.inode i).d)
    (fuel : Nat) : ∀ n off, n ≤ fuel → off + n ≤ (c.inode i).d.size →
    Runs E (readLoop e i fuel n off) (fun l c' => l = (c.inode i).d.read c.data off n ∧ c' = c) c := by
  induction fuel with
  | zero =>
    intro n off hn _
    rw [Nat.le_zero.mp hn]
    exact does_pure ⟨rfl, rfl⟩
  | succ fuel ih =>
    intro n off hf hs
    refine does_ite (fun hn => does_pure ⟨by rw [hn]; rfl, rfl⟩) fun hn => ?_
    have hlt : off < (c.inode i).d.size := by omega
    refine (does_bmap_there h hr (div_mul_lt hlt)).seq fun b c' ⟨hc, hb, hb0, hbn⟩ => ?_
    rw [hc]
    have hin : e.nmeta ≤ b ∧ b < e.size := by
      rw [hb, blockOf_lt hbn] at hb0 ⊢
      exact h.inside _ hb0
    refine (does_bread_data hin.1 hin.2).seq fun x c' ⟨hx, hc⟩ => ?_
    rw [hc]
    have hpos : 0 < BSIZE - off % BSIZE := Nat.sub_pos_of_lt (Nat.mod_lt off (by decide))
    generalize hm : min n (BSIZE - off % BSIZE) = m
    refine (ih (n - m) (off + m) (by omega) (by omega)).seq fun l c' ⟨hl, hc⟩ => does_pure ⟨?_, hc⟩
    rw [hb] at hb0 hx
    rw [hx, hl, slice_eq_read hb0 (by omega), read_append]
    congr 1
    omega

/-- what `readi` returns of a file or a directory. -/
def Node.readi (x : Node) (off n : Nat) : Option (List UInt8) :=
  if x.d.size < off ∨ (off + n) % 2 ^ 32 < off then none
  else some ((range (min n (x.d.size - off))).map fun k => x.bytes (off + k))

lemma read_eq_bytes {n : Nat} (h : off + n ≤ d.size) :
    d.read data off n = (range n).map fun k => (d.node data).bytes (off + k) := by
  apply map_congr_left
  intro k hk
  have := mem_range.mp hk
  exact (if_pos (by omega)).symm

lemma no_wrap {n : Nat} (hn : n < 2 ^ 32) (h : ¬ (off + n) % 2 ^ 32 < off) : (off + n) % 2 ^ 32 = off + n := by
  have h1 := Nat.mod_lt (off + n) (y := 2 ^ 32) (by decide)
  have h2 := Nat.mod_add_div (off + n) (2 ^ 32)
  omega

lemma does_readi_there (h : Readable e (c.inode i).d c.data) (ht : (c.inode i).d.type ≠ T_DEV)
    (hr : InRange E (c.inode i).d) (hn : n < 2 ^ 32) :
    Runs E (readi e i off n) (fun r c' => c' = c ∧ r = ((c.inode i).d.node c.data).readi off n) c := by
  unfold readi
  refine does_get (does_ite (fun hdev => absurd hdev ht) fun _ => ?_)
  refine does_ite (fun hlt => does_pure ⟨rfl, (if_pos hlt).symm⟩) fun hlt => ?_
  have hw := no_wrap hn (not_or.mp hlt).2
  have hoff : off ≤ (c.inode i).d.size := Nat.le_of_not_lt (not_or.mp hlt).1
  have hmin : (if (c.inode i).d.size < (off + n) % 2 ^ 32 then (c.inode i).d.size - off else n) =
      min n ((c.inode i).d.size - off) := by
    rw [hw]
    split <;> omega
  rw [hmin]
  refine (does_readLoop h hr _ _ off (Nat.le_refl _) (by omega)).seq fun l c' ⟨hl, hc⟩ => does_pure ⟨hc, ?_⟩
  rw [hl, read_eq_bytes (by omega)]
  exact (if_neg hlt).symm

/-- **A read changes nothing**, and returns the bytes of the node. -/
theorem does_readi (h : Inv e c) (hi : c.Held i) (hr : InRange E (c.inode i).d) (hn : n < 2 ^ 32) :
    Runs E (readi e i off n) (fun r c' => c' = c ∧ ((c.inode i).d.type ≠ T_DEV →
      r = ((c.inode i).d.node c.data).readi off n)) c := by
  by_cases hdev : (c.inode i).d.type = T_DEV
  · have hno : ∀ r : Option (List UInt8), (c.inode i).d.type ≠ T_DEV →
        r = ((c.inode i).d.node c.data).readi off n := fun _ hne => absurd hdev hne
    unfold readi
    refine does_get (does_ite (fun _ => ?_) fun hne => absurd hdev hne)
    refine does_ite (fun _ => does_pure ⟨rfl, hno _⟩) fun _ => ?_
    split <;> exact does_pure ⟨rfl, hno _⟩
  · exact (does_readi_there (h.readable hi hdev) hdev hr hn).mono fun r c' ⟨hc, hr⟩ => ⟨hc, fun _ => hr⟩

end Xv6.Fs
