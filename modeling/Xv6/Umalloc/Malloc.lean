import Xv6.Umalloc.Free

/-!
# One call of `free`, `morecore` and `malloc`

`Ok base h F A`: `F` are the free blocks, in the order of the circular list, and `A` the allocated ones. `free` of a
block of `A` gives `insert b F`; `morecore` adds a block and frees it; the loop of `malloc` finds a block that is big
enough, if there is one, and with the block of `morecore` there is one.
-/

namespace Xv6.Umalloc
open Lib Function List

variable {base n k q x nu nunits : Nat} {mem : Nat → Header} {F G A B : List Block} {b c f : Block} {h h' : Heap}
  {p : Nat} {r : Heap × Nat}

/-- a block in the memory that `sbrk` has returned. -/
structure Good (base top : Nat) (b : Block) : Prop where
  pos : 0 < b.size
  low : base + 8 ≤ b.addr
  high : b.limit ≤ top
  align : b.addr % 8 = 0

lemma joins_good {top : Nat} : Joins (Good base top) := by
  intro b c hb hc hl
  refine ⟨Nat.add_pos_left hb.pos _, hb.low, ?_, hb.align⟩
  rw [limit_join hl]
  exact hc.high

lemma Good.mono {top top' : Nat} (hb : Good base top b) (ht : top ≤ top') : Good base top' b :=
  ⟨hb.pos, hb.low, Nat.le_trans hb.high ht, hb.align⟩

structure Ok (base : Nat) (h : Heap) (F A : List Block) : Prop where
  ring : Ring base h.mem F
  freep : h.freep ∈ base :: F.map Block.addr
  apart : Apart F
  clear : ∀ b ∈ F, ∀ a ∈ A, a.Disj b
  disj : A.Pairwise Block.Disj
  free : ∀ b ∈ F, Good base h.top b
  taken : ∀ a ∈ A, Good base h.top a
  sizes : ∀ a ∈ A, (h.mem a.addr).size = a.size
  top : h.top < UINT
  units : h.units = total F + total A

/-! ## headers -/

lemma Good.plus_one {top : Nat} (hb : Good base top b) (ht : top < UINT) : plus b.addr 1 = b.addr + 8 := by
  have h1 := hb.pos
  have h2 := hb.high
  unfold Block.limit at h2
  exact Nat.mod_eq_of_lt (by omega)

lemma header_eq (hp : p < UINT) : header (p + 8) = p := by
  have h1 : UINT - 8 + (p + 8) = p + UINT := by
    unfold UINT
    omega
  unfold header
  rw [h1, Nat.add_mod_right, Nat.mod_eq_of_lt hp]

lemma Block.Disj.addr_ne (hd : b.Disj c) (hb : 0 < b.size) (hc : 0 < c.size) : b.addr ≠ c.addr := by
  unfold Block.Disj Block.limit at hd
  omega

lemma Ring.update (hr : Ring base mem F) {v : Header} (hx : x ≠ base) (hF : ∀ c ∈ F, c.addr ≠ x) :
    Ring base (update mem x v) F := by
  constructor
  · refine hr.seg.congr fun y hy => ?_
    rcases mem_cons.mp hy with rfl | hy
    · exact congrArg Header.ptr (update_of_ne hx.symm ..)
    · obtain ⟨c, hc, rfl⟩ := mem_map.mp hy
      exact congrArg Header.ptr (update_of_ne (hF c hc) ..)
  · rw [update_of_ne hx.symm]
    exact hr.empty
  · intro c hc
    rw [update_of_ne (hF c hc)]
    exact hr.sizes c hc

lemma length_insert_le : (insert b F).length ≤ F.length + 1 := by
  have h1 : (joinAbove b (above b F)).2.length ≤ (above b F).length := by
    cases above b F with
    | nil => exact Nat.le_refl _
    | cons =>
      rw [joinAbove_cons]
      split
      · exact Nat.le_succ _
      · exact Nat.le_refl _
  have h2 : ∀ b1, (joinBelow (below b F) b1).length ≤ (below b F).length + 1 := by
    intro b1
    rcases eq_nil_or_concat (below b F) with hB | ⟨B, d, hB⟩
    · rw [hB, joinBelow_nil]
      simp
    · rw [hB, concat_eq_append, joinBelow_concat]
      split
      all_goals simp
  have h3 : (below b F).length + (above b F).length = F.length := by
    have h4 := length_eq_length_filter_add (l := F) fun c => decide (c.addr < b.addr)
    unfold below above
    simp only [decide_not] at h4 ⊢
    omega
  unfold insert
  rw [length_append]
  have h4 := h2 (joinAbove b (above b F)).1
  omega

lemma final_below_mem_insert : final base (below b F) ∈ base :: (insert b F).map Block.addr := by
  unfold insert
  rcases eq_nil_or_concat (below b F) with hB | ⟨B, d, hB⟩
  · rw [hB]
    exact mem_cons_self
  · rw [hB, concat_eq_append, final_concat, joinBelow_concat]
    apply mem_cons_of_mem _
    split
    all_goals simp [join]

namespace Ok

lemma perm (ho : Ok base h F A) (hp : A.Perm B) : Ok base h F B where
  ring := ho.ring
  freep := ho.freep
  apart := ho.apart
  clear := fun b hb a ha => ho.clear b hb a (hp.mem_iff.mpr ha)
  disj := (hp.pairwise_iff fun h => h.symm).mp ho.disj
  free := ho.free
  taken := fun a ha => ho.taken a (hp.mem_iff.mpr ha)
  sizes := fun a ha => ho.sizes a (hp.mem_iff.mpr ha)
  top := ho.top
  units := by
    rw [← total_perm hp]
    exact ho.units

lemma site (ho : Ok base h F (b :: A)) : Site base h.mem F b := by
  have hb := ho.taken b mem_cons_self
  have hall : ∀ c ∈ b :: F, Good base h.top c := by
    intro c hc
    rcases mem_cons.mp hc with rfl | hc
    · exact hb
    · exact ho.free c hc
  exact ⟨ho.ring, ho.apart, ho.sizes b mem_cons_self, fun c hc => (hall c hc).low, fun c hc => (hall c hc).pos,
    fun c hc => Nat.lt_of_le_of_lt (hall c hc).high ho.top, fun c hc => ho.clear c hc b mem_cons_self⟩

lemma free_eq (ho : Ok base h F (b :: A)) (hn : F.length < n) :
    ∃ h', Umalloc.free n h (b.addr + 8) = some h' ∧ Ok base h' (insert b F) A ∧
      h'.live = h.live ∧ base ≤ h'.freep := by
  have hs := ho.site
  have hb := ho.taken b mem_cons_self
  have htop := ho.top
  have hhead : header (b.addr + 8) = b.addr := by
    have h1 := hb.high
    unfold Block.limit at h1
    exact header_eq (by omega)
  obtain ⟨hbA, hA⟩ := pairwise_cons.mp ho.disj
  -- no header of an allocated block changes
  have hframe : ∀ a ∈ A, a.addr ≠ b.addr ∧ a.addr ≠ final base (below b F) := by
    intro a ha
    have hga := ho.taken a (mem_cons_of_mem _ ha)
    refine ⟨((hbA a ha).addr_ne hb.pos hga.pos).symm, ?_⟩
    intro heq
    have hmem := @final_below_mem base F b
    rw [← heq] at hmem
    rcases mem_cons.mp hmem with h1 | h1
    · have h2 := hga.low
      omega
    · obtain ⟨c, hc, hca⟩ := mem_map.mp h1
      exact (ho.clear c hc a (mem_cons_of_mem _ ha)).addr_ne hga.pos (ho.free c hc).pos hca.symm
  unfold Umalloc.free
  rw [hhead, hs.place_eq ho.freep hn]
  refine ⟨_, rfl, ?_, rfl, ?_⟩
  · constructor
    · exact hs.joins
    · exact final_below_mem_insert
    · exact insert_apart ho.apart (fun c hc => (ho.free c hc).pos) hs.disj
    · intro c hc a ha
      have hga := ho.taken a (mem_cons_of_mem _ ha)
      refine (insert_forall (joins_disj hga.pos) (hbA a ha) (fun d hd => ?_) c hc).symm
      exact (ho.clear d hd a (mem_cons_of_mem _ ha)).symm
    · exact hA
    · exact insert_forall joins_good hb ho.free
    · exact fun a ha => ho.taken a (mem_cons_of_mem _ ha)
    · intro a ha
      obtain ⟨h1, h2⟩ := hframe a ha
      show (joinLower _ _ _ a.addr).size = a.size
      rw [Site.joinLower_of_ne h1 h2]
      exact ho.sizes a (mem_cons_of_mem _ ha)
    · exact ho.top
    · rw [total_insert ho.apart]
      have h1 := ho.units
      rw [total_cons] at h1
      show h.units = _
      omega
  · show base ≤ final base (below b F)
    have hmem := @final_below_mem base F b
    rcases mem_cons.mp hmem with h1 | h1
    · rw [h1]
    · obtain ⟨c, hc, hca⟩ := mem_map.mp h1
      have h2 := (ho.free c hc).low
      omega

/-! ## `morecore` -/

lemma grow (ho : Ok base h F A) (hp : Fresh base h nu p) (hnu : 0 < nu) :
    Ok base (Umalloc.grow h p nu) F (⟨p, nu⟩ :: A) := by
  obtain ⟨h1, h2, h3, h4⟩ := hp
  have hle : h.top ≤ p + 8 * nu := by omega
  have hlow : ∀ b, Good base h.top b → b.limit ≤ p := fun b hb => Nat.le_trans hb.high h3
  have hne : ∀ b, Good base h.top b → b.addr ≠ p := by
    intro b hb
    have h5 := hlow b hb
    have h6 := hb.pos
    unfold Block.limit at h5
    omega
  constructor
  · exact ho.ring.update (by omega) fun c hc => hne c (ho.free c hc)
  · exact ho.freep
  · exact ho.apart
  · intro b hb a ha
    rcases mem_cons.mp ha with rfl | ha
    · exact .inr (hlow b (ho.free b hb))
    · exact ho.clear b hb a ha
  · exact pairwise_cons.mpr ⟨fun a ha => .inr (hlow a (ho.taken a ha)), ho.disj⟩
  · exact fun b hb => (ho.free b hb).mono hle
  · intro a ha
    rcases mem_cons.mp ha with rfl | ha
    · exact ⟨hnu, h2, Nat.le_refl _, h1⟩
    · exact (ho.taken a ha).mono hle
  · intro a ha
    rcases mem_cons.mp ha with rfl | ha
    · show (update h.mem p _ p).size = nu
      rw [update_self]
    · show (update h.mem p _ a.addr).size = a.size
      rw [update_of_ne (hne a (ho.taken a ha))]
      exact ho.sizes a ha
  · exact h4
  · show h.units + nu = _
    rw [ho.units, total_cons]
    show _ = total F + (nu + total A)
    omega

lemma morecore_eq (ho : Ok base h F A) (hp : Fresh base h (request nu) p) (hn : F.length < n) :
    ∃ h', morecore base n h nu (some p) = some (h', h'.freep) ∧ Ok base h' (insert ⟨p, request nu⟩ F) A ∧
      h'.live = h.live ∧ base ≤ h'.freep := by
  have hpos : 0 < request nu := by
    unfold request
    split
    all_goals omega
  have hg := ho.grow hp hpos
  obtain ⟨h', h1, h2, h3, h4⟩ := hg.free_eq hn
  refine ⟨h', ?_, h2, h3, h4⟩
  have hsbrk : sbrk base h (request nu) (some p) = some (some p) := if_pos hp
  have hone : plus p 1 = p + 8 := (hg.taken _ mem_cons_self).plus_one hg.top
  unfold morecore
  rw [hsbrk]
  show (Umalloc.free n (Umalloc.grow h p (request nu)) (plus p 1)).map _ = _
  rw [hone, h1]
  rfl

/-! ## a block is taken -/

lemma nodup (ho : Ok base h F A) : (base :: F.map Block.addr).Nodup := by
  refine nodup_cons.mpr ⟨fun hx => ?_, ?_⟩
  · obtain ⟨c, hc, hb⟩ := mem_map.mp hx
    have h1 := (ho.free c hc).low
    omega
  · refine pairwise_map.mpr (ho.apart.imp ?_)
    intro b c hbc
    unfold Block.limit at hbc
    omega

lemma final_mem : final base F ∈ base :: (F ++ G).map Block.addr := by
  rcases eq_nil_or_concat F with rfl | ⟨E, d, rfl⟩
  · exact mem_cons_self
  · rw [concat_eq_append, final_concat]
    simp

section
variable (ho : Ok base h (F ++ f :: G) A)
include ho

lemma take_all :
    Ok base { h with mem := update h.mem (final base F)
                              { h.mem (final base F) with ptr := (h.mem f.addr).ptr }, freep := final base F }
      (F ++ G) (f :: A) := by
  have hsub : (F ++ G).Sublist (F ++ f :: G) := (sublist_cons_self f G).append_left F
  have hf : f ∈ F ++ f :: G := by simp
  have hd : (base :: (F ++ G).map Block.addr).Nodup := ((hsub.map Block.addr).cons_cons base).nodup ho.nodup
  have hfs : ∀ c ∈ F ++ G, f.Disj c := by
    intro c hc
    obtain ⟨-, h2, h3⟩ := pairwise_append.mp ho.apart
    rcases mem_append.mp hc with hc | hc
    · exact .inr (Nat.le_of_lt (h3 c hc f mem_cons_self))
    · exact .inl (Nat.le_of_lt ((pairwise_cons.mp h2).1 c hc))
  -- sizes stay
  have hsize : ∀ x, (update h.mem (final base F)
      { h.mem (final base F) with ptr := (h.mem f.addr).ptr } x).size = (h.mem x).size := by
    intro x
    by_cases hx : x = final base F
    · rw [hx, update_self]
    · rw [update_of_ne hx]
  constructor
  · constructor
    · have hseg := ho.ring.seg
      rw [map_append, map_cons] at hseg
      rw [map_append] at hd ⊢
      refine (hseg.skip hd).congr fun x _ => ?_
      show (update h.mem _ _ x).ptr = update (fun p => (h.mem p).ptr) (final base F) _ x
      by_cases hx : x = final base F
      · rw [hx, update_self, update_self]
      · rw [update_of_ne hx, update_of_ne hx]
    · exact (hsize base).trans ho.ring.empty
    · exact fun c hc => (hsize c.addr).trans (ho.ring.sizes c (hsub.subset hc))
  · exact final_mem
  · exact List.Pairwise.sublist hsub ho.apart
  · intro b hb a ha
    rcases mem_cons.mp ha with rfl | ha
    · exact hfs b hb
    · exact ho.clear b (hsub.subset hb) a ha
  · exact pairwise_cons.mpr ⟨fun a ha => (ho.clear f hf a ha).symm, ho.disj⟩
  · exact fun b hb => ho.free b (hsub.subset hb)
  · intro a ha
    rcases mem_cons.mp ha with rfl | ha
    · exact ho.free a hf
    · exact ho.taken a ha
  · intro a ha
    apply (hsize a.addr).trans
    rcases mem_cons.mp ha with rfl | ha
    · exact ho.ring.sizes a hf
    · exact ho.sizes a ha
  · exact ho.top
  · have h1 := ho.units
    simp only [total_append, total_cons] at h1 ⊢
    omega

lemma take_tail {rest : Nat} (hsize : f.size = rest + nunits) (hr : 0 < rest)
    (hpos : 0 < nunits) (hq : q = f.addr + 8 * rest) (hx : x ∈ base :: (F ++ f :: G).map Block.addr)
    (v : Header) (hv : v.size = nunits) :
    Ok base { h with mem := update (update h.mem f.addr { h.mem f.addr with size := rest }) q v,
                     freep := x }
      (F ++ ⟨f.addr, rest⟩ :: G) (⟨q, nunits⟩ :: A) := by
  have hf : f ∈ F ++ f :: G := by simp
  have hgood := ho.free f hf
  have hlow := hgood.low
  have hlim : f.limit = q + 8 * nunits := by
    unfold Block.limit
    omega
  have hlim' : Block.limit ⟨f.addr, rest⟩ = q := hq.symm
  have hmap : (F ++ ⟨f.addr, rest⟩ :: G).map Block.addr = (F ++ f :: G).map Block.addr := by simp
  obtain ⟨hF, hG, hFG⟩ := pairwise_append.mp ho.apart
  obtain ⟨hfG, hG⟩ := pairwise_cons.mp hG
  -- the other free blocks
  have hothers : ∀ c, c ∈ F ∨ c ∈ G → c ∈ F ++ f :: G ∧ f.Disj c := by
    rintro c (hc | hc)
    · exact ⟨by simp [hc], .inr (Nat.le_of_lt (hFG c hc f mem_cons_self))⟩
    · exact ⟨by simp [hc], .inl (Nat.le_of_lt (hfG c hc))⟩
  -- what is clear of the block is clear of its parts, and has another header
  have hparts : ∀ c : Block, 0 < c.size → f.Disj c →
      Block.Disj ⟨f.addr, rest⟩ c ∧ Block.Disj ⟨q, nunits⟩ c ∧ c.addr ≠ f.addr ∧ c.addr ≠ q := by
    intro c hc hd
    unfold Block.Disj Block.limit at *
    dsimp only at *
    omega
  have hnq : ∀ c ∈ F ++ ⟨f.addr, rest⟩ :: G, c.addr ≠ q ∧ (c ≠ ⟨f.addr, rest⟩ → c ∈ F ++ f :: G ∧ c.addr ≠ f.addr) := by
    intro c hc
    rcases mem_append.mp hc with hc | hc
    · have h1 := hothers c (.inl hc)
      have h2 := hparts c (ho.free c h1.1).pos h1.2
      exact ⟨h2.2.2.2, fun _ => ⟨h1.1, h2.2.2.1⟩⟩
    · rcases mem_cons.mp hc with rfl | hc
      · exact ⟨by show f.addr ≠ q; omega, fun hne => absurd rfl hne⟩
      · have h1 := hothers c (.inr hc)
        have h2 := hparts c (ho.free c h1.1).pos h1.2
        exact ⟨h2.2.2.2, fun _ => ⟨h1.1, h2.2.2.1⟩⟩
  have hfree : ∀ c ∈ F ++ ⟨f.addr, rest⟩ :: G, Good base h.top c := by
    intro c hc
    by_cases hcf : c = ⟨f.addr, rest⟩
    · rw [hcf]
      have h1 := hgood.high
      exact ⟨hr, hlow, by omega, hgood.align⟩
    · exact ho.free c ((hnq c hc).2 hcf).1
  constructor
  · refine Ring.update ?_ (by omega) fun c hc => (hnq c hc).1
    constructor
    · rw [hmap]
      refine ho.ring.seg.congr fun y _ => ?_
      by_cases hy : y = f.addr
      · rw [hy, update_self]
      · rw [update_of_ne hy]
    · rw [update_of_ne (by omega)]
      exact ho.ring.empty
    · intro c hc
      by_cases hcf : c = ⟨f.addr, rest⟩
      · rw [hcf]
        rw [update_self]
      · obtain ⟨h1, h2⟩ := (hnq c hc).2 hcf
        rw [update_of_ne h2]
        exact ho.ring.sizes c h1
  · rw [hmap]
    exact hx
  · refine pairwise_append.mpr ⟨hF, pairwise_cons.mpr ⟨fun c hc => ?_, hG⟩, fun c hc d hd => ?_⟩
    · have h1 := hfG c hc
      omega
    · rcases mem_cons.mp hd with rfl | hd
      · exact hFG c hc f mem_cons_self
      · exact hFG c hc d (mem_cons_of_mem _ hd)
  · intro b hb a ha
    rcases mem_cons.mp ha with rfl | ha
    · by_cases hbf : b = ⟨f.addr, rest⟩
      · exact .inr (Nat.le_of_eq (hbf ▸ hlim'))
      · have h1 := (hnq b hb).2 hbf
        rcases mem_append.mp hb with hb | hb
        · exact (hparts b (ho.free b h1.1).pos (hothers b (.inl hb)).2).2.1
        · exact (hparts b (ho.free b h1.1).pos (hothers b (.inr ((mem_cons.mp hb).resolve_left hbf))).2).2.1
    · by_cases hbf : b = ⟨f.addr, rest⟩
      · rw [hbf]
        exact (hparts a (ho.taken a ha).pos (ho.clear f hf a ha).symm).1.symm
      · exact ho.clear b ((hnq b hb).2 hbf).1 a ha
  · refine pairwise_cons.mpr ⟨fun a ha => ?_, ho.disj⟩
    exact (hparts a (ho.taken a ha).pos (ho.clear f hf a ha).symm).2.1
  · exact hfree
  · intro a ha
    rcases mem_cons.mp ha with rfl | ha
    · have h1 := hgood.high
      have h2 := hgood.align
      refine ⟨hpos, ?_, ?_, ?_⟩
      · show base + 8 ≤ q
        omega
      · show q + 8 * nunits ≤ h.top
        omega
      · show q % 8 = 0
        omega
    · exact ho.taken a ha
  · intro a ha
    rcases mem_cons.mp ha with rfl | ha
    · show (update (_ : Nat → Header) q v q).size = nunits
      rw [update_self, hv]
    · have h1 := hparts a (ho.taken a ha).pos (ho.clear f hf a ha).symm
      show (update (_ : Nat → Header) q v a.addr).size = a.size
      rw [update_of_ne h1.2.2.2, update_of_ne h1.2.2.1]
      exact ho.sizes a ha
  · exact ho.top
  · have h1 := ho.units
    simp only [total_append, total_cons] at h1 ⊢
    omega

lemma take_eq (hfit : nunits ≤ f.size) (hpos : 0 < nunits) :
    ∃ F' a, Ok base (take h nunits (final base F) f.addr).1 F' (a :: A) ∧ a.size = nunits ∧
      (take h nunits (final base F) f.addr).2 = a.addr + 8 ∧
      (take h nunits (final base F) f.addr).1.live = h.live := by
  have hf : f ∈ F ++ f :: G := by simp
  have hsize := ho.ring.sizes f hf
  have hgood := ho.free f hf
  have htop := ho.top
  unfold take
  rw [hsize]
  by_cases heq : f.size = nunits
  · rw [if_pos heq]
    exact ⟨F ++ G, f, ho.take_all, heq, hgood.plus_one ho.top, rfl⟩
  · rw [if_neg heq]
    have hq : plus f.addr (f.size - nunits) = f.addr + 8 * (f.size - nunits) := by
      have h1 := hgood.high
      unfold Block.limit at h1
      exact Nat.mod_eq_of_lt (by omega)
    have hok := ho.take_tail (show f.size = f.size - nunits + nunits by omega) (by omega) hpos hq
      (@final_mem base F (f :: G))
      ⟨(update h.mem f.addr { h.mem f.addr with size := f.size - nunits }
        (plus f.addr (f.size - nunits))).ptr, nunits⟩ rfl
    exact ⟨_, _, hok, rfl, (hok.taken _ mem_cons_self).plus_one ho.top, rfl⟩

end

/-! ## the loop of `malloc` -/

lemma walk {M : List Nat} {prev : Nat} (ho : Ok base h F A) (answers : List (Option Nat)) (hpos : 0 < nunits)
    (hseg : Seg (fun p => (h.mem p).ptr) prev M h.freep) (hM : ∀ x ∈ prev :: M, x ∈ base :: F.map Block.addr)
    (hfp : h.freep ∉ M) (hn : M.length < n) :
    (∃ prev' f, f ∈ F ∧ nunits ≤ f.size ∧ prev' ∈ base :: F.map Block.addr ∧ (h.mem prev').ptr = f.addr ∧
      search base nunits n h answers prev (h.mem prev).ptr = some (take h nunits prev' f.addr)) ∨
    ((∀ x ∈ M ++ [h.freep], (h.mem x).size < nunits) ∧ ∃ prev', search base nunits n h answers prev (h.mem prev).ptr =
        search base nunits (n - M.length) h answers prev' h.freep) := by
  -- an element that is big enough is a block
  have hbig : ∀ x ∈ base :: F.map Block.addr, nunits ≤ (h.mem x).size → ∃ f ∈ F, f.addr = x ∧ nunits ≤ f.size := by
    intro x hx hle
    rcases mem_cons.mp hx with rfl | hx
    · rw [ho.ring.empty] at hle
      omega
    · obtain ⟨f, hf, rfl⟩ := mem_map.mp hx
      rw [ho.ring.sizes f hf] at hle
      exact ⟨f, hf, rfl, hle⟩
  rcases n with _ | n
  · omega
  induction M generalizing prev n with
  | nil =>
    have hseg : (h.mem prev).ptr = h.freep := hseg
    rw [hseg]
    by_cases hle : nunits ≤ (h.mem h.freep).size
    · left
      obtain ⟨f, hf, hfx, hfle⟩ := hbig h.freep ho.freep hle
      refine ⟨prev, f, hf, hfle, hM prev mem_cons_self, hseg.trans hfx.symm, ?_⟩
      unfold search
      rw [if_pos hle, hfx]
    · right
      refine ⟨fun x hx => ?_, prev, rfl⟩
      rw [mem_singleton.mp hx]
      omega
  | cons c M ih =>
    obtain ⟨hc, hrest⟩ := hseg
    have hc : (h.mem prev).ptr = c := hc
    rw [hc]
    by_cases hle : nunits ≤ (h.mem c).size
    · left
      obtain ⟨f, hf, hfx, hfle⟩ := hbig c (hM c (by simp)) hle
      refine ⟨prev, f, hf, hfle, hM prev mem_cons_self, hc.trans hfx.symm, ?_⟩
      unfold search
      rw [if_pos hle, hfx]
    · have hcf : c ≠ h.freep := fun hx => hfp (hx ▸ mem_cons_self)
      have hstep : search base nunits (n + 1) h answers prev c = search base nunits n h answers c (h.mem c).ptr := by
        conv_lhs => unfold search
        rw [if_neg hle, if_neg hcf]
      rw [hstep, length_cons, Nat.add_sub_add_right]
      rw [length_cons] at hn
      rcases n with _ | n
      · omega
      rcases ih hrest (fun x hx => hM x (mem_cons_of_mem _ hx)) (fun hx => hfp (mem_cons_of_mem _ hx)) n
        (by omega) with h1 | ⟨h1, h2⟩
      · exact .inl h1
      · refine .inr ⟨fun x hx => ?_, h2⟩
        rcases mem_cons.mp hx with rfl | hx
        · omega
        · exact h1 x hx

lemma rotated (ho : Ok base h F A) : ∃ M, Seg (fun p => (h.mem p).ptr) h.freep M h.freep ∧
    (h.freep :: M).Perm (base :: F.map Block.addr) ∧ h.freep ∉ M ∧ M.length = F.length := by
  obtain ⟨M, hM, hperm⟩ := ho.ring.seg.rotate ho.freep
  have hlen := hperm.length_eq
  rw [length_cons, length_cons, length_map] at hlen
  exact ⟨M, hM, hperm, (nodup_cons.mp (hperm.nodup_iff.mpr ho.nodup)).1, by omega⟩

/-- what `malloc` leaves when it returns `r`. -/
def Leaves (base nunits : Nat) (h : Heap) (A : List Block) (h' : Heap) (r : Nat) : Prop :=
  r = 0 ∧ h' = h ∨ ∃ F a, Ok base h' F (a :: A) ∧ a.size = nunits ∧ r = a.addr + 8 ∧ h'.live = h.live

lemma search_fits (ho : Ok base h F A) (answers : List (Option Nat)) (hpos : 0 < nunits)
    (hbig : ∃ f ∈ F, nunits ≤ f.size) (hn : F.length < n) :
    ∃ h' F' a, search base nunits n h answers h.freep (h.mem h.freep).ptr = some (h', a.addr + 8) ∧
      Ok base h' F' (a :: A) ∧ a.size = nunits ∧ h'.live = h.live := by
  obtain ⟨M, hM, hperm, hfp, hlen⟩ := ho.rotated
  have hsub : ∀ x ∈ h.freep :: M, x ∈ base :: F.map Block.addr := fun x hx => hperm.mem_iff.mp hx
  rcases ho.walk (n := n) answers hpos hM hsub hfp (by omega) with
    ⟨prev, f, hf, hfit, hprev, hptr, heq⟩ | ⟨hsmall, -⟩
  · obtain ⟨F1, F2, rfl⟩ := append_of_mem hf
    have hnd := nodup_cons.mp ho.nodup
    have hp : prev = final base F1 := by
      have hseg := ho.ring.seg
      rw [map_append, map_cons] at hseg hnd hprev
      exact hseg.prev hnd.2 hnd.1 hprev hptr
    obtain ⟨F', a, h1, h2, h3, h4⟩ := ho.take_eq hfit hpos
    rw [heq, hp]
    refine ⟨_, F', a, ?_, h1, h2, h4⟩
    rw [← h3]
  · exfalso
    obtain ⟨f, hf, hfit⟩ := hbig
    have h1 : f.addr ∈ h.freep :: M := hperm.mem_iff.mpr (mem_cons_of_mem _ (mem_map_of_mem hf))
    have h2 := hsmall f.addr (by simpa [or_comm] using h1)
    rw [ho.ring.sizes f hf] at h2
    omega

/-- the first answer of `sbrk` is one that it may give. -/
def Answered (base nunits : Nat) (h : Heap) (answers : List (Option Nat)) : Prop :=
  ∃ a as, answers = a :: as ∧ ∀ p, a = some p → Fresh base h (request nunits) p

/-- the loop comes to an end, unless an answer is missing. -/
theorem search_eq (hb : 0 < base) (ho : Ok base h F A) (answers : List (Option Nat)) (hpos : 0 < nunits)
    (hn : 2 * F.length + 3 ≤ n) : (∃ h' r, search base nunits n h answers h.freep (h.mem h.freep).ptr = some (h', r) ∧
      Leaves base nunits h A h' r) ∨
    search base nunits n h answers h.freep (h.mem h.freep).ptr = none ∧ ¬ Answered base nunits h answers := by
  by_cases hbig : ∃ f ∈ F, nunits ≤ f.size
  · obtain ⟨h', F', a, h1, h2, h3, h4⟩ := ho.search_fits (n := n) answers hpos hbig (by omega)
    exact .inl ⟨h', a.addr + 8, h1, .inr ⟨F', a, h2, h3, rfl, h4⟩⟩
  · obtain ⟨M, hM, hperm, hfp, hlen⟩ := ho.rotated
    have hsub : ∀ x ∈ h.freep :: M, x ∈ base :: F.map Block.addr := fun x hx => hperm.mem_iff.mp hx
    rcases ho.walk (n := n) answers hpos hM hsub hfp (by omega) with ⟨-, f, hf, hfit, -⟩ | ⟨hsmall, prev, heq⟩
    · exact absurd ⟨f, hf, hfit⟩ hbig
    · -- the round is over, and `morecore` is called
      have hfreep : ¬ (h.mem h.freep).size ≥ nunits := Nat.not_le.mpr (hsmall h.freep (by simp))
      obtain ⟨k, hk⟩ : ∃ k, n - M.length = k + 1 := ⟨n - M.length - 1, by omega⟩
      rw [heq, hk]
      unfold search
      rw [if_neg hfreep, if_pos rfl]
      cases answers with
      | nil =>
        right
        refine ⟨rfl, ?_⟩
        rintro ⟨a, as, h1, -⟩
        cases h1
      | cons a as =>
        cases a with
        | none => exact .inl ⟨h, 0, rfl, .inl ⟨rfl, rfl⟩⟩
        | some p =>
          by_cases hp : Fresh base h (request nunits) p
          · obtain ⟨h', h1, h2, h3, h4⟩ := ho.morecore_eq hp (n := k) (by omega)
            have hne : h'.freep ≠ 0 := by omega
            have hlen' := @length_insert_le F ⟨p, request nunits⟩
            have hreq : nunits ≤ request nunits := by
              unfold request
              split
              all_goals omega
            have hbig' : ∃ f ∈ insert ⟨p, request nunits⟩ F, nunits ≤ f.size := by
              obtain ⟨m, hm, hle⟩ := exists_insert ⟨p, request nunits⟩ F
              exact ⟨m, hm, Nat.le_trans hreq hle⟩
            obtain ⟨h'', F', a, h5, h6, h7, h8⟩ := h2.search_fits (n := k) as hpos hbig' (by omega)
            refine .inl ⟨h'', a.addr + 8, ?_, .inr ⟨F', a, h6, h7, rfl, h8.trans h3⟩⟩
            simp only [h1, if_neg hne]
            exact h5
          · right
            have hsbrk : sbrk base h (request nunits) (some p) = none := if_neg hp
            have hnone : morecore base k h nunits (some p) = none := by
              unfold morecore
              rw [hsbrk]
            constructor
            · simp only [hnone]
            · rintro ⟨a, as', h1, h2⟩
              cases h1
              exact hp (h2 p rfl)

end Ok

/-! ## more fuel does not matter -/

lemma free_mono {ap m : Nat} (hf : free n h ap = some h') (hm : n ≤ m) : free m h ap = some h' := by
  unfold free at hf ⊢
  obtain ⟨p, hp, hp'⟩ := Option.map_eq_some_iff.mp hf
  have h1 : place h.mem (header ap) m h.freep = some p := Seg.seek_mono hp hm
  rw [h1]
  exact congrArg some hp'

lemma morecore_mono {m : Nat} {a : Option Nat} (hr : morecore base n h nu a = some r)
    (hm : n ≤ m) : morecore base m h nu a = some r := by
  unfold morecore at hr ⊢
  split at hr
  · cases hr
  · exact hr
  · next p hp =>
    obtain ⟨h', h1, h2⟩ := Option.map_eq_some_iff.mp hr
    rw [free_mono h1 hm]
    exact congrArg some h2

lemma search_mono {m prevp p : Nat} {answers : List (Option Nat)}
    (hr : search base nunits n h answers prevp p = some r) (hm : n ≤ m) :
    search base nunits m h answers prevp p = some r := by
  induction n generalizing m h answers prevp p with
  | zero => cases hr
  | succ n ih =>
    rcases m with _ | m
    · omega
    unfold search at hr ⊢
    split at hr
    · next hle =>
      rw [if_pos hle]
      exact hr
    · next hle =>
      rw [if_neg hle]
      split at hr
      · next hp =>
        rw [if_pos hp]
        cases answers with
        | nil => cases hr
        | cons a =>
          cases hmc : morecore base n h nunits a with
          | none =>
            simp only [hmc] at hr
            cases hr
          | some =>
            simp only [hmc] at hr
            simp only [morecore_mono hmc (show n ≤ m by omega)]
            split at hr
            · next h0 =>
              rw [if_pos h0]
              exact hr
            · next h0 =>
              rw [if_neg h0]
              exact ih hr (by omega)
      · next hp =>
        rw [if_neg hp]
        exact ih hr (by omega)

end Xv6.Umalloc
