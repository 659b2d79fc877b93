import Xv6.Umalloc.Heap
import Xv6.Umalloc.Blocks

/-!
# `free` refines `insert`

`Ring base mem F`: the circular list in the memory is `base` and the blocks of `F`. The loop of `free` stops at the
last element below the block, `prior`; the two joins leave the circular list of `insert b F`.
-/

namespace Xv6.Umalloc
open Lib Function List

variable {base n q x : Nat} {mem : Nat → Header} {F G H : List Block} {b c d : Block}

structure Ring (base : Nat) (mem : Nat → Header) (F : List Block) : Prop where
  seg : Seg (fun p => (mem p).ptr) base (F.map Block.addr) base
  empty : (mem base).size = 0
  sizes : ∀ c ∈ F, (mem c.addr).size = c.size

/-- the last element of the circular list that ends with these blocks. -/
def final (base : Nat) (F : List Block) : Nat := (F.map Block.addr).getLastD base

lemma final_nil : final base [] = base := rfl

lemma final_concat : final base (F ++ [c]) = c.addr := by
  unfold final
  rw [map_append, map_singleton, getLastD_concat]

/-- the memory has a block `b`, clear of the free ones. -/
structure Site (base : Nat) (mem : Nat → Header) (F : List Block) (b : Block) : Prop where
  ring : Ring base mem F
  apart : Apart F
  size : (mem b.addr).size = b.size
  low : ∀ c ∈ b :: F, base + 8 ≤ c.addr
  pos : ∀ c ∈ b :: F, 0 < c.size
  high : ∀ c ∈ b :: F, c.limit < UINT
  disj : ∀ c ∈ F, b.Disj c

lemma final_bounds (hF : Apart (G ++ H)) (hlow : ∀ c ∈ G ++ H, base + 8 ≤ c.addr) :
    base ≤ final base G ∧ (∀ c ∈ G, c.addr ≤ final base G) ∧ ∀ c ∈ H, final base G < c.addr := by
  rcases eq_nil_or_concat G with rfl | ⟨G, d, rfl⟩
  · refine ⟨Nat.le_refl _, nofun, fun c hc => ?_⟩
    have h1 := hlow c hc
    rw [final_nil]
    omega
  · rw [concat_eq_append] at hF hlow ⊢
    rw [final_concat]
    obtain ⟨h1, -, h2⟩ := pairwise_append.mp hF
    have hd := hlow d (by simp)
    refine ⟨by omega, fun c hc => ?_, fun c hc => ?_⟩
    · rcases mem_append.mp hc with hc | hc
      · have h3 := (apart_concat.mp h1).2 c hc
        unfold Block.limit at h3
        omega
      · rw [mem_singleton.mp hc]
    · have h3 := h2 d (by simp) c hc
      unfold Block.limit at h3
      omega

lemma final_below_mem : final base (below b F) ∈ base :: F.map Block.addr := by
  rcases eq_nil_or_concat (below b F) with hB | ⟨B, d, hB⟩
  · rw [hB]
    exact mem_cons_self
  · have hd : d ∈ below b F := by
      rw [hB, concat_eq_append]
      simp
    rw [hB, concat_eq_append, final_concat]
    exact mem_cons_of_mem _ (mem_map_of_mem (mem_below.mp hd).1)

namespace Ring

lemma next (h : Ring base mem (G ++ H)) : (mem (final base G)).ptr = (H.map Block.addr).headD base := by
  have hseg := h.seg
  rw [map_append] at hseg
  cases H with
  | nil =>
    rw [map_nil, append_nil] at hseg
    exact hseg.last
  | cons =>
    rw [map_cons] at hseg
    exact (Seg.append.mp hseg).1.last

lemma split (hx : x ∈ base :: F.map Block.addr) : ∃ G H, F = G ++ H ∧ x = final base G := by
  rcases mem_cons.mp hx with rfl | hx
  · exact ⟨[], F, rfl, rfl⟩
  · obtain ⟨c, hc, rfl⟩ := mem_map.mp hx
    obtain ⟨G, H, rfl⟩ := append_of_mem hc
    refine ⟨G ++ [c], H, by simp, final_concat.symm⟩

end Ring

namespace Site

section
variable (h : Site base mem F b)
include h

lemma base_lt (hc : c ∈ b :: F) : base < c.addr := by
  have h1 := h.low c hc
  omega

lemma prior_lt : final base (below b F) < b.addr := by
  rcases eq_nil_or_concat (below b F) with hB | ⟨B, d, hB⟩
  · rw [hB]
    exact h.base_lt mem_cons_self
  · have hd : d ∈ below b F := by
      rw [hB, concat_eq_append]
      simp
    rw [hB, concat_eq_append, final_concat]
    exact (mem_below.mp hd).2

lemma prior_next : (mem (final base (below b F))).ptr = ((above b F).map Block.addr).headD base := by
  have hr := h.ring
  rw [← below_append_above (b := b) h.apart] at hr
  exact hr.next

/-- the loop stops where the block belongs, and nowhere else. -/
theorem stops_iff (hx : x ∈ base :: F.map Block.addr) : stops mem b.addr x = true ↔ x = final base (below b F) := by
  have hbase := h.base_lt mem_cons_self
  obtain ⟨G, H, hF, rfl⟩ := Ring.split hx
  have hring := h.ring
  have hapart := h.apart
  rw [hF] at hring hapart
  obtain ⟨h1, h2, h3⟩ := final_bounds hapart fun c hc => h.low c (mem_cons_of_mem _ (hF ▸ hc))
  have hnext := hring.next
  unfold stops
  rw [decide_eq_true_iff, hnext]
  constructor
  · intro hs
    have hlt : final base G < b.addr ∧ ∀ c ∈ H, b.addr ≤ c.addr := by
      cases H with
      | nil =>
        simp only [map_nil, headD_nil] at hs
        exact ⟨by omega, nofun⟩
      | cons c =>
        have h4 := h3 c mem_cons_self
        simp only [map_cons, headD_cons] at hs
        refine ⟨by omega, fun d hd => ?_⟩
        rcases mem_cons.mp hd with rfl | hd
        · omega
        · have h5 := (pairwise_append.mp hapart).2.1
          have h6 := (pairwise_cons.mp h5).1 d hd
          unfold Block.limit at h6
          omega
    rw [below_eq hF (fun c hc => Nat.lt_of_le_of_lt (h2 c hc) hlt.1) hlt.2]
  · intro hx
    have hlt := h.prior_lt
    have hnext' := h.prior_next
    rw [← hx] at hlt hnext'
    rw [hnext] at hnext'
    rw [hnext']
    cases hA : above b F with
    | nil =>
      simp only [map_nil, headD_nil]
      omega
    | cons c =>
      have hc : c ∈ above b F := by
        rw [hA]
        exact mem_cons_self
      have h4 := above_addr h.disj (fun c hc => h.pos c (mem_cons_of_mem _ hc)) hc
      have h5 := h.pos b mem_cons_self
      simp only [map_cons, headD_cons]
      unfold Block.limit at h4
      omega

lemma place_eq (hq : q ∈ base :: F.map Block.addr) (hn : F.length < n) :
    place mem b.addr n q = some (final base (below b F)) := by
  have hp := @final_below_mem base F b
  apply h.ring.seg.seek hq hp ((h.stops_iff hp).mpr rfl) (fun x hx => (h.stops_iff hx).mp)
  rw [length_map]
  exact hn

lemma addr_ne (hc : c ∈ F) : c.addr ≠ b.addr := by
  have h1 := h.pos b mem_cons_self
  have h2 := h.pos c (mem_cons_of_mem _ hc)
  rcases h.disj c hc with h3 | h3
  all_goals
    unfold Block.limit at h3
    omega

lemma plus_eq (hc : c ∈ b :: F) : plus c.addr c.size = c.limit := by
  have h1 := h.high c hc
  exact Nat.mod_eq_of_lt h1

lemma joinUpper_eq :
    ∃ ptr, joinUpper mem b.addr (final base (below b F)) =
        update mem b.addr ⟨ptr, (joinAbove b (above b F)).1.size⟩ ∧
      ∀ (mem' : Nat → Header) (q : Nat), (mem' q).ptr = ptr → (∀ c ∈ above b F, mem' c.addr = mem c.addr) →
        Seg (fun p => (mem' p).ptr) q ((joinAbove b (above b F)).2.map Block.addr) base := by
  have hbase := h.base_lt mem_cons_self
  have hplus := h.plus_eq mem_cons_self
  have hseg := h.ring.seg
  rw [← below_append_above (b := b) h.apart] at hseg
  unfold joinUpper
  rw [h.prior_next, h.size, hplus]
  cases hA : above b F with
  | nil =>
    -- nothing is above it, and it does not end at `base`
    have hne : b.limit ≠ base := by
      unfold Block.limit
      omega
    refine ⟨base, if_neg hne, fun mem' q hq _ => hq⟩
  | cons c =>
    rw [hA, map_append] at hseg
    obtain ⟨-, hc⟩ := Seg.append.mp hseg
    have hcF : c ∈ F := (mem_above.mp (hA ▸ mem_cons_self)).1
    simp only [map_cons, headD_cons]
    rw [joinAbove_cons]
    by_cases hl : b.limit = c.addr
    · rw [if_pos hl, if_pos hl]
      refine ⟨(mem c.addr).ptr, ?_, fun mem' q hq hm => ?_⟩
      · -- the sum of the sizes is that of the joined block
        have h1 := h.high c (mem_cons_of_mem _ hcF)
        have hlt : b.size + c.size < UINT := by
          unfold Block.limit at hl h1
          omega
        rw [h.ring.sizes c hcF, Nat.mod_eq_of_lt hlt]
        rfl
      · refine hc.start hq fun x hx => ?_
        obtain ⟨d, hd, rfl⟩ := mem_map.mp hx
        show (mem' d.addr).ptr = (mem d.addr).ptr
        rw [hm d (mem_cons_of_mem _ hd)]
    · rw [if_neg hl, if_neg hl]
      refine ⟨c.addr, rfl, fun mem' q hq hm => ⟨hq, hc.congr fun x hx => ?_⟩⟩
      rw [← map_cons] at hx
      obtain ⟨d, hd, rfl⟩ := mem_map.mp hx
      show (mem' d.addr).ptr = (mem d.addr).ptr
      rw [hm d hd]

end

lemma joinLower_of_ne (hb : x ≠ b.addr) (hq : x ≠ q) : joinLower (joinUpper mem b.addr q) b.addr q x = mem x := by
  have h1 : ∀ m : Nat → Header, joinLower m b.addr q x = m x := by
    intro m
    unfold joinLower
    split
    all_goals exact update_of_ne hq ..
  rw [h1]
  unfold joinUpper
  split
  all_goals exact update_of_ne hb ..

section
variable (h : Site base mem F b)
include h

lemma joinAbove_high : (joinAbove b (above b F)).1.limit < UINT := by
  have hP : Joins fun c => c.limit < UINT := by
    intro c d _ hd hl
    show (join c d).limit < UINT
    rw [limit_join hl]
    exact hd
  exact (joinAbove_forall hP (h.high b mem_cons_self) fun c hc => h.high c (mem_cons_of_mem _ (mem_above.mp hc).1)).1

lemma above_ne (hc : c ∈ above b F) : c.addr ≠ b.addr ∧ c.addr ≠ final base (below b F) := by
  have hlt := h.prior_lt
  obtain ⟨h1, h2⟩ := mem_above.mp hc
  exact ⟨h.addr_ne h1, by omega⟩

/-- the two joins leave the list with the block: there is nothing below it. -/
theorem joins_first (hB : below b F = []) :
    Ring base (joinLower (joinUpper mem b.addr base) b.addr base) (insert b F) := by
  have hbase := h.base_lt mem_cons_self
  have hne : plus base 0 ≠ b.addr := by
    have h1 := h.high b mem_cons_self
    have h2 : plus base 0 = base := Nat.mod_eq_of_lt (by unfold Block.limit at h1; omega)
    omega
  obtain ⟨ptr, hup, hrest⟩ := h.joinUpper_eq
  rw [hB, final_nil] at hup
  -- `base` has no units, so the block is linked to it
  have hlow : joinLower (joinUpper mem b.addr base) b.addr base =
      update (update mem b.addr ⟨ptr, (joinAbove b (above b F)).1.size⟩) base ⟨b.addr, 0⟩ := by
    unfold joinLower
    rw [hup, update_of_ne (Nat.ne_of_lt hbase), h.ring.empty, if_neg hne]
  have hself : joinLower (joinUpper mem b.addr base) b.addr base b.addr =
      ⟨ptr, (joinAbove b (above b F)).1.size⟩ := by
    rw [hlow, update_of_ne (Nat.ne_of_gt hbase), update_self]
  have habove : ∀ c ∈ above b F, joinLower (joinUpper mem b.addr base) b.addr base c.addr = mem c.addr := by
    intro c hc
    obtain ⟨h1, h2⟩ := h.above_ne hc
    rw [hB] at h2
    exact joinLower_of_ne h1 h2
  have hins : insert b F = (joinAbove b (above b F)).1 :: (joinAbove b (above b F)).2 := by
    unfold insert
    rw [hB, joinBelow_nil]
    rfl
  rw [hins]
  constructor
  · refine ⟨?_, ?_⟩
    · rw [hlow, joinAbove_addr]
      simp
    · rw [joinAbove_addr]
      exact hrest _ _ (congrArg Header.ptr hself) habove
  · rw [hlow, update_self]
  · intro c hc
    rcases mem_cons.mp hc with rfl | hc
    · rw [joinAbove_addr, hself]
    · have h1 := mem_joinAbove hc
      rw [habove c h1]
      exact h.ring.sizes c (mem_above.mp h1).1

/-- and there is a block below it. -/
theorem joins_later {E : List Block} (hB : below b F = E ++ [d]) :
    Ring base (joinLower (joinUpper mem b.addr d.addr) b.addr d.addr) (insert b F) := by
  have hd : d ∈ F ∧ d.addr < b.addr := mem_below.mp (hB ▸ mem_append_right _ (mem_singleton_self _))
  have hbase := h.base_lt (mem_cons_of_mem _ hd.1)
  have hplus := h.plus_eq (mem_cons_of_mem _ hd.1)
  have hdb : d.addr ≠ b.addr := Nat.ne_of_lt hd.2
  obtain ⟨ptr, hup, hrest⟩ := h.joinUpper_eq
  rw [hB, final_concat] at hup
  have hlow : joinLower (joinUpper mem b.addr d.addr) b.addr d.addr =
      update (update mem b.addr ⟨ptr, (joinAbove b (above b F)).1.size⟩) d.addr
        (if d.limit = b.addr then ⟨ptr, (d.size + (joinAbove b (above b F)).1.size) % UINT⟩ else ⟨b.addr, d.size⟩) := by
    unfold joinLower
    rw [hup, update_of_ne hdb, h.ring.sizes d hd.1, hplus, update_self]
    split
    all_goals rfl
  have hframe := fun x => @joinLower_of_ne d.addr x mem b
  generalize joinLower (joinUpper mem b.addr d.addr) b.addr d.addr = mem' at *
  have hself : mem' b.addr = ⟨ptr, (joinAbove b (above b F)).1.size⟩ := by
    rw [hlow, update_of_ne hdb.symm, update_self]
  have habove : ∀ c ∈ above b F, mem' c.addr = mem c.addr := by
    intro c hc
    obtain ⟨h1, h2⟩ := h.above_ne hc
    rw [hB, final_concat] at h2
    exact hframe _ h1 h2
  have hsizes : ∀ c ∈ (joinAbove b (above b F)).2, (mem' c.addr).size = c.size := by
    intro c hc
    have h1 := mem_joinAbove hc
    rw [habove c h1]
    exact h.ring.sizes c (mem_above.mp h1).1
  have happ := h.apart
  have hseg := h.ring.seg
  rw [← below_append_above (b := b) h.apart, hB] at hseg happ
  -- what is below `d` stays as it is
  have hE : ∀ c ∈ E, c ∈ F ∧ mem' c.addr = mem c.addr := by
    intro c hc
    have h1 : c ∈ F ∧ c.addr < b.addr := mem_below.mp (hB ▸ mem_append_left _ hc)
    have h2 := (apart_concat.mp (pairwise_append.mp happ).1).2 c hc
    unfold Block.limit at h2
    exact ⟨h1.1, hframe _ (by omega) (by omega)⟩
  have hfirst : mem' base = mem base := hframe _ (Nat.ne_of_lt (by omega)) (Nat.ne_of_lt hbase)
  have hsegE : Seg (fun p => (mem' p).ptr) base (E.map Block.addr) d.addr := by
    rw [append_assoc, map_append] at hseg
    refine (Seg.append.mp hseg).1.congr fun x hx => ?_
    rcases mem_cons.mp hx with rfl | hx
    · exact congrArg Header.ptr hfirst
    · obtain ⟨c, hc, rfl⟩ := mem_map.mp hx
      exact congrArg Header.ptr (hE c hc).2
  have hempty : (mem' base).size = 0 := by
    rw [hfirst, h.ring.empty]
  unfold insert
  rw [hB, joinBelow_concat, joinAbove_addr]
  by_cases hl : d.limit = b.addr
  · rw [if_pos hl] at hlow ⊢
    have hd' : mem' d.addr = ⟨ptr, (d.size + (joinAbove b (above b F)).1.size) % UINT⟩ := by
      rw [hlow, update_self]
    refine ⟨?_, hempty, fun c hc => ?_⟩
    · rw [append_assoc, map_append]
      exact Seg.append.mpr ⟨hsegE, hrest _ _ (congrArg Header.ptr hd') habove⟩
    · rw [append_assoc, mem_append] at hc
      rcases hc with hc | hc
      · rw [(hE c hc).2]
        exact h.ring.sizes c (hE c hc).1
      · rcases mem_cons.mp hc with rfl | hc
        · -- the sum of the sizes is that of the joined block
          have h1 := h.joinAbove_high
          have h2 : (joinAbove b (above b F)).1.addr = b.addr := joinAbove_addr
          show (mem' d.addr).size = d.size + (joinAbove b (above b F)).1.size
          rw [hd']
          apply Nat.mod_eq_of_lt
          unfold Block.limit at h1 hl
          omega
        · exact hsizes c hc
  · rw [if_neg hl] at hlow ⊢
    have hd' : mem' d.addr = ⟨b.addr, d.size⟩ := by
      rw [hlow, update_self]
    refine ⟨?_, hempty, fun c hc => ?_⟩
    · rw [append_assoc, append_assoc, map_append]
      refine Seg.append.mpr ⟨hsegE, ?_, ?_⟩
      · rw [joinAbove_addr]
        exact congrArg Header.ptr hd'
      · rw [joinAbove_addr]
        exact hrest _ _ (congrArg Header.ptr hself) habove
    · rw [append_assoc, append_assoc, mem_append] at hc
      rcases hc with hc | hc
      · rw [(hE c hc).2]
        exact h.ring.sizes c (hE c hc).1
      · rcases mem_cons.mp hc with rfl | hc
        · rw [hd']
        · rcases mem_cons.mp hc with rfl | hc
          · rw [joinAbove_addr, hself]
          · exact hsizes c hc

lemma joins : Ring base (joinLower (joinUpper mem b.addr (final base (below b F))) b.addr (final base (below b F)))
      (insert b F) := by
  rcases eq_nil_or_concat (below b F) with hB | ⟨E, d, hB⟩
  · rw [hB, final_nil]
    exact h.joins_first hB
  · rw [concat_eq_append] at hB
    rw [hB, final_concat]
    exact h.joins_later hB

end

end Site

end Xv6.Umalloc
