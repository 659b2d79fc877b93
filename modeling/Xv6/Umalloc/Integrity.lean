import Xv6.Umalloc.Malloc

/-!
# The heap in every run

`Sound base h F` says what is true of the heap in terms of the memory, the list of free blocks `F` and the live
allocations; before the first `malloc` there is no list. Every call of `malloc` and `free` keeps it, and comes back.
-/

namespace Xv6.Umalloc
open Lib Function List

variable {base n nbytes ap : Nat} {mem : Nat → Header} {F A : List Block} {b c : Block} {h h' : Heap}
  {answers : List (Option Nat)}
variable {a : Nat × Nat}

/-- the block of an allocation: its header, and the units behind it. -/
def blockOf (a : Nat × Nat) : Block := ⟨a.1 - 8, unitsFor a.2⟩

/-- an allocation of `n` bytes at `ap`. -/
structure Allocated (a : Nat × Nat) : Prop where
  aligned : a.1 % 8 = 0
  header : 8 ≤ a.1
  long : a.1 + a.2 ≤ (blockOf a).limit

structure Sound (base : Nat) (h : Heap) (F : List Block) : Prop where
  circular : Seg (fun p => (h.mem p).ptr) base (F.map Block.addr) base
  freep : h.freep ∈ base :: F.map Block.addr
  above : ∀ b ∈ F, base + 8 ≤ b.addr
  ordered : F.Pairwise fun b c => b.limit < c.addr
  sizes : ∀ b ∈ F, (h.mem b.addr).size = b.size ∧ 0 < b.size
  clear : ∀ b ∈ F, ∀ a ∈ h.live, (blockOf a).Disj b
  disjoint : h.live.Pairwise fun a b => (blockOf a).Disj (blockOf b)
  allocated : ∀ a ∈ h.live, Allocated a
  units : h.units = total F + total (h.live.map blockOf)

/-- before the first `malloc`. -/
structure Unused (h : Heap) : Prop where
  freep : h.freep = 0
  top : h.top = 0
  units : h.units = 0
  live : h.live = []

/-- the requests, and where their allocations are. -/
def Asked (a : Nat × Nat) : Prop := 8 ≤ a.1 ∧ a.2 < 2 ^ 31 - 64

/-- the heap, from the first `malloc` on. -/
def Used (base : Nat) (h : Heap) : Prop :=
  (∃ F, Ok base h F (h.live.map blockOf)) ∧ ∀ a ∈ h.live, Asked a

def Inv (base : Nat) (h : Heap) : Prop := Unused h ∨ Used base h

lemma unitsFor_eq (hn : nbytes < 2 ^ 31 - 64) : unitsFor nbytes = (nbytes + 7) / 8 + 1 := by
  unfold unitsFor
  rw [Nat.mod_eq_of_lt (by unfold UINT; omega)]

lemma allocated_of (ha : Asked a) (hg : (blockOf a).addr % 8 = 0) : Allocated a := by
  obtain ⟨h1, h2⟩ := ha
  have h3 := unitsFor_eq h2
  unfold blockOf at hg
  refine ⟨by dsimp only at hg; omega, h1, ?_⟩
  unfold blockOf Block.limit
  dsimp only
  rw [h3]
  omega

lemma Ok.sound (ho : Ok base h F (h.live.map blockOf)) (ha : ∀ a ∈ h.live, Asked a) : Sound base h F where
  circular := ho.ring.seg
  freep := ho.freep
  above := fun b hb => (ho.free b hb).low
  ordered := ho.apart
  sizes := fun b hb => ⟨ho.ring.sizes b hb, (ho.free b hb).pos⟩
  clear := fun b hb _ ha => ho.clear b hb _ (mem_map_of_mem ha)
  disjoint := pairwise_map.mp ho.disj
  allocated := fun a hl => allocated_of (ha a hl) (ho.taken _ (mem_map_of_mem hl)).align
  units := ho.units

/-! ## the first call -/

lemma Unused.init (hu : Unused h) (base : Nat) : Ok base (init base h) [] [] ∧ (init base h).live = [] := by
  have hi : Umalloc.init base h = { h with mem := update h.mem base ⟨base, 0⟩, freep := base } :=
    if_pos hu.freep
  rw [hi]
  refine ⟨?_, hu.live⟩
  constructor
  · refine ⟨?_, ?_, nofun⟩
    · show (update h.mem base _ base).ptr = base
      rw [update_self]
    · show (update h.mem base _ base).size = 0
      rw [update_self]
  · exact mem_cons_self
  · exact List.Pairwise.nil
  · nofun
  · exact List.Pairwise.nil
  · nofun
  · nofun
  · nofun
  · show h.top < UINT
    rw [hu.top]
    decide
  · exact hu.units

lemma Ok.freep_pos (hb : 0 < base) (ho : Ok base h F A) : h.freep ≠ 0 := by
  rcases mem_cons.mp ho.freep with h1 | h1
  · omega
  · obtain ⟨c, hc, h2⟩ := mem_map.mp h1
    have h3 := (ho.free c hc).low
    omega

lemma Inv.init (hb : 0 < base) (hi : Inv base h) :
    Used base (init base h) ∧ (init base h).live = h.live ∧ (init base h).top = h.top := by
  rcases hi with hu | hu
  · obtain ⟨h1, h2⟩ := hu.init base
    have htop : (Umalloc.init base h).top = h.top := by
      unfold Umalloc.init
      split
      all_goals rfl
    refine ⟨⟨⟨[], ?_⟩, ?_⟩, h2.trans hu.live.symm, htop⟩
    · rw [h2]
      exact h1
    · rw [h2]
      nofun
  · obtain ⟨⟨F, ho⟩, ha⟩ := hu
    have hid : Umalloc.init base h = h := if_neg (ho.freep_pos hb)
    rw [hid]
    exact ⟨⟨⟨F, ho⟩, ha⟩, rfl, rfl⟩

/-! ## `malloc` -/

lemma unitsFor_pos : 0 < unitsFor nbytes := Nat.succ_pos _

section
variable (hb : 0 < base) (hi : Inv base h)
include hb hi

/-- what `malloc` leaves, whatever its fuel. -/
theorem malloc_some {ap : Nat}
    (hm : malloc base n h nbytes answers = some (h', ap)) :
    ∃ F, Ok base (init base h) F ((init base h).live.map blockOf) ∧
      Ok.Leaves base (unitsFor nbytes) (init base h) ((init base h).live.map blockOf) h' ap := by
  obtain ⟨⟨⟨F, ho⟩, -⟩, -⟩ := hi.init hb
  have hm : search base (unitsFor nbytes) (max n (2 * F.length + 3)) (init base h) answers (init base h).freep
      ((init base h).mem (init base h).freep).ptr = some (h', ap) := search_mono hm (Nat.le_max_left ..)
  refine ⟨F, ho, ?_⟩
  rcases ho.search_eq hb answers unitsFor_pos (Nat.le_max_right ..) with ⟨h₁, r, h1, h2⟩ | ⟨h1, -⟩
  · rw [hm] at h1
    cases h1
    exact h2
  · rw [hm] at h1
    cases h1

lemma malloc_zero (hm : malloc base n h nbytes answers = some (h', 0)) : h' = init base h := by
  obtain ⟨F, -, h1⟩ := malloc_some hb hi hm
  rcases h1 with ⟨-, h2⟩ | ⟨F, a, -, -, h2, -⟩
  · exact h2
  · cases h2

lemma malloc_ends (ha : Ok.Answered base (unitsFor nbytes) h answers) :
    ∃ N, ∀ fuel, N ≤ fuel → ∃ h' ap, malloc base fuel h nbytes answers = some (h', ap) := by
  obtain ⟨⟨⟨F, ho⟩, -⟩, -, htop⟩ := hi.init hb
  refine ⟨2 * F.length + 3, fun fuel hf => ?_⟩
  rcases ho.search_eq hb answers unitsFor_pos hf with ⟨h₁, r, h1, -⟩ | ⟨-, h1⟩
  · exact ⟨h₁, r, h1⟩
  · exfalso
    obtain ⟨a, as, h2, h3⟩ := ha
    refine h1 ⟨a, as, h2, fun p hp => ?_⟩
    have h4 := h3 p hp
    unfold Fresh at h4 ⊢
    rw [htop]
    exact h4

end

lemma Ok.withLive {l : List (Nat × Nat)} (ho : Ok base h F A) : Ok base { h with live := l } F A :=
  ⟨ho.ring, ho.freep, ho.apart, ho.clear, ho.disj, ho.free, ho.taken, ho.sizes, ho.top, ho.units⟩

lemma Used.malloc (hb : 0 < base) (hi : Inv base h) (hn : nbytes < 2 ^ 31 - 64)
    (hm : malloc base n h nbytes answers = some (h', ap)) :
    Used base (if ap = 0 then h' else { h' with live := (ap, nbytes) :: h'.live }) := by
  obtain ⟨hu, -⟩ := hi.init hb
  obtain ⟨-, -, h1⟩ := malloc_some hb hi hm
  rcases h1 with ⟨h0, h2⟩ | ⟨F, a, ho, hsize, hap, hlive⟩
  · rw [if_pos h0, h2]
    exact hu
  · have hne : ap ≠ 0 := by omega
    have hblock : blockOf (ap, nbytes) = a := by
      unfold blockOf
      rw [hap, ← hsize]
      rfl
    rw [if_neg hne]
    refine ⟨⟨F, ?_⟩, fun b hbl => ?_⟩
    · show Ok base _ F (((ap, nbytes) :: h'.live).map blockOf)
      rw [map_cons, hblock, hlive]
      exact ho.withLive
    · rcases mem_cons.mp hbl with rfl | hbl
      · exact ⟨by show 8 ≤ ap; omega, hn⟩
      · rw [hlive] at hbl
        exact hu.2 b hbl

/-! ## `free` -/

lemma Ok.first (ho : Ok base h F (h.live.map blockOf)) (ha : a ∈ h.live) :
    Ok base h F (blockOf a :: (h.live.erase a).map blockOf) :=
  ho.perm ((perm_cons_erase ha).map blockOf)

lemma blockOf_addr (ha : 8 ≤ a.1) : (blockOf a).addr + 8 = a.1 := Nat.sub_add_cancel ha

lemma Used.free_ends (hu : Used base h) (ha : a ∈ h.live) :
    ∃ N, ∀ fuel, N ≤ fuel → ∃ h', free fuel h a.1 = some h' := by
  obtain ⟨⟨F, ho⟩, hask⟩ := hu
  refine ⟨F.length + 1, fun fuel hf => ?_⟩
  obtain ⟨h', h1, -⟩ := (ho.first ha).free_eq hf
  rw [blockOf_addr (hask a ha).1] at h1
  exact ⟨h', h1⟩

lemma Used.free (hu : Used base h) (ha : a ∈ h.live) (hf : free n h a.1 = some h') :
    Used base { h' with live := h'.live.erase a } := by
  obtain ⟨⟨F, ho⟩, hask⟩ := hu
  obtain ⟨h₁, h1, h2, h3, -⟩ := (ho.first ha).free_eq (Nat.le_max_right n (F.length + 1))
  rw [blockOf_addr (hask a ha).1, free_mono hf (Nat.le_max_left ..)] at h1
  cases h1
  refine ⟨⟨insert (blockOf a) F, ?_⟩, fun b hb => ?_⟩
  · show Ok base _ _ ((h'.live.erase a).map blockOf)
    rw [h3]
    exact h2.withLive
  · rw [h3] at hb
    exact hask b (mem_of_mem_erase hb)

/-! ## the program writes to its memory -/

lemma Used.write {a : Nat × Nat} {x : Nat} {v : Header} (hu : Used base h) (ha : a ∈ h.live)
    (hx : a.1 ≤ x ∧ x < a.1 + a.2) : Used base { h with mem := update h.mem x v } := by
  obtain ⟨⟨F, ho⟩, hask⟩ := hu
  have hgood := ho.taken _ (mem_map_of_mem ha)
  have hlong := (allocated_of (hask a ha) hgood.align).long
  have haddr := blockOf_addr (hask a ha).1
  -- the address is no header
  have hne : ∀ c : Block, 0 < c.size → (blockOf a).Disj c → c.addr ≠ x := by
    intro c hc hd
    unfold Block.Disj Block.limit at *
    omega
  obtain ⟨hrest, -⟩ := pairwise_cons.mp (ho.first ha).disj
  refine ⟨⟨F, ?_⟩, hask⟩
  refine ⟨?_, ho.freep, ho.apart, ho.clear, ho.disj, ho.free, ho.taken, fun c hc => ?_, ho.top, ho.units⟩
  · have h1 := hgood.low
    refine ho.ring.update (by omega) fun c hc => hne c (ho.free c hc).pos ?_
    exact ho.clear c hc _ (mem_map_of_mem ha)
  · have hcx : c.addr ≠ x := by
      have hc' := ((perm_cons_erase ha).map blockOf).mem_iff.mp hc
      rcases mem_cons.mp hc' with rfl | hc'
      · omega
      · exact hne c (ho.taken c hc).pos (hrest c hc')
    show (update h.mem x v c.addr).size = c.size
    rw [update_of_ne hcx]
    exact ho.sizes c hc

/-! ## every run -/

lemma Inv.boot : Inv base (boot mem) := .inl ⟨rfl, rfl, rfl, rfl⟩

lemma Inv.used (hi : Inv base h) (ha : a ∈ h.live) : Used base h := by
  rcases hi with hu | hu
  · rw [hu.live] at ha
    cases ha
  · exact hu

theorem Inv.step {l : Label} (hb : 0 < base) (hi : Inv base h) (hs : step base h l = .ok h') : Inv base h' := by
  cases l with
  | malloc =>
    simp only [Umalloc.step] at hs
    split at hs
    · next hn =>
      split at hs
      · cases hs
      · next h1 ap hm =>
        cases hs
        exact .inr (Used.malloc hb hi hn hm)
    · cases hs
  | free ap =>
    simp only [Umalloc.step] at hs
    split at hs
    · cases hs
    · next a ha =>
      have hap : a.1 = ap := by simpa using List.find?_some ha
      have ha := mem_of_find?_eq_some ha
      split at hs
      · cases hs
      · next h1 hf =>
        cases hs
        rw [← hap] at hf
        exact .inr ((hi.used ha).free ha hf)
  | write =>
    simp only [Umalloc.step] at hs
    split at hs
    · next hw =>
      cases hs
      obtain ⟨a, ha, hx⟩ := hw
      exact .inr ((hi.used ha).write ha hx)
    · cases hs

/-- In every state that a program can reach with `malloc`, `free` of live pointers and writes to its memory, the heap
is sound; `malloc` that returns 0 changes nothing; and the loops of `malloc` and `free` come to an end. -/
theorem heap_integrity {tr : List (Heap × Label)} (hb : 0 < base) (hrun : Path (step base) (boot mem) tr h) :
    (Unused h ∨ ∃ F, Sound base h F) ∧
    (∀ fuel nbytes answers h', malloc base fuel h nbytes answers = some (h', 0) → h' = init base h) ∧
    (∀ nbytes answers, nbytes < 2 ^ 31 - 64 → Ok.Answered base (unitsFor nbytes) h answers →
      ∃ N, ∀ fuel, N ≤ fuel → ∃ h' ap, malloc base fuel h nbytes answers = some (h', ap)) ∧
    ∀ a ∈ h.live, ∃ N, ∀ fuel, N ≤ fuel → ∃ h', free fuel h a.1 = some h' := by
  have hi : Inv base h := hrun.invariant (Inv base) (fun _ _ => True) (fun _ _ _ hi _ hs => hi.step hb hs)
    (fun _ _ => trivial) Inv.boot
  refine ⟨?_, ?_, ?_, ?_⟩
  · rcases hi with hu | ⟨⟨F, ho⟩, hask⟩
    · exact .inl hu
    · exact .inr ⟨F, ho.sound hask⟩
  · exact fun _ _ _ _ hm => malloc_zero hb hi hm
  · exact fun _ _ _ ha => malloc_ends hb hi ha
  · exact fun a ha => (hi.used ha).free_ends ha

/-- Two allocations from one call of `morecore`, and the first one is freed again. -/
theorem heap_integrity_tail : ∃ tr h, Path (step 1000) (boot fun _ => ⟨0, 0⟩) tr h ∧
    h.live = [(36728, 20)] ∧ h.units = 4096 ∧ ∃ F, Sound 1000 h F := by
  obtain ⟨tr, h, hp, hlive, hunits⟩ : ∃ tr h, Path (step 1000) (boot fun _ => ⟨0, 0⟩) tr h ∧
      h.live = [(36728, 20)] ∧ h.units = 4096 := Path.of_labels
    [.malloc 100 [some 4096] 10, .write 36760 ⟨7, 7⟩, .malloc 20 [] 10, .free 36760 10] (by decide +kernel)
  refine ⟨tr, h, hp, hlive, hunits, ?_⟩
  rcases (heap_integrity (by decide) hp).1 with hu | hF
  · exfalso
    rw [hu.live] at hlive
    cases hlive
  · exact hF

end Xv6.Umalloc
