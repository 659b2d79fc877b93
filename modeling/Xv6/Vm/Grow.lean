import Xv6.Vm.Copy

/-!
# `growproc`

The size is unsigned and the increment is signed; 0 is a size, and it is what `allocuvm` returns when it fails. So
`growproc(n)` is exact but for two cases (`growproc_exact_iff`): `n = -sz` takes all pages away and returns -1, and an `n` below
`-sz` wraps around to a size above `sz`, for which `deallocuvm` does nothing and `growproc` returns 0. No page is lost by
them (`life_gives_pages_back`).
-/

namespace Xv6.Vm
open Lib List

/-- `sz + n`, with `n` an `int`, as a `uint`: modulo `2 ^ 32`. -/
def uintAdd (sz : Nat) (n : Int) : Nat := ((sz + n) % 4294967296).toNat

/-- the value that is returned, and `curproc->sz` after the call. -/
def growproc (L : Link) (pgdir sz : Nat) (n : Int) : M (Int × Nat) :=
  if 0 < n then do
    let r ← allocuvm L pgdir sz (uintAdd sz n)
    if r = 0 then pure (-1, sz) else pure (0, r)
  else if n < 0 then do
    let r ← deallocuvm L pgdir sz (uintAdd sz n)
    if r = 0 then pure (-1, sz) else pure (0, r)
  else pure (0, sz)

lemma uintAdd_of_nonneg {sz : Nat} {n : Int} (h0 : 0 ≤ sz + n) (h1 : sz + n < 4294967296) :
    (uintAdd sz n : Int) = sz + n := by
  unfold uintAdd
  rw [Int.emod_eq_of_lt h0 h1, Int.toNat_of_nonneg h0]

lemma le_uintAdd_of_neg {sz : Nat} {n : Int} (h0 : sz + n < 0) (h1 : -2147483648 ≤ n) : KERNBASE ≤ uintAdd sz n := by
  unfold uintAdd
  show 2 ^ 31 ≤ _
  omega

/-- `growproc(n)` is exact, or has no effect. -/
def Exact (m : Mem) (pd sz : Nat) (n r : Int) (sz' : Nat) (m' : Mem) : Prop :=
  (r = 0 ∧ (sz' : Int) = sz + n ∧ Covers m' pd sz' ∧
    (∀ v, PGSIZE * v < sz → PGSIZE * v < sz' → m'.pte pd v = m.pte pd v) ∧
    (∀ v p, PGSIZE * v < sz → PGSIZE * v < sz' → m.uses pd (.page v) = some p → m'.frame p = m.frame p) ∧
    ∀ v p, sz ≤ PGSIZE * v → m'.uses pd (.page v) = some p → m'.frame p = fun _ => 0) ∨
  (r = -1 ∧ sz' = sz ∧ (∀ v, v < UPAGES → m'.map pd v = m.map pd v) ∧
    ∀ v p, m.uses pd (.page v) = some p → m'.frame p = m.frame p)

variable {L : Link} {D : Nat → Prop} {m m' : Mem} {pd v p sz newsz : Nat} {n : Int} {E : Fault → Prop}

/-! ## growing -/

lemma exact_of_within (h : Space L D m pd) (hc : Covers m pd sz) (hle : sz ≤ newsz)
    (hn : (newsz : Int) = sz + n) (hw : Within m m' pd (pages sz) (pages newsz))
    (hz : Zeroed m' pd (pages sz) (pages newsz)) : Exact m pd sz n 0 newsz m' := by
  refine .inl ⟨rfl, hn, hc.grow hle hw hz, fun v hv _ => hw.pte v fun hr => ?_, fun v p _ _ hv => hw.frame_page h hv,
    fun v p hv hp => ?_⟩
  · exact absurd ((page_lt_iff v sz).mp hv) (Nat.not_lt.mpr hr.1)
  · have h1 : pages sz ≤ v := Nat.not_lt.mp fun hc => Nat.not_lt.mpr hv ((page_lt_iff v sz).mpr hc)
    obtain ⟨hvU, hpr, hpa⟩ := uses_page.mp hp
    have h2 : v < pages newsz := (page_lt_iff v newsz).mp ((hc.grow hle hw hz v hvU).mp hpr)
    obtain ⟨q, hq, hqz⟩ := hz.entry h1 h2
    have e : q = p := Option.some.inj ((zeroed_uses hvU hq).symm.trans hp)
    rw [← e]
    exact hqz

lemma exact_of_kept (h : Space L D m pd) (hk : Kept m m' pd) : Exact m pd sz n (-1) sz m' :=
  .inr ⟨rfl, rfl, fun v _ => congrFun hk.map v, fun _ p hv =>
    hk.frame p (h.not_free hv) (h.apart.page hv).1 (h.apart.page hv).2⟩

lemma wp_grow (h : Space L D m pd) (hc : Covers m pd sz) (hs : sz < KERNBASE) (hn : 0 < n) (hn' : n < 2147483648) :
    wp E (growproc L pd sz n) (fun r m' => r.2 < KERNBASE ∧ Space L D m' pd ∧ Exact m pd sz n r.1 r.2 m') m := by
  have hs' : sz < 2 ^ 31 := hs
  have hadd : (uintAdd sz n : Int) = sz + n := uintAdd_of_nonneg (by omega) (by omega)
  have hle : sz < uintAdd sz n := by omega
  unfold growproc
  rw [if_pos hn]
  refine wp_seq (allocuvm_spec h hc.not_present hs) fun r m' h' => ?_
  obtain ⟨hsp, -, hge⟩ := h'
  rcases hge (Nat.le_of_lt hle) with ⟨rfl, hlt, hw, hz⟩ | ⟨rfl, hk⟩
  · rw [if_neg (by omega)]
    exact wp_pure ⟨hlt, hsp, exact_of_within h hc (Nat.le_of_lt hle) hadd hw hz⟩
  · rw [if_pos rfl]
    exact wp_pure ⟨hs, hsp, exact_of_kept h hk⟩

/-! ## shrinking -/

lemma Unmapped.covers (h : Unmapped L D m m' pd (pages newsz) (pages sz)) (hc : Covers m pd sz) (hle : newsz ≤ sz) :
    Covers m' pd newsz := by
  intro v hv
  have hpages : pages newsz ≤ pages sz := pages_mono hle
  have hiff := hc v hv
  rw [page_lt_iff] at hiff
  rw [h.pte, page_lt_iff]
  by_cases hr : pages newsz ≤ v ∧ v < pages sz ∧ Present (m.pte pd v)
  · rw [if_pos hr]
    exact ⟨fun hp => absurd hp not_present_zero, fun hlt => absurd hr.1 (Nat.not_le.mpr hlt)⟩
  · rw [if_neg hr, hiff]
    refine ⟨fun hlt => Nat.not_le.mp fun hge => hr ⟨hge, hlt, hiff.mpr hlt⟩, fun hlt => ?_⟩
    exact Nat.lt_of_lt_of_le hlt hpages

lemma exact_of_unmapped (h : Space L D m pd) (hc : Covers m pd sz) (hle : newsz ≤ sz) (hn : (newsz : Int) = sz + n)
    (hu : Unmapped L D m m' pd (pages newsz) (pages sz)) : Exact m pd sz n 0 newsz m' := by
  have hlow : ∀ v, PGSIZE * v < newsz → ¬ pages newsz ≤ v := fun v hv =>
    Nat.not_le.mpr ((page_lt_iff v newsz).mp hv)
  refine .inl ⟨rfl, hn, hu.covers hc hle, fun v _ hv => ?_, fun v p _ hv hp => ?_, fun v p hv hp => ?_⟩
  · rw [hu.pte]
    exact if_neg fun hr => hlow v hv hr.1
  · refine hu.frame p (h.apart.page hp).2 fun x h1 _ hx => hlow v hv ?_
    rw [Use.page.inj (h.apart _ _ _ hp hx)]
    exact h1
  · -- there is no page above the old size
    obtain ⟨hvU, hpr, -⟩ := uses_page.mp (hu.kept hp).1
    exact absurd ((hc v hvU).mp hpr) (Nat.not_lt.mpr hv)

lemma Covers.first (hc : Covers m pd sz) (h0 : 0 < sz) : Present (m.pte pd 0) := (hc 0 (by decide)).mpr h0

section
variable (h : Space L D m pd) (hc : Covers m pd sz) (hs : sz < KERNBASE)
include h hc hs

lemma wp_shrink (hn : n < 0)
    (hn' : -2147483648 ≤ n) : wp E (growproc L pd sz n) (fun r m' => Space L D m' pd ∧
      (-n < sz → Exact m pd sz n r.1 r.2 m') ∧ (-n = sz → r = (-1, sz) ∧ ¬ Present (m'.pte pd 0)) ∧
      (sz < -n → m' = m ∧ r = if sz = 0 then (-1, sz) else (0, sz))) m := by
  have hs' : sz < 2 ^ 31 := hs
  unfold growproc
  rw [if_neg (by omega), if_pos hn]
  by_cases hlt : (sz : Int) < -n
  · -- the sum wraps around
    have hge : KERNBASE ≤ uintAdd sz n := le_uintAdd_of_neg (by omega) hn'
    unfold deallocuvm
    rw [if_pos (Nat.le_trans (Nat.le_of_lt hs) hge)]
    show wp E (if sz = 0 then pure (-1, sz) else pure (0, sz)) _ m
    have hno : ¬ (-n < sz) ∧ ¬ (-n = sz) := ⟨by omega, by omega⟩
    split
    · exact wp_pure ⟨h, fun hc => absurd hc hno.1, fun hc => absurd hc hno.2, fun _ => ⟨rfl, rfl⟩⟩
    · exact wp_pure ⟨h, fun hc => absurd hc hno.1, fun hc => absurd hc hno.2, fun _ => ⟨rfl, rfl⟩⟩
  · have hadd : (uintAdd sz n : Int) = sz + n := uintAdd_of_nonneg (by omega) (by omega)
    refine wp_seq (deallocuvm_spec h (Nat.le_of_lt hs) (by omega)) fun r m' h' => ?_
    obtain ⟨rfl, hu⟩ := h'
    by_cases h0 : uintAdd sz n = 0
    · rw [if_pos h0]
      refine wp_pure ⟨hu.space, fun hc => absurd hc (by omega), fun _ => ⟨rfl, ?_⟩, fun hc => absurd hc hlt⟩
      rw [hu.pte]
      have hpos : 0 < sz := by omega
      rw [if_pos ⟨by rw [h0]; exact Nat.le_refl 0, (page_lt_iff 0 sz).mp hpos, hc.first hpos⟩]
      exact not_present_zero
    · rw [if_neg h0]
      refine wp_pure ⟨hu.space, fun _ => ?_, fun hc => absurd hc (by omega), fun hc => absurd hc hlt⟩
      exact exact_of_unmapped h hc (by omega) hadd hu

lemma wp_growproc (hn : -2147483648 ≤ n)
    (hn' : n < 2147483648) : wp E (growproc L pd sz n) (fun r m' => Space L D m' pd ∧
      (Exact m pd sz n r.1 r.2 m' ↔ 0 ≤ n ∨ -n < sz ∨ sz = 0)) m := by
  rcases Int.lt_trichotomy n 0 with hneg | rfl | hpos
  · refine wp_mono (wp_shrink h hc hs hneg hn) fun r m' h' => ?_
    obtain ⟨hsp, h1, h2, h3⟩ := h'
    refine ⟨hsp, ?_⟩
    rcases Int.lt_trichotomy (-n) sz with hlt | heq | hgt
    · exact ⟨fun _ => .inr (.inl hlt), fun _ => h1 hlt⟩
    · -- all pages are gone, and -1 is returned
      obtain ⟨rfl, hgone⟩ := h2 heq
      refine ⟨fun he => ?_, fun hw => absurd hw (by omega)⟩
      rcases he with ⟨hr, -⟩ | ⟨-, -, hmap, -⟩
      · exact absurd (show (-1 : Int) = 0 from hr) (by decide)
      · have hm := hmap 0 (by decide)
        rw [map_none.mpr hgone] at hm
        exact absurd (hc.first (by omega)) (map_none.mp hm.symm)
    · obtain ⟨rfl, rfl⟩ := h3 hgt
      by_cases h0 : sz = 0
      · rw [if_pos h0]
        exact ⟨fun _ => .inr (.inr h0), fun _ => .inr ⟨rfl, rfl, fun _ _ => rfl, fun _ _ _ => rfl⟩⟩
      · rw [if_neg h0]
        refine ⟨fun he => ?_, fun hw => absurd hw (by omega)⟩
        rcases he with ⟨-, hsz, -⟩ | ⟨hr, -⟩
        · have hsz : (sz : Int) = sz + n := hsz
          omega
        · exact absurd (show (0 : Int) = -1 from hr) (by decide)
  · refine wp_pure ⟨h, fun _ => .inl (Int.le_refl 0), fun _ => .inl ⟨rfl, (Int.add_zero _).symm, hc, fun _ _ _ => rfl,
      fun _ _ _ _ _ => rfl, fun v p hv hp => ?_⟩⟩
    obtain ⟨hvU, hpr, -⟩ := uses_page.mp hp
    exact absurd ((hc v hvU).mp hpr) (Nat.not_lt.mpr hv)
  · refine wp_mono (wp_grow h hc hs hpos hn') fun r m' h' => ⟨h'.2.1, ?_⟩
    exact ⟨fun _ => .inl (Int.le_of_lt hpos), fun _ => h'.2.2⟩

end

/-- **`growproc(n)` is exact or has no effect, but for `n ≤ -sz`.** -/
theorem growproc_exact_iff (L : Link) (D : Nat → Prop) (m : Mem) (pd sz : Nat) (n : Int) (h : Space L D m pd)
    (hc : Covers m pd sz) (hs : sz < KERNBASE) (hn : -2147483648 ≤ n) (hn' : n < 2147483648) :
    ∃ r sz' m', growproc L pd sz n m = .ok ((r, sz'), m') ∧ Space L D m' pd ∧
      (Exact m pd sz n r sz' m' ↔ 0 ≤ n ∨ -n < sz ∨ sz = 0) := by
  obtain ⟨r, m', hrun, hr⟩ := ok_of_wp (wp_growproc h hc hs hn hn')
  exact ⟨r.1, r.2, m', hrun, hr⟩

lemma onePage_covers : Covers onePage 300 4096 := by
  intro v _
  rw [onePage_pte]
  by_cases e : v = 0
  · rw [if_pos e, e]
    exact ⟨fun _ => by decide, fun _ => by decide⟩
  · rw [if_neg e]
    refine ⟨fun hp => absurd hp not_present_zero, fun hv => absurd hv ?_⟩
    show ¬ 4096 * v < 4096
    omega

/-- `sbrk(-100)` of a process with one page. -/
theorem growproc_exact_onePage : ∃ r sz' m', growproc stock 300 4096 (-100) onePage = .ok ((r, sz'), m') ∧
    Exact onePage 300 4096 (-100) r sz' m' := by
  obtain ⟨r, sz', m', hrun, -, hiff⟩ := growproc_exact_iff stock fourPages onePage 300 4096 (-100) onePage_space
    onePage_covers (by decide) (by decide) (by decide)
  exact ⟨r, sz', m', hrun, hiff.mpr (by decide)⟩

/-- `sbrk(-4096)` of a process with one page returns -1, and the page is gone; `sbrk(-8192)` succeeds, and the size is
the same. -/
theorem growproc_below_zero :
    (∃ m', growproc stock 300 4096 (-4096) onePage = .ok ((-1, 4096), m') ∧ m'.map 300 0 = none ∧
      onePage.map 300 0 = some (PGSIZE * 302 + 7) ∧ ¬ Exact onePage 300 4096 (-4096) (-1) 4096 m') ∧
    growproc stock 300 4096 (-8192) onePage = .ok ((0, 4096), onePage) ∧
      ¬ Exact onePage 300 4096 (-8192) 0 4096 onePage := by
  have hmap : onePage.map 300 0 = some (PGSIZE * 302 + 7) := by
    apply map_some.mpr
    rw [onePage_pte]
    exact ⟨by decide, rfl⟩
  constructor
  · obtain ⟨r, m', hrun, -, -, h2, -⟩ := ok_of_wp
      (wp_shrink (n := -4096) onePage_space onePage_covers (by decide) (by decide) (by decide))
    obtain ⟨rfl, hgone⟩ := h2 (by decide)
    refine ⟨m', hrun, map_none.mpr hgone, hmap, fun he => ?_⟩
    rcases he with ⟨hr, -⟩ | ⟨-, -, hm, -⟩
    · exact absurd hr (by decide)
    · have hm := hm 0 (by decide)
      rw [map_none.mpr hgone, hmap] at hm
      cases hm
  · obtain ⟨r, m', hrun, -, -, -, h3⟩ := ok_of_wp
      (wp_shrink (n := -8192) onePage_space onePage_covers (by decide) (by decide) (by decide))
    obtain ⟨rfl, rfl⟩ := h3 (by decide)
    refine ⟨hrun, fun he => ?_⟩
    rcases he with ⟨-, hsz, -⟩ | ⟨hr, -⟩
    · exact absurd hsz (by decide)
    · exact absurd hr (by decide)

/-! ## the life of an address space -/

/-- calls of `sbrk`, one after the other. -/
def growAll (L : Link) (pd : Nat) : List Int → Nat → M Unit
  | [], _ => pure ()
  | n :: ns, sz => do
    let r ← growproc L pd sz n
    growAll L pd ns r.2

/-- an address space, from `setupkvm` to `freevm`. -/
def life (L : Link) (ns : List Int) : M Unit := do
  let r ← setupkvm L
  match r with
  | none => pure ()
  | some pd => do
    growAll L pd ns 0
    freevm L (some pd)

/-- an address space without pages above `sz`, which may have holes. -/
structure Lives (L : Link) (D : Nat → Prop) (m₀ m : Mem) (pd sz : Nat) : Prop where
  space : Space L D m pd
  above : ∀ v, pages sz ≤ v → v < UPAGES → ¬ Present (m.pte pd v)
  size : sz < KERNBASE
  outside : Outside D m₀ m

variable {m₀ : Mem} {r : Nat}

lemma Lives.result (h : Lives L D m₀ m pd r) (hs : sz < KERNBASE) :
    wp E (if r = 0 then pure (-1, sz) else pure (0, r) : M (Int × Nat)) (fun x m' => Lives L D m₀ m' pd x.2) m := by
  split
  · next h0 =>
    exact wp_pure ⟨h.space, fun v hv => h.above v (Nat.le_trans (pages_mono (h0 ▸ Nat.zero_le sz)) hv), hs, h.outside⟩
  · exact wp_pure h

lemma Lives.growproc (h : Lives L D m₀ m pd sz) :
    wp E (growproc L pd sz n) (fun x m' => Lives L D m₀ m' pd x.2) m := by
  unfold Vm.growproc
  split
  · refine wp_seq (allocuvm_spec h.space h.above h.size) fun r m' h' => ?_
    obtain ⟨hsp, hlt, hge⟩ := h'
    rcases Nat.lt_or_ge (uintAdd sz n) sz with hc | hc
    · obtain ⟨rfl, rfl⟩ := hlt hc
      exact h.result h.size
    · rcases hge hc with ⟨rfl, hk, hw, -⟩ | ⟨rfl, hk⟩
      · have hnew : Lives L D m₀ m' pd (uintAdd sz n) := by
          refine ⟨hsp, fun v hv hU => ?_, hk, h.outside.trans (hw.outside h.space)⟩
          rw [hw.pte v (by omega)]
          exact h.above v (Nat.le_trans (pages_mono hc) hv) hU
        exact hnew.result h.size
      · refine wp_pure ⟨hsp, fun v hv hU => ?_, h.size, h.outside.trans (hk.outside h.space)⟩
        rw [← map_none, hk.map, map_none]
        exact h.above v hv hU
  · split
    · by_cases hc : uintAdd sz n < sz
      · refine wp_seq (deallocuvm_spec h.space (Nat.le_of_lt h.size) hc) fun r m' h' => ?_
        obtain ⟨rfl, hu⟩ := h'
        have hnew : Lives L D m₀ m' pd (uintAdd sz n) := by
          refine ⟨hu.space, fun v hv hU => ?_, Nat.lt_trans hc h.size, h.outside.trans (hu.outside h.space)⟩
          rw [hu.pte]
          split
          · exact not_present_zero
          · next hr =>
            intro hp
            rcases Nat.lt_or_ge v (pages sz) with hv' | hv'
            · exact hr ⟨hv, hv', hp⟩
            · exact h.above v hv' hU hp
        exact hnew.result h.size
      · unfold deallocuvm
        rw [if_pos (Nat.not_lt.mp hc)]
        exact h.result h.size
    · exact wp_pure h

lemma Lives.growAll {ns : List Int} (h : Lives L D m₀ m pd sz) :
    wp E (growAll L pd ns sz) (fun _ m' => Space L D m' pd ∧ Outside D m₀ m') m := by
  induction ns generalizing sz m with
  | nil => exact wp_pure ⟨h.space, h.outside⟩
  | cons n ns ih => exact wp_seq h.growproc fun _ _ h' => ih h'

/-- **No page is lost or freed twice in the life of an address space**: after any calls of `sbrk`, and also if memory
runs out, the free pages are those from before, and no other page has changed. -/
theorem life_gives_pages_back (L : Link) (m : Mem) (ns : List Int) (hn : m.freelist.Nodup)
    (hp : ∀ p ∈ m.freelist, L.Page p) : ∃ m', life L ns m = .ok ((), m') ∧ m'.freelist.Perm m.freelist ∧
      ∀ p, p ∉ m.freelist → m'.frame p = m.frame p := by
  have hw : wp (fun _ => False) (life L ns) (fun _ m' => Pool L (· ∈ m.freelist) m'.freelist (fun _ => none) ∧
      Outside (· ∈ m.freelist) m m') m := by
    refine wp_seq (setupkvm_spec (Pool.start hn hp)) fun r m₁ h1 => ?_
    obtain ⟨ho, hnone, hsome⟩ := h1
    cases r with
    | none => exact wp_pure ⟨hnone rfl, ho⟩
    | some pd =>
      obtain ⟨hs, -, hz⟩ := hsome pd rfl
      have hl : Lives L (· ∈ m.freelist) m m₁ pd 0 :=
        ⟨hs, fun v _ hU => (hz v hU).symm ▸ not_present_zero, by decide, ho⟩
      refine wp_seq hl.growAll fun _ m₂ h2 => ?_
      exact wp_mono (freevm_spec h2.1) fun _ m₃ h3 => ⟨h3.1, h2.2.trans h3.2⟩
  obtain ⟨⟨⟩, m', hrun, hpool, ho⟩ := ok_of_wp hw
  exact ⟨m', hrun, (perm_ext_iff_of_nodup hpool.nodup hn).mpr (mem_of_pool hpool), ho⟩

/-- with a hundred free pages there is room for the kernel half and a few user pages. -/
theorem life_gives_pages_back_hundred :
    ∃ m', life stock [5000, -3000, -2000] ⟨fun _ _ => 0, range' 300 100⟩ = .ok ((), m') ∧
      m'.freelist.Perm (range' 300 100) := by
  obtain ⟨m', hrun, hperm, -⟩ := life_gives_pages_back stock ⟨fun _ _ => 0, range' 300 100⟩
    [5000, -3000, -2000] nodup_range' fun p hp => by
      have hp : 300 ≤ p ∧ p < 400 := by simpa using hp
      exact ⟨show 0x80116000 ≤ 0x80000000 + 4096 * p by omega, show 4096 * p < 0xE000000 by omega⟩
  exact ⟨m', hrun, hperm⟩

end Xv6.Vm
