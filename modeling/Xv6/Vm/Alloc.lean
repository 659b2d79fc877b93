import Xv6.Vm.Dealloc

/-!
# `mappages` and `allocuvm`

`Within m m' pd lo hi`: between `m` and `m'` pages were only taken from the free list, for page tables of `pd` and for
the user pages from `lo` to `hi`. It says nothing of who holds them: that is `Space`, before and after. So one
relation serves a call that succeeds, one that fails half way, and one that still has a page in its hand.

The rollback of `allocuvm` is `Within` and then `Unmapped` over a range that may be larger than what was mapped
(`rollback`).
-/

namespace Xv6.Vm
open Lib Function List

structure Within (m m' : Mem) (pd lo hi : Nat) : Prop where
  free : ∃ l, m.freelist = l ++ m'.freelist
  table : ∀ i t, m.table pd i = some t → m'.table pd i = some t
  table_of : ∀ i t, m'.table pd i = some t → m.table pd i = some t ∨ t ∈ m.freelist
  same : ∀ i, hi ≤ 1024 * i ∨ 1024 * (i + 1) ≤ lo → m'.table pd i = m.table pd i
  pte : ∀ v, ¬ (lo ≤ v ∧ v < hi) → m'.pte pd v = m.pte pd v
  frame : ∀ p, p ∉ m.freelist → p ≠ pd → (∀ i, m.table pd i ≠ some p) → m'.frame p = m.frame p

variable {L : Link} {D : Nat → Prop} {m m' m₀ m₁ : Mem} {pd v p t w lo mid hi perm : Nat} {l : List Nat}

namespace Within

lemma refl (m : Mem) (pd lo hi : Nat) : Within m m pd lo hi :=
  ⟨⟨[], rfl⟩, fun _ _ h => h, fun _ _ h => .inl h, fun _ _ => rfl, fun _ _ => rfl, fun _ _ _ _ => rfl⟩

lemma mem_free (h : Within m m' pd lo hi) (hp : p ∈ m'.freelist) : p ∈ m.freelist := by
  obtain ⟨l, hl⟩ := h.free
  rw [hl]
  exact mem_append_right l hp

lemma widen (h : Within m m' pd lo hi) {lo' hi' : Nat} (h1 : lo' ≤ lo) (h2 : hi ≤ hi') : Within m m' pd lo' hi' where
  free := h.free
  table := h.table
  table_of := h.table_of
  same := fun i hi => h.same i (hi.imp (Nat.le_trans h2) fun hi => Nat.le_trans hi h1)
  pte := fun v hv => h.pte v fun hc => hv ⟨Nat.le_trans h1 hc.1, Nat.lt_of_lt_of_le hc.2 h2⟩
  frame := h.frame

lemma trans (h : Within m m₁ pd lo hi) (h' : Within m₁ m' pd lo hi) : Within m m' pd lo hi where
  free := by
    obtain ⟨l, hl⟩ := h.free
    obtain ⟨l', hl'⟩ := h'.free
    exact ⟨l ++ l', by rw [hl, hl', append_assoc]⟩
  table := fun i t ht => h'.table i t (h.table i t ht)
  table_of := fun i t ht => by
    rcases h'.table_of i t ht with ht | ht
    · exact h.table_of i t ht
    · exact .inr (h.mem_free ht)
  same := fun i hi => (h'.same i hi).trans (h.same i hi)
  pte := fun v hv => (h'.pte v hv).trans (h.pte v hv)
  frame := fun p hp hpd ht => by
    have ht' : ∀ i, m₁.table pd i ≠ some p := fun i hi => (h.table_of i p hi).elim (ht i) hp
    rw [h'.frame p (fun hc => hp (h.mem_free hc)) hpd ht', h.frame p hp hpd ht]

lemma frame_page (h : Within m m' pd lo hi) (hs : Space L D m pd) (hv : m.uses pd (.page v) = some p) :
    m'.frame p = m.frame p :=
  h.frame p (hs.not_free hv) (hs.apart.page hv).1 (hs.apart.page hv).2

end Within

/-! ## `kalloc` -/

section
variable {α : Type} {E : Fault → Prop} {R : α → Mem → Prop}

lemma kalloc_nil (hl : m.freelist = []) : kalloc m = .ok (none, m) := by
  obtain ⟨frame, l⟩ := m
  cases hl
  rfl

lemma kalloc_cons (hl : m.freelist = p :: l) : kalloc m = .ok (some p, { m with freelist := l }) := by
  obtain ⟨frame, l'⟩ := m
  cases hl
  rfl

lemma wp_kalloc_seq {f : Option Nat → M α} (h0 : m.freelist = [] → wp E (f none) R m)
    (h1 : ∀ p l, m.freelist = p :: l → wp E (f (some p)) R { m with freelist := l }) : wp E (kalloc >>= f) R m := by
  cases hl : m.freelist with
  | nil =>
    apply wp_seq (wp_of_ok (kalloc_nil hl) ⟨rfl, rfl⟩) (Q := fun r m' => r = none ∧ m' = m)
    rintro r m' ⟨rfl, rfl⟩
    exact h0 hl
  | cons p l =>
    apply wp_seq (wp_of_ok (kalloc_cons hl) ⟨rfl, rfl⟩) (Q := fun r m' => r = some p ∧ m' = { m with freelist := l })
    rintro r m' ⟨rfl, rfl⟩
    exact h1 p l hl

lemma taken {b : Frame} (h : Space L D m pd) (hl : m.freelist = p :: l) :
    D p ∧ L.Page p ∧ Space L (Without D p) (({ m with freelist := l } : Mem).set p b) pd ∧
      ∀ lo hi, Within m (({ m with freelist := l } : Mem).set p b) pd lo hi := by
  have hm : p ∈ m.freelist := by
    rw [hl]
    exact mem_cons_self
  have h' : Pool L D (p :: l) (m.uses pd) := by
    rw [← hl]
    exact h
  obtain ⟨hD, -, hpool⟩ := h'.take
  obtain ⟨hpd, htab, -⟩ := h.fresh (.inl hm)
  obtain ⟨e1, e2, e3⟩ : (({ m with freelist := l } : Mem).set p b).table pd = m.table pd ∧
      (({ m with freelist := l } : Mem).set p b).pte pd = m.pte pd ∧
      (({ m with freelist := l } : Mem).set p b).uses pd = m.uses pd :=
    Space.view_set (m := { m with freelist := l }) hpd htab
  refine ⟨hD, h.page p hD, ?_, fun lo hi =>
    ⟨⟨[p], hl⟩, fun i t ht => ?_, fun i t ht => .inl ?_, fun i _ => ?_, fun v _ => ?_, fun q hq _ _ => ?_⟩⟩
  · show Pool L (Without D p) l _
    rw [e3]
    exact hpool
  · rw [e1]
    exact ht
  · rw [← e1]
    exact ht
  · rw [e1]
  · rw [e2]
  · exact update_of_ne (fun e : q = p => hq (e ▸ hm)) _ _

/-! ## `walkpgdir` with `alloc` -/

lemma within_hook {d : Nat} (h : Stocked L m pd) (hl : m.freelist = t :: l) (hd : d < NPDENTRIES)
    (hn : m.table pd d = none) (hv : v / 1024 = d) : Within m (m.hook pd d t l) pd v (v + 1) where
  free := ⟨[t], hl⟩
  table := fun i t' ht' => by
    have hne : i ≠ d := by
      rintro rfl
      rw [hn] at ht'
      cases ht'
    rw [table_hook h hl hd hn, update_of_ne hne]
    exact ht'
  table_of := fun i t' ht' => by
    rw [table_hook h hl hd hn] at ht'
    by_cases e : i = d
    · rw [e, update_self] at ht'
      rw [← Option.some.inj ht', hl]
      exact .inr mem_cons_self
    · rw [update_of_ne e] at ht'
      exact .inl ht'
  same := fun i hi => by
    rw [table_hook h hl hd hn, update_of_ne (by omega)]
  pte := fun v _ => congrFun (pte_hook h hl hd hn) v
  frame := fun p hp hpd _ => by
    refine frame_hook h hl hd hn ?_ hpd
    rintro rfl
    apply hp
    rw [hl]
    exact mem_cons_self

lemma wp_walk_alloc {f : Option (Nat × Nat) → M α} (h : Stocked L m pd) (hv : v < NPAGES)
    (h0 : wp E (f none) R m)
    (h1 : ∀ m₁ t, Stocked L m₁ pd → (∀ D, Space L D m pd → Space L D m₁ pd) → Within m m₁ pd v (v + 1) → m₁.pte pd = m.pte pd →
      m₁.table pd (v / 1024) = some t → wp E (f (some (t, v % 1024))) R m₁) :
    wp E (walkpgdir pd (PGSIZE * v) true >>= f) R m := by
  have hi : v / 1024 < NPDENTRIES := Nat.div_lt_of_lt_mul hv
  unfold walkpgdir
  rw [PDX_page hv, PTX_page, bind_assoc]
  apply wp_load_seq
  by_cases hp : Present (m.pde pd (v / 1024))
  · apply Eq.mpr (congrArg (fun x : M (Option (Nat × Nat)) => wp E (x >>= f) R m) (if_pos hp))
    exact h1 m _ h (fun _ hs => hs) (Within.refl m pd _ _) rfl (table_some.mpr ⟨hi, hp, rfl⟩)
  · have hn := (table_none hi).mpr hp
    apply Eq.mpr (congrArg (fun x : M (Option (Nat × Nat)) => wp E (x >>= f) R m) (if_neg hp))
    rw [if_neg (by decide), bind_assoc]
    refine wp_kalloc_seq (fun _ => h0) fun t l hl => ?_
    refine h1 (m.hook pd (v / 1024) t l) t (stocked_hook h hl hi hn) (fun _ hs => space_hook hs hl hi hn)
      (within_hook h hl hi hn rfl) (pte_hook h hl hi hn) ?_
    rw [table_hook h hl hi hn, update_self]

/-! ## `mappages` -/

/-- **A turn of the loop of `mappages`** at a page that is not mapped. -/
theorem wp_mapTurn {R : Bool → Mem → Prop} {last pa fuel : Nat} (h : Stocked L m pd) (hv : v < NPAGES)
    (hn : ¬ Present (m.pte pd v)) (hf : 0 < fuel) (h0 : R false m)
    (h1 : ∀ m₁ t, Stocked L m₁ pd → (∀ D, Space L D m pd → Space L D m₁ pd) → Within m m₁ pd v (v + 1) → m₁.pte pd = m.pte pd →
      m₁.table pd (v / 1024) = some t →
      wp E (if PGSIZE * v = last then pure true
        else mapLoop pd last perm (fuel - 1) (u32 (PGSIZE * v + PGSIZE)) (u32 (pa + PGSIZE))) R
        (m₁.store t (v % 1024) (pa ||| perm ||| PTE_P))) :
    wp E (mapLoop pd last perm fuel (PGSIZE * v) pa) R m := by
  cases fuel with
  | zero => exact absurd hf (Nat.lt_irrefl 0)
  | succ =>
    unfold mapLoop
    refine wp_walk_alloc h hv (wp_pure h0) fun m₁ t hst hs hw hpte ht => ?_
    apply wp_load_seq
    rw [← pte_of_table ht, hpte]
    apply Eq.mpr (congrArg (wp E · R m₁) (if_neg hn))
    exact wp_modify_seq (h1 m₁ t hst hs hw hpte ht)

lemma entry_eq (p : Nat) (hperm : perm < PGSIZE) : PGSIZE * p ||| perm ||| PTE_P = PGSIZE * p + (perm ||| PTE_P) := by
  rw [Nat.or_assoc]
  exact or_flags p (Nat.or_lt_two_pow (n := 12) hperm (by decide))

lemma within_store (h : Tables m pd) (ht : m.table pd (v / 1024) = some t) :
    Within m (m.store t (v % 1024) w) pd v (v + 1) where
  free := ⟨[], rfl⟩
  table := fun i t' ht' => by
    rw [table_store h ht]
    exact ht'
  table_of := fun i t' ht' => by
    rw [table_store h ht] at ht'
    exact .inl ht'
  same := fun i _ => by
    rw [table_store h ht]
  pte := fun x hx => by
    rw [pte_store h ht]
    exact if_neg (by omega)
  frame := fun p _ _ hp => update_of_ne (fun e : p = t => hp _ (e ▸ ht)) _ _

lemma entry_lt (hp : L.Page p) (hperm : perm < PGSIZE) :
    (PGSIZE * p + (perm ||| PTE_P)) % 2 ^ 32 = PGSIZE * p + (perm ||| PTE_P) := by
  have h1 : perm ||| PTE_P < 4096 := Nat.or_lt_two_pow (n := 12) hperm (by decide)
  have h2 : 4096 * p < 0xE000000 := hp.2
  show (4096 * p + (perm ||| PTE_P)) % 2 ^ 32 = _
  exact Nat.mod_eq_of_lt (by omega)

lemma pteAddr_entry (hperm : perm < PGSIZE) : pteAddr (PGSIZE * p + (perm ||| PTE_P)) = p := by
  have h1 : perm ||| PTE_P < 4096 := Nat.or_lt_two_pow (n := 12) hperm (by decide)
  show (4096 * p + (perm ||| PTE_P)) / 4096 = p
  omega

lemma present_entry (p perm : Nat) : Present (PGSIZE * p + (perm ||| PTE_P)) := by
  have h1 : (perm ||| 1) % 2 = 1 := Nat.or_mod_two_eq_one.mpr (.inr rfl)
  rw [present_iff]
  show (4096 * p + (perm ||| 1)) % 2 = 1
  omega

/-- **`mappages` of one user page**, which is in the hand. -/
theorem wp_mapPage (h : Space L (Without D p) m pd) (hD : D p) (hp : L.Page p) (hv : v < UPAGES)
    (hn : ¬ Present (m.pte pd v)) (hperm : perm < PGSIZE) :
    wp E (mappages pd (PGSIZE * v) PGSIZE (PGSIZE * p) perm) (fun ok m' => Within m m' pd v (v + 1) ∧
      (ok = true → Space L D m' pd ∧ m'.pte pd v = PGSIZE * p + (perm ||| PTE_P)) ∧
      (ok = false → Space L (Without D p) m' pd ∧ m'.pte pd = m.pte pd)) m := by
  have hv' : v < 2 ^ 19 := hv
  have hlast : PGROUNDDOWN (u32 (u32 (PGSIZE * v + PGSIZE) + (2 ^ 32 - 1))) = PGSIZE * v := by
    show ((4096 * v + 4096) % 2 ^ 32 + (2 ^ 32 - 1)) % 2 ^ 32 / 4096 * 4096 = 4096 * v
    omega
  have hfirst : PGROUNDDOWN (PGSIZE * v) = PGSIZE * v := by
    show 4096 * v / 4096 * 4096 = 4096 * v
    omega
  unfold mappages
  rw [hlast, hfirst]
  refine wp_mapTurn h.stocked (Nat.lt_trans hv (by decide)) hn (by decide) ?_ fun m₁ t hst hs hw hpte ht => ?_
  · exact ⟨Within.refl m pd _ _, fun hc => absurd hc (by decide), fun _ => ⟨h, rfl⟩⟩
  · rw [if_pos rfl, entry_eq p hperm]
    have hn' : ¬ Present (m₁.pte pd v) := by
      rw [hpte]
      exact hn
    refine wp_pure ⟨hw.trans (within_store hst.toTables ht), fun _ => ⟨?_, ?_⟩, fun hc => absurd hc (by decide)⟩
    · refine Space.map (hs _ h) hD hp hv ht hn' ?_ ?_
      · rw [entry_lt hp hperm]
        exact present_entry p perm
      · rw [entry_lt hp hperm]
        exact pteAddr_entry hperm
    · rw [pte_store hst.toTables ht, if_pos rfl, entry_lt hp hperm]

end

/-! ## what stays when a call fails -/

/-- the mapping of a virtual page: its entry, if it is present. -/
def Mem.map (m : Mem) (pd v : Nat) : Option Nat := if Present (m.pte pd v) then some (m.pte pd v) else none

lemma map_none : m.map pd v = none ↔ ¬ Present (m.pte pd v) := by
  unfold Mem.map
  split
  · next h => exact ⟨fun e => (by cases e), fun e => absurd h e⟩
  · next h => exact ⟨fun _ => h, fun _ => rfl⟩

lemma map_some : m.map pd v = some w ↔ Present (m.pte pd v) ∧ m.pte pd v = w := by
  unfold Mem.map
  split
  · next h => exact ⟨fun e => ⟨h, Option.some.inj e⟩, fun e => congrArg some e.2⟩
  · next h => exact ⟨fun e => (by cases e), fun e => absurd e.1 h⟩

lemma uses_of_map (h : m'.map pd v = m.map pd v) : m'.uses pd (.page v) = m.uses pd (.page v) := by
  cases hm : m.map pd v with
  | none =>
    rw [hm] at h
    have h1 : m'.uses pd (.page v) = none := if_neg fun hc => map_none.mp h hc.2
    have h2 : m.uses pd (.page v) = none := if_neg fun hc => map_none.mp hm hc.2
    rw [h1, h2]
  | some =>
    rw [hm] at h
    exact uses_page_congr ((map_some.mp h).2.trans (map_some.mp hm).2.symm)

/-- the user pages are those from before, with their content; page tables may have been added. -/
structure Kept (m m' : Mem) (pd : Nat) : Prop where
  table : ∀ i t, m.table pd i = some t → m'.table pd i = some t
  map : m'.map pd = m.map pd
  frame : ∀ p, p ∉ m.freelist → p ≠ pd → (∀ i, m.table pd i ≠ some p) → m'.frame p = m.frame p

lemma Kept.release (h : Kept m m' pd) (hp : p ∈ m.freelist) (e1 : (m'.release p).table pd = m'.table pd)
    (e2 : (m'.release p).pte pd = m'.pte pd) : Kept m (m'.release p) pd where
  table := fun i t ht => by
    rw [e1]
    exact h.table i t ht
  map := by
    rw [← h.map]
    funext v
    unfold Mem.map
    rw [e2]
  frame := fun q hq hpd ht => by
    rw [← h.frame q hq hpd ht]
    exact update_of_ne (fun e : q = p => hq (e ▸ hp)) _ _

lemma Within.kept (h : Within m m' pd lo lo) : Kept m m' pd where
  table := h.table
  map := by
    funext v
    unfold Mem.map
    rw [h.pte v (by omega)]
  frame := h.frame

lemma Kept.free (h : Kept m m' pd) (hs : Space L D m pd) (hs' : Space L D m' pd) (p : Nat) :
    p ∈ m.freelist ↔ p ∈ m'.freelist ∨ ∃ i, m'.table pd i = some p ∧ m.table pd i = none := by
  have hstay : ∀ u, m.uses pd u = some p → m'.uses pd u = some p := by
    intro u hu
    cases u with
    | dir => exact hu
    | table i => exact h.table i p hu
    | page v =>
      rw [uses_of_map (congrFun h.map v)]
      exact hu
  have hnew : ∀ i, m'.table pd i = some p → p ∈ m.freelist → m.table pd i = none := by
    intro i hi hp
    cases ht : m.table pd i with
    | none => rfl
    | some t =>
      have e : t = p := Option.some.inj ((h.table i t ht).symm.trans hi)
      exact absurd (e ▸ ht) (hs.not_owned (u := .table i) hp)
  constructor
  · intro hp
    refine or_iff_not_imp_left.mpr fun hp' => ?_
    obtain ⟨u, hu⟩ := (hs'.owns.used_iff p (hs.free p hp)).mp (decide_eq_true hp')
    cases u with
    | dir => exact absurd hu (hs.not_owned (u := .dir) hp)
    | table i => exact ⟨i, hu, hnew i hu hp⟩
    | page v =>
      rw [uses_of_map (congrFun h.map v)] at hu
      exact absurd hu (hs.not_owned hp)
  · intro hp
    by_contra hp'
    rcases hp with hp | ⟨i, hi, hn⟩
    · obtain ⟨u, hu⟩ := (hs.owns.used_iff p (hs'.free p hp)).mp (decide_eq_true hp')
      exact hs'.not_owned hp (hstay u hu)
    · obtain ⟨u, hu⟩ := (hs.owns.used_iff p (hs'.owns.data (.table i) p hi)).mp (decide_eq_true hp')
      have e := hs'.apart u (.table i) p (hstay u hu) hi
      rw [e] at hu
      exact absurd (hn.symm.trans hu) (Option.some_ne_none p).symm

/-- **The rollback.** What was mapped from `lo` on is taken away, over a range that may be larger. -/
theorem rollback (h : Within m m₁ pd lo mid) (h' : Unmapped L D m₁ m' pd lo hi) (hm : mid ≤ hi)
    (hf : ∀ v p, lo ≤ v → m₁.uses pd (.page v) = some p → p ∈ m.freelist)
    (hn : ∀ v, lo ≤ v → v < hi → ¬ Present (m.pte pd v)) : Kept m m' pd where
  table := fun i t ht => by
    rw [h'.table]
    exact h.table i t ht
  map := by
    funext v
    by_cases hv : lo ≤ v ∧ v < hi
    · have h0 : ¬ Present (m'.pte pd v) := by
        rw [h'.pte]
        by_cases hp : Present (m₁.pte pd v)
        · rw [if_pos ⟨hv.1, hv.2, hp⟩]
          exact not_present_zero
        · rw [if_neg fun hc => hp hc.2.2]
          exact hp
      rw [map_none.mpr h0, map_none.mpr (hn v hv.1 hv.2)]
    · have e : m'.pte pd v = m.pte pd v := by
        rw [h'.pte, if_neg fun hc => hv ⟨hc.1, hc.2.1⟩, h.pte v fun hc => hv ⟨hc.1, Nat.lt_of_lt_of_le hc.2 hm⟩]
      unfold Mem.map
      rw [e]
  frame := fun p hp hpd ht => by
    have ht' : ∀ i, m₁.table pd i ≠ some p := fun i hi => (h.table_of i p hi).elim (ht i) hp
    rw [h'.frame p ht' fun v h1 _ hv => hp (hf v p h1 hv), h.frame p hp hpd ht]

/-! ## `allocuvm` -/

/-- the pages from `lo` to `hi` are mapped with the flags `perm` and have the content `b`. -/
def Filled (m : Mem) (pd lo hi : Nat) (perm : Nat → Nat) (b : Nat → Frame) : Prop :=
  ∀ v, lo ≤ v → v < hi → ∃ p, m.pte pd v = PGSIZE * p + (perm v ||| PTE_P) ∧ m.frame p = b v

/-- user pages, writable, and filled with zeros. -/
abbrev Zeroed (m : Mem) (pd lo hi : Nat) : Prop := Filled m pd lo hi (fun _ => PTE_W ||| PTE_U) fun _ _ => 0

lemma filled_uses {x : Nat} (hx : x < UPAGES) (hperm : perm < PGSIZE)
    (h : m.pte pd x = PGSIZE * p + (perm ||| PTE_P)) : m.uses pd (.page x) = some p := by
  refine uses_page.mpr ⟨hx, ?_, ?_⟩
  · rw [h]
    exact present_entry p perm
  · rw [h]
    exact pteAddr_entry hperm

section
variable {perms : Nat → Nat} {b : Nat → Frame}

section
variable (h : Filled m pd lo v perms b) (hperm : ∀ x, perms x < PGSIZE) (hs : Space L D m pd)
include h hperm hs

lemma Filled.mono (hw : Within m m' pd v hi) (hv : v ≤ UPAGES) : Filled m' pd lo v perms b := by
  intro x h1 h2
  obtain ⟨q, hq, hqb⟩ := h x h1 h2
  have hu := filled_uses (Nat.lt_of_lt_of_le h2 hv) (hperm x) hq
  refine ⟨q, ?_, ?_⟩
  · rw [hw.pte x (by omega)]
    exact hq
  · rw [hw.frame_page hs hu]
    exact hqb

theorem Filled.step
    (hv : v ≤ UPAGES) (hw : Within m m' pd v (v + 1)) (hp : m'.pte pd v = PGSIZE * p + (perms v ||| PTE_P))
    (hb : m'.frame p = b v) : Filled m' pd lo (v + 1) perms b := by
  intro x h1 h2
  by_cases e : x = v
  · rw [e]
    exact ⟨p, hp, hb⟩
  · exact h.mono hperm hs hw hv x h1 (by omega)

end

end

lemma Zeroed.entry (h : Zeroed m pd lo hi) (h1 : lo ≤ v) (h2 : v < hi) :
    ∃ p, m.pte pd v = PGSIZE * p + 7 ∧ m.frame p = fun _ => 0 := by
  have e : PTE_W ||| PTE_U ||| PTE_P = 7 := by decide
  obtain ⟨p, hp, hz⟩ := h v h1 h2
  rw [e] at hp
  exact ⟨p, hp, hz⟩

lemma zeroed_uses {x : Nat} (hx : x < UPAGES) (h : m.pte pd x = PGSIZE * p + 7) : m.uses pd (.page x) = some p :=
  @filled_uses m pd p 6 x hx (by decide) h

lemma from_free {D' : Nat → Prop} (hs : Space L D m pd) (hs' : Space L D' m' pd) (hD : ∀ x, D' x → D x)
    (h : Within m m' pd lo hi) (hn : ∀ v, lo ≤ v → v < UPAGES → ¬ Present (m.pte pd v)) (hv : lo ≤ v)
    (hp : m'.uses pd (.page v) = some p) : p ∈ m.freelist := by
  by_contra hfree
  obtain ⟨u, hu⟩ := (hs.owns.used_iff p (hD p (hs'.owns.data _ _ hp))).mp (decide_eq_true hfree)
  cases u with
  | dir =>
    have e := hs'.apart .dir (.page v) p hu hp
    cases e
  | table i =>
    have e := hs'.apart (.table i) (.page v) p (h.table i p hu) hp
    cases e
  | page x =>
    obtain ⟨hx1, hx2, hx3⟩ := uses_page.mp hu
    have hx : x < lo := Nat.not_le.mp fun hc => hn x hc hx1 hx2
    have hu' : m'.uses pd (.page x) = some p := by
      apply uses_page.mpr
      rw [h.pte x (by omega)]
      exact ⟨hx1, hx2, hx3⟩
    have e := Use.page.inj (hs'.apart _ _ _ hu' hp)
    omega

section
variable {E : Fault → Prop} {oldsz newsz : Nat}

lemma allocLoop_spec (hs0 : Space L D m₀ pd) (hk : newsz < KERNBASE)
    (hn : ∀ v, pages oldsz ≤ v → v < UPAGES → ¬ Present (m₀.pte pd v)) :
    ∀ fuel v (m : Mem), Space L D m pd → Within m₀ m pd (pages oldsz) v → Zeroed m pd (pages oldsz) v →
      pages oldsz ≤ v → v ≤ pages newsz → pages newsz - v < fuel →
      wp E (allocLoop L pd oldsz newsz fuel (PGSIZE * v)) (fun ok m' => Space L D m' pd ∧
        (ok = true → Within m₀ m' pd (pages oldsz) (pages newsz) ∧ Zeroed m' pd (pages oldsz) (pages newsz)) ∧
        (ok = false → Kept m₀ m' pd)) m := by
  intro fuel
  induction fuel with
  | zero => exact fun v m _ _ _ _ _ hf => absurd hf (Nat.not_lt_zero _)
  | succ fuel ih =>
    intro v m hs hw hz hlo hhi hf
    have hU : pages newsz ≤ UPAGES := pages_le (Nat.le_of_lt hk)
    unfold allocLoop
    by_cases hlt : PGSIZE * v < newsz
    case neg =>
      have e : v = pages newsz := Nat.le_antisymm hhi (Nat.not_lt.mp fun hc => hlt ((page_lt_iff v newsz).mpr hc))
      rw [if_neg hlt]
      rw [e] at hw hz
      exact wp_pure ⟨hs, fun _ => ⟨hw, hz⟩, fun hc => absurd hc (by decide)⟩
    have hvp : v < pages newsz := (page_lt_iff v newsz).mp hlt
    have hvU : v < UPAGES := Nat.lt_of_lt_of_le hvp hU
    have hold : oldsz < newsz := by
      refine Nat.lt_of_not_le fun hc => ?_
      have hle : pages newsz ≤ pages oldsz := pages_mono hc
      omega
    have hnv : ∀ x, pages oldsz ≤ x → x < pages newsz → ¬ Present (m₀.pte pd x) :=
      fun x h1 h2 => hn x h1 (Nat.lt_of_lt_of_le h2 hU)
    rw [if_pos hlt]
    refine wp_kalloc_seq (fun _ => ?_) fun p l hl => ?_
    · -- no page is left
      refine wp_seq (deallocuvm_spec hs (Nat.le_of_lt hk) hold) fun _ m' h' => ?_
      refine wp_pure ⟨h'.2.space, fun hc => absurd hc (by decide), fun _ => ?_⟩
      exact rollback hw h'.2 hhi (fun x q h1 hx => from_free hs0 hs (fun _ h => h) hw hn h1 hx) hnv
    · obtain ⟨hD, hp, hsa, hwa⟩ := taken (b := fun _ => 0) hs hl
      have hpm : p ∈ m₀.freelist := hw.mem_free (by rw [hl]; exact mem_cons_self)
      apply wp_modify_seq
      have hna : ¬ Present ((({ m with freelist := l } : Mem).set p fun _ => 0).pte pd v) := by
        rw [(hwa 0 0).pte v (by omega), hw.pte v (by omega)]
        exact hnv v hlo hvp
      refine wp_seq (wp_mapPage hsa hD hp hvU hna (by decide)) fun ok m2 h₂ => ?_
      obtain ⟨hw2, hok, hbad⟩ := h₂
      have hw' : Within m₀ m2 pd (pages oldsz) (v + 1) :=
        ((hw.widen (Nat.le_refl _) (Nat.le_succ v)).trans (hwa _ _)).trans (hw2.widen hlo (Nat.le_refl _))
      cases ok with
      | false =>
        -- no page for a page table: the page in the hand goes back as well
        obtain ⟨hs2, -⟩ := hbad rfl
        rw [if_pos rfl]
        refine wp_seq (deallocuvm_spec hs2 (Nat.le_of_lt hk) hold) fun _ m3 h3 => ?_
        have hk3 := rollback hw' h3.2 hvp (fun x q h1 hx => from_free hs0 hs2 (fun _ h => h.1) hw' hn h1 hx) hnv
        obtain ⟨hs4, e1, e2⟩ := h3.2.space.release hD hp
        refine wp_kfree_seq hp (wp_pure ⟨hs4, fun hc => absurd hc (by decide), fun _ => ?_⟩)
        exact hk3.release hpm e1 e2
      | true =>
        obtain ⟨hs2, hpte⟩ := hok rfl
        rw [if_neg (by decide), next_page hvU]
        refine ih (v + 1) m2 hs2 hw' ?_ (Nat.le_succ_of_le hlo) hvp (by omega)
        have hza := hz.mono (fun _ => by decide) hs (hwa v v) (Nat.le_of_lt hvU)
        have hpz : m2.frame p = fun _ => 0 := by
          obtain ⟨hpd, htab, -⟩ := hsa.fresh (.inr fun hc => hc.2 rfl)
          rw [hw2.frame p (fun hc => (hsa.free p hc).2 rfl) hpd htab]
          exact update_self _ _ _
        exact hza.step (fun _ => by decide) hsa (Nat.le_of_lt hvU) hw2 hpte hpz

/-- the user pages are those that cover `[0, sz)`. -/
def Covers (m : Mem) (pd sz : Nat) : Prop := ∀ v, v < UPAGES → (Present (m.pte pd v) ↔ PGSIZE * v < sz)

lemma Covers.not_present (h : Covers m pd oldsz) (v : Nat) (h1 : pages oldsz ≤ v) (h2 : v < UPAGES) :
    ¬ Present (m.pte pd v) :=
  fun hp => Nat.not_lt.mpr h1 ((page_lt_iff v oldsz).mp ((h v h2).mp hp))

lemma Covers.grow (h : Covers m pd oldsz) (hle : oldsz ≤ newsz) (hw : Within m m' pd (pages oldsz) (pages newsz))
    (hz : Zeroed m' pd (pages oldsz) (pages newsz)) : Covers m' pd newsz := by
  intro v hv
  rw [page_lt_iff]
  by_cases hr : pages oldsz ≤ v ∧ v < pages newsz
  · obtain ⟨p, hp, -⟩ := hz.entry hr.1 hr.2
    rw [hp]
    exact ⟨fun _ => hr.2, fun _ => present_entry p 6⟩
  · have hpages : pages oldsz ≤ pages newsz := pages_mono hle
    rw [hw.pte v hr, h v hv, page_lt_iff]
    omega

lemma allocuvm_spec (h : Space L D m pd) (hn : ∀ v, pages oldsz ≤ v → v < UPAGES → ¬ Present (m.pte pd v))
    (ho : oldsz < KERNBASE) : wp E (allocuvm L pd oldsz newsz) (fun r m' => Space L D m' pd ∧
      (newsz < oldsz → r = oldsz ∧ m' = m) ∧
      (oldsz ≤ newsz → (r = newsz ∧ newsz < KERNBASE ∧ Within m m' pd (pages oldsz) (pages newsz) ∧
          Zeroed m' pd (pages oldsz) (pages newsz)) ∨ (r = 0 ∧ Kept m m' pd))) m := by
  unfold allocuvm
  by_cases hk : KERNBASE ≤ newsz
  · rw [if_pos hk]
    refine wp_pure ⟨h, fun hc => absurd hc (by omega), fun _ => .inr ⟨rfl, ?_⟩⟩
    exact (Within.refl m pd 0 0).kept
  rw [if_neg hk]
  by_cases hlt : newsz < oldsz
  · rw [if_pos hlt]
    exact wp_pure ⟨h, fun _ => ⟨rfl, rfl⟩, fun hc => absurd hlt (Nat.not_lt.mpr hc)⟩
  rw [if_neg hlt, PGROUNDUP_eq (Nat.le_of_lt ho)]
  have hle : oldsz ≤ newsz := Nat.not_lt.mp hlt
  have hpages : pages oldsz ≤ pages newsz := pages_mono hle
  have hU : pages newsz ≤ UPAGES := pages_le (Nat.le_of_lt (Nat.not_le.mp hk))
  refine wp_seq (allocLoop_spec h (Nat.not_le.mp hk) hn NPAGES (pages oldsz) m h (Within.refl m pd _ _)
    (fun v h1 h2 => absurd h1 (Nat.not_le.mpr h2)) (Nat.le_refl _) hpages ?_) fun ok m' h' => ?_
  · exact Nat.lt_of_le_of_lt (Nat.sub_le _ _) (Nat.lt_of_le_of_lt hU (by decide))
  · obtain ⟨hs', hok, hbad⟩ := h'
    cases ok with
    | true => exact wp_pure ⟨hs', fun hc => absurd hc hlt, fun _ => .inl ⟨rfl, Nat.not_le.mp hk, hok rfl⟩⟩
    | false => exact wp_pure ⟨hs', fun hc => absurd hc hlt, fun _ => .inr ⟨rfl, hbad rfl⟩⟩

/-- **`allocuvm` grows the address space, or leaves it.** The pages that it maps come from the free list, all
different and zeroed; if it fails, all that it took is free again but for page tables. -/
theorem allocuvm_grows_or_rolls_back (L : Link) (D : Nat → Prop) (m : Mem) (pd oldsz newsz : Nat)
    (h : Space L D m pd) (hc : Covers m pd oldsz) (ho : oldsz < KERNBASE) :
    ∃ r m', allocuvm L pd oldsz newsz m = .ok (r, m') ∧ Space L D m' pd ∧
      (newsz < oldsz → r = oldsz ∧ m' = m) ∧
      (oldsz ≤ newsz →
        (r = newsz ∧ 0 < r ∧ Covers m' pd newsz ∧
          (∀ v, PGROUNDUP oldsz ≤ PGSIZE * v → PGSIZE * v < newsz → ∃ p ∈ m.freelist,
            m'.pte pd v = PGSIZE * p ||| PTE_W ||| PTE_U ||| PTE_P ∧ m'.frame p = fun _ => 0) ∧
          (∀ v v', v < UPAGES → v' < UPAGES → Present (m'.pte pd v) → Present (m'.pte pd v') →
            pteAddr (m'.pte pd v) = pteAddr (m'.pte pd v') → v = v') ∧
          (∀ v, ¬ (PGROUNDUP oldsz ≤ PGSIZE * v ∧ PGSIZE * v < newsz) → m'.pte pd v = m.pte pd v) ∧
          ∀ v p, m.uses pd (.page v) = some p → m'.frame p = m.frame p) ∨
        (r = 0 ∧ m'.map pd = m.map pd ∧
          (∀ p, p ∈ m.freelist ↔ p ∈ m'.freelist ∨ ∃ i, m'.table pd i = some p ∧ m.table pd i = none) ∧
          ∀ v p, m.uses pd (.page v) = some p → m'.frame p = m.frame p)) := by
  obtain ⟨r, m', hrun, hs', hlt, hge⟩ := ok_of_wp (allocuvm_spec h hc.not_present ho)
  refine ⟨r, m', hrun, hs', hlt, fun hle => ?_⟩
  have hround : ∀ v, PGROUNDUP oldsz ≤ PGSIZE * v ↔ pages oldsz ≤ v := by
    intro v
    rw [PGROUNDUP_eq (Nat.le_of_lt ho)]
    exact Nat.mul_le_mul_left_iff (by decide)
  have hkept : ∀ {m'}, Space L D m' pd → Kept m m' pd → _ := fun {m'} hs' hk =>
    And.intro hk.map (And.intro (hk.free h hs') fun v p (hv : m.uses pd (.page v) = some p) =>
      hk.frame p (h.not_free hv) (h.apart.page hv).1 (h.apart.page hv).2)
  rcases hge hle with ⟨rfl, hk, hw, hz⟩ | ⟨rfl, hk⟩
  · by_cases hr : r = 0
    · -- from 0 to 0: nothing is mapped
      have ho0 : oldsz = 0 := by omega
      rw [hr, ho0] at hw
      exact .inr ⟨hr, hkept hs' hw.kept⟩
    · refine .inl ⟨rfl, Nat.pos_of_ne_zero hr, hc.grow hle hw hz, fun v h1 h2 => ?_, ?_, fun v hv => ?_,
        fun v p hv => hw.frame_page h hv⟩
      · have h1 := (hround v).mp h1
        have h2 := (page_lt_iff v r).mp h2
        have hvU : v < UPAGES := Nat.lt_of_lt_of_le h2 (pages_le (Nat.le_of_lt hk))
        obtain ⟨p, hp, hpz⟩ := hz.entry h1 h2
        refine ⟨p, from_free h hs' (fun _ h => h) hw hc.not_present h1 (zeroed_uses hvU hp), ?_, hpz⟩
        have hflags : PGSIZE * p ||| PTE_W ||| PTE_U ||| PTE_P = PGSIZE * p + 7 := by
          rw [Nat.or_assoc, Nat.or_assoc]
          exact or_flags p (by decide)
        rw [hflags]
        exact hp
      · intro v v' hv hv' hp hp' e
        exact Use.page.inj (hs'.apart (.page v) (.page v') _ (uses_page.mpr ⟨hv, hp, rfl⟩)
          (uses_page.mpr ⟨hv', hp', e.symm⟩))
      · refine hw.pte v fun hc => hv ?_
        exact ⟨(hround v).mpr hc.1, (page_lt_iff v r).mpr hc.2⟩
  · exact .inr ⟨rfl, hkept hs' hk⟩

end

lemma small_covers : Covers small 300 0 := by
  intro v _
  rw [pte_bare rfl]
  exact ⟨fun hp => absurd hp not_present_zero, fun hv => absurd hv (Nat.not_lt_zero _)⟩

/-- one page for an empty address space. -/
theorem allocuvm_grows_or_rolls_back_small : Space stock fourPages small 300 ∧ Covers small 300 0 ∧
    ∃ r m', allocuvm stock 300 0 4096 small = .ok (r, m') ∧ Space stock fourPages m' 300 := by
  refine ⟨small_space, small_covers, ?_⟩
  obtain ⟨r, m', hrun, hs, -⟩ :=
    allocuvm_grows_or_rolls_back stock fourPages small 300 0 4096 small_space small_covers (by decide)
  exact ⟨r, m', hrun, hs⟩

end Xv6.Vm
