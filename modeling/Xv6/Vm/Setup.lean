import Xv6.Vm.Alloc

/-!
# `freevm`, `mappages` of a range and `setupkvm`

`setupkvm` starts from a pool of free pages `D` that nobody holds, and `freevm` gives the pages back to it. What lies
outside `D`, the address spaces of other processes for instance, keeps its content (`Outside`).

The lines of `kmap` are mapped in the order of their addresses: `Half m pd hi` says that the kernel half of the
directory is filled up to the page `hi`. Between `KERNBASE + PHYSTOP` and `DEVSPACE` there is no page table
(`KernelHalf.table`).
-/

namespace Xv6.Vm
open Lib Function List Option

/-- the pages outside `D` keep their content. -/
def Outside (D : Nat → Prop) (m m' : Mem) : Prop := ∀ p, ¬ D p → m'.frame p = m.frame p

variable {L : Link} {D : Nat → Prop} {m m' m₁ : Mem} {pd v p q t w lo mid hi perm : Nat} {E : Fault → Prop} {n : Nat}
  {is : List Nat}

lemma Outside.refl (D : Nat → Prop) (m : Mem) : Outside D m m := fun _ _ => rfl

lemma Outside.trans (h : Outside D m m₁) (h' : Outside D m₁ m') : Outside D m m' :=
  fun p hp => (h' p hp).trans (h p hp)

lemma Outside.set {b : Frame} {l : List Nat} (hp : D p) : Outside D m (({ m with freelist := l } : Mem).set p b) :=
  fun q hq => update_of_ne (fun e : q = p => hq (e ▸ hp)) _ _

lemma Space.outside (h : Space L D m pd) (hp : ¬ D p) :
    p ∉ m.freelist ∧ p ≠ pd ∧ (∀ i, m.table pd i ≠ some p) ∧ ∀ u, m.uses pd u ≠ some p := by
  obtain ⟨h1, h2, h3⟩ := h.fresh (.inr hp)
  exact ⟨fun hc => hp (h.free p hc), h1, h2, h3⟩

lemma Within.outside (h : Within m m' pd lo hi) (hs : Space L D m pd) : Outside D m m' := by
  intro p hp
  obtain ⟨h1, h2, h3, -⟩ := hs.outside hp
  exact h.frame p h1 h2 h3

lemma Unmapped.outside (h : Unmapped L D m m' pd lo hi) (hs : Space L D m pd) : Outside D m m' := by
  intro p hp
  obtain ⟨-, -, h3, h4⟩ := hs.outside hp
  exact h.frame p h3 fun v _ _ => h4 _

lemma Kept.outside (h : Kept m m' pd) (hs : Space L D m pd) : Outside D m m' := by
  intro p hp
  obtain ⟨h1, h2, h3, -⟩ := hs.outside hp
  exact h.frame p h1 h2 h3

/-! ## `freevm` -/

/-- what `freevm` still holds when it has the page tables `is` to go. -/
def left (m : Mem) (pd : Nat) (is : List Nat) : Use → Option Nat
  | .dir => some pd
  | .table i => if i ∈ is then m.table pd i else none
  | .page _ => none

lemma left_cons {i : Nat} (hi : i ∉ is) : left m pd is = update (left m pd (i :: is)) (.table i) none := by
  funext u
  cases u with
  | dir => rfl
  | page => rfl
  | table j =>
    by_cases e : j = i
    · rw [e, update_self]
      exact if_neg hi
    · rw [update_of_ne fun hc => e (Use.table.inj hc)]
      exact if_congr (by rw [mem_cons, or_iff_right e]) rfl rfl

lemma left_cons_none {i : Nat} (h : m.table pd i = none) : left m pd is = left m pd (i :: is) := by
  funext u
  cases u with
  | dir => rfl
  | page => rfl
  | table j =>
    show (if j ∈ is then m.table pd j else none) = if j ∈ i :: is then m.table pd j else none
    by_cases e : j = i
    · rw [e, h, ite_self, ite_self]
    · exact if_congr (by rw [mem_cons, or_iff_right e]) rfl rfl

lemma freeTables_spec (m0 : Mem) : ∀ (is : List Nat) (m : Mem), is.Nodup → (∀ i ∈ is, i < NPDENTRIES) →
    m.frame pd = m0.frame pd → Pool L D m.freelist (left m0 pd is) →
    wp E (freeTables L pd is) (fun _ m' => m'.frame pd = m0.frame pd ∧ Pool L D m'.freelist (left m0 pd []) ∧
      Outside D m m') m := by
  intro is
  induction is with
  | nil => exact fun m _ _ hf hp => wp_pure ⟨hf, hp, Outside.refl D m⟩
  | cons i is ih =>
    intro m hn hlt hf hp
    obtain ⟨hi, hn'⟩ := nodup_cons.mp hn
    have hlt' : ∀ j ∈ is, j < NPDENTRIES := fun j hj => hlt j (mem_cons_of_mem _ hj)
    have hpde : word (m.frame pd) i = m0.pde pd i := congrArg (word · i) hf
    unfold freeTables
    apply wp_load_seq
    rw [hpde]
    by_cases hpr : Present (m0.pde pd i)
    · have ht : m0.table pd i = some (pteAddr (m0.pde pd i)) := table_some.mpr ⟨hlt i mem_cons_self, hpr, rfl⟩
      have hown : left m0 pd (i :: is) (.table i) = some (pteAddr (m0.pde pd i)) :=
        (if_pos mem_cons_self).trans ht
      have hD := hp.owns.data _ _ hown
      have hne : pteAddr (m0.pde pd i) ≠ pd := by
        intro e
        have := hp.owns.one (.table i) .dir _ hown (by rw [e]; rfl)
        cases this
      apply Eq.mpr (congrArg (wp E · _ m) (if_pos hpr))
      apply wp_kfree_seq (hp.page _ hD)
      have hpool : Pool L D (m.release (pteAddr (m0.pde pd i))).freelist (left m0 pd is) := by
        rw [left_cons hi]
        exact (hp.pull hown).give hD (hp.page _ hD)
      have hframe : (m.release (pteAddr (m0.pde pd i))).frame pd = m0.frame pd :=
        (update_of_ne (Ne.symm hne) _ _).trans hf
      refine wp_mono (ih _ hn' hlt' hframe hpool) fun _ m' h' => ⟨h'.1, h'.2.1, ?_⟩
      exact Outside.trans (Outside.set hD) h'.2.2
    · apply Eq.mpr (congrArg (wp E · _ m) (if_neg hpr))
      rw [← left_cons_none ((table_none (hlt i mem_cons_self)).mpr hpr)] at hp
      exact ih m hn' hlt' hf hp

/-- **`freevm` gives all pages back.** -/
theorem freevm_spec (h : Space L D m pd) :
    wp E (freevm L (some pd)) (fun _ m' => Pool L D m'.freelist (fun _ => none) ∧ Outside D m m') m := by
  unfold freevm
  have hall : (0 : Nat) < KERNBASE := by decide
  -- the list of the entries is not to be evaluated
  obtain ⟨is, his⟩ : ∃ is, is = List.range NPDENTRIES := ⟨_, rfl⟩
  have hnd : is.Nodup := his ▸ nodup_range
  have hmem : ∀ i, i ∈ is ↔ i < NPDENTRIES := fun i => his ▸ mem_range
  rw [← his]
  refine wp_seq (deallocuvm_spec h (Nat.le_refl KERNBASE) hall) fun _ m₁ h1 => ?_
  obtain ⟨-, hu⟩ := h1
  have hpage : ∀ v, m₁.uses pd (.page v) = none := by
    intro v
    refine if_neg fun hc => ?_
    have hp := hc.2
    rw [hu.pte] at hp
    by_cases hr : pages 0 ≤ v ∧ v < pages KERNBASE ∧ Present (m.pte pd v)
    · rw [if_pos hr] at hp
      exact not_present_zero hp
    · rw [if_neg hr] at hp
      exact hr ⟨Nat.zero_le v, hc.1, hp⟩
  have hleft : m₁.uses pd = left m₁ pd is := by
    funext u
    cases u with
    | dir => rfl
    | page v => exact hpage v
    | table i =>
      show m₁.table pd i = if i ∈ is then m₁.table pd i else none
      by_cases hi : i < NPDENTRIES
      · rw [if_pos ((hmem i).mpr hi)]
      · rw [if_neg fun hc => hi ((hmem i).mp hc)]
        exact if_neg fun hc => hi hc.1
  have hpool : Pool L D m₁.freelist (left m₁ pd is) := by
    rw [← hleft]
    exact hu.space
  refine wp_seq (freeTables_spec m₁ is m₁ hnd (fun i => (hmem i).mp) rfl hpool) fun _ m2 h2 => ?_
  obtain ⟨-, hp2, ho2⟩ := h2
  have hown : left m₁ pd [] .dir = some pd := rfl
  have hD := hp2.owns.data _ _ hown
  have hlast : update (left m₁ pd []) .dir none = fun _ => none := by
    funext u
    cases u with
    | dir => rfl
    | page => rfl
    | table i =>
      have hnil : left m₁ pd [] (.table i) = none := by
        show (if i ∈ [] then m₁.table pd i else none) = none
        exact if_neg not_mem_nil
      exact (update_of_ne (by simp) _ _).trans hnil
  have hdone : wp E (kfree L pd >>= pure) (fun _ m' => Pool L D m'.freelist (fun _ => none) ∧ Outside D m m') m2 := by
    refine wp_kfree_seq (hp2.page pd hD) (wp_pure ⟨?_, (hu.outside h).trans (ho2.trans (Outside.set hD))⟩)
    have hpool := (hp2.pull hown).give hD (hp2.page pd hD)
    rw [hlast] at hpool
    exact hpool
  rw [bind_pure] at hdone
  exact hdone

/-! ## the kernel half -/

lemma Space.store_kernel (h : Space L D m pd) (ht : m.table pd (v / 1024) = some t) (hv : UPAGES ≤ v) :
    Space L D (m.store t (v % 1024) w) pd := by
  have hno : ∀ {a : Prop}, ¬ (v < UPAGES ∧ a) := fun hc => Nat.not_lt.mpr hv hc.1
  have hu : m.uses pd (.page v) = none := if_neg hno
  show Pool L D m.freelist _
  rw [uses_store h.apart.tables ht, if_neg hno, ← hu, update_eq_self]
  exact h

lemma Stocked.store (h : Stocked L m pd) (ht : m.table pd (v / 1024) = some t) :
    Stocked L (m.store t (v % 1024) w) pd := by
  have htab := table_store (w := w) h.toTables ht
  refine ⟨⟨?_, ?_⟩, h.nodup, ?_⟩
  · rw [htab]
    exact h.dir
  · rw [htab]
    exact h.one
  · rw [htab]
    exact h.free

/-- the entry of the physical page `q`, which is counted round the end of the address space. -/
abbrev entry (q perm : Nat) : Nat := PGSIZE * (q % NPAGES) + (perm ||| PTE_P)

/-- **`mappages` of a range**: the pages from `v` to `v + n` get the physical pages from `q` on, all of them or the
first `k`; the user pages have their owners when the range is in the kernel half. -/
theorem mapRange_spec (hperm : perm < PGSIZE) : ∀ (fuel v q : Nat) (m : Mem), Stocked L m pd →
    v + n < NPAGES → (∀ x, v ≤ x → x ≤ v + n → ¬ Present (m.pte pd x)) → n < fuel →
    wp E (mapLoop pd (PGSIZE * (v + n)) perm fuel (PGSIZE * v) (PGSIZE * (q % NPAGES))) (fun ok m' =>
      Within m m' pd v (v + n + 1) ∧ (UPAGES ≤ v → ∀ D, Space L D m pd → Space L D m' pd) ∧
      ∃ k, k ≤ n + 1 ∧ (ok = true ↔ k = n + 1) ∧
        ∀ x, m'.pte pd x = if v ≤ x ∧ x < v + k then entry (q + (x - v)) perm else m.pte pd x) m := by
  have hflags : perm ||| PTE_P < 4096 := Nat.or_lt_two_pow (n := 12) hperm (by decide)
  -- the entry of one turn
  have hturn : ∀ {m m₁ : Mem} {v q t x : Nat}, Stocked L m₁ pd → m₁.pte pd = m.pte pd →
      m₁.table pd (v / 1024) = some t → (m₁.store t (v % 1024) (PGSIZE * (q % NPAGES) ||| perm ||| PTE_P)).pte pd x =
        if x = v then entry q perm else m.pte pd x := by
    intro m m₁ v q t x hst hpte ht
    rw [pte_store hst.toTables ht, hpte, entry_eq _ hperm, Nat.mod_eq_of_lt]
    show 4096 * (q % 2 ^ 20) + (perm ||| PTE_P) < 2 ^ 32
    omega
  induction n with
  | zero =>
    intro fuel v q m h hvn hno hf
    refine wp_mapTurn h hvn (hno v (Nat.le_refl v) (Nat.le_refl v)) hf ?_ fun m₁ t hst hs hw hpte ht => ?_
    · exact ⟨Within.refl m pd _ _, fun _ _ h => h, 0, by omega, by decide, fun x => (if_neg (by omega)).symm⟩
    · rw [if_pos (show PGSIZE * v = PGSIZE * (v + 0) from rfl)]
      refine wp_pure ⟨hw.trans (within_store hst.toTables ht), fun hv D h => (hs D h).store_kernel ht hv, 1, by omega,
        by decide, fun x => ?_⟩
      rw [hturn hst hpte ht]
      by_cases hx : x = v
      · rw [if_pos hx, if_pos (by omega), hx, Nat.sub_self, Nat.add_zero]
      · rw [if_neg hx, if_neg (by omega)]
  | succ n ih =>
    intro fuel v q m h hvn hno hf
    have hvn' : v + (n + 1) < 2 ^ 20 := hvn
    refine wp_mapTurn h (show v < 2 ^ 20 by omega) (hno v (Nat.le_refl v) (by omega)) (by omega) ?_
      fun m₁ t hst hs hw hpte ht => ?_
    · exact ⟨Within.refl m pd _ _, fun _ _ h => h, 0, by omega, by simp, fun x => (if_neg (by omega)).symm⟩
    have hne : ¬ PGSIZE * v = PGSIZE * (v + (n + 1)) := by
      show ¬ 4096 * v = 4096 * (v + (n + 1))
      omega
    have hva : u32 (PGSIZE * v + PGSIZE) = PGSIZE * (v + 1) := by
      show (4096 * v + 4096) % 2 ^ 32 = 4096 * (v + 1)
      omega
    have hpa : u32 (PGSIZE * (q % NPAGES) + PGSIZE) = PGSIZE * ((q + 1) % NPAGES) := by
      show (4096 * (q % 2 ^ 20) + 4096) % 2 ^ 32 = 4096 * ((q + 1) % 2 ^ 20)
      omega
    have hlast : v + (n + 1) = v + 1 + n := by omega
    have hw1 : Within m (m₁.store t (v % 1024) (PGSIZE * (q % NPAGES) ||| perm ||| PTE_P)) pd v (v + 1) :=
      hw.trans (within_store hst.toTables ht)
    rw [if_neg hne, hva, hpa, hlast]
    refine wp_mono (ih (fuel - 1) (v + 1) (q + 1) _ (hst.store ht) (show v + 1 + n < 2 ^ 20 by omega) ?_ (by omega))
      fun ok m' h' => ?_
    · intro x h1 h2
      rw [hw1.pte x (by omega)]
      exact hno x (by omega) (by omega)
    · obtain ⟨hw', hs', k, hk, hok, hx⟩ := h'
      refine ⟨(hw1.widen (Nat.le_refl v) (by omega)).trans (hw'.widen (Nat.le_succ v) (by omega)),
        fun hv D h => hs' (Nat.le_succ_of_le hv) D ((hs D h).store_kernel ht hv), k + 1, by omega,
        hok.trans (by omega), fun x => ?_⟩
      rw [hx, hturn hst hpte ht]
      by_cases e : x = v
      · rw [if_neg (by omega), if_pos e, if_pos (by omega), e, Nat.sub_self, Nat.add_zero]
      · by_cases hin : v + 1 ≤ x ∧ x < v + 1 + k
        · have hq : q + 1 + (x - (v + 1)) = q + (x - v) := by omega
          rw [if_pos hin, if_pos (by omega), hq]
        · rw [if_neg hin, if_neg e, if_neg (by omega)]

/-- the kernel half of the directory is filled up to the page `hi`, and there is no user page. -/
structure Half (m : Mem) (pd hi : Nat) : Prop where
  user : ∀ v, v < UPAGES → m.pte pd v = 0
  low : ∀ v, UPAGES ≤ v → v < hi → Present (m.pte pd v) ∧ ¬ User (m.pte pd v)
  high : ∀ v, hi ≤ v → m.pte pd v = 0
  table : ∀ i, hi ≤ 1024 * i ∨ i < 512 → m.table pd i = none

/-- the kernel half of every page directory: no page is the user's, and there are page tables below
`KERNBASE + PHYSTOP` and from `DEVSPACE` on. -/
structure KernelHalf (m : Mem) (pd : Nat) : Prop where
  quiet : ∀ v, UPAGES ≤ v → ¬ User (m.pte pd v)
  table : ∀ i, 512 ≤ i → i < NPDENTRIES → (m.table pd i ≠ none ↔ i < 568 ∨ 1016 ≤ i)

lemma table_of_present (h : Present (m.pte pd v)) : m.table pd (v / 1024) ≠ none := by
  intro hn
  rw [pte_none hn] at h
  exact not_present_zero h

lemma not_user_entry (hperm : perm = 0 ∨ perm = PTE_W) : ¬ User (PGSIZE * q + (perm ||| PTE_P)) := by
  rw [user_iff]
  rcases hperm with rfl | rfl
  · show ¬ (4096 * q + 1) / 4 % 2 = 1
    omega
  · show ¬ (4096 * q + 3) / 4 % 2 = 1
    omega

lemma mappages_eq {va size : Nat} (hs : 0 < size) (hva : va + size ≤ 2 ^ 32) (pa : Nat) :
    mappages pd va size pa perm = mapLoop pd (PGSIZE * (va / PGSIZE + ((va + size - 1) / PGSIZE - va / PGSIZE))) perm
      NPAGES (PGSIZE * (va / PGSIZE)) pa := by
  have hlast : PGROUNDDOWN (u32 (u32 (va + size) + (2 ^ 32 - 1))) =
      PGSIZE * (va / PGSIZE + ((va + size - 1) / PGSIZE - va / PGSIZE)) := by
    show ((va + size) % 2 ^ 32 + (2 ^ 32 - 1)) % 2 ^ 32 / 4096 * 4096 =
      4096 * (va / 4096 + ((va + size - 1) / 4096 - va / 4096))
    omega
  have hfirst : PGROUNDDOWN va = PGSIZE * (va / PGSIZE) := Nat.mul_comm _ _
  unfold mappages
  rw [hlast, hfirst]

lemma wp_line (h : Space L D m pd) (hperm : perm = 0 ∨ perm = PTE_W) (hv : UPAGES ≤ v)
    (hvn : v + n < NPAGES) (hno : ∀ x, v ≤ x → m.pte pd x = 0) :
    wp E (mappages pd (PGSIZE * v) (PGSIZE * (n + 1)) (PGSIZE * (q % NPAGES)) perm) (fun ok m' =>
      Space L D m' pd ∧ Within m m' pd v (v + n + 1) ∧
      (ok = true → ∀ x, v ≤ x → x ≤ v + n → Present (m'.pte pd x) ∧ ¬ User (m'.pte pd x))) m := by
  have hvn' : v + n < 2 ^ 20 := hvn
  have hlt : perm < PGSIZE := by
    rcases hperm with rfl | rfl
    · decide
    · decide
  have hle : PGSIZE * v + PGSIZE * (n + 1) ≤ 2 ^ 32 := by
    rw [← Nat.mul_add]
    exact Nat.mul_le_mul_left PGSIZE hvn
  have hpos : 0 < PGSIZE * (n + 1) := Nat.mul_pos (by decide) n.succ_pos
  have hfirst : PGSIZE * v / PGSIZE = v := by
    show 4096 * v / 4096 = v
    omega
  have hlast : (PGSIZE * v + PGSIZE * (n + 1) - 1) / PGSIZE - v = n := by
    show (4096 * v + 4096 * (n + 1) - 1) / 4096 - v = n
    omega
  rw [mappages_eq hpos hle, hfirst, hlast]
  refine wp_mono (mapRange_spec hlt NPAGES v q m h.stocked hvn (fun x h1 _ => ?_) (show n < 2 ^ 20 by omega))
    fun ok m' ⟨hw, hs, k, _, hok, hx⟩ => ⟨hs hv D h, hw, fun hk x h1 h2 => ?_⟩
  · rw [hno x h1]
    exact not_present_zero
  · rw [hx, if_pos (by have := hok.mp hk; omega)]
    exact ⟨present_entry _ _, not_user_entry hperm⟩

lemma Half.line (h : Half m pd v) (hv : UPAGES ≤ v) (hw : Within m m' pd v (v + n + 1))
    (hin : ∀ x, v ≤ x → x ≤ v + n → Present (m'.pte pd x) ∧ ¬ User (m'.pte pd x)) : Half m' pd (v + n + 1) where
  user := fun x hx => by
    rw [hw.pte x (by omega)]
    exact h.user x hx
  low := fun x h1 h2 => by
    by_cases hx : v ≤ x
    · exact hin x hx (by omega)
    · rw [hw.pte x (by omega)]
      exact h.low x h1 (Nat.not_le.mp hx)
  high := fun x hx => by
    rw [hw.pte x (by omega)]
    exact h.high x (by omega)
  table := fun i hi => by
    have hv : 2 ^ 19 ≤ v := hv
    rw [hw.same i (by omega)]
    exact h.table i (by omega)

lemma Half.kernel (h : Half m pd 0x8E000) (hw : Within m m' pd 0xFE000 NPAGES)
    (hin : ∀ x, 0xFE000 ≤ x → x < NPAGES → Present (m'.pte pd x) ∧ ¬ User (m'.pte pd x)) :
    KernelHalf m' pd ∧ ∀ v, v < UPAGES → m'.pte pd v = 0 := by
  have hout : ∀ x, ¬ (0xFE000 ≤ x ∧ x < 2 ^ 20) → m'.pte pd x = m.pte pd x := hw.pte
  have hpres : ∀ x, 2 ^ 19 ≤ x → x < 0x8E000 ∨ 0xFE000 ≤ x ∧ x < 2 ^ 20 → Present (m'.pte pd x) := by
    intro x h1 h2
    rcases h2 with h2 | h2
    · rw [hout x (by omega)]
      exact (h.low x h1 h2).1
    · exact (hin x h2.1 h2.2).1
  refine ⟨⟨fun v hv => ?_, fun i h1 h2 => ⟨fun hi => ?_, fun hi => ?_⟩⟩, fun v hv => ?_⟩
  · by_cases hx : 0xFE000 ≤ v ∧ v < 2 ^ 20
    · exact (hin v hx.1 hx.2).2
    · rw [hout v hx]
      by_cases hlow : v < 0x8E000
      · exact (h.low v hv hlow).2
      · rw [h.high v (Nat.not_lt.mp hlow)]
        decide
  · by_contra hc
    have hsame : m'.table pd i = m.table pd i := hw.same i (by omega)
    rw [hsame, h.table i (by omega)] at hi
    exact hi rfl
  · have h2 : i < 1024 := h2
    have hp := table_of_present (hpres (1024 * i) (by omega) (by omega))
    rw [Nat.mul_div_cancel_left i (by decide)] at hp
    exact hp
  · have hv' : v < 2 ^ 19 := hv
    rw [hout v (by omega)]
    exact h.user v hv

/-! ## `setupkvm` -/

lemma wp_mapKernel_cons {k : Kmap} {ks : List Kmap} {R : Bool → Mem → Prop} (h : Space L D m pd)
    (hvirt : k.virt = PGSIZE * v) (hsize : u32 (k.physEnd + (2 ^ 32 - k.physStart)) = PGSIZE * (n + 1))
    (hphys : k.physStart = PGSIZE * (q % NPAGES)) (hperm : k.perm = 0 ∨ k.perm = PTE_W) (hv : UPAGES ≤ v)
    (hvn : v + n < NPAGES) (hno : ∀ x, v ≤ x → m.pte pd x = 0)
    (h1 : ∀ m', Space L D m' pd → Within m m' pd v (v + n + 1) →
      (∀ x, v ≤ x → x ≤ v + n → Present (m'.pte pd x) ∧ ¬ User (m'.pte pd x)) → wp E (mapKernel pd ks) R m')
    (h0 : ∀ m', Space L D m' pd → Outside D m m' → R false m') : wp E (mapKernel pd (k :: ks)) R m := by
  unfold mapKernel
  rw [hsize, hvirt, hphys]
  refine wp_seq (wp_line h hperm hv hvn hno) fun ok m' h' => ?_
  obtain ⟨hs', hw', hok⟩ := h'
  cases ok with
  | true => exact h1 m' hs' hw' (hok rfl)
  | false => exact wp_pure (h0 m' hs' (hw'.outside h))

lemma half_bare (hz : m.frame pd = fun _ => 0) : Half m pd 0x80000 :=
  ⟨fun v _ => pte_bare hz v, fun _ h1 h2 => absurd h1 (Nat.not_le.mpr h2), fun v _ => pte_bare hz v,
    fun i _ => table_bare hz i⟩

/-- the lines of `kmap`, in pages: the data of the kernel starts at the page `d`. -/
theorem Link.lines (L : Link) : ∃ d, L.data = PGSIZE * d ∧ 0x80100 < d ∧ d < 0x8E000 := by
  have h1 : 0x80100000 < L.data := L.data_gt
  have h2 : L.kend < 0x8E000000 := L.kend_lt
  have h3 := L.data_le
  have h4 : L.data % 4096 = 0 := L.aligned
  refine ⟨L.data / 4096, ?_, ?_, ?_⟩
  · show L.data = 4096 * (L.data / 4096)
    omega
  · omega
  · omega

lemma wp_kernel (h : Space L D m pd) (hz : m.frame pd = fun _ => 0) :
    wp E (mapKernel pd (kmap L)) (fun ok m' => Space L D m' pd ∧ Outside D m m' ∧
      (ok = true → KernelHalf m' pd ∧ ∀ v, v < UPAGES → m'.pte pd v = 0)) m := by
  obtain ⟨d, hd, hd1, hd2⟩ := L.lines
  have hbad : ∀ {P : Prop}, (false = true → P) := fun hc => absurd hc (by decide)
  unfold kmap
  -- I/O space
  have e1 : u32 (EXTMEM + (2 ^ 32 - 0)) = PGSIZE * (255 + 1) := by decide
  refine wp_mapKernel_cons (v := 0x80000) (q := 0) h rfl e1 rfl (.inr rfl) (by decide) (by decide)
    (fun x _ => pte_bare hz x) (fun m₁ hs1 hw1 hin1 => ?_) fun m' hs' ho' => ⟨hs', ho', hbad⟩
  have hh1 : Half m₁ pd 0x80100 := (half_bare hz).line (by decide) hw1 hin1
  have ho1 : Outside D m m₁ := hw1.outside h
  -- text and read-only data of the kernel
  have e2 : u32 (L.data - KERNBASE + (2 ^ 32 - (KERNLINK - KERNBASE))) = PGSIZE * (d - 0x80101 + 1) := by
    rw [hd]
    show (4096 * d - 0x80000000 + (2 ^ 32 - 0x100000)) % 2 ^ 32 = 4096 * (d - 0x80101 + 1)
    omega
  refine wp_mapKernel_cons (v := 0x80100) (q := 0x100) hs1 rfl e2 rfl (.inl rfl) (by decide)
    (show _ < 2 ^ 20 by omega) hh1.high (fun m2 hs2 hw2 hin2 => ?_)
    fun m' hs' ho' => ⟨hs', ho1.trans ho', hbad⟩
  have hend2 : 0x80100 + (d - 0x80101) + 1 = d := by omega
  have hh2 : Half m2 pd d := hend2 ▸ hh1.line (by decide) hw2 hin2
  have ho2 : Outside D m m2 := ho1.trans (hw2.outside hs1)
  -- data of the kernel and physical memory
  have hd19 : UPAGES ≤ d := show 2 ^ 19 ≤ d by omega
  have e3 : u32 (PHYSTOP + (2 ^ 32 - (L.data - KERNBASE))) = PGSIZE * (0x8DFFF - d + 1) := by
    rw [hd]
    show (0xE000000 + (2 ^ 32 - (4096 * d - 0x80000000))) % 2 ^ 32 = 4096 * (0x8DFFF - d + 1)
    omega
  have e3' : L.data - KERNBASE = PGSIZE * ((d - 0x80000) % NPAGES) := by
    rw [hd]
    show 4096 * d - 0x80000000 = 4096 * ((d - 0x80000) % 2 ^ 20)
    omega
  refine wp_mapKernel_cons hs2 hd e3 e3' (.inr rfl) hd19 (show _ < 2 ^ 20 by omega)
    hh2.high (fun m3 hs3 hw3 hin3 => ?_) fun m' hs' ho' => ⟨hs', ho2.trans ho', hbad⟩
  have hend3 : d + (0x8DFFF - d) + 1 = 0x8E000 := by omega
  have hh3 : Half m3 pd 0x8E000 := hend3 ▸ hh2.line hd19 hw3 hin3
  have ho3 : Outside D m m3 := ho2.trans (hw3.outside hs2)
  -- devices
  have e4 : u32 (0 + (2 ^ 32 - DEVSPACE)) = PGSIZE * (8191 + 1) := by decide
  refine wp_mapKernel_cons (v := 0xFE000) (q := 0xFE000) hs3 rfl e4 rfl (.inr rfl) (by decide) (by decide)
    (fun x hx => hh3.high x (by omega)) (fun m4 hs4 hw4 hin4 => ?_)
    fun m' hs' ho' => ⟨hs', ho3.trans ho', hbad⟩
  refine wp_pure ⟨hs4, ho3.trans (hw4.outside hs3), fun _ => hh3.kernel hw4 fun x h1 h2 => hin4 x h1 ?_⟩
  have h2 : x < 2 ^ 20 := h2
  omega

/-- **`setupkvm`**: a new directory with the kernel half and nothing else, or no page is taken. -/
theorem setupkvm_spec (h : Pool L D m.freelist fun _ => none) : wp E (setupkvm L) (fun r m' => Outside D m m' ∧
      (r = none → Pool L D m'.freelist fun _ => none) ∧
      (∀ d, r = some d → Space L D m' d ∧ KernelHalf m' d ∧ ∀ v, v < UPAGES → m'.pte d v = 0)) m := by
  unfold setupkvm
  refine wp_kalloc_seq (fun _ => ?_) fun pd l hl => ?_
  · exact wp_pure ⟨Outside.refl D m, fun _ => h, fun d hd => absurd hd.symm (some_ne_none d)⟩
  · rw [hl] at h
    obtain ⟨hD, -, hpool⟩ := h.take
    apply wp_modify_seq
    rw [if_neg (by decide)]
    have hzero : (({ m with freelist := l } : Mem).set pd fun _ => 0).frame pd = fun _ => 0 := update_self _ _ _
    have hs : Space L D (({ m with freelist := l } : Mem).set pd fun _ => 0) pd :=
      space_bare hpool hD (h.page pd hD) hzero
    have ho : Outside D m (({ m with freelist := l } : Mem).set pd fun _ => 0) := Outside.set hD
    refine wp_seq (wp_kernel hs hzero) fun ok m' h' => ?_
    obtain ⟨hs', ho', hok⟩ := h'
    cases ok with
    | true =>
      refine wp_pure ⟨ho.trans ho', fun hc => absurd hc (some_ne_none pd), fun d hd => ?_⟩
      rw [← some.inj hd]
      exact ⟨hs', hok rfl⟩
    | false =>
      refine wp_seq (freevm_spec hs') fun _ m'' h'' => ?_
      exact wp_pure ⟨ho.trans (ho'.trans h''.2), fun _ => h''.1, fun d hd => absurd hd.symm (some_ne_none d)⟩

/-- **`mappages` maps exactly the covering pages.** The directory has any page tables and entries, and the free list
any length; the pages that get mapped are a prefix, and all of them when the call returns 0. The four ranges of `kmap`
follow one another, and `setupkvm` ends without a panic. -/
theorem mappages_maps_covering (L : Link) :
    (∀ (m : Mem) (pd va size pa perm : Nat), Stocked L m pd → 0 < size → va + size ≤ 2 ^ 32 → pa % PGSIZE = 0 →
      pa < 2 ^ 32 → perm < PGSIZE →
      (∀ v, va / PGSIZE ≤ v → v ≤ (va + size - 1) / PGSIZE → ¬ Present (m.pte pd v)) →
      ∃ ok m' k, mappages pd va size pa perm m = .ok (ok, m') ∧ va / PGSIZE + k ≤ (va + size - 1) / PGSIZE + 1 ∧
        (ok = true ↔ va / PGSIZE + k = (va + size - 1) / PGSIZE + 1) ∧
        ∀ v, m'.pte pd v = if va / PGSIZE ≤ v ∧ v < va / PGSIZE + k then
          u32 (pa + PGSIZE * (v - va / PGSIZE)) + (perm ||| PTE_P) else m.pte pd v) ∧
    ((kmap L).Pairwise fun a b => a.virt + u32 (a.physEnd + (2 ^ 32 - a.physStart)) ≤ b.virt) ∧
    ∀ (D : Nat → Prop) (m : Mem), Pool L D m.freelist (fun _ => none) → ∃ r, setupkvm L m = .ok r := by
  refine ⟨fun m pd va size pa perm h hs hva hpa hlt hperm hno => ?_, ?_, fun D m h => ?_⟩
  · have hpa' : pa = PGSIZE * (pa / PGSIZE % NPAGES) := by
      show pa = 4096 * (pa / 4096 % 2 ^ 20)
      have : pa % 4096 = 0 := hpa
      omega
    have hcover : va / PGSIZE ≤ (va + size - 1) / PGSIZE := Nat.div_le_div_right (by omega)
    have hend : (va + size - 1) / PGSIZE < NPAGES := Nat.div_lt_of_lt_mul (show va + size - 1 < 4096 * 2 ^ 20 by omega)
    have hn : va / PGSIZE + ((va + size - 1) / PGSIZE - va / PGSIZE) = (va + size - 1) / PGSIZE := by omega
    obtain ⟨ok, m', hrun, -, -, k, hk, hok, hpte⟩ := ok_of_wp (mapRange_spec hperm NPAGES _ (pa / PGSIZE) m h
      (by rw [hn]; exact hend) (by rw [hn]; exact hno) (Nat.lt_of_le_of_lt (Nat.sub_le _ _) hend))
    rw [← mappages_eq hs hva, ← hpa'] at hrun
    refine ⟨ok, m', k, hrun, by omega, hok.trans (by omega), fun v => ?_⟩
    have hentry : entry (pa / PGSIZE + (v - va / PGSIZE)) perm = u32 (pa + PGSIZE * (v - va / PGSIZE)) + (perm ||| PTE_P) := by
      show 4096 * ((pa / 4096 + (v - va / 4096)) % 2 ^ 20) + _ = (pa + 4096 * (v - va / 4096)) % 2 ^ 32 + _
      have : pa % 4096 = 0 := hpa
      omega
    rw [hpte, hentry]
  · obtain ⟨d, hd, hd1, hd2⟩ := L.lines
    simp only [kmap, pairwise_cons, u32, hd, PGSIZE, KERNBASE, KERNLINK, EXTMEM, PHYSTOP, DEVSPACE]
    simp
    omega
  · obtain ⟨r, m', hr, -⟩ := ok_of_wp (setupkvm_spec h)
    exact ⟨_, hr⟩

theorem mappages_maps_covering_small : ∃ ok m' k, mappages 300 0x1FFF 2 0x5000 PTE_W small = .ok (ok, m') ∧
    1 + k ≤ 3 ∧ (ok = true ↔ 1 + k = 3) ∧ ∀ v, m'.pte 300 v = if 1 ≤ v ∧ v < 1 + k then
      u32 (0x5000 + PGSIZE * (v - 1)) + (PTE_W ||| PTE_P) else small.pte 300 v :=
  (mappages_maps_covering stock).1 small 300 0x1FFF 2 0x5000 PTE_W small_space.stocked (by decide) (by decide)
    (by decide) (by decide) (by decide) fun v _ _ => by
      rw [pte_bare rfl]
      exact not_present_zero

end Xv6.Vm
