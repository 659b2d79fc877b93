import Xv6.Vm.Space

/-!
# `deallocuvm`

The loop goes over the pages from `lo` to `hi`; where a page table is absent it jumps to the first page of the next one.
`Unmapped L D m m' pd lo hi` says what has become of the memory `m`: the pages of that range are on the free list, and
nothing else has changed. A turn of the loop is `Unmapped` over one page (`unmapped_page`), or over the pages of an
absent page table, and `Unmapped.trans` puts the turns together.
-/

namespace Xv6.Vm
open Lib Function List

structure Unmapped (L : Link) (D : Nat → Prop) (m m' : Mem) (pd lo hi : Nat) : Prop where
  space : Space L D m' pd
  table : m'.table pd = m.table pd
  pte : ∀ v, m'.pte pd v = if lo ≤ v ∧ v < hi ∧ Present (m.pte pd v) then 0 else m.pte pd v
  free : ∃ l, m'.freelist = l ++ m.freelist ∧ ∀ p, p ∈ l ↔ ∃ v, lo ≤ v ∧ v < hi ∧ m.uses pd (.page v) = some p
  frame : ∀ p, (∀ i, m.table pd i ≠ some p) → (∀ v, lo ≤ v → v < hi → m.uses pd (.page v) ≠ some p) →
    m'.frame p = m.frame p

variable {L : Link} {D : Nat → Prop} {m m' m₁ : Mem} {pd v p t lo mid hi : Nat} {E : Fault → Prop}

lemma Unmapped.refl (h : Space L D m pd) (hr : ∀ v, lo ≤ v → v < hi → ¬ Present (m.pte pd v)) :
    Unmapped L D m m pd lo hi where
  space := h
  table := rfl
  pte := fun v => (if_neg fun hc => hr v hc.1 hc.2.1 hc.2.2).symm
  free := by
    refine ⟨[], rfl, fun p => ⟨fun hp => absurd hp not_mem_nil, ?_⟩⟩
    rintro ⟨v, h1, h2, hv⟩
    exact absurd (uses_page.mp hv).2.1 (hr v h1 h2)
  frame := fun _ _ _ => rfl

lemma Unmapped.uses_of_ge (h : Unmapped L D m m' pd lo mid) (hv : mid ≤ v) :
    m'.uses pd (.page v) = m.uses pd (.page v) := by
  have hp : m'.pte pd v = m.pte pd v := by
    rw [h.pte]
    exact if_neg fun hc => Nat.not_lt.mpr hv hc.2.1
  exact uses_page_congr hp

lemma Unmapped.trans (h : Unmapped L D m m₁ pd lo mid) (h' : Unmapped L D m₁ m' pd mid hi) (h1 : lo ≤ mid)
    (h2 : mid ≤ hi) : Unmapped L D m m' pd lo hi where
  space := h'.space
  table := h'.table.trans h.table
  pte := fun v => by
    rw [h'.pte]
    by_cases hc : lo ≤ v ∧ v < mid ∧ Present (m.pte pd v)
    · -- cleared by the first part
      have e : m₁.pte pd v = 0 := by
        rw [h.pte, if_pos hc]
      rw [e, if_neg fun hn => not_present_zero hn.2.2, if_pos ⟨hc.1, Nat.lt_of_lt_of_le hc.2.1 h2, hc.2.2⟩]
    · have e : m₁.pte pd v = m.pte pd v := by
        rw [h.pte, if_neg hc]
      rw [e]
      refine if_congr ⟨fun hn => ⟨Nat.le_trans h1 hn.1, hn.2⟩, fun hn => ⟨?_, hn.2⟩⟩ rfl rfl
      exact Nat.not_lt.mp fun hlt => hc ⟨hn.1, hlt, hn.2.2⟩
  free := by
    obtain ⟨l, hl, hm⟩ := h.free
    obtain ⟨l', hl', hm'⟩ := h'.free
    refine ⟨l' ++ l, by rw [hl', hl, append_assoc], fun p => ?_⟩
    rw [mem_append, hm, hm']
    constructor
    · rintro (⟨v, hv1, hv2, hv⟩ | ⟨v, hv1, hv2, hv⟩)
      · exact ⟨v, by omega, hv2, by rw [← h.uses_of_ge hv1]; exact hv⟩
      · exact ⟨v, hv1, by omega, hv⟩
    · rintro ⟨v, hv1, hv2, hv⟩
      by_cases hv3 : v < mid
      · exact .inr ⟨v, hv1, hv3, hv⟩
      · exact .inl ⟨v, by omega, hv2, by rw [h.uses_of_ge (by omega)]; exact hv⟩
  frame := fun p ht hp => by
    rw [h'.frame p (by rw [h.table]; exact ht) fun v hv1 hv2 => ?_]
    · exact h.frame p ht fun v hv1 hv2 => hp v hv1 (by omega)
    · rw [h.uses_of_ge hv1]
      exact hp v (by omega) hv2

lemma Unmapped.kept (h : Unmapped L D m m' pd lo hi) (hv : m'.uses pd (.page v) = some p) :
    m.uses pd (.page v) = some p ∧ ¬ (lo ≤ v ∧ v < hi) := by
  obtain ⟨hU, hp, hpa⟩ := uses_page.mp hv
  have hc : ¬ (lo ≤ v ∧ v < hi ∧ Present (m.pte pd v)) := by
    intro hc
    rw [h.pte, if_pos hc] at hp
    exact not_present_zero hp
  rw [h.pte, if_neg hc] at hp hpa
  exact ⟨uses_page.mpr ⟨hU, hp, hpa⟩, fun hr => hc ⟨hr.1, hr.2, hp⟩⟩

lemma Unmapped.range (h : Unmapped L D m m' pd lo hi) {lo' hi' : Nat}
    (hr : ∀ v, Present (m.pte pd v) → (lo ≤ v ∧ v < hi ↔ lo' ≤ v ∧ v < hi')) : Unmapped L D m m' pd lo' hi' where
  space := h.space
  table := h.table
  pte := fun v => by
    rw [h.pte]
    refine if_congr ⟨fun hn => ?_, fun hn => ?_⟩ rfl rfl
    · exact and_assoc.mp ⟨(hr v hn.2.2).mp ⟨hn.1, hn.2.1⟩, hn.2.2⟩
    · exact and_assoc.mp ⟨(hr v hn.2.2).mpr ⟨hn.1, hn.2.1⟩, hn.2.2⟩
  free := by
    obtain ⟨l, hl, hm⟩ := h.free
    refine ⟨l, hl, fun p => (hm p).trans (exists_congr fun v => ⟨fun hn => ?_, fun hn => ?_⟩)⟩
    · exact and_assoc.mp ⟨(hr v (uses_page.mp hn.2.2).2.1).mp ⟨hn.1, hn.2.1⟩, hn.2.2⟩
    · exact and_assoc.mp ⟨(hr v (uses_page.mp hn.2.2).2.1).mpr ⟨hn.1, hn.2.1⟩, hn.2.2⟩
  frame := fun p ht hp => h.frame p ht fun v h1 h2 hv => by
    obtain ⟨h1', h2'⟩ := (hr v (uses_page.mp hv).2.1).mp ⟨h1, h2⟩
    exact hp v h1' h2' hv

lemma unmapped_page (h : Space L D m pd) (ht : m.table pd (v / 1024) = some t) (hv : m.uses pd (.page v) = some p) :
    Unmapped L D m ((m.release p).store t (v % 1024) 0) pd v (v + 1) := by
  obtain ⟨hpd, htab⟩ := h.apart.page hv
  obtain ⟨e1, e2, e3⟩ : (m.release p).table pd = m.table pd ∧ (m.release p).pte pd = m.pte pd ∧
      (m.release p).uses pd = m.uses pd := Space.view_set hpd htab
  have ha : Apart (m.release p) pd := by
    unfold Apart
    rw [e3]
    exact h.apart
  have ht' : (m.release p).table pd (v / 1024) = some t := by
    rw [e1]
    exact ht
  have hD : D p := h.owns.data _ _ hv
  have hz : (0 : Nat) % 2 ^ 32 = 0 := Nat.zero_mod _
  refine ⟨?_, (table_store ha.tables ht').trans e1, fun x => ?_, ⟨[p], rfl, fun q => ?_⟩, fun q hq hq' => ?_⟩
  · show Pool L D (p :: m.freelist) _
    rw [uses_store ha.tables ht', hz, if_neg fun hc => not_present_zero hc.2, e3]
    exact (h.pull hv).give hD (h.page p hD)
  · rw [pte_store ha.tables ht', e2, hz]
    by_cases e : x = v
    · rw [e, if_pos rfl, if_pos ⟨Nat.le_refl v, Nat.lt_succ_self v, (uses_page.mp hv).2.1⟩]
    · rw [if_neg e, if_neg fun hc => e (by omega)]
  · rw [mem_singleton]
    constructor
    · rintro rfl
      exact ⟨v, Nat.le_refl v, Nat.lt_succ_self v, hv⟩
    · rintro ⟨x, hx1, hx2, hx⟩
      have hxv : x = v := by omega
      rw [hxv, hv] at hx
      exact (Option.some.inj hx).symm
  · have hqt : q ≠ t := by
      rintro rfl
      exact hq _ ht
    have hqp : q ≠ p := by
      rintro rfl
      exact hq' v (Nat.le_refl v) (Nat.lt_succ_self v) hv
    show update (update m.frame p _) t _ q = m.frame q
    rw [update_of_ne hqt, update_of_ne hqp]

lemma Link.Page.ne_zero (h : L.Page p) : p ≠ 0 := by
  rintro rfl
  have h1 := L.data_gt
  have h2 := L.data_le
  have h3 := h.1
  show False
  unfold KERNLINK at h1
  omega

/-! ## the loop -/

/-- **The jump goes to the first page of the next table.** -/
theorem skip_page (hv : v < UPAGES) : skip (PGSIZE * v) = PGSIZE * ((v / 1024 + 1) * 1024) := by
  have hv : v < 2 ^ 19 := hv
  unfold skip PGADDR
  rw [PDX_page (Nat.lt_trans hv (by decide))]
  show (((v / 1024 + 1) * 2 ^ 22 % 2 ^ 32 + (2 ^ 32 - 4096)) % 2 ^ 32 + 4096) % 2 ^ 32 = 4096 * ((v / 1024 + 1) * 1024)
  omega

/-- the first page number that is not below `sz`. -/
def pages (sz : Nat) : Nat := (sz + (PGSIZE - 1)) / PGSIZE

lemma pages_mono {sz newsz : Nat} (h : sz ≤ newsz) : pages sz ≤ pages newsz :=
  Nat.div_le_div_right (Nat.add_le_add_right h _)

lemma page_lt_iff (v sz : Nat) : PGSIZE * v < sz ↔ v < pages sz := by
  show 4096 * v < sz ↔ v < (sz + 4095) / 4096
  omega

lemma pages_le {sz : Nat} (h : sz ≤ KERNBASE) : pages sz ≤ UPAGES := by
  have h : sz ≤ 2 ^ 31 := h
  show (sz + 4095) / 4096 ≤ 2 ^ 19
  omega

lemma PGROUNDUP_eq {sz : Nat} (h : sz ≤ KERNBASE) : PGROUNDUP sz = PGSIZE * pages sz := by
  have h : sz ≤ 2 ^ 31 := h
  show (sz + 4095) % 2 ^ 32 / 4096 * 4096 = 4096 * ((sz + 4095) / 4096)
  omega

lemma next_page (hv : v < UPAGES) : u32 (PGSIZE * v + PGSIZE) = PGSIZE * (v + 1) := by
  have hv : v < 2 ^ 19 := hv
  show (4096 * v + 4096) % 2 ^ 32 = 4096 * (v + 1)
  omega

lemma next_table_le (hv : v < UPAGES) : (v / 1024 + 1) * 1024 ≤ UPAGES := by
  have hv : v < 2 ^ 19 := hv
  show (v / 1024 + 1) * 1024 ≤ 2 ^ 19
  omega

lemma not_present_of_table (ht : m.table pd (v / 1024) = none) {x : Nat} (h1 : v ≤ x)
    (h2 : x < (v / 1024 + 1) * 1024) : ¬ Present (m.pte pd x) := by
  have hx : x / 1024 = v / 1024 := by omega
  rw [pte_none (by rw [hx]; exact ht)]
  exact not_present_zero

lemma deallocLoop_spec {oldsz : Nat} (ho : oldsz ≤ KERNBASE) :
    ∀ fuel v (m : Mem), Space L D m pd → v ≤ UPAGES → pages oldsz - v < fuel →
      wp E (deallocLoop L pd oldsz fuel (PGSIZE * v)) (fun _ m' => Unmapped L D m m' pd v (max v (pages oldsz))) m := by
  intro fuel
  induction fuel with
  | zero => exact fun v m _ _ hf => absurd hf (Nat.not_lt_zero _)
  | succ fuel ih =>
    intro v m h hv hf
    unfold deallocLoop
    by_cases hlt : PGSIZE * v < oldsz
    case neg =>
      rw [if_neg hlt]
      have hge : pages oldsz ≤ v := Nat.not_lt.mp fun hc => hlt ((page_lt_iff v oldsz).mpr hc)
      refine wp_pure (Unmapped.refl h fun x h1 h2 => ?_)
      omega
    rw [if_pos hlt]
    have hvp : v < pages oldsz := (page_lt_iff v oldsz).mp hlt
    have hvU : v < UPAGES := Nat.lt_of_lt_of_le hvp (pages_le ho)
    have hmax : max v (pages oldsz) = pages oldsz := Nat.max_eq_right (Nat.le_of_lt hvp)
    rw [hmax]
    apply wp_walk_seq
    rw [PDX_page (Nat.lt_trans hvU (by decide)), PTX_page]
    -- a turn that does the page `v`, and the turns after it
    have hnext : ∀ m₁, Unmapped L D m m₁ pd v (v + 1) →
        wp E (deallocLoop L pd oldsz fuel (u32 (PGSIZE * v + PGSIZE)))
          (fun _ m' => Unmapped L D m m' pd v (pages oldsz)) m₁ := by
      intro m₁ h₁
      rw [next_page hvU]
      refine wp_mono (ih (v + 1) m₁ h₁.space hvU (by omega)) fun _ m' h' => ?_
      rw [Nat.max_eq_right hvp] at h'
      exact h₁.trans h' (Nat.le_succ v) hvp
    cases ht : m.table pd (v / 1024) with
    | none =>
      show wp E (deallocLoop L pd oldsz fuel (skip (PGSIZE * v))) _ m
      rw [skip_page hvU]
      have hU : (v / 1024 + 1) * 1024 ≤ UPAGES := next_table_le hvU
      refine wp_mono (ih _ m h hU (by omega)) fun _ m' h' => h'.range fun x hx => ?_
      have hxv : ¬ (v ≤ x ∧ x < (v / 1024 + 1) * 1024) := fun hc => not_present_of_table ht hc.1 hc.2 hx
      omega
    | some =>
      apply wp_load_seq
      rw [← pte_of_table ht]
      by_cases hp : Present (m.pte pd v)
      · have hu : m.uses pd (.page v) = some (pteAddr (m.pte pd v)) := uses_page.mpr ⟨hvU, hp, rfl⟩
        have hpage : L.Page (pteAddr (m.pte pd v)) := h.page _ (h.owns.data _ _ hu)
        have hne : pteAddr (m.pte pd v) ≠ 0 := Link.Page.ne_zero hpage
        apply Eq.mpr (congrArg (wp E · _ m) ((if_pos hp).trans (if_neg hne)))
        exact wp_kfree_seq hpage (wp_modify_seq (hnext _ (unmapped_page h ht hu)))
      · apply Eq.mpr (congrArg (wp E · _ m) (if_neg hp))
        exact hnext m (Unmapped.refl h fun x h1 h2 => by
          have hx : x = v := by omega
          rw [hx]
          exact hp)

lemma deallocuvm_spec {oldsz newsz : Nat} (h : Space L D m pd) (ho : oldsz ≤ KERNBASE)
    (hn : newsz < oldsz) : wp E (deallocuvm L pd oldsz newsz)
      (fun r m' => r = newsz ∧ Unmapped L D m m' pd (pages newsz) (pages oldsz)) m := by
  have hle : pages newsz ≤ pages oldsz := pages_mono (Nat.le_of_lt hn)
  have hU := pages_le ho
  unfold deallocuvm
  rw [if_neg (Nat.not_le.mpr hn), PGROUNDUP_eq (Nat.le_trans (Nat.le_of_lt hn) ho)]
  refine wp_seq (deallocLoop_spec ho NPAGES _ m h (Nat.le_trans hle hU) ?_) fun _ m' h' => ?_
  · exact Nat.lt_of_le_of_lt (Nat.sub_le _ _) (Nat.lt_of_le_of_lt hU (by decide))
  · rw [Nat.max_eq_right hle] at h'
    exact wp_pure ⟨rfl, h'⟩

lemma ok_of_wp {α : Type} {f : M α} {Q : α → Mem → Prop} (h : wp (fun _ => False) f Q m) :
    ∃ r m', f m = .ok (r, m') ∧ Q r m' := by
  cases hf : f m with
  | ok r => exact ⟨r.1, r.2, rfl, h.elim.1 _ _ hf⟩
  | error e => exact (h.elim.2 e hf).elim

/-- **`deallocuvm` unmaps the range, and nothing else.** The address space has any page tables and pages; the pages of
`[PGROUNDUP(newsz), oldsz)` are freed, each once. The jump over an absent page table goes forward, and over no page. -/
theorem deallocuvm_unmaps_range (L : Link) (D : Nat → Prop) (m : Mem) (pd oldsz newsz : Nat) (h : Space L D m pd)
    (ho : oldsz ≤ KERNBASE) :
    (∃ r m', deallocuvm L pd oldsz newsz m = .ok (r, m') ∧
      (oldsz ≤ newsz → r = oldsz ∧ m' = m) ∧
      (newsz < oldsz → r = newsz ∧ Space L D m' pd ∧ m'.table pd = m.table pd ∧ m'.frame pd = m.frame pd ∧
        (∀ v, m'.pte pd v =
          if PGROUNDUP newsz ≤ PGSIZE * v ∧ PGSIZE * v < oldsz ∧ Present (m.pte pd v) then 0 else m.pte pd v) ∧
        (∃ l, m'.freelist = l ++ m.freelist ∧ l.Nodup ∧ (∀ p ∈ l, p ∉ m.freelist) ∧
          ∀ p, p ∈ l ↔ ∃ v, PGROUNDUP newsz ≤ PGSIZE * v ∧ PGSIZE * v < oldsz ∧ Present (m.pte pd v) ∧
            pteAddr (m.pte pd v) = p) ∧
        ∀ v p, m'.uses pd (.page v) = some p → m'.frame p = m.frame p)) ∧
    ∀ a, a % PGSIZE = 0 → a < oldsz → m.table pd (PDX a) = none →
      a < skip a ∧ ∀ v, a ≤ PGSIZE * v → PGSIZE * v < skip a → ¬ Present (m.pte pd v) := by
  refine ⟨?_, fun a ha hao hta => ?_⟩
  · by_cases hn : newsz < oldsz
    · obtain ⟨r, m', hrun, rfl, hu⟩ := ok_of_wp (deallocuvm_spec h ho hn)
      have hround : ∀ v, PGROUNDUP r ≤ PGSIZE * v ∧ PGSIZE * v < oldsz ↔ pages r ≤ v ∧ v < pages oldsz := by
        intro v
        rw [PGROUNDUP_eq (Nat.le_trans (Nat.le_of_lt hn) ho), page_lt_iff]
        exact and_congr_left fun _ => Nat.mul_le_mul_left_iff (by decide)
      refine ⟨r, m', hrun, fun hc => absurd hn (Nat.not_lt.mpr hc), fun _ => ⟨rfl, hu.space, hu.table, ?_, ?_, ?_, ?_⟩⟩
      · refine hu.frame pd (fun i hi => h.apart.table_ne_dir hi rfl) fun v _ _ hv => (h.apart.page hv).1 rfl
      · intro v
        rw [hu.pte]
        exact if_congr (by rw [← and_assoc, ← and_assoc, hround]) rfl rfl
      · obtain ⟨l, hl, hm⟩ := hu.free
        have hnd := hu.space.nodup
        rw [hl] at hnd
        obtain ⟨hl1, -, hl2⟩ := nodup_append.mp hnd
        refine ⟨l, hl, hl1, fun p hp hp' => hl2 p hp p hp' rfl, fun p => (hm p).trans (exists_congr fun v => ?_)⟩
        rw [← and_assoc, ← and_assoc, hround]
        refine and_congr_right fun hv => ⟨fun hp => (uses_page.mp hp).2, fun hp => uses_page.mpr ⟨?_, hp⟩⟩
        exact Nat.lt_of_lt_of_le hv.2 (pages_le ho)
      · intro v p hv
        have hv' : m.uses pd (.page v) = some p ∧ ¬ (pages r ≤ v ∧ v < pages oldsz) := hu.kept hv
        refine hu.frame p (h.apart.page hv'.1).2 fun x h1 h2 hx => hv'.2 ?_
        rw [Use.page.inj (h.apart _ _ _ hv'.1 hx)]
        exact ⟨h1, h2⟩
    · refine ⟨oldsz, m, ?_, fun _ => ⟨rfl, rfl⟩, fun hc => absurd hc hn⟩
      unfold deallocuvm
      rw [if_pos (Nat.not_lt.mp hn)]
      rfl
  · obtain ⟨v, rfl⟩ : ∃ v, a = PGSIZE * v := ⟨a / PGSIZE, (Nat.mul_div_cancel' (Nat.dvd_of_mod_eq_zero ha)).symm⟩
    have hv : v < UPAGES := Nat.lt_of_lt_of_le ((page_lt_iff v oldsz).mp hao) (pages_le ho)
    rw [PDX_page (Nat.lt_trans hv (by decide))] at hta
    rw [skip_page hv]
    refine ⟨(Nat.mul_lt_mul_left (by decide)).mpr (by omega), fun x h1 h2 => ?_⟩
    exact not_present_of_table hta (Nat.le_of_mul_le_mul_left h1 (by decide)) (Nat.lt_of_mul_lt_mul_left h2)

/-- 12 MB of which only the first page is there: it is unmapped and freed, and the absent page tables of the other 8 MB
are jumped over. -/
theorem deallocuvm_unmaps_range_jump : ∃ m', deallocuvm stock 300 0xC00000 0 onePage = .ok (0, m') ∧
    Present (onePage.pte 300 0) ∧ m'.pte 300 0 = 0 ∧ 302 ∈ m'.freelist ∧
    onePage.table 300 (PDX 0x400000) = none ∧ 0x400000 < skip 0x400000 := by
  obtain ⟨⟨r, m', hrun, -, h⟩, hskip⟩ :=
    deallocuvm_unmaps_range stock fourPages onePage 300 0xC00000 0 onePage_space (by decide)
  obtain ⟨rfl, -, -, -, hpte, ⟨l, hl, -, -, hfreed⟩, -⟩ := h (by decide)
  have hp : onePage.pte 300 0 = PGSIZE * 302 + 7 := onePage_pte 0
  have hpres : Present (onePage.pte 300 0) := by rw [hp]; decide
  have ht : onePage.table 300 (PDX 0x400000) = none := by decide +kernel
  refine ⟨m', hrun, hpres, ?_, ?_, ht, (hskip _ (by decide) (by decide) ht).1⟩
  · rw [hpte, if_pos ⟨by decide, by decide, hpres⟩]
  · rw [hl]
    exact mem_append_left _ ((hfreed 302).mpr ⟨0, by decide, by decide, hpres, by rw [hp]; decide⟩)

end Xv6.Vm
