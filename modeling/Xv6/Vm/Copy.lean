import Xv6.Vm.Setup

/-!
# `copyuvm`

The address space `pd` is copied to a new one, made of the free pages `D`. The pages of `pd` are not in `D`
(`Foreign`), so that it stays as it is while the new one grows (`Foreign.view`).
-/

namespace Xv6.Vm
open Lib List Option

/-- the pages of the address space are not in `D`. -/
def Foreign (D : Nat → Prop) (m : Mem) (pd : Nat) : Prop := ∀ u p, m.uses pd u = some p → ¬ D p

variable {L : Link} {D : Nat → Prop} {m m' m₀ : Mem} {pd d v p sz lo hi perm : Nat} {E : Fault → Prop} {K : Nat → Nat}

lemma Foreign.view (h : Foreign D m pd) (ho : Outside D m m') :
    m'.table pd = m.table pd ∧ m'.pte pd = m.pte pd ∧ m'.uses pd = m.uses pd :=
  view_congr (ho pd (h .dir pd rfl)) fun i t ht => ho t (h (.table i) t ht)

lemma or_one {x : Nat} (h : x % 2 = 1) : x ||| 1 = x := by
  have e : 2 ^ 1 * (x / 2) + 1 = 2 ^ 1 * (x / 2) ||| 1 := Nat.two_pow_add_eq_or_of_lt (by decide) (x / 2)
  have hx : 2 ^ 1 * (x / 2) + 1 = x := by omega
  rw [hx] at e
  rw [e, Nat.or_assoc]
  rfl

lemma flags_present {w : Nat} (h : Present w) : pteFlags w ||| PTE_P = pteFlags w := by
  apply or_one
  rw [present_iff] at h
  show w % 4096 % 2 = 1
  omega

/-- the new address space `d` has the pages of `pd` below `n`, with their flags and their content. -/
abbrev Copied (m₀ m : Mem) (pd d n : Nat) : Prop :=
  Filled m d 0 n (fun v => pteFlags (m₀.pte pd v)) fun v => m₀.frame (pteAddr (m₀.pte pd v))

lemma pteFlags_lt (w : Nat) : pteFlags w < PGSIZE := Nat.mod_lt w (by decide)

/-- `K` are the entries of the kernel half. -/
theorem copyLoop_spec (hf : Foreign D m₀ pd) (hsz : sz ≤ KERNBASE) (hall : ∀ v, v < pages sz → Present (m₀.pte pd v)) :
    ∀ fuel v (m : Mem), Space L D m d → Outside D m₀ m → (∀ x, UPAGES ≤ x → m.pte d x = K x) →
      Copied m₀ m pd d v → (∀ x, v ≤ x → x < UPAGES → m.pte d x = 0) → v ≤ pages sz → pages sz - v < fuel →
      wp E (copyLoop L pd d sz fuel (PGSIZE * v)) (fun ok m' => Space L D m' d ∧ Outside D m₀ m' ∧
        (ok = true → (∀ x, UPAGES ≤ x → m'.pte d x = K x) ∧ Copied m₀ m' pd d (pages sz) ∧
          ∀ x, pages sz ≤ x → x < UPAGES → m'.pte d x = 0)) m := by
  intro fuel
  induction fuel with
  | zero => exact fun v m _ _ _ _ _ _ hfu => absurd hfu (Nat.not_lt_zero _)
  | succ fuel ih =>
    intro v m hs ho hK hc hz hv hfu
    have hU : pages sz ≤ UPAGES := pages_le hsz
    unfold copyLoop
    by_cases hlt : PGSIZE * v < sz
    case neg =>
      have e : v = pages sz := Nat.le_antisymm hv (Nat.not_lt.mp fun hc => hlt ((page_lt_iff v sz).mpr hc))
      rw [if_neg hlt]
      rw [e] at hc hz
      exact wp_pure ⟨hs, ho, fun _ => ⟨hK, hc, hz⟩⟩
    have hvp : v < pages sz := (page_lt_iff v sz).mp hlt
    have hvU : v < UPAGES := Nat.lt_of_lt_of_le hvp hU
    rw [if_pos hlt]
    -- the page of the old address space
    obtain ⟨etab, epte, -⟩ := hf.view ho
    have hpr := hall v hvp
    apply wp_walk_seq
    rw [PDX_page (Nat.lt_trans hvU (by decide)), PTX_page]
    cases ht : m.table pd (v / 1024) with
    | none =>
      rw [← epte, pte_none ht] at hpr
      exact absurd hpr not_present_zero
    | some =>
      apply wp_load_seq
      rw [← pte_of_table ht, epte]
      apply Eq.mpr (congrArg (wp E · _ m) (if_neg hpr))
      refine wp_kalloc_seq (fun _ => wp_pure ⟨hs, ho, fun hc => absurd hc (by decide)⟩) fun p l hl => ?_
      obtain ⟨hD, hp, hsa, hwa⟩ := taken (b := m.frame (pteAddr (m₀.pte pd v))) hs hl
      apply wp_modify_seq
      have hna : ¬ Present ((({ m with freelist := l } : Mem).set p (m.frame (pteAddr (m₀.pte pd v)))).pte d v) := by
        rw [(hwa 0 0).pte v (by omega), hz v (Nat.le_refl v) hvU]
        exact not_present_zero
      refine wp_seq (wp_mapPage hsa hD hp hvU hna (pteFlags_lt _)) fun ok m2 h₂ => ?_
      obtain ⟨hw2, hok, hbad⟩ := h₂
      have ho2 : Outside D m₀ m2 := ho.trans (((hwa 0 0).outside hs).trans fun q hq =>
        hw2.outside hsa q fun hc => hq hc.1)
      cases ok with
      | false =>
        obtain ⟨hs2, -⟩ := hbad rfl
        obtain ⟨hs3, -, -⟩ := hs2.release hD hp
        refine wp_kfree_seq hp (wp_pure ⟨hs3, ho2.trans (Outside.set hD), fun hc => absurd hc (by decide)⟩)
      | true =>
        obtain ⟨hs2, hpte⟩ := hok rfl
        rw [if_pos rfl, next_page hvU]
        have hframe : m2.frame p = m₀.frame (pteAddr (m₀.pte pd v)) := by
          obtain ⟨hpd, htab, -⟩ := hsa.fresh (.inr fun hc => hc.2 rfl)
          have hold : ¬ D (pteAddr (m₀.pte pd v)) := hf (.page v) _ (uses_page.mpr ⟨hvU, hpr, rfl⟩)
          rw [hw2.frame p (fun hc => (hsa.free p hc).2 rfl) hpd htab, ← ho _ hold]
          exact Function.update_self _ _ _
        have hca := hc.mono (fun _ => pteFlags_lt _) hs (hwa v v) (Nat.le_of_lt hvU)
        refine ih (v + 1) m2 hs2 ho2 (fun x hx => ?_) ?_ (fun x h1 h2 => ?_) hvp (by omega)
        · rw [hw2.pte x (by omega), (hwa 0 0).pte x (by omega)]
          exact hK x hx
        · exact hca.step (fun _ => pteFlags_lt _) hsa (Nat.le_of_lt hvU) hw2 hpte hframe
        · rw [hw2.pte x (by omega), (hwa 0 0).pte x (by omega)]
          exact hz x (by omega) h2

/-- **`copyuvm`**: a copy of the address space, made of free pages, or no page is taken. -/
theorem copyuvm_spec (h : Pool L D m.freelist fun _ => none) (hf : Foreign D m pd) (hsz : sz ≤ KERNBASE)
    (hall : ∀ v, v < pages sz → Present (m.pte pd v)) : wp E (copyuvm L pd sz) (fun r m' => Outside D m m' ∧
      (r = none → Pool L D m'.freelist fun _ => none) ∧ (∀ d, r = some d → Space L D m' d ∧
        (∃ m1, setupkvm L m = .ok (some d, m1) ∧ ∀ x, UPAGES ≤ x → m'.pte d x = m1.pte d x) ∧
        Copied m m' pd d (pages sz) ∧ ∀ x, pages sz ≤ x → x < UPAGES → m'.pte d x = 0)) m := by
  unfold copyuvm
  refine wp_seq (setupkvm_spec h).result fun r m1 h1 => ?_
  obtain ⟨hrun, ho1, hnone, hsome⟩ := h1
  cases r with
  | none => exact wp_pure ⟨ho1, hnone, fun d hd => absurd hd.symm (some_ne_none d)⟩
  | some d =>
    obtain ⟨hs, -, hz⟩ := hsome d rfl
    have hfuel : pages sz - 0 < NPAGES := Nat.lt_of_le_of_lt (pages_le hsz) (by decide)
    refine wp_seq (copyLoop_spec hf hsz hall NPAGES 0 m1 hs ho1 (fun _ _ => rfl) (fun v _ h2 => absurd h2 (Nat.not_lt_zero v))
      (fun x _ => hz x) (Nat.zero_le _) hfuel) fun ok m2 h₂ => ?_
    obtain ⟨hs2, ho2, hok⟩ := h₂
    cases ok with
    | true =>
      refine wp_pure ⟨ho2, fun hc => absurd hc (some_ne_none d), fun d' hd => ?_⟩
      rw [← some.inj hd]
      obtain ⟨hK, hc⟩ := hok rfl
      exact ⟨hs2, ⟨m1, hrun, hK⟩, hc⟩
    | false =>
      refine wp_seq (freevm_spec hs2) fun _ m3 h3 => ?_
      exact wp_pure ⟨ho2.trans h3.2, fun _ => h3.1, fun d' hd => absurd hd.symm (some_ne_none d')⟩

lemma mem_of_pool {l : List Nat} (h : Pool L D l fun _ => none) (p : Nat) : p ∈ l ↔ D p := by
  refine ⟨h.free p, fun hD => ?_⟩
  by_contra hp
  obtain ⟨u, hu⟩ := (h.owns.used_iff p hD).mp (decide_eq_true hp)
  cases hu

/-! ## two address spaces -/

/-- what is read at a user address. -/
def Mem.peek (m : Mem) (pd va : Nat) : Option UInt8 :=
  (m.uses pd (.page (va / PGSIZE))).map fun p => byte (m.frame p) (va % PGSIZE)

/-- a byte is written at a user address. -/
def Mem.poke (m : Mem) (pd va : Nat) (x : UInt8) : Mem :=
  match m.uses pd (.page (va / PGSIZE)) with
  | none => m
  | some p => m.set p fun k => if k.val = va % PGSIZE then x else m.frame p k

/-- each has its pages for itself. -/
structure Private (m : Mem) (pd d : Nat) : Prop where
  left : Apart m pd
  right : Apart m d
  shared : ∀ u u' p, m.uses pd u = some p → m.uses d u' ≠ some p

lemma Private.poke (h : Private m pd d) (va : Nat) (x : UInt8) :
    Private (m.poke pd va x) pd d ∧ (m.poke pd va x).peek d = m.peek d := by
  unfold Mem.poke
  cases hu : m.uses pd (.page (va / PGSIZE)) with
  | none => exact ⟨h, rfl⟩
  | some p =>
    have hd : ∀ u, m.uses d u ≠ some p := fun u => h.shared _ u p hu
    obtain ⟨-, -, e1⟩ := Space.view_set (b := fun k => if k.val = va % PGSIZE then x else m.frame p k) (h.left.page hu).1
      (h.left.page hu).2
    obtain ⟨-, -, e2⟩ := Space.view_set (b := fun k => if k.val = va % PGSIZE then x else m.frame p k)
      (fun e => hd .dir (congrArg some e.symm)) fun i => hd (.table i)
    dsimp only
    refine ⟨⟨?_, ?_, ?_⟩, funext fun a => ?_⟩
    · exact fun u u' q => e1 ▸ h.left u u' q
    · exact fun u u' q => e2 ▸ h.right u u' q
    · exact fun u u' q => e1 ▸ e2 ▸ h.shared u u' q
    · unfold Mem.peek
      rw [e2]
      cases hq : m.uses d (.page (a / PGSIZE)) with
      | none => rfl
      | some q =>
        have hne : q ≠ p := fun e => hd _ (e ▸ hq)
        exact congrArg (fun f => some (byte f (a % PGSIZE))) (Function.update_of_ne hne _ _)

lemma Private.symm (h : Private m pd d) : Private m d pd := ⟨h.right, h.left, fun u u' p h1 h2 => h.shared u' u p h2 h1⟩

/-- writes through both address spaces, in any order: `true` is the new one. -/
def Mem.pokes (m : Mem) (pd d : Nat) : List (Bool × Nat × UInt8) → Mem
  | [] => m
  | (new, va, x) :: ws => (m.poke (if new then d else pd) va x).pokes pd d ws

lemma Private.pokes (h : Private m pd d) (ws : List (Bool × Nat × UInt8)) : Private (m.pokes pd d ws) pd d := by
  induction ws generalizing m with
  | nil => exact h
  | cons w ws ih =>
    obtain ⟨new, va, x⟩ := w
    cases new with
    | true => exact ih (h.symm.poke va x).1.symm
    | false => exact ih (h.poke va x).1

/-! ## the copy -/

/-- `d` is a copy of the pages of `pd` below `sz`, of pages that were free. -/
structure ExactCopy (L : Link) (m m' : Mem) (pd d sz : Nat) : Prop where
  kernel : ∃ m₁, setupkvm L m = .ok (some d, m₁) ∧ ∀ v, UPAGES ≤ v → m'.pte d v = m₁.pte d v
  flags : ∀ v, v < pages sz → pteFlags (m'.pte d v) = pteFlags (m.pte pd v)
  same : ∀ v, v < pages sz → m'.frame (pteAddr (m'.pte d v)) = m.frame (pteAddr (m.pte pd v))
  mapped : ∀ v, v < UPAGES → (Present (m'.pte d v) ↔ v < pages sz)
  fresh : ∀ u p, m'.uses d u = some p → p ∈ m.freelist
  distinct : Apart m' d

/-- **`copyuvm` makes an exact private copy.** With any pages free, it returns a copy or 0, and then every page that it
took is free again. The old address space stays as it is, and no write through one of the two, now or after other
writes, changes what is read through the other. -/
theorem copyuvm_exact_copy (L : Link) (m : Mem) (pd sz : Nat) (hn : m.freelist.Nodup)
    (hp : ∀ p ∈ m.freelist, L.Page p) (hf : Foreign (· ∈ m.freelist) m pd) (ha : Apart m pd) (hsz : sz < KERNBASE)
    (hall : ∀ v, v < pages sz → Present (m.pte pd v)) :
    ∃ r m', copyuvm L pd sz m = .ok (r, m') ∧ m'.pte pd = m.pte pd ∧ m'.uses pd = m.uses pd ∧
      (∀ p, p ∉ m.freelist → m'.frame p = m.frame p) ∧
      (r = none → m'.freelist.Nodup ∧ ∀ p, p ∈ m'.freelist ↔ p ∈ m.freelist) ∧
      (∀ d, r = some d → ExactCopy L m m' pd d sz ∧ ∀ ws va x,
        ((m'.pokes pd d ws).poke pd va x).peek d = (m'.pokes pd d ws).peek d ∧
        ((m'.pokes pd d ws).poke d va x).peek pd = (m'.pokes pd d ws).peek pd) := by
  obtain ⟨r, m', hrun, ho, hnone, hsome⟩ := ok_of_wp (copyuvm_spec (Pool.start hn hp) hf (Nat.le_of_lt hsz) hall)
  obtain ⟨-, epte, euses⟩ := hf.view ho
  refine ⟨r, m', hrun, epte, euses, ho, fun hr => ⟨(hnone hr).nodup, mem_of_pool (hnone hr)⟩, fun d hd => ?_⟩
  obtain ⟨hs, hk, hc, hz⟩ := hsome d hd
  have hfresh : ∀ u p, m'.uses d u = some p → p ∈ m.freelist := fun u p hu => hs.owns.data u p hu
  have hentry : ∀ v, v < pages sz → ∃ p, m'.pte d v = PGSIZE * p + pteFlags (m.pte pd v) ∧
      m'.frame p = m.frame (pteAddr (m.pte pd v)) := by
    intro v hv
    obtain ⟨p, hpte, hb⟩ := hc v (Nat.zero_le v) hv
    rw [flags_present (hall v hv)] at hpte
    exact ⟨p, hpte, hb⟩
  have haddr : ∀ p w, pteAddr (PGSIZE * p + pteFlags w) = p := by
    intro p w
    have hlt : pteFlags w < 4096 := pteFlags_lt w
    show (4096 * p + pteFlags w) / 4096 = p
    omega
  refine ⟨⟨hk, fun v hv => ?_, fun v hv => ?_, fun v hv => ⟨fun h => ?_, fun h => ?_⟩, hfresh, hs.apart⟩, fun ws va x => ?_⟩
  · obtain ⟨p, hpte, -⟩ := hentry v hv
    rw [hpte]
    exact (Nat.mul_add_mod _ _ _).trans (Nat.mod_eq_of_lt (pteFlags_lt _))
  · obtain ⟨p, hpte, hb⟩ := hentry v hv
    rw [hpte, haddr]
    exact hb
  · by_contra hc
    rw [hz v (Nat.not_lt.mp hc) hv] at h
    exact not_present_zero h
  · obtain ⟨p, hpte, -⟩ := hc v (Nat.zero_le v) h
    rw [hpte]
    exact present_entry p _
  · have hpriv : Private m' pd d := ⟨fun u u' p => euses ▸ ha u u' p, hs.apart,
      fun u u' p h1 h2 => hf u p (euses ▸ h1) (hfresh u' p h2)⟩
    exact ⟨((hpriv.pokes ws).poke va x).2, ((hpriv.pokes ws).symm.poke va x).2⟩

/-- an address space of one page, and enough free pages for a copy. -/
def roomy : Mem := { onePage with freelist := range' 303 100 }

theorem copyuvm_exact_copy_roomy : ∃ r m', copyuvm stock 300 4096 roomy = .ok (r, m') ∧
    m'.pte 300 = roomy.pte 300 ∧ m'.frame 302 = roomy.frame 302 ∧
    ∀ d, r = some d → ExactCopy stock roomy m' 300 d 4096 := by
  have hmem : ∀ p ∈ roomy.freelist, 303 ≤ p ∧ p < 403 := fun p hp => by simpa [roomy] using hp
  have hall : ∀ v, v < pages 4096 → Present (roomy.pte 300 v) := by
    intro v hv
    obtain rfl : v = 0 := Nat.lt_one_iff.mp hv
    have h : Present (onePage.pte 300 0) := by rw [onePage_pte]; decide
    exact h
  have hforeign : Foreign (· ∈ roomy.freelist) roomy 300 := by
    intro u p hu hp
    have hD : p ∈ [300, 301, 302, 303] := onePage_space.owns.data u p hu
    have hne : p ≠ 303 := fun e => onePage_space.not_owned (e ▸ mem_singleton_self 303) hu
    have := hmem p hp
    simp only [mem_cons, not_mem_nil, or_false] at hD
    omega
  have hfree : ∀ p ∈ roomy.freelist, stock.Page p := fun p hp =>
    have := hmem p hp
    ⟨show 0x80116000 ≤ 0x80000000 + 4096 * p by omega, show 4096 * p < 0xE000000 by omega⟩
  obtain ⟨r, m', hrun, hpte, -, hold, -, hcopy⟩ := copyuvm_exact_copy stock roomy 300 4096 nodup_range' hfree
    hforeign onePage_space.apart (by decide) hall
  exact ⟨r, m', hrun, hpte, hold 302 fun hc => absurd (hmem _ hc).1 (by decide), fun d hd => (hcopy d hd).1⟩

end Xv6.Vm
