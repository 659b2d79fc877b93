import Xv6.Vm.Memory

/-!
# The pages of one address space

What the hardware reads from a page directory `pd` in memory:

* `Mem.table pd i`   the page table of the entry `i`, if there is one;
* `Mem.pte pd v`     the entry of the virtual page `v`, 0 without a page table;
* `Mem.uses pd`      the physical pages that the address space holds: its directory, its tables and the pages below
                     `KERNBASE`.

`Pool L D l own`: the pages of `D` are on the free list `l`, or `own` holds them, each once. The set `D` is a
parameter that stays the same while pages go from the list to the address space and back; a page in the hand of a
function that has called `kalloc` is taken out of it. So `Space L D m pd` before and after a call says that no page
was lost and none is used twice, and the frame rule is that pages outside `D` keep their content.
-/

set_option linter.unusedSectionVars false

namespace Xv6.Vm
open Lib Function List Option

/-! ## flags -/

/-- `pte & PTE_P` -/
def Present (w : Nat) : Prop := w &&& PTE_P ≠ 0

def User (w : Nat) : Prop := w &&& PTE_U ≠ 0

instance : DecidablePred Present := fun _ => inferInstanceAs (Decidable (_ ≠ _))
instance : DecidablePred User := fun _ => inferInstanceAs (Decidable (_ ≠ _))

lemma and_two_pow_ne_zero (w i : Nat) : w &&& 2 ^ i ≠ 0 ↔ w / 2 ^ i % 2 = 1 := by
  have h1 : (w &&& 2 ^ i) / 2 ^ i = w / 2 ^ i % 2 := by
    rw [Nat.and_div_two_pow, Nat.div_self (Nat.two_pow_pos i), Nat.and_one_is_mod]
  have h2 : (w &&& 2 ^ i) % 2 ^ i = 0 := by
    rw [Nat.and_mod_two_pow, Nat.mod_self, Nat.and_zero]
  have h3 := Nat.div_add_mod (w &&& 2 ^ i) (2 ^ i)
  rw [h1, h2, Nat.add_zero] at h3
  rcases Nat.mod_two_eq_zero_or_one (w / 2 ^ i) with h | h
  · rw [h, Nat.mul_zero] at h3
    rw [← h3, h]
    exact ⟨fun h => absurd rfl h, fun h => absurd h (by decide)⟩
  · rw [h, Nat.mul_one] at h3
    rw [← h3, h]
    exact ⟨fun _ => rfl, fun _ => Nat.ne_of_gt (Nat.two_pow_pos i)⟩

lemma present_iff (w : Nat) : Present w ↔ w % 2 = 1 := by
  have h := and_two_pow_ne_zero w 0
  rw [Nat.pow_zero, Nat.div_one] at h
  exact h

lemma user_iff (w : Nat) : User w ↔ w / 4 % 2 = 1 := and_two_pow_ne_zero w 2

lemma not_present_zero : ¬ Present 0 := by decide

lemma or_flags (p : Nat) {f : Nat} (hf : f < PGSIZE) : PGSIZE * p ||| f = PGSIZE * p + f :=
  (Nat.two_pow_add_eq_or_of_lt (i := 12) hf p).symm

/-! ## what the hardware reads -/

/-- the number of pages below `KERNBASE`. -/
abbrev UPAGES : Nat := 2 ^ 19

def Mem.pde (m : Mem) (pd i : Nat) : Nat := word (m.frame pd) i

def Mem.table (m : Mem) (pd i : Nat) : Option Nat :=
  if i < NPDENTRIES ∧ Present (m.pde pd i) then some (pteAddr (m.pde pd i)) else none

def Mem.pte (m : Mem) (pd v : Nat) : Nat := (m.table pd (v / 1024)).elim 0 fun t => word (m.frame t) (v % 1024)

inductive Use where
  | dir
  | table (i : Nat)
  | page (v : Nat)
  deriving DecidableEq

def Mem.uses (m : Mem) (pd : Nat) : Use → Option Nat
  | .dir => some pd
  | .table i => m.table pd i
  | .page v => if v < UPAGES ∧ Present (m.pte pd v) then some (pteAddr (m.pte pd v)) else none

variable {L : Link} {D : Nat → Prop} {m m' : Mem} {pd d v p t i w : Nat}

lemma table_some : m.table pd i = some t ↔ i < NPDENTRIES ∧ Present (m.pde pd i) ∧ pteAddr (m.pde pd i) = t := by
  unfold Mem.table
  split
  · next h =>
    constructor
    · intro e
      exact ⟨h.1, h.2, some.inj e⟩
    · intro e
      rw [e.2.2]
  · next h =>
    constructor
    · intro e
      cases e
    · intro e
      exact absurd ⟨e.1, e.2.1⟩ h

lemma table_none (hi : i < NPDENTRIES) : m.table pd i = none ↔ ¬ Present (m.pde pd i) := by
  unfold Mem.table
  split
  · next h => exact ⟨fun e => (by cases e), fun e => absurd h.2 e⟩
  · next h => exact ⟨fun _ hp => h ⟨hi, hp⟩, fun _ => rfl⟩

lemma pte_of_table (h : m.table pd (v / 1024) = some t) : m.pte pd v = word (m.frame t) (v % 1024) := by
  unfold Mem.pte
  rw [h]
  rfl

lemma pte_none (h : m.table pd (v / 1024) = none) : m.pte pd v = 0 := by
  unfold Mem.pte
  rw [h]
  rfl

lemma uses_page : m.uses pd (.page v) = some p ↔ v < UPAGES ∧ Present (m.pte pd v) ∧ pteAddr (m.pte pd v) = p := by
  show (if _ then some _ else none) = some p ↔ _
  split
  · next h =>
    constructor
    · intro e
      exact ⟨h.1, h.2, some.inj e⟩
    · intro e
      rw [e.2.2]
  · next h =>
    constructor
    · intro e
      cases e
    · intro e
      exact absurd ⟨e.1, e.2.1⟩ h

lemma uses_page_congr (h : m'.pte pd v = m.pte pd v) : m'.uses pd (.page v) = m.uses pd (.page v) := by
  show (if _ ∧ Present (m'.pte pd v) then _ else _) = _
  rw [h]
  rfl

lemma view_congr (h0 : m'.frame pd = m.frame pd) (h : ∀ i t, m.table pd i = some t → m'.frame t = m.frame t) :
    m'.table pd = m.table pd ∧ m'.pte pd = m.pte pd ∧ m'.uses pd = m.uses pd := by
  have ht : m'.table pd = m.table pd := by
    funext i
    unfold Mem.table Mem.pde
    rw [h0]
  have hp : m'.pte pd = m.pte pd := by
    funext v
    cases hv : m.table pd (v / 1024) with
    | none => rw [pte_none hv, pte_none (by rw [ht]; exact hv)]
    | some t => rw [pte_of_table hv, pte_of_table (by rw [ht]; exact hv), h _ t hv]
  refine ⟨ht, hp, ?_⟩
  funext u
  unfold Mem.uses
  rw [ht, hp]

/-! ## the pool -/

structure Pool (L : Link) (D : Nat → Prop) (l : List Nat) (own : Use → Option Nat) : Prop where
  owns : Owns D (fun p => decide (p ∉ l)) own
  nodup : l.Nodup
  free : ∀ p ∈ l, D p
  page : ∀ p, D p → L.Page p

/-- an address space, with the free pages. -/
abbrev Space (L : Link) (D : Nat → Prop) (m : Mem) (pd : Nat) : Prop := Pool L D m.freelist (m.uses pd)

/-- the pages of `D` but for `p`, which is in the hand. -/
abbrev Without (D : Nat → Prop) (p : Nat) : Nat → Prop := fun x => D x ∧ x ≠ p

namespace Pool
variable {l : List Nat} {own : Use → Option Nat} {u : Use}

lemma not_free (h : Pool L D l own) (hu : own u = some p) : p ∉ l := of_decide_eq_true (h.owns.used_of hu)

lemma not_owned (h : Pool L D l own) (hp : p ∈ l) : own u ≠ some p := fun hu => h.not_free hu hp

lemma start (hn : l.Nodup) (hp : ∀ p ∈ l, L.Page p) : Pool L (· ∈ l) l fun _ => none where
  owns := by
    constructor
    · exact fun _ _ _ hu => absurd hu.symm (some_ne_none _)
    · exact fun _ _ hu => absurd hu.symm (some_ne_none _)
    · intro p hp
      constructor
      · exact fun hu => absurd hp (of_decide_eq_true hu)
      · rintro ⟨u, hu⟩
        exact absurd hu.symm (some_ne_none _)
  nodup := hn
  free := fun _ h => h
  page := hp

lemma take (h : Pool L D (p :: l) own) : D p ∧ p ∉ l ∧ Pool L (Without D p) l own := by
  obtain ⟨hp, hl⟩ := nodup_cons.mp h.nodup
  refine ⟨h.free p mem_cons_self, hp, ?_, hl, fun x hx => ⟨h.free x (mem_cons_of_mem _ hx), ?_⟩,
    fun x hx => h.page x hx.1⟩
  · refine h.owns.pick (decide_eq_false (not_not_intro mem_cons_self)) fun x hx => ?_
    rw [decide_eq_decide, mem_cons]
    exact ⟨fun hn => not_or.mpr ⟨hx, hn⟩, fun hn => (not_or.mp hn).2⟩
  · rintro rfl
    exact hp hx

section
variable (h : Pool L (Without D p) l own) (hD : D p) (hp : L.Page p)
include h hD hp

lemma give : Pool L D (p :: l) own := by
  have hpl : p ∉ l := fun hm => (h.free p hm).2 rfl
  refine ⟨?_, nodup_cons.mpr ⟨hpl, h.nodup⟩, fun x hx => ?_, fun x hx => ?_⟩
  · refine h.owns.drop (decide_eq_false (not_not_intro mem_cons_self)) fun x hx => ?_
    rw [decide_eq_decide, mem_cons]
    exact ⟨fun hn => (not_or.mp hn).2, fun hn => not_or.mpr ⟨hx, hn⟩⟩
  · rcases mem_cons.mp hx with rfl | hx
    · exact hD
    · exact (h.free x hx).1
  · by_cases e : x = p
    · rw [e]
      exact hp
    · exact h.page x ⟨hx, e⟩

lemma put (hu : own u = none) : Pool L D l (update own u (some p)) := by
  refine ⟨h.owns.put hD (decide_eq_true fun hm => (h.free p hm).2 rfl) hu, h.nodup, fun x hx => (h.free x hx).1,
    fun x hx => ?_⟩
  by_cases e : x = p
  · rw [e]
    exact hp
  · exact h.page x ⟨hx, e⟩

end

lemma pull (h : Pool L D l own) (hu : own u = some p) : Pool L (Without D p) l (update own u none) := by
  refine ⟨h.owns.pull hu, h.nodup, fun x hx => ⟨h.free x hx, ?_⟩, fun x hx => h.page x hx.1⟩
  rintro rfl
  exact h.not_free hu hx

end Pool

/-- the directory, the tables and the pages are all different. -/
def Apart (m : Mem) (pd : Nat) : Prop := ∀ u u' p, m.uses pd u = some p → m.uses pd u' = some p → u = u'

namespace Apart

lemma table_ne_dir (h : Apart m pd) (ht : m.table pd i = some t) : t ≠ pd := by
  rintro rfl
  have := h (.table i) .dir t ht rfl
  cases this

lemma table_inj (h : Apart m pd) {j : Nat} (hi : m.table pd i = some t) (hj : m.table pd j = some t) : i = j :=
  Use.table.inj (h (.table i) (.table j) t hi hj)

lemma page (h : Apart m pd) (hv : m.uses pd (.page v) = some p) : p ≠ pd ∧ ∀ i, m.table pd i ≠ some p := by
  refine ⟨fun e => ?_, fun i hi => ?_⟩
  · have := h (.page v) .dir p hv (by rw [e]; rfl)
    cases this
  · have := h (.page v) (.table i) p hv hi
    cases this

end Apart

namespace Space

lemma apart (h : Space L D m pd) : Apart m pd := h.owns.one

lemma fresh (h : Space L D m pd) (hp : p ∈ m.freelist ∨ ¬ D p) :
    p ≠ pd ∧ (∀ i, m.table pd i ≠ some p) ∧ ∀ u, m.uses pd u ≠ some p := by
  have hu : ∀ u, m.uses pd u ≠ some p := by
    intro u hu
    rcases hp with hp | hp
    · exact h.not_owned hp hu
    · exact hp (h.owns.data u p hu)
  refine ⟨fun e => hu .dir (by rw [e]; rfl), fun i => hu (.table i), hu⟩

lemma view_set {b : Frame} (h0 : p ≠ pd) (h : ∀ i, m.table pd i ≠ some p) :
    (m.set p b).table pd = m.table pd ∧ (m.set p b).pte pd = m.pte pd ∧ (m.set p b).uses pd = m.uses pd :=
  view_congr (update_of_ne (Ne.symm h0) _ _) fun i t ht =>
    update_of_ne (fun e : t = p => h i (e ▸ ht)) _ _

end Space

/-! ## an entry of a page table is written -/

/-- the page tables are pages of their own. -/
structure Tables (m : Mem) (pd : Nat) : Prop where
  dir : ∀ i t, m.table pd i = some t → t ≠ pd
  one : ∀ i j t, m.table pd i = some t → m.table pd j = some t → i = j

/-- no free page is the directory or a table; whoever holds the other pages. -/
structure Stocked (L : Link) (m : Mem) (pd : Nat) : Prop extends Tables m pd where
  nodup : m.freelist.Nodup
  free : ∀ p ∈ m.freelist, L.Page p ∧ p ≠ pd ∧ ∀ i, m.table pd i ≠ some p

lemma Apart.tables (h : Apart m pd) : Tables m pd :=
  ⟨fun _ _ hi => h.table_ne_dir hi, fun _ _ _ hi hj => h.table_inj hi hj⟩

lemma Space.stocked (h : Space L D m pd) : Stocked L m pd :=
  ⟨h.apart.tables, h.nodup, fun p hp =>
    ⟨h.page p (h.free p hp), (h.fresh (.inl hp)).1, (h.fresh (.inl hp)).2.1⟩⟩

section
variable (h : Tables m pd) (ht : m.table pd (v / 1024) = some t)
include h ht

lemma table_store : (m.store t (v % 1024) w).table pd = m.table pd := by
  have hframe : (m.store t (v % 1024) w).frame pd = m.frame pd := update_of_ne (h.dir _ _ ht).symm _ _
  funext i
  unfold Mem.table Mem.pde
  rw [hframe]

lemma pte_store (v' : Nat) : (m.store t (v % 1024) w).pte pd v' = if v' = v then w % 2 ^ 32 else m.pte pd v' := by
  have htab := table_store (w := w) h ht
  cases hv' : m.table pd (v' / 1024) with
  | none =>
    have hne : v' ≠ v := by
      rintro rfl
      rw [ht] at hv'
      cases hv'
    rw [if_neg hne, pte_none hv', pte_none (by rw [htab]; exact hv')]
  | some t' =>
    rw [pte_of_table (by rw [htab]; exact hv'), pte_of_table hv']
    by_cases ett : t' = t
    · have hd : v' / 1024 = v / 1024 := h.one _ _ t (ett ▸ hv') ht
      rw [ett]
      show word (update m.frame t _ t) _ = _
      rw [update_self]
      by_cases e : v' = v
      · rw [e, if_pos rfl, word_setWord_same _ _ (Nat.mod_lt v (by decide))]
      · rw [if_neg e, word_setWord_ne _ _ (by omega)]
    · have hne : v' ≠ v := by
        rintro rfl
        rw [hv'] at ht
        exact ett (some.inj ht)
      show word (update m.frame t _ t') _ = _
      rw [if_neg hne, update_of_ne ett]

lemma uses_store : (m.store t (v % 1024) w).uses pd = update (m.uses pd) (.page v)
    (if v < UPAGES ∧ Present (w % 2 ^ 32) then some (pteAddr (w % 2 ^ 32)) else none) := by
  funext u
  cases u with
  | dir => rfl
  | table i =>
    rw [update_of_ne (by simp)]
    exact congrFun (table_store h ht) i
  | page v' =>
    show (if v' < UPAGES ∧ Present ((m.store t (v % 1024) w).pte pd v') then _ else none) = _
    rw [pte_store h ht]
    by_cases e : v' = v
    · rw [e, if_pos rfl, update_self]
    · rw [if_neg e, update_of_ne fun e' => e (Use.page.inj e')]
      rfl

end

lemma Space.map (h : Pool L (Without D p) m.freelist (m.uses pd)) (hD : D p) (hp : L.Page p) (hv : v < UPAGES)
    (ht : m.table pd (v / 1024) = some t) (hn : ¬ Present (m.pte pd v)) (hw : Present (w % 2 ^ 32))
    (hwp : pteAddr (w % 2 ^ 32) = p) : Space L D (m.store t (v % 1024) w) pd := by
  have hu : m.uses pd (.page v) = none := if_neg fun hc => hn hc.2
  show Pool L D m.freelist _
  rw [uses_store (Space.apart h).tables ht, if_pos ⟨hv, hw⟩, hwp]
  exact h.put hD hp hu

/-! ## an empty directory -/

section
variable (h : m.frame pd = fun _ => 0)
include h

lemma table_bare (i : Nat) : m.table pd i = none := by
  unfold Mem.table Mem.pde
  rw [h, word_zero]
  exact if_neg fun hc => not_present_zero hc.2

lemma pte_bare (v : Nat) : m.pte pd v = 0 := pte_none (table_bare h _)

lemma uses_bare : m.uses pd = update (fun _ => none) .dir (some pd) := by
  funext u
  cases u with
  | dir => rfl
  | table i => exact table_bare h i
  | page =>
    refine if_neg fun hc => ?_
    rw [pte_bare h] at hc
    exact not_present_zero hc.2

end

lemma space_bare (h : Pool L (Without D pd) m.freelist fun _ => none) (hD : D pd) (hp : L.Page pd)
    (hz : m.frame pd = fun _ => 0) : Space L D m pd := by
  show Pool L D m.freelist _
  rw [uses_bare hz]
  exact h.put hD hp rfl

/-! ## a page table is added -/

section
variable {l : List Nat}

/-- the memory after a page table `t` has been hooked in at the entry `d`. -/
def Mem.hook (m : Mem) (pd d t : Nat) (l : List Nat) : Mem :=
  (({ m with freelist := l } : Mem).set t fun _ => 0).store pd d (PGSIZE * t ||| PTE_P ||| PTE_W ||| PTE_U)

section
variable (h : Stocked L m pd) (hl : m.freelist = t :: l) (hd : d < NPDENTRIES) (hn : m.table pd d = none)
include h hl hd hn

lemma table_hook : (m.hook pd d t l).table pd = update (m.table pd) d (some t) := by
  obtain ⟨⟨-, hpage⟩, hpd, -⟩ := h.free t (hl ▸ mem_cons_self)
  have hflags : PGSIZE * t ||| PTE_P ||| PTE_W ||| PTE_U = PGSIZE * t + 7 := by
    rw [Nat.or_assoc, Nat.or_assoc]
    exact or_flags t (by decide)
  have hframe : (m.hook pd d t l).frame pd = setWord (m.frame pd) d (PGSIZE * t + 7) := by
    unfold Mem.hook Mem.store
    rw [hflags]
    show update _ pd _ pd = _
    rw [update_self]
    exact congrArg (setWord · d _) (update_of_ne hpd.symm _ _)
  funext i
  unfold Mem.table Mem.pde
  rw [hframe]
  by_cases e : i = d
  · rw [e, update_self, word_setWord_same _ _ hd]
    have hpage : 4096 * t < 0xE000000 := hpage
    have hlt : (4096 * t + 7) % 2 ^ 32 = 4096 * t + 7 := Nat.mod_eq_of_lt (by omega)
    have haddr : pteAddr (4096 * t + 7) = t := by
      show (4096 * t + 7) / 4096 = t
      omega
    rw [hlt, if_pos ⟨hd, (present_iff _).mpr (by omega)⟩, haddr]
  · rw [update_of_ne e, word_setWord_ne _ _ (Ne.symm e)]

lemma frame_hook (hp : p ≠ t) (hp' : p ≠ pd) : (m.hook pd d t l).frame p = m.frame p := by
  unfold Mem.hook Mem.store Mem.set
  show update (update m.frame t _) pd _ p = _
  rw [update_of_ne hp', update_of_ne hp]

lemma pte_hook : (m.hook pd d t l).pte pd = m.pte pd := by
  have htab := table_hook h hl hd hn
  obtain ⟨-, hpd, htt⟩ := h.free t (hl ▸ mem_cons_self)
  funext v
  by_cases e : v / 1024 = d
  · have ht : (m.hook pd d t l).table pd (v / 1024) = some t := by
      rw [htab, e, update_self]
    have hzero : (m.hook pd d t l).frame t = fun _ => 0 := by
      unfold Mem.hook Mem.store Mem.set
      show update (update m.frame t _) pd _ t = _
      rw [update_of_ne hpd, update_self]
    rw [pte_of_table ht, hzero, word_zero, pte_none (by rw [e]; exact hn)]
  · have ht : (m.hook pd d t l).table pd (v / 1024) = m.table pd (v / 1024) := by
      rw [htab, update_of_ne e]
    cases hv : m.table pd (v / 1024) with
    | none => rw [pte_none hv, pte_none (ht.trans hv)]
    | some =>
      rw [pte_of_table hv, pte_of_table (ht.trans hv)]
      rw [frame_hook h hl hd hn (fun e' => htt _ (e' ▸ hv)) (h.dir _ _ hv)]

lemma uses_hook : (m.hook pd d t l).uses pd = update (m.uses pd) (.table d) (some t) := by
  funext u
  cases u with
  | dir => rfl
  | table i =>
    show (m.hook pd d t l).table pd i = _
    rw [table_hook h hl hd hn]
    by_cases e : i = d
    · rw [e, update_self, update_self]
    · rw [update_of_ne e, update_of_ne fun e' => e (Use.table.inj e')]
      rfl
  | page =>
    rw [update_of_ne (by simp)]
    unfold Mem.uses
    rw [pte_hook h hl hd hn]

lemma stocked_hook : Stocked L (m.hook pd d t l) pd := by
  obtain ⟨-, hpd, htt⟩ := h.free t (hl ▸ mem_cons_self)
  have hnd : (t :: l).Nodup := hl ▸ h.nodup
  have htab : ∀ i x, (m.hook pd d t l).table pd i = some x → i = d ∧ x = t ∨ i ≠ d ∧ m.table pd i = some x := by
    intro i x hx
    rw [table_hook h hl hd hn, update_apply] at hx
    split at hx
    · next e => exact .inl ⟨e, (some.inj hx).symm⟩
    · next e => exact .inr ⟨e, hx⟩
  refine ⟨⟨fun i x hi => ?_, fun i j x hi hj => ?_⟩, (nodup_cons.mp hnd).2, fun p hp => ?_⟩
  · rcases htab i x hi with ⟨-, e⟩ | ⟨-, hi⟩
    · rw [e]
      exact hpd
    · exact h.dir i x hi
  · rcases htab i x hi with ⟨ei, ex⟩ | ⟨-, hi⟩ <;> rcases htab j x hj with ⟨ej, ex'⟩ | ⟨-, hj⟩
    · rw [ei, ej]
    · exact absurd (ex ▸ hj) (htt j)
    · exact absurd (ex' ▸ hi) (htt i)
    · exact h.one i j x hi hj
  · obtain ⟨h1, h2, h3⟩ := h.free p (hl ▸ mem_cons_of_mem t hp)
    refine ⟨h1, h2, fun i hi => ?_⟩
    rcases htab i p hi with ⟨-, e⟩ | ⟨-, hi⟩
    · exact (nodup_cons.mp hnd).1 (e ▸ hp)
    · exact h3 i hi

end

lemma space_hook (h : Space L D m pd) (hl : m.freelist = t :: l) (hd : d < NPDENTRIES) (hn : m.table pd d = none) :
    Space L D (m.hook pd d t l) pd := by
  have h' : Pool L D (t :: l) (m.uses pd) := by
    rw [← hl]
    exact h
  obtain ⟨hD, -, hpool⟩ := h'.take
  show Pool L D l ((m.hook pd d t l).uses pd)
  rw [uses_hook h.stocked hl hd hn]
  exact hpool.put hD (h.page t hD) hn

end

/-! ## addresses of pages -/

lemma PDX_page (hv : v < NPAGES) : PDX (PGSIZE * v) = v / 1024 := by
  have hv : v < 2 ^ 20 := hv
  show 4096 * v / 2 ^ 22 % 1024 = v / 1024
  omega

lemma PTX_page (v : Nat) : PTX (PGSIZE * v) = v % 1024 := by
  show 4096 * v / 2 ^ 12 % 1024 = v % 1024
  omega

/-! ## the functions of one page -/

section
variable {α : Type} {E : Fault → Prop} {R : α → Mem → Prop}

lemma wp_load_seq {f : Nat → M α} (h : wp E (f (word (m.frame p) i)) R m) : wp E (load p i >>= f) R m := h

lemma wp_walk_seq {va : Nat} {f : Option (Nat × Nat) → M α}
    (h : wp E (f ((m.table pd (PDX va)).map fun t => (t, PTX va))) R m) : wp E (walkpgdir pd va false >>= f) R m := by
  refine wp_seq (Q := fun r m' => r = (m.table pd (PDX va)).map (fun t => (t, PTX va)) ∧ m' = m) ?_ ?_
  · apply wp_load_seq
    have hi : PDX va < NPDENTRIES := Nat.mod_lt _ (by decide)
    by_cases hp : Present (m.pde pd (PDX va))
    · have ht : m.table pd (PDX va) = some (pteAddr (m.pde pd (PDX va))) := table_some.mpr ⟨hi, hp, rfl⟩
      rw [ht]
      apply Eq.mpr (congrArg (wp E · _ m) (if_pos hp))
      exact wp_pure ⟨rfl, rfl⟩
    · rw [(table_none hi).mpr hp]
      apply Eq.mpr (congrArg (wp E · _ m) (if_neg hp))
      exact wp_pure ⟨rfl, rfl⟩
  · rintro r m' ⟨rfl, rfl⟩
    exact h

/-- the memory after `kfree`. -/
def Mem.release (m : Mem) (p : Nat) : Mem := { m.set p fun _ => 1 with freelist := p :: m.freelist }

lemma wp_kfree_seq {f : PUnit → M α} (hp : L.Page p) (h : wp E (f ⟨⟩) R (m.release p)) :
    wp E (kfree L p >>= f) R m := by
  have hk : kfree L p = (do memset p 1; modify fun m => { m with freelist := p :: m.freelist }) :=
    if_neg fun hn => hn.elim (Nat.not_lt.mpr hp.1) (Nat.not_le.mpr hp.2)
  rw [hk]
  exact h

end

lemma Space.release (h : Space L (Without D p) m pd) (hD : D p) (hp : L.Page p) :
    Space L D (m.release p) pd ∧ (m.release p).table pd = m.table pd ∧ (m.release p).pte pd = m.pte pd := by
  obtain ⟨hpd, htab, -⟩ := h.fresh (.inr fun hc => hc.2 rfl)
  obtain ⟨e1, e2, e3⟩ : (m.release p).table pd = m.table pd ∧ (m.release p).pte pd = m.pte pd ∧
      (m.release p).uses pd = m.uses pd := Space.view_set hpd htab
  refine ⟨?_, e1, e2⟩
  show Pool L D (p :: m.freelist) _
  rw [e3]
  exact h.give hD hp

/-! ## a small memory -/

lemma stock_aligned : 0x80108000 % PGSIZE = 0 := by decide
lemma stock_data_gt : KERNLINK < 0x80108000 := by decide
lemma stock_data_le : 0x80108000 ≤ 0x80116000 := by decide
lemma stock_kend_lt : 0x80116000 < KERNBASE + PHYSTOP := by decide

/-- a kernel of about the size of the one that is built. -/
def stock : Link := ⟨0x80108000, 0x80116000, stock_aligned, stock_data_gt, stock_data_le, stock_kend_lt⟩

/-- a directory, page 300, without tables, and free pages. -/
def small : Mem := ⟨fun _ _ => 0, [301, 302, 303]⟩

/-- one user page. -/
def onePage : Mem :=
  ({ small.hook 300 0 301 [302, 303] with freelist := [303] } : Mem).store 301 0 (PGSIZE * 302 + 7)

abbrev fourPages : Nat → Prop := (· ∈ [300, 301, 302, 303])

lemma small_pages : ∀ p ∈ [300, 301, 302, 303], stock.Page p := by
  unfold Link.Page
  decide

lemma small_space : Space stock fourPages small 300 := by
  have h : Pool stock fourPages [300, 301, 302, 303] fun _ => none := Pool.start (by decide) small_pages
  exact space_bare h.take.2.2 h.take.1 (small_pages 300 (by decide)) rfl

lemma hooked_table : (small.hook 300 0 301 [302, 303]).table 300 (0 / 1024) = some 301 := by
  rw [table_hook small_space.stocked rfl (by decide) (table_bare rfl 0)]
  rfl

lemma hooked_pte (v : Nat) : (small.hook 300 0 301 [302, 303]).pte 300 v = 0 := by
  rw [pte_hook small_space.stocked rfl (by decide) (table_bare rfl 0)]
  exact pte_bare rfl v

lemma hooked_space : Space stock fourPages (small.hook 300 0 301 [302, 303]) 300 :=
  space_hook small_space rfl (by decide) (table_bare rfl 0)

lemma onePage_space : Space stock fourPages onePage 300 := by
  have h : Pool stock fourPages (302 :: [303]) _ := hooked_space
  refine Space.map (p := 302) (v := 0) h.take.2.2 h.take.1 (small_pages 302 (by decide)) (by decide) hooked_table ?_
    (by decide) (by decide)
  intro hc
  have hc : Present ((small.hook 300 0 301 [302, 303]).pte 300 0) := hc
  rw [hooked_pte] at hc
  exact not_present_zero hc

lemma onePage_pte (v : Nat) : onePage.pte 300 v = if v = 0 then PGSIZE * 302 + 7 else 0 := by
  have h : onePage.pte 300 v = _ := pte_store (v := 0) hooked_space.apart.tables hooked_table v
  rw [h, hooked_pte]
  rfl

end Xv6.Vm
