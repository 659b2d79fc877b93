import Xv6.Queue.Placed

/-!
# Time slices of the MLFQ build on one CPU

The timer books a tick to `ticks[current_queue]`; the loop over `q_l` compares `ticks[l]` with
`clockperiod[l]` when the process comes back. While every entry is in its place the two counters
are the same, and `Tick` lists what a good step can do to the counters of a process that it leaves
as an entry of `q_l`:

* `same`      nothing; if the process was on its way back, it still is or its slice is not over;
* `booked`    it is charged a tick, and is on its way back;
* `created`   it is new, and its counters are 0;
* `demoted`   it has come from the queue above.

So (`Sliced`) the counter of a queue is 0 before the process gets there, and it reaches
`clockperiod[l]` only on the way back to the scheduler, which then moves the process down.
-/

namespace Xv6
open Lib Function List Kernel Option

variable {pol : Policy} {s s' : State 1} {a : Action 1} {l : Fin 5} {p : Slot} {k k' : Kernel}
  {tr : Trace 1} {u : Bool} {npages need : Nat}

/-! ## one CPU -/

lemma only_cpu (hi : (s.cpus 0).mode ≠ .idle) (hr : (s.cpus 0).mode ≠ .run)
    (h : step pol s a = .ok s') : a = .cpu 0 := by
  have one : ∀ c : Fin 1, c = 0 := fun c => Subsingleton.elim _ _
  cases a with
  | cpu c => rw [one c]
  | timer c u =>
    rw [one c] at h
    change timerStep s 0 u = .ok s' at h
    unfold timerStep at h
    rw [if_neg (not_or.mpr ⟨hi, hr⟩)] at h
    cases h
  | intr c ch =>
    rw [one c] at h
    change intrStep s 0 ch = .ok s' at h
    unfold intrStep at h
    rw [if_neg fun e => not_or.mpr ⟨hi, hr⟩ e.1] at h
    cases h
  | sys c op =>
    rw [one c] at h
    change sysStep pol s 0 op = .ok s' at h
    dsimp only [sysStep] at h
    split at h
    · next hm _ => exact absurd hm hr
    · cases h

/-- the process that the step charges a tick, and the queue from which it was dispatched. -/
def charged (s : State 1) : Action 1 → Option (Slot × Fin 5)
  | .cpu c =>
    match (s.cpus c).mode, (s.cpus c).proc with
    | .tickCharge _, some p =>
      if (s.ker.procs p).state = .RUNNING then some (p, (s.cpus c).lvl) else none
    | _, _ => none
  | _ => none

lemma charged_some (h : charged s a = some (p, l)) :
    (∃ u, (s.cpus 0).mode = .tickCharge u) ∧ (s.cpus 0).proc = some p := by
  unfold charged at h
  split at h
  · next c =>
    obtain rfl : c = 0 := Subsingleton.elim _ _
    split at h
    · next u q hm hp =>
      split at h
      · cases h; exact ⟨⟨u, hm⟩, hp⟩
      · cases h
    · cases h
  · cases h

/-- the end of `trap` after a timer tick, and the return of `swtch`. -/
def Mode.returning : Mode → Bool
  | .trapTail _ => true
  | .back => true
  | _ => false

/-- `p` is on its way back to the scheduler. -/
def Returning (s : State 1) (p : Slot) : Prop :=
  (s.cpus 0).proc = some p ∧ (s.cpus 0).mode.returning = true

lemma trapTail_step (hs : Sound s) (hm : (s.cpus 0).mode = .trapTail u)
    (hp : (s.cpus 0).proc = some p) (hk : (s.ker.procs p).killed = false) : step .MLFQ s (.cpu 0) =
      .ok (s.next 0 (s.ker.yield p) { s.cpus 0 with mode := .back } (some 0)) := by
  have hr : (s.ker.procs p).state = .RUNNING :=
    (hs.place 0).proc_running hp (.inr (by rw [hm]; rfl))
  have hl : s.lock = none := by
    cases e : s.lock with
    | none => rfl
    | some c =>
      have hc := (hs.lock c).mpr e
      rw [show c = 0 from Subsingleton.elim _ _, hm] at hc
      cases hc
  simp [step, cpuStep, hm, trapTailStep, hp, hk, hr, hl]

lemma back_step (hm : (s.cpus 0).mode = .back) (h : step .MLFQ s a = .ok s') :
    ∃ m k, (s.cpus 0).proc = some m ∧ s.ker.afterSwtch (s.cpus 0).lvl (s.cpus 0).i m = .ok k ∧
      s' = s.next 0 k { s.cpus 0 with proc := none, i := (s.cpus 0).i + 1, mode := .scan } s.lock := by
  obtain rfl := only_cpu (by rw [hm]; nofun) (by rw [hm]; nofun) h
  change cpuStep .MLFQ s 0 = .ok s' at h
  unfold cpuStep at h
  simp only [hm] at h
  dsimp only [backStep] at h
  split at h
  · cases h
  · next m hp =>
    rw [if_pos rfl] at h
    split at h
    · next k hk => cases h; exact ⟨m, k, hp, hk, rfl⟩
    · cases h

lemma charge_step (hm : (s.cpus 0).mode = .tickCharge u)
    (h : step .MLFQ s a = .ok s') : ((s.cpus 0).proc = none ∧ s'.ker = s.ker) ∨
      ∃ q, (s.cpus 0).proc = some q ∧ s.ker.charge q = .ok s'.ker ∧ Returning s' q := by
  obtain rfl := only_cpu (by rw [hm]; nofun) (by rw [hm]; nofun) h
  change cpuStep .MLFQ s 0 = .ok s' at h
  unfold cpuStep at h
  simp only [hm] at h
  unfold tickChargeStep at h
  split at h
  · next hp => cases h; exact .inl ⟨hp, rfl⟩
  · next q hp =>
    split at h
    · next k hk =>
      cases h
      refine .inr ⟨q, hp, hk, ?_⟩
      unfold Returning
      rw [next_same]
      exact ⟨hp, rfl⟩
    · cases h

/-! ## what a step does to the counters -/

inductive Tick (s : State 1) (a : Action 1) (s' : State 1) (l : Fin 5) (p : Slot) : Prop
  | same (hm : p ∈ s.ker.lists l) (hk : (s.ker.procs p).killed = false)
      (hp : (s'.ker.procs p).pid = (s.ker.procs p).pid)
      (ht : (s'.ker.procs p).ticks = (s.ker.procs p).ticks) (hc : charged s a ≠ some (p, l))
      (hr : l ≠ 4 → Returning s p → Returning s' p ∨ s.ker.sliceOver l p = false)
  | booked (hm : p ∈ s.ker.lists l) (hk : (s.ker.procs p).killed = false)
      (hp : (s'.ker.procs p).pid = (s.ker.procs p).pid)
      (ht : (s'.ker.procs p).ticks = update (s.ker.procs p).ticks l ((s.ker.procs p).ticks l + 1))
      (hn : ¬ Returning s p) (hr : Returning s' p)
  | created (hno : ∀ j, p ∉ s.ker.lists j) (ht : (s'.ker.procs p).ticks = fun _ => 0)
  | demoted {j : Fin 5} (hm : p ∈ s.ker.lists j) (hk : (s.ker.procs p).killed = false) (hj : j ≠ 4)
      (e : l = j + 1)
      (ht : (s'.ker.procs p).ticks = update (s.ker.procs p).ticks j 0)

namespace Kernel

lemma charge_ticks (h : k.charge p = .ok k') (hr : (k.procs p).state = .RUNNING)
    (hc : (k.procs p).current_queue = l.val) :
    (k'.procs p).ticks = update (k.procs p).ticks l ((k.procs p).ticks l + 1) ∧
      ∀ q, q ≠ p → k'.procs q = k.procs q := by
  unfold charge at h
  rw [hr, hc] at h
  simp only [queueNo_val] at h
  cases h
  exact ⟨by rw [upd_same], fun q hq => upd_of_ne _ _ hq⟩

end Kernel

lemma tick_back (h : InPlace s) (h' : s'.ker.Placed) (hm : (s.cpus 0).mode = .back)
    (hst : step .MLFQ s a = .ok s') (hp : p ∈ s'.ker.lists l)
    (hk : (s'.ker.procs p).killed = false) : Tick s a s' l p := by
  obtain ⟨m, k, hcp, hback, rfl⟩ := back_step hm hst
  have hi := h.arrays.parked 0 m hcp
  have hlm := mem_of_getElem? hi
  obtain ⟨-, hb⟩ := afterSwtch_lists h.arrays.full hi hback
  obtain ⟨-, epid, ekill⟩ := hb.calm_pids p
  rw [next_ker] at h' hp hk
  rw [ekill] at hk
  have hch : charged s a ≠ some (p, l) := by
    intro e
    obtain ⟨⟨u, hu⟩, -⟩ := charged_some e
    rw [hm] at hu
    cases hu
  by_cases e : p = m
  · subst e
    have home := h'.mem l p hp
    cases hb with
    | stay hl ho ek =>
      subst ek
      obtain rfl := h.placed.apart hp hlm
      exact .same hp hk rfl rfl hch fun _ _ => .inr ho
    | spin hl hk' hpr =>
      have hl4 : l = 4 := by
        rw [home_congr (k := s.ker) (by rw [hpr]) (by rw [hpr]), h.placed.mem _ p hlm, hl] at home
        exact (some.inj home).symm
      refine .same (hl4 ▸ hl ▸ hlm) hk epid ?_ hch fun hne => absurd hl4 hne
      rw [next_ker, hpr]
    | repeatLast hl hk' | drop hl ho hk' => rw [hk] at hk'; cases hk'
    | demote hl ho hk' hpr =>
      refine .demoted hlm hk hl ?_ ?_
      · obtain ⟨-, hcq⟩ := home_some.mp home
        obtain ⟨-, hcq'⟩ := home_some.mp (h.placed.mem _ p hlm)
        rw [hpr, upd_same] at hcq
        change (s.ker.procs p).current_queue + 1 = l.val at hcq
        have := succ_val hl
        exact Fin.ext (by omega)
      · rw [next_ker, hpr, upd_same]
  · have hin := hb.mem_of_ne hp e
    have hpr := hb.procs_of_ne e
    refine .same hin hk epid (by rw [next_ker, hpr]) hch fun _ hr => ?_
    have := hr.1
    rw [hcp] at this
    exact absurd (some.inj this).symm e

lemma tick_charge (h : InPlace s) (hm : (s.cpus 0).mode = .tickCharge u)
    (hst : step .MLFQ s a = .ok s') (hp : p ∈ s'.ker.lists l)
    (hk : (s'.ker.procs p).killed = false) : Tick s a s' l p := by
  have hno : ∀ q, ¬ Returning s q := by
    intro q hr
    have := hr.2
    rw [hm] at this
    cases this
  rcases charge_step hm hst with ⟨hcp, ek⟩ | ⟨q, hcp, hch, hret⟩
  · rw [ek] at hp hk
    refine .same hp hk (by rw [ek]) (by rw [ek]) (fun e => ?_) fun _ hr => absurd hr (hno p)
    rw [(charged_some e).2] at hcp
    cases hcp
  · obtain ⟨hq, -, hkill⟩ := charge_still hch
    rw [lists_congr hq] at hp
    rw [hkill] at hk
    have hrun : (s.ker.procs q).state = .RUNNING :=
      (h.sound.place 0).proc_running hcp (.inr (by rw [hm]; rfl))
    have hlq := mem_of_getElem? (h.arrays.parked 0 q hcp)
    have hcq := (home_some.mp (h.placed.mem _ q hlq)).2
    obtain ⟨ht, ho⟩ := charge_ticks hch hrun hcq
    by_cases e : p = q
    · subst e
      obtain rfl := h.placed.apart hp hlq
      exact .booked hp hk ((calmTo_charge hch).procs p).pid ht (hno p) hret
    · refine .same hp hk (by rw [ho p e]) (by rw [ho p e]) (fun e' => ?_) fun _ hr => absurd hr (hno p)
      rw [(charged_some e').2] at hcp
      exact e (some.inj hcp)

lemma Returning.keep (hs : Sound s) (hr : Returning s p) (hnb : (s.cpus 0).mode ≠ .back)
    (hk : (s.ker.procs p).killed = false) (hst : step .MLFQ s a = .ok s') : Returning s' p := by
  obtain ⟨hp, hm⟩ := hr
  obtain ⟨u, hu⟩ : ∃ u, (s.cpus 0).mode = .trapTail u := by
    cases e : (s.cpus 0).mode <;> rw [e] at hm <;>
      first | exact ⟨_, rfl⟩ | exact absurd e hnb | cases hm
  obtain rfl := only_cpu (by rw [hu]; nofun) (by rw [hu]; nofun) hst
  rw [trapTail_step hs hu hp hk] at hst
  cases hst
  unfold Returning
  rw [next_same]
  exact ⟨hp, rfl⟩

lemma tick_other (h : InPlace s) (h' : s'.ker.Placed) (hc : KeepsPlaced s a)
    (hnb : (s.cpus 0).mode ≠ .back) (hnt : ∀ u, (s.cpus 0).mode ≠ .tickCharge u)
    (hst : step .MLFQ s a = .ok s') (hp : p ∈ s'.ker.lists l)
    (hk : (s'.ker.procs p).killed = false) : Tick s a s' l p := by
  have hch : charged s a ≠ some (p, l) := by
    intro e
    obtain ⟨⟨u, hu⟩, -⟩ := charged_some e
    exact hnt u hu
  have hu := (home_some.mp (h'.mem l p hp)).1
  have notback : ∀ {c : Fin 1}, (s.cpus c).mode.returning = false → l ≠ 4 → Returning s p →
      Returning s' p ∨ s.ker.sliceOver l p = false := by
    intro c hm _ hr
    obtain rfl : c = 0 := Subsingleton.elim _ _
    rw [hr.2] at hm
    cases hm
  cases step_qmove h.sound hst with
  | quiet hq =>
    rw [lists_congr hq.still.queue] at hp
    have hk' := hq.still.killed p hk
    exact .same hp hk' (hq.used p hu).2 (hq.still.ticks p) hch fun _ hr => .inl (hr.keep h.sound hnb hk' hst)
  | @charge c u q k hm =>
    obtain rfl : c = 0 := Subsingleton.elim _ _
    exact absurd hm (hnt u)
  | @run c q ha hm hpol he hr =>
    have hstill := stillTo_dispatchQueue s.ker q
    rw [next_ker, lists_congr hstill.queue] at hp
    exact .same hp (hstill.killed p hk) (dispatchQueue_procs hr p).1 (hstill.ticks p) hch (notback (by rw [hm]; rfl))
  | @alloc c q np qu hm hq hal hun hqu =>
    have hall := alloced s.ker q np qu
    by_cases e : p = np
    · subst e
      refine .created (fun j hj => ?_) hall.ticks
      exact (home_some.mp (h.placed.mem j p hj)).1 hun
    · obtain ⟨-, epid, -, eticks, ekill⟩ := hall.others p e
      rw [next_ker, ekill] at hk
      refine .same ?_ hk epid eticks hch (notback (by rw [hm]; rfl))
      rw [next_ker, (alloced_lists h.arrays.full q hqu).2] at hp
      by_cases e0 : l = 0
      · rw [e0, update_self] at hp
        rcases mem_append.mp hp with hp | hp
        · rw [e0]; exact hp
        · exact absurd (mem_singleton.mp hp) e
      · rw [update_of_ne e0] at hp
        exact hp
  | @age c j i q k hm hal =>
    rw [hc.age] at hal
    cases hal
  | @back c m k ha hm =>
    obtain rfl : c = 0 := Subsingleton.elim _ _
    exact absurd hm hnb
  | @reap c q z x k k' hw hal hz hkr =>
    have hr := hw.reaped hz hkr
    have hne : p ≠ z := by
      intro e
      rw [next_ker, e, hr.gone] at hu
      exact hu rfl
    refine .same ((hr.sublist h.arrays.full l).subset hp) (hr.killed p hne hk)
      ((hr.calm p hne).pid) (hr.ticks p) hch (notback (c := c) ?_)
    have hpl := hw.place
    cases hm : (s.cpus c).mode <;> rw [hm] at hpl <;> first | rfl | cases hpl

/-- **What a good step does to the counters of an entry that is not killed.** -/
theorem tick_step (h : InPlace s) (hc : KeepsPlaced s a) (hst : step .MLFQ s a = .ok s')
    (hp : p ∈ s'.ker.lists l) (hk : (s'.ker.procs p).killed = false) : Tick s a s' l p := by
  have h' := (h.keep hc hst).placed
  by_cases hb : (s.cpus 0).mode = .back
  · exact tick_back h h' hb hst hp hk
  · by_cases ht : ∃ u, (s.cpus 0).mode = .tickCharge u
    · obtain ⟨u, hu⟩ := ht
      exact tick_charge h hu hst hp hk
    · exact tick_other h h' hc hb (fun u hu => ht ⟨u, hu⟩) hst hp hk

/-! ## the slices -/

/-- the counters of the entry `p` of `q_l`. -/
structure SliceOk (s : State 1) (l : Fin 5) (p : Slot) : Prop where
  low : 0 ≤ (s.ker.procs p).ticks l
  later : ∀ j, l < j → (s.ker.procs p).ticks j = 0
  within : l ≠ 4 → 3 < (s.ker.procs p).pid → (s.ker.procs p).ticks l < clockperiod l ∨
    (s.ker.procs p).ticks l = clockperiod l ∧ Returning s p

/-- the counters of all entries that are not killed. -/
def Sliced (s : State 1) : Prop :=
  ∀ l p, p ∈ s.ker.lists l → (s.ker.procs p).killed = false → SliceOk s l p

lemma clockperiod_pos (l : Fin 5) : 0 < clockperiod l := by
  revert l
  decide

lemma sliceOver_full (ht : (k.procs p).ticks l = clockperiod l) (hp : 3 < (k.procs p).pid) :
    k.sliceOver l p = true := by
  unfold Kernel.sliceOver
  split
  · next e =>
    subst e
    rw [ht, decide_eq_true (Int.le_refl _), decide_eq_true hp]
    rfl
  · rw [ht, decide_eq_true (Int.le_refl _)]
    rfl

lemma Sliced.keep (h : InPlace s) (hs : Sliced s) (hc : KeepsPlaced s a)
    (hst : step .MLFQ s a = .ok s') : Sliced s' := by
  intro l p hp hk
  cases tick_step h hc hst hp hk with
  | same hm hk' hpid ht hch hr =>
    obtain ⟨h1, h2, h3⟩ := hs l p hm hk'
    refine ⟨by rw [ht]; exact h1, by rw [ht]; exact h2, fun hl hpid' => ?_⟩
    rw [hpid] at hpid'
    rw [ht]
    rcases h3 hl hpid' with hlt | ⟨heq, hret⟩
    · exact .inl hlt
    · rcases hr hl hret with hret' | hover
      · exact .inr ⟨heq, hret'⟩
      · rw [sliceOver_full heq hpid'] at hover
        cases hover
  | booked hm hk' hpid ht hn hr =>
    obtain ⟨h1, h2, h3⟩ := hs l p hm hk'
    refine ⟨?_, fun j hj => ?_, fun hl hpid' => ?_⟩
    · rw [ht, update_self]
      omega
    · rw [ht, update_of_ne (ne_of_gt hj)]
      exact h2 j hj
    · rw [hpid] at hpid'
      rw [ht, update_self]
      rcases h3 hl hpid' with hlt | ⟨-, hret⟩
      · by_cases e : (s.ker.procs p).ticks l + 1 = clockperiod l
        · exact .inr ⟨e, hr⟩
        · exact .inl (by omega)
      · exact absurd hret hn
  | created hno ht =>
    refine ⟨by rw [ht], fun j _ => by rw [ht], fun _ _ => ?_⟩
    rw [ht]
    exact .inl (clockperiod_pos l)
  | @demoted j hm hk' hj e ht =>
    obtain ⟨-, h2, -⟩ := hs j p hm hk'
    have hlt : j < l := by
      rw [e, Fin.lt_def, succ_val hj]
      omega
    have hz : ∀ i, j < i → (s'.ker.procs p).ticks i = 0 := by
      intro i hi
      rw [ht, update_of_ne (ne_of_gt hi)]
      exact h2 i hi
    refine ⟨by rw [hz l hlt], fun i hi => hz i (lt_trans hlt hi), fun _ _ => ?_⟩
    rw [hz l hlt]
    exact .inl (clockperiod_pos l)

lemma Boot.sliced (h : Boot npages need s) : Sliced s := by
  obtain ⟨-, rfl⟩ := h.eq
  intro l p hp _
  change p ∈ (firstKernel npages need).lists l at hp
  have ht : ((firstKernel npages need).procs p).ticks = fun _ => 0 := by
    by_cases e : p = 0
    · rw [e, firstKernel_init]
    · rw [firstKernel_others _ _ e]
  have ht' : ((firstState npages need : State 1).ker.procs p).ticks = fun _ => 0 := ht
  refine ⟨by rw [ht'], fun j _ => by rw [ht'], fun _ _ => ?_⟩
  rw [ht']
  exact .inl (clockperiod_pos l)

/-! ## the end of a slice -/

/-- after `j` steps of the CPU, and no other step is possible, `p` has left `q_l` and is the last
entry of `q_{l+1}`. -/
def Leaves (p : Slot) (l : Fin 5) : Nat → State 1 → Prop
  | 0, s => p ∉ s.ker.lists l ∧ (s.ker.lists (l + 1)).getLast? = some p
  | j + 1, s => (∀ a s', step .MLFQ s a = .ok s' → a = .cpu 0) ∧
      ∃ s', step .MLFQ s (.cpu 0) = .ok s' ∧ Leaves p l j s'

lemma Kernel.Placed.demotes (h : k.Placed) (hf : k.AllFull) {i : Nat}
    (hi : (k.lists l)[i]? = some p) (hl : l ≠ 4) (ho : k.sliceOver l p = true)
    (hk : (k.procs p).killed = false) : ∃ k', k.afterSwtch l i p = .ok k' ∧
      p ∉ k'.lists l ∧ (k'.lists (l + 1)).getLast? = some p := by
  have hno : p ∉ k.lists (l + 1) := fun hm => succ_ne hl (h.apart hm (mem_of_getElem? hi))
  obtain ⟨q, hq⟩ : ∃ q, (k.queue (l + 1)).push NPROC p = some q :=
    (hf (l + 1)).push_some p (h.length_lt hno)
  have hpush : (k.upd p fun r => { r with current_queue := r.current_queue + 1 }).push (l + 1) p =
      .ok ((k.upd p fun r => { r with current_queue := r.current_queue + 1 }).setQueue (l + 1) q) := by
    unfold push
    rw [upd_queue, hq]
  obtain ⟨k', hk'⟩ : ∃ k', k.afterSwtch l i p = .ok k' := by
    unfold afterSwtch
    rw [if_neg hl, if_pos ho, hk, if_neg nofun, hpush]
    exact ⟨_, rfl⟩
  refine ⟨k', hk', ?_⟩
  cases (afterSwtch_lists hf hi hk').2 with
  | stay _ ho' => rw [ho] at ho'; cases ho'
  | spin hl' | repeatLast hl' => exact absurd hl' hl
  | drop _ _ hk' => rw [hk] at hk'; cases hk'
  | demote _ _ _ _ hq =>
    constructor
    · rw [hq, update_self]
      exact h.not_mem_eraseIdx hi
    · rw [hq, update_of_ne (succ_ne hl), update_self]
      exact List.getLast?_concat ..

lemma leaves_back (h : InPlace s) (hm : (s.cpus 0).mode = .back) (hcp : (s.cpus 0).proc = some p)
    (hin : p ∈ s.ker.lists l) (hl : l ≠ 4) (ho : s.ker.sliceOver l p = true)
    (hk : (s.ker.procs p).killed = false) : Leaves p l 1 s := by
  have hi := h.arrays.parked 0 p hcp
  obtain rfl : l = (s.cpus 0).lvl := h.placed.apart hin (mem_of_getElem? hi)
  refine ⟨fun a s' => only_cpu (by rw [hm]; nofun) (by rw [hm]; nofun), ?_⟩
  obtain ⟨k', hk', hgone, hlast⟩ := h.placed.demotes h.arrays.full hi hl ho hk
  refine ⟨s.next 0 k' { s.cpus 0 with proc := none, i := (s.cpus 0).i + 1, mode := .scan } s.lock, ?_, hgone, hlast⟩
  show cpuStep .MLFQ s 0 = _
  simp only [cpuStep, hm, backStep, hcp, hk', if_true]

lemma keepsPlaced_trapTail (hm : (s.cpus 0).mode = .trapTail u) : KeepsPlaced s (.cpu 0) := by
  have hreap : reaps s (.cpu 0) = none := by simp [reaps, waits, hm]
  have hage : promoted s (.cpu 0) = none := by simp [promoted, hm]
  have hback : ∀ c, (s.cpus c).mode ≠ .back := by
    intro c
    rw [show c = 0 from Subsingleton.elim _ _, hm]
    exact Mode.noConfusion
  refine ⟨⟨fun z e => ?_, fun q e => ?_, fun c m _ e => absurd e (hback c)⟩, fun np e => ?_, rfl,
    fun z e => ?_, hage, fun c m _ e => absurd e (hback c)⟩
  · rw [hreap] at e; cases e
  · rw [hage] at e; cases e
  · cases e
  · rw [hreap] at e; cases e

/-- **A process with a full slice is moved down when it comes back.** -/
theorem Returning.leaves (hr : Returning s p) (h : InPlace s) (hin : p ∈ s.ker.lists l) (hl : l ≠ 4)
    (ho : s.ker.sliceOver l p = true) (hk : (s.ker.procs p).killed = false) :
    Leaves p l 1 s ∨ Leaves p l 2 s := by
  by_cases hb : (s.cpus 0).mode = .back
  · exact .inl (leaves_back h hb hr.1 hin hl ho hk)
  · obtain ⟨hcp, hm⟩ := hr
    obtain ⟨u, hu⟩ : ∃ u, (s.cpus 0).mode = .trapTail u := by
      cases e : (s.cpus 0).mode <;> rw [e] at hm <;>
        first | exact ⟨_, rfl⟩ | exact absurd e hb | cases hm
    have hst := trapTail_step h.sound hu hcp hk
    have h' := h.keep (keepsPlaced_trapTail hu) hst
    have hy : (s.ker.yield p).procs p = { s.ker.procs p with
        state := .RUNNABLE, start := s.ker.now, context := .yield } := upd_same ..
    refine .inr ⟨fun a s' => only_cpu (by rw [hu]; nofun) (by rw [hu]; nofun), _, hst, ?_⟩
    refine leaves_back h' ?_ ?_ hin hl ?_ ?_
    · rw [next_same]
    · rw [next_same]; exact hcp
    · unfold Kernel.sliceOver at ho ⊢
      rw [next_ker, hy]
      exact ho
    · rw [next_ker, hy]
      exact hk

/-! ## the ticks charged during a stay -/

/-- the ticks charged to `p`, dispatched from `q_l`, in a run. -/
def charges (p : Slot) (l : Fin 5) (tr : Trace 1) : Nat :=
  tr.countP fun e => charged e.1 e.2 = some (p, l)

lemma Tick.count (ht : Tick s a s' l p) (h : InPlace s) (hm : p ∈ s.ker.lists l) :
    (s.ker.procs p).killed = false ∧
      (s.ker.procs p).ticks l + (if charged s a = some (p, l) then 1 else 0) ≤ (s'.ker.procs p).ticks l := by
  cases ht with
  | same hm' hk hp ht hc => rw [if_neg hc, ht]; exact ⟨hk, by omega⟩
  | booked hm' hk hp ht =>
    rw [ht, update_self]
    refine ⟨hk, ?_⟩
    split <;> omega
  | created hno => exact absurd hm (hno l)
  | @demoted j hm' hk hj e =>
    rw [e] at hm
    exact absurd (h.placed.apart hm hm') (succ_ne hj)

/-- the counter of a process that stays in `q_l` has grown by at least the ticks it was charged. -/
theorem InPlace.charges_le (h : InPlace s)
    (hr : Run .MLFQ s tr s') (hc : ∀ e ∈ tr, KeepsPlaced e.1 e.2)
    (hin : ∀ e ∈ tr, p ∈ e.1.ker.lists l) (hin' : p ∈ s'.ker.lists l)
    (hk : (s'.ker.procs p).killed = false) : (s.ker.procs p).killed = false ∧
      (s.ker.procs p).ticks l + charges p l tr ≤ (s'.ker.procs p).ticks l := by
  induction hr with
  | nil => exact ⟨hk, by simp [charges]⟩
  | @cons s s1 s' a tr hst hrun ih =>
    have hc1 := hc _ (mem_cons_self ..)
    have hin1 : ∀ e ∈ tr, p ∈ e.1.ker.lists l := fun e he => hin e (mem_cons_of_mem _ he)
    obtain ⟨hk1, hle⟩ := ih (h.keep hc1 hst) (fun e he => hc e (mem_cons_of_mem _ he)) hin1 hin' hk
    have hp1 : p ∈ s1.ker.lists l := hrun.start (P := fun s => p ∈ s.ker.lists l) hin1 hin'
    obtain ⟨hk0, hle0⟩ := (tick_step h hc1 hst hp1 hk1).count h (hin _ (mem_cons_self ..))
    refine ⟨hk0, ?_⟩
    have hcount : charges p l ((s, a) :: tr) = charges p l tr + if charged s a = some (p, l) then 1 else 0 := by
      unfold charges
      rw [countP_cons]
      simp
    rw [hcount]
    split at hle0 <;> rename_i e
    · rw [if_pos e]; omega
    · rw [if_neg e]; omega

lemma Boot.sliced_run {s0 : State 1}
    (hb : Boot npages need s0) (hr : Run .MLFQ s0 tr s) (hc : ∀ e ∈ tr, KeepsPlaced e.1 e.2) :
    InPlace s ∧ Sliced s := by
  refine hr.invariant (fun s => InPlace s ∧ Sliced s) KeepsPlaced ?_ hc ⟨hb.inPlace, hb.sliced⟩
  intro s a s' ⟨h, hs⟩ hc hst
  exact ⟨h.keep hc hst, hs.keep h hc hst⟩

/-- **Time slices are enforced**, in the runs of good steps: during a stay of `p` in `q_l` it is
charged at most `clockperiod[l]` ticks, and when it has been charged that many, the CPU can only go
on to move it to the end of `q_{l+1}`. Runs end at `Stop.index`. -/
theorem slice_is_enforced {npages need : Nat} {s0 s s' : State 1}
    {tr0 tr : Trace 1} {p : Slot} {l : Fin 5} (hb : Boot npages need s0)
    (h0 : Run .MLFQ s0 tr0 s) (h : Run .MLFQ s tr s')
    (hc : ∀ e ∈ tr0 ++ tr, KeepsPlaced e.1 e.2) (hl : l ≠ 4)
    (hin : ∀ e ∈ tr, p ∈ e.1.ker.lists l) (hin' : p ∈ s'.ker.lists l)
    (hpid : 3 < (s'.ker.procs p).pid) (hk : (s'.ker.procs p).killed = false) :
    (charges p l tr : Int) ≤ clockperiod l ∧
      ((charges p l tr : Int) = clockperiod l → Leaves p l 1 s' ∨ Leaves p l 2 s') := by
  obtain ⟨hplace, hslice⟩ := hb.sliced_run h0 fun e he => hc e (mem_append_left _ he)
  have hc' : ∀ e ∈ tr, KeepsPlaced e.1 e.2 := fun e he => hc e (mem_append_right _ he)
  obtain ⟨hplace', hslice'⟩ := hb.sliced_run (h0.append h) hc
  obtain ⟨hk0, hle⟩ := hplace.charges_le h hc' hin hin' hk
  have hp0 : p ∈ s.ker.lists l := h.start (P := fun s => p ∈ s.ker.lists l) hin hin'
  have hlow := (hslice l p hp0 hk0).low
  rcases (hslice' l p hin' hk).within hl hpid with hlt | ⟨heq, hret⟩
  · exact ⟨by omega, fun e => by omega⟩
  · refine ⟨by omega, fun _ => ?_⟩
    exact hret.leaves hplace' hin' hl (sliceOver_full heq hpid) hk

/-- pid 4 is charged its two ticks in `q1`. -/
theorem slice_is_enforced_q1 : ∃ (s0 s s' : State 1) (tr0 tr : Trace 1),
    Boot 100 0 s0 ∧ Run .MLFQ s0 tr0 s ∧ Run .MLFQ s tr s' ∧ charges 3 1 tr = 2 ∧
      (Leaves 3 1 1 s' ∨ Leaves 3 1 2 s') := by
  obtain ⟨s0, t, tr, hb, h, hc, hin, hin', hpid, hk, hch⟩ : ∃ (s0 t : State 1) (tr : _), Boot 100 0 s0 ∧
      Run .MLFQ s0 tr t ∧ (∀ e ∈ tr, KeepsPlaced e.1 e.2) ∧ (∀ e ∈ tr.drop 39, 3 ∈ e.1.ker.lists 1) ∧
      3 ∈ t.ker.lists 1 ∧ 3 < (t.ker.procs 3).pid ∧ (t.ker.procs 3).killed = false ∧
      charges 3 1 (tr.drop 39) = 2 := Boot.exists_run (by decide)
    (fourInQ1 ++ turns 3 ++ tickYield ++ turns 17 ++ [.timer 0 false] ++ turns 2) (by decide +kernel)
  rw [← take_append_drop 39 tr] at h hc
  obtain ⟨s, h1, h2⟩ := h.split
  refine ⟨_, s, t, _, _, hb, h1, h2, hch, ?_⟩
  exact (slice_is_enforced hb h1 h2 hc (by decide) hin hin' hpid hk).2 (by rw [hch]; rfl)

/-- pid 4 is charged one tick in `q1` and waits there for six: `ageing` gives it the number 0 and
leaves it in `q1`. From then on its ticks are booked to `ticks[0]`, the loop over `q1` still
compares `ticks[1]`, and it is charged a third tick. -/
theorem aged_process_overruns_slice : ∃ (s0 s s' : State 1) (tr0 tr : Trace 1),
    Boot 100 0 s0 ∧ Run .MLFQ s0 tr0 s ∧ Run .MLFQ s tr s' ∧ (∀ e ∈ tr, 3 ∈ e.1.ker.lists 1) ∧
      3 ∈ s'.ker.lists 1 ∧ (s'.ker.procs 3).pid = 4 ∧ (s'.ker.procs 3).killed = false ∧
      clockperiod 1 < charges 3 1 tr := by
  obtain ⟨s0, t, tr, hb, h, hin⟩ : ∃ (s0 t : State 1) (tr : _), Boot 100 0 s0 ∧ Run .MLFQ s0 tr t ∧
      (∀ e ∈ tr.drop 39, 3 ∈ e.1.ker.lists 1) ∧ 3 ∈ t.ker.lists 1 ∧ (t.ker.procs 3).pid = 4 ∧
      (t.ker.procs 3).killed = false ∧ clockperiod 1 < charges 3 1 (tr.drop 39) :=
    Boot.exists_run (by decide) (fourInQ1 ++ turns 3 ++ tickYield ++ turns 5 ++
      (List.replicate 6 tickYield).flatten ++ turns 12 ++ tickYield ++ turns 17 ++ tickYield)
      (by decide +kernel)
  rw [← take_append_drop 39 tr] at h
  obtain ⟨s, h1, h2⟩ := h.split
  exact ⟨_, s, t, _, _, hb, h1, h2, hin⟩

end Xv6
