import Xv6.Queue.Placed

/-!
# The indices stay inside their arrays

`q_k` has 64 cells and `ticks` has 5, and no write is checked. `step_index` lists the four places
at which a step can leave an array: the append of `allocproc`, `ageing`, the appends after `swtch`,
and the timer tick that is booked to `ticks[current_queue]`.

* In the MLFQ build a queue whose entries are `Placed` has at most 64 of them, and a process that is
  appended to it was not in it. So what keeps the placement (`KeepsPlaced`) keeps the bounds.
* In the other builds `allocproc` still appends to `q0`, and nothing is ever taken out: `c0` counts
  the processes created since boot. The bounds hold for 63 of them after init, and
  `sixty_fourth_fork_overflows` is what the next one does.
-/

namespace Xv6
open Lib List Kernel

variable {n : Nat} {pol : Policy} {s s' : State n} {k k' : Kernel} {l : Fin 5}

/-! ## where a step can leave an array -/

namespace Kernel

variable {p : Slot} {e : Stop}

lemma push_error (h : k.push l p = .error e) : (k.queue l).push NPROC p = none := by
  unfold push at h
  split at h
  · cases h
  · next hq => exact hq

lemma forkStep_error {need : Nat} (h : k.forkStep p need = .error e) :
    ∃ np, (k.procs p).fork = .none ∧ k.find (fun r => r.state = .UNUSED) = some np ∧
      (k.queue 0).push NPROC np = none := by
  unfold forkStep at h
  split at h
  · next hf =>
    unfold allocproc at h
    cases hn : k.find (fun r => r.state = .UNUSED) with
    | none => simp only [hn] at h; cases h
    | some np =>
      simp only [hn] at h
      cases hp : (k.embryo np).push 0 np with
      | error => exact ⟨np, hf, rfl, push_error (k := k.embryo np) hp⟩
      | ok => simp only [hp] at h; cases h
  all_goals cases h

lemma reap_error {x : Bool} {z : Slot} (h : k.reap pol x z = .error e) : e ≠ .index := by
  unfold reap freeProc at h
  split at h
  · cases h
  · next he =>
    cases h
    split at he
    · cases he
    · cases he; nofun
    · cases he; nofun

end Kernel

variable {c : Fin n} {p : Slot} {i : Nat} {a : Action n} {tr : Trace n}

inductive IndexFault (pol : Policy) (s : State n) (a : Action n) : Prop
  | alloc {np : Slot} (ha : allocates s a = some np)
      (hq : (s.ker.queue 0).push NPROC np = none)
  | age {p : Slot} (ha : promoted s a = some p)
  | back {c : Fin n} {m : Slot} (ha : a = .cpu c) (hpol : pol = .MLFQ)
      (hp : (s.cpus c).proc = some m)
      (hk : s.ker.afterSwtch (s.cpus c).lvl (s.cpus c).i m = .error .index)
  | charge {c : Fin n} {p : Slot} (hp : (s.cpus c).proc = some p)
      (hk : s.ker.charge p = .error .index)

lemma waitTurn_index {k : Kernel} {x : Bool} : waitTurn pol s c k p x ≠ .error .index := by
  intro h
  unfold waitTurn at h
  rw [wait_eq] at h
  cases hz : k.zombieChild p with
  | none =>
    simp only [hz] at h
    cases hg : k.giveUp p <;> rw [hg] at h <;> cases h
  | some z =>
    simp only [hz] at h
    cases hk : k.reap pol x z with
    | ok => rw [hk] at h; cases h
    | error =>
      rw [hk] at h
      cases h
      exact reap_error hk rfl

lemma ageStep_index {l : Fin 4} (hm : (s.cpus c).mode = .age l i)
    (h : ageStep s c l i = .error .index) : ∃ p, promoted s (.cpu c) = some p := by
  unfold ageStep Kernel.ageTurn at h
  by_cases ht : (i : Int) ≤ (s.ker.queue l.succ).top
  · rw [if_pos ht] at h
    cases hp : (s.ker.queue l.succ).cell i with
    | none => rw [hp] at h; cases h
    | some p =>
      rw [hp] at h
      by_cases hr : (s.ker.procs p).state = .RUNNABLE ∧ s.ker.waited p = true
      · refine ⟨p, ?_⟩
        simp only [promoted, hm, if_pos ht, hp, if_pos hr]
      · simp only [hr, if_false] at h
        cases h
  · rw [if_neg ht] at h
    cases h

lemma cpuStep_index (h : cpuStep pol s c = .error .index) : IndexFault pol s (.cpu c) := by
  unfold cpuStep at h
  cases hm : (s.cpus c).mode with
  | idle => simp only [hm] at h; split at h <;> cases h
  | age =>
    simp only [hm] at h
    obtain ⟨p, hp⟩ := ageStep_index hm h
    exact .age hp
  | scan =>
    simp only [hm] at h
    split at h
    · unfold scanQueue at h
      dsimp only at h
      split at h
      · split at h
        · cases h
        · split at h <;> cases h
      · split at h <;> cases h
    · unfold scanTable at h
      dsimp only at h
      split at h
      · split at h <;> cases h
      · cases h
  | resume =>
    simp only [hm] at h
    unfold resumeStep at h
    dsimp only at h
    split at h
    · cases h
    · split at h
      · cases h
      · cases h
      · cases h
      · exact absurd h waitTurn_index
      · exact absurd h waitTurn_index
  | run => simp only [hm] at h; cases h
  | tickWake => simp only [hm, tickWakeStep] at h; split at h <;> cases h
  | tickCharge =>
    simp only [hm] at h
    unfold tickChargeStep at h
    split at h
    · cases h
    · next p hp =>
      split at h
      · cases h
      · next e he => cases h; exact .charge hp he
  | trapTail =>
    simp only [hm] at h
    unfold trapTailStep at h
    dsimp only at h
    split at h
    · cases h
    · split at h
      · cases h
      · split at h <;> cases h
  | back =>
    simp only [hm] at h
    unfold backStep at h
    dsimp only at h
    split at h
    · cases h
    · next m hp =>
      split at h
      · next hpol =>
        split at h
        · cases h
        · next e he => cases h; exact .back rfl hpol hp he
      · cases h

/-- **A step that leaves an array does it at one of four places.** -/
theorem step_index (h : step pol s a = .error .index) : IndexFault pol s a := by
  cases a with
  | cpu => exact cpuStep_index h
  | timer =>
    unfold step timerStep at h
    simp only at h
    split at h
    · split at h <;> cases h
    · cases h
  | intr =>
    unfold step intrStep at h
    simp only at h
    split at h <;> cases h
  | sys =>
    unfold step sysStep at h
    dsimp only at h
    split at h
    · next p hm hp =>
      split at h
      · next need =>
        split at h
        · cases h
        · split at h
          · cases h
          · next e he =>
            obtain ⟨np, hf, hn, hq⟩ := forkStep_error he
            refine .alloc ?_ hq
            simp only [allocates, hp, if_pos hf, hn]
      · split at h
        · cases h
        · split at h
          · cases h
          · split at h
            · cases h
            · next e he =>
              unfold Kernel.exit at he
              split at he <;> cases he
              cases h
          · exact absurd h waitTurn_index
          · exact absurd h waitTurn_index
          all_goals cases h
    · cases h

/-! ## current_queue -/

/-- the `current_queue` of every process in use is the number of a queue. -/
def Kernel.Numbered (k : Kernel) : Prop :=
  ∀ p, (k.procs p).state ≠ .UNUSED → 0 ≤ (k.procs p).current_queue ∧ (k.procs p).current_queue ≤ 4

lemma Kernel.Numbered.mono (h : k.Numbered) (hu : ∀ p, (k'.procs p).state ≠ .UNUSED →
    (k.procs p).state ≠ .UNUSED ∧ (k'.procs p).current_queue = (k.procs p).current_queue) :
    k'.Numbered := by
  intro p hp
  obtain ⟨hp', e⟩ := hu p hp
  rw [e]
  exact h p hp'

lemma Kernel.Numbered.queueNo (h : k.Numbered) (hp : (k.procs p).state ≠ .UNUSED) :
    ∃ l, Xv6.queueNo (k.procs p).current_queue = some l := by
  have := h p hp
  unfold Xv6.queueNo
  rw [dif_pos (by omega)]
  exact ⟨_, rfl⟩

lemma Kernel.Numbered.back (h : k.Numbered) (hpl : k.Placed) {i : Nat} {m : Slot}
    (hi : (k.lists l)[i]? = some m) (hb : k.BackCase l i m k') : k'.Numbered := by
  have same : ∀ p, (k'.procs p).current_queue = (k.procs p).current_queue ∨
      p = m ∧ l ≠ 4 ∧ (k'.procs p).current_queue = (k.procs p).current_queue + 1 := by
    intro p
    cases hb with
    | stay hl ho e => rw [e]; exact .inl rfl
    | spin hl hk hp | repeatLast hl hk hp => rw [hp]; exact .inl rfl
    | drop hl ho hk hp =>
      left
      rw [hp, upd_procs]
      split <;> simp [*]
    | demote hl ho hk hp =>
      rw [hp, upd_procs]
      split
      · next e => exact .inr ⟨e, hl, by rw [e]⟩
      · exact .inl rfl
  intro p hp
  rw [(hb.calm_pids p).1] at hp
  rcases same p with e | ⟨rfl, hl, e⟩
  · rw [e]; exact h p hp
  · have hcq := (home_some.mp (hpl.mem l p (mem_of_getElem? hi))).2
    have hlt : l.val ≠ 4 := fun e => hl (Fin.ext e)
    have := l.isLt
    rw [e, hcq]
    omega

lemma Kernel.Numbered.keep (h : s.ker.Numbered) (hpl : pol = .MLFQ → Arrays s ∧ s.ker.Placed)
    (hage : promoted s a = none) (hm : QMove pol s a s') : s'.ker.Numbered := by
  cases hm with
  | quiet hq => exact h.mono fun p hp => ⟨(hq.used p hp).1, hq.still.cq p⟩
  | @charge c u p k hm hp hk =>
    exact h.mono fun q hq =>
      ⟨(((calmTo_charge hk).procs q).used hq).1, (charge_still hk).2.1 q⟩
  | @run c p ha hm hpol he hr =>
    refine h.mono fun q hq => ⟨fun e => hq ?_, (stillTo_dispatchQueue s.ker p).cq q⟩
    exact (dispatchQueue_procs hr q).2.2.mpr e
  | @alloc c p np q =>
    have hal := alloced s.ker p np q
    intro x hx
    by_cases e : x = np
    · rw [next_ker, e, hal.cq]
      decide
    · obtain ⟨e1, -, e2, -⟩ := hal.others x e
      rw [next_ker, e1] at hx
      rw [next_ker, e2]
      exact h x hx
  | @age c l i p k hm ha =>
    rw [hage] at ha
    cases ha
  | @back c m k ha hm hpol hp hk =>
    obtain ⟨har, hp'⟩ := hpl hpol
    have hi := har.parked c m hp
    exact h.back hp' hi (afterSwtch_lists har.full hi hk).2
  | @reap c p z x k k' hw ha hz hk =>
    have hr := hw.reaped hz hk
    refine h.mono fun q hq => ⟨?_, hr.cq q⟩
    have hqz : q ≠ z := by
      intro e
      rw [e] at hq
      exact hq hr.gone
    exact ((hr.calm q hqz).used hq).1

/-! ## the MLFQ build -/

lemma Kernel.Placed.back_in_bounds (h : k.Placed) (hf : k.AllFull) {m : Slot}
    (hi : (k.lists l)[i]? = some m) : k.afterSwtch l i m ≠ .error .index := by
  intro hk
  obtain ⟨hle, -⟩ := hf.index hi
  unfold afterSwtch at hk
  split at hk
  · next hl =>
    subst hl
    split at hk
    · cases hk
    · obtain ⟨q, hq⟩ : ∃ q, (k.queue 4).rotate NPROC i m = some q :=
        (hf 4).rotate_some m hle (h.length_le 4)
      rw [hq] at hk
      cases hk
  · next hl =>
    split at hk
    · split at hk
      · cases hk
      · split at hk
        · cases hk
        · next e he =>
          have hno : m ∉ k.lists (l + 1) := fun hm =>
            succ_ne hl (h.apart hm (mem_of_getElem? hi))
          obtain ⟨q, hq⟩ : ∃ q, (k.queue (l + 1)).push NPROC m = some q :=
            (hf (l + 1)).push_some m (h.length_lt hno)
          have hnone := push_error he
          rw [upd_queue, hq] at hnone
          cases hnone
    · cases hk

lemma charge_in_bounds (h : k.Numbered) : k.charge p ≠ .error .index := by
  intro hk
  unfold Kernel.charge at hk
  split at hk
  · next hr =>
    obtain ⟨l, hl⟩ := h.queueNo (p := p) (by rw [hr]; nofun)
    rw [hl] at hk
    cases hk
  · cases hk
  · cases hk

lemma allocates_unused {np : Slot} (h : allocates s a = some np) : (s.ker.procs np).state = .UNUSED := by
  unfold allocates at h
  split at h
  · split at h
    · split at h
      · simpa using find_some h
      · cases h
    · cases h
  · cases h

lemma mlfq_in_bounds (ha : Arrays s) (hp : s.ker.Placed) (hn : s.ker.Numbered)
    (hc : KeepsPlaced s a) : step .MLFQ s a ≠ .error .index := by
  intro h
  cases step_index h with
  | @alloc np hal hq =>
    have hno : np ∉ s.ker.lists 0 := by
      intro hm
      apply (home_some.mp (hp.mem 0 np hm)).1
      exact allocates_unused hal
    obtain ⟨q, hq'⟩ : ∃ q, (s.ker.queue 0).push NPROC np = some q :=
      (ha.full 0).push_some np (hp.length_lt hno)
    rw [hq] at hq'
    cases hq'
  | age hag =>
    rw [hc.age] at hag
    cases hag
  | @back c m hac hpol hcp hk => exact hp.back_in_bounds ha.full (ha.parked c m hcp) hk
  | charge hcp hk => exact charge_in_bounds hn hk

/-! ## the other builds -/

/-- no CPU is in `ageing`. -/
def Unaged (s : State n) : Prop := ∀ c l i, (s.cpus c).mode ≠ .age l i

lemma Unaged.promoted (h : Unaged s) (a : Action n) : promoted s a = none := by
  unfold Xv6.promoted
  split
  · split
    · next hm => exact absurd hm (h _ _ _)
    · rfl
  · rfl

lemma Unaged.next (h : Unaged s) {c : Fin n} {k : Kernel} {cpu : Cpu} {l : Option (Fin n)}
    (hm : ∀ j i, cpu.mode ≠ .age j i) : Unaged (s.next c k cpu l) := by
  intro c'
  by_cases e : c' = c
  · rw [e, next_same]; exact hm
  · rw [next_others s k cpu l e]; exact h c'

lemma Unaged.keep (h : Unaged s) (hpol : pol ≠ .MLFQ) (hst : step pol s a = .ok s') : Unaged s' := by
  cases step_trans hst with
  | begin =>
    apply h.next
    unfold firstMode
    rw [if_neg hpol]
    nofun
  | @ageEnd c l i hm | @ageKeep c l i p hm | @ageUp c l i p k hm => exact absurd hm (h c l i)
  | @trapEnd c =>
    apply h.next
    unfold Cpu.afterTrap
    split <;> nofun
  | @scanSkip c | @scanNext c | @fork c | @kill c | @wakeup c | @setPriority c | @intr c => exact h.next (h c)
  | _ => exact h.next nofun

/-- the number of processes created in a run. -/
def created (tr : Trace n) : Nat :=
  tr.countP fun e => (allocates e.1 e.2).isSome

lemma top_step (hpol : pol ≠ .MLFQ) (hage : promoted s a = none) (hm : QMove pol s a s')
    (l : Fin 5) : (s.ker.queue l).top ≤ (s'.ker.queue l).top ∧
      (s'.ker.queue l).top ≤ (s.ker.queue l).top + if (allocates s a).isSome then 1 else 0 := by
  have same : s'.ker.queue = s.ker.queue → (s.ker.queue l).top ≤ (s'.ker.queue l).top ∧
      (s'.ker.queue l).top ≤ (s.ker.queue l).top + if (allocates s a).isSome then 1 else 0 := by
    intro e
    rw [e]
    split <;> omega
  cases hm with
  | quiet hq => exact same hq.still.queue
  | charge hm hp hk => exact same (charge_still hk).1
  | run ha hm hpol' | back ha hm hpol' => exact absurd hpol' hpol
  | @alloc c p np q hm hp ha hu hq =>
    rw [ha, Option.isSome_some, if_pos rfl]
    show (s.ker.queue l).top ≤ (((s.ker.embryo np).setQueue 0 q).queue l).top ∧
      (((s.ker.embryo np).setQueue 0 q).queue l).top ≤ (s.ker.queue l).top + 1
    by_cases e : l = 0
    · obtain ⟨-, -, rfl⟩ := ArrQueue.push_eq hq
      rw [e, setQueue_same]
      show (s.ker.queue 0).top ≤ (s.ker.queue 0).top + 1 ∧ (s.ker.queue 0).top + 1 ≤ _
      omega
    · rw [setQueue_of_ne _ _ e]
      show (s.ker.queue l).top ≤ (s.ker.queue l).top ∧ (s.ker.queue l).top ≤ _
      omega
  | age hm ha =>
    rw [hage] at ha
    cases ha
  | reap hw ha hz hk =>
    obtain ⟨-, -, -, -, -, -, hq, -⟩ := reap_ok hk
    rw [if_neg fun e => hpol e.1] at hq
    exact same (hq.trans hw.still.queue)

/-- **In a build without MLFQ the counters count the processes created.** -/
theorem Run.tops (hpol : pol ≠ .MLFQ) (h : Run pol s tr s')
    (hs : Sound s) (hu : Unaged s) (hn : s.ker.Numbered) :
    Unaged s' ∧ s'.ker.Numbered ∧ ∀ l, (s.ker.queue l).top ≤ (s'.ker.queue l).top ∧
      (s'.ker.queue l).top ≤ (s.ker.queue l).top + created tr := by
  induction h with
  | nil => exact ⟨hu, hn, fun l => ⟨Int.le_refl _, by simp [created]⟩⟩
  | @cons s s1 s' a tr hst hrun ih =>
    have hage := hu.promoted a
    have hm := step_qmove hs hst
    obtain ⟨hu', hn', hl'⟩ := ih (step_sound hs hst) (hu.keep hpol hst) (hn.keep (fun e => absurd e hpol) hage hm)
    refine ⟨hu', hn', fun l => ?_⟩
    obtain ⟨h1, h2⟩ := top_step hpol hage hm l
    obtain ⟨h3, h4⟩ := hl' l
    have hc : created ((s, a) :: tr) = created tr + if (allocates s a).isSome then 1 else 0 :=
      countP_cons ..
    rw [hc]
    refine ⟨Int.le_trans h1 h3, ?_⟩
    split at h2 <;> rename_i e
    · rw [if_pos e]; omega
    · rw [if_neg e]; omega

/-! ## every build -/

/-- the runs in which no index leaves its array: in the MLFQ build every step keeps the placement,
in the others at most 63 processes are created after init. -/
def InBounds (pol : Policy) (tr : Trace n) : Prop :=
  if pol = .MLFQ then ∀ e ∈ tr, KeepsPlaced e.1 e.2 else created tr ≤ 63

lemma Boot.numbered {npages need : Nat} (h : Boot npages need s) : s.ker.Numbered := by
  obtain ⟨-, rfl⟩ := h.eq
  intro p hp
  show 0 ≤ ((firstKernel npages need).procs p).current_queue ∧ ((firstKernel npages need).procs p).current_queue ≤ 4
  by_cases e : p = 0
  · rw [e, firstKernel_init]
    show (0 : Int) ≤ 0 ∧ (0 : Int) ≤ 4
    decide
  · rw [firstKernel_others _ _ e]
    decide

lemma InPlace.numbered (h : InPlace s) (hn : s.ker.Numbered) (hr : Run .MLFQ s tr s')
    (hc : ∀ e ∈ tr, KeepsPlaced e.1 e.2) : InPlace s' ∧ s'.ker.Numbered := by
  refine hr.invariant (fun s => InPlace s ∧ s.ker.Numbered) KeepsPlaced ?_ hc ⟨h, hn⟩
  intro s a s' ⟨h, hn⟩ hc hst
  refine ⟨h.keep hc hst, ?_⟩
  exact hn.keep (fun _ => ⟨h.arrays, h.placed⟩) hc.age (step_qmove h.sound hst)

/-- **The indices stay inside their arrays**, in every build, in the runs that are `InBounds`: the
counters are between -1 and 63, `current_queue` is between 0 and 4 for every process in use, and the
next step does not index outside an array. (Runs end at `Stop.index`, the kernel goes on.) -/
theorem indices_in_bounds {npages need : Nat} {tr : Trace n}
    (hb : Boot npages need s) (h : Run pol s tr s') (hc : InBounds pol tr) :
    (∀ l, -1 ≤ (s'.ker.queue l).top ∧ (s'.ker.queue l).top ≤ 63) ∧
    (∀ p, (s'.ker.procs p).state ≠ .UNUSED →
      0 ≤ (s'.ker.procs p).current_queue ∧ (s'.ker.procs p).current_queue ≤ 4) ∧
    ∀ a, InBounds pol (tr ++ [(s', a)]) → step pol s' a ≠ .error .index := by
  unfold InBounds at hc ⊢
  by_cases hpol : pol = .MLFQ
  · subst hpol
    rw [if_pos rfl] at hc
    obtain ⟨⟨-, ha, hp⟩, hn⟩ := hb.inPlace.numbered hb.numbered h hc
    refine ⟨fun l => ⟨(ha.full l).low, ?_⟩, hn, fun a hca => ?_⟩
    · have hlen : ((s'.ker.lists l).length : Int) = (s'.ker.queue l).top + 1 := (ha.full l).length
      have hle : (s'.ker.lists l).length ≤ 64 := hp.length_le l
      omega
    · rw [if_pos rfl] at hca
      exact mlfq_in_bounds ha hp hn (hca (s', a) (mem_append_right _ (mem_singleton.mpr rfl)))
  · rw [if_neg hpol] at hc
    have hfull := hb.arrays.full
    have hu : Unaged s := by
      obtain ⟨-, rfl⟩ := hb.eq
      nofun
    obtain ⟨hu', hn', hl'⟩ := Run.tops hpol h hb.sound hu hb.numbered
    have htop : ∀ l, (s.ker.queue l).top ≤ 0 := by
      intro l
      obtain ⟨-, rfl⟩ := hb.eq
      show ((firstKernel npages need).queue l).top ≤ 0
      by_cases e : l = 0
      · rw [e, firstKernel_queue_zero]
      · rw [firstKernel_queue_ne _ _ e]; decide
    have low := fun l => (hfull l).low
    refine ⟨fun l => ?_, hn', fun a hca hst => ?_⟩
    · have := hl' l
      have := htop l
      have := low l
      omega
    · rw [if_neg hpol] at hca
      cases step_index hst with
      | @alloc np hal hq =>
        have hcr : created (tr ++ [(s', a)]) = created tr + 1 := by
          unfold created
          rw [countP_append, countP_singleton, hal, Option.isSome_some, if_pos rfl]
        have := hl' 0
        have := htop 0
        have := low 0
        unfold ArrQueue.push at hq
        rw [if_pos (by show _ ∧ _ < (64 : Int); omega)] at hq
        cases hq
      | age hag =>
        rw [hu'.promoted] at hag
        cases hag
      | back hac hpol' => exact hpol hpol'
      | charge hcp hk => exact charge_in_bounds hn' hk

/-- init forks in the DEFAULT build. -/
theorem indices_in_bounds_fork : ∃ (s s' : State 1) (tr : Trace 1),
    Boot 100 0 s ∧ Run .DEFAULT s tr s' ∧ created tr = 1 ∧
      ((s'.ker.queue 0).top ≤ 63) ∧ step .DEFAULT s' (.sys 0 (.fork 0)) ≠ .error .index := by
  obtain ⟨s, t, tr, hb, h, h1, h2⟩ : ∃ (s t : State 1) (tr : _), Boot 100 0 s ∧ Run .DEFAULT s tr t ∧
      created tr = 1 ∧ created (tr ++ [(t, .sys 0 (.fork 0))]) ≤ 63 :=
    Boot.exists_run (by decide) (turns 3 ++ forkAll) (by decide +kernel)
  obtain ⟨hq, -, hst⟩ := indices_in_bounds hb h (show created tr ≤ 63 by omega)
  exact ⟨s, t, tr, hb, h, h1, (hq 0).2, hst _ h2⟩

/-- two pages are enough for init only; in the DEFAULT build each of its forks takes a cell of `q0`
and then fails.  63 of them fill the array, and the next one writes to `q0[64]`, with no process but
init in use. -/
theorem sixty_fourth_fork_overflows : ∃ (s s' : State 1) (tr : Trace 1),
    Boot 2 0 s ∧ Run .DEFAULT s tr s' ∧ (∀ p, p ≠ 0 → (s'.ker.procs p).state = .UNUSED) ∧
      (s'.ker.queue 0).top = 63 ∧ step .DEFAULT s' (.sys 0 (.fork 0)) = .error .index := by
  obtain ⟨s, t, tr, hb, h, hu, htop, hst⟩ : ∃ (s t : State 1) (tr : _), Boot 2 0 s ∧ Run .DEFAULT s tr t ∧
      (∀ p, p ≠ 0 → (t.ker.procs p).state = .UNUSED) ∧ (t.ker.queue 0).top = 63 ∧
      stopsWith (step .DEFAULT) t (.sys 0 (.fork 0)) .index = true :=
    Boot.exists_run (by decide) (turns 3 ++ List.replicate 126 (.sys 0 (.fork 0))) (by decide +kernel)
  exact ⟨s, t, tr, hb, h, hu, htop, of_stopsWith hst⟩

end Xv6
