import Xv6.Queue.Arrays

/-!
# No process is lost

In the MLFQ build a process that is neither free nor a ZOMBIE has to stand in one of the five
queues, or no scheduler will ever look at it again. `Listed.keep`: every step keeps that, except

* a step that shifts an entry away under a parked index (`NoShift`): the entry that is then deleted
  or overwritten belongs to somebody else;
* the return of a killed process that is not a ZOMBIE yet (`KilledGone`): the loops over `q1 .. q4`
  take it out and do not queue it again;
* a pid handed out twice (`FreshPid`): `rem_process` compares pids.

`killed_process_is_lost` is a run on one CPU that loses a killed process in this way.
-/

namespace Xv6
open Lib Function List Kernel

variable {n : Nat} {s s' : State n} {k k' : Kernel} {npages need : Nat}

/-- the killed process that the step takes out of its queue without queueing it again. -/
def drops (s : State n) : Action n → Option Slot
  | .cpu c =>
    if (s.cpus c).mode = .back then
      match (s.cpus c).proc with
      | some m =>
        if (s.ker.procs m).killed = true ∧
            (if (s.cpus c).lvl = 4 then ((s.cpus c).i : Int) < (s.ker.queue 4).top
              else s.ker.sliceOver (s.cpus c).lvl m = true) then some m
        else none
      | none => none
    else none
  | _ => none

/-- a process that is dropped is a ZOMBIE. -/
def KilledGone (s : State n) (a : Action n) : Prop :=
  ∀ m, drops s a = some m → (s.ker.procs m).state = .ZOMBIE

instance (s : State n) (a : Action n) : Decidable (KilledGone s a) :=
  inferInstanceAs (Decidable (∀ _, _))

/-- the steps that lose nobody. -/
structure KeepsQueued (s : State n) (a : Action n) : Prop where
  shift : NoShift s a
  fresh : FreshPid s a
  gone : KilledGone s a

instance (s : State n) (a : Action n) : Decidable (KeepsQueued s a) :=
  decidable_of_iff (NoShift s a ∧ FreshPid s a ∧ KilledGone s a)
    ⟨fun h => ⟨h.1, h.2.1, h.2.2⟩, fun h => ⟨h.shift, h.fresh, h.gone⟩⟩

/-- every active process is in some queue. -/
def Listed (k : Kernel) : Prop := ∀ p, (k.procs p).state.active = true → ∃ l, p ∈ k.lists l

lemma Listed.mono (h : Listed k) (hl : k'.lists = k.lists)
    (ha : ∀ p, (k'.procs p).state.active = true → (k.procs p).state.active = true) : Listed k' := by
  intro p hp
  rw [hl]
  exact h p (ha p hp)

/-! ## the three moves that take entries out -/

lemma Listed.rem (h : Listed k) {pid curq : Int}
    (hp : ∀ p, (k.procs p).state.active = true → (k.procs p).pid ≠ pid) {p : Slot}
    (ha : (k.procs p).state.active = true) : ∃ l, p ∈ k.remLists pid curq l := by
  obtain ⟨l, hl⟩ := h p ha
  refine ⟨l, ?_⟩
  rw [remLists_apply]
  split
  · apply ArrQueue.mem_remSkip hl
    rw [decide_eq_false_iff_not]
    exact hp p ha
  · exact hl

lemma active_ne_unused {st : ProcState} (h : st.active = true) : st ≠ .UNUSED := by
  rintro rfl
  cases h

lemma Listed.promote (h : Listed k) (hf : k.AllFull) (hp : k.PidsOk) {l : Fin 4} {i : Nat}
    {p : Slot} (hi : (k.lists l.succ)[i]? = some p) (hu : (k.procs p).state ≠ .UNUSED)
    (hk : k.promote l p = .ok k') : Listed k' := by
  obtain ⟨m, -, -, hlists, -⟩ := promote_lists hf hk
  have hcalm := (schedTo_promote hk).calm
  -- after the append `p` is in `q_l` and in `q_{l+1}`
  have happ : ∀ j x, x ∈ k.lists j → x ∈ update k.lists l.castSucc (k.lists l.castSucc ++ [p]) j := by
    intro j x hx
    by_cases e : j = l.castSucc
    · rw [e, update_self]
      rw [e] at hx
      exact mem_append_left _ hx
    · rw [update_of_ne e]; exact hx
  intro x hx
  rw [(hcalm.procs x).active] at hx
  by_cases e : x = p
  · rw [e]
    by_cases em : l.castSucc = m
    · refine ⟨l.succ, ?_⟩
      have hne : l.succ ≠ m := by
        rw [← em]
        exact ne_of_gt (Fin.castSucc_lt_succ)
      rw [hlists, if_neg hne]
      exact happ _ _ (mem_of_getElem? hi)
    · refine ⟨l.castSucc, ?_⟩
      rw [hlists, if_neg em, update_self]
      exact mem_append_right _ (mem_singleton.mpr rfl)
  · obtain ⟨j, hj⟩ := h x hx
    refine ⟨j, ?_⟩
    rw [hlists]
    split
    · apply ArrQueue.mem_remSkip (happ j x hj)
      rw [decide_eq_false_iff_not]
      exact fun e' => e (hp x p (active_ne_unused hx) hu e')
    · exact happ j x hj

lemma Listed.back (h : Listed k) {l : Fin 5} {i : Nat} {m : Slot}
    (hi : (k.lists l)[i]? = some m) (hb : k.BackCase l i m k')
    (hd : (k.procs m).killed = true →
      (if l = 4 then i + 1 < (k.lists 4).length else k.sliceOver l m = true) →
      (k.procs m).state = .ZOMBIE) : Listed k' := by
  intro x hx
  rw [(hb.calm_pids x).1] at hx
  obtain ⟨j, hj⟩ := h x hx
  -- wherever `x` stands, it stays there unless it is `m`
  have keep : ∀ (L : List Slot) (t : List Slot), L[i]? = some m → x ∈ L → x ≠ m → x ∈ L.eraseIdx i ++ t :=
    fun L t hi hx hne => mem_append_left _ (ArrQueue.mem_eraseIdx_of_ne hi hx hne)
  cases hb with
  | stay hl ho e => rw [e]; exact ⟨j, hj⟩
  | spin hl hk hp hq =>
    subst hl
    refine ⟨j, ?_⟩
    rw [hq]
    by_cases ej : j = 4
    · rw [ej, update_self]
      rw [ej] at hj
      by_cases e : x = m
      · exact mem_append_right _ (mem_singleton.mpr e)
      · exact keep _ _ hi hj e
    · rw [update_of_ne ej]; exact hj
  | @repeatLast hl hk hp y hy hq =>
    subst hl
    refine ⟨j, ?_⟩
    rw [hq]
    by_cases ej : j = 4
    · rw [ej, update_self]
      rw [ej] at hj
      by_cases e : x = m
      · -- `m` is active, so it was the last entry and is written back
        have hlast : ¬ i + 1 < (k.lists 4).length := by
          intro hlt
          have := hd hk (by rw [if_pos rfl]; exact hlt)
          rw [e, this] at hx
          cases hx
        have hlen := (List.getElem?_eq_some_iff.mp hi).1
        have hym : y = m := by
          rw [List.getLast?_eq_getElem?, show (k.lists 4).length - 1 = i by omega, hi] at hy
          exact (Option.some.inj hy).symm
        exact mem_append_right _ (mem_singleton.mpr (e.trans hym.symm))
      · exact keep _ _ hi hj e
    · rw [update_of_ne ej]; exact hj
  | drop hl ho hk hp hq =>
    have hne : x ≠ m := by
      rintro rfl
      have := hd hk (by rw [if_neg hl]; exact ho)
      rw [this] at hx
      cases hx
    refine ⟨j, ?_⟩
    rw [hq]
    by_cases ej : j = l
    · rw [ej, update_self]
      rw [ej] at hj
      exact ArrQueue.mem_eraseIdx_of_ne hi hj hne
    · rw [update_of_ne ej]; exact hj
  | demote hl ho hk hp hq =>
    by_cases e : x = m
    · refine ⟨l + 1, ?_⟩
      rw [hq, update_of_ne (succ_ne hl), update_self, e]
      exact mem_append_right _ (mem_singleton.mpr rfl)
    · refine ⟨j, ?_⟩
      rw [hq]
      by_cases ej : j = l
      · rw [ej, update_self]
        rw [ej] at hj
        exact ArrQueue.mem_eraseIdx_of_ne hi hj e
      · rw [update_of_ne ej]
        by_cases ej' : j = l + 1
        · rw [ej', update_self]
          rw [ej'] at hj
          exact mem_append_left _ hj
        · rw [update_of_ne ej']; exact hj

/-! ## every step -/

/-- **Every step that meets the conditions keeps every active process in a queue.** -/
theorem Listed.keep {a : Action n} (ha : Arrays s) (h : Listed s.ker)
    (hc : KeepsQueued s a) (hm : QMove .MLFQ s a s') : Listed s'.ker := by
  cases hm with
  | quiet hq => exact h.mono (lists_congr hq.still.queue) hq.active
  | @charge c u p k hm hp hk =>
    exact h.mono (lists_congr (charge_still hk).1) fun q e => by
      rw [← ((calmTo_charge hk).procs q).active]; exact e
  | @run c p ha hm hpol he hr =>
    refine h.mono (lists_congr (stillTo_dispatchQueue s.ker p).queue) fun q e => ?_
    rw [← (dispatchQueue_procs hr q).2.1]
    exact e
  | @alloc c p np q hm hp hal hu hq =>
    obtain ⟨-, hl⟩ := alloced_lists ha.full p hq
    intro x hx
    by_cases e : x = np
    · refine ⟨0, ?_⟩
      rw [next_ker, hl, update_self, e]
      exact mem_append_right _ (mem_singleton.mpr rfl)
    · rw [next_ker, ((alloced s.ker p np q).others x e).1] at hx
      obtain ⟨j, hj⟩ := h x hx
      refine ⟨j, ?_⟩
      rw [next_ker, hl]
      by_cases ej : j = 0
      · rw [ej, update_self]
        rw [ej] at hj
        exact mem_append_left _ hj
      · rw [update_of_ne ej]; exact hj
  | @age c l i p k hm hal ht hp hr hk =>
    exact h.promote ha.full ha.pids (ha.full.get ht hp) (by rw [hr]; nofun) hk
  | @back c m k hac hm hpol hp hk =>
    have hi := ha.parked c m hp
    obtain ⟨-, hb⟩ := afterSwtch_lists ha.full hi hk
    refine h.back hi hb fun hkd hd => hc.gone m ?_
    subst hac
    simp only [drops, hm, if_true, hp, hkd, true_and]
    rw [if_pos]
    split
    · next hl =>
      rw [if_pos hl] at hd
      have hlen : ((s.ker.lists 4).length : Int) = (s.ker.queue 4).top + 1 := (ha.full 4).length
      omega
    · next hl =>
      rw [if_neg hl] at hd
      exact hd
  | @reap c p z x k k' hw hal hz hk =>
    have hr := hw.reaped hz hk
    intro q hq
    have hqz : q ≠ z := by
      rintro rfl
      rw [next_ker, hr.gone] at hq
      cases hq
    rw [next_ker, (hr.calm q hqz).active] at hq
    rw [next_ker, hr.lists ha.full]
    split
    · refine h.rem (fun y hy e => ?_) hq
      have := ha.pids y z (active_ne_unused hy) (by rw [hr.zombie]; nofun) e
      rw [this, hr.zombie] at hy
      cases hy
    · exact h q hq

lemma Boot.listed (h : Boot npages need s) : Listed s.ker := by
  obtain ⟨-, rfl⟩ := h.eq
  intro p hp
  have e : p = 0 := by
    by_contra e
    rw [show (firstState npages need : State n).ker = firstKernel npages need from rfl,
      firstKernel_others _ _ e] at hp
    cases hp
  refine ⟨0, ?_⟩
  show p ∈ (firstKernel npages need).lists 0
  rw [firstKernel_lists, if_pos rfl, e]
  exact mem_singleton.mpr rfl

lemma Run.listed {tr : Trace n} (hb : Boot npages need s)
    (h : Run .MLFQ s tr s') (hc : ∀ e ∈ tr, KeepsQueued e.1 e.2) :
    Sound s' ∧ Arrays s' ∧ Listed s'.ker := by
  refine h.invariant (fun s => Sound s ∧ Arrays s ∧ Listed s.ker) KeepsQueued ?_ hc ⟨hb.sound, hb.arrays, hb.listed⟩
  rintro s a s' ⟨hs, ha, hl⟩ hc hst
  have hm := step_qmove hs hst
  exact ⟨step_sound hs hst, ha.keep hs hc.shift hc.fresh hm, hl.keep ha hc hm⟩

/-- **No process is lost.** In every state that a run with the conditions reaches: a RUNNABLE
process is an entry of one of the queues; so is a killed process until it is a ZOMBIE; and at the
index that a scheduler keeps across `swtch` stands the process it dispatched, so that what it
deletes when that process returns is that process. Runs end at `Stop.index`. -/
theorem runnable_stays_queued {npages need : Nat} {tr : Trace n}
    (hb : Boot npages need s) (h : Run .MLFQ s tr s') (hc : ∀ e ∈ tr, KeepsQueued e.1 e.2) :
    (∀ p, (s'.ker.procs p).state = .RUNNABLE → ∃ l, ∃ i : Nat,
      (i : Int) ≤ (s'.ker.queue l).top ∧ (s'.ker.queue l).cell i = some p) ∧
    (∀ p, (s'.ker.procs p).killed = true → (s'.ker.procs p).state ≠ .UNUSED →
      (s'.ker.procs p).state ≠ .ZOMBIE → ∃ l, ∃ i : Nat,
        (i : Int) ≤ (s'.ker.queue l).top ∧ (s'.ker.queue l).cell i = some p) ∧
    (∀ c m, (s'.cpus c).proc = some m →
      ((s'.cpus c).i : Int) ≤ (s'.ker.queue (s'.cpus c).lvl).top ∧
        (s'.ker.queue (s'.cpus c).lvl).cell (s'.cpus c).i = some m) := by
  obtain ⟨-, ha, hl⟩ := Run.listed hb h hc
  have entry : ∀ p, (s'.ker.procs p).state.active = true → ∃ l, ∃ i : Nat,
      (i : Int) ≤ (s'.ker.queue l).top ∧ (s'.ker.queue l).cell i = some p := by
    intro p hp
    obtain ⟨l, hl⟩ := hl p hp
    exact ⟨l, ArrQueue.mem_entries.mp hl⟩
  refine ⟨fun p hp => entry p (by rw [hp]; rfl), fun p _ hu hz => entry p ?_, fun c m hm => ?_⟩
  · cases e : (s'.ker.procs p).state <;> first | rfl | exact absurd e hu | exact absurd e hz
  · exact ha.full.index (ha.parked c m hm)

/-- init forks a child and both run for a tick. -/
theorem runnable_stays_queued_two : ∃ (s s' : State 1) (tr : Trace 1),
    Boot 100 0 s ∧ Run .MLFQ s tr s' ∧ (∀ e ∈ tr, KeepsQueued e.1 e.2) ∧
      (s'.ker.procs 1).state = .RUNNABLE ∧ ∃ l, ∃ i : Nat,
        (i : Int) ≤ (s'.ker.queue l).top ∧ (s'.ker.queue l).cell i = some 1 := by
  obtain ⟨s, t, tr, hb, h, hc, hr⟩ : ∃ (s t : State 1) (tr : _), Boot 100 0 s ∧ Run .MLFQ s tr t ∧
      (∀ e ∈ tr, KeepsQueued e.1 e.2) ∧ (t.ker.procs 1).state = .RUNNABLE :=
    Boot.exists_run (by decide) (turns 7 ++ forkAll ++ tickYield ++ turns 3 ++ tickYield) (by decide +kernel)
  exact ⟨s, t, tr, hb, h, hc, hr, (runnable_stays_queued hb h hc).1 1 hr⟩

/-- pid 4 (slot 3) is dispatched from `q1`, kills itself, and is interrupted by the timer before it
leaves the kernel: it yields as RUNNABLE and is taken out of `q1`. -/
theorem killed_process_is_lost : ∃ (s s' : State 1) (tr : Trace 1),
    Boot 100 0 s ∧ Run .MLFQ s tr s' ∧ s'.lock = none ∧ (s'.ker.procs 3).state = .RUNNABLE ∧
      ∀ l, ∀ i : Nat, (i : Int) ≤ (s'.ker.queue l).top → (s'.ker.queue l).cell i ≠ some 3 := by
  obtain ⟨s, t, tr, hb, h, hl, hr, hq⟩ : ∃ (s t : State 1) (tr : _), Boot 100 0 s ∧ Run .MLFQ s tr t ∧
      t.lock = none ∧ (t.ker.procs 3).state = .RUNNABLE ∧ ∀ l, 3 ∉ t.ker.lists l :=
    Boot.exists_run (by decide) (fourInQ1 ++ turns 3 ++ [.sys 0 (.kill 4)] ++ tickYield ++ turns 5)
      (by decide +kernel)
  exact ⟨s, t, tr, hb, h, hl, hr, fun l i hi hc => hq l (ArrQueue.mem_entries.mpr ⟨i, hi, hc⟩)⟩

end Xv6
