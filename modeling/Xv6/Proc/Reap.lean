import Xv6.Proc.Pages

/-!
# `wait` against `waitx`

The two functions search the same child, free the same pages and clear the same fields. In the
MLFQ build `wait` also calls `rem_process` for the child; in `waitx` that call is commented out.
`waitx_agrees_with_wait_iff`: in a reachable state both return the pid of the same child, and they
leave the same kernel **exactly when** there is nothing for `rem_process` to remove.
-/

namespace Xv6
open Lib Kernel Option

variable {n : Nat} {pol : Policy} {s s' : State n} {k : Kernel}

namespace Kernel

/-- some entry of the queue named by `current_queue` of `z` has the pid of `z`. -/
def StillQueued (k : Kernel) (z : Slot) : Prop :=
  ∃ l, queueNo (k.procs z).current_queue = some l ∧
    ∃ j : Nat, (j : Int) ≤ (k.queue l).top ∧
      ((k.queue l).cell j).any (fun e => (k.procs e).pid = (k.procs z).pid) = true

lemma remProcess_eq_self_iff (k : Kernel) (pid curq : Int) :
    (k.remProcess pid curq).queue = k.queue ↔
      ∀ l, queueNo curq = some l → ∀ j : Nat, (j : Int) ≤ (k.queue l).top →
        ((k.queue l).cell j).any (fun e => (k.procs e).pid = pid) = false := by
  unfold remProcess
  cases hl : queueNo curq with
  | none => exact ⟨fun _ => nofun, fun _ => rfl⟩
  | some l =>
    show (k.setQueue l _).queue = k.queue ↔ _
    constructor
    · intro h m hm
      cases hm
      have e := congrFun h l
      rw [setQueue_same] at e
      exact (ArrQueue.rem_eq_self_iff _ _).mp e
    · intro h
      rw [(ArrQueue.rem_eq_self_iff _ _).mpr (h l rfl)]
      exact Function.update_eq_self ..

lemma reap_eq_iff {z : Slot} {k1 k2 : Kernel} (h1 : k.reap pol false z = .ok k1)
    (h2 : k.reap pol true z = .ok k2) : k1 = k2 ↔ (pol = .MLFQ → ¬ k.StillQueued z) := by
  obtain ⟨st, pd, hst, hpd, ho1, hz1, hq1, ht1, hn1, hi1, hf1⟩ := reap_ok h1
  obtain ⟨st', pd', hst', hpd', ho2, hz2, hq2, ht2, hn2, hi2, hf2⟩ := reap_ok h2
  have hprocs : k1.procs = k2.procs := by
    funext q
    by_cases e : q = z
    · rw [e, hz1, hz2]
    · rw [ho1 q e, ho2 q e]
  have hfree : k1.freelist = k2.freelist := by
    rw [hst] at hst'
    rw [hpd] at hpd'
    cases hst'
    cases hpd'
    rw [hf1, hf2]
  have hk : k1 = k2 ↔ k1.queue = k2.queue := by
    refine ⟨fun e => by rw [e], fun e => ?_⟩
    cases k1
    cases k2
    simp only at *
    subst hprocs hfree e ht1 hn1 hi1
    rw [ht2, hn2, hi2]
  have hx : ¬ (pol = .MLFQ ∧ true = false) := fun e => nomatch e.2
  rw [hk, hq1, hq2, if_neg hx]
  by_cases hp : pol = .MLFQ
  · rw [if_pos ⟨hp, rfl⟩, remProcess_eq_self_iff]
    constructor
    · rintro h - ⟨l, hl, j, hj, hc⟩
      rw [h l hl j hj] at hc
      cases hc
    · intro h l hl j hj
      by_contra hc
      rw [Bool.not_eq_false] at hc
      exact h hp ⟨l, hl, j, hj, hc⟩
  · rw [if_neg (fun e => hp e.1)]
    exact ⟨fun _ e => absurd e hp, fun _ => rfl⟩

lemma zombieChild_zombie {p z : Slot} (h : k.zombieChild p = some z) : (k.procs z).state = .ZOMBIE := by
  have := find_some h
  simp only [Bool.and_eq_true, decide_eq_true_eq] at this
  exact this.2

lemma reap_some (pol : Policy) (x : Bool) {z : Slot} (hs : (k.procs z).kstack.isSome)
    (hd : (k.procs z).pgdir.isSome) : ∃ k', k.reap pol x z = .ok k' := by
  obtain ⟨st, hst⟩ := isSome_iff_exists.mp hs
  obtain ⟨pd, hpd⟩ := isSome_iff_exists.mp hd
  unfold reap freeProc
  rw [hst, hpd]
  exact ⟨_, rfl⟩

end Kernel

/-- **`waitx` is `wait` plus the times, exactly when `rem_process` has nothing to remove.** Both
return the pid of the same child; the kernels they leave are the same if and only if the build is
not MLFQ or no entry of the child's queue has its pid. Runs end at `Stop.index`. -/
theorem waitx_agrees_with_wait_iff {npages need : Nat} {tr : Trace n}
    {p z : Slot} (hb : Boot npages need s) (h : Run pol s tr s')
    (hz : s'.ker.zombieChild p = some z) :
    ∃ times k1 k2, s'.ker.wait pol p = .ok (.reaped (s'.ker.procs z).pid none k1) ∧
      s'.ker.waitx p = .ok (.reaped (s'.ker.procs z).pid (some times) k2) ∧
      (k1 = k2 ↔ (pol = .MLFQ → ¬ s'.ker.StillQueued z)) := by
  have hp := Run.pages hb h
  have hc : (s'.ker.procs z).state.complete = true := by
    rw [zombieChild_zombie hz]; rfl
  have hs := hp.stack z (.inl hc)
  have hd := hp.dir z (.inl hc)
  obtain ⟨k1, h1⟩ := reap_some pol false hs hd
  obtain ⟨k2, h2⟩ := reap_some pol true hs hd
  have e1 := wait_eq pol false s'.ker p
  have e2 := wait_eq pol true s'.ker p
  simp only [hz, h1] at e1
  simp only [hz, h2] at e2
  exact ⟨_, k1, k2, e1, e2, reap_eq_iff h1 h2⟩

/-- in the DEFAULT build: init forks a child, which exits. -/
theorem waitx_agrees_with_wait_default : ∃ (s s' : State 1) (tr : Trace 1),
    Boot 100 0 s ∧ Run .DEFAULT s tr s' ∧ s'.ker.zombieChild 0 = some 1 ∧
      ∃ times k1, s'.ker.wait .DEFAULT 0 = .ok (.reaped (s'.ker.procs 1).pid none k1) ∧
        s'.ker.waitx 0 = .ok (.reaped (s'.ker.procs 1).pid (some times) k1) := by
  obtain ⟨s, t, tr, hb, h, hz⟩ : ∃ (s t : State 1) (tr : _), Boot 100 0 s ∧ Run .DEFAULT s tr t ∧
      t.ker.zombieChild 0 = some 1 :=
    Boot.exists_run (by decide) (turns 3 ++ forkAll ++ tickYield ++ turns 3 ++ [.sys 0 .exit]) (by decide +kernel)
  obtain ⟨times, k1, k2, h1, h2, hk⟩ := waitx_agrees_with_wait_iff hb h hz
  have e : k1 = k2 := hk.mpr nofun
  exact ⟨s, t, tr, hb, h, hz, times, k1, h1, by rw [e]; exact h2⟩

/-- the pid, whether the times are given, and `c0`, when a child was reaped. -/
def reapedTop : Except Stop Kernel.WaitResult → Option (Int × Bool × Int)
  | .ok (.reaped pid times k) => some (pid, times.isSome, (k.queue 0).top)
  | _ => none

lemma reapedTop_some {r : Except Stop Kernel.WaitResult} {pid top : Int} {b : Bool}
    (h : reapedTop r = some (pid, b, top)) :
    ∃ times k, r = .ok (.reaped pid times k) ∧ times.isSome = b ∧ (k.queue 0).top = top := by
  unfold reapedTop at h
  split at h
  · next pid' times k =>
    cases h
    exact ⟨times, k, rfl, rfl, rfl⟩
  · cases h

/-- the same child in the MLFQ build: `c0` is 0 after `wait`, and 1 after `waitx`. -/
theorem waitx_leaves_queue_entry : ∃ (s s' : State 1) (tr : Trace 1),
    Boot 100 0 s ∧ Run .MLFQ s tr s' ∧ s'.lock = none ∧ s'.ker.zombieChild 0 = some 1 ∧
      ∃ times k1 k2, s'.ker.wait .MLFQ 0 = .ok (.reaped 2 none k1) ∧
        s'.ker.waitx 0 = .ok (.reaped 2 (some times) k2) ∧
        (k1.queue 0).top = 0 ∧ (k2.queue 0).top = 1 := by
  obtain ⟨s, t, tr, hb, h, hl, hz, hw, hx⟩ : ∃ (s t : State 1) (tr : _), Boot 100 0 s ∧ Run .MLFQ s tr t ∧
      t.lock = none ∧ t.ker.zombieChild 0 = some 1 ∧
      reapedTop (t.ker.wait .MLFQ 0) = some (2, false, 0) ∧
      reapedTop (t.ker.waitx 0) = some (2, true, 1) :=
    Boot.exists_run (by decide) (turns 7 ++ forkAll ++ tickYield ++ turns 3 ++ [.sys 0 .exit] ++ turns 13)
      (by decide +kernel)
  obtain ⟨times, k1, h1, hnone, ht1⟩ := reapedTop_some hw
  obtain rfl : times = none := by simpa using hnone
  obtain ⟨times', k2, h2, hsome, ht2⟩ := reapedTop_some hx
  obtain ⟨v, rfl⟩ := isSome_iff_exists.mp hsome
  exact ⟨s, t, tr, hb, h, hl, hz, v, k1, k2, h1, h2, ht1, ht2⟩

end Xv6
