import Xv6.Proc.Trans
import Xv6.Lib.Select
import Mathlib.Order.Fin.Basic

/-!
# Which process the table scans of PRIORITY and FCFS choose

Both builds search the whole table when the scan meets a RUNNABLE process `p`.

* PRIORITY compares each candidate with the best so far, so the choice is a process of smallest `priority`
  (`priority_runs_best`), in every run and from any state.
* FCFS compares each candidate with `p` itself. What is chosen is the LAST process of the table that is older than
  `p`, which is the oldest only if the table is so ordered (`fcfs_runs_oldest_iff`); `fcfs_passes_over_oldest` is a
  run from boot in which it is not.
-/

namespace Xv6
open Lib List

variable {n : Nat}

namespace Kernel
variable {k : Kernel} {p : Slot}

/-! ## PRIORITY -/

lemma choosePriority_spec (k : Kernel) {p : Slot} (hp : (k.procs p).state = .RUNNABLE) :
    (k.procs (k.choosePriority p)).state = .RUNNABLE ∧
      ∀ q, (k.procs q).state = .RUNNABLE → (k.procs (k.choosePriority p)).priority ≤ (k.procs q).priority := by
  obtain ⟨hm, -, hle⟩ := select_best (fun q => (k.procs q).state = .RUNNABLE) (fun q => (k.procs q).priority)
    (finRange NPROC) p
  refine ⟨?_, fun q hq => hle q (mem_finRange q) hq⟩
  rcases hm with hm | ⟨-, hm⟩
  · show (k.procs (foldl _ p (finRange NPROC))).state = .RUNNABLE
    rw [hm]
    exact hp
  · exact hm

/-! ## FCFS -/

/-- a candidate that FCFS prefers to `p`: RUNNABLE, not one of the first two processes, and created before `p`. -/
def Earlier (k : Kernel) (p q : Slot) : Prop :=
  (k.procs q).state = .RUNNABLE ∧ 2 < (k.procs q).pid ∧ (k.procs q).ctime < (k.procs p).ctime

instance (k : Kernel) (p : Slot) : DecidablePred (k.Earlier p) := fun _ => inferInstanceAs (Decidable (_ ∧ _ ∧ _))

/-- of the candidates older than `p`, the last one of the table is the oldest. -/
def LastIsOldest (k : Kernel) (p : Slot) : Prop :=
  ∀ q r, k.Earlier p q → k.Earlier p r → (∀ t, r < t → ¬ k.Earlier p t) → (k.procs r).ctime ≤ (k.procs q).ctime

section
variable (k : Kernel) (p : Slot)

lemma chooseFcfs_eq : k.chooseFcfs p = (finRange NPROC).foldl (fun m q => if k.Earlier p q then q else m) p := by
  unfold chooseFcfs
  congr 1
  funext m q
  by_cases h : k.Earlier p q
  · rw [if_pos h, if_neg (not_not_intro h.1), if_neg (Int.not_le.mpr h.2.1), if_pos h.2.2]
  · rw [if_neg h]
    unfold Earlier at h
    grind

/-- the choice is `p` if nobody is older, and else the last candidate of the table. -/
theorem chooseFcfs_spec : (k.chooseFcfs p = p ∧ ∀ q, ¬ k.Earlier p q) ∨
      k.Earlier p (k.chooseFcfs p) ∧ ∀ t, k.chooseFcfs p < t → ¬ k.Earlier p t := by
  rw [chooseFcfs_eq]
  rcases select_last (k.Earlier p) (finRange NPROC) p with ⟨h1, h2⟩ | ⟨l1, l2, h1, h2, h3⟩
  · exact .inl ⟨h1, fun q => h2 q (mem_finRange q)⟩
  · refine .inr ⟨h2, fun t ht => h3 t ?_⟩
    -- what stands before the choice is smaller
    have hs : (finRange NPROC).Pairwise (· < ·) := pairwise_lt_finRange NPROC
    have hmem := mem_finRange t
    rw [h1] at hs hmem
    have hlt := (pairwise_append.mp hs).2.2
    rcases mem_append.mp hmem with hm | hm
    · exact absurd (hlt t hm _ mem_cons_self) (lt_asymm ht)
    · exact (mem_cons.mp hm).resolve_left (ne_of_gt ht)

lemma chooseFcfs_oldest_iff : (∀ q, (k.procs q).state = .RUNNABLE → 2 < (k.procs q).pid →
      ¬ (k.procs q).ctime < (k.procs (k.chooseFcfs p)).ctime) ↔ k.LastIsOldest p := by
  rcases k.chooseFcfs_spec p with ⟨hp, hno⟩ | ⟨he, hlast⟩
  · rw [hp]
    exact ⟨fun _ q _ hq => absurd hq (hno q), fun _ q h1 h2 h3 => hno q ⟨h1, h2, h3⟩⟩
  · constructor
    · intro h q r hq hr hend
      -- `r` is the choice
      have hr' : r = k.chooseFcfs p := by
        rcases lt_trichotomy r (k.chooseFcfs p) with hlt | heq | hgt
        · exact absurd he (hend _ hlt)
        · exact heq
        · exact absurd hr (hlast _ hgt)
      rw [hr']
      exact Int.not_lt.mp (h q hq.1 hq.2.1)
    · intro h q h1 h2 h3
      have hq : k.Earlier p q := ⟨h1, h2, Int.lt_trans h3 he.2.2⟩
      exact absurd h3 (Int.not_lt.mpr (h q _ hq he hlast))

end

end Kernel

variable {s t : State n} {c : Fin n} {p x : Slot}

/-- **Whatever PRIORITY dispatches, in any state, is RUNNABLE, and no RUNNABLE process has a smaller priority value.** -/
theorem priority_runs_best {a : Action n} (hd : dispatched .PRIORITY s a = some x) :
    (s.ker.procs x).state = .RUNNABLE ∧
      ∀ q, (s.ker.procs q).state = .RUNNABLE → ¬ (s.ker.procs q).priority < (s.ker.procs x).priority := by
  obtain ⟨c, p, -, -, -, hr, rfl⟩ := dispatched_some hd
  obtain ⟨h1, h2⟩ := s.ker.choosePriority_spec hr
  exact ⟨h1, fun q hq => Int.not_lt.mpr (h2 q hq)⟩

/-- init gives pid 3 the priority 5 and pid 4 the priority 2, and yields; pid 2 with priority 1 is dispatched. -/
theorem priority_runs_best_one : ∃ (s t : State 1) (tr : Trace 1) (e : State 1 × Action 1),
    Run .PRIORITY s tr t ∧ e ∈ tr ∧ dispatched .PRIORITY e.1 e.2 = some 1 ∧
      ∀ q, (e.1.ker.procs q).state = .RUNNABLE → ¬ (e.1.ker.procs q).priority < (e.1.ker.procs 1).priority := by
  obtain ⟨s, t, tr, -, h, e, he, hd⟩ : ∃ (s t : State 1) (tr : _), Boot 100 0 s ∧ Run .PRIORITY s tr t ∧
      ∃ e ∈ tr, dispatched .PRIORITY e.1 e.2 = some 1 := Boot.exists_run (by decide)
    (turns 3 ++ forkAll ++ forkAll ++ forkAll ++
      [.sys 0 (.setPriority 3 5), .sys 0 (.setPriority 4 2), .sys 0 (.setPriority 1 90)] ++ tickYield ++ turns 3)
    (by decide +kernel)
  exact ⟨s, t, tr, e, h, he, hd, (priority_runs_best hd).2⟩

/-- **When FCFS dispatches the oldest**: the scan stands at `p`, and `x` is dispatched. -/
theorem fcfs_runs_oldest_iff (hp : examined .FCFS s c = some p) (hd : dispatched .FCFS s (.cpu c) = some x) :
    (∀ q, (s.ker.procs q).state = .RUNNABLE → 2 < (s.ker.procs q).pid →
      ¬ (s.ker.procs q).ctime < (s.ker.procs x).ctime) ↔ s.ker.LastIsOldest p := by
  obtain ⟨c', p', hc, -, hp', -, rfl⟩ := dispatched_some hd
  cases hc
  rw [hp] at hp'
  cases hp'
  exact s.ker.chooseFcfs_oldest_iff p

/-- in the FCFS build: init forks pid 2 and pid 3 at once, pid 4 one tick and pid 5 two ticks later, and waits; the
children sleep, but for pid 3, which exits. At the third tick init forks pid 6 into its slot, wakes pids 4 and 5 and
sleeps. -/
def oldSlot : List (Action 1) :=
  turns 3 ++ forkAll ++ forkAll ++ .timer 0 false :: turns 3 ++ forkAll ++ .timer 0 false :: turns 3 ++ forkAll ++
    [.sys 0 .wait] ++ turns 3 ++ [.sys 0 (.sleep (.addr 1))] ++ turns 3 ++ [.sys 0 .exit] ++ turns 3 ++
    [.sys 0 (.sleep (.addr 2))] ++ turns 3 ++ [.sys 0 (.sleep (.addr 2))] ++ turns 64 ++
    .timer 0 false :: turns 3 ++ forkAll ++ [.sys 0 (.wakeup (.addr 2)), .sys 0 (.sleep (.addr 3))] ++ turns 2

/-- The scan stands at pid 6, which is younger than pids 4 and 5. Both are preferred to it, and the later one of the
table, pid 5, is dispatched, though pid 4 was created a tick before it. -/
theorem fcfs_passes_over_oldest : ∃ (s t : State 1) (tr : Trace 1), Boot 100 0 s ∧
    Run .FCFS s tr t ∧ dispatched .FCFS t (.cpu 0) = some 4 ∧ 2 < (t.ker.procs 4).pid ∧
      (t.ker.procs 3).state = .RUNNABLE ∧ 2 < (t.ker.procs 3).pid ∧
      (t.ker.procs 3).ctime < (t.ker.procs 4).ctime :=
  Boot.exists_run (by decide) oldSlot (by decide +kernel)

/-- Earlier in the same run the scan stands at pid 3, the oldest, and dispatches it. -/
theorem fcfs_runs_oldest_three : ∃ (s t : State 1) (tr : Trace 1), Boot 100 0 s ∧
    Run .FCFS s tr t ∧ dispatched .FCFS t (.cpu 0) = some 2 ∧ 2 < (t.ker.procs 2).pid ∧
      ∀ q, (t.ker.procs q).state = .RUNNABLE → 2 < (t.ker.procs q).pid →
        ¬ (t.ker.procs q).ctime < (t.ker.procs 2).ctime := by
  obtain ⟨s, t, tr, hb, h, he, hd, hx, hno⟩ : ∃ (s t : State 1) (tr : _), Boot 100 0 s ∧ Run .FCFS s tr t ∧
      examined .FCFS t 0 = some 2 ∧ dispatched .FCFS t (.cpu 0) = some 2 ∧ 2 < (t.ker.procs 2).pid ∧
      ∀ q, ¬ t.ker.Earlier 2 q := Boot.exists_run (by decide) (oldSlot.take 37) (by decide +kernel)
  exact ⟨s, t, tr, hb, h, hd, hx, (fcfs_runs_oldest_iff he hd).mpr fun q _ hq => absurd hq (hno q)⟩

end Xv6
