import Xv6.Proc.Machine

/-!
# What one step of the machine can do

`Trans pol s a s'` lists every way in which the label `a` takes `s` to `s'`, with the guards under
which the code takes that way; `step_trans` is the only place where `step` is unfolded. All
invariants are proved by cases on `Trans`.

`examined`, `reaps`, `dispatched` name, in the state BEFORE a step, the process that the scheduler
looks at, the child that `wait` or `waitx` frees, and the process that is dispatched.
-/

namespace Xv6
open Lib Option

variable {n : Nat} {pol : Policy} {s s' : State n}
variable {a : Action n} {c : Fin n} {p z : Slot} {x : Bool} {k : Kernel}

/-- the process the scheduler's loop on `c` looks at. -/
def examined (pol : Policy) (s : State n) (c : Fin n) : Option Slot :=
  if pol = .MLFQ then
    if ((s.cpus c).i : Int) ≤ (s.ker.queue (s.cpus c).lvl).top then
      (s.ker.queue (s.cpus c).lvl).cell (s.cpus c).i
    else none
  else if h : (s.cpus c).i < NPROC then some ⟨(s.cpus c).i, h⟩ else none

/-- the process that the step `a` dispatches. -/
def dispatched (pol : Policy) (s : State n) : Action n → Option Slot
  | .cpu c =>
    if (s.cpus c).mode = .scan then
      match examined pol s c with
      | some p => if (s.ker.procs p).state = .RUNNABLE then some (s.ker.choose pol p) else none
      | none => none
    else none
  | _ => none

/-- the process whose turn of the loop of `wait` (`false`) or `waitx` (`true`) the step `a` is. -/
def waits (s : State n) : Action n → Option (Slot × Bool)
  | .cpu c =>
    if (s.cpus c).mode = .resume then
      match (s.cpus c).proc with
      | some p =>
        match (s.ker.procs p).context with
        | .wait => some (p, false)
        | .waitx => some (p, true)
        | _ => none
      | none => none
    else none
  | .sys c .wait => (s.cpus c).proc.map (·, false)
  | .sys c .waitx => (s.cpus c).proc.map (·, true)
  | _ => none

/-- the ZOMBIE that the step `a` frees, by `wait` (`false`) or `waitx` (`true`). -/
def reaps (s : State n) (a : Action n) : Option (Slot × Bool) :=
  match waits s a with
  | some (p, x) => (s.ker.zombieChild p).map (·, x)
  | none => none

/-- `p` on `c` holds the lock at the top of the loop of `wait` or `waitx`, with the kernel `k`. -/
inductive Waiting (s : State n) : Action n → Fin n → Slot → Bool → Kernel → Prop
  | call {c : Fin n} {p : Slot} (x : Bool) (hm : (s.cpus c).mode = .run)
      (hp : (s.cpus c).proc = some p) (hf : (s.ker.procs p).fork = .none) (hl : s.lock = none) :
      Waiting s (.sys c (if x then .waitx else .wait)) c p x s.ker
  | woken {c : Fin n} {p : Slot} (x : Bool) (hm : (s.cpus c).mode = .resume)
      (hp : (s.cpus c).proc = some p)
      (hc : (s.ker.procs p).context = if x then .waitx else .wait) :
      Waiting s (.cpu c) c p x (s.ker.unchan p)

inductive Trans (pol : Policy) (s : State n) : Action n → State n → Prop
  -- scheduler
  | begin {c : Fin n} (hm : (s.cpus c).mode = .idle) (hl : s.lock = none) :
      Trans pol s (.cpu c) (s.next c s.ker { s.cpus c with lvl := 0, i := 0, mode := firstMode pol } (some c))
  | ageEnd {c : Fin n} {l : Fin 4} {i : Nat} (hm : (s.cpus c).mode = .age l i)
      (ht : ¬ (i : Int) ≤ (s.ker.queue l.succ).top) :
      Trans pol s (.cpu c) (s.next c s.ker (ageNext (s.cpus c) l) s.lock)
  | ageKeep {c : Fin n} {l : Fin 4} {i : Nat} {p : Slot} (hm : (s.cpus c).mode = .age l i)
      (ht : (i : Int) ≤ (s.ker.queue l.succ).top) (hp : (s.ker.queue l.succ).cell i = some p)
      (hk : ¬ ((s.ker.procs p).state = .RUNNABLE ∧ s.ker.waited p = true)) :
      Trans pol s (.cpu c) (s.next c s.ker { s.cpus c with mode := .age l (i + 1) } s.lock)
  | ageUp {c : Fin n} {l : Fin 4} {i : Nat} {p : Slot} {k : Kernel}
      (hm : (s.cpus c).mode = .age l i)
      (ht : (i : Int) ≤ (s.ker.queue l.succ).top) (hp : (s.ker.queue l.succ).cell i = some p)
      (hr : (s.ker.procs p).state = .RUNNABLE) (hw : s.ker.waited p = true)
      (hk : s.ker.promote l p = .ok k) :
      Trans pol s (.cpu c) (s.next c k { s.cpus c with mode := .age l (i + 1) } s.lock)
  | scanSkip {c : Fin n} {p : Slot} (hm : (s.cpus c).mode = .scan)
      (he : examined pol s c = some p) (hr : (s.ker.procs p).state ≠ .RUNNABLE) :
      Trans pol s (.cpu c) (s.next c s.ker { s.cpus c with i := (s.cpus c).i + 1 } s.lock)
  | scanNext {c : Fin n} (hm : (s.cpus c).mode = .scan) (hpol : pol = .MLFQ)
      (ht : ¬ ((s.cpus c).i : Int) ≤ (s.ker.queue (s.cpus c).lvl).top) (hl : (s.cpus c).lvl ≠ 4) :
      Trans pol s (.cpu c) (s.next c s.ker { s.cpus c with lvl := (s.cpus c).lvl + 1, i := 0 } s.lock)
  | scanEnd {c : Fin n} (hm : (s.cpus c).mode = .scan) (he : examined pol s c = none)
      (hl : pol = .MLFQ → (s.cpus c).lvl = 4) :
      Trans pol s (.cpu c) (s.next c s.ker { s.cpus c with mode := .idle } none)
  | runQueue {c : Fin n} {p : Slot} (hm : (s.cpus c).mode = .scan) (hpol : pol = .MLFQ)
      (he : examined pol s c = some p) (hr : (s.ker.procs p).state = .RUNNABLE) :
      Trans pol s (.cpu c) (s.next c (s.ker.dispatchQueue p) { s.cpus c with proc := some p, mode := .resume } s.lock)
  | runTable {c : Fin n} {p : Slot} (hm : (s.cpus c).mode = .scan) (hpol : pol ≠ .MLFQ)
      (he : examined pol s c = some p) (hr : (s.ker.procs p).state = .RUNNABLE) :
      Trans pol s (.cpu c) (s.next c (s.ker.dispatch (s.ker.choose pol p)) { s.cpus c with
          proc := some (s.ker.choose pol p), i := (s.ker.choose pol p).val, mode := .resume }
        s.lock)
  | backTable {c : Fin n} {m : Slot} (hm : (s.cpus c).mode = .back) (hpol : pol ≠ .MLFQ)
      (hp : (s.cpus c).proc = some m) :
      Trans pol s (.cpu c) (s.next c s.ker
        { s.cpus c with proc := none, i := (s.cpus c).i + 1, mode := .scan } s.lock)
  | backQueue {c : Fin n} {m : Slot} {k : Kernel} (hm : (s.cpus c).mode = .back)
      (hpol : pol = .MLFQ) (hp : (s.cpus c).proc = some m)
      (hk : s.ker.afterSwtch (s.cpus c).lvl (s.cpus c).i m = .ok k) :
      Trans pol s (.cpu c) (s.next c k { s.cpus c with proc := none, i := (s.cpus c).i + 1, mode := .scan } s.lock)
  -- the process goes on
  | resume {c : Fin n} {p : Slot} (hm : (s.cpus c).mode = .resume)
      (hp : (s.cpus c).proc = some p)
      (hc : (s.ker.procs p).context = .forkret ∨ (s.ker.procs p).context = .yield) :
      Trans pol s (.cpu c) (s.next c s.ker { s.cpus c with mode := .run } none)
  | resumeSleep {c : Fin n} {p : Slot} (hm : (s.cpus c).mode = .resume)
      (hp : (s.cpus c).proc = some p) (hc : (s.ker.procs p).context = .sleep) :
      Trans pol s (.cpu c) (s.next c (s.ker.unchan p) { s.cpus c with mode := .run } none)
  | reap {a : Action n} {c : Fin n} {p z : Slot} {x : Bool} {k k' : Kernel}
      (hw : Waiting s a c p x k) (hz : k.zombieChild p = some z) (hk : k.reap pol x z = .ok k') :
      Trans pol s a (s.next c k' { s.cpus c with mode := .run } none)
  | waitFail {a : Action n} {c : Fin n} {p : Slot} {x : Bool} {k : Kernel}
      (hw : Waiting s a c p x k) (hz : k.zombieChild p = none) (hg : k.giveUp p = true) :
      Trans pol s a (s.next c k { s.cpus c with mode := .run } none)
  | waitBlock {a : Action n} {c : Fin n} {p : Slot} {x : Bool} {k : Kernel}
      (hw : Waiting s a c p x k) (hz : k.zombieChild p = none) (hg : k.giveUp p = false) :
      Trans pol s a (s.next c (k.sleepOn p (.proc p) (if x then .waitx else .wait))
        { s.cpus c with mode := .back } (some c))
  -- system calls
  | fork {c : Fin n} {p : Slot} {need : Nat} {k : Kernel} (hm : (s.cpus c).mode = .run)
      (hp : (s.cpus c).proc = some p)
      (hl : (s.ker.procs p).fork.locks = true → s.lock = none)
      (hk : s.ker.forkStep p need = .ok k) :
      Trans pol s (.sys c (.fork need)) (s.next c k (s.cpus c) s.lock)
  | exit {c : Fin n} {p : Slot} {k : Kernel} (hm : (s.cpus c).mode = .run)
      (hp : (s.cpus c).proc = some p) (hf : (s.ker.procs p).fork = .none) (hl : s.lock = none)
      (hk : s.ker.exit p = .ok k) :
      Trans pol s (.sys c .exit) (s.next c k { s.cpus c with mode := .back } (some c))
  | kill {c : Fin n} {p : Slot} {pid : Int} (hm : (s.cpus c).mode = .run)
      (hp : (s.cpus c).proc = some p) (hl : s.lock = none) :
      Trans pol s (.sys c (.kill pid)) (s.next c (s.ker.kill pid) (s.cpus c) none)
  | sleep {c : Fin n} {p : Slot} {ch : Chan} (hm : (s.cpus c).mode = .run)
      (hp : (s.cpus c).proc = some p) (hf : (s.ker.procs p).fork = .none) (hl : s.lock = none) :
      Trans pol s (.sys c (.sleep ch)) (s.next c (s.ker.sleepOn p ch .sleep) { s.cpus c with mode := .back } (some c))
  | wakeup {c : Fin n} {p : Slot} {ch : Chan} (hm : (s.cpus c).mode = .run)
      (hp : (s.cpus c).proc = some p) (hl : s.lock = none) :
      Trans pol s (.sys c (.wakeup ch)) (s.next c (s.ker.wakeup1 ch) (s.cpus c) none)
  | setPriority {c : Fin n} {p : Slot} {pid v : Int} (hm : (s.cpus c).mode = .run)
      (hp : (s.cpus c).proc = some p) (hl : s.lock = none) :
      Trans pol s (.sys c (.setPriority pid v)) (s.next c (s.ker.setPriority pid v) (s.cpus c) none)
  -- interrupts
  | intr {c : Fin n} {ch : Chan} (hm : (s.cpus c).mode = .idle ∨ (s.cpus c).mode = .run)
      (hl : s.lock = none) :
      Trans pol s (.intr c ch) (s.next c (s.ker.wakeup1 ch) (s.cpus c) none)
  | timer {c : Fin n} {u : Bool} (hm : (s.cpus c).mode = .idle ∨ (s.cpus c).mode = .run)
      (hc : c.val = 0) :
      Trans pol s (.timer c u) (s.next c s.ker.tick { s.cpus c with mode := .tickWake u } s.lock)
  | timerOther {c : Fin n} {u : Bool} (hm : (s.cpus c).mode = .idle ∨ (s.cpus c).mode = .run)
      (hc : c.val ≠ 0) :
      Trans pol s (.timer c u) (s.next c s.ker { s.cpus c with mode := .trapTail u } s.lock)
  | tickWake {c : Fin n} {u : Bool} (hm : (s.cpus c).mode = .tickWake u) (hl : s.lock = none) :
      Trans pol s (.cpu c) (s.next c (s.ker.wakeup1 .ticks) { s.cpus c with mode := .tickCharge u } none)
  | tickIdle {c : Fin n} {u : Bool} (hm : (s.cpus c).mode = .tickCharge u)
      (hp : (s.cpus c).proc = none) :
      Trans pol s (.cpu c) (s.next c s.ker { s.cpus c with mode := .trapTail u } s.lock)
  | tickCharge {c : Fin n} {u : Bool} {p : Slot} {k : Kernel}
      (hm : (s.cpus c).mode = .tickCharge u) (hp : (s.cpus c).proc = some p)
      (hk : s.ker.charge p = .ok k) :
      Trans pol s (.cpu c) (s.next c k { s.cpus c with mode := .trapTail u } s.lock)
  | trapEnd {c : Fin n} {u : Bool} (hm : (s.cpus c).mode = .trapTail u)
      (hp : ∀ p, (s.cpus c).proc = some p →
        ((s.ker.procs p).killed = true ∧ u = true) ∨ pol = .FCFS ∨ (s.ker.procs p).state ≠ .RUNNING) :
      Trans pol s (.cpu c) (s.next c s.ker { s.cpus c with mode := (s.cpus c).afterTrap } s.lock)
  | yield {c : Fin n} {u : Bool} {p : Slot} (hm : (s.cpus c).mode = .trapTail u)
      (hp : (s.cpus c).proc = some p) (hpol : pol ≠ .FCFS)
      (hr : (s.ker.procs p).state = .RUNNING) (hl : s.lock = none) :
      Trans pol s (.cpu c) (s.next c (s.ker.yield p) { s.cpus c with mode := .back } (some c))

/-! ## every step is one of these -/

lemma waitTurn_trans (hw : Waiting s a c p x k) (h : waitTurn pol s c k p x = .ok s') : Trans pol s a s' := by
  unfold waitTurn at h
  rw [Kernel.wait_eq] at h
  cases hz : k.zombieChild p with
  | none =>
    simp only [hz] at h
    cases hg : k.giveUp p with
    | true => rw [hg] at h; cases h; exact .waitFail hw hz hg
    | false => rw [hg] at h; cases h; exact .waitBlock hw hz hg
  | some z =>
    simp only [hz] at h
    cases hk : k.reap pol x z with
    | error => rw [hk] at h; cases h
    | ok => rw [hk] at h; cases h; exact .reap hw hz hk

lemma ageStep_trans {l : Fin 4} {i : Nat} (hm : (s.cpus c).mode = .age l i)
    (h : ageStep s c l i = .ok s') : Trans pol s (.cpu c) s' := by
  unfold ageStep Kernel.ageTurn at h
  by_cases ht : (i : Int) ≤ (s.ker.queue l.succ).top
  · rw [if_pos ht] at h
    cases hp : (s.ker.queue l.succ).cell i with
    | none => rw [hp] at h; cases h
    | some p =>
      rw [hp] at h
      by_cases hr : (s.ker.procs p).state = .RUNNABLE ∧ s.ker.waited p = true
      · simp only [hr, and_self, if_true] at h
        cases hk : s.ker.promote l p with
        | error => rw [hk] at h; cases h
        | ok => rw [hk] at h; cases h; exact .ageUp hm ht hp hr.1 hr.2 hk
      · simp only [hr, if_false] at h
        cases h
        exact .ageKeep hm ht hp hr
  · rw [if_neg ht] at h
    cases h
    exact .ageEnd hm ht

lemma scanQueue_trans (hm : (s.cpus c).mode = .scan) (hpol : pol = .MLFQ)
    (h : scanQueue s c = .ok s') : Trans pol s (.cpu c) s' := by
  unfold scanQueue at h
  by_cases ht : ((s.cpus c).i : Int) ≤ (s.ker.queue (s.cpus c).lvl).top
  · simp only [ht, if_true] at h
    cases hp : (s.ker.queue (s.cpus c).lvl).cell (s.cpus c).i with
    | none => rw [hp] at h; cases h
    | some p =>
      have he : examined pol s c = some p := by unfold examined; rw [if_pos hpol, if_pos ht, hp]
      rw [hp] at h
      by_cases hr : (s.ker.procs p).state = .RUNNABLE
      · simp only [hr, if_true] at h
        cases h
        exact .runQueue hm hpol he hr
      · simp only [hr, if_false] at h
        cases h
        exact .scanSkip hm he hr
  · simp only [ht, if_false] at h
    have he : examined pol s c = none := by unfold examined; rw [if_pos hpol, if_neg ht]
    by_cases hl : (s.cpus c).lvl = 4
    · rw [if_pos hl] at h; cases h; exact .scanEnd hm he (fun _ => hl)
    · rw [if_neg hl] at h; cases h; exact .scanNext hm hpol ht hl

lemma scanTable_trans (hm : (s.cpus c).mode = .scan) (hpol : pol ≠ .MLFQ)
    (h : scanTable pol s c = .ok s') : Trans pol s (.cpu c) s' := by
  unfold scanTable at h
  by_cases hi : (s.cpus c).i < NPROC
  · have he : examined pol s c = some ⟨(s.cpus c).i, hi⟩ := by
      unfold examined; rw [if_neg hpol, dif_pos hi]
    simp only [hi, dite_true] at h
    by_cases hr : (s.ker.procs ⟨(s.cpus c).i, hi⟩).state = .RUNNABLE
    · rw [if_pos hr] at h; cases h; exact .runTable hm hpol he hr
    · rw [if_neg hr] at h; cases h; exact .scanSkip hm he hr
  · have he : examined pol s c = none := by unfold examined; rw [if_neg hpol, dif_neg hi]
    simp only [hi, dite_false] at h
    cases h
    exact .scanEnd hm he (fun e => absurd e hpol)

lemma backStep_trans (hm : (s.cpus c).mode = .back) (h : backStep pol s c = .ok s') : Trans pol s (.cpu c) s' := by
  unfold backStep at h
  cases hp : (s.cpus c).proc with
  | none => simp only [hp] at h; cases h
  | some m =>
    simp only [hp] at h
    by_cases hpol : pol = .MLFQ
    · rw [if_pos hpol] at h
      cases hk : s.ker.afterSwtch (s.cpus c).lvl (s.cpus c).i m with
      | error => rw [hk] at h; cases h
      | ok => rw [hk] at h; cases h; exact .backQueue hm hpol hp hk
    · rw [if_neg hpol] at h; cases h; exact .backTable hm hpol hp

lemma resumeStep_trans (hm : (s.cpus c).mode = .resume)
    (h : resumeStep pol s c = .ok s') : Trans pol s (.cpu c) s' := by
  unfold resumeStep at h
  dsimp only at h
  split at h
  · cases h
  · next p hp =>
    split at h
    · next hc => cases h; exact .resume hm hp (.inl hc)
    · next hc => cases h; exact .resume hm hp (.inr hc)
    · next hc => cases h; exact .resumeSleep hm hp hc
    · next hc => exact waitTurn_trans (.woken false hm hp hc) h
    · next hc => exact waitTurn_trans (.woken true hm hp hc) h

lemma trapTailStep_trans {u : Bool} (hm : (s.cpus c).mode = .trapTail u)
    (h : trapTailStep pol s c u = .ok s') : Trans pol s (.cpu c) s' := by
  unfold trapTailStep at h
  dsimp only at h
  split at h
  · next hp =>
    cases h
    exact .trapEnd hm (fun p e => by rw [hp] at e; cases e)
  · next p hp =>
    split at h
    · next hk =>
      cases h
      exact .trapEnd hm (fun q e => by rw [hp] at e; cases e; exact hk)
    · next hk =>
      rw [not_or, not_or, not_not] at hk
      split at h
      · next hl => cases h; exact .yield hm hp hk.2.1 hk.2.2 hl
      · cases h

lemma cpuStep_trans (h : cpuStep pol s c = .ok s') : Trans pol s (.cpu c) s' := by
  unfold cpuStep at h
  cases hm : (s.cpus c).mode with
  | idle =>
    simp only [hm] at h
    split at h
    · next hl => cases h; exact .begin hm hl
    · cases h
  | age => simp only [hm] at h; exact ageStep_trans hm h
  | scan =>
    simp only [hm] at h
    split at h
    · next hpol => exact scanQueue_trans hm hpol h
    · next hpol => exact scanTable_trans hm hpol h
  | resume => simp only [hm] at h; exact resumeStep_trans hm h
  | run => simp only [hm] at h; cases h
  | tickWake =>
    simp only [hm] at h
    unfold tickWakeStep at h
    split at h
    · next hl => cases h; exact .tickWake hm hl
    · cases h
  | tickCharge =>
    simp only [hm] at h
    unfold tickChargeStep at h
    split at h
    · next hp => cases h; exact .tickIdle hm hp
    · next p hp =>
      split at h
      · next k hk => cases h; exact .tickCharge hm hp hk
      · cases h
  | trapTail => simp only [hm] at h; exact trapTailStep_trans hm h
  | back => simp only [hm] at h; exact backStep_trans hm h

lemma sysStep_trans {op : Op} (h : sysStep pol s c op = .ok s') : Trans pol s (.sys c op) s' := by
  unfold sysStep at h
  dsimp only at h
  split at h
  · next p hm hp =>
    split at h
    · next need =>
      split at h
      · cases h
      · next hl =>
        have hl' : (s.ker.procs p).fork.locks = true → s.lock = none := by
          intro e
          by_contra hne
          exact hl ⟨e, hne⟩
        split at h
        · next k hk => cases h; exact .fork hm hp hl' hk
        · cases h
    · split at h
      · cases h
      · next hg =>
        rw [not_or, not_not, not_not] at hg
        split at h
        · cases h
        · split at h
          · next k hk => cases h; exact .exit hm hp hg.1 hg.2 hk
          · cases h
        · exact waitTurn_trans (.call false hm hp hg.1 hg.2) h
        · exact waitTurn_trans (.call true hm hp hg.1 hg.2) h
        · cases h; exact .kill hm hp hg.2
        · cases h; exact .sleep hm hp hg.1 hg.2
        · cases h; exact .wakeup hm hp hg.2
        · cases h; exact .setPriority hm hp hg.2
  · cases h

/-- **`Trans` lists everything a step can do.** -/
theorem step_trans (h : step pol s a = .ok s') : Trans pol s a s' := by
  cases a with
  | cpu => exact cpuStep_trans h
  | timer =>
    unfold step timerStep at h
    simp only at h
    split at h
    · next hm =>
      split at h
      · next hc => cases h; exact .timer hm hc
      · next hc => cases h; exact .timerOther hm hc
    · cases h
  | intr =>
    unfold step intrStep at h
    simp only at h
    split at h
    · next hg => cases h; exact .intr hg.1 hg.2
    · cases h
  | sys => exact sysStep_trans h

/-! ## who is dispatched -/

lemma dispatched_of_mode (h : (s.cpus c).mode ≠ .scan) : dispatched pol s (.cpu c) = none := by
  simp only [dispatched, if_neg h]

lemma dispatched_of_examined (hm : (s.cpus c).mode = .scan)
    (he : examined pol s c = some p) : dispatched pol s (.cpu c) =
      if (s.ker.procs p).state = .RUNNABLE then some (s.ker.choose pol p) else none := by
  simp only [dispatched, if_pos hm, he]

lemma dispatched_of_none (he : examined pol s c = none) : dispatched pol s (.cpu c) = none := by
  simp only [dispatched, he]
  split <;> rfl

lemma dispatched_some {x : Slot} (h : dispatched pol s a = some x) :
    ∃ c p, a = .cpu c ∧ (s.cpus c).mode = .scan ∧ examined pol s c = some p ∧
      (s.ker.procs p).state = .RUNNABLE ∧ x = s.ker.choose pol p := by
  cases a with
  | cpu c =>
    simp only [dispatched] at h
    split at h
    · next hm =>
      split at h
      · next p he =>
        split at h
        · next hr => cases h; exact ⟨c, p, rfl, hm, he, hr, rfl⟩
        · cases h
      · cases h
    · cases h
  | timer | intr | sys => cases h

lemma step_dispatch_table (hpol : pol ≠ .MLFQ)
    (hm : (s.cpus c).mode = .scan) (he : examined pol s c = some p)
    (hr : (s.ker.procs p).state = .RUNNABLE) (h : step pol s (.cpu c) = .ok s') :
    s' = s.next c (s.ker.dispatch (s.ker.choose pol p)) { s.cpus c with
        proc := some (s.ker.choose pol p), i := (s.ker.choose pol p).val, mode := .resume }
      s.lock := by
  unfold examined at he
  rw [if_neg hpol] at he
  split at he
  · next hi =>
    cases he
    simp only [step, cpuStep, hm, if_neg hpol, scanTable, hi, dite_true, if_pos hr] at h
    exact (Except.ok.inj h).symm
  · cases he

lemma step_dispatch_queue (hm : (s.cpus c).mode = .scan)
    (he : examined .MLFQ s c = some p) (hr : (s.ker.procs p).state = .RUNNABLE)
    (h : step .MLFQ s (.cpu c) = .ok s') :
    s' = s.next c (s.ker.dispatchQueue p) { s.cpus c with proc := some p, mode := .resume } s.lock := by
  unfold examined at he
  rw [if_pos rfl] at he
  split at he
  · next hi =>
    simp only [step, cpuStep, hm, if_true, scanQueue, if_pos hi, he, if_pos hr] at h
    exact (Except.ok.inj h).symm
  · cases he

lemma Waiting.mode (h : Waiting s a c p x k) : (s.cpus c).mode ≠ .scan := by
  cases h with
  | call x hm | woken x hm => rw [hm]; nofun

lemma Waiting.dispatched (h : Waiting s a c p x k) : Xv6.dispatched pol s a = none := by
  cases h with
  | call => rfl
  | woken x hm => exact dispatched_of_mode (by rw [hm]; nofun)

/-! ## wait and waitx -/

lemma waits_waitTurn (hw : waits s a = some (p, x)) (h : step pol s a = .ok s') :
    ∃ c k, Waiting s a c p x k ∧ waitTurn pol s c k p x = .ok s' := by
  have call : ∀ c x, step pol s (.sys c (if x then .waitx else .wait)) = .ok s' →
      (s.cpus c).proc = some p →
      Waiting s (.sys c (if x then .waitx else .wait)) c p x s.ker ∧ waitTurn pol s c s.ker p x = .ok s' := by
    intro c x h hp
    cases hm : (s.cpus c).mode <;> simp only [step, sysStep, hm, hp] at h <;> try cases h
    by_cases hg : (s.ker.procs p).fork ≠ .none ∨ s.lock ≠ none
    · cases x <;> simp only [hg, if_true] at h <;> cases h
    · have hg' := hg
      rw [not_or, not_not, not_not] at hg'
      refine ⟨.call x hm hp hg'.1 hg'.2, ?_⟩
      cases x
      · simpa only [Bool.false_eq_true, hg, if_false] using h
      · simpa only [hg, if_false, if_true] using h
  cases a with
  | cpu c =>
    simp only [waits] at hw
    split at hw
    · next hm =>
      split at hw
      · next q hp =>
        simp only [step, cpuStep, hm, resumeStep, hp] at h
        split at hw
        · next hc => cases hw; simp only [hc] at h; exact ⟨c, _, .woken false hm hp hc, h⟩
        · next hc => cases hw; simp only [hc] at h; exact ⟨c, _, .woken true hm hp hc, h⟩
        · cases hw
      · cases hw
    · cases hw
  | timer => cases hw
  | intr => cases hw
  | sys c op =>
    cases op with
    | wait =>
      obtain ⟨q, hp, e⟩ := map_eq_some_iff.mp hw
      cases e
      exact ⟨c, _, call c false h hp⟩
    | waitx =>
      obtain ⟨q, hp, e⟩ := map_eq_some_iff.mp hw
      cases e
      exact ⟨c, _, call c true h hp⟩
    | _ => cases hw

lemma Waiting.zombieChild (h : Waiting s a c p x k) (q : Slot) : k.zombieChild q = s.ker.zombieChild q := by
  cases h with
  | call => rfl
  | woken =>
    unfold Kernel.zombieChild Kernel.find
    congr 1
    funext r
    rw [Kernel.unchan, Kernel.upd_procs]
    split
    · next e => rw [e]
    · rfl

lemma Waiting.waits (h : Waiting s a c p x k) : Xv6.waits s a = some (p, x) := by
  cases h with
  | call x hm hp =>
    cases x
    · show (s.cpus c).proc.map (·, false) = some (p, false)
      rw [hp]; rfl
    · show (s.cpus c).proc.map (·, true) = some (p, true)
      rw [hp]; rfl
  | woken x hm hp hc => cases x <;> simp [Xv6.waits, hm, hp, hc]

lemma Waiting.reaps (h : Waiting s a c p x k) (hz : k.zombieChild p = some z) : Xv6.reaps s a = some (z, x) := by
  simp only [Xv6.reaps, h.waits, ← h.zombieChild, hz, map_some]

/-- **what `reaps` says is freed, is freed.** -/
theorem reaps_reap (hz : reaps s a = some (z, x))
    (h : step pol s a = .ok s') : ∃ c p k k', Waiting s a c p x k ∧ k.zombieChild p = some z ∧
      k.reap pol x z = .ok k' ∧ s' = s.next c k' { s.cpus c with mode := .run } none := by
  unfold reaps at hz
  split at hz
  · next p x' hw =>
    obtain ⟨z', hz', e⟩ := map_eq_some_iff.mp hz
    cases e
    obtain ⟨c, k, hk, ht⟩ := waits_waitTurn hw h
    have hzk : k.zombieChild p = some z := by rw [hk.zombieChild, hz']
    refine ⟨c, p, k, ?_⟩
    unfold waitTurn at ht
    rw [Kernel.wait_eq, hzk] at ht
    cases hr : k.reap pol x z with
    | error => simp only [hr] at ht; cases ht
    | ok k' => simp only [hr] at ht; cases ht; exact ⟨k', hk, hzk, rfl, rfl⟩
  · cases hz

end Xv6
