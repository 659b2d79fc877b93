import Xv6.Proc.Table
import Xv6.Lib.Path

/-!
# `sleep` and `wakeup` (`proc.c`), and the sleep-locks (`sleeplock.c`)

Processes `ι` run on CPUs `κ`; a spin lock is held by a CPU. They share a value `σ` that the lock `lk`
protects, and a condition on it:

    consumer:   acquire(lk);  while(!cond) sleep(chan, lk);  use the value;  release(lk);
    producer:   acquire(lk);  make cond true;  wakeup(chan) before or after release(lk).

`lk` may be `ptable.lock`: then `sleep` does not change locks, and the producer calls `wakeup1` under it
(as `exit` does) or `wakeup` after it.

`step c` is one `acquire`, one `release` or one critical section of what CPU `c` runs: a process, or the
scheduler. `sched` leaves CPU and `ptable.lock` to the scheduler, which gives the lock back or runs
another process with it (`run`), and this one gives it back. A process without locks can be preempted at any
place (`timer`), and `kill` makes a sleeper RUNNABLE.
-/

set_option linter.unusedSectionVars false

namespace Xv6.Sleep
open Lib Function

/-- the spin locks: `ptable.lock`, and another one. -/
inductive Lock where
  | ptable
  | other
  deriving DecidableEq

/-- when a producer wakes the sleepers: by `wakeup` before or after `release(lk)`, or by `wakeup1`, when
`lk` is `ptable.lock`. -/
inductive When where
  | before
  | after
  | inside
  deriving DecidableEq

/-- what a producer does to the value. -/
structure Producer {σ : Type} (cond : σ → Bool) where
  make : σ → σ
  makes : ∀ v, cond (make v) = true

inductive Pc (ι : Type) {σ : Type} (cond : σ → Bool) where
  | user
  | enter (f : σ → σ)
  | test (f : σ → σ)
  | sleep (f : σ → σ)
  | unlock (f : σ → σ)
  | doze (f : σ → σ)
  | woken (f : σ → σ)
  | relock (f : σ → σ)
  | slept (f : σ → σ)
  | leave
  | produce (g : Producer cond) (w : When)
  | set (g : Producer cond) (w : When)
  | first
  /-- `wakeup`; `release(lk)` follows if `r`. -/
  | wakeup (r : Bool)
  | scan (r : Bool)
  | woke (r : Bool)
  | wakeup1
  | kill (q : ι)
  | rouse (q : ι)
  | killed
  /-- `yield`, and where the process goes on afterwards. -/
  | preempt (k : Pc ι cond)
  | yield (k : Pc ι cond)
  | resume (k : Pc ι cond)

/-- what a CPU runs: its scheduler, with or without `ptable.lock`, or a process. -/
inductive Cpu (ι : Type) where
  | sched (locked : Bool)
  | proc (p : ι)
  deriving DecidableEq

structure State (ι κ : Type) {σ : Type} (cond : σ → Bool) where
  lock : Lock → Option κ
  val : σ
  state : ι → ProcState
  /-- `p->chan == chan` -/
  chan : ι → Bool
  pc : ι → Pc ι cond
  cpu : κ → Cpu ι

inductive Label (ι κ : Type) {σ : Type} (cond : σ → Bool) where
  | step (c : κ)
  | run (c : κ) (p : ι)
  | consume (c : κ) (f : σ → σ)
  | produce (c : κ) (g : Producer cond) (w : When)
  | kill (c : κ) (q : ι)
  | timer (c : κ)

variable {ι κ σ : Type} [DecidableEq ι] [DecidableEq κ] {cond : σ → Bool} {s s' : State ι κ cond} {c : κ}

namespace State

/-- every process is new and starts in `forkret`, which gives `ptable.lock` back. -/
def boot (v : σ) : State ι κ cond :=
  ⟨fun _ => none, v, fun _ => .RUNNABLE, fun _ => false, fun _ => .resume .user, fun _ => .sched false⟩

def goto (s : State ι κ cond) (p : ι) (k : Pc ι cond) : State ι κ cond :=
  { s with pc := update s.pc p k }

def acquire (s : State ι κ cond) (c : κ) (x : Lock) : Except Stop (State ι κ cond) :=
  if s.lock x = some c then .error (.panic "acquire")
  else if s.lock x = none then .ok { s with lock := update s.lock x (some c) }
  else .error .blocked

def release (s : State ι κ cond) (c : κ) (x : Lock) : Except Stop (State ι κ cond) :=
  if s.lock x = some c then .ok { s with lock := update s.lock x none }
  else .error (.panic "release")

/-- `sched`; `ncli` counts the locks that the CPU holds. -/
def sched (s : State ι κ cond) (c : κ) (p : ι) : Except Stop (State ι κ cond) :=
  if s.lock .ptable ≠ some c then .error (.panic "sched ptable.lock")
  else if s.lock .other = some c then .error (.panic "sched locks")
  else if s.state p = .RUNNING then .error (.panic "sched running")
  else .ok { s with cpu := update s.cpu c (.sched true) }

/-- `wakeup1(chan)` -/
def wakeup1 (s : State ι κ cond) : State ι κ cond :=
  { s with state := fun p => if s.state p = .SLEEPING ∧ s.chan p = true then .RUNNABLE else s.state p }

end State

/-- one step of the process `p` on `c`. -/
def turn (lk : Lock) (s : State ι κ cond) (c : κ) (p : ι) : Except Stop (State ι κ cond) :=
  match s.pc p with
  | .user => .error .blocked
  | .enter f => (s.acquire c lk).map (·.goto p (.test f))
  | .test f =>
    if cond s.val then .ok ({ s with val := f s.val }.goto p .leave) else .ok (s.goto p (.sleep f))
  | .sleep f =>
    if lk = .ptable then .ok (s.goto p (.doze f)) else (s.acquire c .ptable).map (·.goto p (.unlock f))
  | .unlock f => (s.release c lk).map (·.goto p (.doze f))
  | .doze f =>
    { s.goto p (.woken f) with
      chan := update s.chan p true
      state := update s.state p .SLEEPING }.sched c p
  | .woken f =>
    if lk = .ptable then .ok { s.goto p (.slept f) with chan := update s.chan p false }
    else (State.release { s with chan := update s.chan p false } c .ptable).map (·.goto p (.relock f))
  | .relock f => (s.acquire c lk).map (·.goto p (.slept f))
  | .slept f => .ok (s.goto p (.test f))
  | .leave => (s.release c lk).map (·.goto p .user)
  | .produce g w => (s.acquire c lk).map (·.goto p (.set g w))
  | .set g w =>
    .ok ({ s with val := g.make s.val }.goto p (match w with
        | .before => .wakeup true
        | .after => .first
        | .inside => .wakeup1))
  | .first => (s.release c lk).map (·.goto p (.wakeup false))
  | .wakeup r => (s.acquire c .ptable).map (·.goto p (.scan r))
  | .scan r => .ok (s.wakeup1.goto p (.woke r))
  | .woke r => (s.release c .ptable).map (·.goto p (if r then .leave else .user))
  | .wakeup1 => .ok (s.wakeup1.goto p .leave)
  | .kill q => (s.acquire c .ptable).map (·.goto p (.rouse q))
  | .rouse q =>
    .ok { s.goto p .killed with
          state := if s.state q = .SLEEPING then update s.state q .RUNNABLE else s.state }
  | .killed => (s.release c .ptable).map (·.goto p .user)
  | .preempt k => (s.acquire c .ptable).map (·.goto p (.yield k))
  | .yield k => { s.goto p (.resume k) with state := update s.state p .RUNNABLE }.sched c p
  | .resume k => (s.release c .ptable).map (·.goto p k)

/-- the process on `c` begins something. -/
def call (s : State ι κ cond) (c : κ) (k : Pc ι cond) : Except Stop (State ι κ cond) :=
  match s.cpu c with
  | .proc p =>
    match s.pc p with
    | .user => .ok (s.goto p k)
    | _ => .error .blocked
  | .sched _ => .error .blocked

def step (lk : Lock) (s : State ι κ cond) : Label ι κ cond → Except Stop (State ι κ cond)
  | .step c =>
    match s.cpu c with
    | .proc p => turn lk s c p
    | .sched false =>
      (s.acquire c .ptable).map fun s => { s with cpu := update s.cpu c (.sched true) }
    | .sched true =>
      (s.release c .ptable).map fun s => { s with cpu := update s.cpu c (.sched false) }
  | .run c p =>
    if s.cpu c = .sched true ∧ s.state p = .RUNNABLE then
      .ok { s with state := update s.state p .RUNNING, cpu := update s.cpu c (.proc p) }
    else .error .blocked
  | .consume c f => call s c (.enter f)
  | .produce c g w => if w = .inside ∧ lk = .other then .error .blocked else call s c (.produce g w)
  | .kill c q => call s c (.kill q)
  | .timer c =>
    match s.cpu c with
    | .proc p =>
      -- with a lock held interrupts are off
      if s.lock .ptable = some c ∨ s.lock .other = some c then .error .blocked
      else .ok (s.goto p (.preempt (s.pc p)))
    | .sched _ => .error .blocked

/-! ## `sleeplock.c` -/

/-- `struct sleeplock`; its spin lock is `lk`. -/
structure Sleeplock where
  locked : Bool
  pid : Nat

def Sleeplock.free (l : Sleeplock) : Bool := !l.locked

/-- `acquiresleep` is a consumer: `while(lk->locked) sleep(lk, &lk->lk)`. -/
def acquiresleep (c : κ) (pid : Nat) : Label ι κ Sleeplock.free := .consume c fun _ => ⟨true, pid⟩

/-- `releasesleep` is a producer, with `wakeup` before `release`. -/
def releasesleep (c : κ) : Label ι κ Sleeplock.free := .produce c ⟨fun _ => ⟨false, 0⟩, fun _ => rfl⟩ .before

/-! ## what the locks do -/

lemma map_ok {α β ε : Type} {f : α → β} {m : Except ε α} {b : β} (h : m.map f = .ok b) :
    ∃ a, m = .ok a ∧ f a = b := by
  cases m with
  | error => cases h
  | ok a => exact ⟨a, rfl, Except.ok.inj h⟩

lemma acquire_ok {x : Lock} (h : s.acquire c x = .ok s') :
    s.lock x = none ∧ s' = { s with lock := update s.lock x (some c) } := by
  unfold State.acquire at h
  split_ifs at h with h1 h2
  cases h
  exact ⟨h2, rfl⟩

lemma release_ok {x : Lock} (h : s.release c x = .ok s') : s' = { s with lock := update s.lock x none } := by
  unfold State.release at h
  split_ifs at h with h1
  cases h
  rfl

lemma sched_ok {p : ι} (h : s.sched c p = .ok s') : s' = { s with cpu := update s.cpu c (.sched true) } := by
  unfold State.sched at h
  split_ifs at h
  cases h
  rfl

lemma call_ok {k : Pc ι cond} (h : call s c k = .ok s') :
    ∃ p, s.cpu c = .proc p ∧ s.pc p = .user ∧ s' = s.goto p k := by
  unfold call at h
  split at h
  · next p hc =>
    split at h
    · next hp =>
      cases h
      exact ⟨p, hc, hp, rfl⟩
    · cases h
  · cases h

end Xv6.Sleep
