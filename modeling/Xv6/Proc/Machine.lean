import Xv6.Proc.Sched
import Xv6.Lib.Path

/-!
# The machine: CPUs that share the kernel and `ptable.lock`

A CPU is in the code of `scheduler`, or it runs a process; `Mode` says where it is. The lock is
held from the `acquire` of a scheduler pass through `swtch` into the process, which releases it,
and from the `acquire` of a process that gives up the CPU through `sched` back into the scheduler:

* `idle`         top of the `for(;;)` of `scheduler`, interrupts on;
* `age l i`      inside `ageing`, before the turn `i` of the loop over `q_{l+1}`;     (lock held)
* `scan`         before the loop test of `scheduler`, at `lvl` and `i`;               (lock held)
* `resume`       `swtch` has entered the process;                                     (lock held)
* `run`          the process runs, in user mode or in the kernel;
* `tickWake`, `tickCharge`, `trapTail`   inside `trap` for a timer interrupt;
* `back`         `swtch` has come back to `scheduler`.                                (lock held)

`lvl` and `i` are the scheduler's own variables, kept on its stack across `swtch`: the loop it is
in and the index `i` (for the table scan, the position of `p`). `m_proc` is `proc` until the
scheduler clears it.

One step (`step`) is one critical section, one turn of a loop under the lock, or one access made
outside the lock. A running process may take any system call at any time; that a killed process
leaves the kernel only through `exit` restricts it further and is not used.
-/

namespace Xv6
open Lib Function List

inductive Mode where
  | idle
  | age (l : Fin 4) (i : Nat)
  | scan
  | resume
  | run
  | tickWake (user : Bool)
  | tickCharge (user : Bool)
  | trapTail (user : Bool)
  | back
  deriving DecidableEq, Repr

/-- `ptable.lock` is held in this mode. -/
def Mode.locked : Mode → Bool
  | .age _ _ => true
  | .scan => true
  | .resume => true
  | .back => true
  | _ => false

/-- `struct cpu` and the local variables of its `scheduler`. -/
structure Cpu where
  proc : Option Slot := none
  lvl : Fin 5 := 0
  i : Nat := 0
  mode : Mode := .idle

structure State (n : Nat) where
  ker : Kernel
  cpus : Fin n → Cpu
  lock : Option (Fin n)

variable {n : Nat} {npages need : Nat}

/-- CPU `c` goes on to `cpu`, with the kernel and the lock it leaves. -/
def State.next (s : State n) (c : Fin n) (ker : Kernel) (cpu : Cpu) (lock : Option (Fin n)) :
    State n :=
  ⟨ker, update s.cpus c cpu, lock⟩

/-- what the process on a CPU can do. -/
inductive Op where
  | fork (need : Nat)
  | exit
  | wait
  | waitx
  | kill (pid : Int)
  | sleep (ch : Chan)
  | wakeup (ch : Chan)
  | setPriority (pid priority : Int)
  deriving DecidableEq, Repr

inductive Action (n : Nat) where
  | cpu (c : Fin n)
  | timer (c : Fin n) (user : Bool)
  | intr (c : Fin n) (ch : Chan)
  | sys (c : Fin n) (op : Op)
  deriving DecidableEq, Repr

/-- the steps of a run, each with the state before it. -/
abbrev Trace (n : Nat) := List (State n × Action n)

/-! ## the scheduler -/

/-- `mode` at the start of a pass. -/
def firstMode (pol : Policy) : Mode := if pol = .MLFQ then .age 0 0 else .scan

/-- after the loop of `ageing` over `q_{l+1}`. -/
def ageNext (cpu : Cpu) (l : Fin 4) : Cpu :=
  if l = 3 then { cpu with lvl := 0, i := 0, mode := .scan } else { cpu with mode := .age (l + 1) 0 }

def ageStep (s : State n) (c : Fin n) (l : Fin 4) (i : Nat) : Except Stop (State n) :=
  match s.ker.ageTurn l i with
  | .ok (some k) => .ok (s.next c k { s.cpus c with mode := .age l (i + 1) } s.lock)
  | .ok none => .ok (s.next c s.ker (ageNext (s.cpus c) l) s.lock)
  | .error e => .error e

/-- the loops over `q0 .. q4`. -/
def scanQueue (s : State n) (c : Fin n) : Except Stop (State n) :=
  let cpu := s.cpus c
  if (cpu.i : Int) ≤ (s.ker.queue cpu.lvl).top then
    match (s.ker.queue cpu.lvl).cell cpu.i with
    | none => .error .null
    | some p =>
      if (s.ker.procs p).state = .RUNNABLE then
        .ok (s.next c (s.ker.dispatchQueue p) { cpu with proc := some p, mode := .resume } s.lock)
      else .ok (s.next c s.ker { cpu with i := cpu.i + 1 } s.lock)
  else if cpu.lvl = 4 then .ok (s.next c s.ker { cpu with mode := .idle } none)
  else .ok (s.next c s.ker { cpu with lvl := cpu.lvl + 1, i := 0 } s.lock)

/-- the loop over `ptable.proc`; the chosen process becomes the loop variable `p`. -/
def scanTable (pol : Policy) (s : State n) (c : Fin n) : Except Stop (State n) :=
  let cpu := s.cpus c
  if h : cpu.i < NPROC then
    let p : Slot := ⟨cpu.i, h⟩
    if (s.ker.procs p).state = .RUNNABLE then
      let p' := s.ker.choose pol p
      .ok (s.next c (s.ker.dispatch p') { cpu with proc := some p', i := p'.val, mode := .resume } s.lock)
    else .ok (s.next c s.ker { cpu with i := cpu.i + 1 } s.lock)
  else .ok (s.next c s.ker { cpu with mode := .idle } none)

/-- the scheduler goes on after `swtch`: `c->proc = 0`, the MLFQ code, and `i++`. -/
def backStep (pol : Policy) (s : State n) (c : Fin n) : Except Stop (State n) :=
  let cpu := s.cpus c
  match cpu.proc with
  | none => .error .blocked
  | some m =>
    let cpu' := { cpu with proc := none, i := cpu.i + 1, mode := .scan }
    if pol = .MLFQ then
      match s.ker.afterSwtch cpu.lvl cpu.i m with
      | .ok k => .ok (s.next c k cpu' s.lock)
      | .error e => .error e
    else .ok (s.next c s.ker cpu' s.lock)

/-! ## the process -/

/-- a turn of the loop of `wait` (or `waitx`) by `p` on `c`, which holds the lock. -/
def waitTurn (pol : Policy) (s : State n) (c : Fin n) (k : Kernel) (p : Slot) (x : Bool) :
    Except Stop (State n) :=
  match (if x then k.waitx p else k.wait pol p) with
  | .ok (.reaped _ _ k') => .ok (s.next c k' { s.cpus c with mode := .run } none)
  | .ok .fail => .ok (s.next c k { s.cpus c with mode := .run } none)
  | .ok .block =>
    .ok (s.next c (k.sleepOn p (.proc p) (if x then .waitx else .wait)) { s.cpus c with mode := .back } (some c))
  | .error e => .error e

/-- the process goes on after `swtch`. -/
def resumeStep (pol : Policy) (s : State n) (c : Fin n) : Except Stop (State n) :=
  let cpu := s.cpus c
  match cpu.proc with
  | none => .error .blocked
  | some p =>
    match (s.ker.procs p).context with
    | .forkret => .ok (s.next c s.ker { cpu with mode := .run } none)
    | .yield => .ok (s.next c s.ker { cpu with mode := .run } none)
    | .sleep => .ok (s.next c (s.ker.unchan p) { cpu with mode := .run } none)
    | .wait => waitTurn pol s c (s.ker.unchan p) p false
    | .waitx => waitTurn pol s c (s.ker.unchan p) p true

/-- the parts of `fork` that acquire `ptable.lock`. -/
def ForkPc.locks : ForkPc → Bool
  | .kalloc _ => false
  | .copyuvm _ => false
  | _ => true

/-- the process on `c` runs `op`. -/
def sysStep (pol : Policy) (s : State n) (c : Fin n) (op : Op) : Except Stop (State n) :=
  let cpu := s.cpus c
  match cpu.mode, cpu.proc with
  | .run, some p =>
    let pc := (s.ker.procs p).fork
    match op with
    | .fork need =>
      if pc.locks = true ∧ s.lock ≠ none then .error .blocked
      else
        match s.ker.forkStep p need with
        | .ok k => .ok (s.next c k cpu s.lock)
        | .error e => .error e
    | _ =>
      -- the other calls are not made from inside fork, and all take the lock
      if pc ≠ .none ∨ s.lock ≠ none then .error .blocked
      else
        match op with
        | .fork _ => .error .blocked
        | .exit =>
          match s.ker.exit p with
          | .ok k => .ok (s.next c k { cpu with mode := .back } (some c))
          | .error e => .error e
        | .wait => waitTurn pol s c s.ker p false
        | .waitx => waitTurn pol s c s.ker p true
        | .kill pid => .ok (s.next c (s.ker.kill pid) cpu none)
        | .sleep ch =>
          .ok (s.next c (s.ker.sleepOn p ch .sleep) { cpu with mode := .back } (some c))
        | .wakeup ch => .ok (s.next c (s.ker.wakeup1 ch) cpu none)
        | .setPriority pid v => .ok (s.next c (s.ker.setPriority pid v) cpu none)
  | _, _ => .error .blocked

/-! ## interrupts -/

/-- the mode in which a CPU goes on after an interrupt. -/
def Cpu.afterTrap (cpu : Cpu) : Mode := if cpu.proc = none then .idle else .run

/-- a timer interrupt arrives; only CPU 0 counts it. -/
def timerStep (s : State n) (c : Fin n) (user : Bool) : Except Stop (State n) :=
  let cpu := s.cpus c
  if cpu.mode = .idle ∨ cpu.mode = .run then
    if c.val = 0 then .ok (s.next c s.ker.tick { cpu with mode := .tickWake user } s.lock)
    else .ok (s.next c s.ker { cpu with mode := .trapTail user } s.lock)
  else .error .blocked

/-- `wakeup(&ticks)` in `trap`. -/
def tickWakeStep (s : State n) (c : Fin n) (user : Bool) : Except Stop (State n) :=
  if s.lock = none then
    .ok (s.next c (s.ker.wakeup1 .ticks) { s.cpus c with mode := .tickCharge user } none)
  else .error .blocked

/-- the tick is booked to the interrupted process. -/
def tickChargeStep (s : State n) (c : Fin n) (user : Bool) : Except Stop (State n) :=
  let cpu' := { s.cpus c with mode := .trapTail user }
  match (s.cpus c).proc with
  | none => .ok (s.next c s.ker cpu' s.lock)
  | some p =>
    match s.ker.charge p with
    | .ok k => .ok (s.next c k cpu' s.lock)
    | .error e => .error e

/-- the end of `trap`: a killed process in user mode goes to `exit`, every other running process
yields, except in the FCFS build. -/
def trapTailStep (pol : Policy) (s : State n) (c : Fin n) (user : Bool) : Except Stop (State n) :=
  let cpu := s.cpus c
  match cpu.proc with
  | none => .ok (s.next c s.ker { cpu with mode := cpu.afterTrap } s.lock)
  | some p =>
    if ((s.ker.procs p).killed ∧ user) ∨ pol = .FCFS ∨ (s.ker.procs p).state ≠ .RUNNING then
      .ok (s.next c s.ker { cpu with mode := cpu.afterTrap } s.lock)
    else if s.lock = none then
      .ok (s.next c (s.ker.yield p) { cpu with mode := .back } (some c))
    else .error .blocked

/-- a device interrupt handler calls `wakeup(ch)`. -/
def intrStep (s : State n) (c : Fin n) (ch : Chan) : Except Stop (State n) :=
  let cpu := s.cpus c
  if (cpu.mode = .idle ∨ cpu.mode = .run) ∧ s.lock = none then
    .ok (s.next c (s.ker.wakeup1 ch) cpu none)
  else .error .blocked

/-! ## one step -/

/-- the next step of CPU `c` in its own code. -/
def cpuStep (pol : Policy) (s : State n) (c : Fin n) : Except Stop (State n) :=
  match (s.cpus c).mode with
  | .idle =>
    if s.lock = none then
      .ok (s.next c s.ker { s.cpus c with lvl := 0, i := 0, mode := firstMode pol } (some c))
    else .error .blocked
  | .age l i => ageStep s c l i
  | .scan => if pol = .MLFQ then scanQueue s c else scanTable pol s c
  | .resume => resumeStep pol s c
  | .run => .error .blocked
  | .tickWake u => tickWakeStep s c u
  | .tickCharge u => tickChargeStep s c u
  | .trapTail u => trapTailStep pol s c u
  | .back => backStep pol s c

def step (pol : Policy) (s : State n) : Action n → Except Stop (State n)
  | .cpu c => cpuStep pol s c
  | .timer c u => timerStep s c u
  | .intr c ch => intrStep s c ch
  | .sys c op => sysStep pol s c op

/-! ## the first state -/

/-- the kernel before `userinit`: all memory zero, `npages` pages on the free list. -/
def emptyKernel (npages : Nat) : Kernel where
  procs := fun _ => {}
  queue := fun _ => .empty
  ticks := 0
  nextpid := 1
  initproc := 0
  freelist := range npages

/-- `userinit`, whose address space takes `need + 1` pages. -/
def userinit (k : Kernel) (need : Nat) : Except Stop Kernel :=
  match k.allocproc with
  | .ok (some p, k1) =>
    let k2 := k1.allocStack p p
    if (k2.procs p).kstack = none then .error .null
    else
      let k3 := k2.allocTimes p p
      if need < k3.freelist.length then
        .ok { k3.upd p fun r =>
          { r with
            pgdir := some (k3.freelist.take (need + 1)), name := "initcode", state := .RUNNABLE,
            start := k3.now, fork := .none } with
          initproc := p, freelist := k3.freelist.drop (need + 1) }
      else .error (.panic "userinit: out of memory?")
  | .ok (none, _) => .error .null
  | .error e => .error e

/-- the kernel that `userinit` leaves. -/
def firstKernel (npages need : Nat) : Kernel where
  procs := update (fun _ => {}) 0
    { state := .RUNNABLE, pid := 1, kstack := some 0,
      pgdir := some (((range npages).drop 1).take (need + 1)), name := "initcode",
      priority := 1, waittime := 5 }
  queue := update (fun _ => .empty) 0 ⟨update (fun _ => none) 0 (some 0), 0⟩
  ticks := 0
  nextpid := 2
  initproc := 0
  freelist := ((range npages).drop 1).drop (need + 1)

lemma allocproc_empty (npages : Nat) : (emptyKernel npages).allocproc =
    .ok (some 0, ((emptyKernel npages).embryo 0).setQueue 0 ⟨update (fun _ => none) 0 (some 0), 0⟩) := by
  have h : (emptyKernel npages).find (fun r => r.state = .UNUSED) = some 0 := rfl
  unfold Kernel.allocproc
  rw [h]
  rfl

lemma userinit_emptyKernel (m need : Nat) : userinit (emptyKernel (m + 1)) need =
    if need < m then .ok (firstKernel (m + 1) need)
    else .error (.panic "userinit: out of memory?") := by
  have hl : ((range (m + 1)).drop 1).length = m := by simp
  have hf : (((emptyKernel (m + 1)).embryo 0).setQueue 0
      ⟨update (fun _ => none) 0 (some 0), 0⟩).freelist = 0 :: (range (m + 1)).drop 1 := by
    show range (m + 1) = _
    rw [range_succ_eq_map]
    rfl
  unfold userinit
  rw [allocproc_empty]
  simp only [Kernel.allocStack, hf]
  simp only [Kernel.allocTimes, Kernel.upd_same]
  rw [if_neg nofun]
  by_cases hn : need < m
  · simp only [Kernel.upd_freelist, hl, hn, if_true]
    congr 1
    simp [firstKernel, Kernel.upd, Kernel.embryo, Kernel.setQueue, emptyKernel, Kernel.now, int32]
  · simp only [Kernel.upd_freelist, hl, hn, if_false]

/-- after `main`: the first process is RUNNABLE and every CPU enters `scheduler`. -/
def Boot (npages need : Nat) (s : State n) : Prop :=
  ∃ k, userinit (emptyKernel npages) need = .ok k ∧ s = ⟨k, fun _ => {}, none⟩

/-- the state in which the machine starts. -/
def firstState (npages need : Nat) : State n := ⟨firstKernel npages need, fun _ => {}, none⟩

lemma Boot.eq {s : State n} (h : Boot npages need s) : need + 2 ≤ npages ∧ s = firstState npages need := by
  obtain ⟨k, hk, rfl⟩ := h
  cases npages with
  | zero => cases hk
  | succ =>
    rw [userinit_emptyKernel] at hk
    split at hk
    · cases hk; exact ⟨by omega, rfl⟩
    · cases hk

lemma boot_firstState (h : need + 2 ≤ npages) : Boot npages need (firstState npages need : State n) := by
  obtain ⟨m, rfl⟩ : ∃ m, npages = m + 1 := ⟨npages - 1, by omega⟩
  exact ⟨_, by rw [userinit_emptyKernel, if_pos (by omega)], rfl⟩

section
variable (npages need : Nat)

@[simp] lemma firstKernel_init : (firstKernel npages need).procs 0 =
    { state := .RUNNABLE, pid := 1, kstack := some 0,
      pgdir := some (((range npages).drop 1).take (need + 1)), name := "initcode",
      priority := 1, waittime := 5 } := by simp [firstKernel]

lemma firstKernel_others {q : Slot} (h : q ≠ 0) : (firstKernel npages need).procs q = {} := by simp [firstKernel, h]

@[simp] lemma firstKernel_queue_zero : (firstKernel npages need).queue 0 =
    ⟨update (fun _ => none) 0 (some 0), 0⟩ := by simp [firstKernel]

lemma firstKernel_queue_ne {l : Fin 5} (h : l ≠ 0) :
    (firstKernel npages need).queue l = .empty := by simp [firstKernel, h]

end

/-- runs of the machine. They end at `Stop.index`: where an entry does not fit its queue, or
`current_queue` is an index outside of `0 .. 4`. The kernel writes outside the array there and goes
on; no result over `Run` speaks of what follows. -/
abbrev Run (pol : Policy) : State n → Trace n → State n → Prop := Path (step pol)

/-- a run from the first state, by execution. -/
theorem Boot.exists_run {st : State n → Action n → Except Stop (State n)}
    {P : Trace n → State n → Prop} [∀ tr t, Decidable (P tr t)]
    (hn : need + 2 ≤ npages) (l : List (Action n))
    (h : runsTo st (firstState npages need) l (fun tr t => P tr t) = true) :
    ∃ s s' tr, Boot npages need s ∧ Path st s tr s' ∧ P tr s' := by
  obtain ⟨tr, t, hp, ht⟩ := Path.of_labels l h
  exact ⟨_, t, tr, boot_firstState hn, hp, ht⟩

/-- the same for the part of the run between two of its steps. -/
theorem Boot.exists_between {pol : Policy}
    {P : State n × Action n → Trace n → State n × Action n → Prop}
    [∀ e0 mid e1, Decidable (P e0 mid e1)] (hn : need + 2 ≤ npages) (l : List (Action n)) (i j : Nat)
    (h : runsBetween (step pol) (firstState npages need) l i j (fun e0 mid e1 => P e0 mid e1) = true) :
    ∃ s s' pre mid post e0 e1, Boot npages need s ∧ Run pol s (pre ++ e0 :: mid ++ e1 :: post) s' ∧ P e0 mid e1 := by
  obtain ⟨t, pre, mid, post, e0, e1, hp, ht⟩ := Path.of_runsBetween h
  exact ⟨_, t, pre, mid, post, e0, e1, boot_firstState hn, hp, ht⟩

/-! ## labels for runs on one CPU -/

/-- `k` steps of the CPU in its own code. -/
def turns (k : Nat) : List (Action 1) := replicate k (.cpu 0)

/-- all of `fork`. -/
def forkAll : List (Action 1) := replicate 5 (.sys 0 (.fork 0))

/-- a timer interrupt that arrives in kernel mode, up to the switch to the scheduler. -/
def tickYield : List (Action 1) := .timer 0 false :: turns 3

/-- in the MLFQ build: init forks pids 2, 3 and 4 and waits, pids 2 and 3 sleep, and pid 4 (slot 3)
uses up its slice of `q0` and is moved to `q1`; 39 steps. -/
def fourInQ1 : List (Action 1) :=
  turns 7 ++ forkAll ++ forkAll ++ forkAll ++ [.sys 0 .wait] ++ turns 3 ++
    [.sys 0 (.sleep (.addr 1))] ++ turns 3 ++ [.sys 0 (.sleep (.addr 1))] ++ turns 3 ++ tickYield ++
    turns 1

end Xv6
