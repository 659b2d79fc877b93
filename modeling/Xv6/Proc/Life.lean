import Xv6.Proc.Table

/-!
# Creating, stopping and reaping processes (`allocproc`, `fork`, `exit`, `wait`, `waitx`,
`sleep`, `wakeup`, `kill`, `set_priority`)

Every function here is the part of its C function between two points at which another CPU can
interfere: a critical section of `ptable.lock`, or an assignment made outside the lock. `fork` is
therefore cut into five parts (`forkStep`), and `wait` is one turn of its `for(;;)` loop.

`copyuvm` is given the number of pages it takes; when there are too few it returns 0 and the
pages it took so far are free again.
-/

namespace Xv6
open Lib

namespace Kernel

/-! ## fork -/

/-- the assignments of `allocproc` at `found:`. -/
def embryo (k : Kernel) (p : Slot) : Kernel :=
  { k.upd p fun r =>
      { r with
        state := .EMBRYO, pid := k.nextpid, current_queue := 0, ticks := fun _ => 0,
        waittime := 5 } with
    nextpid := int32 (k.nextpid + 1) }

/-- `allocproc` up to its first `release`: takes an UNUSED slot and puts it on `q0`. -/
def allocproc (k : Kernel) : Except Stop (Option Slot × Kernel) :=
  match k.find (fun r => r.state = .UNUSED) with
  | none => .ok (none, k)
  | some p =>
    match (k.embryo p).push 0 p with
    | .ok k' => .ok (some p, k')
    | .error e => .error e

/-- `p->kstack = kalloc()`, outside the lock; without a page the slot is given back, but its
entry of `q0` stays. -/
def allocStack (k : Kernel) (cur np : Slot) : Kernel :=
  match k.freelist with
  | [] =>
    (k.upd np fun r => { r with kstack := none, state := .UNUSED }).upd cur fun r =>
      { r with fork := .none }
  | pg :: rest =>
    { (k.upd np fun r => { r with kstack := some pg, context := .forkret, fork := .none }).upd cur
        fun r => { r with fork := .ctime np } with freelist := rest }

/-- the second critical section of `allocproc`, and the priority. -/
def allocTimes (k : Kernel) (cur np : Slot) : Kernel :=
  (k.upd np fun r =>
    { r with
      ctime := k.now, etime := 0, rtime := 0, iotime := 0, num_run := 0,
      priority := if r.pid = 1 ∨ r.pid = 2 then 1 else 60 }).upd cur fun r =>
    { r with fork := .copyuvm np }

/-- `copyuvm` with `need + 1` pages to take, and what `fork` does after it. -/
def forkCopy (k : Kernel) (cur np : Slot) (need : Nat) : Kernel :=
  if need < k.freelist.length then
    let name := (k.procs cur).name
    { (k.upd np fun r =>
        { r with
          pgdir := some (k.freelist.take (need + 1)), parent := some cur, name := name }).upd cur
        fun r => { r with fork := .ready np } with freelist := k.freelist.drop (need + 1) }
  else
    -- kfree(np->kstack); np->kstack = 0; np->state = UNUSED; no lock is held
    { (k.upd np fun r => { r with pgdir := none, kstack := none, state := .UNUSED }).upd cur
        fun r => { r with fork := .none } with
      freelist := (k.procs np).kstack.toList ++ k.freelist }

/-- the last critical section of `fork`. -/
def forkReady (k : Kernel) (cur np : Slot) : Kernel :=
  (k.upd np fun r => { r with state := .RUNNABLE, start := k.now }).upd cur fun r =>
    { r with fork := .none }

/-- the next part of `fork` for the process `cur`. -/
def forkStep (k : Kernel) (cur : Slot) (need : Nat) : Except Stop Kernel :=
  match (k.procs cur).fork with
  | .none =>
    match k.allocproc with
    | .ok (none, k') => .ok k'
    | .ok (some np, k') => .ok (k'.upd cur fun r => { r with fork := .kalloc np })
    | .error e => .error e
  | .kalloc np => .ok (k.allocStack cur np)
  | .ctime np => .ok (k.allocTimes cur np)
  | .copyuvm np => .ok (k.forkCopy cur np need)
  | .ready np => .ok (k.forkReady cur np)

@[simp] lemma embryo_freelist (k : Kernel) (p : Slot) : (k.embryo p).freelist = k.freelist := rfl
@[simp] lemma allocTimes_freelist (k : Kernel) (cur np : Slot) : (k.allocTimes cur np).freelist = k.freelist := rfl
@[simp] lemma forkReady_freelist (k : Kernel) (cur np : Slot) : (k.forkReady cur np).freelist = k.freelist := rfl

/-! ## sleep and wakeup -/

/-- `wakeup1(chan)` -/
def wakeup1 (k : Kernel) (ch : Chan) : Kernel :=
  { k with procs := fun q =>
      if (k.procs q).state = .SLEEPING ∧ (k.procs q).chan = some ch then
        { k.procs q with state := .RUNNABLE, start := k.now }
      else k.procs q }

/-- `p->chan = chan; p->state = SLEEPING;` in `sleep`, called from `ctx`. -/
def sleepOn (k : Kernel) (p : Slot) (ch : Chan) (ctx : Context) : Kernel :=
  k.upd p fun r => { r with chan := some ch, state := .SLEEPING, context := ctx }

/-- `p->chan = 0;` at the end of `sleep`. -/
def unchan (k : Kernel) (p : Slot) : Kernel := k.upd p fun r => { r with chan := none }

/-- `kill(pid)`: the first slot with that pid, whatever its state. -/
def kill (k : Kernel) (pid : Int) : Kernel :=
  match k.find (fun r => r.pid = pid) with
  | some p => k.upd p fun r =>
      if r.state = .SLEEPING then { r with killed := true, start := k.now, state := .RUNNABLE }
      else { r with killed := true }
  | none => k

/-- `set_priority(pid, priority)` -/
def setPriority (k : Kernel) (pid priority : Int) : Kernel :=
  if priority < 0 ∨ 100 < priority then k
  else
    match k.find (fun r => r.pid = pid) with
    | some p => k.upd p fun r => { r with priority := priority }
    | none => k

/-! ## exit -/

/-- "Parent might be sleeping in wait()." -/
def wakeParent (k : Kernel) (cur : Slot) : Kernel :=
  match (k.procs cur).parent with
  | some par => k.wakeup1 (.proc par)
  | none => k

/-- "Pass abandoned children to init." -/
def reparent (k : Kernel) (cur : Slot) : Kernel :=
  { k with procs := fun q =>
      if (k.procs q).parent = some cur then { k.procs q with parent := some k.initproc }
      else k.procs q }

/-- the critical section of `exit`, up to `sched()`. -/
def exit (k : Kernel) (cur : Slot) : Except Stop Kernel :=
  if cur = k.initproc then .error (.panic "init exiting")
  else
    let k1 := k.wakeParent cur
    let k2 := k1.reparent cur
    -- the loop wakes init at each abandoned child that is a ZOMBIE
    let k3 := if ∃ q, (k1.procs q).parent = some cur ∧ (k1.procs q).state = .ZOMBIE then
      k2.wakeup1 (.proc k.initproc) else k2
    .ok (k3.upd cur fun r => { r with state := .ZOMBIE, etime := k.now })

/-! ## wait and waitx -/

/-- one turn of the loop of `wait`: a child was reaped and its pid is returned (with the two
times, for `waitx`), or -1 is returned, or the caller goes to sleep. -/
inductive WaitResult where
  | reaped (pid : Int) (times : Option (Int × Int)) (k : Kernel)
  | fail
  | block

/-- `kfree(p->kstack); p->kstack = 0; freevm(p->pgdir);` -/
def freeProc (k : Kernel) (z : Slot) : Except Stop Kernel :=
  match (k.procs z).kstack, (k.procs z).pgdir with
  | some st, some pd =>
    .ok { k.upd z fun r => { r with kstack := none } with freelist := pd ++ st :: k.freelist }
  | none, _ => .error (.panic "kfree")
  | some _, none => .error (.panic "freevm: no pgdir")

/-- the assignments that make the slot of a reaped child free. -/
def clearSlot (k : Kernel) (z : Slot) : Kernel :=
  k.upd z fun r =>
    { r with pid := 0, parent := none, name := "", killed := false, state := .UNUSED }

/-- the ZOMBIE child that `wait` and `waitx` find first. -/
def zombieChild (k : Kernel) (cur : Slot) : Option Slot :=
  k.find (fun r => decide (r.parent = some cur) && decide (r.state = .ZOMBIE))

/-- `!havekids || curproc->killed` -/
def giveUp (k : Kernel) (cur : Slot) : Bool :=
  (k.find (fun r => r.parent = some cur)).isNone || (k.procs cur).killed

/-- `wait()` -/
def wait (pol : Policy) (k : Kernel) (cur : Slot) : Except Stop WaitResult :=
  match k.zombieChild cur with
  | some z =>
    let r := k.procs z
    match k.freeProc z with
    | .ok k1 =>
      let k2 := if pol = .MLFQ then k1.remProcess r.pid r.current_queue else k1
      .ok (.reaped r.pid none (k2.clearSlot z))
    | .error e => .error e
  | none => if k.giveUp cur then .ok .fail else .ok .block

/-- `waitx(wtime, rtime)`: the call of `rem_process` is commented out. -/
def waitx (k : Kernel) (cur : Slot) : Except Stop WaitResult :=
  match k.zombieChild cur with
  | some z =>
    let r := k.procs z
    match k.freeProc z with
    | .ok k1 =>
      .ok (.reaped r.pid (some (r.etime - r.ctime - r.rtime - r.iotime, r.rtime)) (k1.clearSlot z))
    | .error e => .error e
  | none => if k.giveUp cur then .ok .fail else .ok .block

/-- the code of `wait` (or of `waitx`, for `x = true`) that frees the ZOMBIE `z`. -/
def reap (pol : Policy) (x : Bool) (k : Kernel) (z : Slot) : Except Stop Kernel :=
  match k.freeProc z with
  | .ok k1 => .ok ((if pol = .MLFQ ∧ x = false then
      k1.remProcess (k.procs z).pid (k.procs z).current_queue else k1).clearSlot z)
  | .error e => .error e

/-- `wait` and `waitx` in one: they search the same child and differ in `reap` and in the times. -/
theorem wait_eq (pol : Policy) (x : Bool) (k : Kernel) (p : Slot) :
    (if x = true then k.waitx p else k.wait pol p) =
      match k.zombieChild p with
      | some z =>
        match k.reap pol x z with
        | .ok k' => .ok (.reaped (k.procs z).pid (if x = true then
            some ((k.procs z).etime - (k.procs z).ctime - (k.procs z).rtime - (k.procs z).iotime,
              (k.procs z).rtime) else none) k')
        | .error e => .error e
      | none => if k.giveUp p then .ok .fail else .ok .block := by
  unfold waitx wait reap
  cases k.zombieChild p with
  | none => cases x <;> rfl
  | some z =>
    simp only
    cases k.freeProc z with
    | error => cases x <;> rfl
    | ok => cases x <;> simp

/-! ## what the parts of fork and the reaping of a child do -/

lemma zombieChild_spec {k : Kernel} {p z : Slot} (h : k.zombieChild p = some z) :
    (k.procs z).parent = some p ∧ (k.procs z).state = .ZOMBIE := by
  have := find_some h
  simpa only [Bool.and_eq_true, decide_eq_true_eq] using this

/-- everything one part of `fork` can do. -/
inductive ForkCase (k : Kernel) (p : Slot) (need : Nat) : Kernel → Prop
  | full (hf : (k.procs p).fork = .none) (hn : k.find (fun r => r.state = .UNUSED) = none) :
      ForkCase k p need k
  | alloc {np : Slot} {q : ArrQueue Slot} (hf : (k.procs p).fork = .none)
      (hn : k.find (fun r => r.state = .UNUSED) = some np)
      (hu : (k.procs np).state = .UNUSED) (hq : (k.queue 0).push NPROC np = some q) :
      ForkCase k p need (((k.embryo np).setQueue 0 q).upd p fun r => { r with fork := .kalloc np })
  | noStack {np : Slot} (hf : (k.procs p).fork = .kalloc np) (hl : k.freelist = []) :
      ForkCase k p need ((k.upd np fun r => { r with kstack := none, state := .UNUSED }).upd p fun r =>
          { r with fork := .none })
  | stack {np : Slot} {pg : Page} {rest : List Page} (hf : (k.procs p).fork = .kalloc np)
      (hl : k.freelist = pg :: rest) :
      ForkCase k p need { (k.upd np fun r =>
          { r with kstack := some pg, context := .forkret, fork := .none }).upd p
        fun r => { r with fork := .ctime np } with freelist := rest }
  | times {np : Slot} (hf : (k.procs p).fork = .ctime np) : ForkCase k p need (k.allocTimes p np)
  | copy {np : Slot} (hf : (k.procs p).fork = .copyuvm np) (hn : need < k.freelist.length) :
      ForkCase k p need { (k.upd np fun r =>
        { r with
          pgdir := some (k.freelist.take (need + 1)), parent := some p,
          name := (k.procs p).name }).upd p
        fun r => { r with fork := .ready np } with freelist := k.freelist.drop (need + 1) }
  | noCopy {np : Slot} (hf : (k.procs p).fork = .copyuvm np) (hn : ¬ need < k.freelist.length) :
      ForkCase k p need { (k.upd np fun r =>
          { r with pgdir := none, kstack := none, state := .UNUSED }).upd p
        fun r => { r with fork := .none } with
        freelist := (k.procs np).kstack.toList ++ k.freelist }
  | ready {np : Slot} (hf : (k.procs p).fork = .ready np) : ForkCase k p need (k.forkReady p np)

lemma forkStep_case {k k' : Kernel} {p : Slot} {need : Nat} (h : k.forkStep p need = .ok k') :
    ForkCase k p need k' := by
  unfold forkStep at h
  split at h
  · next hf =>
    unfold allocproc at h
    cases hn : k.find (fun r => r.state = .UNUSED) with
    | none => simp only [hn] at h; cases h; exact .full hf hn
    | some np =>
      simp only [hn] at h
      have hu : (k.procs np).state = .UNUSED := by simpa using find_some hn
      cases hp : (k.embryo np).push 0 np with
      | error => simp only [hp] at h; cases h
      | ok =>
        simp only [hp] at h
        cases h
        obtain ⟨q, hq, rfl⟩ := push_ok hp
        exact .alloc hf hn hu hq
  · next np hf =>
    cases h
    unfold allocStack
    cases hl : k.freelist with
    | nil => exact .noStack hf hl
    | cons => exact .stack hf hl
  · next np hf => cases h; exact .times hf
  · next np hf =>
    cases h
    unfold forkCopy
    split
    · next hn => exact .copy hf hn
    · next hn => exact .noCopy hf hn
  · next np hf => cases h; exact .ready hf

/-- what `reap` leaves: the pages are free, the slot is clear, and in the MLFQ build `wait` (but
not `waitx`) has called `rem_process`. -/
theorem reap_ok {pol : Policy} {x : Bool} {k k' : Kernel} {z : Slot}
    (h : k.reap pol x z = .ok k') :
    ∃ st pd, (k.procs z).kstack = some st ∧ (k.procs z).pgdir = some pd ∧
      (∀ q, q ≠ z → k'.procs q = k.procs q) ∧
      k'.procs z = { k.procs z with
        kstack := none, pid := 0, parent := none, name := "", killed := false,
        state := .UNUSED } ∧
      k'.queue = (if pol = .MLFQ ∧ x = false then
        k.remProcess (k.procs z).pid (k.procs z).current_queue else k).queue ∧
      k'.ticks = k.ticks ∧ k'.nextpid = k.nextpid ∧ k'.initproc = k.initproc ∧
      k'.freelist = pd ++ st :: k.freelist := by
  unfold reap freeProc at h
  cases hst : (k.procs z).kstack with
  | none => simp only [hst] at h; cases h
  | some st =>
    cases hpd : (k.procs z).pgdir with
    | none => simp only [hst, hpd] at h; cases h
    | some pd =>
      simp only [hst, hpd] at h
      cases h
      refine ⟨st, pd, rfl, rfl, fun q hq => ?_, ?_, ?_, ?_⟩
      · unfold clearSlot
        rw [upd_of_ne _ _ hq]
        split <;> simp [upd_of_ne _ _ hq]
      · unfold clearSlot
        rw [upd_same]
        split <;> simp
      · -- `rem_process` compares pids, and the pid of `z` is not cleared yet
        have hpid : ∀ e, ((k.upd z fun r => { r with kstack := none }).procs e).pid = (k.procs e).pid := by
          intro e
          rw [upd_procs]
          split
          · next he => rw [he]
          · rfl
        unfold clearSlot
        rw [upd_queue]
        split
        · unfold remProcess
          split
          · simp [setQueue, hpid]
          · rfl
        · rfl
      · unfold clearSlot
        split <;> simp

end Kernel
end Xv6
