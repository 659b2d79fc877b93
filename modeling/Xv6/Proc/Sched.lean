import Xv6.Proc.Life

/-!
# Ageing, the choice of the next process, and the code after `swtch` (`ageing`, `scheduler`)

The four builds of `scheduler` share the frame (choose, `swtch`, clear `c->proc`); here are the
parts that differ, as functions on the kernel:

* `promote`, `ageTurn`   one turn of one of the four loops of `ageing`;
* `choose`               the process the table scan of DEFAULT, PRIORITY or FCFS runs when it
                         meets the RUNNABLE process `p`;
* `sliceOver`, `afterSwtch`   what the five MLFQ loops do with `m_proc` and the index `i` they
                         kept, when `swtch` comes back;
* `charge`               the timer tick booked by `trap`.
-/

namespace Xv6
open Lib Function

namespace Kernel

/-! ## ageing -/

/-- `ticks - p->start > p->waittime`, an unsigned comparison. -/
def waited (k : Kernel) (p : Slot) : Bool :=
  (k.procs p).waittime % 2 ^ 32 < ((k.ticks : Int) - (k.procs p).start) % 2 ^ 32

/-- the body of the loop of `ageing` over the queue below `l`: `current_queue` is decremented
before `rem_process` is called with it. Below 0 the model ends (`Stop.index`); the kernel goes on,
see `Proc/Layout`. -/
def promote (k : Kernel) (l : Fin 4) (p : Slot) : Except Stop Kernel :=
  let cq := (k.procs p).current_queue - 1
  match queueNo cq with
  | none => .error .index
  | some m =>
    let k1 := k.upd p fun r =>
      { r with current_queue := cq, ticks := update r.ticks m 0, start := k.now }
    match k1.push l.castSucc p with
    | .ok k2 => .ok (k2.remProcess (k.procs p).pid cq)
    | .error e => .error e

/-- the turn `i` of the loop of `ageing` over `q_{l+1}`; `none`: the loop has ended. -/
def ageTurn (k : Kernel) (l : Fin 4) (i : Nat) : Except Stop (Option Kernel) :=
  if (i : Int) ≤ (k.queue l.succ).top then
    match (k.queue l.succ).cell i with
    | none => .error .null
    | some p =>
      if (k.procs p).state = .RUNNABLE ∧ k.waited p = true then
        match k.promote l p with
        | .ok k' => .ok (some k')
        | .error e => .error e
      else .ok (some k)
  else .ok none

/-! ## the choice -/

/-- the inner loop of PRIORITY: a strictly smaller value wins. -/
def choosePriority (k : Kernel) (p : Slot) : Slot :=
  (List.finRange NPROC).foldl (fun hp p1 =>
    if (k.procs p1).state = .RUNNABLE ∧ (k.procs p1).priority < (k.procs hp).priority then p1
    else hp) p

/-- the inner loop of FCFS: each candidate is compared with `p`, not with the best so far. -/
def chooseFcfs (k : Kernel) (p : Slot) : Slot :=
  (List.finRange NPROC).foldl (fun mp p2 =>
    if (k.procs p2).state ≠ .RUNNABLE then mp
    else if (k.procs p2).pid ≤ 2 then mp
    else if (k.procs p2).ctime < (k.procs p).ctime then p2
    else mp) p

/-- the process that runs when the table scan is at the RUNNABLE process `p`. -/
def choose (pol : Policy) (k : Kernel) (p : Slot) : Slot :=
  match pol with
  | .PRIORITY => k.choosePriority p
  | .FCFS => k.chooseFcfs p
  | _ => p

/-- `p->state = RUNNING; p->num_run++;` -/
def dispatch (k : Kernel) (p : Slot) : Kernel :=
  k.upd p fun r => { r with state := .RUNNING, num_run := r.num_run + 1 }

/-- the same in the MLFQ loops, which also restart the waiting time. -/
def dispatchQueue (k : Kernel) (p : Slot) : Kernel :=
  k.upd p fun r => { r with start := k.now, state := .RUNNING, num_run := r.num_run + 1 }

/-! ## after swtch -/

/-- the test after `swtch` in the loops over `q0 .. q3`; only `q0` looks at the pid and not at
`killed`. -/
def sliceOver (k : Kernel) (l : Fin 5) (m : Slot) : Bool :=
  if l = 0 then decide (clockperiod 0 ≤ (k.procs m).ticks 0) && decide (3 < (k.procs m).pid)
  else decide (clockperiod l ≤ (k.procs m).ticks l) || (k.procs m).killed

/-- `m_proc->ticks[l] = 0`, and the entry `i` is taken out of `q_l`. -/
def takeOut (k : Kernel) (l : Fin 5) (i : Nat) (m : Slot) : Kernel :=
  (k.setQueue l ((k.queue l).delete i)).upd m fun r =>
    { r with ticks := update r.ticks l 0 }

/-- the code of the loop over `q_l` after `swtch`, for `m_proc = m` and its index `i`. -/
def afterSwtch (k : Kernel) (l : Fin 5) (i : Nat) (m : Slot) : Except Stop Kernel :=
  if l = 4 then
    if (k.procs m).killed then .ok (k.setQueue 4 ((k.queue 4).shift i))
    else
      match (k.queue 4).rotate NPROC i m with
      | some q => .ok (k.setQueue 4 q)
      | none => .error .index
  else if k.sliceOver l m then
    if (k.procs m).killed then .ok (k.takeOut l i m)
    else
      match (k.upd m fun r => { r with current_queue := r.current_queue + 1 }).push (l + 1) m with
      | .ok k1 => .ok (k1.takeOut l i m)
      | .error e => .error e
  else .ok k

/-! ## the timer tick of trap -/

/-- `ticks++` -/
def tick (k : Kernel) : Kernel := { k with ticks := (k.ticks + 1) % 2 ^ 32 }

/-- the tick is booked to `proc`, on CPU 0. With `current_queue` outside of `0 .. 4` the model ends
(`Stop.index`); the kernel goes on, see `Proc/Layout`. -/
def charge (k : Kernel) (p : Slot) : Except Stop Kernel :=
  match (k.procs p).state with
  | .RUNNING =>
    match queueNo (k.procs p).current_queue with
    | none => .error .index
    | some l => .ok (k.upd p fun r =>
        { r with
          rtime := r.rtime + 1, ticks := update r.ticks l (r.ticks l + 1),
          total_ticks := update r.total_ticks l (r.total_ticks l + 1) })
  | .SLEEPING => .ok (k.upd p fun r => { r with iotime := r.iotime + 1 })
  | _ => .ok k

/-- `yield` up to `sched()`. -/
def yield (k : Kernel) (p : Slot) : Kernel :=
  k.upd p fun r => { r with state := .RUNNABLE, start := k.now, context := .yield }

end Kernel
end Xv6
