import Xv6.Proc.Machine

/-!
# `ticks[current_queue]` outside of the array

`ageing` and the timer tick of `trap` index `ticks` and `total_ticks` with `current_queue` and do
not test it. A promotion leaves the process in its queue, so that one that waits in `q1` is
promoted again, and `current_queue` becomes negative. `step` ends the run there (`Stop.index`);
the compiled kernel goes on with the word of `struct proc` that it addresses:

    c                  -6        -5      -4     -3      -2        -1
    ticks[c]           ctime     etime   rtime  iotime  num_run   priority
    total_ticks[c]     ticks[4]  active  prev   start   waittime  current_queue

* `Proc.ticksBelow`, `Proc.totalBelow`   the two accesses;
* `promoteBelow`, `chargeBelow`          `promote` and `charge` with them;
* `stepOn`                               the machine that goes on, as long as `-6 ≤ c`;
* `inRange`                              the step uses no index outside of `0 .. 4`;
* `Run.of_stepOn`                        runs of such steps are runs of `step`.
-/

namespace Xv6
open Lib

/-- `ticks[c]` for `c < 0`, changed by `f`. -/
def Proc.ticksBelow (r : Proc) (c : Int) (f : Int → Int) : Option Proc :=
  if c = -1 then some { r with priority := f r.priority }
  else if c = -2 then some { r with num_run := f r.num_run }
  else if c = -3 then some { r with iotime := f r.iotime }
  else if c = -4 then some { r with rtime := f r.rtime }
  else if c = -5 then some { r with etime := f r.etime }
  else if c = -6 then some { r with ctime := f r.ctime }
  else none

/-- `total_ticks[c]++` for `c < 0`; `prev` and `active` are not kept. -/
def Proc.totalBelow (r : Proc) (c : Int) : Proc :=
  if c = -1 then { r with current_queue := r.current_queue + 1 }
  else if c = -2 then { r with waittime := r.waittime + 1 }
  else if c = -3 then { r with start := r.start + 1 }
  else if c = -6 then { r with ticks := Function.update r.ticks 4 (r.ticks 4 + 1) }
  else r

namespace Kernel

/-- `promote` with `current_queue` below 0: `rem_process` finds no such queue, and the new entry
stays. -/
def promoteBelow (k : Kernel) (l : Fin 4) (p : Slot) : Except Stop Kernel :=
  let cq := (k.procs p).current_queue - 1
  match Proc.ticksBelow { k.procs p with current_queue := cq } cq fun _ => 0 with
  | none => .error .index
  | some r =>
    match (k.upd p fun _ => { r with start := k.now }).push l.castSucc p with
    | .ok k2 => .ok (k2.remProcess r.pid cq)
    | .error e => .error e

/-- `charge` with `current_queue` below 0. -/
def chargeBelow (k : Kernel) (p : Slot) : Except Stop Kernel :=
  let cq := (k.procs p).current_queue
  match Proc.ticksBelow { k.procs p with rtime := (k.procs p).rtime + 1 } cq (· + 1) with
  | none => .error .index
  | some r => .ok (k.upd p fun _ => r.totalBelow cq)

end Kernel

variable {n : Nat} {pol : Policy} {s s' : State n} {tr : Trace n}

/-- the process whose `ticks[current_queue]` the step uses, and the index. -/
def indexes (s : State n) : Action n → Option (Slot × Int)
  | .cpu c =>
    match (s.cpus c).mode, (s.cpus c).proc with
    | .age l i, _ =>
      if (i : Int) ≤ (s.ker.queue l.succ).top then
        ((s.ker.queue l.succ).cell i).bind fun p =>
          if (s.ker.procs p).state = .RUNNABLE ∧ s.ker.waited p = true then
            some (p, (s.ker.procs p).current_queue - 1)
          else none
      else none
    | .tickCharge _, some p =>
      if (s.ker.procs p).state = .RUNNING then some (p, (s.ker.procs p).current_queue) else none
    | _, _ => none
  | _ => none

/-- the step uses `ticks` inside of its bounds. -/
def inRange (s : State n) (a : Action n) : Bool :=
  (indexes s a).all fun x => 0 ≤ x.2 ∧ x.2 ≤ 4

/-- one step of the kernel, which goes on where `current_queue` is negative. -/
def stepOn (pol : Policy) (s : State n) (a : Action n) : Except Stop (State n) :=
  if inRange s a then step pol s a
  else
    match a, indexes s a with
    | .cpu c, some (p, _) =>
      let cpu := s.cpus c
      match cpu.mode with
      | .age l i =>
        match s.ker.promoteBelow l p with
        | .ok k => .ok (s.next c k { cpu with mode := .age l (i + 1) } s.lock)
        | .error e => .error e
      | .tickCharge u =>
        match s.ker.chargeBelow p with
        | .ok k => .ok (s.next c k { cpu with mode := .trapTail u } s.lock)
        | .error e => .error e
      | _ => .error .index
    | _, _ => .error .index

/-- a run whose steps stay in range is one of the machine that stops. -/
theorem Run.of_stepOn (h : Path (stepOn pol) s tr s') (hq : ∀ e ∈ tr, inRange e.1 e.2 = true) : Run pol s tr s' := by
  induction h with
  | nil => exact .nil _
  | cons hs _ ih =>
    unfold stepOn at hs
    rw [if_pos (hq _ List.mem_cons_self)] at hs
    exact .cons hs (ih fun e he => hq e (List.mem_cons_of_mem _ he))

end Xv6
