import Xv6.Lib.ArrQueue
import Mathlib.Algebra.Group.Int.Defs
import Mathlib.Algebra.GroupWithZero.Nat
import Mathlib.Data.Fintype.Basic

/-!
# The process table and the five queues (`proc.h`, head of `proc.c`)

`Proc` is `struct proc`, `Kernel` is what the functions of `proc.c` share: `ptable.proc`, the
arrays `q0 .. q4` with their counters, `ticks`, `nextpid`, `initproc` and the free list of
`kalloc.c`.

* A pointer into `ptable.proc` is a `Slot`; a null pointer is `none`.
* `context` says where the saved kernel context of a process that is not running continues (the
  call of `sched` it is in, or `forkret`); `fork` is how far the process is inside `fork`. Both
  stand for the process's kernel stack.
* A page directory is the list of pages `freevm` gives back.
* `int` fields that only count are integers; `nextpid` and the fields set from `ticks` wrap at
  32 bits (`int32`), and `ticks` is an unsigned 32-bit number.
* Left out: `sz`, `tf`, `ofile`, `cwd`, `active`, `prev`, which no function modelled here reads.
-/

namespace Xv6
open Lib Function

/-- `param.h` -/
abbrev NPROC : Nat := 64
abbrev NOFILE : Nat := 16
abbrev FSSIZE : Nat := 1000

/-- how many values a `uint` has. -/
abbrev UINT : Nat := 2 ^ 32

/-- a pointer into `ptable.proc`. -/
abbrev Slot := Fin NPROC

-- the numerals of `Slot`, of the queues, of the loops of `ageing`, of a machine with one CPU and of buffers
instance nproc_neZero : NeZero NPROC := ⟨by decide⟩
instance five_neZero : NeZero 5 := ⟨by decide⟩
instance four_neZero : NeZero 4 := ⟨by decide⟩
instance one_neZero : NeZero 1 := ⟨by decide⟩
instance buffer_neZero : NeZero 128 := ⟨by decide⟩

/-- a page of `kalloc.c`. -/
abbrev Page := Nat

/-- `enum procstate` -/
inductive ProcState where
  | UNUSED | EMBRYO | SLEEPING | RUNNABLE | RUNNING | ZOMBIE
  deriving DecidableEq, Repr

/-- what a process can sleep on: a process (`wait`), `&ticks`, or any other address. -/
inductive Chan where
  | proc (p : Slot)
  | ticks
  | addr (a : Nat)
  deriving DecidableEq, Repr

/-- where a process continues when the scheduler switches to it. -/
inductive Context where
  | forkret | yield | sleep | wait | waitx
  deriving DecidableEq, Repr

/-- the next thing a process does inside `fork`, for the child `np`. -/
inductive ForkPc where
  | none
  | kalloc (np : Slot)
  | ctime (np : Slot)
  | copyuvm (np : Slot)
  | ready (np : Slot)
  deriving DecidableEq, Repr

/-- `struct proc` -/
structure Proc where
  state : ProcState := .UNUSED
  pid : Int := 0
  parent : Option Slot := none
  chan : Option Chan := none
  killed : Bool := false
  kstack : Option Page := none
  pgdir : Option (List Page) := none
  name : String := ""
  ctime : Int := 0
  etime : Int := 0
  rtime : Int := 0
  iotime : Int := 0
  num_run : Int := 0
  priority : Int := 0
  ticks : Fin 5 → Int := fun _ => 0
  start : Int := 0
  waittime : Int := 0
  current_queue : Int := 0
  total_ticks : Fin 5 → Int := fun _ => 0
  context : Context := .forkret
  fork : ForkPc := .none

/-- the globals of `proc.c`, `ticks` of `trap.c` and `kmem.freelist` of `kalloc.c`. -/
structure Kernel where
  procs : Slot → Proc
  queue : Fin 5 → ArrQueue Slot
  ticks : Nat
  nextpid : Int
  initproc : Slot
  freelist : List Page

/-- why a step of the kernel does not happen: it has to wait (a lock is taken, or it is not this
CPU's next step), it would use an array index out of bounds or a null pointer, or it ends in a
`panic`. -/
inductive Stop where
  | blocked
  | index
  | null
  | panic (msg : String)
  deriving DecidableEq, Repr

/-- the build: `-D $(SCHEDPOLICY)` -/
inductive Policy where
  | DEFAULT | PRIORITY | FCFS | MLFQ
  deriving DecidableEq, Repr

/-- conversion to a 32-bit `int`. -/
def int32 (x : Int) : Int := Int.bmod x (2 ^ 32)

/-- `int clockperiod[5] = {1, 2, 4, 8, 16};` -/
def clockperiod (k : Fin 5) : Int := 2 ^ k.val

namespace Kernel

/-- `ticks` stored into an `int` field. -/
def now (k : Kernel) : Int := int32 k.ticks

/-- changes one process. -/
def upd (k : Kernel) (p : Slot) (f : Proc → Proc) : Kernel :=
  { k with procs := update k.procs p (f (k.procs p)) }

/-- replaces one queue. -/
def setQueue (k : Kernel) (l : Fin 5) (q : ArrQueue Slot) : Kernel :=
  { k with queue := update k.queue l q }

/-- the first process of the table for which `f` holds. -/
def find (k : Kernel) (f : Proc → Bool) : Option Slot :=
  (List.finRange NPROC).find? (fun p => f (k.procs p))

@[simp] lemma upd_same (k : Kernel) (p : Slot) (f : Proc → Proc) :
    (k.upd p f).procs p = f (k.procs p) := update_self ..

lemma upd_of_ne (k : Kernel) {p q : Slot} (f : Proc → Proc) (h : q ≠ p) :
    (k.upd p f).procs q = k.procs q := update_of_ne h ..

lemma upd_procs (k : Kernel) (p q : Slot) (f : Proc → Proc) :
    (k.upd p f).procs q = if q = p then f (k.procs p) else k.procs q := update_apply ..

@[simp] lemma upd_queue (k : Kernel) (p : Slot) (f : Proc → Proc) : (k.upd p f).queue = k.queue := rfl
@[simp] lemma upd_ticks (k : Kernel) (p : Slot) (f : Proc → Proc) : (k.upd p f).ticks = k.ticks := rfl
@[simp] lemma upd_nextpid (k : Kernel) (p : Slot) (f : Proc → Proc) : (k.upd p f).nextpid = k.nextpid := rfl
@[simp] lemma upd_initproc (k : Kernel) (p : Slot) (f : Proc → Proc) : (k.upd p f).initproc = k.initproc := rfl
@[simp] lemma upd_freelist (k : Kernel) (p : Slot) (f : Proc → Proc) : (k.upd p f).freelist = k.freelist := rfl

@[simp] lemma setQueue_procs (k : Kernel) (l : Fin 5) (q : ArrQueue Slot) : (k.setQueue l q).procs = k.procs := rfl
@[simp] lemma setQueue_ticks (k : Kernel) (l : Fin 5) (q : ArrQueue Slot) : (k.setQueue l q).ticks = k.ticks := rfl
@[simp] lemma setQueue_freelist (k : Kernel) (l : Fin 5) (q : ArrQueue Slot) :
    (k.setQueue l q).freelist = k.freelist := rfl
@[simp] lemma setQueue_same (k : Kernel) (l : Fin 5) (q : ArrQueue Slot) :
    (k.setQueue l q).queue l = q := update_self ..

lemma setQueue_of_ne (k : Kernel) {l m : Fin 5} (q : ArrQueue Slot) (h : m ≠ l) :
    (k.setQueue l q).queue m = k.queue m := update_of_ne h ..

lemma find_some {k : Kernel} {f : Proc → Bool} {p : Slot} (h : k.find f = some p) :
    f (k.procs p) = true := List.find?_some (p := fun p => f (k.procs p)) h

end Kernel

/-! ## the queues -/

/-- a queue number held in an `int`. -/
def queueNo (c : Int) : Option (Fin 5) :=
  if h : 0 ≤ c ∧ c < 5 then some ⟨c.toNat, by omega⟩ else none

lemma queueNo_eq {c : Int} {l : Fin 5} (h : queueNo c = some l) : c = l.val := by
  unfold queueNo at h
  split at h
  · next hc =>
    have e := congrArg Fin.val (Option.some.inj h)
    simp only at e
    omega
  · cases h

lemma queueNo_val (l : Fin 5) : queueNo (l.val : Int) = some l := by
  unfold queueNo
  rw [dif_pos (by omega)]
  simp

namespace Kernel

/-- `c_k++; q_k[c_k] = p;`. The model ends at the 65th entry (`Stop.index`); the kernel writes it past
the array and goes on. -/
def push (k : Kernel) (l : Fin 5) (p : Slot) : Except Stop Kernel :=
  match (k.queue l).push NPROC p with
  | some q => .ok (k.setQueue l q)
  | none => .error .index

/-- `rem_process(pid, curq)` -/
def remProcess (k : Kernel) (pid curq : Int) : Kernel :=
  match queueNo curq with
  | some l => k.setQueue l ((k.queue l).rem (fun e => (k.procs e).pid = pid))
  | none => k

lemma push_ok {k k' : Kernel} {l : Fin 5} {p : Slot} (h : k.push l p = .ok k') :
    ∃ q, (k.queue l).push NPROC p = some q ∧ k' = k.setQueue l q := by
  unfold push at h
  split at h
  · next q hq => exact ⟨q, hq, (Except.ok.inj h).symm⟩
  · cases h

@[simp] lemma remProcess_procs (k : Kernel) (pid curq : Int) :
    (k.remProcess pid curq).procs = k.procs := by unfold remProcess; split <;> rfl
@[simp] lemma remProcess_ticks (k : Kernel) (pid curq : Int) :
    (k.remProcess pid curq).ticks = k.ticks := by unfold remProcess; split <;> rfl
@[simp] lemma remProcess_nextpid (k : Kernel) (pid curq : Int) :
    (k.remProcess pid curq).nextpid = k.nextpid := by unfold remProcess; split <;> rfl
@[simp] lemma remProcess_initproc (k : Kernel) (pid curq : Int) :
    (k.remProcess pid curq).initproc = k.initproc := by unfold remProcess; split <;> rfl
@[simp] lemma remProcess_freelist (k : Kernel) (pid curq : Int) :
    (k.remProcess pid curq).freelist = k.freelist := by unfold remProcess; split <;> rfl

end Kernel
end Xv6
