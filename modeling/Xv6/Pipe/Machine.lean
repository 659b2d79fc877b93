import Xv6.Proc.Table
import Xv6.Lib.Path
import Xv6.Lib.Ring

/-!
# Pipes (`pipe.c`, with `sleep`, `wakeup` and `kill` of `proc.c`)

Any number of processes call `pipewrite`, `piperead` and `pipeclose` on one pipe, and `kill` each
other. A process runs on any CPU, and everything that another CPU can see between two of its
accesses is a state of its own: `step p` is

* one `acquire` or `release` of `p->lock`,
* one turn of a loop under `p->lock` (at most one byte is moved; the counters are `uint`s),
* one `wakeup`, which takes `ptable.lock`, makes every sleeper on the channel RUNNABLE and gives it
  back,
* one part of `sleep(chan, &p->lock)`: it takes `ptable.lock` (`sleep`), gives `p->lock` back
  (`unlock`), becomes SLEEPING and gives `ptable.lock` back through the scheduler (`doze`), and when it
  is RUNNABLE again runs and takes `p->lock` once more (`ready`, `enter`).

A lock is held by at most one process; who cannot have it waits (`blocked`).
-/

namespace Xv6.Pipe
open Lib Function

abbrev PIPESIZE : Nat := 512

instance pipesize_neZero : NeZero PIPESIZE := ⟨by decide⟩

/-- `&p->nread` and `&p->nwrite` as channels. -/
inductive Chan where
  | nread
  | nwrite
  deriving DecidableEq

/-- a call in progress; `pipewrite` has stored the first `i` bytes. -/
inductive Op where
  | write (src : List UInt8) (i : Nat)
  | read (n : Nat)
  | close (writable : Bool)
  deriving DecidableEq

/-- what the call returns: -1, `n` of `pipewrite`, the bytes of `piperead`. -/
inductive Ret where
  | failed
  | wrote (n : Nat)
  | got (bytes : List UInt8)
  | closed
  deriving DecidableEq

/-- what comes after a `wakeup`. -/
inductive Next where
  | sleep (o : Op)
  | leave (r : Ret)
  deriving DecidableEq

inductive Pc where
  | idle
  | enter (o : Op)
  | loop (o : Op)
  | copy (n : Nat) (got : List UInt8)
  | wakeup (ch : Chan) (k : Next)
  | sleep (o : Op)
  | unlock (o : Op)
  | doze (o : Op)
  | asleep (o : Op)
  | ready (o : Op)
  | leave (r : Ret)
  deriving DecidableEq

def Next.pc : Next → Pc
  | .sleep o => .sleep o
  | .leave r => .leave r

/-- the channel on which a call sleeps. -/
def Op.chan : Op → Option Chan
  | .write _ _ => some .nwrite
  | .read _ => some .nread
  | .close _ => none

inductive Call where
  | write (src : List UInt8)
  | read (n : Nat)
  | close (writable : Bool)
  deriving DecidableEq

def Call.op : Call → Op
  | .write src => .write src 0
  | .read n => .read n
  | .close w => .close w

/-- `struct pipe`, the owners of the two locks, and for each process `killed` and where it is. -/
structure State (ι : Type) where
  lock : Option ι
  ptlock : Option ι
  data : Fin PIPESIZE → UInt8
  nread : Nat
  nwrite : Nat
  readopen : Bool
  writeopen : Bool
  freed : Bool
  killed : ι → Bool
  pc : ι → Pc

inductive Label (ι : Type) where
  | call (p : ι) (c : Call)
  | step (p : ι)
  | kill (p : ι)
  deriving DecidableEq

abbrev Trace (ι : Type) := List (State ι × Label ι)

variable {ι : Type} [DecidableEq ι] {s s' : State ι} {a : Label ι} {p : ι}

/-- what `pipealloc` leaves: `data` and `killed` are as they were. -/
def State.pipealloc (data : Fin PIPESIZE → UInt8) (killed : ι → Bool) : State ι :=
  ⟨none, none, data, 0, 0, true, true, false, killed, fun _ => .idle⟩

def State.empty (s : State ι) : Prop := s.nread = s.nwrite

/-- `p->nwrite == p->nread + PIPESIZE` -/
def State.full (s : State ι) : Prop := s.nwrite = (s.nread + PIPESIZE) % UINT

instance : Decidable s.empty := inferInstanceAs (Decidable (s.nread = s.nwrite))

instance : Decidable s.full := inferInstanceAs (Decidable (s.nwrite = (s.nread + PIPESIZE) % UINT))

def State.goto (s : State ι) (p : ι) (pc : Pc) : State ι :=
  { s with pc := update s.pc p pc }

/-- a SLEEPING process becomes RUNNABLE. -/
def Pc.rouse : Pc → Pc
  | .asleep o => .ready o
  | pc => pc

/-- whether the process is SLEEPING on `ch`. -/
def Pc.sleeps (ch : Chan) : Pc → Bool
  | .asleep o => o.chan = some ch
  | _ => false

/-- `wakeup1(ch)` -/
def wakeup1 (ch : Chan) (pc : ι → Pc) : ι → Pc :=
  fun q => if (pc q).sleeps ch then (pc q).rouse else pc q

/-- `p->data[p->nwrite++ % PIPESIZE] = x` -/
def State.put (s : State ι) (x : UInt8) : State ι :=
  { s with data := update s.data (Ring.place PIPESIZE s.nwrite) x
           nwrite := (s.nwrite + 1) % UINT }

/-- `p->data[p->nread++ % PIPESIZE]` -/
def State.front (s : State ι) : UInt8 := s.data (Ring.place PIPESIZE s.nread)

def State.drop (s : State ι) : State ι := { s with nread := (s.nread + 1) % UINT }

/-- a turn of the two loops of `pipewrite`; the test of the inner one comes before every byte. -/
def writeTurn (s : State ι) (p : ι) (src : List UInt8) (i : Nat) : State ι :=
  match src[i]? with
  | none => s.goto p (.wakeup .nread (.leave (.wrote src.length)))
  | some x =>
    if s.full then
      if s.readopen = false ∨ s.killed p then s.goto p (.leave .failed)
      else s.goto p (.wakeup .nread (.sleep (.write src i)))
    else (s.put x).goto p (.loop (.write src (i + 1)))

/-- a turn of the first loop of `piperead`. -/
def readTurn (s : State ι) (p : ι) (n : Nat) : State ι :=
  if s.empty ∧ s.writeopen then
    if s.killed p then s.goto p (.leave .failed) else s.goto p (.sleep (.read n))
  else s.goto p (.copy n [])

/-- a turn of the second loop of `piperead`. -/
def copyTurn (s : State ι) (p : ι) (n : Nat) (got : List UInt8) : State ι :=
  if got.length < n ∧ ¬ s.empty then s.drop.goto p (.copy n (got ++ [s.front]))
  else s.goto p (.wakeup .nwrite (.leave (.got got)))

/-- the assignment of `pipeclose`. -/
def shut (s : State ι) (p : ι) (writable : Bool) : State ι :=
  if writable then { s.goto p (.wakeup .nread (.leave .closed)) with writeopen := false }
  else { s.goto p (.wakeup .nwrite (.leave .closed)) with readopen := false }

/-- whether `pipeclose` gives the page back. -/
def State.frees (s : State ι) (r : Ret) : Bool := r = .closed ∧ s.readopen = false ∧ s.writeopen = false

def turn (s : State ι) (p : ι) : Except Stop (State ι) :=
  match s.pc p with
  | .idle => .error .blocked
  | .enter o => if s.lock = none then .ok { s.goto p (.loop o) with lock := some p } else .error .blocked
  | .loop (.write src i) => .ok (writeTurn s p src i)
  | .loop (.read n) => .ok (readTurn s p n)
  | .loop (.close w) => .ok (shut s p w)
  | .copy n got => .ok (copyTurn s p n got)
  | .wakeup ch k =>
    if s.ptlock = none then .ok { s with pc := update (wakeup1 ch s.pc) p k.pc }
    else .error .blocked
  | .sleep o =>
    if s.ptlock = none then .ok { s.goto p (.unlock o) with ptlock := some p } else .error .blocked
  | .unlock o => .ok { s.goto p (.doze o) with lock := none }
  | .doze o => .ok { s.goto p (.asleep o) with ptlock := none }
  | .asleep _ => .error .blocked
  | .ready o => if s.ptlock = none then .ok (s.goto p (.enter o)) else .error .blocked
  | .leave r => .ok { s.goto p .idle with lock := none, freed := s.freed || s.frees r }

def step (s : State ι) : Label ι → Except Stop (State ι)
  | .call p c =>
    if s.pc p = .idle ∧ s.freed = false then .ok (s.goto p (.enter c.op)) else .error .blocked
  | .step p => turn s p
  | .kill p =>
    if s.ptlock = none then
      .ok { s with killed := update s.killed p true
                   pc := update s.pc p (s.pc p).rouse }
    else .error .blocked

/-! ## every step -/

/-- every way in which a label can lead from `s` to another state. -/
inductive Trans (s : State ι) : Label ι → State ι → Prop
  | call {p : ι} {c : Call} (hp : s.pc p = .idle) : Trans s (.call p c) (s.goto p (.enter c.op))
  | enter {p : ι} {o : Op} (hp : s.pc p = .enter o) (hl : s.lock = none) :
      Trans s (.step p) { s.goto p (.loop o) with lock := some p }
  | wrote {p : ι} {src : List UInt8} {i : Nat} (hp : s.pc p = .loop (.write src i))
      (hi : src.length ≤ i) :
      Trans s (.step p) (s.goto p (.wakeup .nread (.leave (.wrote src.length))))
  | quit {p : ι} {src : List UInt8} {i : Nat} (hp : s.pc p = .loop (.write src i))
      (hi : i < src.length) (hf : s.full) (hk : s.readopen = false ∨ s.killed p = true) :
      Trans s (.step p) (s.goto p (.leave .failed))
  | wait {p : ι} {src : List UInt8} {i : Nat} (hp : s.pc p = .loop (.write src i))
      (hi : i < src.length) (hf : s.full) (ho : s.readopen = true) :
      Trans s (.step p) (s.goto p (.wakeup .nread (.sleep (.write src i))))
  | put {p : ι} {src : List UInt8} {i : Nat} {x : UInt8} (hp : s.pc p = .loop (.write src i))
      (hi : src[i]? = some x) (hf : ¬ s.full) :
      Trans s (.step p) ((s.put x).goto p (.loop (.write src (i + 1))))
  | giveUp {p : ι} {n : Nat} (hp : s.pc p = .loop (.read n)) :
      Trans s (.step p) (s.goto p (.leave .failed))
  | hungry {p : ι} {n : Nat} (hp : s.pc p = .loop (.read n)) (he : s.empty)
      (ho : s.writeopen = true) : Trans s (.step p) (s.goto p (.sleep (.read n)))
  | read {p : ι} {n : Nat} (hp : s.pc p = .loop (.read n)) :
      Trans s (.step p) (s.goto p (.copy n []))
  | take {p : ι} {n : Nat} {got : List UInt8} (hp : s.pc p = .copy n got) (he : ¬ s.empty) :
      Trans s (.step p) (s.drop.goto p (.copy n (got ++ [s.front])))
  | copied {p : ι} {n : Nat} {got : List UInt8} (hp : s.pc p = .copy n got) :
      Trans s (.step p) (s.goto p (.wakeup .nwrite (.leave (.got got))))
  | shutWrite {p : ι} (hp : s.pc p = .loop (.close true)) :
      Trans s (.step p) { s.goto p (.wakeup .nread (.leave .closed)) with writeopen := false }
  | shutRead {p : ι} (hp : s.pc p = .loop (.close false)) :
      Trans s (.step p) { s.goto p (.wakeup .nwrite (.leave .closed)) with readopen := false }
  | wakeup {p : ι} {ch : Chan} {k : Next} (hp : s.pc p = .wakeup ch k) (hl : s.ptlock = none) :
      Trans s (.step p) { s with pc := update (wakeup1 ch s.pc) p k.pc }
  | sleep {p : ι} {o : Op} (hp : s.pc p = .sleep o) (hl : s.ptlock = none) :
      Trans s (.step p) { s.goto p (.unlock o) with ptlock := some p }
  | unlock {p : ι} {o : Op} (hp : s.pc p = .unlock o) :
      Trans s (.step p) { s.goto p (.doze o) with lock := none }
  | doze {p : ι} {o : Op} (hp : s.pc p = .doze o) :
      Trans s (.step p) { s.goto p (.asleep o) with ptlock := none }
  | ready {p : ι} {o : Op} (hp : s.pc p = .ready o) (hl : s.ptlock = none) :
      Trans s (.step p) (s.goto p (.enter o))
  | leave {p : ι} {r : Ret} (hp : s.pc p = .leave r) :
      Trans s (.step p) { s.goto p .idle with lock := none, freed := s.freed || s.frees r }
  | kill {p : ι} (hl : s.ptlock = none) :
      Trans s (.kill p) { s with killed := update s.killed p true
                                 pc := update s.pc p (s.pc p).rouse }

lemma writeTurn_trans {src : List UInt8} {i : Nat} (hp : s.pc p = .loop (.write src i)) :
    Trans s (.step p) (writeTurn s p src i) := by
  unfold writeTurn
  split
  · next hi => exact .wrote hp (List.getElem?_eq_none_iff.mp hi)
  · next x hi =>
    have hlt : i < src.length := (List.getElem?_eq_some_iff.mp hi).1
    split
    · next hf =>
      split
      · next hk => exact .quit hp hlt hf hk
      · next hk => exact .wait hp hlt hf (by simpa using not_or.mp hk |>.1)
    · next hf => exact .put hp hi hf

lemma readTurn_trans {n : Nat} (hp : s.pc p = .loop (.read n)) : Trans s (.step p) (readTurn s p n) := by
  unfold readTurn
  split
  · next he =>
    split
    · exact .giveUp hp
    · exact .hungry hp he.1 he.2
  · exact .read hp

lemma copyTurn_trans {n : Nat} {got : List UInt8} (hp : s.pc p = .copy n got) :
    Trans s (.step p) (copyTurn s p n got) := by
  unfold copyTurn
  split
  · next h => exact .take hp h.2
  · exact .copied hp

lemma shut_trans {w : Bool} (hp : s.pc p = .loop (.close w)) : Trans s (.step p) (shut s p w) := by
  cases w with
  | true => exact .shutWrite hp
  | false => exact .shutRead hp

lemma turn_trans (h : turn s p = .ok s') : Trans s (.step p) s' := by
  unfold turn at h
  split at h
  · cases h
  · next o hp =>
    split at h
    · next hl => cases h; exact .enter hp hl
    · cases h
  · next src i hp => cases h; exact writeTurn_trans hp
  · next n hp => cases h; exact readTurn_trans hp
  · next w hp => cases h; exact shut_trans hp
  · next n got hp => cases h; exact copyTurn_trans hp
  · next ch k hp =>
    split at h
    · next hl => cases h; exact .wakeup hp hl
    · cases h
  · next o hp =>
    split at h
    · next hl => cases h; exact .sleep hp hl
    · cases h
  · next o hp => cases h; exact .unlock hp
  · next o hp => cases h; exact .doze hp
  · cases h
  · next o hp =>
    split at h
    · next hl => cases h; exact .ready hp hl
    · cases h
  · next r hp => cases h; exact .leave hp

lemma step_trans (h : step s a = .ok s') : Trans s a s' := by
  cases a with
  | call =>
    unfold step at h
    dsimp only at h
    split at h
    · next hp => cases h; exact .call hp.1
    · cases h
  | step => exact turn_trans h
  | kill =>
    unfold step at h
    dsimp only at h
    split at h
    · next hl => cases h; exact .kill hl
    · cases h

end Xv6.Pipe
