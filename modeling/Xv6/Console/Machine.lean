import Xv6.Proc.Table
import Xv6.Lib.Path
import Xv6.Lib.Ring

/-!
# The console (`consoleintr` and `consoleread` of `console.c`)

Keyboard and serial interrupts hand keys to `consoleintr`, and any number of processes call
`consoleread`; both hold `cons.lock` while they look at `input`. A context `ι` is a process or an
interrupt handler, and `step p` is what `p` does between two looks of the others at `input`:

* it takes `cons.lock`, or gives it back at the end;
* `consoleintr` handles one key (`Input.key`), and calls `wakeup(&input.r)` when the key has committed
  a line;
* `consoleread` takes one byte, or sleeps on `&input.r`, which gives `cons.lock` back.

The indices of `input` are `uint`s that run on; the buffer is a ring.
-/

namespace Xv6.Console
open Lib Function

abbrev INPUT_BUF : Nat := 128

/-- `C('D')`, `C('H')`, `C('P')` and `C('U')`. -/
abbrev ctrlD : UInt8 := 4
abbrev ctrlH : UInt8 := 8
abbrev ctrlP : UInt8 := 16
abbrev ctrlU : UInt8 := 21
abbrev newline : UInt8 := 10
abbrev cr : UInt8 := 13
abbrev delete : UInt8 := 127

/-- `input` -/
structure Input where
  buf : Fin INPUT_BUF → UInt8
  r : Nat
  w : Nat
  e : Nat

namespace Input

/-- `input.buf[k % INPUT_BUF]` -/
def get (x : Input) (k : Nat) : UInt8 := x.buf (Ring.place INPUT_BUF k)

/-- `input.e - 1` -/
def last (x : Input) : Nat := (UINT - 1 + x.e) % UINT

/-- `input.e--` -/
def erase (x : Input) : Input := { x with e := x.last }

/-- the loop of `C('U')`: the line is erased from its end. -/
def killLine : Nat → Input → Input
  | 0, x => x
  | k + 1, x => if x.e ≠ x.w ∧ x.get x.last ≠ newline then killLine k x.erase else x

/-- `input.buf[input.e++ % INPUT_BUF] = c` -/
def put (x : Input) (c : UInt8) : Input :=
  { x with buf := update x.buf (Ring.place INPUT_BUF x.e) c, e := (x.e + 1) % UINT }

/-- does the byte that was put last commit the line? -/
def commits (x : Input) (c : UInt8) : Bool :=
  c = newline ∨ c = ctrlD ∨ x.e = (x.r + INPUT_BUF) % UINT

/-- a key that is not a control key, and whether it has committed a line. -/
def type (x : Input) (c : UInt8) : Input × Bool :=
  if c ≠ 0 ∧ Ring.fill UINT x.r x.e < INPUT_BUF then
    let c := if c = cr then newline else c
    let x := x.put c
    if x.commits c then ({ x with w := x.e }, true) else (x, false)
  else (x, false)

/-- one turn of the loop of `consoleintr`; the line has at most `INPUT_BUF` bytes. -/
def key (x : Input) (c : UInt8) : Input × Bool :=
  if c = ctrlP then (x, false)
  else if c = ctrlU then (x.killLine INPUT_BUF, false)
  else if c = ctrlH ∨ c = delete then (if x.e ≠ x.w then x.erase else x, false)
  else x.type c

end Input

/-- a call in progress: `consoleintr` with the keys that `getc` will return, and `consoleread` with
`target` and `n`. -/
inductive Op where
  | intr (keys : List UInt8)
  | read (target n : Nat)
  deriving DecidableEq

inductive Pc where
  | idle
  | enter (o : Op)
  | loop (o : Op)
  | wakeup (keys : List UInt8)
  | asleep (target n : Nat)
  | ready (target n : Nat)
  | leave (r : Int)
  deriving DecidableEq

structure State (ι : Type) where
  lock : Option ι
  input : Input
  killed : ι → Bool
  pc : ι → Pc

inductive Label (ι : Type) where
  | intr (p : ι) (keys : List UInt8)
  | read (p : ι) (n : Nat)
  | step (p : ι)
  | kill (p : ι)
  deriving DecidableEq

abbrev Trace (ι : Type) := List (State ι × Label ι)

variable {ι : Type} [DecidableEq ι] {s s' : State ι} {a : Label ι}

def State.boot (killed : ι → Bool) : State ι := ⟨none, ⟨fun _ => 0, 0, 0, 0⟩, killed, fun _ => .idle⟩

def State.goto (s : State ι) (p : ι) (pc : Pc) : State ι := { s with pc := update s.pc p pc }

/-- a process that sleeps on `&input.r` becomes RUNNABLE. -/
def Pc.rouse : Pc → Pc
  | .asleep target n => .ready target n
  | pc => pc

/-- one key; with a line committed, `wakeup(&input.r)` is next. -/
def intrTurn (s : State ι) (p : ι) (c : UInt8) (keys : List UInt8) : State ι :=
  { s.goto p (if (s.input.key c).2 then .wakeup keys else .loop (.intr keys)) with
    input := (s.input.key c).1 }

/-- `*dst++ = c` was done: a turn ends with a newline, or goes on. -/
def gave (target n : Nat) (c : UInt8) : Pc :=
  if c = newline then .leave (target - (n - 1 : Nat)) else .loop (.read target (n - 1))

/-- a turn of `consoleread`. -/
def readTurn (s : State ι) (p : ι) (target n : Nat) : State ι :=
  if n = 0 then s.goto p (.leave (target - n))
  else if s.input.r = s.input.w then
    if s.killed p then s.goto p (.leave (-1)) else { s.goto p (.asleep target n) with lock := none }
  else if s.input.get s.input.r = ctrlD then
    if n < target then s.goto p (.leave (target - n))
    else { s.goto p (.leave (target - n)) with
           input := { s.input with r := (s.input.r + 1) % UINT } }
  else { s.goto p (gave target n (s.input.get s.input.r)) with
         input := { s.input with r := (s.input.r + 1) % UINT } }

def turn (s : State ι) (p : ι) : Except Stop (State ι) :=
  match s.pc p with
  | .idle => .error .blocked
  | .enter o => if s.lock = none then .ok { s.goto p (.loop o) with lock := some p } else .error .blocked
  | .loop (.intr []) => .ok { s.goto p .idle with lock := none }
  | .loop (.intr (c :: keys)) => .ok (intrTurn s p c keys)
  | .loop (.read target n) => .ok (readTurn s p target n)
  | .wakeup keys => .ok { s with pc := update (fun q => (s.pc q).rouse) p (.loop (.intr keys)) }
  | .asleep _ _ => .error .blocked
  | .ready target n => .ok (s.goto p (.enter (.read target n)))
  | .leave _ => .ok { s.goto p .idle with lock := none }

def step (s : State ι) : Label ι → Except Stop (State ι)
  | .intr p keys => if s.pc p = .idle then .ok (s.goto p (.enter (.intr keys))) else .error .blocked
  | .read p n => if s.pc p = .idle then .ok (s.goto p (.enter (.read n n))) else .error .blocked
  | .step p => turn s p
  | .kill p => .ok { s with killed := update s.killed p true
                            pc := update s.pc p (s.pc p).rouse }

end Xv6.Console
