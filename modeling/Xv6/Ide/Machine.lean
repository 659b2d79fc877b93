import Xv6.Proc.Table
import Xv6.Lib.Path

/-!
# The disk driver (`ide.c`), and the disk in memory (`memide.c`)

Processes call `iderw` on buffers that they have locked, and the disk's interrupts call `ideintr`; both
hold `idelock` while they touch `idequeue`. A context `ι` is a process or an interrupt handler. The
buffers `β` are linked through `qnext`; a pointer to such a pointer is `none` (`&idequeue`) or `some c`
(`&c->qnext`). `step p` is

* `acquire(&idelock)`, or `release(&idelock)`;
* one turn of the loop that looks for the end of the queue, or the assignment there;
* `idestart`, one `wakeup`, the part of `ideintr` that takes the first buffer;
* `sleep(b, &idelock)`, which gives the lock back; when the process was woken it takes it again.

The disk works on the command that `idestart` has given it (`disk`), and then asks for an interrupt,
which some context takes (`intr`). Between two calls the owner of a buffer may do with it what it likes
(`edit`).
-/

namespace Xv6.Ide
open Lib Function

/-- `struct buf`, as far as the driver reads it; `δ` is the content of a sector. -/
structure Buf (δ : Type) where
  valid : Bool
  dirty : Bool
  dev : Nat
  blockno : Nat
  data : δ

/-- a drive, and a sector of it. -/
abbrev Key := Nat × Nat

/-- `b->dev & 1` and the sector, which is the block. -/
def Buf.key {δ : Type} (x : Buf δ) : Key := (x.dev % 2, x.blockno)

/-- `(b->flags & (B_VALID|B_DIRTY)) == B_VALID` -/
def Buf.clean {δ : Type} (x : Buf δ) : Bool := x.valid && !x.dirty

/-- a command: a write with its data, or a read. -/
structure Cmd (δ : Type) where
  key : Key
  out : Option δ
  done : Bool

def Buf.cmd {δ : Type} (x : Buf δ) : Cmd δ := ⟨x.key, if x.dirty then some x.data else none, false⟩

inductive Pc (β : Type) where
  | idle
  | enter (b : β)
  | append (b : β)
  | walk (b : β) (pp : Option β)
  | start (b : β)
  | wait (b : β)
  | asleep (b : β)
  | ready (b : β)
  | leave (b : β)
  | intr
  | pop
  | wake (b : β)
  | next
  | quit
  deriving DecidableEq

structure State (ι β δ : Type) where
  lock : Option ι
  idequeue : Option β
  qnext : β → Option β
  buf : β → Buf δ
  /-- who holds the sleep-lock of the buffer. -/
  owner : β → Option ι
  havedisk1 : Bool
  disk : Key → δ
  /-- what a read has brought to the data port. -/
  port : δ
  cmd : Option (Cmd δ)
  irq : Bool
  pc : ι → Pc β

inductive Label (ι β δ : Type) where
  | lock (p : ι) (b : β)
  | unlock (p : ι) (b : β)
  | edit (p : ι) (b : β) (x : Buf δ)
  | iderw (p : ι) (b : β)
  | step (p : ι)
  | disk
  | intr (p : ι)
  | kill (p : ι)

abbrev Trace (ι β δ : Type) := List (State ι β δ × Label ι β δ)

variable {ι β δ : Type} [DecidableEq ι] [DecidableEq β] {s s' : State ι β δ}

namespace State

/-- after `ideinit`: nothing is queued, no buffer is locked. -/
def boot (buf : β → Buf δ) (havedisk1 : Bool) (disk : Key → δ) (port : δ) : State ι β δ :=
  ⟨none, none, fun _ => none, buf, fun _ => none, havedisk1, disk, port, none, false, fun _ => .idle⟩

def goto (s : State ι β δ) (p : ι) (pc : Pc β) : State ι β δ :=
  { s with pc := update s.pc p pc }

/-- `*pp` -/
def deref (s : State ι β δ) : Option β → Option β
  | none => s.idequeue
  | some c => s.qnext c

/-- `*pp = b` -/
def link (s : State ι β δ) (b : β) : Option β → State ι β δ
  | none => { s with idequeue := some b }
  | some c => { s with qnext := update s.qnext c (some b) }

end State

/-- the disk is at work. -/
def Cmd.busy : Option (Cmd δ) → Bool
  | some c => !c.done
  | none => false

/-- `idestart`; `idewait` waits for the disk. -/
def idestart (s : State ι β δ) (b : β) : Except Stop (State ι β δ) :=
  if FSSIZE ≤ (s.buf b).blockno then .error (.panic "incorrect blockno")
  else if Cmd.busy s.cmd then .error .blocked
  else .ok { s with cmd := some (s.buf b).cmd }

/-- what `ideintr` makes of the buffer; the data port is read for a clean one. -/
def Buf.finish (x : Buf δ) (port : δ) : Buf δ :=
  { x with data := if x.dirty then x.data else port, valid := true, dirty := false }

/-- a sleeper on `b` becomes RUNNABLE. -/
def Pc.rouse (b : β) : Pc β → Pc β
  | .asleep c => if c = b then .ready c else .asleep c
  | pc => pc

def turn (s : State ι β δ) (p : ι) : Except Stop (State ι β δ) :=
  match s.pc p with
  | .idle => .error .blocked
  | .enter b =>
    if s.lock = none then .ok { s.goto p (.append b) with lock := some p } else .error .blocked
  | .append b => .ok { s.goto p (.walk b none) with qnext := update s.qnext b none }
  | .walk b pp =>
    match s.deref pp with
    | some d => .ok (s.goto p (.walk b (some d)))
    | none => .ok ((s.link b pp).goto p (.start b))
  | .start b => if s.idequeue = some b then idestart (s.goto p (.wait b)) b else .ok (s.goto p (.wait b))
  | .wait b =>
    if (s.buf b).clean then .ok (s.goto p (.leave b)) else .ok { s.goto p (.asleep b) with lock := none }
  | .asleep _ => .error .blocked
  | .ready b => if s.lock = none then .ok { s.goto p (.wait b) with lock := some p } else .error .blocked
  | .leave _ => .ok { s.goto p .idle with lock := none }
  | .intr => if s.lock = none then .ok { s.goto p .pop with lock := some p } else .error .blocked
  | .pop =>
    match s.idequeue with
    | none => .ok (s.goto p .quit)
    | some b => .ok { s.goto p (.wake b) with
                      idequeue := s.qnext b
                      buf := update s.buf b ((s.buf b).finish s.port)
                      cmd := none }
  | .wake b => .ok { s with pc := update (fun q => (s.pc q).rouse b) p .next }
  | .next =>
    match s.idequeue with
    | none => .ok (s.goto p .quit)
    | some b => idestart (s.goto p .quit) b
  | .quit => .ok { s.goto p .idle with lock := none }

/-- the disk executes its command. -/
def serve (s : State ι β δ) : Except Stop (State ι β δ) :=
  match s.cmd with
  | none => .error .blocked
  | some c =>
    if c.done then .error .blocked
    else
      match c.out with
      | some x => .ok { s with disk := update s.disk c.key x, cmd := some { c with done := true },
                               irq := true }
      | none => .ok { s with port := s.disk c.key, cmd := some { c with done := true }, irq := true }

def step (s : State ι β δ) : Label ι β δ → Except Stop (State ι β δ)
  | .lock p b =>
    if s.pc p = .idle ∧ s.owner b = none then .ok { s with owner := update s.owner b (some p) }
    else .error .blocked
  | .unlock p b =>
    if s.pc p = .idle ∧ s.owner b = some p then .ok { s with owner := update s.owner b none }
    else .error .blocked
  | .edit p b x =>
    if s.pc p = .idle ∧ s.owner b = some p then .ok { s with buf := update s.buf b x }
    else .error .blocked
  | .iderw p b =>
    if s.pc p ≠ .idle then .error .blocked
    else if s.owner b ≠ some p then .error (.panic "iderw: buf not locked")
    else if (s.buf b).clean then .error (.panic "iderw: nothing to do")
    else if (s.buf b).dev ≠ 0 ∧ s.havedisk1 = false then
      .error (.panic "iderw: ide disk 1 not present")
    else .ok (s.goto p (.enter b))
  | .step p => turn s p
  | .disk => serve s
  | .intr p =>
    if s.pc p = .idle ∧ s.irq = true then .ok { s.goto p .intr with irq := false } else .error .blocked
  -- `kill` makes a sleeper RUNNABLE, whatever it waits for
  | .kill p =>
    match s.pc p with
    | .asleep b => .ok (s.goto p (.ready b))
    | _ => .ok s

/-! ## what a step does -/

/-- what a step means for the queue: a buffer is linked at its end, its first one is executed by the
disk, or is taken by `ideintr`. -/
inductive Event (β : Type) where
  | other
  | submit (b : β)
  | serve (b : β)
  | complete (b : β)
  deriving DecidableEq

def event (s : State ι β δ) : Label ι β δ → Event β
  | .step p =>
    match s.pc p with
    | .walk b pp => if s.deref pp = none then .submit b else .other
    | .pop => s.idequeue.elim .other .complete
    | _ => .other
  | .disk => s.idequeue.elim .other .serve
  | _ => .other

/-- the steps, one by one. -/
inductive Move (s : State ι β δ) : Label ι β δ → Event β → State ι β δ → Prop
  | lock {p b} (hp : s.pc p = .idle) (ho : s.owner b = none) :
      Move s (.lock p b) .other { s with owner := update s.owner b (some p) }
  | unlock {p b} (hp : s.pc p = .idle) (ho : s.owner b = some p) :
      Move s (.unlock p b) .other { s with owner := update s.owner b none }
  | edit {p b} (x) (hp : s.pc p = .idle) (ho : s.owner b = some p) :
      Move s (.edit p b x) .other { s with buf := update s.buf b x }
  | iderw {p b} (hp : s.pc p = .idle) (ho : s.owner b = some p) (hc : (s.buf b).clean = false) :
      Move s (.iderw p b) .other (s.goto p (.enter b))
  | enter {p b} (hp : s.pc p = .enter b) (hl : s.lock = none) :
      Move s (.step p) .other { s.goto p (.append b) with lock := some p }
  | append {p b} (hp : s.pc p = .append b) :
      Move s (.step p) .other { s.goto p (.walk b none) with qnext := update s.qnext b none }
  | walk {p b pp d} (hp : s.pc p = .walk b pp) (hd : s.deref pp = some d) :
      Move s (.step p) .other (s.goto p (.walk b (some d)))
  | link {p b pp} (hp : s.pc p = .walk b pp) (hd : s.deref pp = none) :
      Move s (.step p) (.submit b) ((s.link b pp).goto p (.start b))
  | start {p b} (hp : s.pc p = .start b) (hq : s.idequeue = some b) (hb : Cmd.busy s.cmd = false) :
      Move s (.step p) .other { s.goto p (.wait b) with cmd := some (s.buf b).cmd }
  | queued {p b} (hp : s.pc p = .start b) (hq : s.idequeue ≠ some b) :
      Move s (.step p) .other (s.goto p (.wait b))
  | found {p b} (hp : s.pc p = .wait b) (hc : (s.buf b).clean = true) :
      Move s (.step p) .other (s.goto p (.leave b))
  | sleep {p b} (hp : s.pc p = .wait b) (hc : (s.buf b).clean = false) :
      Move s (.step p) .other { s.goto p (.asleep b) with lock := none }
  | back {p b} (hp : s.pc p = .ready b) (hl : s.lock = none) :
      Move s (.step p) .other { s.goto p (.wait b) with lock := some p }
  | leave {p b} (hp : s.pc p = .leave b) : Move s (.step p) .other { s.goto p .idle with lock := none }
  | handle {p} (hp : s.pc p = .intr) (hl : s.lock = none) :
      Move s (.step p) .other { s.goto p .pop with lock := some p }
  | empty {p} (hp : s.pc p = .pop) (hq : s.idequeue = none) : Move s (.step p) .other (s.goto p .quit)
  | pop {p b} (hp : s.pc p = .pop) (hq : s.idequeue = some b) :
      Move s (.step p) (.complete b) { s.goto p (.wake b) with
          idequeue := s.qnext b
          buf := update s.buf b ((s.buf b).finish s.port)
          cmd := none }
  | wake {p b} (hp : s.pc p = .wake b) :
      Move s (.step p) .other { s with pc := update (fun q => (s.pc q).rouse b) p .next }
  | last {p} (hp : s.pc p = .next) (hq : s.idequeue = none) : Move s (.step p) .other (s.goto p .quit)
  | next {p b} (hp : s.pc p = .next) (hq : s.idequeue = some b) (hb : Cmd.busy s.cmd = false) :
      Move s (.step p) .other { s.goto p .quit with cmd := some (s.buf b).cmd }
  | quit {p} (hp : s.pc p = .quit) : Move s (.step p) .other { s.goto p .idle with lock := none }
  | write {c x} (hc : s.cmd = some c) (hd : c.done = false) (ho : c.out = some x) :
      Move s .disk (event s .disk)
        { s with disk := update s.disk c.key x, cmd := some { c with done := true }, irq := true }
  | read {c} (hc : s.cmd = some c) (hd : c.done = false) (ho : c.out = none) :
      Move s .disk (event s .disk) { s with port := s.disk c.key, cmd := some { c with done := true }, irq := true }
  | intr {p} (hp : s.pc p = .idle) (hi : s.irq = true) :
      Move s (.intr p) .other { s.goto p .intr with irq := false }
  | kill {p b} (hp : s.pc p = .asleep b) : Move s (.kill p) .other (s.goto p (.ready b))
  | miss {p} : Move s (.kill p) .other s

omit [DecidableEq ι] [DecidableEq β] in
lemma idestart_ok {b : β} (h : idestart s b = .ok s') :
    Cmd.busy s.cmd = false ∧ s' = { s with cmd := some (s.buf b).cmd } := by
  unfold idestart at h
  split at h
  · cases h
  · split at h
    · cases h
    · next hb =>
      cases h
      exact ⟨by simpa using hb, rfl⟩

lemma turn_move {p : ι} (h : turn s p = .ok s') : Move s (.step p) (event s (.step p)) s' := by
  unfold turn at h
  unfold event
  cases hp : s.pc p with
  | idle | asleep => rw [hp] at h; cases h
  | enter =>
    simp only [hp] at h ⊢
    split at h
    · next hl => cases h; exact .enter hp hl
    · cases h
  | append =>
    simp only [hp] at h ⊢
    cases h
    exact .append hp
  | walk =>
    simp only [hp] at h ⊢
    split at h
    · next d hd => cases h; rw [if_neg (by rw [hd]; simp)]; exact .walk hp hd
    · next hd => cases h; rw [if_pos hd]; exact .link hp hd
  | start =>
    simp only [hp] at h ⊢
    split at h
    · next hq =>
      obtain ⟨hb, rfl⟩ := idestart_ok h
      exact .start hp hq hb
    · next hq => cases h; exact .queued hp hq
  | wait =>
    simp only [hp] at h ⊢
    split at h
    · next hc => cases h; exact .found hp hc
    · next hc => cases h; exact .sleep hp (by simpa using hc)
  | ready =>
    simp only [hp] at h ⊢
    split at h
    · next hl => cases h; exact .back hp hl
    · cases h
  | leave =>
    simp only [hp] at h ⊢
    cases h
    exact .leave hp
  | intr =>
    simp only [hp] at h ⊢
    split at h
    · next hl => cases h; exact .handle hp hl
    · cases h
  | pop =>
    simp only [hp] at h ⊢
    split at h
    · next hq => cases h; rw [hq]; exact .empty hp hq
    · next b hq => cases h; rw [hq]; exact .pop hp hq
  | wake =>
    simp only [hp] at h ⊢
    cases h
    exact .wake hp
  | next =>
    simp only [hp] at h ⊢
    split at h
    · next hq => cases h; exact .last hp hq
    · next b hq =>
      obtain ⟨hb, rfl⟩ := idestart_ok h
      exact .next hp hq hb
  | quit =>
    simp only [hp] at h ⊢
    cases h
    exact .quit hp

lemma serve_move (h : serve s = .ok s') : Move s .disk (event s .disk) s' := by
  unfold serve at h
  split at h
  · cases h
  · next c hc =>
    split at h
    · cases h
    · next hd =>
      rw [Bool.not_eq_true] at hd
      split at h
      · next x ho => cases h; exact .write hc hd ho
      · next ho => cases h; exact .read hc hd ho

lemma step_move {a : Label ι β δ} (h : step s a = .ok s') : Move s a (event s a) s' := by
  cases a with
  | lock =>
    simp only [step] at h
    split at h
    · next hg => cases h; exact .lock hg.1 hg.2
    · cases h
  | unlock =>
    simp only [step] at h
    split at h
    · next hg => cases h; exact .unlock hg.1 hg.2
    · cases h
  | edit p b x =>
    simp only [step] at h
    split at h
    · next hg => cases h; exact .edit x hg.1 hg.2
    · cases h
  | iderw =>
    simp only [step] at h
    split_ifs at h with h1 h2 h3 h4
    cases h
    exact .iderw (not_not.mp h1) (not_not.mp h2) (by simpa using h3)
  | step => exact turn_move h
  | disk => exact serve_move h
  | intr =>
    simp only [step] at h
    split at h
    · next hg => cases h; exact .intr hg.1 hg.2
    · cases h
  | kill =>
    simp only [step] at h
    split at h
    · next b hp => cases h; exact .kill hp
    · cases h; exact .miss

/-! ## `memide.c` -/

/-- `iderw` of `memide.c`, on a locked buffer; `memdisk` has `disksize` blocks. -/
def memiderw (disksize : Nat) (x : Buf δ) (memdisk : Nat → δ) : Except Stop (Buf δ × (Nat → δ)) :=
  if x.clean then .error (.panic "iderw: nothing to do")
  else if x.dev ≠ 1 then .error (.panic "iderw: request not for disk 1")
  else if disksize ≤ x.blockno then .error (.panic "iderw: block out of range")
  else if x.dirty then
    .ok ({ x with dirty := false, valid := true }, update memdisk x.blockno x.data)
  else .ok ({ x with data := memdisk x.blockno, valid := true }, memdisk)

/-- what is to come of a request: a dirty buffer is written to its sector, another one is read. -/
def Buf.transfer (x : Buf δ) (disk : Key → δ) : Buf δ × (Key → δ) :=
  if x.dirty then ({ x with dirty := false, valid := true }, update disk x.key x.data)
  else ({ x with data := disk x.key, valid := true }, disk)

variable {x : Buf δ} {disk : Key → δ}

lemma memiderw_eq {disksize : Nat} (hc : x.clean = false) (hd : x.dev = 1)
    (hb : x.blockno < disksize) : memiderw disksize x (fun n => disk (1, n)) =
      .ok ((x.transfer disk).1, fun n => (x.transfer disk).2 (1, n)) := by
  have hkey : x.key = (1, x.blockno) := by
    unfold Buf.key
    rw [hd]
  unfold memiderw Buf.transfer
  rw [if_neg (by simp [hc]), if_neg (by simp [hd]), if_neg (by omega), hkey]
  by_cases hx : x.dirty = true
  · rw [if_pos hx, if_pos hx]
    congr 2
    funext n
    show update (fun n => disk (1, n)) x.blockno x.data n = update disk (1, x.blockno) x.data (1, n)
    by_cases hn : n = x.blockno
    · rw [hn, update_self, update_self]
    · rw [update_of_ne hn, update_of_ne (by simp [hn])]
  · rw [if_neg hx, if_neg hx]

lemma transfer_key (x : Buf δ) (disk : Key → δ) : (x.transfer disk).1.key = x.key := by
  unfold Buf.transfer
  split <;> rfl

lemma transfer_data (x : Buf δ) (disk : Key → δ) : (x.transfer disk).2 x.key = (x.transfer disk).1.data := by
  unfold Buf.transfer
  split
  · exact update_self ..
  · rfl

lemma transfer_other {k : Key} (disk : Key → δ) (hk : x.dirty = true → x.key ≠ k) : (x.transfer disk).2 k = disk k := by
  unfold Buf.transfer
  split
  · next hx => exact update_of_ne (hk hx).symm ..
  · rfl

end Xv6.Ide
