import Xv6.Fs.Calls

/-!
# Open files, descriptors and processes over the file system (`file.c`, `sysfile.c`, `pipe.c`)

The state has the file system of `Xv6.Fs`, the file table, the ends of the pipes, and of each process
its descriptors and its current directory. One step is one call of one process, from its first
statement to its return; a write is one turn of the loop in `filewrite`.

What a call gets from elsewhere is part of its label: its arguments (`none` where `argstr` or `argint`
fails), the page that `kalloc` returns, and the slot that `allocproc` returns, if `fork` succeeds.
The bytes in a pipe are left to `Xv6.Pipe`: here a pipe is its two ends.

`did` is a history: what the entries of the file table stand for, when it was taken and given back.
-/

namespace Xv6.Sys
open Lib Fs Function List

abbrev NFILE : Nat := 100

/-- a pointer into `ftable.file`. -/
abbrev Fp := Fin NFILE
abbrev Fd := Fin NOFILE

inductive FdType where
  | FD_NONE
  | FD_PIPE
  | FD_INODE
  deriving DecidableEq

/-- `struct file` -/
structure File where
  type : FdType
  ref : Int
  readable : Bool
  writable : Bool
  pipe : Nat
  ip : Ip
  off : Nat

/-- the part of `struct pipe` that `pipeclose` reads. -/
structure PipeEnds where
  readopen : Bool
  writeopen : Bool

inductive Event where
  /-- the entry stands for a reference to an inode, or for an end of a pipe, from now on. -/
  | take (f : Fp)
  /-- `iput` or `pipeclose`, for the entry. -/
  | drop (f : Fp)
  | kalloc (page : Nat)
  | kfree (page : Nat)
  deriving DecidableEq

structure State where
  fs : Fs.State
  file : Fp → File
  /-- the pages that are pipes. -/
  page : Nat → Option PipeEnds
  /-- `p->ofile[fd]` -/
  ofile : Slot × Fd → Option Fp
  /-- `p->cwd`; there is none where no process is. -/
  cwd : Slot → Option Ip
  did : List Event

inductive Halt where
  /-- in the file system. -/
  | fs (x : Stop)
  /-- the call does not return, or there is no such call. -/
  | blocked
  | panic (msg : String)
  /-- a page is used that was freed. -/
  | wild

abbrev M := StateT State (Except Halt)

namespace State

def setFile (s : State) (f : Fp) (x : File) : State := { s with file := update s.file f x }

def setFd (s : State) (p : Slot) (fd : Fd) (o : Option Fp) : State :=
  { s with ofile := update s.ofile (p, fd) o }

def setCwd (s : State) (p : Slot) (o : Option Ip) : State :=
  { s with cwd := update s.cwd p o }

def setPage (s : State) (k : Nat) (o : Option PipeEnds) : State :=
  { s with page := update s.page k o }

def add (s : State) (x : Event) : State := { s with did := x :: s.did }

/-- the first free entry of the file table. -/
def unused (s : State) : Option Fp := (finRange NFILE).find? fun f => (s.file f).ref = 0

/-- the first free descriptor. -/
def freeFd (s : State) (p : Slot) : Option Fd :=
  (finRange NOFILE).find? fun fd => (s.ofile (p, fd)).isNone

/-- is there a free entry of the file table, and a free descriptor? -/
def room (s : State) (p : Slot) : Bool := s.unused.isSome && (s.freeFd p).isSome

/-- `argfd`: the descriptor and its file. -/
def argfd (s : State) (p : Slot) (fd : Int) : Option (Fd × Fp) :=
  if h : fd.toNat < NOFILE then
    if 0 ≤ fd then (s.ofile (p, ⟨fd.toNat, h⟩)).map fun f => (⟨fd.toNat, h⟩, f) else none
  else none

end State

variable (e : Env)

/-- a function of the file system. -/
def onFs {α : Type} (m : Fs.M α) : M α := fun s =>
  match m s.fs with
  | .ok (a, fs) => .ok (a, { s with fs := fs })
  | .error x => .error (.fs x)

/-! ## the file table -/

def filealloc : M (Option Fp) := do
  let s ← get
  match s.unused with
  | some f => do
    modify fun s => s.setFile f { s.file f with ref := 1 }
    pure (some f)
  | none => pure none

def filedup (f : Fp) : M Unit := do
  let s ← get
  if (s.file f).ref < 1 then throw (.panic "filedup")
  else modify fun s => s.setFile f { s.file f with ref := (s.file f).ref + 1 }

def PipeEnds.close (x : PipeEnds) (writable : Bool) : PipeEnds :=
  if writable then { x with writeopen := false } else { x with readopen := false }

def pipeclose (k : Nat) (writable : Bool) : M Unit := do
  let s ← get
  match s.page k with
  | none => throw .wild
  | some x =>
    if (x.close writable).readopen = false ∧ (x.close writable).writeopen = false then
      modify fun s => (s.setPage k none).add (.kfree k)
    else modify fun s => s.setPage k (some (x.close writable))

/-- what the entry `ff` stands for is given back. -/
def release (f : Fp) (ff : File) : M Unit :=
  match ff.type with
  | .FD_PIPE => do
    modify fun s => s.add (.drop f)
    pipeclose ff.pipe ff.writable
  | .FD_INODE => do
    modify fun s => s.add (.drop f)
    onFs (Fs.fileclose e ff.ip)
  | .FD_NONE => pure ()

def fileclose (f : Fp) : M Unit := do
  let s ← get
  if (s.file f).ref < 1 then throw (.panic "fileclose")
  else if (s.file f).ref - 1 > 0 then
    modify fun s => s.setFile f { s.file f with ref := (s.file f).ref - 1 }
  else do
    modify fun s => s.setFile f { s.file f with ref := 0, type := .FD_NONE }
    release e f (s.file f)

def fdalloc (p : Slot) (f : Fp) : M (Option Fd) := do
  let s ← get
  match s.freeFd p with
  | some fd => do
    modify fun s => s.setFd p fd (some f)
    pure (some fd)
  | none => pure none

/-! ## `open` -/

def O_RDONLY : UInt32 := 0x000
def O_WRONLY : UInt32 := 0x001
def O_RDWR : UInt32 := 0x002
def O_CREATE : UInt32 := 0x200

/-- `sys_open` without `O_CREATE`, up to `filealloc`; the inode is returned locked. -/
def openOld (rdonly : Bool) (cwd : Ip) (path : List UInt8) : Fs.M (Option Ip) := do
  let r ← namei e cwd path
  match r with
  | none => pure none
  | some ip => do
    ilock e ip
    let c ← getCore
    if (c.inode ip).d.type = T_DIR ∧ rdonly = false then do
      iunlockput e ip
      pure none
    else pure (some ip)

def openInode (cwd : Ip) (path : List UInt8) (omode : UInt32) : Fs.M (Option Ip) := do
  beginOp
  if omode &&& O_CREATE ≠ 0 then create e cwd path T_FILE 0 0
  else openOld e (omode = O_RDONLY) cwd path

/-- no entry or no descriptor is free. -/
def openBad (ip : Ip) : M Int :=
  onFs do
    iunlockput e ip
    endWith (-1)

/-- `f->type = FD_INODE` and so on. -/
def File.opened (x : File) (ip : Ip) (omode : UInt32) : File :=
  { x with
    type := .FD_INODE
    ip := ip
    off := 0
    readable := omode &&& O_WRONLY = 0
    writable := omode &&& O_WRONLY ≠ 0 ∨ omode &&& O_RDWR ≠ 0 }

def openFile (p : Slot) (ip : Ip) (omode : UInt32) : M Int := do
  let r ← filealloc
  match r with
  | none => openBad e ip
  | some f => do
    let r ← fdalloc p f
    match r with
    | none => do
      fileclose e f
      openBad e ip
    | some fd => do
      onFs do
        iunlock ip
        endOp
      modify fun s => (s.setFile f ((s.file f).opened ip omode)).add (.take f)
      pure fd.val

def sysOpen (p : Slot) (cwd : Ip) (arg : Option (List UInt8)) (omode : UInt32) : M Int :=
  match arg with
  | none => pure (-1)
  | some path => do
    let r ← onFs (openInode e cwd path omode)
    match r with
    | none => onFs (endWith (-1))
    | some ip => openFile e p ip omode

/-! ## the other calls on names -/

/-- 0, or -1. -/
def ret (ok : Bool) : Int := if ok then 0 else -1

/-- the arguments are fetched after `begin_op`. -/
def badArg : M Int :=
  onFs do
    beginOp
    endWith (-1)

def call (m : Fs.M Bool) : M Int := do
  let r ← onFs m
  pure (ret r)

def sysMkdir (cwd : Ip) : Option (List UInt8) → M Int
  | none => badArg
  | some path => call (Fs.sysMkdir e cwd path)

def sysMknod (cwd : Ip) (major minor : Int) : Option (List UInt8) → M Int
  | none => badArg
  | some path => call (Fs.sysMknod e cwd path major minor)

def sysLink (cwd : Ip) : Option (List UInt8 × List UInt8) → M Int
  | none => pure (-1)
  | some (old, new) => call (Fs.sysLink e cwd old new)

def sysUnlink (cwd : Ip) : Option (List UInt8) → M Int
  | none => pure (-1)
  | some path => call (Fs.sysUnlink e cwd path)

def sysChdir (p : Slot) (cwd : Ip) : Option (List UInt8) → M Int
  | none => badArg
  | some path => do
    let r ← onFs (Fs.sysChdir e cwd path)
    match r with
    | some ip => do
      modify fun s => s.setCwd p (some ip)
      pure 0
    | none => pure (-1)

/-- `readi`, as often as `exec` does it. -/
def readAll (ip : Ip) : List (Nat × Nat) → Fs.M Unit
  | [] => pure ()
  | (off, n) :: l => do
    let _ ← readi e ip off n
    readAll ip l

/-- what `exec` does with the file `path`; `ok` says whether the program was loaded. -/
def exec (cwd : Ip) (path : List UInt8) (reads : List (Nat × Nat)) (ok : Bool) : Fs.M Int := do
  beginOp
  let r ← namei e cwd path
  match r with
  | none => endWith (-1)
  | some ip => do
    ilock e ip
    readAll e ip reads
    iunlockput e ip
    endWith (ret ok)

/-! ## calls on descriptors -/

def sysDup (p : Slot) (fd : Int) : M Int := do
  let s ← get
  match s.argfd p fd with
  | none => pure (-1)
  | some (_, f) => do
    let r ← fdalloc p f
    match r with
    | none => pure (-1)
    | some fd => do
      filedup f
      pure fd.val

def sysClose (p : Slot) (fd : Int) : M Int := do
  let s ← get
  match s.argfd p fd with
  | none => pure (-1)
  | some (fd, f) => do
    modify fun s => s.setFd p fd none
    fileclose e f
    pure 0

/-- `f->off += r`, for an unsigned offset. -/
def State.advance (s : State) (f : Fp) (r : Nat) : State :=
  s.setFile f { s.file f with off := ((s.file f).off + r) % 2 ^ 32 }

def fileread (f : Fp) (n : Nat) : M Int := do
  let s ← get
  if (s.file f).readable = false then pure (-1)
  else
    match (s.file f).type with
    | .FD_PIPE => pure 0
    | .FD_INODE => do
      let r ← onFs (Fs.fileread e (s.file f).ip (s.file f).off n)
      match r with
      | some b => do
        modify fun s => s.advance f b.length
        pure b.length
      | none => pure (-1)
    | .FD_NONE => throw (.panic "fileread")

/-- one turn of the loop. -/
def filewrite (f : Fp) (src : List UInt8) : M Int := do
  let s ← get
  if (s.file f).writable = false then pure (-1)
  else
    match (s.file f).type with
    | .FD_PIPE => pure 0
    | .FD_INODE => do
      let r ← onFs (filewriteTurn e (s.file f).ip src (s.file f).off)
      match r with
      | some n => do
        modify fun s => s.advance f n
        if n ≠ src.length then throw (.panic "short filewrite") else pure n
      | none => pure (-1)
    | .FD_NONE => throw (.panic "filewrite")

def filestat (f : Fp) : M Int := do
  let s ← get
  if (s.file f).type = .FD_INODE then
    onFs do
      ilock e (s.file f).ip
      iunlock (s.file f).ip
      pure 0
  else pure (-1)

/-- `argfd`, and a function of the file. -/
def onFd (p : Slot) (fd : Int) (m : Fp → M Int) : M Int := do
  let s ← get
  match s.argfd p fd with
  | none => pure (-1)
  | some (_, f) => m f

/-! ## `pipe` -/

/-- the label `bad` of `pipealloc`. -/
def pipeBad (o : List Fp) : M (Option (Fp × Fp)) :=
  match o with
  | [] => pure none
  | f :: o => do
    fileclose e f
    pipeBad o

/-- the two ends of the pipe in the page `k`. -/
def State.newPipe (s : State) (f0 f1 : Fp) (k : Nat) : State :=
  let s := (s.setPage k (some ⟨true, true⟩)).add (.kalloc k)
  let s := s.setFile f0 { s.file f0 with type := .FD_PIPE, readable := true, writable := false, pipe := k }
  let s := s.setFile f1 { s.file f1 with type := .FD_PIPE, readable := false, writable := true, pipe := k }
  (s.add (.take f0)).add (.take f1)

/-- `kalloc` returns `page`, which is not in use. -/
def pipealloc (page : Option Nat) : M (Option (Fp × Fp)) := do
  let r ← filealloc
  match r with
  | none => pipeBad e []
  | some f0 => do
    let r ← filealloc
    match r with
    | none => pipeBad e [f0]
    | some f1 =>
      match page with
      | none => pipeBad e [f0, f1]
      | some k => do
        let s ← get
        if (s.page k).isSome then throw .blocked
        else do
          modify fun s => s.newPipe f0 f1 k
          pure (some (f0, f1))

def sysPipe (p : Slot) (page : Option Nat) : M Int := do
  let r ← pipealloc e page
  match r with
  | none => pure (-1)
  | some (rf, wf) => do
    let r ← fdalloc p rf
    match r with
    | none => do
      fileclose e rf
      fileclose e wf
      pure (-1)
    | some fd0 => do
      let r ← fdalloc p wf
      match r with
      | none => do
        modify fun s => s.setFd p fd0 none
        fileclose e rf
        fileclose e wf
        pure (-1)
      | some _ => pure 0

/-! ## `fork` and `exit` -/

def forkFiles (p np : Slot) : List Fd → M Unit
  | [] => pure ()
  | fd :: fds => do
    let s ← get
    match s.ofile (p, fd) with
    | none => forkFiles p np fds
    | some f => do
      filedup f
      modify fun s => s.setFd np fd (some f)
      forkFiles p np fds

/-- the child is in the slot `np`, which was not in use; `none` where `allocproc` or `copyuvm` fails. -/
def fork (p : Slot) (cwd : Ip) : Option Slot → M Int
  | none => pure (-1)
  | some np => do
    let s ← get
    if (s.cwd np).isSome then throw .blocked
    else do
      forkFiles p np (finRange NOFILE)
      let ip ← onFs (idup cwd)
      modify fun s => s.setCwd np (some ip)
      pure 1

def exitFiles (p : Slot) : List Fd → M Unit
  | [] => pure ()
  | fd :: fds => do
    let s ← get
    match s.ofile (p, fd) with
    | none => exitFiles p fds
    | some f => do
      fileclose e f
      modify fun s => s.setFd p fd none
      exitFiles p fds

/-- the process that `userinit` makes. -/
def initproc : Slot := ⟨0, by decide⟩

def exit (p : Slot) (cwd : Ip) : M Int := do
  if p = initproc then throw (.panic "init exiting")
  else do
    exitFiles e p (finRange NOFILE)
    onFs (Fs.fileclose e cwd)
    modify fun s => s.setCwd p none
    pure 0

/-! ## the machine -/

inductive Op where
  | open (path : Option (List UInt8)) (omode : UInt32)
  | mkdir (path : Option (List UInt8))
  | mknod (path : Option (List UInt8)) (major minor : Int)
  | link (paths : Option (List UInt8 × List UInt8))
  | unlink (path : Option (List UInt8))
  | chdir (path : Option (List UInt8))
  | exec (path : List UInt8) (reads : List (Nat × Nat)) (ok : Bool)
  | dup (fd : Int)
  | close (fd : Int)
  | read (fd : Int) (n : Nat)
  | write (fd : Int) (src : List UInt8)
  | fstat (fd : Int)
  | pipe (page : Option Nat)
  | fork (child : Option Slot)
  | exit

/-- `max` in `filewrite`. -/
abbrev MAXWRITE : Nat := (MAXOPBLOCKS - 1 - 1 - 2) / 2 * 512

/-- the numbers are in the range of their types, and a turn of `filewrite` writes `max` bytes at
most. -/
def Op.fits : Op → Bool
  | .write _ src => src.length ≤ MAXWRITE
  | .read _ n => n < 2 ^ 31
  | .exec _ reads _ => reads.all fun r => r.2 < 2 ^ 32
  | _ => true

/-- the call of the process `p`, and what it returns. -/
def Op.run (p : Slot) (cwd : Ip) : Op → M Int
  | .open path omode => sysOpen e p cwd path omode
  | .mkdir path => sysMkdir e cwd path
  | .mknod path major minor => sysMknod e cwd major minor path
  | .link paths => sysLink e cwd paths
  | .unlink path => sysUnlink e cwd path
  | .chdir path => sysChdir e p cwd path
  | .exec path reads ok => onFs (Sys.exec e cwd path reads ok)
  | .dup fd => sysDup p fd
  | .close fd => sysClose e p fd
  | .read fd n => onFd p fd fun f => fileread e f n
  | .write fd src => onFd p fd fun f => filewrite e f src
  | .fstat fd => onFd p fd fun f => filestat e f
  | .pipe page => sysPipe e p page
  | .fork child => Sys.fork p cwd child
  | .exit => Sys.exit e p cwd

/-- the result and the state after the call. -/
def syscall (s : State) (a : Slot × Op) : Except Halt (Int × State) :=
  match s.cwd a.1 with
  | none => .error .blocked
  | some cwd => if a.2.fits then a.2.run e a.1 cwd s else .error .blocked

def step (s : State) (a : Slot × Op) : Except Halt State :=
  match syscall e s a with
  | .ok (_, s) => .ok s
  | .error x => .error x

lemma ninode_pos : 0 < NINODE := by decide

def File.zero : File := ⟨.FD_NONE, 0, false, false, 0, ⟨0, ninode_pos⟩, 0⟩

/-- the first process runs: it has no files, and its directory is the root, the first inode of the
cache. -/
def State.boot (fs : Fs.State) : State where
  fs := fs
  file := fun _ => File.zero
  page := fun _ => none
  ofile := fun _ => none
  cwd := fun p => if p = initproc then some ⟨0, ninode_pos⟩ else none
  did := []

end Xv6.Sys
