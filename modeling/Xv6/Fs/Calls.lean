import Xv6.Fs.Dir

/-!
# The file system calls (`sysfile.c`, `file.c`)

One step of the machine is one call, from its `begin_op` to its `end_op`; a write is one turn of the
loop in `filewrite`. A process brings its current directory, and the inodes of its open files, as
pointers into the inode cache; the machine asks only that they are referenced.

The file table is left out: an open file is the reference it holds, and the offset of a read or
a write comes with the label. Whether `filealloc` and `fdalloc` find room is part of the label of
`open`.
-/

namespace Xv6.Fs
open Lib

variable (e : Env)

/-- `ip->nlink += x` and `iupdate(ip)`. -/
def relink (i : Ip) (x : Int) : M Unit := do
  modifyCore fun c =>
    c.setCopy i { (c.inode i).d with nlink := short ((c.inode i).d.nlink + x) }
  iupdate e i

/-- `end_op` and the result of the call. -/
def endWith {α : Type} (r : α) : M α := do
  endOp
  pure r

/-! ## `create` -/

/-- the name `name` is in the directory: `ip` is opened, if both are files. -/
def createOld (type : Int) (dp ip : Ip) : M (Option Ip) := do
  iunlockput e dp
  ilock e ip
  let c ← getCore
  if type = T_FILE ∧ (c.inode ip).d.type = T_FILE then pure (some ip)
  else do
    iunlockput e ip
    pure none

def dot : List UInt8 := [46]
def dotdot : List UInt8 := [46, 46]

/-- the entries "." and "..". -/
def createDots (dp ip : Ip) : M Unit := do
  relink e dp 1
  let c ← getCore
  let a ← dirlink e ip dot (c.inode ip).inum
  if a = false then throw (.panic "create dots")
  else do
    let b ← dirlink e ip dotdot (c.inode dp).inum
    if b = false then throw (.panic "create dots") else pure ()

/-- a new inode, and its entry `name` in the directory. -/
def createNew (type major minor : Int) (dp : Ip) (name : List UInt8) : M (Option Ip) := do
  let ip ← ialloc e type
  ilock e ip
  modifyCore fun c =>
    c.setCopy ip { (c.inode ip).d with major := major, minor := minor, nlink := 1 }
  iupdate e ip
  (if type = T_DIR then createDots e dp ip else pure ())
  let c ← getCore
  let r ← dirlink e dp name (c.inode ip).inum
  if r = false then throw (.panic "create: dirlink")
  else do
    iunlockput e dp
    pure (some ip)

/-- `create`; the inode is returned locked. -/
def create (cwd : Ip) (path : List UInt8) (type major minor : Int) : M (Option Ip) := do
  let r ← nameiparent e cwd path
  match r with
  | none => pure none
  | some (dp, name) => do
    ilock e dp
    let r ← dirlookup e dp name
    match r with
    | some (ip, _) => createOld e type dp ip
    | none => createNew e type major minor dp name

/-! ## the calls -/

/-- the end of `sys_open`; `room` says whether there is a free file and a free descriptor. -/
def openEnd (room : Bool) (ip : Ip) : M (Option Ip) := do
  if room then do
    iunlock ip
    endWith (some ip)
  else do
    iunlockput e ip
    endWith none

/-- `sys_open` with `O_CREATE`. -/
def openCreate (room : Bool) (cwd : Ip) (path : List UInt8) : M (Option Ip) := do
  beginOp
  let r ← create e cwd path T_FILE 0 0
  match r with
  | some ip => openEnd e room ip
  | none => endWith none

/-- `sys_open` without `O_CREATE`. -/
def sysOpen (room rdonly : Bool) (cwd : Ip) (path : List UInt8) : M (Option Ip) := do
  beginOp
  let r ← namei e cwd path
  match r with
  | none => endWith none
  | some ip => do
    ilock e ip
    let c ← getCore
    if (c.inode ip).d.type = T_DIR ∧ rdonly = false then do
      iunlockput e ip
      endWith none
    else openEnd e room ip

/-- `sys_mkdir` and `sys_mknod`. -/
def mknod (cwd : Ip) (path : List UInt8) (type major minor : Int) : M Bool := do
  beginOp
  let r ← create e cwd path type major minor
  match r with
  | some ip => do
    iunlockput e ip
    endWith true
  | none => endWith false

def sysMkdir (cwd : Ip) (path : List UInt8) : M Bool := mknod e cwd path T_DIR 0 0

def sysMknod (cwd : Ip) (path : List UInt8) (major minor : Int) : M Bool :=
  mknod e cwd path T_DEV (short major) (short minor)

/-- the label `bad` of `sys_link`. -/
def linkBad (ip : Ip) : M Bool := do
  ilock e ip
  relink e ip (-1)
  iunlockput e ip
  endWith false

def sysLink (cwd : Ip) (old new : List UInt8) : M Bool := do
  beginOp
  let r ← namei e cwd old
  match r with
  | none => endWith false
  | some ip => do
    ilock e ip
    let c ← getCore
    if (c.inode ip).d.type = T_DIR then do
      iunlockput e ip
      endWith false
    else do
      relink e ip 1
      iunlock ip
      let r ← nameiparent e cwd new
      match r with
      | none => linkBad e ip
      | some (dp, name) => do
        ilock e dp
        let c ← getCore
        let r ← dirlink e dp name (c.inode ip).inum
        if r = false then do
          iunlockput e dp
          linkBad e ip
        else do
          iunlockput e dp
          iput e ip
          endWith true

def emptyDirLoop (i : Ip) : List Nat → M Bool
  | [] => pure true
  | off :: offs => do
    let de ← readDe e "isdirempty: readi" i off
    if deInum de ≠ 0 then pure false else emptyDirLoop i offs

/-- is the directory empty except for "." and ".."? -/
def isdirempty (i : Ip) : M Bool := do
  let c ← getCore
  emptyDirLoop e i (offsets (2 * DESIZE) (c.inode i).d.size)

/-- the label `bad` of `sys_unlink`. -/
def unlinkBad (dp : Ip) : M Bool := do
  iunlockput e dp
  endWith false

/-- the entry at `off` in `dp` is cleared, and `ip` loses a link. -/
def unlinkEntry (dp ip : Ip) (off : Nat) : M Bool := do
  writeDe e "unlink: writei" dp (List.replicate DESIZE 0) off
  let c ← getCore
  (if (c.inode ip).d.type = T_DIR then relink e dp (-1) else pure ())
  iunlockput e dp
  relink e ip (-1)
  iunlockput e ip
  endWith true

/-- `ip` is a directory with entries. -/
def occupied (ip : Ip) : M Bool := do
  let c ← getCore
  if (c.inode ip).d.type = T_DIR then do
    let r ← isdirempty e ip
    pure (!r)
  else pure false

/-- the entry of `ip` is at `off` in `dp`. -/
def unlinkFound (dp ip : Ip) (off : Nat) : M Bool := do
  ilock e ip
  let c ← getCore
  if (c.inode ip).d.nlink < 1 then throw (.panic "unlink: nlink < 1")
  else do
    let r ← occupied e ip
    if r then do
      iunlockput e ip
      unlinkBad e dp
    else unlinkEntry e dp ip off

def sysUnlink (cwd : Ip) (path : List UInt8) : M Bool := do
  beginOp
  let r ← nameiparent e cwd path
  match r with
  | none => endWith false
  | some (dp, name) => do
    ilock e dp
    if namecmp name dot = 0 ∨ namecmp name dotdot = 0 then unlinkBad e dp
    else do
      let r ← dirlookup e dp name
      match r with
      | none => unlinkBad e dp
      | some (ip, off) => unlinkFound e dp ip off

/-- `sys_chdir`; the new directory, if there is one. -/
def sysChdir (cwd : Ip) (path : List UInt8) : M (Option Ip) := do
  beginOp
  let r ← namei e cwd path
  match r with
  | none => endWith none
  | some ip => do
    ilock e ip
    let c ← getCore
    if (c.inode ip).d.type ≠ T_DIR then do
      iunlockput e ip
      endWith none
    else do
      iunlock ip
      iput e cwd
      endWith (some ip)

/-- one turn of the loop in `filewrite`. -/
def filewriteTurn (i : Ip) (src : List UInt8) (off : Nat) : M (Option Nat) := do
  beginOp
  ilock e i
  let r ← writei e i src off
  iunlock i
  endWith r

/-- `fileread`, without a transaction. -/
def fileread (i : Ip) (off n : Nat) : M (Option (List UInt8)) := do
  ilock e i
  let r ← readi e i off n
  iunlock i
  pure r

/-- `fileclose` of the last reference to the file, and what `exit` does with the current
directory. -/
def fileclose (i : Ip) : M Unit := do
  beginOp
  iput e i
  endOp

/-! ## the machine -/

inductive Call where
  | create (room : Bool) (cwd : Ip) (path : List UInt8)
  | open (room rdonly : Bool) (cwd : Ip) (path : List UInt8)
  | mkdir (cwd : Ip) (path : List UInt8)
  | mknod (cwd : Ip) (path : List UInt8) (major minor : Int)
  | link (cwd : Ip) (old new : List UInt8)
  | unlink (cwd : Ip) (path : List UInt8)
  | chdir (cwd : Ip) (path : List UInt8)
  | write (i : Ip) (src : List UInt8) (off : Nat)
  | read (i : Ip) (off n : Nat)
  | close (i : Ip)
  /-- `fork` duplicates the current directory. -/
  | dup (i : Ip)

/-- the inode that the call brings. -/
def Call.brings : Call → Ip
  | .create _ cwd _ | .open _ _ cwd _ | .mkdir cwd _ | .mknod cwd _ _ _ | .link cwd _ _
  | .unlink cwd _ | .chdir cwd _ => cwd
  | .write i _ _ | .read i _ _ | .close i | .dup i => i

/-- `n` is a `uint`, and not more bytes can be written at a time. -/
def Call.fits : Call → Bool
  | .write _ src _ => src.length < 2 ^ 32
  | .read _ _ n => n < 2 ^ 32
  | _ => true

/-- the call runs, and its result is dropped. -/
def ignore {α : Type} (m : M α) : M Unit := do
  let _ ← m
  pure ()

def Call.run : Call → M Unit
  | .create room cwd path => ignore (openCreate e room cwd path)
  | .open room rdonly cwd path => ignore (sysOpen e room rdonly cwd path)
  | .mkdir cwd path => ignore (sysMkdir e cwd path)
  | .mknod cwd path major minor => ignore (sysMknod e cwd path major minor)
  | .link cwd old new => ignore (sysLink e cwd old new)
  | .unlink cwd path => ignore (sysUnlink e cwd path)
  | .chdir cwd path => ignore (sysChdir e cwd path)
  | .write i src off => ignore (filewriteTurn e i src off)
  | .read i off n => ignore (fileread e i off n)
  | .close i => fileclose e i
  | .dup i => ignore (idup i)

def step (s : State) (a : Call) : Except Stop State :=
  if 1 ≤ (s.core.inode a.brings).ref ∧ a.fits = true then
    match a.run e s with
    | .ok (_, s) => .ok s
    | .error x => .error x
  else .error .blocked

/-- the first process runs: the cache was empty, and `userinit` has called `namei("/")`. -/
def State.boot (used : Nat → Bool) (dinode : Nat → Dinode) (data : Nat → Block) : State where
  core :=
    { used := used
      dinode := dinode
      data := data
      inode := fun i => ⟨if i.val = 0 then ROOTINO else 0, if i.val = 0 then 1 else 0, false, false, Dinode.zero⟩ }
  lh := []
  outstanding := 0

end Xv6.Fs
