import Xv6.Bio.Logged
import Xv6.Lib.Wp

/-!
# The state of the file system, and its blocks (`fs.h`, `file.h`, the first part of `fs.c`)

The disk behind the log and the buffer cache is read by its three kinds of blocks: the bits of the
free map (`used`), the inode table (`dinode`) and the data blocks (`data`). Every change of one of
them goes with a `log_write` of the block it lies in. In memory there is the inode cache (`inode`).

One process at a time runs here: a call is a program over the state (`M`), and a lock that is taken
twice is a deadlock (`Stop.blocked`). Two things that the code would do with a damaged disk stop
the model with `Stop.index`: an inode number outside the table, and a data address inside the
metadata.
-/

namespace Xv6.Fs
open Lib Function

abbrev BSIZE : Nat := 512
abbrev NDIRECT : Nat := 12
/-- `BSIZE / sizeof(uint)` -/
abbrev NINDIRECT : Nat := 128
abbrev MAXFILE : Nat := NDIRECT + NINDIRECT
abbrev NINODE : Nat := 50
abbrev NDEV : Int := 10
abbrev ROOTINO : Nat := 1
abbrev DIRSIZ : Nat := 14

abbrev T_DIR : Int := 1
abbrev T_FILE : Int := 2
abbrev T_DEV : Int := 3

/-- the super block, and the device switch `devsw`: what a driver returns for a read of `n` bytes
and for a write. -/
structure Env where
  size : Nat
  nblocks : Nat
  /-- the boot block and the super block come before the data blocks. -/
  nblocks_lt : nblocks < size
  size_lt : size < 2 ^ 32
  ninodes : Nat
  nlog : Nat
  inodestart : Nat
  bmapstart : Nat
  read : Int → Option (Nat → Option (List UInt8))
  write : Int → Option (List UInt8 → Option Nat)

/-- the number of blocks before the data blocks. -/
def Env.nmeta (e : Env) : Nat := e.size - e.nblocks

/-- `BBLOCK(b, sb)` -/
def Env.bblock (e : Env) (b : Nat) : Nat := b / (BSIZE * 8) + e.bmapstart

/-- `IBLOCK(i, sb)`, with `IPB` = 8. -/
def Env.iblock (e : Env) (inum : Nat) : Nat := inum / 8 + e.inodestart

/-- an `int` stored in a `short`. -/
def short (x : Int) : Int := x.bmod (2 ^ 16)

/-- `struct dinode` -/
structure Dinode where
  type : Int
  major : Int
  minor : Int
  nlink : Int
  size : Nat
  addrs : Fin (NDIRECT + 1) → Nat

def Dinode.setAddr (d : Dinode) (k : Fin (NDIRECT + 1)) (a : Nat) : Dinode :=
  { d with addrs := update d.addrs k a }

/-- `struct inode`, with its "copy of disk inode" in `d`; there is one device only. -/
structure Inode where
  inum : Nat
  ref : Int
  locked : Bool
  valid : Bool
  d : Dinode

/-- a pointer to an entry of `icache.inode`. -/
abbrev Ip := Fin NINODE

structure Core where
  used : Nat → Bool
  dinode : Nat → Dinode
  data : Nat → Block
  inode : Ip → Inode

structure State where
  core : Core
  lh : List Nat
  outstanding : Int

abbrev M := StateT State (Except Stop)

namespace Core

def setUsed (c : Core) (b : Nat) (x : Bool) : Core := { c with used := update c.used b x }

def setDinode (c : Core) (inum : Nat) (d : Dinode) : Core :=
  { c with dinode := update c.dinode inum d }

def setData (c : Core) (b : Nat) (x : Block) : Core := { c with data := update c.data b x }

def setInode (c : Core) (i : Ip) (x : Inode) : Core :=
  { c with inode := update c.inode i x }

/-- the copy in memory is changed. -/
def setCopy (c : Core) (i : Ip) (d : Dinode) : Core := c.setInode i { c.inode i with d := d }

/-- `ip->addrs[k] = a` -/
def setAddr (c : Core) (i : Ip) (k : Fin (NDIRECT + 1)) (a : Nat) : Core :=
  c.setCopy i ((c.inode i).d.setAddr k a)

lemma setInode_self (c : Core) (i : Ip) (x : Inode) : (c.setInode i x).inode i = x :=
  update_self _ _ _

lemma setInode_of_ne (c : Core) {i j : Ip} (x : Inode) (h : j ≠ i) :
    (c.setInode i x).inode j = c.inode j := update_of_ne h _ _

lemma setCopy_self (c : Core) (i : Ip) (d : Dinode) :
    (c.setCopy i d).inode i = { c.inode i with d := d } := c.setInode_self i _

lemma setCopy_of_ne (c : Core) {i j : Ip} (d : Dinode) (h : j ≠ i) :
    (c.setCopy i d).inode j = c.inode j := c.setInode_of_ne _ h

end Core

def getCore : M Core := do
  let s ← get
  pure s.core

def modifyCore (f : Core → Core) : M Unit := modify fun s => { s with core := f s.core }

/-! ## the log -/

variable (e : Env)

def beginOp : M Unit := do
  let s ← get
  if s.lh.length + (s.outstanding + 1) * MAXOPBLOCKS > LOGSIZE then throw .blocked
  else set { s with outstanding := s.outstanding + 1 }

/-- the last operation commits. -/
def endOp : M Unit := modify fun s =>
  { s with
    outstanding := s.outstanding - 1
    lh := if s.outstanding - 1 = 0 then [] else s.lh }

def logWrite (b : Nat) : M Unit := do
  let s ← get
  if LOGSIZE ≤ s.lh.length ∨ (e.nlog : Int) - 1 ≤ s.lh.length then
    throw (.panic "too big a transaction")
  else if s.outstanding < 1 then throw (.panic "log_write outside of trans")
  else set { s with lh := Bio.logged s.lh b }

/-! ## blocks -/

/-- `bread` of a data block. -/
def bread (b : Nat) : M Block := do
  let c ← getCore
  if e.size ≤ b then throw (.panic "iderw: block out of range")
  else if b < e.nmeta then throw .index
  else pure (c.data b)

/-- `bread`, the data is changed, `log_write`. -/
def bwriteLog (b : Nat) (f : Block → Block) : M Unit := do
  let x ← bread e b
  modifyCore fun c => c.setData b (f x)
  logWrite e b

def bzero (bno : Nat) : M Unit := bwriteLog e bno fun _ _ => 0

/-- `balloc`: the two loops go through the blocks in order. -/
def balloc : M Nat := do
  let c ← getCore
  match (List.range e.size).find? fun b => !c.used b with
  | some b => do
    modifyCore fun c => c.setUsed b true
    logWrite e (e.bblock b)
    bzero e b
    pure b
  | none => throw (.panic "balloc: out of blocks")

def bfree (b : Nat) : M Unit := do
  let c ← getCore
  if c.used b = false then throw (.panic "freeing free block")
  else do
    modifyCore fun c => c.setUsed b false
    logWrite e (e.bblock b)

end Xv6.Fs
