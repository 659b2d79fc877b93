import Xv6.Fs.State

/-!
# Inodes: allocation, the inode cache, and the content (`fs.c`)

`bmap` finds the disk block of the `bn`-th block of a file and allocates one where there is none;
the new address is in memory only until the next `iupdate`. `readi` and `writei` go through the
content block by block.
-/

namespace Xv6.Fs
open Lib List

variable (e : Env) {c : Core}

/-! ## the inode cache -/

/-- the entry for `inum` that is in use. -/
def Core.cached (c : Core) (inum : Nat) : Option Ip :=
  (finRange NINODE).find? fun i => 0 < (c.inode i).ref ∧ (c.inode i).inum = inum

def Core.empty (c : Core) : Option Ip := (finRange NINODE).find? fun i => (c.inode i).ref = 0

lemma Core.cached_some {inum : Nat} {i : Ip} (h : c.cached inum = some i) :
    0 < (c.inode i).ref ∧ (c.inode i).inum = inum := by
  have := find?_some h
  simpa using this

lemma Core.cached_none {inum : Nat} (h : c.cached inum = none) (i : Ip)
    (hr : 0 < (c.inode i).ref) : (c.inode i).inum ≠ inum := by
  have := find?_eq_none.mp h i (mem_finRange i)
  simp only [decide_eq_true_eq, not_and] at this
  exact this hr

lemma Core.empty_some {i : Ip} (h : c.empty = some i) : (c.inode i).ref = 0 := by
  have := find?_some h
  simpa using this

def iget (inum : Nat) : M Ip := do
  let c ← getCore
  match c.cached inum with
  | some i => do
    modifyCore fun c => c.setInode i { c.inode i with ref := (c.inode i).ref + 1 }
    pure i
  | none =>
    match c.empty with
    | some i => do
      modifyCore fun c => c.setInode i { c.inode i with inum := inum, ref := 1, valid := false }
      pure i
    | none => throw (.panic "iget: no inodes")

def idup (i : Ip) : M Ip := do
  modifyCore fun c => c.setInode i { c.inode i with ref := (c.inode i).ref + 1 }
  pure i

def Dinode.zero : Dinode := ⟨0, 0, 0, 0, 0, fun _ => 0⟩

/-- the first free inode on the disk; the number 0 is not used. -/
def Core.freeInode (c : Core) : Option Nat :=
  (range e.ninodes).find? fun n => n ≠ 0 ∧ (c.dinode n).type = 0

lemma Core.freeInode_some {e : Env} {n : Nat} (h : c.freeInode e = some n) : n ≠ 0 ∧ (c.dinode n).type = 0 := by
  have := find?_some h
  simpa using this

def ialloc (type : Int) : M Ip := do
  let c ← getCore
  match c.freeInode e with
  | some inum => do
    modifyCore fun c => c.setDinode inum { Dinode.zero with type := type }
    logWrite e (e.iblock inum)
    iget inum
  | none => throw (.panic "ialloc: no inodes")

/-- copy a modified in-memory inode to disk. -/
def iupdate (i : Ip) : M Unit := do
  let c ← getCore
  modifyCore fun c => c.setDinode (c.inode i).inum (c.inode i).d
  logWrite e (e.iblock (c.inode i).inum)

/-- `acquiresleep(&ip->lock)` -/
def acquire (i : Ip) : M Unit := do
  let c ← getCore
  if (c.inode i).locked then throw .blocked
  else modifyCore fun c => c.setInode i { c.inode i with locked := true }

def release (i : Ip) : M Unit :=
  modifyCore fun c => c.setInode i { c.inode i with locked := false }

/-- the copy is read from the disk, if it is not there. -/
def load (i : Ip) : M Unit := do
  let c ← getCore
  if (c.inode i).valid then pure ()
  else if e.ninodes ≤ (c.inode i).inum then throw .index
  else do
    modifyCore fun c =>
      c.setInode i { c.inode i with valid := true, d := c.dinode (c.inode i).inum }
    if (c.dinode (c.inode i).inum).type = 0 then throw (.panic "ilock: no type") else pure ()

def ilock (i : Ip) : M Unit := do
  let c ← getCore
  if (c.inode i).ref < 1 then throw (.panic "ilock")
  else do
    acquire i
    load e i

def iunlock (i : Ip) : M Unit := do
  let c ← getCore
  if (c.inode i).locked = false ∨ (c.inode i).ref < 1 then throw (.panic "iunlock")
  else release i

/-! ## the content -/

/-- `if((addr = ip->addrs[k]) == 0) ip->addrs[k] = addr = balloc(ip->dev)` -/
def bmapAddr (i : Ip) (k : Fin (NDIRECT + 1)) : M Nat := do
  let c ← getCore
  if (c.inode i).d.addrs k = 0 then do
    let addr ← balloc e
    modifyCore fun c => c.setAddr i k addr
    pure addr
  else pure ((c.inode i).d.addrs k)

/-- `if((addr = a[j]) == 0){ a[j] = addr = balloc(ip->dev); log_write(bp); }`, in the block `b`. -/
def bmapEntry (b j : Nat) : M Nat := do
  let x ← bread e b
  if word x j = 0 then do
    let addr ← balloc e
    modifyCore fun c => c.setData b (setWord (c.data b) j addr)
    logWrite e b
    pure addr
  else pure (word x j)

def bmap (i : Ip) (bn : Nat) : M Nat :=
  if h : bn < NDIRECT then bmapAddr e i ⟨bn, Nat.lt_succ_of_lt h⟩
  else if bn - NDIRECT < NINDIRECT then do
    let b ← bmapAddr e i (Fin.last NDIRECT)
    bmapEntry e b (bn - NDIRECT)
  else throw (.panic "bmap: out of range")

/-- the direct addresses in `ks` are freed. -/
def truncDirect (i : Ip) : List (Fin (NDIRECT + 1)) → M Unit
  | [] => pure ()
  | k :: ks => do
    let c ← getCore
    if (c.inode i).d.addrs k = 0 then truncDirect i ks
    else do
      bfree e ((c.inode i).d.addrs k)
      modifyCore fun c => c.setAddr i k 0
      truncDirect i ks

/-- the entries `js` of the indirect block `x` are freed. -/
def truncEntries (x : Block) : List Nat → M Unit
  | [] => pure ()
  | j :: js =>
    if word x j = 0 then truncEntries x js
    else do
      bfree e (word x j)
      truncEntries x js

def truncIndirect (i : Ip) : M Unit := do
  let c ← getCore
  if (c.inode i).d.addrs (Fin.last NDIRECT) = 0 then pure ()
  else do
    let x ← bread e ((c.inode i).d.addrs (Fin.last NDIRECT))
    truncEntries e x (range NINDIRECT)
    bfree e ((c.inode i).d.addrs (Fin.last NDIRECT))
    modifyCore fun c => c.setAddr i (Fin.last NDIRECT) 0

def itrunc (i : Ip) : M Unit := do
  truncDirect e i ((finRange NDIRECT).map Fin.castSucc)
  truncIndirect e i
  modifyCore fun c => c.setCopy i { (c.inode i).d with size := 0 }
  iupdate e i

/-- the inode has no links and no other references: truncate and free. -/
def ifree (i : Ip) : M Unit := do
  itrunc e i
  modifyCore fun c => c.setCopy i { (c.inode i).d with type := 0 }
  iupdate e i
  modifyCore fun c => c.setInode i { c.inode i with valid := false }

def iput (i : Ip) : M Unit := do
  acquire i
  let c ← getCore
  (if (c.inode i).valid = true ∧ (c.inode i).d.nlink = 0 ∧ (c.inode i).ref = 1 then ifree e i
  else pure ())
  release i
  modifyCore fun c => c.setInode i { c.inode i with ref := (c.inode i).ref - 1 }

def iunlockput (i : Ip) : M Unit := do
  iunlock i
  iput e i

/-- the bytes `pos`, ..., `pos + m - 1` of a block. -/
def slice (x : Block) (pos m : Nat) : List UInt8 :=
  (range m).map fun k => byte x (pos + k)

/-- `memmove(bp->data + pos, src, m)` -/
def splice (x : Block) (pos m : Nat) (src : List UInt8) : Block := fun k =>
  if pos ≤ k.val ∧ k.val < pos + m then src.getD (k.val - pos) 0 else x k

/-- the loop of `readi`; `n` is `n - tot`. Each turn reads a byte at least, so that `n` turns are
enough. -/
def readLoop (i : Ip) : Nat → Nat → Nat → M (List UInt8)
  | 0, _, _ => pure []
  | fuel + 1, n, off =>
    if n = 0 then pure []
    else do
      let b ← bmap e i (off / BSIZE)
      let x ← bread e b
      let m := min n (BSIZE - off % BSIZE)
      let l ← readLoop i fuel (n - m) (off + m)
      pure (slice x (off % BSIZE) m ++ l)

/-- `readi`; -1 is `none`. -/
def readi (i : Ip) (off n : Nat) : M (Option (List UInt8)) := do
  let c ← getCore
  let d := (c.inode i).d
  if d.type = T_DEV then
    if d.major < 0 ∨ NDEV ≤ d.major then pure none
    else
      match e.read d.major with
      | some f => pure (f n)
      | none => pure none
  else if d.size < off ∨ (off + n) % 2 ^ 32 < off then pure none
  else do
    let n := if d.size < (off + n) % 2 ^ 32 then d.size - off else n
    let l ← readLoop e i n n off
    pure (some l)

/-- the loop of `writei`; it returns the last `off`. -/
def writeLoop (i : Ip) : Nat → List UInt8 → Nat → M Nat
  | 0, _, off => pure off
  | fuel + 1, src, off =>
    if src = [] then pure off
    else do
      let b ← bmap e i (off / BSIZE)
      let m := min src.length (BSIZE - off % BSIZE)
      bwriteLog e b fun x => splice x (off % BSIZE) m src
      writeLoop i fuel (src.drop m) (off + m)

/-- `writei`; -1 is `none`. -/
def writei (i : Ip) (src : List UInt8) (off : Nat) : M (Option Nat) := do
  let c ← getCore
  let d := (c.inode i).d
  if d.type = T_DEV then
    if d.major < 0 ∨ NDEV ≤ d.major then pure none
    else
      match e.write d.major with
      | some f => pure (f src)
      | none => pure none
  else if d.size < off ∨ (off + src.length) % 2 ^ 32 < off then pure none
  else if MAXFILE * BSIZE < (off + src.length) % 2 ^ 32 then pure none
  else do
    let off ← writeLoop e i src.length src off
    let c ← getCore
    if 0 < src.length ∧ (c.inode i).d.size < off then do
      modifyCore fun c => c.setCopy i { (c.inode i).d with size := off }
      iupdate e i
      pure (some src.length)
    else pure (some src.length)

end Xv6.Fs
