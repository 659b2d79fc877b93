import Xv6.Fs.Inode

/-!
# Directories and path names (`fs.c`, `string.c`)

A directory is an inode whose content is a list of 16-byte entries: a number and a name of
`DIRSIZ` bytes. A string is the list of its bytes without the NUL.
-/

namespace Xv6.Fs
open Lib

variable (e : Env)

/-! ## names -/

/-- `strncmp(p, q, n)`; a string that is over reads as NUL. -/
def strncmp : Nat → List UInt8 → List UInt8 → Int
  | 0, _, _ => 0
  | n + 1, p, q =>
    if p.headD 0 ≠ 0 ∧ p.headD 0 = q.headD 0 then strncmp n p.tail q.tail
    else (p.headD 0).toNat - (q.headD 0).toNat

def namecmp (s t : List UInt8) : Int := strncmp DIRSIZ s t

/-- what `strncpy(s, t, n)` leaves in `s`. -/
def strncpy (n : Nat) (t : List UInt8) : List UInt8 :=
  let l := (t.takeWhile (· ≠ 0)).take n
  l ++ List.replicate (n - l.length) 0

/-- `'/'` -/
def slash : UInt8 := 47

/-- the next path element, and the path after it. Of the buffer `name` this is the string: what a
longer element left after its NUL is not kept, `strncmp` and `strncpy` do not read it. -/
def skipelem (path : List UInt8) : Option (List UInt8 × List UInt8) :=
  let s := path.dropWhile (· = slash)
  if s = [] then none
  else some ((s.takeWhile (· ≠ slash)).take DIRSIZ, (s.dropWhile (· ≠ slash)).dropWhile (· = slash))

/-! ## directories -/

/-- `sizeof(struct dirent)` -/
abbrev DESIZE : Nat := 16

/-- `de.inum`, a `ushort`. -/
def deInum (de : List UInt8) : Nat := (de.getD 0 0).toNat + 256 * (de.getD 1 0).toNat

def deName (de : List UInt8) : List UInt8 := de.drop 2

def dirent (inum : Nat) (name : List UInt8) : List UInt8 :=
  UInt8.ofNat inum :: UInt8.ofNat (inum / 256) :: strncpy DIRSIZ name

/-- the offsets `start`, `start + sizeof(de)`, ... below `size`. -/
def offsets (start size : Nat) : List Nat :=
  (List.range ((size - start + (DESIZE - 1)) / DESIZE)).map fun t => start + DESIZE * t

/-- a whole entry is read, or the caller panics. -/
def readDe (msg : String) (i : Ip) (off : Nat) : M (List UInt8) := do
  let r ← readi e i off DESIZE
  match r with
  | some de => if de.length = DESIZE then pure de else throw (.panic msg)
  | none => throw (.panic msg)

/-- a whole entry is written, or the caller panics. -/
def writeDe (msg : String) (i : Ip) (de : List UInt8) (off : Nat) : M Unit := do
  let r ← writei e i de off
  if r = some DESIZE then pure () else throw (.panic msg)

def lookupLoop (i : Ip) (name : List UInt8) : List Nat → M (Option (Ip × Nat))
  | [] => pure none
  | off :: offs => do
    let de ← readDe e "dirlookup read" i off
    if deInum de = 0 then lookupLoop i name offs
    else if namecmp name (deName de) = 0 then do
      let ip ← iget (deInum de)
      pure (some (ip, off))
    else lookupLoop i name offs

/-- the inode of the entry, and its offset. -/
def dirlookup (i : Ip) (name : List UInt8) : M (Option (Ip × Nat)) := do
  let c ← getCore
  if (c.inode i).d.type ≠ T_DIR then throw (.panic "dirlookup not DIR")
  else lookupLoop e i name (offsets 0 (c.inode i).d.size)

/-- look for an empty entry at the offsets; where there is none, the next offset is returned. -/
def emptyLoop (i : Ip) : Nat → List Nat → M Nat
  | next, [] => pure next
  | _, off :: offs => do
    let de ← readDe e "dirlink read" i off
    if deInum de = 0 then pure off else emptyLoop i (off + DESIZE) offs

/-- `dirlink`: is the entry new? -/
def dirlink (i : Ip) (name : List UInt8) (inum : Nat) : M Bool := do
  let r ← dirlookup e i name
  match r with
  | some (ip, _) => do
    iput e ip
    pure false
  | none => do
    let c ← getCore
    let off ← emptyLoop e i 0 (offsets 0 (c.inode i).d.size)
    writeDe e "dirlink" i (dirent inum name) off
    pure true

/-! ## paths -/

/-- the loop of `namex`; each turn takes an element off the path, so that its length is enough
fuel. -/
def namexLoop (parent : Bool) : Nat → List UInt8 → Ip → List UInt8 →
    M (Option (Ip × List UInt8))
  | 0, _, _, _ => throw .index
  | fuel + 1, path, ip, name =>
    match skipelem path with
    | some (name, path) => do
      ilock e ip
      let c ← getCore
      if (c.inode ip).d.type ≠ T_DIR then do
        iunlockput e ip
        pure none
      else if parent = true ∧ path = [] then do
        -- stop one level early
        iunlock ip
        pure (some (ip, name))
      else do
        let r ← dirlookup e ip name
        match r with
        | some (next, _) => do
          iunlockput e ip
          namexLoop parent fuel path next name
        | none => do
          iunlockput e ip
          pure none
    | none =>
      if parent then do
        iput e ip
        pure none
      else pure (some (ip, name))

/-- the inode that a path starts from. -/
def start (cwd : Ip) (path : List UInt8) : M Ip :=
  if path.head? = some slash then iget ROOTINO else idup cwd

def namex (parent : Bool) (cwd : Ip) (path : List UInt8) : M (Option (Ip × List UInt8)) := do
  let ip ← start cwd path
  namexLoop e parent (path.length + 1) path ip []

def namei (cwd : Ip) (path : List UInt8) : M (Option Ip) := do
  let r ← namex e false cwd path
  pure (r.map Prod.fst)

def nameiparent (cwd : Ip) (path : List UInt8) : M (Option (Ip × List UInt8)) :=
  namex e true cwd path

end Xv6.Fs
