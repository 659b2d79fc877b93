import Xv6.Lib.Bits
import Xv6.Fs.Dir

/-!
# `mkfs`: the image of the initial file system (`mkfs.c`)

The image is a file of sectors. A call is a program over the image and the two counters `freeinode` and `freeblock`;
`Exit` is how `mkfs` gives up. The host is little-endian, so that `xint` and `xshort` leave a number as it is, and an
integer of the host stands in the image as the kernel reads it.

An input file is its name and what the calls of `read` return for it, one after the other.
-/

namespace Xv6.Mkfs
open Lib Fs

abbrev NINODES : Nat := 200

/-- `sizeof(struct dinode)` is 64. -/
abbrev IPB : Nat := BSIZE / 64

abbrev nbitmap : Nat := FSSIZE / (BSIZE * 8) + 1
abbrev ninodeblocks : Nat := NINODES / IPB + 1
abbrev nlog : Nat := LOGSIZE
abbrev nmeta : Nat := 2 + nlog + ninodeblocks + nbitmap
abbrev inodestart : Nat := 2 + nlog
abbrev bmapstart : Nat := 2 + nlog + ninodeblocks

structure Image where
  sect : Nat → Block
  freeinode : Nat
  freeblock : Nat

/-- a failed `assert`, or `perror` and `exit(1)`. -/
inductive Exit where
  | assert (text : String)
  | perror (text : String)

abbrev P := StateT Image (Except Exit)

/-! ## sectors -/

/-- the image has `FSSIZE` sectors; behind them `read` returns 0. -/
def rsect (sec : Nat) : P Block := do
  let im ← get
  if sec < FSSIZE then pure (im.sect sec) else throw (.perror "read")

def wsect (sec : Nat) (buf : Block) : P Unit := modify fun im =>
  { im with sect := Function.update im.sect sec buf }

/-! ## inodes -/

/-- the bits of a `short`. -/
def ushort (x : Int) : Nat := (x % 2 ^ 16).toNat

/-- the words of a `struct dinode`. -/
def dinodeWord (d : Dinode) : Nat → Nat
  | 0 => ushort d.type + 2 ^ 16 * ushort d.major
  | 1 => ushort d.minor + 2 ^ 16 * ushort d.nlink
  | 2 => d.size
  | k + 3 => if h : k < NDIRECT + 1 then d.addrs ⟨k, h⟩ else 0

/-- the `j`-th `struct dinode` of a block. -/
def getDinode (x : Block) (j : Nat) : Dinode where
  type := short (word x (16 * j) % 2 ^ 16 : Nat)
  major := short (word x (16 * j) / 2 ^ 16 : Nat)
  minor := short (word x (16 * j + 1) % 2 ^ 16 : Nat)
  nlink := short (word x (16 * j + 1) / 2 ^ 16 : Nat)
  size := word x (16 * j + 2)
  addrs := fun k => word x (16 * j + 3 + k)

/-- `*dip = *ip` -/
def putDinode (x : Block) (j : Nat) (d : Dinode) : Block := setWords x (16 * j) 16 (dinodeWord d)

/-- `IBLOCK(inum, sb)` -/
def iblock (inum : Nat) : Nat := inum / IPB + inodestart

def rinode (inum : Nat) : P Dinode := do
  let buf ← rsect (iblock inum)
  pure (getDinode buf (inum % IPB))

def winode (inum : Nat) (d : Dinode) : P Unit := do
  let buf ← rsect (iblock inum)
  wsect (iblock inum) (putDinode buf (inum % IPB) d)

def ialloc (type : Int) : P Nat := do
  let im ← get
  set { im with freeinode := im.freeinode + 1 }
  winode im.freeinode { Dinode.zero with type := type, nlink := 1 }
  pure im.freeinode

/-! ## the content of a file -/

/-- `freeblock++` -/
def newBlock : P Nat := do
  let im ← get
  set { im with freeblock := im.freeblock + 1 }
  pure im.freeblock

/-- `if(din.addrs[k] == 0) din.addrs[k] = freeblock++`, and the address. -/
def mapAddr (din : Dinode) (k : Fin (NDIRECT + 1)) : P (Dinode × Nat) :=
  if din.addrs k = 0 then do
    let b ← newBlock
    pure (din.setAddr k b, b)
  else pure (din, din.addrs k)

/-- the entry `j` of the indirect block `b`. -/
def mapEntry (b j : Nat) : P Nat := do
  let indirect ← rsect b
  if word indirect j = 0 then do
    let x ← newBlock
    wsect b (setWord indirect j x)
    pure x
  else pure (word indirect j)

/-- the sector of the block `fbn` of the file. -/
def mapBlock (din : Dinode) (fbn : Nat) : P (Dinode × Nat) :=
  if h : fbn < NDIRECT then mapAddr din ⟨fbn, Nat.lt_succ_of_lt h⟩
  else do
    let (din, b) ← mapAddr din (Fin.last NDIRECT)
    let x ← mapEntry b (fbn - NDIRECT)
    pure (din, x)

/-- a turn of the loop of `iappend`: `n1` bytes of `p` go to the block of `off`. -/
def appendTurn (din : Dinode) (off n1 : Nat) (p : List UInt8) : P Dinode := do
  let (din, x) ← mapBlock din (off / BSIZE)
  let buf ← rsect x
  wsect x (splice buf (off - off / BSIZE * BSIZE) n1 p)
  pure din

/-- the loop of `iappend`; each turn takes a byte at least, so that `n` turns are enough. -/
def appendLoop : Nat → Dinode → Nat → List UInt8 → P (Dinode × Nat)
  | 0, din, off, _ => pure (din, off)
  | fuel + 1, din, off, p =>
    if p = [] then pure (din, off)
    else if MAXFILE ≤ off / BSIZE then throw (.assert "fbn < MAXFILE")
    else do
      let n1 := min p.length ((off / BSIZE + 1) * BSIZE - off)
      let din ← appendTurn din off n1 p
      appendLoop fuel din (off + n1) (p.drop n1)

def iappend (inum : Nat) (p : List UInt8) : P Unit := do
  let din ← rinode inum
  let (din, off) ← appendLoop p.length din din.size p
  winode inum { din with size := off }

/-! ## the image -/

/-- the words of the super block. -/
def superWord : Nat → Nat
  | 0 => FSSIZE
  | 1 => FSSIZE - nmeta
  | 2 => NINODES
  | 3 => nlog
  | 4 => 2
  | 5 => inodestart
  | 6 => bmapstart
  | _ => 0

/-- all sectors are zero, but for the super block. -/
@[irreducible]
def format : P Unit := do
  modify fun im => { im with freeblock := nmeta }
  (List.range FSSIZE).forM fun i => wsect i fun _ => 0
  wsect 1 (setWords (fun _ => 0) 0 7 superWord)

/-- the free map: the first `used` blocks are in use. -/
def balloc (used : Nat) : P Unit :=
  if BSIZE * 8 ≤ used then throw (.assert "used < BSIZE*8")
  else wsect bmapstart ((List.range used).foldl setBit fun _ => 0)

structure Input where
  name : List UInt8
  reads : List (List UInt8)

/-- the name without a leading `_`. -/
def skipUnderscore (name : List UInt8) : List UInt8 := if name.head? = some 95 then name.tail else name

def addFile (rootino : Nat) (f : Input) : P Unit :=
  if slash ∈ f.name then throw (.assert "index(argv[i], '/') == 0")
  else do
    let inum ← ialloc T_FILE
    iappend rootino (dirent inum (skipUnderscore f.name))
    f.reads.forM (iappend inum)

/-- `"."` and `".."` -/
def dot : List UInt8 := [46]
def dotdot : List UInt8 := [46, 46]

/-- fix size of root inode dir. -/
def fixRoot (rootino : Nat) : P Unit := do
  let din ← rinode rootino
  winode rootino { din with size := (din.size / BSIZE + 1) * BSIZE }

def makeRoot : P Nat := do
  let rootino ← ialloc T_DIR
  if rootino ≠ ROOTINO then throw (.assert "rootino == ROOTINO")
  else do
    iappend rootino (dirent rootino dot)
    iappend rootino (dirent rootino dotdot)
    pure rootino

def main (files : List Input) : P Unit := do
  format
  let rootino ← makeRoot
  files.forM (addFile rootino)
  fixRoot rootino
  let im ← get
  balloc im.freeblock

/-- the image file is new. -/
def Image.start : Image := ⟨fun _ _ => 0, 1, 0⟩

/-! ## what the kernel reads from the image -/

def Image.dinode (im : Image) (n : Nat) : Dinode :=
  if n < NINODES then getDinode (im.sect (iblock n)) (n % IPB) else Dinode.zero

/-- the bit of `b` in the free map. -/
def Image.used (im : Image) (b : Nat) : Bool := bitAt (im.sect (bmapstart + b / (BSIZE * 8))) (b % (BSIZE * 8))

/-- the blocks of the data area. -/
def Image.data (im : Image) (b : Nat) : Block := if b < nmeta then fun _ => 0 else im.sect b

/-! ## reading back a `struct dinode` -/

/-- the numbers fit in their fields. -/
structure Fits (d : Dinode) : Prop where
  type : short d.type = d.type
  major : short d.major = d.major
  minor : short d.minor = d.minor
  nlink : short d.nlink = d.nlink
  size : d.size < 2 ^ 32
  addrs : ∀ k, d.addrs k < 2 ^ 32

lemma ushort_lt (x : Int) : ushort x < 2 ^ 16 := by
  unfold ushort
  have h := Int.emod_lt_of_pos x (show (0 : Int) < 2 ^ 16 by decide)
  have h' := Int.emod_nonneg x (show (2 ^ 16 : Int) ≠ 0 by decide)
  omega

lemma short_ushort (x : Int) : short (ushort x) = short x := by
  have h' := Int.emod_nonneg x (show (2 ^ 16 : Int) ≠ 0 by decide)
  unfold short ushort
  rw [Int.toNat_of_nonneg h']
  exact_mod_cast Int.emod_bmod x (2 ^ 16)

lemma short_short (x : Int) : short (short x) = short x := Int.bmod_bmod

lemma fits_get (x : Block) (j : Nat) : Fits (getDinode x j) := by
  unfold getDinode
  refine ⟨?_, ?_, ?_, ?_, word_lt x (16 * j + 2), fun k => word_lt x (16 * j + 3 + k)⟩
  all_goals
    dsimp only
    rw [short_short]

variable {d : Dinode} {x : Block} {i j : Nat}

lemma word_putDinode (hj : j < IPB) (hi : i < 128) :
    word (putDinode x j d) i = if i / 16 = j then dinodeWord d (i % 16) % 2 ^ 32 else word x i := by
  unfold putDinode
  rw [word_setWords _ _ hi]
  have hj : j < 8 := hj
  by_cases h : i / 16 = j
  · rw [if_pos h, if_pos (by omega)]
    congr 2
    omega
  · rw [if_neg h, if_neg (by omega)]

lemma getDinode_put (hd : Fits d) (hj : j < IPB) : getDinode (putDinode x j d) j = d := by
  have hj' : j < 8 := hj
  have hw : ∀ t, t < 16 → word (putDinode x j d) (16 * j + t) = dinodeWord d t % 2 ^ 32 := by
    intro t ht
    rw [word_putDinode hj (by omega), if_pos (by omega)]
    congr 2
    omega
  have h0 : word (putDinode x j d) (16 * j) = ushort d.type + 2 ^ 16 * ushort d.major := by
    have h1 := ushort_lt d.type
    have h2 := ushort_lt d.major
    refine (hw 0 (by decide)).trans (Nat.mod_eq_of_lt ?_)
    show ushort d.type + 2 ^ 16 * ushort d.major < 2 ^ 32
    omega
  have h1 : word (putDinode x j d) (16 * j + 1) = ushort d.minor + 2 ^ 16 * ushort d.nlink := by
    have h1 := ushort_lt d.minor
    have h2 := ushort_lt d.nlink
    refine (hw 1 (by decide)).trans (Nat.mod_eq_of_lt ?_)
    show ushort d.minor + 2 ^ 16 * ushort d.nlink < 2 ^ 32
    omega
  have h2 : word (putDinode x j d) (16 * j + 2) = d.size := by
    refine (hw 2 (by decide)).trans (Nat.mod_eq_of_lt hd.size)
  have h3 : ∀ k : Fin (NDIRECT + 1), word (putDinode x j d) (16 * j + 3 + k) = d.addrs k := by
    intro k
    have hk : k.val < 13 := k.isLt
    have h3 : dinodeWord d (k + 3) = d.addrs k := dif_pos hk
    have h4 : 16 * j + 3 + k.val = 16 * j + (k.val + 3) := by omega
    rw [h4, hw _ (by omega), h3]
    exact Nat.mod_eq_of_lt (hd.addrs k)
  have hlow : ∀ a b : Nat, a < 2 ^ 16 → (a + 2 ^ 16 * b) % 2 ^ 16 = a := by
    intro a b ha
    omega
  have hhigh : ∀ a b : Nat, a < 2 ^ 16 → (a + 2 ^ 16 * b) / 2 ^ 16 = b := by
    intro a b ha
    omega
  unfold getDinode
  rw [h0, h1, h2, hlow _ _ (ushort_lt _), hhigh _ _ (ushort_lt _), hlow _ _ (ushort_lt _), hhigh _ _ (ushort_lt _),
    short_ushort, short_ushort, short_ushort, short_ushort, hd.type, hd.major, hd.minor, hd.nlink, funext h3]

lemma getDinode_put_of_ne {j' : Nat} (hj : j < IPB) (hj' : j' < IPB) (hne : j' ≠ j) :
    getDinode (putDinode x j d) j' = getDinode x j' := by
  have hlt : j' < 8 := hj'
  have hw : ∀ t, t < 16 → word (putDinode x j d) (16 * j' + t) = word x (16 * j' + t) := by
    intro t ht
    rw [word_putDinode hj (by omega), if_neg (by omega)]
  have h0 := hw 0 (by decide)
  have h3 : ∀ k : Fin (NDIRECT + 1), word (putDinode x j d) (16 * j' + 3 + k) = word x (16 * j' + 3 + k) := by
    intro k
    have hk : k.val < 13 := k.isLt
    have h4 : 16 * j' + 3 + k.val = 16 * j' + (k.val + 3) := by omega
    rw [h4]
    exact hw _ (by omega)
  rw [Nat.add_zero] at h0
  unfold getDinode
  rw [h0, hw 1 (by decide), hw 2 (by decide), funext h3]

end Xv6.Mkfs
