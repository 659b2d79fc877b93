import Xv6.Log.Head
import Xv6.Lib.Path
import Xv6.Lib.Total
import Xv6.Lib.WriteBack

/-!
# The buffer cache (`bio.c`, `iderw` in `memide.c`)

Finitely many processes use the cache. A step is one critical section under `bcache.lock` or one
action of the process that holds a buffer's sleep lock:

* `bread p b`        `bget`, up to `acquiresleep`;
* `locked p`         `acquiresleep` returns, and the rest of `bread`;
* `mark p i x`       `p` changes the data of its buffer `i` to `x` and sets `B_DIRTY`, as
                     `log_write` does;
* `bwrite p i x`     `p` changes the data and calls `bwrite`;
* `brelse p i`       `brelse`, up to `releasesleep`;
* `unref p`          the rest of `brelse`;
* `skip`             something that is no business of the cache.

`order` is the list of the buffers from `head.next` to `head.prev`. Everything happens on the root
device, but a buffer that was never used has the device number 0.
-/

set_option linter.unusedSectionVars false

namespace Xv6.Bio
open Lib Function List

/-- `param.h`: "size of disk block cache". -/
abbrev NBUF : Nat := MAXOPBLOCKS * 3

/-- `param.h`: "device number of file system root disk". -/
abbrev ROOTDEV : Nat := 1

/-- `struct buf`; `lock` is who holds the sleep lock. -/
structure Buf (ι : Type) where
  valid : Bool
  dirty : Bool
  dev : Nat
  blockno : Nat
  lock : Option ι
  refcnt : Nat
  data : Block

inductive BufPc where
  | idle
  /-- in `acquiresleep`, called from `bread(b)`. -/
  | waiting (b : Nat) (i : Fin NBUF)
  /-- in `brelse`, after `releasesleep`. -/
  | leaving (i : Fin NBUF)
  deriving DecidableEq

structure Cache (ι : Type) where
  buf : Fin NBUF → Buf ι
  order : List (Fin NBUF)
  disk : Disk
  pc : ι → BufPc

inductive Act (ι : Type) where
  | bread (p : ι) (b : Nat)
  | locked (p : ι)
  | mark (p : ι) (i : Fin NBUF) (x : Block)
  | bwrite (p : ι) (i : Fin NBUF) (x : Block)
  | brelse (p : ι) (i : Fin NBUF)
  | unref (p : ι)
  | skip

variable {ι : Type} [DecidableEq ι] {n : Nat} {c c' : Cache ι} {a : Act ι}

namespace Cache

def set (c : Cache ι) (i : Fin NBUF) (b : Buf ι) : Cache ι :=
  { c with buf := update c.buf i b }

def goto (c : Cache ι) (p : ι) (pc : BufPc) : Cache ι := { c with pc := update c.pc p pc }

section
variable (c : Cache ι)

@[simp] lemma set_buf_self (i : Fin NBUF) (b : Buf ι) : (c.set i b).buf i = b :=
  update_self ..

lemma set_buf_ne {i j : Fin NBUF} (b : Buf ι) (h : j ≠ i) : (c.set i b).buf j = c.buf j := update_of_ne h ..

@[simp] lemma set_set (i : Fin NBUF) (b b' : Buf ι) : (c.set i b).set i b' = c.set i b' := by
  unfold set
  rw [update_idem]

@[simp] lemma goto_set (i : Fin NBUF) (b : Buf ι) (p : ι) (pc : BufPc) :
    (c.goto p pc).set i b = (c.set i b).goto p pc := rfl

@[simp] lemma goto_buf (p : ι) (pc : BufPc) : (c.goto p pc).buf = c.buf := rfl

end

/-- `binit`: each buffer is put before the others. -/
def binit (disk : Disk) : Cache ι where
  buf := fun _ => ⟨false, false, 0, 0, none, 0, fun _ => 0⟩
  order := (finRange NBUF).reverse
  disk := disk
  pc := fun _ => .idle

def hasBlock (c : Cache ι) (dev b : Nat) (i : Fin NBUF) : Bool :=
  (c.buf i).dev = dev ∧ (c.buf i).blockno = b

def isUnused (c : Cache ι) (i : Fin NBUF) : Bool := (c.buf i).refcnt = 0 ∧ (c.buf i).dirty = false

/-- the first loop of `bget`. -/
def cached (c : Cache ι) (dev b : Nat) : Option (Fin NBUF) := c.order.find? (c.hasBlock dev b)

/-- the second loop of `bget`, from the other end. -/
def unused (c : Cache ι) : Option (Fin NBUF) := c.order.reverse.find? c.isUnused

end Cache

variable {p : ι} {b : Nat} {i : Fin NBUF}

/-- `bget`; `p` goes on to wait for the lock of the buffer. -/
def bget (c : Cache ι) (p : ι) (dev b : Nat) : Except Stop (Cache ι) :=
  match c.cached dev b with
  | some i =>
    .ok ((c.set i { c.buf i with refcnt := (c.buf i).refcnt + 1 }).goto p (.waiting b i))
  | none =>
    match c.unused with
    | some i =>
      .ok ((c.set i { c.buf i with dev := dev, blockno := b, valid := false, dirty := false,
                                   refcnt := 1 }).goto p (.waiting b i))
    | none => .error (.panic "bget: no buffers")

/-- `iderw`, for a disk of `n` blocks. -/
def iderw (n : Nat) (c : Cache ι) (p : ι) (i : Fin NBUF) : Except Stop (Cache ι) :=
  if (c.buf i).lock ≠ some p then .error (.panic "iderw: buf not locked")
  else if (c.buf i).valid = true ∧ (c.buf i).dirty = false then
    .error (.panic "iderw: nothing to do")
  else if (c.buf i).dev ≠ 1 then .error (.panic "iderw: request not for disk 1")
  else if n ≤ (c.buf i).blockno then .error (.panic "iderw: block out of range")
  else if (c.buf i).dirty then
    .ok { c.set i { c.buf i with dirty := false, valid := true } with
          disk := update c.disk (c.buf i).blockno (c.buf i).data }
  else .ok (c.set i { c.buf i with data := c.disk (c.buf i).blockno, valid := true })

/-- `acquiresleep` returns to `bread`. -/
def locked (n : Nat) (c : Cache ι) (p : ι) (i : Fin NBUF) : Except Stop (Cache ι) :=
  if (c.buf i).lock = none then
    if (c.buf i).valid then .ok ((c.set i { c.buf i with lock := some p }).goto p .idle)
    else iderw n ((c.set i { c.buf i with lock := some p }).goto p .idle) p i
  else .error .blocked

/-- `p` changes the data, then `bwrite`. -/
def bwrite (n : Nat) (c : Cache ι) (p : ι) (i : Fin NBUF) (x : Block) : Except Stop (Cache ι) :=
  if (c.buf i).lock ≠ some p then .error (.panic "bwrite")
  else iderw n (c.set i { c.buf i with data := x, dirty := true }) p i

/-- `brelse` up to `releasesleep`. -/
def brelse (c : Cache ι) (p : ι) (i : Fin NBUF) : Except Stop (Cache ι) :=
  if (c.buf i).lock ≠ some p then .error (.panic "brelse")
  else .ok ((c.set i { c.buf i with lock := none }).goto p (.leaving i))

/-- the rest of `brelse`: a buffer that nobody waits for is moved to the head of the list. -/
def unref (c : Cache ι) (p : ι) (i : Fin NBUF) : Cache ι :=
  { (c.set i { c.buf i with refcnt := (c.buf i).refcnt - 1 }).goto p .idle with
    order := if (c.buf i).refcnt - 1 = 0 then i :: c.order.erase i else c.order }

def Cache.act (n : Nat) (c : Cache ι) : Act ι → Except Stop (Cache ι)
  | .bread p b => if c.pc p = .idle then bget c p ROOTDEV b else .error .blocked
  | .locked p =>
    match c.pc p with
    | .waiting _ i => locked n c p i
    | _ => .error .blocked
  | .mark p i x =>
    if c.pc p = .idle ∧ (c.buf i).lock = some p then
      .ok (c.set i { c.buf i with data := x, dirty := true })
    else .error .blocked
  | .bwrite p i x => if c.pc p = .idle then bwrite n c p i x else .error .blocked
  | .brelse p i => if c.pc p = .idle then brelse c p i else .error .blocked
  | .unref p =>
    match c.pc p with
    | .leaving i => .ok (unref c p i)
    | _ => .error .blocked
  | .skip => .ok c

/-! ## every step -/

/-- every way in which an action can change the cache. -/
inductive Did (n : Nat) (c : Cache ι) : Act ι → Cache ι → Prop
  | hit {p : ι} {b : Nat} {i : Fin NBUF} (hp : c.pc p = .idle) (hi : c.hasBlock ROOTDEV b i = true) :
      Did n c (.bread p b) ((c.set i { c.buf i with refcnt := (c.buf i).refcnt + 1 }).goto p (.waiting b i))
  | recycle {p : ι} {b : Nat} {i : Fin NBUF} (hp : c.pc p = .idle)
      (hno : ∀ j ∈ c.order, c.hasBlock ROOTDEV b j = false) (hi : c.isUnused i = true) :
      Did n c (.bread p b)
        ((c.set i { c.buf i with dev := ROOTDEV, blockno := b, valid := false, dirty := false,
                                 refcnt := 1 }).goto p (.waiting b i))
  | found {p : ι} {b : Nat} {i : Fin NBUF} (hp : c.pc p = .waiting b i)
      (hl : (c.buf i).lock = none) (hv : (c.buf i).valid = true) :
      Did n c (.locked p) ((c.set i { c.buf i with lock := some p }).goto p .idle)
  | fetch {p : ι} {b : Nat} {i : Fin NBUF} (hp : c.pc p = .waiting b i)
      (hl : (c.buf i).lock = none) (hv : (c.buf i).valid = false) (hn : (c.buf i).blockno < n) :
      Did n c (.locked p)
        ((c.set i { c.buf i with lock := some p, data := c.disk (c.buf i).blockno,
                                 valid := true }).goto p .idle)
  | mark {p : ι} {i : Fin NBUF} {x : Block} (hp : c.pc p = .idle) (hl : (c.buf i).lock = some p) :
      Did n c (.mark p i x) (c.set i { c.buf i with data := x, dirty := true })
  | bwrite {p : ι} {i : Fin NBUF} {x : Block} (hp : c.pc p = .idle)
      (hl : (c.buf i).lock = some p) (hn : (c.buf i).blockno < n) :
      Did n c (.bwrite p i x) { c.set i { c.buf i with data := x, dirty := false, valid := true } with
          disk := update c.disk (c.buf i).blockno x }
  | brelse {p : ι} {i : Fin NBUF} (hp : c.pc p = .idle) (hl : (c.buf i).lock = some p) :
      Did n c (.brelse p i) ((c.set i { c.buf i with lock := none }).goto p (.leaving i))
  | unref {p : ι} {i : Fin NBUF} (hp : c.pc p = .leaving i) : Did n c (.unref p) (unref c p i)
  | skip : Did n c .skip c

lemma bget_did (hp : c.pc p = .idle) (h : bget c p ROOTDEV b = .ok c') : Did n c (.bread p b) c' := by
  unfold bget at h
  split at h
  · next i hi => cases h; exact .hit hp (find?_some hi)
  · next hno =>
    split at h
    · next i hi =>
      cases h
      refine .recycle hp (fun j hj => ?_) (find?_some hi)
      exact Bool.eq_false_iff.mpr (find?_eq_none.mp hno j hj)
    · cases h

lemma iderw_ok (h : iderw n c p i = .ok c') : (c.buf i).blockno < n ∧
    c' = if (c.buf i).dirty then
        { c.set i { c.buf i with dirty := false, valid := true } with
          disk := update c.disk (c.buf i).blockno (c.buf i).data }
      else c.set i { c.buf i with data := c.disk (c.buf i).blockno, valid := true } := by
  unfold iderw at h
  split at h
  · cases h
  split at h
  · cases h
  split at h
  · cases h
  split at h
  · cases h
  · next hn =>
    refine ⟨Nat.lt_of_not_le hn, ?_⟩
    split at h <;> cases h
    · next hd => rw [if_pos hd]
    · next hd => rw [if_neg hd]

lemma locked_did (hp : c.pc p = .waiting b i)
    (hd : (c.buf i).dirty = true → (c.buf i).valid = true) (h : locked n c p i = .ok c') :
    Did n c (.locked p) c' := by
  unfold locked at h
  split at h
  · next hl =>
    split at h
    · next hv => cases h; exact .found hp hl hv
    · next hv =>
      have hv' := Bool.eq_false_iff.mpr hv
      have hd' : (c.buf i).dirty = false := Bool.eq_false_iff.mpr fun e => hv (hd e)
      obtain ⟨hn, rfl⟩ := iderw_ok h
      rw [if_neg (by simpa using hd')]
      simp only [Cache.goto_buf, Cache.set_buf_self, Cache.goto_set, Cache.set_set] at hn ⊢
      exact .fetch hp hl hv' hn
  · cases h

lemma bwrite_did {x : Block} (hp : c.pc p = .idle) (h : bwrite n c p i x = .ok c') : Did n c (.bwrite p i x) c' := by
  unfold bwrite at h
  split at h
  · cases h
  · next hl =>
    obtain ⟨hn, rfl⟩ := iderw_ok h
    simp only [if_true, Cache.set_buf_self, Cache.set_set] at hn ⊢
    exact .bwrite hp (by simpa using hl) hn

lemma act_did (hd : ∀ i, (c.buf i).dirty = true → (c.buf i).valid = true)
    (h : c.act n a = .ok c') : Did n c a c' := by
  cases a with
  | bread =>
    unfold Cache.act at h
    dsimp only at h
    split at h
    · next hp => exact bget_did hp h
    · cases h
  | locked =>
    unfold Cache.act at h
    dsimp only at h
    split at h
    · next b i hp => exact locked_did hp (hd i) h
    · cases h
  | mark =>
    unfold Cache.act at h
    dsimp only at h
    split at h
    · next hp => cases h; exact .mark hp.1 hp.2
    · cases h
  | bwrite =>
    unfold Cache.act at h
    dsimp only at h
    split at h
    · next hp => exact bwrite_did hp h
    · cases h
  | brelse =>
    unfold Cache.act brelse at h
    dsimp only at h
    split at h
    · next hp =>
      split at h
      · cases h
      · next hl => cases h; exact .brelse hp (by simpa using hl)
    · cases h
  | unref =>
    unfold Cache.act at h
    dsimp only at h
    split at h
    · next i hp => cases h; exact .unref hp
    · cases h
  | skip => cases h; exact .skip

end Xv6.Bio
