import Xv6.Bio.Coherence
import Xv6.Log.Crash

/-!
# The log over the buffer cache (`log_write`, `commit` in `log.c`)

Processes call `bread`, `log_write`, `bwrite` and `brelse` in any order, on any block; one of them
may be inside `commit`, which is a program of such calls:

    write_log       to = bread(slot), from = bread(home), copy, bwrite(to), brelse(from), brelse(to)
    write_head      buf = bread(start), bwrite(buf), brelse(buf)
    install_trans   lbuf = bread(slot), dbuf = bread(home), copy, bwrite(dbuf), brelse, brelse
    log.lh.n = 0, write_head

Each step of the machine is one action of the cache (`Label.act`). A pointer that `bread(b)` has
returned to `commit` is kept in `vars b` until it is released. `log_write` is one step here, and is
not called during a commit (`CommitsWhole.quiet`).
-/

namespace Xv6.Bio
open Lib
open Log (Layout)

variable {ι : Type} [DecidableEq ι]

/-! ## the program of `commit` -/

inductive Cmd where
  | bread (b : Nat)
  /-- `memmove(dst->data, src->data, BSIZE)` and `bwrite(dst)`. -/
  | copy (dst src : Nat)
  /-- the header is filled in from `log.lh`, and `bwrite`. -/
  | head
  /-- `log.lh.n = 0` -/
  | clear
  | brelse (b : Nat)
  deriving DecidableEq

/-- the log block of the entry `tail`. -/
def slot (L : Layout) (tail : Nat) : Nat := L.start + tail + 1

/-- `write_log`, from the entry `tail` on. -/
def writeLog (L : Layout) : Nat → List Nat → List Cmd
  | _, [] => []
  | tail, b :: lh =>
    [.bread (slot L tail), .bread b, .copy (slot L tail) b, .brelse b, .brelse (slot L tail)] ++
      writeLog L (tail + 1) lh

def writeHead (L : Layout) : List Cmd := [.bread L.start, .head, .brelse L.start]

/-- `install_trans`, from the entry `tail` on. -/
def installTrans (L : Layout) : Nat → List Nat → List Cmd
  | _, [] => []
  | tail, b :: lh =>
    [.bread (slot L tail), .bread b, .copy b (slot L tail), .brelse (slot L tail), .brelse b] ++
      installTrans L (tail + 1) lh

def commit (L : Layout) (lh : List Nat) : List Cmd :=
  if lh = [] then []
  else writeLog L 0 lh ++ writeHead L ++ installTrans L 0 lh ++ .clear :: writeHead L

/-! ## the machine -/

structure Commit (ι : Type) where
  who : ι
  vars : Nat → Option (Fin NBUF)
  prog : List Cmd

structure Sys (ι : Type) where
  cache : Cache ι
  lh : List Nat
  commit : Option (Commit ι)

inductive Label (ι : Type) where
  | bread (p : ι) (b : Nat)
  | locked (p : ι)
  | logWrite (p : ι) (i : Fin NBUF) (x : Block)
  | bwrite (p : ι) (i : Fin NBUF) (x : Block)
  | brelse (p : ι) (i : Fin NBUF)
  | unref (p : ι)
  | commit (p : ι)
  | next

abbrev Trace (ι : Type) := List (Sys ι × Label ι)

def Sys.init (disk : Disk) : Sys ι := ⟨.binit disk, [], none⟩

/-- `p` is not the one who is inside `commit`. -/
def Sys.outside (s : Sys ι) (p : ι) : Bool :=
  match s.commit with
  | some k => k.who ≠ p
  | none => true

/-- what a command of `commit` asks of the cache. -/
def Cmd.act (L : Layout) (s : Sys ι) (k : Commit ι) : Cmd → Except Stop (Act ι)
  | .bread b => .ok (.bread k.who b)
  | .copy dst src =>
    match k.vars dst, k.vars src with
    | some i, some j => .ok (.bwrite k.who i (s.cache.buf j).data)
    | _, _ => .error .null
  | .head =>
    match k.vars L.start with
    | some i => .ok (.bwrite k.who i (Log.writeHead s.lh (s.cache.buf i).data))
    | none => .error .null
  | .clear => .ok .skip
  | .brelse b =>
    match k.vars b with
    | some i => .ok (.brelse k.who i)
    | none => .error .null

def Commit.act (L : Layout) (s : Sys ι) (k : Commit ι) : Except Stop (Act ι) :=
  if s.cache.pc k.who = .idle then
    match k.prog with
    | [] => .ok .skip
    | cmd :: _ => cmd.act L s k
  else .error .blocked

/-- what a label asks of the cache. -/
def Label.act (L : Layout) (s : Sys ι) : Label ι → Except Stop (Act ι)
  | .bread p b => if s.outside p then .ok (.bread p b) else .error .blocked
  | .locked p => .ok (.locked p)
  | .logWrite p i x =>
    if s.commit.isSome then .error .blocked
    else if LOGSIZE ≤ s.lh.length ∨ (L.size : Int) - 1 ≤ s.lh.length then
      .error (.panic "too big a transaction")
    else .ok (.mark p i x)
  | .bwrite p i x => if s.outside p then .ok (.bwrite p i x) else .error .blocked
  | .brelse p i => if s.outside p then .ok (.brelse p i) else .error .blocked
  | .unref p => .ok (.unref p)
  | .commit p => if s.commit.isNone ∧ s.cache.pc p = .idle then .ok .skip else .error .blocked
  | .next =>
    match s.commit with
    | some k => k.act L s
    | none => .error .blocked

/-- the log with the block `b` in it. -/
def logged (lh : List Nat) (b : Nat) : List Nat := if b ∈ lh then lh else lh ++ [b]

/-- the buffer that `p` waits for. -/
def Cache.wanted (c : Cache ι) (p : ι) : Option (Fin NBUF) :=
  match c.pc p with
  | .waiting _ i => some i
  | _ => none

/-- the first command of `commit` is done, and has left the cache `c`. -/
def Commit.next (s : Sys ι) (k : Commit ι) (c : Cache ι) : Sys ι :=
  match k.prog with
  | [] => ⟨c, s.lh, none⟩
  | .bread b :: prog => ⟨c, s.lh, some ⟨k.who, Function.update k.vars b (c.wanted k.who), prog⟩⟩
  | .clear :: prog => ⟨c, [], some ⟨k.who, k.vars, prog⟩⟩
  | .brelse b :: prog => ⟨c, s.lh, some ⟨k.who, Function.update k.vars b none, prog⟩⟩
  | _ :: prog => ⟨c, s.lh, some ⟨k.who, k.vars, prog⟩⟩

/-- the state after the label, when it has left the cache `c`. -/
def Label.after (L : Layout) (s : Sys ι) (c : Cache ι) : Label ι → Sys ι
  | .logWrite _ i _ => ⟨c, logged s.lh (s.cache.buf i).blockno, s.commit⟩
  | .commit p => ⟨c, s.lh, some ⟨p, fun _ => none, Bio.commit L s.lh⟩⟩
  | .next =>
    match s.commit with
    | some k => k.next s c
    | none => s
  | _ => ⟨c, s.lh, s.commit⟩

def step (L : Layout) (s : Sys ι) (a : Label ι) : Except Stop (Sys ι) :=
  match a.act L s with
  | .ok x =>
    match s.cache.act L.disksize x with
    | .ok c => .ok (a.after L s c)
    | .error e => .error e
  | .error e => .error e

variable {L : Layout} {s s' : Sys ι} {a : Label ι}

omit [DecidableEq ι] in
lemma Commit.next_cache (s : Sys ι) (k : Commit ι) (c : Cache ι) : (k.next s c).cache = c := by
  unfold Commit.next
  split <;> rfl

lemma step_act (h : step L s a = .ok s') : ∃ x, a.act L s = .ok x ∧
    s.cache.act L.disksize x = .ok s'.cache ∧ s' = a.after L s s'.cache := by
  unfold step at h
  split at h
  · next x hx =>
    split at h
    · next c hc =>
      cases h
      have e : (a.after L s c).cache = c := by
        cases a with
        | next =>
          unfold Label.act at hx
          unfold Label.after
          dsimp only at hx ⊢
          split at hx
          · next k hk => exact Commit.next_cache s k c
          · cases hx
        | _ => rfl
      rw [e]
      exact ⟨x, hx, hc, rfl⟩
    · cases h
  · cases h

end Xv6.Bio
