import Xv6.Log.Head
import Xv6.Lib.Redo
import Xv6.Lib.History

/-!
# Commit, crash and recovery (`commit`, `recover_from_log` in `log.c`)

A machine with one disk: the power comes on (`off`), `initlog` recovers, and then transactions are
committed one after the other. A step `go` is at most one block write; `crash` cuts the power at
any time, also during recovery, and leaves only the disk.

    off → recover lh 0 → … → recoverHead → idle                         recover_from_log
    idle → writeLog T 0 → … → head T → install T 0 → … → clear T → idle commit

What the disk stands for is `redo` of the header and the log over the home blocks (`Seen`): the
logged blocks if the header names any, the home blocks otherwise. Every step keeps it, except the
first `write_head` of a commit, which lays the transaction over it (`overlay`) in one block write
(`go_ok`); so the machine is a store whose commits are atomic (`run_seen`), over whole histories of
commits and crashes (`commits_whole_and_in_order`).

`bread` returns the cached contents of a block of the transaction (`Pending.new`) and the contents
on disk of the log's own blocks, which are always written through.
-/

namespace Xv6.Log
open Lib Function List

/-- where the log lies, from the super block. -/
structure Layout where
  start : Nat
  size : Nat
  disksize : Nat
  pos : 0 < size
  fits : start + size ≤ disksize
  uint : disksize ≤ 2 ^ 32

def Layout.InLog (L : Layout) (b : Nat) : Prop := L.start ≤ b ∧ b < L.start + L.size

instance (L : Layout) (b : Nat) : Decidable (L.InLog b) :=
  inferInstanceAs (Decidable (L.start ≤ b ∧ b < L.start + L.size))

/-- home blocks that can be installed: different ones, on the disk, outside the log, and no more
than the log has room for. -/
structure Good (L : Layout) (lh : List Nat) : Prop where
  nodup : lh.Nodup
  room : lh.length ≤ L.size - 1
  home : ∀ b ∈ lh, b < L.disksize ∧ ¬ L.InLog b

/-- a transaction in memory: `log.lh` and the cached contents of its blocks. -/
structure Pending (L : Layout) where
  blocks : List Nat
  new : Nat → Block
  good : Good L blocks
  array : blocks.length ≤ LOGSIZE

inductive Pc (L : Layout) where
  | off
  | recover (lh : List Nat) (tail : Nat)
  | recoverHead
  | idle
  | writeLog (T : Pending L) (tail : Nat)
  | head (T : Pending L)
  | install (T : Pending L) (tail : Nat)
  | clear (T : Pending L)

structure Sys (L : Layout) where
  disk : Disk
  pc : Pc L

inductive Label (L : Layout) where
  | go
  | crash
  | commit (T : Pending L)

variable {L : Layout} {a : Label L} {g : Disk} {d : Disk} {lh : List Nat}
variable {lh : List Nat} {d g : Disk} {x b : Nat} {v : Block} {T : Pending L} {s s' t : Sys L} {pc : Pc L}
  {tr : List (Sys L × Label L)}

def Label.commits : Label L → Bool
  | .commit _ => true
  | _ => false

/-! ## the steps -/

/-- `bread`, for a block that is not in the cache or written through. -/
def bread (L : Layout) (d : Disk) (b : Nat) : Except Stop Block :=
  if b < L.disksize then .ok (d b) else .error (.panic "iderw: block out of range")

/-- `bwrite`, and what comes next. -/
def bwrite (L : Layout) (d : Disk) (b : Nat) (x : Block) (next : Pc L) : Except Stop (Sys L) :=
  if b < L.disksize then .ok ⟨update d b x, next⟩
  else .error (.panic "iderw: block out of range")

/-- one turn of `install_trans` for the home block `b`. -/
def installTrans (L : Layout) (d : Disk) (b tail : Nat) (next : Pc L) : Except Stop (Sys L) :=
  match bread L d (L.start + tail + 1) with
  | .ok x => bwrite L d b x next
  | .error e => .error e

/-- `read_head`, at the start of `recover_from_log`. -/
def recoverStart (L : Layout) (d : Disk) : Except Stop (Sys L) :=
  match (bread L d L.start).bind readHead with
  | .ok lh => .ok ⟨d, .recover lh 0⟩
  | .error e => .error e

/-- `write_head`. -/
def headStep (L : Layout) (d : Disk) (lh : List Nat) (next : Pc L) : Except Stop (Sys L) :=
  match bread L d L.start with
  | .ok b => bwrite L d L.start (writeHead lh b) next
  | .error e => .error e

/-- the next step of `recover_from_log` or `commit`. -/
def goStep (L : Layout) (s : Sys L) : Except Stop (Sys L) :=
  match s.pc with
  | .off => recoverStart L s.disk
  | .recover lh tail =>
    match lh[tail]? with
    | some b => installTrans L s.disk b tail (.recover lh (tail + 1))
    | none => .ok ⟨s.disk, .recoverHead⟩
  | .recoverHead => headStep L s.disk [] .idle
  | .idle => .error .blocked
  | .writeLog T tail =>
    match T.blocks[tail]? with
    | some b => bwrite L s.disk (L.start + tail + 1) (T.new b) (.writeLog T (tail + 1))
    | none => .ok ⟨s.disk, .head T⟩
  | .head T => headStep L s.disk T.blocks (.install T 0)
  | .install T tail =>
    match T.blocks[tail]? with
    | some b => installTrans L s.disk b tail (.install T (tail + 1))
    | none => .ok ⟨s.disk, .clear T⟩
  | .clear _ => headStep L s.disk [] .idle

/-- `commit` does nothing for an empty transaction. -/
def step (L : Layout) (s : Sys L) : Label L → Except Stop (Sys L)
  | .go => goStep L s
  | .crash => .ok ⟨s.disk, .off⟩
  | .commit T =>
    match s.pc with
    | .idle => .ok ⟨s.disk, if T.blocks = [] then .idle else .writeLog T 0⟩
    | _ => .error .blocked

/-! ## what the disk stands for -/

/-- the log block `i`. -/
def logged (L : Layout) (d : Disk) (i : Nat) : Block := d (L.start + i + 1)

/-- the header names `lh`, and with the logged blocks the home blocks are `g`. -/
structure Seen (L : Layout) (d : Disk) (lh : List Nat) (g : Disk) : Prop where
  head : readHead (d L.start) = .ok lh
  good : Good L lh
  view : ∀ b, ¬ L.InLog b → redo lh (logged L d) d b = g b

/-- a transaction laid over a store. -/
def overlay (g : Disk) (T : Pending L) : Disk := fun b => if b ∈ T.blocks then T.new b else g b

/-- what holds at each place. -/
inductive PcOk (L : Layout) (g : Disk) (d : Disk) : Pc L → Prop
  | off {lh : List Nat} (h : Seen L d lh g) : PcOk L g d .off
  | recover {lh : List Nat} {t : Nat} (h : Seen L d lh g) (ht : t ≤ lh.length)
      (hi : Installed lh (logged L d) d t) : PcOk L g d (.recover lh t)
  | recoverHead {lh : List Nat} (h : Seen L d lh g)
      (hi : Installed lh (logged L d) d lh.length) : PcOk L g d .recoverHead
  | idle (h : Seen L d [] g) : PcOk L g d .idle
  | writeLog {T : Pending L} {t : Nat} (h : Seen L d [] g) (ht : t ≤ T.blocks.length)
      (hw : ∀ i (hi : i < T.blocks.length), i < t → logged L d i = T.new T.blocks[i]) :
      PcOk L g d (.writeLog T t)
  | head {T : Pending L} (h : Seen L d [] g)
      (hw : ∀ i (hi : i < T.blocks.length), logged L d i = T.new T.blocks[i]) :
      PcOk L g d (.head T)
  | install {T : Pending L} {t : Nat} (h : Seen L d T.blocks g) (ht : t ≤ T.blocks.length)
      (hi : Installed T.blocks (logged L d) d t) : PcOk L g d (.install T t)
  | clear {T : Pending L} (h : Seen L d T.blocks g)
      (hi : Installed T.blocks (logged L d) d T.blocks.length) : PcOk L g d (.clear T)

/-- what the disk stands for after a step `go`. -/
def after (g : Disk) : Pc L → Disk
  | .head T => overlay g T
  | _ => g

/-- bounds the steps that are left. -/
def left : Pc L → Nat
  | .off => LOGSIZE + 3
  | .recover lh t => (lh.length - t) + 2
  | .recoverHead => 1
  | .idle => 0
  | .writeLog T t => T.blocks.length + 4 + (T.blocks.length - t)
  | .head T => T.blocks.length + 3
  | .install T t => (T.blocks.length - t) + 2
  | .clear _ => 1

lemma Layout.head_inLog (L : Layout) : L.InLog L.start := ⟨Nat.le_refl _, by have := L.pos; omega⟩

lemma Good.logged_inLog (h : Good L lh) {i : Nat} (hi : i < lh.length) : L.InLog (L.start + i + 1) := by
  have hr := h.room
  constructor <;> omega

lemma good_nil (L : Layout) : Good L [] := ⟨nodup_nil, Nat.zero_le _, nofun⟩

lemma Good.lt (h : Good L lh) : ∀ b ∈ lh, b < 2 ^ 32 := fun b hb =>
  Nat.lt_of_lt_of_le (h.home b hb).1 L.uint

lemma update_inLog (hx : L.InLog x) (hb : ¬ L.InLog b) : update d x v b = d b := by
  apply update_of_ne
  rintro rfl
  exact hb hx

lemma update_home (hx : ¬ L.InLog x) (hb : L.InLog b) : update d x v b = d b := by
  apply update_of_ne
  rintro rfl
  exact hx hb

lemma Seen.install {t : Nat} (h : Seen L d lh g)
    (ht : t < lh.length) (hi : Installed lh (logged L d) d t) (next : Pc L) :
    ∃ d', installTrans L d lh[t] t next = .ok ⟨d', next⟩ ∧ Seen L d' lh g ∧
      Installed lh (logged L d') d' (t + 1) := by
  have hm : lh[t] ∈ lh := getElem_mem ht
  obtain ⟨hlt, hout⟩ := h.good.home _ hm
  have hlog := h.good.logged_inLog ht
  have hfits := L.fits
  -- the log does not change
  have hsame : ∀ i < lh.length, logged L (update d lh[t] (logged L d t)) i = logged L d i :=
    fun i hi => update_home hout (h.good.logged_inLog hi)
  refine ⟨update d lh[t] (logged L d t), ?_, ⟨?_, h.good, fun b hb => ?_⟩, ?_⟩
  · unfold installTrans bread bwrite
    rw [if_pos (by unfold Layout.InLog at hlog; omega)]
    simp only [if_pos hlt]
    rfl
  · rw [update_home hout L.head_inLog]
    exact h.head
  · rw [redo_congr hsame fun _ => rfl, redo_install hm]
    exact h.view b hb
  · intro i hi' hit
    rw [hsame i hi']
    exact hi.next h.good.nodup ht i hi' hit

lemma Seen.erase (h : Seen L d lh g) (hi : Installed lh (logged L d) d lh.length) :
    ∃ d', headStep L d [] .idle = .ok ⟨d', .idle⟩ ∧ Seen L d' [] g := by
  have hlt : L.start < L.disksize := by have := L.fits; have := L.pos; omega
  refine ⟨update d L.start (writeHead [] (d L.start)), ?_, ?_, good_nil L, fun b hb => ?_⟩
  · unfold headStep bread bwrite
    simp only [if_pos hlt]
  · rw [update_self]
    exact readHead_erased _
  · rw [redo_nil, update_inLog L.head_inLog hb, ← h.view b hb, redo_installed hi]

/-- **the commit point**: the header names the transaction from one block write on. -/
theorem Seen.commit (h : Seen L d [] g) (hw : ∀ i (hi : i < T.blocks.length), logged L d i = T.new T.blocks[i])
    (next : Pc L) : ∃ d', headStep L d T.blocks next = .ok ⟨d', next⟩ ∧ Seen L d' T.blocks (overlay g T) := by
  have hlt : L.start < L.disksize := by have := L.fits; have := L.pos; omega
  refine ⟨update d L.start (writeHead T.blocks (d L.start)), ?_, ?_, T.good, fun b hb => ?_⟩
  · unfold headStep bread bwrite
    simp only [if_pos hlt]
  · rw [update_self]
    exact readHead_writeHead _ T.array T.good.lt
  · have hsame : ∀ i < T.blocks.length,
        logged L (update d L.start (writeHead T.blocks (d L.start))) i = logged L d i := by
      intro i _
      apply update_of_ne
      omega
    unfold redo overlay
    split
    · next hm =>
      have hlen := idxOf_lt_length_iff.mpr hm
      rw [hsame _ hlen, hw _ hlen, getElem_idxOf hlen]
    · rw [update_inLog L.head_inLog hb]
      exact h.view b hb

lemma Seen.append {T : Pending L} {t : Nat} (h : Seen L d [] g) (ht : t < T.blocks.length)
    (hw : ∀ i (hi : i < T.blocks.length), i < t → logged L d i = T.new T.blocks[i]) (next : Pc L) :
    ∃ d', bwrite L d (L.start + t + 1) (T.new T.blocks[t]) next = .ok ⟨d', next⟩ ∧ Seen L d' [] g ∧
      ∀ i (hi : i < T.blocks.length), i < t + 1 → logged L d' i = T.new T.blocks[i] := by
  have hlog := T.good.logged_inLog ht
  have hfits := L.fits
  refine ⟨update d (L.start + t + 1) (T.new T.blocks[t]), ?_, ⟨?_, good_nil L, fun b hb => ?_⟩, fun i hi hit => ?_⟩
  · unfold bwrite
    rw [if_pos (by unfold Layout.InLog at hlog; omega)]
  · rw [update_of_ne (by omega)]
    exact h.head
  · rw [redo_nil, update_inLog hlog hb]
    exact h.view b hb
  · by_cases e : i = t
    · subst e
      exact update_self ..
    · have hne : L.start + i + 1 ≠ L.start + t + 1 := by omega
      show update d _ _ (L.start + i + 1) = _
      rw [update_of_ne hne]
      exact hw i hi (by omega)

lemma Seen.start (h : Seen L d lh g) : recoverStart L d = .ok ⟨d, .recover lh 0⟩ := by
  have hlt : L.start < L.disksize := by have := L.fits; have := L.pos; omega
  have hb : bread L d L.start = .ok (d L.start) := if_pos hlt
  -- for an arbitrary `f`, so that `readHead` is not unfolded
  have hf : ∀ f : Block → Except Stop (List Nat), (Except.ok (d L.start)).bind f = f (d L.start) :=
    fun _ => rfl
  unfold recoverStart
  rw [hb, hf, h.head]

/-- **Every step `go` succeeds, comes nearer to `idle`, and keeps what the disk stands for, but for
the commit point.** -/
theorem go_ok (h : PcOk L g s.disk s.pc) (hpc : s.pc ≠ .idle) :
    ∃ s', goStep L s = .ok s' ∧ PcOk L (after g s.pc) s'.disk s'.pc ∧ left s'.pc < left s.pc := by
  obtain ⟨d, pc⟩ := s
  cases h with
  | @off lh h =>
    refine ⟨⟨d, .recover lh 0⟩, ?_, .recover h (Nat.zero_le _) (fun _ _ => nofun), ?_⟩
    · exact h.start
    · have hl := readHead_length h.head
      show lh.length - 0 + 2 < LOGSIZE + 3
      omega
  | @recover lh t h ht hi =>
    by_cases e : t < lh.length
    · obtain ⟨d', hd, hs, hi'⟩ := h.install e hi (.recover lh (t + 1))
      refine ⟨⟨d', .recover lh (t + 1)⟩, ?_, .recover hs (by omega) hi', ?_⟩
      · unfold goStep
        simp only [getElem?_eq_getElem e]
        exact hd
      · show lh.length - (t + 1) + 2 < lh.length - t + 2
        omega
    · have et : t = lh.length := by omega
      subst et
      refine ⟨⟨d, .recoverHead⟩, ?_, .recoverHead h hi, ?_⟩
      · unfold goStep
        simp only [getElem?_eq_none (Nat.le_refl _)]
      · show 1 < lh.length - lh.length + 2
        omega
  | recoverHead h hi | clear h hi =>
    obtain ⟨d', hd, hs⟩ := h.erase hi
    exact ⟨_, hd, .idle hs, Nat.zero_lt_one⟩
  | idle => exact absurd rfl hpc
  | @writeLog T t h ht hw =>
    by_cases e : t < T.blocks.length
    · obtain ⟨d', hd, hs, hw'⟩ := h.append e hw (.writeLog T (t + 1))
      refine ⟨⟨d', .writeLog T (t + 1)⟩, ?_, .writeLog hs (by omega) hw', ?_⟩
      · unfold goStep
        simp only [getElem?_eq_getElem e]
        exact hd
      · show T.blocks.length + 4 + (T.blocks.length - (t + 1)) <
          T.blocks.length + 4 + (T.blocks.length - t)
        omega
    · have et : t = T.blocks.length := by omega
      subst et
      refine ⟨⟨d, .head T⟩, ?_, .head h fun i hi => hw i hi hi, ?_⟩
      · unfold goStep
        simp only [getElem?_eq_none (Nat.le_refl _)]
      · show T.blocks.length + 3 < T.blocks.length + 4 + (T.blocks.length - T.blocks.length)
        omega
  | @head T h hw =>
    obtain ⟨d', hd, hs⟩ := h.commit hw (.install T 0)
    refine ⟨_, hd, .install hs (Nat.zero_le _) (fun _ _ => nofun), ?_⟩
    show T.blocks.length - 0 + 2 < T.blocks.length + 3
    omega
  | @install T t h ht hi =>
    by_cases e : t < T.blocks.length
    · obtain ⟨d', hd, hs, hi'⟩ := h.install e hi (.install T (t + 1))
      refine ⟨⟨d', .install T (t + 1)⟩, ?_, .install hs (by omega) hi', ?_⟩
      · unfold goStep
        simp only [getElem?_eq_getElem e]
        exact hd
      · show T.blocks.length - (t + 1) + 2 < T.blocks.length - t + 2
        omega
    · have et : t = T.blocks.length := by omega
      subst et
      refine ⟨⟨d, .clear T⟩, ?_, .clear h hi, ?_⟩
      · unfold goStep
        simp only [getElem?_eq_none (Nat.le_refl _)]
      · show 1 < T.blocks.length - T.blocks.length + 2
        omega

/-! ## whole runs -/

/-- the transaction whose first `write_head` the step is. -/
def headOf (e : Sys L × Label L) : Option (Pending L) :=
  match e.1.pc, e.2 with
  | .head T, .go => some T
  | _, _ => none

/-- the store `g` after the commit points of a run: what the machine is for. -/
def committed (g : Disk) (tr : List (Sys L × Label L)) : Disk := (tr.filterMap headOf).foldl overlay g

lemma PcOk.seen (h : PcOk L g d pc) : ∃ lh, Seen L d lh g := by
  cases h with
  | off h | recover h | recoverHead h | idle h | writeLog h | head h | install h | clear h => exact ⟨_, h⟩

lemma after_eq (g : Disk) (s : Sys L) : after g s.pc = committed g [(s, .go)] := by
  obtain ⟨d, pc⟩ := s
  cases pc <;> rfl

lemma step_seen (h : PcOk L g s.disk s.pc)
    (hst : step L s a = .ok s') : PcOk L (committed g [(s, a)]) s'.disk s'.pc := by
  cases a with
  | go =>
    have hpc : s.pc ≠ .idle := by
      intro e
      change goStep L s = .ok s' at hst
      unfold goStep at hst
      rw [e] at hst
      cases hst
    obtain ⟨t, ht, hok, -⟩ := go_ok h hpc
    cases Except.ok.inj (hst.symm.trans ht)
    rw [← after_eq]
    exact hok
  | crash =>
    obtain ⟨d, pc⟩ := s
    cases hst
    obtain ⟨lh, hs⟩ := h.seen
    have hg : committed g [((⟨d, pc⟩ : Sys L), .crash)] = g := by cases pc <;> rfl
    rw [hg]
    exact .off hs
  | commit T =>
    obtain ⟨d, pc⟩ := s
    have hg : committed g [((⟨d, pc⟩ : Sys L), .commit T)] = g := by cases pc <;> rfl
    rw [hg]
    unfold step at hst
    cases h with
    | idle h =>
      cases hst
      split
      · exact .idle h
      · exact .writeLog h (Nat.zero_le _) fun _ _ => nofun
    | _ => cases hst

/-- **The machine refines an atomic store**: over any run, with any crashes, the disk stands for the
store in which every commit point has put its whole transaction. -/
theorem run_seen (h : Path (step L) s tr t) (h0 : PcOk L g s.disk s.pc) : PcOk L (committed g tr) t.disk t.pc := by
  induction h generalizing g with
  | nil => exact h0
  | @cons s s' t a tr hst _ ih =>
    have hsplit : committed g ((s, a) :: tr) = committed (committed g [(s, a)]) tr := by
      unfold committed
      rw [← foldl_append, ← filterMap_append]
      rfl
    rw [hsplit]
    exact ih (step_seen h0 hst)

lemma PcOk.finish (h : PcOk L g s.disk s.pc) :
    ∃ tr t, Path (step L) s tr t ∧ (∀ e ∈ tr, e.2 = .go) ∧ t.pc = .idle := by
  have hgo : ∀ s : Sys L, (∃ g, PcOk L g s.disk s.pc) → ¬ s.pc = .idle →
      ∃ s', step L s .go = .ok s' ∧ (∃ g, PcOk L g s'.disk s'.pc) ∧ left s'.pc < left s.pc := by
    intro s hs hq
    obtain ⟨g, h⟩ := hs
    obtain ⟨s', hst, hok, hlt⟩ := go_ok h hq
    exact ⟨s', hst, ⟨_, hok⟩, hlt⟩
  obtain ⟨tr, t, hp, ha, -, hq⟩ := Path.descent (Label.go : Label L)
    (fun s : Sys L => ∃ g, PcOk L g s.disk s.pc)
    (fun s => s.pc = .idle) (fun s => left s.pc) hgo ⟨g, h⟩
  exact ⟨tr, t, hp, ha, hq⟩

/-! ## every step `go` -/

/-- every way in which `go` can lead from one place to another. -/
inductive GoTo (L : Layout) (d : Disk) : Pc L → Sys L → Prop
  | start {lh : List Nat} : GoTo L d .off ⟨d, .recover lh 0⟩
  | redo {lh : List Nat} {t b : Nat} {x : Block} :
      GoTo L d (.recover lh t) ⟨update d b x, .recover lh (t + 1)⟩
  | redone {lh : List Nat} {t : Nat} : GoTo L d (.recover lh t) ⟨d, .recoverHead⟩
  | recovered :
      GoTo L d .recoverHead ⟨update d L.start (writeHead [] (d L.start)), .idle⟩
  | log {T : Pending L} {t : Nat} {x : Block} :
      GoTo L d (.writeLog T t) ⟨update d (L.start + t + 1) x, .writeLog T (t + 1)⟩
  | written {T : Pending L} {t : Nat} : GoTo L d (.writeLog T t) ⟨d, .head T⟩
  | head {T : Pending L} {x : Block} :
      GoTo L d (.head T) ⟨update d L.start x, .install T 0⟩
  | install {T : Pending L} {t b : Nat} {x : Block} :
      GoTo L d (.install T t) ⟨update d b x, .install T (t + 1)⟩
  | installed {T : Pending L} {t : Nat} : GoTo L d (.install T t) ⟨d, .clear T⟩
  | cleared {T : Pending L} :
      GoTo L d (.clear T) ⟨update d L.start (writeHead [] (d L.start)), .idle⟩

lemma bwrite_eq {x : Block} {next : Pc L} (h : bwrite L d b x next = .ok s) : s = ⟨update d b x, next⟩ := by
  unfold bwrite at h
  split at h
  · exact (Except.ok.inj h).symm
  · cases h

lemma headStep_eq {next : Pc L} (h : headStep L d lh next = .ok s) :
    s = ⟨update d L.start (writeHead lh (d L.start)), next⟩ := by
  unfold headStep bread at h
  split at h
  · next b hb =>
    split at hb
    · cases hb; exact bwrite_eq h
    · cases hb
  · cases h

lemma installTrans_eq {t : Nat} {next : Pc L}
    (h : installTrans L d b t next = .ok s) : ∃ x, s = ⟨update d b x, next⟩ := by
  unfold installTrans at h
  split at h
  · exact ⟨_, bwrite_eq h⟩
  · cases h

lemma recoverStart_eq (h : recoverStart L d = .ok s) : ∃ lh, s = ⟨d, .recover lh 0⟩ := by
  unfold recoverStart at h
  split at h
  · exact ⟨_, (Except.ok.inj h).symm⟩
  · cases h

lemma goStep_goTo (h : goStep L s = .ok s') : GoTo L s.disk s.pc s' := by
  obtain ⟨d, pc⟩ := s
  unfold goStep at h
  cases pc with
  | off =>
    obtain ⟨lh, rfl⟩ := recoverStart_eq h
    exact .start
  | recover =>
    dsimp only at h
    split at h
    · obtain ⟨x, rfl⟩ := installTrans_eq h
      exact .redo
    · cases h; exact .redone
  | recoverHead => rw [headStep_eq h]; exact .recovered
  | idle => cases h
  | writeLog =>
    dsimp only at h
    split at h
    · rw [bwrite_eq h]; exact .log
    · cases h; exact .written
  | head => rw [headStep_eq h]; exact .head
  | install =>
    dsimp only at h
    split at h
    · obtain ⟨x, rfl⟩ := installTrans_eq h
      exact .install
    · cases h; exact .installed
  | clear => rw [headStep_eq h]; exact .cleared

/-! ## after any start, the header is erased when no commit is under way -/

/-- no commit, or one before its first `write_head`. -/
def Pc.before : Pc L → Bool
  | .idle => true
  | .writeLog _ _ => true
  | .head _ => true
  | _ => false

def Clean (s : Sys L) : Prop := s.pc.before = true → readHead (s.disk L.start) = .ok []

lemma GoTo.clean (h : GoTo L d pc s') (hc : Clean (⟨d, pc⟩ : Sys L)) : Clean s' := by
  have erased : readHead (update d L.start (writeHead [] (d L.start)) L.start) = .ok [] := by
    rw [update_self]
    exact readHead_erased _
  cases h with
  | recovered | cleared => exact fun _ => erased
  | @log T t x =>
    intro _
    show readHead (update d (L.start + t + 1) x L.start) = _
    rw [update_of_ne (by omega)]
    exact hc rfl
  | written => exact fun _ => hc rfl
  | _ => exact nofun

lemma Clean.next {s s' : Sys L} (h : Clean s) (hst : step L s a = .ok s') : Clean s' := by
  cases a with
  | go => exact (goStep_goTo hst).clean h
  | crash => cases hst; exact nofun
  | commit =>
    unfold step at hst
    simp only at hst
    split at hst
    · next hpc =>
      cases hst
      exact fun _ => h (by rw [hpc]; rfl)
    · cases hst

lemma idle_ok {d0 : Disk} (h : Path (step L) ⟨d0, .off⟩ tr s) (hs : s.pc = .idle) : PcOk L s.disk s.disk s.pc := by
  have hc : Clean s := h.history (fun _ t => Clean t) (fun hb => by cases hb) fun _ _ _ _ _ ih hst => ih.next hst
  rw [hs]
  exact .idle ⟨hc (by rw [hs]; rfl), good_nil L, fun _ _ => rfl⟩

/-! ## one commit -/

/-- the transaction that a commit under way writes. -/
def Pc.pending : Pc L → Option (Pending L)
  | .writeLog T _ => some T
  | .head T => some T
  | .install T _ => some T
  | .clear T => some T
  | _ => none

lemma GoTo.pending (h : GoTo L d pc s') : s'.pc.pending = pc.pending ∨ s'.pc.pending = none := by
  cases h with
  | log | written | head | install | installed => exact .inl rfl
  | _ => exact .inr rfl

lemma run_only (h : Path (step L) s tr t) (hno : ∀ e ∈ tr, e.2.commits = false)
    (hs : ∀ T', s.pc.pending = some T' → T' = T) : ∀ T' ∈ tr.filterMap headOf, T' = T := by
  induction h with
  | nil => exact nofun
  | @cons s s' t a tr hst _ ih =>
    have hs' : ∀ T', s'.pc.pending = some T' → T' = T := by
      intro T' hT
      cases a with
      | go =>
        rcases (goStep_goTo hst).pending with e | e
        · exact hs T' (e ▸ hT)
        · rw [e] at hT; cases hT
      | crash => cases hst; cases hT
      | commit => cases hno _ (mem_cons_self ..)
    intro T' hT
    rw [filterMap_cons] at hT
    have hrest := ih (fun e he => hno e (mem_cons_of_mem _ he)) hs'
    split at hT
    · exact hrest T' hT
    · next T2 h2 =>
      rcases mem_cons.mp hT with rfl | hT
      · apply hs
        unfold headOf at h2
        split at h2
        · next hpc _ => cases h2; rw [hpc]; rfl
        · cases h2
      · exact hrest T' hT

lemma overlay_idem (g : Disk) (T : Pending L) : overlay (overlay g T) T = overlay g T := by
  funext b
  unfold overlay
  split <;> rfl

/-- with the commit points of `T` only, the store is the old one or has all of `T`. -/
theorem committed_only (h : ∀ T' ∈ tr.filterMap headOf, T' = T) :
    committed g tr = if tr.filterMap headOf = [] then g else overlay g T := by
  unfold committed
  generalize tr.filterMap headOf = l at h
  have same : ∀ l : List (Pending L), (∀ T' ∈ l, T' = T) → l.foldl overlay (overlay g T) = overlay g T := by
    intro l
    induction l with
    | nil => exact fun _ => rfl
    | cons T' l ih =>
      intro hl
      rw [foldl_cons, hl T' (mem_cons_self ..), overlay_idem]
      exact ih fun x hx => hl x (mem_cons_of_mem _ hx)
  cases l with
  | nil => rfl
  | cons T' l =>
    rw [if_neg nofun, foldl_cons, h T' (mem_cons_self ..)]
    exact same l fun x hx => h x (mem_cons_of_mem _ hx)

/-- **Commits are atomic under crashes.** The machine is switched on with any disk and has come to
`idle`; a commit of `T` starts; then any number of steps and crashes follow, also crashes of the
recovery. From there the machine, left alone, gets to `idle` again, and the home blocks of `T` hold
all their old contents or all the new ones; all the new ones if the first `write_head` was done.
No other block outside the log has changed. -/
theorem commit_crash_atomic (L : Layout) (d0 : Disk) (T : Pending L) {s u t : Sys L}
    {tr0 tr : List (Sys L × Label L)} (h0 : Path (step L) ⟨d0, .off⟩ tr0 s)
    (hc : step L s (.commit T) = .ok u) (h : Path (step L) u tr t)
    (hno : ∀ e ∈ tr, e.2.commits = false) :
    ∃ tr' w, Path (step L) t tr' w ∧ (∀ e ∈ tr', e.2 = .go) ∧ w.pc = .idle ∧
      ((∀ b ∈ T.blocks, w.disk b = s.disk b) ∨ ∀ b ∈ T.blocks, w.disk b = T.new b) ∧
      ((∃ e ∈ tr, e.1.pc = .head T ∧ e.2 = .go) → ∀ b ∈ T.blocks, w.disk b = T.new b) ∧
      ∀ b, ¬ L.InLog b → b ∉ T.blocks → w.disk b = s.disk b := by
  have hs : s.pc = .idle := by
    unfold step at hc
    simp only at hc
    split at hc
    · next e => exact e
    · cases hc
  have hu : u = ⟨s.disk, if T.blocks = [] then .idle else .writeLog T 0⟩ := by
    unfold step at hc
    rw [hs] at hc
    exact (Except.ok.inj hc).symm
  have hok := run_seen (.cons hc h) (idle_ok h0 hs)
  obtain ⟨tr', w, hw, hgo, hidle⟩ := hok.finish
  have hall : Path (step L) u (tr ++ tr') w := h.append hw
  have hno' : ∀ e ∈ tr ++ tr', e.2.commits = false := by
    intro e he
    rcases mem_append.mp he with he | he
    · exact hno e he
    · rw [hgo e he]; rfl
  have honly : ∀ T' ∈ (tr ++ tr').filterMap headOf, T' = T := by
    refine run_only hall hno' fun T' hT => ?_
    rw [hu] at hT
    split at hT
    · cases hT
    · cases hT; rfl
  -- what the disk stands for at the end is the disk itself
  have hview : ∀ b, ¬ L.InLog b →
      w.disk b = (if (tr ++ tr').filterMap headOf = [] then s.disk else overlay s.disk T) b := by
    have hend := run_seen (.cons hc hall) (idle_ok h0 hs)
    have hg : committed s.disk ((s, .commit T) :: (tr ++ tr')) = committed s.disk (tr ++ tr') := by
      unfold committed
      rw [filterMap_cons]
      unfold headOf
      rw [hs]
    rw [hg, committed_only honly, hidle] at hend
    intro b hb
    cases hend with
    | idle hseen => exact hseen.view b hb
  have hout : ∀ b ∈ T.blocks, ¬ L.InLog b := fun b hb => (T.good.home b hb).2
  have hnew : (tr ++ tr').filterMap headOf ≠ [] → ∀ b ∈ T.blocks, w.disk b = T.new b := by
    intro hne b hb
    rw [hview b (hout b hb), if_neg hne]
    exact if_pos hb
  refine ⟨tr', w, hw, hgo, hidle, ?_, ?_, ?_⟩
  · by_cases hne : (tr ++ tr').filterMap headOf = []
    · exact .inl fun b hb => by rw [hview b (hout b hb), if_pos hne]
    · exact .inr (hnew hne)
  · rintro ⟨e, he, hpc, hgo'⟩
    apply hnew
    have hm : T ∈ (tr ++ tr').filterMap headOf := by
      rw [mem_filterMap]
      refine ⟨e, mem_append_left _ he, ?_⟩
      unfold headOf
      rw [hpc, hgo']
    exact ne_nil_of_mem hm
  · intro b hb hbT
    rw [hview b hb]
    split
    · rfl
    · exact if_neg hbT

/-- the disk that `mkfs` lays out: the log takes the blocks 2 to 31 of 1000. -/
def mkfsLayout : Layout := ⟨2, 30, 1000, by decide, by decide, by decide⟩

/-- a transaction that fills the blocks 100 and 101 with 7s. -/
def sevens : Pending mkfsLayout where
  blocks := [100, 101]
  new := fun _ _ => 7
  good := ⟨by decide, by decide, by decide⟩
  array := by decide

/-- the power fails right after the first `write_head`: recovery installs both blocks. -/
theorem commit_crash_atomic_sevens : ∃ (s u t : Sys mkfsLayout)
    (tr0 tr : List (Sys mkfsLayout × Label mkfsLayout)),
    Path (step mkfsLayout) ⟨fun _ _ => 0, .off⟩ tr0 s ∧
      step mkfsLayout s (.commit sevens) = .ok u ∧ Path (step mkfsLayout) u tr t ∧
      (∀ e ∈ tr, e.2.commits = false) ∧ t.disk 100 0 = 0 ∧
      ∃ tr' w, Path (step mkfsLayout) t tr' w ∧ w.pc = .idle ∧
        ((∀ b ∈ sevens.blocks, w.disk b = s.disk b) ∨ ∀ b ∈ sevens.blocks, w.disk b = sevens.new b) := by
  have run : runsTo (step mkfsLayout) ⟨fun _ _ => 0, .off⟩ [.go, .go, .go] (fun _ s =>
      stepTo (step mkfsLayout) s (.commit sevens) (fun u =>
        runsTo (step mkfsLayout) u [.go, .go, .go, .go, .crash] (fun tr t =>
          t.disk 100 0 = 0 && tr.all fun e => !e.2.commits))) = true := by decide +kernel
  obtain ⟨tr0, s, h0, hs⟩ := Path.of_runsTo run
  obtain ⟨u, hu, hc⟩ := of_stepTo hs
  obtain ⟨tr, t, h, ht⟩ := Path.of_runsTo hc
  simp only [Bool.and_eq_true, decide_eq_true_eq, all_eq_true, Bool.not_eq_true'] at ht
  obtain ⟨tr', w, hw, -, hidle, hall, -⟩ := commit_crash_atomic mkfsLayout _ sevens h0 hu h ht.2
  exact ⟨s, u, t, tr0, tr, h0, hu, h, ht.2, ht.1, tr', w, hw, hidle, hall⟩

/-! ## whole histories -/

/-- the transaction whose commit the step starts. -/
def asked (e : Sys L × Label L) : Option (Pending L) :=
  match e.2 with
  | .commit T => some T
  | _ => none

/-- the transaction whose commit the step ends. -/
def ended (e : Sys L × Label L) : Option (Pending L) :=
  match e.1.pc, e.2 with
  | .clear T, .go => some T
  | _, _ => none

/-- the transaction of a commit before, and after, its first `write_head`. -/
def Pc.unheaded : Pc L → List (Pending L)
  | .writeLog T _ => [T]
  | .head T => [T]
  | _ => []

def Pc.headed : Pc L → List (Pending L)
  | .install T _ => [T]
  | .clear T => [T]
  | _ => []

/-- a transaction passes from the start of its commit to the first `write_head`, and from there to its end; a crash may
stop it on its way. -/
theorem step_passes (h : step L s a = .ok s') :
    ((headOf (s, a)).toList ++ s'.pc.unheaded).Sublist (s.pc.unheaded ++ (asked (s, a)).toList) ∧
    ((ended (s, a)).toList ++ s'.pc.headed).Sublist (s.pc.headed ++ (headOf (s, a)).toList) := by
  obtain ⟨d, pc⟩ := s
  cases a with
  | go => cases goStep_goTo h <;> exact ⟨.refl _, .refl _⟩
  | crash =>
    cases h
    cases pc <;> exact ⟨nil_sublist _, nil_sublist _⟩
  | commit T =>
    cases pc with
    | idle =>
      cases h
      dsimp only
      split
      · exact ⟨nil_sublist _, .refl _⟩
      · exact ⟨.refl _, .refl _⟩
    | _ => cases h

/-- **The log is an atomic store over whole histories.** After any commits, steps and crashes in any order, the machine
left alone gets to `idle`, and the blocks outside the log are those of `s` with some of the transactions laid over them,
each one whole and in the order of the commits: all those whose commit has come to its end are among them. -/
theorem commits_whole_and_in_order {d0 : Disk} {tr0 : List (Sys L × Label L)} (h0 : Path (step L) ⟨d0, .off⟩ tr0 s)
    (hs : s.pc = .idle) (h : Path (step L) s tr t) :
    ∃ tr' w Ts, Path (step L) t tr' w ∧ (∀ e ∈ tr', e.2 = .go) ∧ w.pc = .idle ∧
      (tr.filterMap ended).Sublist Ts ∧ Ts.Sublist (tr.filterMap asked) ∧
      ∀ b, ¬ L.InLog b → w.disk b = Ts.foldl overlay s.disk b := by
  obtain ⟨tr', w, hw, hgo, hidle⟩ := (run_seen h (idle_ok h0 hs)).finish
  have hall : Path (step L) s (tr ++ tr') w := h.append hw
  have hno : tr'.filterMap asked = [] := by
    rw [filterMap_eq_nil_iff]
    intro e he
    unfold asked
    rw [hgo e he]
  have hhead := hall.sublist fun _ _ _ hst => (step_passes hst).1
  have hend := h.sublist fun _ _ _ hst => (step_passes hst).2
  rw [hs, filterMap_append (f := asked), hno, append_nil] at hhead
  rw [hs] at hend
  refine ⟨tr', w, (tr ++ tr').filterMap headOf, hw, hgo, hidle, ?_, (sublist_append_left ..).trans hhead, ?_⟩
  · rw [filterMap_append]
    exact ((sublist_append_left ..).trans hend).trans (sublist_append_left ..)
  · intro b hb
    have hseen := run_seen hall (idle_ok h0 hs)
    rw [hidle] at hseen
    cases hseen with
    | idle hseen => exact hseen.view b hb

/-- one commit comes to its end, and the power fails during the next one. -/
theorem commits_whole_and_in_order_twice : ∃ (s t : Sys mkfsLayout) (tr0 tr : List (Sys mkfsLayout × Label mkfsLayout)),
    Path (step mkfsLayout) ⟨fun _ _ => 0, .off⟩ tr0 s ∧ s.pc = .idle ∧ Path (step mkfsLayout) s tr t ∧
      (tr.filterMap ended).length = 1 ∧ ∃ w : Sys mkfsLayout, ∃ Ts, (tr.filterMap ended).Sublist Ts ∧
        Ts.Sublist (tr.filterMap asked) ∧ ∀ b, ¬ mkfsLayout.InLog b → w.disk b = Ts.foldl overlay s.disk b := by
  have run : runsTo (step mkfsLayout) ⟨fun _ _ => 0, .off⟩ [.go, .go, .go] (fun _ s => left s.pc == 0 &&
      runsTo (step mkfsLayout) s (.commit sevens :: replicate 8 .go ++ [.commit sevens, .go, .crash]) (fun tr _ =>
        (tr.filterMap ended).length == 1)) = true := by decide +kernel
  obtain ⟨tr0, s, h0, hs⟩ := Path.of_runsTo run
  obtain ⟨hleft, hs⟩ := Bool.and_eq_true_iff.mp hs
  obtain ⟨tr, t, h, ht⟩ := Path.of_runsTo hs
  have hidle : s.pc = .idle := by
    cases e : s.pc <;> first | rfl | simp [e, left] at hleft
  obtain ⟨-, w, Ts, -, -, -, hstore⟩ := commits_whole_and_in_order h0 hidle h
  exact ⟨s, t, tr0, tr, h0, hidle, h, eq_of_beq ht, w, Ts, hstore⟩

end Xv6.Log
