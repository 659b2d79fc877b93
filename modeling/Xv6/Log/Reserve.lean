import Xv6.Log.Ops
import Xv6.Log.Crash

/-!
# The room that operations reserve in the log

`begin_op` reserves `MAXOPBLOCKS` blocks for each operation, out of `LOGSIZE`. `mkfs` makes a log of
`nlog = LOGSIZE` blocks, one of which is the header, and `log_write` refuses when the log is full,
also for a block that is logged already. So three operations that use what they reserved run into
the panic of `log_write`, and two that test at the same time go past the end of the log on disk.

If every operation is admitted with a block to spare (`reserved`), the blocks in the log and those
still reserved stay within the log (`ResOk`):

    lh.n + Σ_p rest p ≤ log.size - 2.
-/

set_option linter.unusedSectionVars false

namespace Xv6.Log
open Lib List

instance three_neZero : NeZero 3 := ⟨by decide⟩

/-- `mkfs`: the number of log blocks. -/
abbrev nlog : Nat := LOGSIZE

variable {ι : Type} [DecidableEq ι] {size : Nat} {s s' : Ops ι} {a : OpLabel ι} {x : OpPc} {w : Bool} {P : Nat → Prop}
  {p : ι}

/-- an operation logs at most `MAXOPBLOCKS` different blocks. -/
def modest (u : Ops ι) : OpLabel ι → Bool
  | .check p b => b ∈ (u.pc p).mine ∨ (u.pc p).mine.length < MAXOPBLOCKS
  | _ => true

/-- an operation is admitted only if the log on disk keeps a block to spare. -/
def reserved (size : Nat) (u : Ops ι) : OpLabel ι → Bool
  | .begin _ => u.admits = false ∨
      u.lh.length + (u.outstanding + 1) * MAXOPBLOCKS < (size : Int) - 1
  | _ => true

/-- what the operation may still log. -/
def OpPc.rest (pc : OpPc) : Int := if pc.inOp then (MAXOPBLOCKS : Int) - pc.mine.length else 0

lemma OpPc.rest_le (pc : OpPc) : pc.rest ≤ pc.count * MAXOPBLOCKS := by
  unfold rest count
  split <;> omega

/-- the operation keeps to what it reserved. -/
def OpPc.within : OpPc → Prop
  | .op mine => mine.length ≤ MAXOPBLOCKS
  | .logging b mine => mine.length ≤ MAXOPBLOCKS ∧ (b ∈ mine ∨ mine.length < MAXOPBLOCKS)
  | _ => True

lemma OpPc.rest_nonneg {pc : OpPc} (h : pc.within) : 0 ≤ pc.rest := by
  cases pc with
  | op => exact Int.sub_nonneg.mpr (Int.ofNat_le.mpr h)
  | logging => exact Int.sub_nonneg.mpr (Int.ofNat_le.mpr h.1)
  | _ => exact le_refl 0

lemma length_insert {b : Nat} {l : List Nat} : (l.insert b).length = if b ∈ l then l.length else l.length + 1 := by
  by_cases hb : b ∈ l
  · rw [insert_of_mem hb, if_pos hb]
  · rw [insert_of_not_mem hb, if_neg hb, length_cons]

variable [Fintype ι]

structure ResOk (size : Nat) (s : Ops ι) : Prop where
  budget : s.lh.length + total OpPc.rest s.pc ≤ (size : Int) - 2
  within : ∀ p, (s.pc p).within

lemma ResOk.init (h : 2 ≤ size) : ResOk size (Ops.init : Ops ι) := by
  have h0 : total OpPc.rest (fun _ : ι => OpPc.out) = 0 := Finset.sum_eq_zero fun _ _ => rfl
  refine ⟨?_, fun _ => trivial⟩
  show ((0 : Nat) : Int) + total OpPc.rest (fun _ : ι => OpPc.out) ≤ size - 2
  omega

section
variable (h : ResOk size s)
include h

lemma ResOk.length_le : (s.lh.length : Int) ≤ (size : Int) - 2 := by
  have h0 : 0 ≤ total OpPc.rest s.pc :=
    Finset.sum_nonneg fun p _ => OpPc.rest_nonneg (h.within p)
  have := h.budget
  omega

/-- `p` goes on to `x`, and the log and the rest of `p` together do not grow. -/
theorem ResOk.move (hm : Moves s s' p x w)
    (hb : (s'.lh.length : Int) + x.rest ≤ s.lh.length + (s.pc p).rest) (hx : x.within) :
    ResOk size s' := by
  refine ⟨?_, fun q => ?_⟩
  · rw [hm.total (f := OpPc.rest) rfl]
    have := h.budget
    omega
  · by_cases e : q = p
    · rw [e, hm.self]; exact hx
    · rw [hm.other (f := OpPc.within) rfl e]; exact h.within q

lemma ResOk.leave (hm : Moves s s' p x w)
    (hlh : s'.lh.length ≤ s.lh.length) (hr : x.rest = 0) (hx : x.within) : ResOk size s' := by
  refine h.move hm ?_ hx
  have := OpPc.rest_nonneg (h.within p)
  omega

lemma ResOk.next (hok : OpsOk s) (hm : modest s a = true)
    (hr : reserved size s a = true) (hst : opStep size s a = .ok s') : ResOk size s' := by
  cases opStep_trans hst with
  | @sleep p =>
    have hmv : Moves s (s.goto p .asleep) p .asleep false := ⟨rfl⟩
    exact h.leave hmv (le_refl _) rfl trivial
  | @enter p hp ha =>
    have hmv : Moves s { s.goto p (.op []) with outstanding := s.outstanding + 1 } p (.op [])
        false := ⟨rfl⟩
    have hw : ∀ q, (s.pc q).within := h.within
    -- whoever is in an operation has reserved `MAXOPBLOCKS`, and the test counts them all
    have hle := total_le_mul OpPc.rest_le s.pc
    rw [← hok.count] at hle
    have hroom : s.lh.length + (s.outstanding + 1) * MAXOPBLOCKS < (size : Int) - 1 := by
      rcases of_decide_eq_true hr with e | e
      · rw [e] at ha; cases ha
      · exact e
    refine ⟨?_, fun q => ?_⟩
    · rw [hmv.total (f := OpPc.rest) rfl]
      have := OpPc.rest_nonneg (hw p)
      rw [Int.add_mul, Int.one_mul] at hroom
      show (s.lh.length : Int) + (total OpPc.rest s.pc - (s.pc p).rest + MAXOPBLOCKS) ≤ size - 2
      omega
    · by_cases e : q = p
      · rw [e, hmv.self]; exact Nat.zero_le _
      · rw [hmv.other (f := OpPc.within) rfl e]; exact hw q
  | @check p b mine hp =>
    have hmv : Moves s (s.goto p (.logging b mine)) p (.logging b mine) false := ⟨rfl⟩
    have hw := h.within p
    have hb : b ∈ (s.pc p).mine ∨ (s.pc p).mine.length < MAXOPBLOCKS := of_decide_eq_true hm
    rw [hp] at hw hb
    refine h.move hmv ?_ ⟨hw, hb⟩
    rw [hp]
    exact le_refl _
  | @absorb p b mine hp =>
    have hmv : Moves s (s.goto p (.op (mine.insert b))) p (.op (mine.insert b)) false := ⟨rfl⟩
    have hw := h.within p
    rw [hp] at hw
    have hlen := length_insert (b := b) (l := mine)
    refine h.move hmv ?_ ?_
    · rw [hp]
      show (s.lh.length : Int) + (MAXOPBLOCKS - (mine.insert b).length) ≤ s.lh.length + (MAXOPBLOCKS - mine.length)
      split at hlen <;> omega
    · show (mine.insert b).length ≤ MAXOPBLOCKS
      have := hw.1
      split at hlen
      · omega
      · next hn => have := hw.2.resolve_left hn; omega
  | @append p b mine hp hb =>
    have hmv : Moves s { s.goto p (.op (mine.insert b)) with lh := s.lh ++ [b] } p
        (.op (mine.insert b)) false := ⟨rfl⟩
    have hw := h.within p
    rw [hp] at hw
    -- a block that is not in the log is new to the operation
    have hn : b ∉ mine := fun hmem => hb (hok.mine p b (by rw [hp]; exact hmem))
    have hlen := length_insert (b := b) (l := mine)
    rw [if_neg hn] at hlen
    have hlt := hw.2.resolve_left hn
    refine h.move hmv ?_ (show (mine.insert b).length ≤ MAXOPBLOCKS by omega)
    rw [hp]
    show ((s.lh ++ [b]).length : Int) + (MAXOPBLOCKS - (mine.insert b).length) ≤
      s.lh.length + (MAXOPBLOCKS - mine.length)
    rw [length_append, length_singleton]
    omega
  | @endLast p =>
    have hmv : Moves s { s.goto p .commit with
        outstanding := s.outstanding - 1, committing := true } p .commit false := ⟨rfl⟩
    exact h.leave hmv (le_refl _) rfl trivial
  | @endOther p =>
    have hmv : Moves s { s with
        outstanding := s.outstanding - 1, pc := Function.update (wakeup s.pc) p .out } p .out true :=
      ⟨rfl⟩
    exact h.leave hmv (le_refl _) rfl trivial
  | write => exact h
  | @clear p =>
    have hmv : Moves s { s.goto p .cleared with lh := [] } p .cleared false := ⟨rfl⟩
    exact h.leave hmv (Nat.zero_le _) rfl trivial
  | @done p =>
    have hmv : Moves s { s with
        committing := false, pc := Function.update (wakeup s.pc) p .out } p .out true := ⟨rfl⟩
    exact h.leave hmv (le_refl _) rfl trivial
  | @kill p =>
    have hmv : Moves s (s.goto p .woken) p .woken false := ⟨rfl⟩
    exact h.leave hmv (le_refl _) rfl trivial

end

lemma ResOk.run (hsize : 2 ≤ size) {tr : OpTrace ι}
    (h : Path (opStep size) Ops.init tr s) (hm : ∀ e ∈ tr, modest e.1 e.2 = true)
    (hr : ∀ e ∈ tr, reserved size e.1 e.2 = true) : ResOk size s := by
  refine (h.invariant (fun s => OpsOk s ∧ ResOk size s)
    (fun s a => modest s a = true ∧ reserved size s a = true) ?_ ?_ ⟨.init, .init hsize⟩).2
  · intro s a s' hs hc hst
    exact ⟨hs.1.next hst, hs.2.next hs.1 hc.1 hc.2 hst⟩
  · intro e he
    exact ⟨hm e he, hr e he⟩

lemma ResOk.no_panic (h : ResOk size s) (hsize : size ≤ LOGSIZE) (p : ι) (b : Nat) :
    opStep size s (.check p b) ≠ .error (.panic "too big a transaction") := by
  have hlen := h.length_le
  have hfull : ¬ (LOGSIZE ≤ s.lh.length ∨ (size : Int) - 1 ≤ s.lh.length) := by omega
  unfold opStep logCheck
  dsimp only
  split
  · rw [if_neg hfull]
    split
    · intro e
      injection e with e
      injection e with e
      revert e
      decide
    · exact nofun
  · exact nofun

/-! ## what is committed -/

/-- the block that is about to be logged has `P`. -/
def OpPc.logs (P : Nat → Prop) : OpPc → Prop
  | .logging b _ => P b
  | _ => True

/-- only blocks with `P` are in the log. -/
structure LogsOnly (P : Nat → Prop) (s : Ops ι) : Prop where
  lh : ∀ b ∈ s.lh, P b
  pc : ∀ p, (s.pc p).logs P

lemma LogsOnly.move (h : LogsOnly P s)
    (hm : Moves s s' p x w) (hlh : ∀ b ∈ s'.lh, P b) (hx : x.logs P) : LogsOnly P s' := by
  refine ⟨hlh, fun q => ?_⟩
  by_cases e : q = p
  · rw [e, hm.self]; exact hx
  · rw [hm.other (f := OpPc.logs P) rfl e]; exact h.pc q

lemma LogsOnly.next (h : LogsOnly P s) (hP : ∀ p b, a = .check p b → P b)
    (hst : opStep size s a = .ok s') : LogsOnly P s' := by
  cases opStep_trans hst with
  | sleep | enter | absorb | endLast | kill =>
    exact h.move (w := false) ⟨rfl⟩ h.lh trivial
  | check => exact h.move (w := false) ⟨rfl⟩ h.lh (hP _ _ rfl)
  | @append p b mine hp =>
    have hpb : P b := by
      have := h.pc p
      rw [hp] at this
      exact this
    refine h.move (w := false) ⟨rfl⟩ (fun x hx => ?_) trivial
    rcases mem_append.mp hx with hx | hx
    · exact h.lh x hx
    · rw [mem_singleton.mp hx]; exact hpb
  | endOther | done => exact h.move (w := true) ⟨rfl⟩ h.lh trivial
  | write => exact h
  | clear => exact h.move (w := false) ⟨rfl⟩ nofun trivial

/-- **What `commit` is given can be installed**: with operations that log home blocks only, `log.lh`
is a transaction in the sense of `Good`. -/
theorem good_of_reserved {L : Layout} (hL : 2 ≤ L.size) {tr : OpTrace ι}
    (h : Path (opStep L.size) Ops.init tr s) (hm : ∀ e ∈ tr, modest e.1 e.2 = true)
    (hr : ∀ e ∈ tr, reserved L.size e.1 e.2 = true)
    (hb : ∀ e ∈ tr, ∀ p b, e.2 = .check p b → b < L.disksize ∧ ¬ L.InLog b) : Good L s.lh := by
  let Home : Nat → Prop := fun b => b < L.disksize ∧ ¬ L.InLog b
  have hres := (ResOk.run hL h hm hr).length_le
  have honly : LogsOnly Home s := by
    refine h.invariant (LogsOnly Home) (fun _ a => ∀ p b, a = .check p b → Home b) ?_ hb ⟨nofun, fun _ => trivial⟩
    intro s a s' hs ha hst
    exact hs.next ha hst
  exact ⟨(OpsOk.run h).nodup, by omega, honly.lh⟩

/-- two operations log a block each. -/
theorem good_of_reserved_two : ∃ (tr : OpTrace Bool) (s : Ops Bool),
    Path (opStep mkfsLayout.size) Ops.init tr s ∧ s.lh = [100, 101] ∧ Good mkfsLayout s.lh := by
  obtain ⟨tr, s, h, hl, hm, hr, hc⟩ : ∃ tr s, Path (opStep mkfsLayout.size) (Ops.init : Ops Bool) tr s ∧
      s.lh = [100, 101] ∧ (∀ e ∈ tr, modest e.1 e.2 = true) ∧ (∀ e ∈ tr, reserved mkfsLayout.size e.1 e.2 = true) ∧
      ∀ e ∈ tr, e.2 ∈ [.begin false, .begin true, .check false 100, .append false, .check true 101, .append true] :=
    Path.of_labels [.begin false, .begin true, .check false 100, .append false, .check true 101, .append true]
      (by decide +kernel)
  refine ⟨tr, s, h, hl, good_of_reserved (by decide) h hm hr fun e he p b hb => ?_⟩
  have hin := hc e he
  rw [hb] at hin
  obtain ⟨-, rfl⟩ | ⟨-, rfl⟩ : p = false ∧ b = 100 ∨ p = true ∧ b = 101 := by simpa using hin
  all_goals decide

/-! ## the panic of `log_write` -/

/-- **The reservation suffices** on a disk of `mkfs`, in every run whose operations keep to
`MAXOPBLOCKS` blocks and are admitted with a block to spare. -/
theorem reservation_suffices {tr : OpTrace ι}
    (h : Path (opStep nlog) Ops.init tr s) (hm : ∀ e ∈ tr, modest e.1 e.2 = true)
    (hr : ∀ e ∈ tr, reserved nlog e.1 e.2 = true) :
    (s.lh.length : Int) ≤ (nlog : Int) - 1 ∧ s.lh.length ≤ LOGSIZE ∧
      ∀ p b, opStep nlog s (.check p b) ≠ .error (.panic "too big a transaction") := by
  have hok := ResOk.run (by decide) h hm hr
  have : (s.lh.length : Int) ≤ ((LOGSIZE : Nat) : Int) - 2 := hok.length_le
  refine ⟨?_, by omega, hok.no_panic (le_refl _)⟩
  show (s.lh.length : Int) ≤ ((LOGSIZE : Nat) : Int) - 1
  omega

/-- `p` logs the `n` blocks from `b` on. -/
def logBlocks (p : ι) (b n : Nat) : List (OpLabel ι) :=
  (List.range n).flatMap fun i => [.check p (b + i), .append p]

/-- two operations use what they have reserved. -/
theorem reservation_suffices_two : ∃ (tr : OpTrace Bool) (s : Ops Bool),
    Path (opStep nlog) Ops.init tr s ∧ s.lh.length = 20 ∧
      ∀ p b, opStep nlog s (.check p b) ≠ .error (.panic "too big a transaction") := by
  obtain ⟨tr, s, h, hn, hm, hr⟩ : ∃ tr s, Path (opStep nlog) (Ops.init : Ops Bool) tr s ∧
      s.lh.length = 20 ∧ (∀ e ∈ tr, modest e.1 e.2 = true) ∧ ∀ e ∈ tr, reserved nlog e.1 e.2 = true :=
    Path.of_labels ([.begin false, .begin true] ++ logBlocks false 40 10 ++ logBlocks true 50 10) (by decide +kernel)
  exact ⟨tr, s, h, hn, (reservation_suffices h hm hr).2.2⟩

/-- three operations with at most ten blocks each. The thirtieth block finds the log full; and two
operations that test at the same time log one block more than the log on disk holds. -/
theorem reservation_falls_short :
    (∃ (tr : OpTrace (Fin 3)) (s : Ops (Fin 3)),
      Path (opStep nlog) Ops.init tr s ∧ (∀ e ∈ tr, modest e.1 e.2 = true) ∧
      modest s (.check 2 69) = true ∧
      opStep nlog s (.check 2 69) = .error (.panic "too big a transaction")) ∧
    ∃ (tr : OpTrace (Fin 3)) (s : Ops (Fin 3)),
      Path (opStep nlog) Ops.init tr s ∧ (∀ e ∈ tr, modest e.1 e.2 = true) ∧
      (nlog : Int) - 1 < s.lh.length := by
  have full : runsTo (opStep nlog) (Ops.init : Ops (Fin 3))
      ([.begin 0, .begin 1, .begin 2] ++ logBlocks 0 40 10 ++ logBlocks 1 50 10 ++ logBlocks 2 60 9)
      (fun tr s => (tr.all fun e => modest e.1 e.2) && (modest s (.check 2 69) &&
        stopsWith (opStep nlog) s (.check 2 69) (.panic "too big a transaction"))) = true := by decide +kernel
  constructor
  · obtain ⟨tr, s, h, hs⟩ := Path.of_runsTo full
    simp only [Bool.and_eq_true, all_eq_true] at hs
    exact ⟨tr, s, h, hs.1, hs.2.1, of_stopsWith hs.2.2⟩
  · exact Path.of_labels ([.begin 0, .begin 1, .begin 2] ++ logBlocks 0 40 10 ++ logBlocks 1 50 9 ++
      logBlocks 2 60 9 ++ [.check 1 59, .check 2 69, .append 1, .append 2]) (by decide +kernel)

end Xv6.Log
