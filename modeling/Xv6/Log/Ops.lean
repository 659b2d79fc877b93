import Xv6.Log.Head
import Xv6.Lib.Total
import Xv6.Lib.History

/-!
# Operations that share the log (`begin_op`, `log_write`, `end_op` in `log.c`)

Finitely many processes run file-system operations. A step is one critical section under `log.lock`
or one access outside it:

* `begin p`      a turn of the loop of `begin_op`: `p` is admitted or goes to sleep on `&log`;
* `check p b`    the two tests of `log_write(b)`, which are made before the lock is taken;
* `append p`     the rest of `log_write`;
* `endOp p`      `end_op` up to the call of `commit`;
* `write p`, `clear p`   `commit`: a block write if anything is logged, and `log.lh.n = 0`;
* `done p`       the end of `end_op`, after `commit`;
* `kill p`       `kill` wakes a sleeping process.

`sleep(&log, &log.lock)` releases the lock and sleeps in one step, and `wakeup(&log)` reaches
everybody who sleeps there. `op mine` keeps the different blocks that the operation has logged.
-/

set_option linter.unusedSectionVars false

namespace Xv6.Log
open Lib Function List

inductive OpPc where
  | out
  | asleep
  | woken
  | op (mine : List Nat)
  | logging (b : Nat) (mine : List Nat)
  | commit
  | cleared
  deriving DecidableEq

/-- `struct log`, and where each process is. -/
structure Ops (ι : Type) where
  lh : List Nat
  outstanding : Int
  committing : Bool
  pc : ι → OpPc

inductive OpLabel (ι : Type) where
  | begin (p : ι)
  | check (p : ι) (b : Nat)
  | append (p : ι)
  | endOp (p : ι)
  | write (p : ι)
  | clear (p : ι)
  | done (p : ι)
  | kill (p : ι)
  deriving DecidableEq

abbrev OpTrace (ι : Type) := List (Ops ι × OpLabel ι)

variable {ι : Type} [DecidableEq ι] {size : Nat} {s s' : Ops ι} {a : OpLabel ι}

/-- everything is zero at the start. -/
def Ops.init : Ops ι := ⟨[], 0, false, fun _ => .out⟩

/-- the test of `begin_op`, "this op might exhaust log space". -/
def Ops.room (s : Ops ι) : Bool := s.lh.length + (s.outstanding + 1) * MAXOPBLOCKS ≤ LOGSIZE

/-- whether `begin_op` goes on. -/
def Ops.admits (s : Ops ι) : Bool := !s.committing && s.room

def Ops.goto (s : Ops ι) (p : ι) (pc : OpPc) : Ops ι := { s with pc := update s.pc p pc }

/-- `wakeup(&log)` -/
def wakeup (pc : ι → OpPc) : ι → OpPc := fun q => if pc q = .asleep then .woken else pc q

/-- a turn of the loop of `begin_op`. -/
def beginOp (s : Ops ι) (p : ι) : Ops ι :=
  if s.admits then { s.goto p (.op []) with outstanding := s.outstanding + 1 }
  else s.goto p .asleep

/-- `log_write` before `acquire`. -/
def logCheck (size : Nat) (s : Ops ι) (p : ι) (b : Nat) (mine : List Nat) :
    Except Stop (Ops ι) :=
  if LOGSIZE ≤ s.lh.length ∨ (size : Int) - 1 ≤ s.lh.length then
    .error (.panic "too big a transaction")
  else if s.outstanding < 1 then .error (.panic "log_write outside of trans")
  else .ok (s.goto p (.logging b mine))

/-- `log_write` after `acquire`: a block that is logged already is not logged again. -/
def logAppend (s : Ops ι) (p : ι) (b : Nat) (mine : List Nat) : Except Stop (Ops ι) :=
  if b ∈ s.lh then .ok (s.goto p (.op (mine.insert b)))
  else if s.lh.length < LOGSIZE then
    .ok { s.goto p (.op (mine.insert b)) with lh := s.lh ++ [b] }
  else .error .index

/-- `end_op` up to `commit`. -/
def endOp (s : Ops ι) (p : ι) : Except Stop (Ops ι) :=
  if s.committing then .error (.panic "log.committing")
  else if s.outstanding - 1 = 0 then
    .ok { s.goto p .commit with outstanding := s.outstanding - 1, committing := true }
  else
    .ok { s with outstanding := s.outstanding - 1, pc := update (wakeup s.pc) p .out }

def opStep (size : Nat) (s : Ops ι) : OpLabel ι → Except Stop (Ops ι)
  | .begin p =>
    match s.pc p with
    | .out => .ok (beginOp s p)
    | .woken => .ok (beginOp s p)
    | _ => .error .blocked
  | .check p b =>
    match s.pc p with
    | .op mine => logCheck size s p b mine
    | _ => .error .blocked
  | .append p =>
    match s.pc p with
    | .logging b mine => logAppend s p b mine
    | _ => .error .blocked
  | .endOp p =>
    match s.pc p with
    | .op _ => endOp s p
    | _ => .error .blocked
  | .write p => if s.pc p = .commit ∧ s.lh ≠ [] then .ok s else .error .blocked
  | .clear p => if s.pc p = .commit then .ok { s.goto p .cleared with lh := [] } else .error .blocked
  | .done p =>
    if s.pc p = .cleared then
      .ok { s with committing := false, pc := update (wakeup s.pc) p .out }
    else .error .blocked
  | .kill p => if s.pc p = .asleep then .ok (s.goto p .woken) else .error .blocked

/-! ## every step -/

/-- every way in which a label can lead from `s` to another state. -/
inductive OpTrans (size : Nat) (s : Ops ι) : OpLabel ι → Ops ι → Prop
  | sleep {p : ι} (hp : s.pc p = .out ∨ s.pc p = .woken) (ha : s.admits = false) :
      OpTrans size s (.begin p) (s.goto p .asleep)
  | enter {p : ι} (hp : s.pc p = .out ∨ s.pc p = .woken) (ha : s.admits = true) :
      OpTrans size s (.begin p) { s.goto p (.op []) with outstanding := s.outstanding + 1 }
  | check {p : ι} {b : Nat} {mine : List Nat} (hp : s.pc p = .op mine)
      (hl : s.lh.length < LOGSIZE) (hs : (s.lh.length : Int) < (size : Int) - 1) :
      OpTrans size s (.check p b) (s.goto p (.logging b mine))
  | absorb {p : ι} {b : Nat} {mine : List Nat} (hp : s.pc p = .logging b mine) (hb : b ∈ s.lh) :
      OpTrans size s (.append p) (s.goto p (.op (mine.insert b)))
  | append {p : ι} {b : Nat} {mine : List Nat} (hp : s.pc p = .logging b mine) (hb : b ∉ s.lh)
      (hl : s.lh.length < LOGSIZE) :
      OpTrans size s (.append p) { s.goto p (.op (mine.insert b)) with lh := s.lh ++ [b] }
  | endLast {p : ι} {mine : List Nat} (hp : s.pc p = .op mine) (hc : s.committing = false)
      (ho : s.outstanding - 1 = 0) :
      OpTrans size s (.endOp p) { s.goto p .commit with outstanding := s.outstanding - 1, committing := true }
  | endOther {p : ι} {mine : List Nat} (hp : s.pc p = .op mine) (hc : s.committing = false)
      (ho : s.outstanding - 1 ≠ 0) :
      OpTrans size s (.endOp p) { s with outstanding := s.outstanding - 1, pc := update (wakeup s.pc) p .out }
  | write {p : ι} (hp : s.pc p = .commit) (hn : s.lh ≠ []) : OpTrans size s (.write p) s
  | clear {p : ι} (hp : s.pc p = .commit) :
      OpTrans size s (.clear p) { s.goto p .cleared with lh := [] }
  | done {p : ι} (hp : s.pc p = .cleared) :
      OpTrans size s (.done p) { s with committing := false, pc := update (wakeup s.pc) p .out }
  | kill {p : ι} (hp : s.pc p = .asleep) : OpTrans size s (.kill p) (s.goto p .woken)

lemma beginOp_trans {p : ι} (hp : s.pc p = .out ∨ s.pc p = .woken) : OpTrans size s (.begin p) (beginOp s p) := by
  unfold beginOp
  split
  · next ha => exact .enter hp ha
  · next ha => exact .sleep hp (Bool.eq_false_iff.mpr ha)

lemma opStep_trans (h : opStep size s a = .ok s') : OpTrans size s a s' := by
  cases a with
  | begin =>
    dsimp only [opStep] at h
    split at h
    · next hp => cases h; exact beginOp_trans (.inl hp)
    · next hp => cases h; exact beginOp_trans (.inr hp)
    · cases h
  | check =>
    dsimp only [opStep, logCheck] at h
    split at h
    · next mine hp =>
      split at h
      · cases h
      · next hn =>
        split at h
        · cases h
        · cases h; exact .check hp (by omega) (by omega)
    · cases h
  | append =>
    dsimp only [opStep, logAppend] at h
    split at h
    · next b mine hp =>
      split at h
      · next hb => cases h; exact .absorb hp hb
      · next hb =>
        split at h
        · next hl => cases h; exact .append hp hb hl
        · cases h
    · cases h
  | endOp =>
    dsimp only [opStep, endOp] at h
    split at h
    · next mine hp =>
      split at h
      · cases h
      · next hc =>
        have hc' := Bool.eq_false_iff.mpr hc
        split at h
        · next ho => cases h; exact .endLast hp hc' ho
        · next ho => cases h; exact .endOther hp hc' ho
    · cases h
  | write =>
    dsimp only [opStep] at h
    split at h
    · next hp => cases h; exact .write hp.1 hp.2
    · cases h
  | clear =>
    dsimp only [opStep] at h
    split at h
    · next hp => cases h; exact .clear hp
    · cases h
  | done =>
    dsimp only [opStep] at h
    split at h
    · next hp => cases h; exact .done hp
    · cases h
  | kill =>
    dsimp only [opStep] at h
    split at h
    · next hp => cases h; exact .kill hp
    · cases h

/-! ## where a process is -/

namespace OpPc

/-- between `begin_op` and `end_op`. -/
def inOp : OpPc → Bool
  | .op _ => true
  | .logging _ _ => true
  | _ => false

/-- inside `commit`, or on the way out of it. -/
def commits : OpPc → Bool
  | .commit => true
  | .cleared => true
  | _ => false

/-- the blocks that the operation has logged. -/
def mine : OpPc → List Nat
  | .op mine => mine
  | .logging _ mine => mine
  | _ => []

def count (pc : OpPc) : Int := if pc.inOp then 1 else 0

lemma count_nonneg (pc : OpPc) : 0 ≤ pc.count := by
  unfold count
  split <;> omega

lemma inOp_of_count {pc : OpPc} (h : pc.count = 0) : pc.inOp = false := by
  unfold count at h
  split at h
  · cases h
  · next hn => exact Bool.eq_false_iff.mpr hn

end OpPc

lemma wakeup_eq {β : Type} {f : OpPc → β} (hf : f .woken = f .asleep) (pc : ι → OpPc) (q : ι) :
    f (wakeup pc q) = f (pc q) := by
  unfold wakeup
  split
  · next e => rw [e, hf]
  · rfl

lemma wakeup_ne_asleep (pc : ι → OpPc) (q : ι) : wakeup pc q ≠ .asleep := by
  unfold wakeup
  split
  · nofun
  · next h => exact h

/-! ## the invariant -/

variable [Fintype ι]
variable {p q : ι} {x : OpPc} {w : Bool} {b : Nat} {tr : OpTrace ι}

structure OpsOk (s : Ops ι) : Prop where
  /-- `outstanding` counts the operations. -/
  count : s.outstanding = total OpPc.count s.pc
  commit : ∀ p, (s.pc p).commits = true → s.committing = true ∧ s.outstanding = 0
  one : ∀ p q, (s.pc p).commits = true → (s.pc q).commits = true → p = q
  who : s.committing = true → ∃ p, (s.pc p).commits = true
  mine : ∀ p, ∀ b ∈ (s.pc p).mine, b ∈ s.lh
  nodup : s.lh.Nodup
  asleep : ∀ p, s.pc p = .asleep → s.admits = false

lemma OpsOk.init : OpsOk (Ops.init : Ops ι) := by
  refine ⟨?_, nofun, nofun, nofun, fun _ => nofun, nodup_nil, nofun⟩
  exact ((total_eq_zero OpPc.count_nonneg).mpr fun _ => rfl).symm

lemma OpsOk.alone (h : OpsOk s) (hp : (s.pc p).commits = true) (q : ι) : (s.pc q).inOp = false := by
  have ho := (h.commit p hp).2
  rw [h.count] at ho
  exact OpPc.inOp_of_count ((total_eq_zero OpPc.count_nonneg).mp ho q)

lemma OpsOk.calm (h : OpsOk s) (hq : (s.pc q).inOp = true) : s.committing = false := by
  by_contra hc
  obtain ⟨p, hp⟩ := h.who (by simpa using hc)
  rw [h.alone hp q] at hq
  cases hq

/-- `p` goes on to `x`; the others stay, or the sleepers are woken. -/
structure Moves (s s' : Ops ι) (p : ι) (x : OpPc) (wakes : Bool) : Prop where
  pc : s'.pc = update (if wakes then wakeup s.pc else s.pc) p x

lemma Moves.self (h : Moves s s' p x w) : s'.pc p = x := by
  rw [h.pc, update_self]

lemma Moves.other {β : Type} {f : OpPc → β} (hf : f .woken = f .asleep)
    (h : Moves s s' p x w) (hq : q ≠ p) : f (s'.pc q) = f (s.pc q) := by
  rw [h.pc, update_of_ne hq]
  split
  · exact wakeup_eq hf s.pc q
  · rfl

lemma Moves.asleep (h : Moves s s' p x w) (hq : q ≠ p) (ha : s'.pc q = .asleep) : w = false ∧ s.pc q = .asleep := by
  rw [h.pc, update_of_ne hq] at ha
  cases w with
  | true => exact absurd ha (wakeup_ne_asleep s.pc q)
  | false => exact ⟨rfl, ha⟩

lemma Moves.total (h : Moves s s' p x w) {f : OpPc → Int}
    (hf : f .woken = f .asleep) : total f s'.pc = total f s.pc - f (s.pc p) + f x := by
  rw [h.pc, total_update]
  cases w with
  | true =>
    show Lib.total f (wakeup s.pc) - f (wakeup s.pc p) + f x = _
    rw [total_congr (wakeup_eq hf s.pc), wakeup_eq hf s.pc p]
  | false => rfl

lemma OpsOk.move (h : OpsOk s) (hm : Moves s s' p x w) (hx : x.commits = (s.pc p).commits)
    (hc : s'.committing = s.committing)
    (ho : s'.outstanding = s.outstanding - (s.pc p).count + x.count)
    (ho' : s'.outstanding = s.outstanding ∨ s.committing = false) (hmine : ∀ b ∈ x.mine, b ∈ s'.lh)
    (hlh : (∀ b ∈ s.lh, b ∈ s'.lh) ∨ ∀ q, (s.pc q).inOp = false) (hn : s'.lh.Nodup)
    (hs : x = .asleep → s'.admits = false) (ha : w = false → s.admits = false → s'.admits = false) :
    OpsOk s' := by
  have hcom : ∀ q, (s'.pc q).commits = (s.pc q).commits := by
    intro q
    by_cases e : q = p
    · rw [e, hm.self, hx]
    · exact hm.other (f := OpPc.commits) rfl e
  refine ⟨?_, fun q hq => ?_, fun q q' hq hq' => ?_, fun hc' => ?_, fun q b hb => ?_, hn, fun q hq => ?_⟩
  · rw [ho, h.count, hm.total (f := OpPc.count) rfl]
  · rw [hcom] at hq
    have := h.commit q hq
    rw [hc]
    refine ⟨this.1, ?_⟩
    rcases ho' with e | e
    · rw [e, this.2]
    · rw [e] at this; cases this.1
  · rw [hcom] at hq hq'
    exact h.one q q' hq hq'
  · rw [hc] at hc'
    obtain ⟨q, hq⟩ := h.who hc'
    exact ⟨q, by rw [hcom, hq]⟩
  · by_cases e : q = p
    · rw [e, hm.self] at hb
      exact hmine b hb
    · rw [hm.other (f := OpPc.mine) rfl e] at hb
      rcases hlh with hlh | hlh
      · exact hlh b (h.mine q b hb)
      · have hin := hlh q
        cases hpc : s.pc q with
        | op | logging => rw [hpc] at hin; cases hin
        | _ => rw [hpc] at hb; cases hb
  · by_cases e : q = p
    · rw [e, hm.self] at hq
      exact hs hq
    · obtain ⟨hw, hq'⟩ := hm.asleep e hq
      exact ha hw (h.asleep q hq')

lemma Ops.admits_false (s : Ops ι) : s.admits = false ↔
    s.committing = true ∨ (LOGSIZE : Int) < s.lh.length + (s.outstanding + 1) * MAXOPBLOCKS := by
  unfold Ops.admits Ops.room
  cases s.committing <;> simp

lemma OpsOk.next (h : OpsOk s) (hst : opStep size s a = .ok s') : OpsOk s' := by
  have quiet : ∀ {p : ι}, s.pc p = .out ∨ s.pc p = .woken → (s.pc p).commits = false ∧ (s.pc p).count = 0 := by
    intro p hp
    rcases hp with e | e <;> rw [e] <;> exact ⟨rfl, rfl⟩
  cases opStep_trans hst with
  | @sleep p hp ha =>
    have hm : Moves s (s.goto p .asleep) p .asleep false := ⟨rfl⟩
    have hq := quiet hp
    refine h.move hm hq.1.symm rfl ?_ (.inl rfl) nofun (.inl fun _ => id) h.nodup (fun _ => ha) fun _ => id
    show s.outstanding = s.outstanding - (s.pc p).count + 0
    omega
  | @enter p hp ha =>
    have hm : Moves s { s.goto p (.op []) with outstanding := s.outstanding + 1 } p (.op []) false :=
      ⟨rfl⟩
    have hq := quiet hp
    have hc : s.committing = false := by
      by_contra hc
      rw [s.admits_false.mpr (.inl (by simpa using hc))] at ha
      cases ha
    refine h.move hm hq.1.symm rfl ?_ (.inr hc) nofun (.inl fun _ => id) h.nodup nofun fun _ e => ?_
    · show s.outstanding + 1 = s.outstanding - (s.pc p).count + 1
      omega
    · rw [e] at ha; cases ha
  | @check p b mine hp =>
    have hm : Moves s (s.goto p (.logging b mine)) p (.logging b mine) false := ⟨rfl⟩
    refine h.move hm (by rw [hp]; rfl) rfl ?_ (.inl rfl) (fun x hx => ?_) (.inl fun _ => id) h.nodup
      nofun fun _ => id
    · rw [hp]
      show s.outstanding = s.outstanding - 1 + 1
      omega
    · exact h.mine p x (by rw [hp]; exact hx)
  | @absorb p b mine hp hb =>
    have hm : Moves s (s.goto p (.op (mine.insert b))) p (.op (mine.insert b)) false := ⟨rfl⟩
    refine h.move hm (by rw [hp]; rfl) rfl ?_ (.inl rfl) (fun x hx => ?_) (.inl fun _ => id) h.nodup
      nofun fun _ => id
    · rw [hp]
      show s.outstanding = s.outstanding - 1 + 1
      omega
    · rcases mem_insert_iff.mp hx with rfl | hx
      · exact hb
      · exact h.mine p x (by rw [hp]; exact hx)
  | @append p b mine hp hb =>
    have hm : Moves s { s.goto p (.op (mine.insert b)) with lh := s.lh ++ [b] } p (.op (mine.insert b)) false := ⟨rfl⟩
    refine h.move hm (by rw [hp]; rfl) rfl ?_ (.inl rfl) (fun x hx => ?_)
      (.inl fun x hx => mem_append_left _ hx) ?_ nofun fun _ e => ?_
    · rw [hp]
      show s.outstanding = s.outstanding - 1 + 1
      omega
    · rcases mem_insert_iff.mp hx with rfl | hx
      · exact mem_append_right _ (mem_singleton_self _)
      · exact mem_append_left _ (h.mine p x (by rw [hp]; exact hx))
    · refine nodup_append.mpr ⟨h.nodup, nodup_singleton b, fun x hx y hy e => hb ?_⟩
      rw [← mem_singleton.mp hy, ← e]
      exact hx
    · rw [Ops.admits_false] at e ⊢
      refine e.imp id fun e => ?_
      show (LOGSIZE : Int) < (s.lh ++ [b]).length + (s.outstanding + 1) * MAXOPBLOCKS
      rw [length_append, length_singleton, Nat.cast_add]
      omega
  | @endLast p mine hp hc ho =>
    have hm : Moves s { s.goto p .commit with
        outstanding := s.outstanding - 1, committing := true } p .commit false := ⟨rfl⟩
    -- nobody commits before
    have hno : ∀ q, (s.pc q).commits = false := by
      intro q
      refine Bool.eq_false_iff.mpr fun hq => ?_
      rw [(h.commit q hq).1] at hc
      cases hc
    have only : ∀ q, ((update s.pc p .commit) q).commits = true → q = p := by
      intro q hq
      by_contra e
      rw [update_of_ne e, hno q] at hq
      cases hq
    refine ⟨?_, fun q _ => ⟨rfl, ho⟩, fun q q' hq hq' => ?_, fun _ => ⟨p, ?_⟩, fun q b hb => ?_,
      h.nodup, fun q _ => ?_⟩
    · rw [hm.total (f := OpPc.count) rfl, ← h.count, hp]
      show s.outstanding - 1 = s.outstanding - 1 + 0
      omega
    · rw [only q hq, only q' hq']
    · rw [hm.self]; rfl
    · by_cases e : q = p
      · rw [e, hm.self] at hb; cases hb
      · rw [hm.other (f := OpPc.mine) rfl e] at hb
        exact h.mine q b hb
    · exact (Ops.admits_false _).mpr (.inl rfl)
  | @endOther p mine hp hc =>
    have hm : Moves s { s with
        outstanding := s.outstanding - 1, pc := update (wakeup s.pc) p .out } p .out true :=
      ⟨rfl⟩
    refine h.move hm (by rw [hp]; rfl) rfl ?_ (.inr hc) nofun (.inl fun _ => id) h.nodup nofun nofun
    rw [hp]
    show s.outstanding - 1 = s.outstanding - 1 + 0
    omega
  | write => exact h
  | @clear p hp =>
    have hm : Moves s { s.goto p .cleared with lh := [] } p .cleared false := ⟨rfl⟩
    have hcom : (s.pc p).commits = true := by rw [hp]; rfl
    refine h.move hm hcom.symm rfl ?_ (.inl rfl) nofun (.inr (h.alone hcom)) nodup_nil nofun fun _ _ => ?_
    · rw [hp]
      show s.outstanding = s.outstanding - 0 + 0
      omega
    · exact (Ops.admits_false _).mpr (.inl (h.commit p hcom).1)
  | @done p hp =>
    have hm : Moves s { s with
        committing := false, pc := update (wakeup s.pc) p .out } p .out true := ⟨rfl⟩
    have hcom : (s.pc p).commits = true := by rw [hp]; rfl
    have hno : ∀ q, ((update (wakeup s.pc) p .out) q).commits = false := by
      intro q
      by_cases e : q = p
      · rw [e, update_self]; rfl
      · refine Bool.eq_false_iff.mpr fun hq => e ?_
        rw [update_of_ne e, wakeup_eq (f := OpPc.commits) rfl] at hq
        exact h.one q p hq hcom
    refine ⟨?_, fun q hq => ?_, fun q q' hq _ => ?_, nofun, fun q b hb => ?_, h.nodup, fun q hq => ?_⟩
    · rw [hm.total (f := OpPc.count) rfl, ← h.count, hp]
      show s.outstanding = s.outstanding - 0 + 0
      omega
    · cases (hno q).symm.trans hq
    · cases (hno q).symm.trans hq
    · by_cases e : q = p
      · rw [e, hm.self] at hb; cases hb
      · rw [hm.other (f := OpPc.mine) rfl e] at hb
        exact h.mine q b hb
    · by_cases e : q = p
      · rw [e, hm.self] at hq; cases hq
      · cases (hm.asleep e hq).1
  | @kill p hp =>
    have hm : Moves s (s.goto p .woken) p .woken false := ⟨rfl⟩
    refine h.move hm (by rw [hp]; rfl) rfl ?_ (.inl rfl) nofun (.inl fun _ => id) h.nodup nofun fun _ => id
    rw [hp]
    show s.outstanding = s.outstanding - 0 + 0
    omega

lemma OpsOk.run {tr : OpTrace ι} (h : Path (opStep size) Ops.init tr s) :
    OpsOk s := by
  refine h.invariant OpsOk (fun _ _ => True) ?_ (fun _ _ => trivial) OpsOk.init
  intro s a s' hok _ hst
  exact hok.next hst

/-! ## an operation is committed whole -/

/-- the steps of `commit` and of the end of `end_op` after it. -/
def OpLabel.inCommit : OpLabel ι → Bool
  | .write _ => true
  | .clear _ => true
  | .done _ => true
  | _ => false

lemma inOp_kept (hp : (s.pc p).inOp = true) (ha : a ≠ .endOp p)
    (hst : opStep size s a = .ok s') : (s'.pc p).inOp = true := by
  -- if somebody else moves, `p` stays where it is; `p` itself can only log
  have other : ∀ {q : ι} {x : OpPc} {w : Bool}, Moves s s' q x w →
      (q = p → x.inOp = true) → (s'.pc p).inOp = true := by
    intro q x w hm hx
    by_cases e : p = q
    · rw [e, hm.self]
      exact hx e.symm
    · rw [hm.other (f := OpPc.inOp) rfl e]
      exact hp
  have out : ∀ {q : ι}, (s.pc q).inOp = false → q ≠ p := by
    intro q hq e
    rw [e, hp] at hq
    cases hq
  cases opStep_trans hst with
  | @sleep q hq =>
    refine other (w := false) ⟨rfl⟩ fun e => absurd e (out ?_)
    rcases hq with e | e <;> rw [e] <;> rfl
  | enter | check | absorb | append => exact other (w := false) ⟨rfl⟩ fun _ => rfl
  | endLast => exact other (w := false) ⟨rfl⟩ fun e => absurd (congrArg _ e) ha
  | endOther => exact other (w := true) ⟨rfl⟩ fun e => absurd (congrArg _ e) ha
  | write => exact hp
  | clear hq | kill hq => exact other (w := false) ⟨rfl⟩ fun e => absurd e (out (by rw [hq]; rfl))
  | done hq => exact other (w := true) ⟨rfl⟩ fun e => absurd e (out (by rw [hq]; rfl))

lemma lh_kept (ha : a.inCommit = false) (hst : opStep size s a = .ok s') (hb : b ∈ s.lh) : b ∈ s'.lh := by
  cases opStep_trans hst with
  | append => exact mem_append_left _ hb
  | clear => cases ha
  | _ => exact hb

lemma append_logs (hst : opStep size s (.append p) = .ok s') : ∃ b mine, s.pc p = .logging b mine ∧ b ∈ s'.lh := by
  cases opStep_trans hst with
  | @absorb p b mine hp hb => exact ⟨b, mine, hp, hb⟩
  | @append p b mine hp =>
    exact ⟨b, mine, hp, mem_append_right _ (mem_singleton_self b)⟩

lemma inCommit_commits (ha : a.inCommit = true) (hst : opStep size s a = .ok s') : ∃ q, (s.pc q).commits = true := by
  cases opStep_trans hst with
  | @write p hp | @clear p hp | @done p hp => exact ⟨p, by rw [hp]; rfl⟩
  | _ => cases ha

lemma OpsOk.not_inCommit (h : OpsOk s) (hp : (s.pc p).inOp = true)
    (hst : opStep size s a = .ok s') : a.inCommit = false := by
  refine Bool.eq_false_iff.mpr fun ha => ?_
  obtain ⟨q, hq⟩ := inCommit_commits ha hst
  rw [h.alone hq p] at hp
  cases hp

/-- what the operations of a run `tr` to `s` make of the log. -/
structure CommitsWhole (size : Nat) (tr : OpTrace ι) (s : Ops ι) : Prop where
  /-- `commit` runs only with no operation outstanding and `committing` set. -/
  committing : ∀ p, (s.pc p).commits = true → s.outstanding = 0 ∧ s.committing = true
  /-- no `log_write` is made during a commit. -/
  quiet : ∀ p, (s.pc p).commits = true → ∀ q b,
    opStep size s (.check q b) = .error .blocked ∧ opStep size s (.append q) = .error .blocked
  /-- what `p` logs after it was admitted at `u` is in the transaction of the next commit; no commit
  has run since `u`, and `p` has ended its operation before that next one. -/
  whole : ∀ {pre mid mid' post : OpTrace ι} {u v w : Ops ι} {p : ι} {c : OpLabel ι},
    tr = pre ++ (u, .begin p) :: mid ++ (v, .append p) :: mid' ++ (w, c) :: post →
    u.admits = true → (∀ e ∈ mid, e.2 ≠ .endOp p) → c.inCommit = true →
    (∀ e ∈ mid', e.2.inCommit = false) →
    (∀ e ∈ mid, e.2.inCommit = false) ∧ (∃ e ∈ mid', e.2 = .endOp p) ∧ ∃ b mine, v.pc p = .logging b mine ∧ b ∈ w.lh
  no_panic : ∀ p, opStep size s (.endOp p) ≠ .error (.panic "log.committing")
  /-- nobody sleeps in `begin_op` who could go on. -/
  awake : s.committing = false → s.room = true → ∀ p, s.pc p ≠ .asleep

lemma OpsOk.blocked (h : OpsOk s) (hp : (s.pc p).commits = true) (q : ι) (b : Nat) :
    opStep size s (.check q b) = .error .blocked ∧ opStep size s (.append q) = .error .blocked := by
  have hq := h.alone hp q
  cases hpc : s.pc q with
  | op | logging => rw [hpc] at hq; cases hq
  | _ => constructor <;> (unfold opStep; dsimp only; rw [hpc])

lemma OpsOk.no_panic (h : OpsOk s) (p : ι) : opStep size s (.endOp p) ≠ .error (.panic "log.committing") := by
  dsimp only [opStep, endOp]
  split
  · next mine hp =>
    rw [h.calm (q := p) (by rw [hp]; rfl), if_neg Bool.false_ne_true]
    split <;> exact nofun
  · exact nofun

lemma OpsOk.inOp_kept (h : OpsOk s) (hp : (s.pc p).inOp = true) (hr : Path (opStep size) s tr s')
    (he : ∀ e ∈ tr, e.2 ≠ .endOp p) :
    (∀ e ∈ tr, e.2.inCommit = false) ∧ OpsOk s' ∧ (s'.pc p).inOp = true := by
  let I : Ops ι → Prop := fun s => OpsOk s ∧ (s.pc p).inOp = true
  let C : Ops ι → OpLabel ι → Prop := fun _ a => a ≠ .endOp p
  have hI : ∀ s a s', I s → C s a → opStep size s a = .ok s' → I s' := by
    intro s a s' hs ha hst
    exact ⟨hs.1.next hst, Log.inOp_kept hs.2 ha hst⟩
  refine ⟨fun e hmem => ?_, hr.invariant I C hI he ⟨h, hp⟩⟩
  obtain ⟨hok, hin⟩ := hr.always I C hI he ⟨h, hp⟩ e hmem
  obtain ⟨-, v, -, hst⟩ := hr.reached hmem
  exact hok.not_inCommit hin hst

/-- a logged block stays in the log until the next commit. -/
theorem lh_kept_run (hr : Path (opStep size) s tr s')
    (he : ∀ e ∈ tr, e.2.inCommit = false) (hb : b ∈ s.lh) : b ∈ s'.lh := by
  refine hr.invariant (fun s => b ∈ s.lh) (fun _ a => a.inCommit = false) ?_ he hb
  intro s a s' hb ha hst
  exact lh_kept ha hst hb

/-- **Operations commit whole**, for any number of processes and any interleaving. -/
theorem ops_commit_whole {tr : OpTrace ι}
    (h : Path (opStep size) Ops.init tr s) : CommitsWhole size tr s := by
  have hok := OpsOk.run h
  refine ⟨fun p hp => (hok.commit p hp).symm, fun p hp => hok.blocked hp, ?_, hok.no_panic, ?_⟩
  · rintro pre mid mid' post u v w p c rfl hu hmid hc hmid'
    obtain ⟨w', h1, -⟩ := h.split
    obtain ⟨hpre, t, ht, hpm, -⟩ := h1.between
    obtain ⟨-, t', ht', hpm', z, hz⟩ := h.between
    have hin : (t.pc p).inOp = true := by
      cases opStep_trans ht with
      | sleep hp ha => rw [hu] at ha; cases ha
      | enter =>
        show (update u.pc p (.op []) p).inOp = true
        rw [update_self]
        rfl
    obtain ⟨hno, hv, hvin⟩ := ((OpsOk.run hpre).next ht).inOp_kept hin hpm hmid
    obtain ⟨b, mine, hb, hlog⟩ := append_logs ht'
    refine ⟨hno, ?_, b, mine, hb, lh_kept_run hpm' hmid' hlog⟩
    -- otherwise `p` would still be in its operation when the commit goes on
    by_contra hend
    have hin' := Log.inOp_kept hvin (nofun : OpLabel.append p ≠ .endOp p) ht'
    obtain ⟨-, hw, hwin⟩ := (hv.next ht').inOp_kept hin' hpm' fun e he e' => hend ⟨e, he, e'⟩
    rw [hw.not_inCommit hwin hz] at hc
    cases hc
  · intro hc hr p hp
    have ha := hok.asleep p hp
    unfold Ops.admits at ha
    rw [hc, hr] at ha
    cases ha

/-- two operations that overlap are committed together. -/
theorem ops_commit_whole_two : ∃ (tr : OpTrace Bool) (s : Ops Bool),
    Path (opStep LOGSIZE) Ops.init tr s ∧ (s.pc false).commits = true ∧ s.lh = [40, 41] ∧
      CommitsWhole LOGSIZE tr s := by
  obtain ⟨tr, s, h, hc, hl⟩ : ∃ tr s, Path (opStep LOGSIZE) (Ops.init : Ops Bool) tr s ∧
      (s.pc false).commits = true ∧ s.lh = [40, 41] := Path.of_labels
    [.begin false, .begin true, .check false 40, .append false, .check true 41, .check false 41,
      .append true, .endOp true, .append false, .endOp false, .write false] (by decide +kernel)
  exact ⟨tr, s, h, hc, hl, ops_commit_whole h⟩

end Xv6.Log
