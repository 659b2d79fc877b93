import Xv6.Proc.Running

/-!
# What a step does to the five queues

Only seven things can happen to the arrays `q0 .. q4`, to `current_queue` and to the indices the
schedulers keep across `swtch` (`QMove`):

* `quiet`    nothing;
* `charge`   a timer tick is booked to the process of a CPU;
* `run`      a scheduler dispatches the entry it looks at and parks its index there;
* `alloc`    `allocproc` appends a new process to `q0`;
* `age`      `ageing` moves a process up;
* `back`     a scheduler comes back from a process and edits its queue;
* `reap`     `wait` or `waitx` frees a child.

`step_qmove`: **every step is one of these.** `promoted`, `allocates` and `forkFails` name, in the
state before a step, the process that it moves up, allocates or gives back.
-/

namespace Xv6
open Lib Kernel

variable {n : Nat} {pol : Policy} {s s' : State n} {k k' : Kernel}

/-- neither free nor a ZOMBIE. -/
def ProcState.active : ProcState → Bool
  | .UNUSED => false
  | .ZOMBIE => false
  | _ => true

/-- the process that the step moves up in `ageing`. -/
def promoted (s : State n) : Action n → Option Slot
  | .cpu c =>
    match (s.cpus c).mode with
    | .age l i =>
      if (i : Int) ≤ (s.ker.queue l.succ).top then
        match (s.ker.queue l.succ).cell i with
        | some p => if (s.ker.procs p).state = .RUNNABLE ∧ s.ker.waited p = true then some p else none
        | none => none
      else none
    | _ => none
  | _ => none

/-- the slot that the step takes in `allocproc`. -/
def allocates (s : State n) : Action n → Option Slot
  | .sys c (.fork _) =>
    match (s.cpus c).proc with
    | some p =>
      if (s.ker.procs p).fork = .none then s.ker.find (fun r => r.state = .UNUSED) else none
    | none => none
  | _ => none

/-- the slot that the step gives back because a page is missing. -/
def forkFails (s : State n) : Action n → Option Slot
  | .sys c (.fork need) =>
    match (s.cpus c).proc with
    | some p =>
      match (s.ker.procs p).fork with
      | .kalloc np => if s.ker.freelist = [] then some np else none
      | .copyuvm np => if need < s.ker.freelist.length then none else some np
      | _ => none
    | none => none
  | _ => none

/-! ## the fields that the queues depend on -/

namespace Kernel

variable {p : Slot} {need : Nat}

structure StillTo (k k' : Kernel) : Prop where
  queue : k'.queue = k.queue
  cq : ∀ q, (k'.procs q).current_queue = (k.procs q).current_queue
  ticks : ∀ q, (k'.procs q).ticks = (k.procs q).ticks
  killed : ∀ q, (k'.procs q).killed = false → (k.procs q).killed = false

lemma StillTo.refl (k : Kernel) : StillTo k k := ⟨rfl, fun _ => rfl, fun _ => rfl, fun _ h => h⟩

lemma StillTo.trans {k'' : Kernel} (h : StillTo k k') (h' : StillTo k' k'') : StillTo k k'' :=
  ⟨h'.queue.trans h.queue, fun q => (h'.cq q).trans (h.cq q),
    fun q => (h'.ticks q).trans (h.ticks q), fun q e => h.killed q (h'.killed q e)⟩

section
variable (k : Kernel)

lemma stillTo_upd (p : Slot) (f : Proc → Proc)
    (hc : (f (k.procs p)).current_queue = (k.procs p).current_queue)
    (ht : (f (k.procs p)).ticks = (k.procs p).ticks)
    (hk : (f (k.procs p)).killed = false → (k.procs p).killed = false) : StillTo k (k.upd p f) := by
  refine ⟨rfl, fun q => ?_, fun q => ?_, fun q => ?_⟩ <;> rw [upd_procs] <;> split
  · next e => rw [e]; exact hc
  · rfl
  · next e => rw [e]; exact ht
  · rfl
  · next e => rw [e]; exact hk
  · exact id

lemma stillTo_tick : StillTo k k.tick := ⟨rfl, fun _ => rfl, fun _ => rfl, fun _ h => h⟩

lemma stillTo_wakeup1 (ch : Chan) : StillTo k (k.wakeup1 ch) := by
  refine ⟨rfl, fun q => ?_, fun q => ?_, fun q => ?_⟩ <;> simp only [wakeup1] <;> split <;>
    first | rfl | exact id

lemma stillTo_unchan (p : Slot) : StillTo k (k.unchan p) :=
  stillTo_upd k p _ rfl rfl id

lemma stillTo_dispatch (p : Slot) : StillTo k (k.dispatch p) :=
  stillTo_upd k p _ rfl rfl id

lemma stillTo_dispatchQueue (p : Slot) : StillTo k (k.dispatchQueue p) :=
  stillTo_upd k p _ rfl rfl id

end

lemma dispatchQueue_procs (hr : (k.procs p).state = .RUNNABLE) (q : Slot) :
    ((k.dispatchQueue p).procs q).pid = (k.procs q).pid ∧
      ((k.dispatchQueue p).procs q).state.active = (k.procs q).state.active ∧
      (((k.dispatchQueue p).procs q).state = .UNUSED ↔ (k.procs q).state = .UNUSED) := by
  unfold dispatchQueue
  rw [upd_procs]
  split
  · next e =>
    rw [e, hr]
    exact ⟨rfl, rfl, by simp⟩
  · exact ⟨rfl, rfl, Iff.rfl⟩

lemma stillTo_kill (k : Kernel) (pid : Int) : StillTo k (k.kill pid) := by
  unfold kill
  split
  · refine stillTo_upd k _ _ ?_ ?_ ?_
    · split <;> rfl
    · split <;> rfl
    · split <;> nofun
  · exact StillTo.refl k

lemma stillTo_setPriority (k : Kernel) (pid v : Int) : StillTo k (k.setPriority pid v) := by
  unfold setPriority
  split
  · exact StillTo.refl k
  · split
    · exact stillTo_upd k _ _ rfl rfl id
    · exact StillTo.refl k

lemma stillTo_reparent (k : Kernel) (cur : Slot) : StillTo k (k.reparent cur) := by
  refine ⟨rfl, fun q => ?_, fun q => ?_, fun q => ?_⟩ <;> simp only [reparent] <;> split <;>
    first | rfl | exact id

lemma stillTo_wakeParent (k : Kernel) (cur : Slot) : StillTo k (k.wakeParent cur) := by
  unfold wakeParent
  split
  · exact stillTo_wakeup1 ..
  · exact StillTo.refl k

lemma stillTo_exit {cur : Slot} (h : k.exit cur = .ok k') : StillTo k k' := by
  unfold exit at h
  split at h
  · cases h
  · dsimp only at h
    cases h
    refine ((stillTo_wakeParent k cur).trans ?_).trans (stillTo_upd _ cur _ rfl rfl id)
    split
    · exact (stillTo_reparent ..).trans (stillTo_wakeup1 ..)
    · exact stillTo_reparent ..

/-- the part of `fork` at which `p` gives back the slot `np`, for want of a page. -/
def ForkFails (k : Kernel) (p : Slot) (need : Nat) (np : Slot) : Prop :=
  (k.procs p).fork = .kalloc np ∧ k.freelist = [] ∨ (k.procs p).fork = .copyuvm np ∧ ¬ need < k.freelist.length

/-- the parts of `fork` after `allocproc` has found its slot. -/
structure ForkRest (k : Kernel) (p : Slot) (need : Nat) (k' : Kernel) : Prop where
  still : StillTo k k'
  pid : ∀ q, (k'.procs q).pid = (k.procs q).pid
  state : ∀ q, (k'.procs q).state = (k.procs q).state ∨ (k.procs q).state = .EMBRYO ∧
    ((k'.procs q).state = .RUNNABLE ∨ (k'.procs q).state = .UNUSED ∧ k.ForkFails p need q)

lemma forkRest_upd {np : Slot} {f g : Proc → Proc}
    (hf : ∀ r, (f r).current_queue = r.current_queue ∧ (f r).ticks = r.ticks ∧
      (f r).killed = r.killed ∧ (f r).pid = r.pid)
    (hg : ∀ r, (g r).current_queue = r.current_queue ∧ (g r).ticks = r.ticks ∧
      (g r).killed = r.killed ∧ (g r).pid = r.pid ∧ (g r).state = r.state)
    (hs : (f (k.procs np)).state = (k.procs np).state ∨ (k.procs np).state = .EMBRYO ∧
      ((f (k.procs np)).state = .RUNNABLE ∨ (f (k.procs np)).state = .UNUSED ∧ k.ForkFails p need np)) :
    ForkRest k p need ((k.upd np f).upd p g) := by
  refine ⟨?_, fun q => ?_, fun q => ?_⟩
  · have h1 := stillTo_upd k np f (hf _).1 (hf _).2.1 (by rw [(hf _).2.2.1]; exact id)
    exact h1.trans (stillTo_upd _ p g (hg _).1 (hg _).2.1 (by rw [(hg _).2.2.1]; exact id))
  · rw [upd_procs]
    split
    · next e => rw [(hg _).2.2.2.1, upd_procs, e]; split <;> simp [*]
    · rw [upd_procs]; split <;> simp [*]
  · have e : (((k.upd np f).upd p g).procs q).state = ((k.upd np f).procs q).state := by
      rw [upd_procs]
      split
      · next e => rw [(hg _).2.2.2.2, e]
      · rfl
    rw [e, upd_procs]
    split
    · next e => rw [e]; exact hs
    · exact .inl rfl

lemma ForkRest.free (h : ForkRest k p need k') (l : List Page) : ForkRest k p need { k' with freelist := l } :=
  ⟨⟨h.still.queue, h.still.cq, h.still.ticks, h.still.killed⟩, h.pid, h.state⟩

lemma ForkCase.rest (h : k.ForkCase p need k') (ho : ForkOk k) :
    (∃ np q, (k.procs p).fork = .none ∧ k.find (fun r => r.state = .UNUSED) = some np ∧
      (k.procs np).state = .UNUSED ∧ (k.queue 0).push NPROC np = some q ∧
      k' = ((k.embryo np).setQueue 0 q).upd p fun r => { r with fork := .kalloc np }) ∨
      ForkRest k p need k' := by
  have embryo : ∀ np, (k.procs p).fork.child = some np → (k.procs np).state = .EMBRYO :=
    fun np e => ho.embryo p np e
  cases h with
  | full => exact .inr ⟨StillTo.refl k, fun _ => rfl, fun _ => .inl rfl⟩
  | alloc hf hn hu hq => exact .inl ⟨_, _, hf, hn, hu, hq, rfl⟩
  | @noStack np hf hl =>
    have he := embryo np (by rw [hf]; rfl)
    exact .inr (forkRest_upd (fun _ => ⟨rfl, rfl, rfl, rfl⟩) (fun _ => ⟨rfl, rfl, rfl, rfl, rfl⟩)
      (.inr ⟨he, .inr ⟨rfl, .inl ⟨hf, hl⟩⟩⟩))
  | stack | copy =>
    refine .inr (ForkRest.free ?_ _)
    exact forkRest_upd (fun _ => ⟨rfl, rfl, rfl, rfl⟩) (fun _ => ⟨rfl, rfl, rfl, rfl, rfl⟩) (.inl rfl)
  | times =>
    exact .inr (forkRest_upd (fun _ => ⟨rfl, rfl, rfl, rfl⟩) (fun _ => ⟨rfl, rfl, rfl, rfl, rfl⟩) (.inl rfl))
  | @noCopy np hf hn =>
    have he := embryo np (by rw [hf]; rfl)
    refine .inr (ForkRest.free ?_ _)
    exact forkRest_upd (fun _ => ⟨rfl, rfl, rfl, rfl⟩) (fun _ => ⟨rfl, rfl, rfl, rfl, rfl⟩)
      (.inr ⟨he, .inr ⟨rfl, .inr ⟨hf, hn⟩⟩⟩)
  | @ready np hf =>
    have he := embryo np (by rw [hf]; rfl)
    exact .inr (forkRest_upd (fun _ => ⟨rfl, rfl, rfl, rfl⟩) (fun _ => ⟨rfl, rfl, rfl, rfl, rfl⟩)
      (.inr ⟨he, .inl rfl⟩))

end Kernel

variable {c : Fin n} {cpu : Cpu} {l : Option (Fin n)} {r r' : Proc} {a : Action n} {p : Slot}

/-! ## the seven moves -/

/-- the queues and the parked indices stay; a slot is freed only by a `fork` that fails. -/
structure Quiet (pol : Policy) (s : State n) (a : Action n) (s' : State n) : Prop where
  still : s.ker.StillTo s'.ker
  used : ∀ p, (s'.ker.procs p).state ≠ .UNUSED →
    (s.ker.procs p).state ≠ .UNUSED ∧ (s'.ker.procs p).pid = (s.ker.procs p).pid
  active : ∀ p, (s'.ker.procs p).state.active = true → (s.ker.procs p).state.active = true
  freed : ∀ p, (s.ker.procs p).state ≠ .UNUSED → (s'.ker.procs p).state = .UNUSED → forkFails s a = some p
  parked : pol = .MLFQ → ∀ c, (s'.cpus c).proc = (s.cpus c).proc ∧
    ((s.cpus c).proc ≠ none → (s'.cpus c).lvl = (s.cpus c).lvl ∧ (s'.cpus c).i = (s.cpus c).i)

inductive QMove (pol : Policy) (s : State n) (a : Action n) : State n → Prop
  | quiet {s' : State n} (h : Quiet pol s a s') : QMove pol s a s'
  | charge {c : Fin n} {u : Bool} {p : Slot} {k : Kernel} (hm : (s.cpus c).mode = .tickCharge u)
      (hp : (s.cpus c).proc = some p) (hk : s.ker.charge p = .ok k) :
      QMove pol s a (s.next c k { s.cpus c with mode := .trapTail u } s.lock)
  | run {c : Fin n} {p : Slot} (ha : a = .cpu c) (hm : (s.cpus c).mode = .scan)
      (hpol : pol = .MLFQ) (he : examined pol s c = some p)
      (hr : (s.ker.procs p).state = .RUNNABLE) :
      QMove pol s a (s.next c (s.ker.dispatchQueue p) { s.cpus c with proc := some p, mode := .resume } s.lock)
  | alloc {c : Fin n} {p np : Slot} {q : ArrQueue Slot} (hm : (s.cpus c).mode = .run)
      (hp : (s.cpus c).proc = some p) (ha : allocates s a = some np)
      (hu : (s.ker.procs np).state = .UNUSED) (hq : (s.ker.queue 0).push NPROC np = some q) :
      QMove pol s a (s.next c
        (((s.ker.embryo np).setQueue 0 q).upd p fun r => { r with fork := .kalloc np })
        (s.cpus c) s.lock)
  | age {c : Fin n} {l : Fin 4} {i : Nat} {p : Slot} {k : Kernel}
      (hm : (s.cpus c).mode = .age l i) (ha : promoted s a = some p)
      (ht : (i : Int) ≤ (s.ker.queue l.succ).top) (hp : (s.ker.queue l.succ).cell i = some p)
      (hr : (s.ker.procs p).state = .RUNNABLE) (hk : s.ker.promote l p = .ok k) :
      QMove pol s a (s.next c k { s.cpus c with mode := .age l (i + 1) } s.lock)
  | back {c : Fin n} {m : Slot} {k : Kernel} (ha : a = .cpu c) (hm : (s.cpus c).mode = .back)
      (hpol : pol = .MLFQ) (hp : (s.cpus c).proc = some m)
      (hk : s.ker.afterSwtch (s.cpus c).lvl (s.cpus c).i m = .ok k) :
      QMove pol s a (s.next c k { s.cpus c with proc := none, i := (s.cpus c).i + 1, mode := .scan } s.lock)
  | reap {c : Fin n} {p z : Slot} {x : Bool} {k k' : Kernel} (hw : Waiting s a c p x k)
      (ha : reaps s a = some (z, x)) (hz : k.zombieChild p = some z)
      (hk : k.reap pol x z = .ok k') :
      QMove pol s a (s.next c k' { s.cpus c with mode := .run } none)

/-! ## steps that are quiet -/

lemma parked_next {k : Kernel} (hp : cpu.proc = (s.cpus c).proc)
    (hi : (s.cpus c).proc ≠ none → cpu.lvl = (s.cpus c).lvl ∧ cpu.i = (s.cpus c).i) (c' : Fin n) :
    ((s.next c k cpu l).cpus c').proc = (s.cpus c').proc ∧ ((s.cpus c').proc ≠ none →
      ((s.next c k cpu l).cpus c').lvl = (s.cpus c').lvl ∧ ((s.next c k cpu l).cpus c').i = (s.cpus c').i) := by
  by_cases e : c' = c
  · subst e
    rw [next_same]
    exact ⟨hp, hi⟩
  · rw [next_others s k cpu l e]
    exact ⟨rfl, fun _ => ⟨rfl, rfl⟩⟩

lemma Calm.used (h : Calm r r') (hu : r'.state ≠ .UNUSED) : r.state ≠ .UNUSED ∧ r'.pid = r.pid := by
  refine ⟨fun e => hu ?_, h.pid⟩
  rw [h.state_eq (by rw [e]; nofun), e]

lemma Calm.active (h : Calm r r') : r'.state.active = r.state.active := by
  rcases h.state with e | ⟨e, e'⟩
  · rw [e]
  · rw [e, e']; rfl

lemma Calm.not_freed (h : Calm r r') (hu : r.state ≠ .UNUSED) : r'.state ≠ .UNUSED := by
  rcases h.state with e | ⟨-, e⟩
  · rw [e]; exact hu
  · rw [e]; nofun

lemma quiet_calm {k : Kernel}
    (hs : s.ker.StillTo k) (hc : s.ker.CalmTo k) (hp : cpu.proc = (s.cpus c).proc)
    (hi : (s.cpus c).proc ≠ none → cpu.lvl = (s.cpus c).lvl ∧ cpu.i = (s.cpus c).i) :
    QMove pol s a (s.next c k cpu l) :=
  .quiet ⟨hs, fun p => (hc.procs p).used, fun p e => by rw [← (hc.procs p).active]; exact e,
    fun p hu e => absurd e ((hc.procs p).not_freed hu), fun _ => parked_next hp hi⟩

lemma quiet_leave {k1 : Kernel} {f : Proc → Proc} (hs : Sound s) (hcp : (s.cpus c).proc = some p)
    (hon : (s.cpus c).mode.place = .on ∨ (s.cpus c).mode.place = .trap)
    (hst : s.ker.StillTo (k1.upd p f)) (hc : s.ker.CalmTo k1)
    (hf : Frame (k1.procs p) (f (k1.procs p))) (hu : (f (k1.procs p)).state ≠ .UNUSED)
    (hp : cpu.proc = (s.cpus c).proc) (hl : cpu.lvl = (s.cpus c).lvl) (hi : cpu.i = (s.cpus c).i) :
    QMove pol s a (s.next c (k1.upd p f) cpu l) := by
  have hr := (hs.place c).proc_running hcp hon
  refine .quiet ⟨hst, fun q e => ?_, fun q e => ?_, fun q hq e => ?_,
    fun _ => parked_next hp fun _ => ⟨hl, hi⟩⟩ <;> rw [next_ker, upd_procs] at * <;>
    split at e
  · next eq => subst eq; rw [if_pos rfl]; exact ⟨by rw [hr]; nofun, hf.pid.trans (hc.procs q).pid⟩
  · next ne => rw [if_neg ne]; exact (hc.procs q).used e
  · next eq => subst eq; rw [hr]; rfl
  · rw [← (hc.procs q).active]; exact e
  · exact absurd e hu
  · exact absurd e ((hc.procs q).not_freed hq)

lemma quiet_fork {need : Nat} {k : Kernel}
    (hp : (s.cpus c).proc = some p) (hr : s.ker.ForkRest p need k) :
    QMove pol s (.sys c (.fork need)) (s.next c k (s.cpus c) s.lock) := by
  refine .quiet ⟨hr.still, fun q hq => ⟨?_, hr.pid q⟩, fun q hq => ?_, fun q hq e => ?_,
    fun _ => parked_next rfl fun _ => ⟨rfl, rfl⟩⟩
  · rcases hr.state q with e | ⟨e, -⟩
    · rw [← e]; exact hq
    · rw [e]; nofun
  · rcases hr.state q with e | ⟨e, -⟩
    · rw [← e]; exact hq
    · rw [e]; rfl
  · rcases hr.state q with e' | ⟨-, e' | ⟨-, hf⟩⟩
    · rw [next_ker, e'] at e; exact absurd e hq
    · rw [next_ker, e'] at e; cases e
    · unfold forkFails
      rcases hf with ⟨hf, hl⟩ | ⟨hf, hl⟩
      · simp only [hp, hf, if_pos hl]
      · simp only [hp, hf, if_neg hl]

lemma Waiting.still {x : Bool} (h : Waiting s a c p x k) : s.ker.StillTo k := by
  cases h with
  | call => exact .refl _
  | woken => exact stillTo_unchan ..

/-! ## every step -/

/-- **Every step of a sound machine is one of the seven moves.** -/
theorem step_qmove (hs : Sound s) (h : step pol s a = .ok s') : QMove pol s a s' := by
  have same : ∀ c : Fin n, (s.cpus c).proc ≠ none →
      (s.cpus c).lvl = (s.cpus c).lvl ∧ (s.cpus c).i = (s.cpus c).i := fun c _ => ⟨rfl, rfl⟩
  have off : ∀ c : Fin n, (s.cpus c).mode.place = .off → ∀ P : Prop, (s.cpus c).proc ≠ none → P :=
    fun c hm P e => absurd (hs.off_none hm) e
  cases step_trans h with
  | @begin c hm | @scanNext c hm =>
    exact quiet_calm (.refl _) (.refl _) rfl (off c (by rw [hm]; rfl) _)
  | @ageEnd c l i hm =>
    refine quiet_calm (.refl _) (.refl _) ?_ (off c (by rw [hm]; rfl) _)
    unfold ageNext
    split <;> rfl
  | @ageKeep c | @scanEnd c | @resume c | @timerOther c
  | @tickIdle c | @trapEnd c => exact quiet_calm (.refl _) (.refl _) rfl (same c)
  | @ageUp c l i p k hm ht hp hr hw hk =>
    refine .age hm ?_ ht hp hr hk
    simp only [promoted, hm, if_pos ht, hp, hr, hw, and_self, if_true]
  | @scanSkip c p hm => exact quiet_calm (.refl _) (.refl _) rfl (off c (by rw [hm]; rfl) _)
  | @runQueue c p hm hpol he hr => exact .run rfl hm hpol he hr
  | @runTable c p hm hpol he hr =>
    have hr' : (s.ker.procs (s.ker.choose pol p)).state = .RUNNABLE := choose_runnable hr
    refine .quiet ⟨stillTo_dispatch .., fun q e => ?_, fun q e => ?_, fun q hq e => ?_,
      fun e => absurd e hpol⟩ <;>
      simp only [next_ker, Kernel.dispatch, upd_procs] at * <;> split at e
    · next eq => subst eq; rw [if_pos rfl]; exact ⟨by rw [hr']; nofun, rfl⟩
    · next ne => rw [if_neg ne]; exact ⟨e, rfl⟩
    · next eq => subst eq; rw [hr']; rfl
    · exact e
    · cases e
    · exact absurd e hq
  | @backTable c m hm hpol =>
    exact .quiet ⟨.refl _, fun q e => ⟨e, rfl⟩, fun q e => e, fun q hq e => absurd e hq, fun e => absurd e hpol⟩
  | @backQueue c m k hm hpol hp hk => exact .back rfl hm hpol hp hk
  | @resumeSleep c =>
    exact quiet_calm (stillTo_unchan ..) (calmTo_unchan ..) rfl (same c)
  | @reap _ c p z x k k' hw hz hk =>
    exact .reap hw (hw.reaps hz) hz hk
  | @waitFail _ c p x k hw => exact quiet_calm hw.still hw.calm rfl (same c)
  | @waitBlock _ c p x k hw =>
    exact quiet_leave hs hw.proc (.inl hw.place)
      (hw.still.trans (stillTo_upd _ p _ rfl rfl id)) hw.calm ⟨rfl, rfl, rfl, rfl⟩ nofun
      rfl rfl rfl
  | @fork c p need k hm hp hl hk =>
    rcases (forkStep_case hk).rest hs.fork with ⟨np, q, hf, hn, hu, hq, rfl⟩ | hr
    · refine .alloc hm hp ?_ hu hq
      simp only [allocates, hp, if_pos hf, hn]
    · exact quiet_fork hp hr
  | @exit c p k hm hp hf hl hk =>
    have hst := stillTo_exit hk
    obtain ⟨k3, hc, rfl⟩ := exit_ok hk
    exact quiet_leave hs hp (.inl (by rw [hm]; rfl)) hst hc ⟨rfl, rfl, rfl, rfl⟩ nofun rfl rfl rfl
  | @kill c =>
    exact quiet_calm (stillTo_kill ..) (calmTo_kill ..) rfl (same c)
  | @sleep c p ch hm hp =>
    exact quiet_leave hs hp (.inl (by rw [hm]; rfl)) (stillTo_upd _ p _ rfl rfl id) (.refl _)
      ⟨rfl, rfl, rfl, rfl⟩ nofun rfl rfl rfl
  | @wakeup c | @intr c | @tickWake c =>
    exact quiet_calm (stillTo_wakeup1 ..) (calmTo_wakeup1 ..) rfl (same c)
  | @setPriority c =>
    exact quiet_calm (stillTo_setPriority ..) (schedTo_setPriority ..).calm rfl (same c)
  | @timer c => exact quiet_calm (stillTo_tick _) (calmTo_tick _) rfl (same c)
  | @tickCharge c u p k hm hp hk => exact .charge hm hp hk
  | @yield c u p hm hp =>
    exact quiet_leave hs hp (.inr (by rw [hm]; rfl)) (stillTo_upd _ p _ rfl rfl id) (.refl _)
      ⟨rfl, rfl, rfl, rfl⟩ nofun rfl rfl rfl

end Xv6
