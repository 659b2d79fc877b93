import Xv6.Proc.Running

/-!
# What a step does to each process

`Proc.core` is a process without the fields that only the choice of the next process reads and
without its pages: what is left is its state, its family (`pid`, `parent`), what it sleeps on,
`killed`, and its clocks.

`event s a` names, in the state BEFORE a step, what the step is for the bookkeeping of processes:

* `tick`, `charge p`                  CPU 0 counts a tick; it books the tick to `p`;
* `alloc np`, `create np`, `ready np` the three parts of `fork` that give the child its pid, its
                                      clocks, and make it RUNNABLE;
* `kill q`                            `kill` has found the slot `q`;
* `reap p z x`                        `p` frees its child `z` by `wait` or `waitx`;
* `plain`                             anything else.

`Fate` lists what can become of the cores, and `step_turn` is **the inversion of a step for them**.
-/

namespace Xv6
open Lib Function Kernel

variable {n : Nat} {pol : Policy} {s s' : State n} {k k' : Kernel}
variable {r r' : Proc}

/-- a process without its pages and without the fields that only the scheduler's choice reads. -/
def Proc.core (r : Proc) : Proc :=
  { state := r.state, pid := r.pid, parent := r.parent, chan := r.chan, killed := r.killed,
    ctime := r.ctime, etime := r.etime, rtime := r.rtime, iotime := r.iotime,
    total_ticks := r.total_ticks, context := r.context, fork := r.fork }

def Kernel.core (k : Kernel) (p : Slot) : Proc := (k.procs p).core

inductive Event where
  | plain
  | tick
  | charge (p : Slot)
  | alloc (np : Slot)
  | create (np : Slot)
  | ready (np : Slot)
  | kill (q : Slot)
  | reap (p z : Slot) (x : Bool)
  deriving DecidableEq, Repr

/-- what the part of `fork` that comes next is, for the process `p`. -/
def Kernel.forkEvent (k : Kernel) (p : Slot) : Event :=
  match (k.procs p).fork with
  | .none =>
    match k.find (fun r => r.state = .UNUSED) with
    | some np => .alloc np
    | none => .plain
  | .ctime np => .create np
  | .ready np => .ready np
  | _ => .plain

/-- what `kill(pid)` is. -/
def Kernel.killEvent (k : Kernel) (pid : Int) : Event :=
  match k.find (fun r => r.pid = pid) with
  | some q => .kill q
  | none => .plain

/-- what a turn of the loop of `wait` or `waitx` is. -/
def Kernel.waitEvent (k : Kernel) (p : Slot) (x : Bool) : Event :=
  match k.zombieChild p with
  | some z => .reap p z x
  | none => .plain

/-- what a step of a CPU in its own code can book. -/
def chargeEvent (s : State n) (c : Fin n) : Event :=
  match (s.cpus c).mode, (s.cpus c).proc with
  | .tickCharge _, some p => .charge p
  | _, _ => .plain

/-- what the step `a` is. -/
def event (s : State n) (a : Action n) : Event :=
  match waits s a with
  | some (p, x) => s.ker.waitEvent p x
  | none =>
    match a with
    | .timer c _ => if c.val = 0 then .tick else .plain
    | .cpu c => chargeEvent s c
    | .sys _ (.kill pid) => s.ker.killEvent pid
    | .sys c (.fork _) =>
      match (s.cpus c).proc with
      | some p => s.ker.forkEvent p
      | none => .plain
    | _ => .plain

/-- `ticks` after a step. -/
def Event.ticks : Event → Nat → Nat
  | .tick, t => (t + 1) % 2 ^ 32
  | _, t => t

/-- `nextpid` after a step. -/
def Event.nextpid : Event → Int → Int
  | .alloc _, m => int32 (m + 1)
  | _, m => m

/-- nothing happens to the process, or it is woken. -/
def Woken (r r' : Proc) : Prop := r' = r ∨ r.state = .SLEEPING ∧ r' = { r with state := .RUNNABLE }

/-- what `exit` of `p` does: the children of `p` go to init, `p` is a ZOMBIE, and of the others
those are woken that wait for `p` or, as init, for one of its ZOMBIE children. -/
structure Exited (k k' : Kernel) (p : Slot) : Prop where
  self : ∃ par, k'.core p = { k.core p with state := .ZOMBIE, etime := k.now, parent := par }
  others : ∀ q, q ≠ p → ∃ st par, k'.core q = { k.core q with state := st, parent := par } ∧
    (st = (k.core q).state ∨ (k.core q).state = .SLEEPING ∧ st = .RUNNABLE)
  parent : ∀ q, (k'.core q).parent =
    if (k.core q).parent = some p then some k.initproc else (k.core q).parent
  wakes : ∀ q, (k'.core q).state = .SLEEPING →
    (∀ par, (k.core p).parent = some par → (k.core q).chan ≠ some (.proc par)) ∧
    ((∃ z, (k.core z).parent = some p ∧ (k.core z).state = .ZOMBIE) → (k.core q).chan ≠ some (.proc k.initproc))

/-- the child `np` becomes `r` and its forker `p` goes on to `pc`. -/
def Kernel.ForkTo (k k' : Kernel) (p np : Slot) (r : Proc) (pc : ForkPc) : Prop :=
  k'.core = update (update k.core np r) p { k.core p with fork := pc }

/-- everything a step can do to the cores of the processes. -/
inductive Fate (k k' : Kernel) : Event → Prop
  | wake (h : ∀ q, Woken (k.core q) (k'.core q)) : Fate k k' .plain
  | unchan {p : Slot} (hr : (k.core p).state = .RUNNING)
      (h : k'.core = update k.core p { k.core p with chan := none }) : Fate k k' .plain
  | dispatch {p : Slot} (hr : (k.core p).state = .RUNNABLE)
      (h : k'.core = update k.core p { k.core p with state := .RUNNING }) :
      Fate k k' .plain
  | yield {p : Slot} (hr : (k.core p).state = .RUNNING)
      (h : k'.core = update k.core p { k.core p with state := .RUNNABLE, context := .yield }) : Fate k k' .plain
  | sleep {p : Slot} {ch : Chan} (hr : (k.core p).state = .RUNNING)
      (h : k'.core = update k.core p { k.core p with chan := some ch, state := .SLEEPING, context := .sleep }) :
      Fate k k' .plain
  | waitBlock {p : Slot} {x : Bool} (hr : (k.core p).state = .RUNNING)
      (hz : k.zombieChild p = none)
      (h : k'.core = update k.core p { k.core p with
          chan := some (.proc p), state := .SLEEPING,
          context := if x then .waitx else .wait }) : Fate k k' .plain
  | exit {p : Slot} (hr : (k.core p).state = .RUNNING) (hf : (k.core p).fork = .none)
      (hi : p ≠ k.initproc) (h : Exited k k' p) : Fate k k' .plain
  | forkFail {p np : Slot} (hr : (k.core p).state = .RUNNING)
      (hf : (k.core p).fork.child = some np)
      (h : k.ForkTo k' p np { k.core np with state := .UNUSED } .none) : Fate k k' .plain
  | forkStack {p np : Slot} (hr : (k.core p).state = .RUNNING) (hf : (k.core p).fork = .kalloc np)
      (h : k.ForkTo k' p np { k.core np with context := .forkret, fork := .none } (.ctime np)) :
      Fate k k' .plain
  | forkCopy {p np : Slot} (hr : (k.core p).state = .RUNNING)
      (hf : (k.core p).fork = .copyuvm np)
      (h : k.ForkTo k' p np { k.core np with parent := some p } (.ready np)) : Fate k k' .plain
  | tick (h : k'.core = k.core) : Fate k k' .tick
  | charge {p : Slot} {l : Fin 5} (hr : (k.core p).state = .RUNNING)
      (h : k'.core = update k.core p { k.core p with
          rtime := (k.core p).rtime + 1,
          total_ticks := update (k.core p).total_ticks l ((k.core p).total_ticks l + 1) }) :
      Fate k k' (.charge p)
  | alloc {p np : Slot} (hr : (k.core p).state = .RUNNING) (hf : (k.core p).fork = .none)
      (hu : (k.core np).state = .UNUSED)
      (h : k.ForkTo k' p np { k.core np with state := .EMBRYO, pid := k.nextpid } (.kalloc np)) :
      Fate k k' (.alloc np)
  | create {p np : Slot} (hr : (k.core p).state = .RUNNING) (hf : (k.core p).fork = .ctime np)
      (h : k.ForkTo k' p np { k.core np with ctime := k.now, etime := 0, rtime := 0, iotime := 0 } (.copyuvm np)) :
      Fate k k' (.create np)
  | ready {p np : Slot} (hr : (k.core p).state = .RUNNING) (hf : (k.core p).fork = .ready np)
      (h : k.ForkTo k' p np { k.core np with state := .RUNNABLE } .none) : Fate k k' (.ready np)
  | kill {q : Slot}
      (h : k'.core = update k.core q { k.core q with
          killed := true,
          state := if (k.core q).state = .SLEEPING then .RUNNABLE else (k.core q).state }) :
      Fate k k' (.kill q)
  | reap {p z : Slot} {x : Bool} {ch : Option Chan} (hr : (k.core p).state = .RUNNING)
      (hp : (k.core z).parent = some p) (hz : (k.core z).state = .ZOMBIE)
      (h : k'.core = update (update k.core p { k.core p with chan := ch }) z
        { k.core z with pid := 0, parent := none, killed := false, state := .UNUSED }) :
      Fate k k' (.reap p z x)

/-- a step with the event `ev`. -/
structure Turn (k k' : Kernel) (ev : Event) : Prop where
  fate : Fate k k' ev
  ticks : k'.ticks = ev.ticks k.ticks
  nextpid : k'.nextpid = ev.nextpid k.nextpid
  init : k'.initproc = k.initproc

/-! ## the cores after each operation -/

lemma Woken.asleep (h : Woken r r') (hs : r'.state = .SLEEPING) : r' = r := by
  rcases h with e | ⟨-, e⟩
  · exact e
  · rw [e] at hs; cases hs

lemma Woken.eq (h : Woken r r') :
    ∃ st, r' = { r with state := st } ∧ (st = r.state ∨ r.state = .SLEEPING ∧ st = .RUNNABLE) := by
  rcases h with e | ⟨hs, e⟩
  · exact ⟨r.state, e, .inl rfl⟩
  · exact ⟨.RUNNABLE, e, .inr ⟨hs, rfl⟩⟩

lemma Woken.zombie (h : Woken r r') : r'.state = .ZOMBIE ↔ r.state = .ZOMBIE := by
  rcases h with e | ⟨hs, e⟩
  · rw [e]
  · rw [e, hs]; exact ⟨nofun, nofun⟩

lemma Woken.parent (h : Woken r r') : r'.parent = r.parent := by
  rcases h with e | ⟨-, e⟩ <;> rw [e]

namespace Kernel

variable {f : Proc → Proc} {l : Fin 5} {p q : Slot}

@[simp] lemma core_upd (k : Kernel) (p : Slot) (f : Proc → Proc) :
    (k.upd p f).core = update k.core p (f (k.procs p)).core := by
  funext q
  show ((k.upd p f).procs q).core = _
  rw [upd_procs, update_apply]
  split <;> rfl

/-- nothing happens to the cores. -/
structure CoreTo (k k' : Kernel) : Prop where
  core : k'.core = k.core
  ticks : k'.ticks = k.ticks
  nextpid : k'.nextpid = k.nextpid
  initproc : k'.initproc = k.initproc

lemma CoreTo.refl (k : Kernel) : CoreTo k k := ⟨rfl, rfl, rfl, rfl⟩

lemma SchedTo.core (h : SchedTo k k') : CoreTo k k' := by
  refine ⟨funext fun q => ?_, h.ticks, h.nextpid, h.initproc⟩
  unfold Kernel.core
  rw [h.procs q]
  rfl

section
variable (k : Kernel)

lemma wakeup1_woken (ch : Chan) (q : Slot) : Woken (k.core q) ((k.wakeup1 ch).core q) := by
  show Woken (k.core q) (Proc.core (if _ then _ else _))
  split
  · next h => exact .inr ⟨h.1, rfl⟩
  · exact .inl rfl

lemma wakeup1_asleep (ch : Chan) (h : ((k.wakeup1 ch).core q).state = .SLEEPING) : (k.core q).chan ≠ some ch := by
  intro e
  change (Proc.core (if _ then _ else _)).state = .SLEEPING at h
  split at h
  · cases h
  · next hn =>
    change ¬ ((k.core q).state = .SLEEPING ∧ (k.core q).chan = some ch) at hn
    exact hn ⟨h, e⟩

lemma wakeParent_woken (p q : Slot) : Woken (k.core q) ((k.wakeParent p).core q) := by
  unfold wakeParent
  split
  · exact wakeup1_woken ..
  · exact .inl rfl

lemma wakeParent_asleep {par : Slot} (hp : (k.core p).parent = some par)
    (h : ((k.wakeParent p).core q).state = .SLEEPING) : (k.core q).chan ≠ some (.proc par) := by
  unfold wakeParent at h
  change (k.procs p).parent = some par at hp
  rw [hp] at h
  exact wakeup1_asleep k _ h

@[simp] lemma wakeParent_rest (p : Slot) : (k.wakeParent p).initproc = k.initproc ∧ (k.wakeParent p).ticks = k.ticks ∧
      (k.wakeParent p).nextpid = k.nextpid := by
  unfold wakeParent
  split <;> exact ⟨rfl, rfl, rfl⟩

lemma reparent_core (p q : Slot) : (k.reparent p).core q = { k.core q with
    parent := if (k.core q).parent = some p then some k.initproc else (k.core q).parent } := by
  show Proc.core (if (k.core q).parent = some p then _ else _) = _
  split <;> rfl

end

lemma exit_parts (h : k.exit p = .ok k') : p ≠ k.initproc ∧ ∃ k1 k3 : Kernel,
    k1 = k.wakeParent p ∧ (∀ q, Woken ((k1.reparent p).core q) (k3.core q)) ∧
    (∀ q, (∃ z, (k1.core z).parent = some p ∧ (k1.core z).state = .ZOMBIE) →
      (k3.core q).state = .SLEEPING → (k1.core q).chan ≠ some (.proc k.initproc)) ∧
    (k3.initproc = k.initproc ∧ k3.ticks = k.ticks ∧ k3.nextpid = k.nextpid) ∧
    k' = k3.upd p fun r => { r with state := .ZOMBIE, etime := k.now } := by
  unfold exit at h
  split at h
  · cases h
  next hi =>
  cases h
  refine ⟨hi, _, _, rfl, fun q => ?_, fun q hz hs => ?_, ?_, rfl⟩
  · split
    · exact wakeup1_woken ..
    · exact .inl rfl
  · split at hs
    · have h := wakeup1_asleep _ _ hs
      rwa [reparent_core] at h
    · next hn => exact absurd hz hn
  · split <;> exact wakeParent_rest k p

lemma exit_exited (h : k.exit p = .ok k') : Exited k k' p := by
  obtain ⟨-, k1, k3, rfl, h3, hw, -, rfl⟩ := exit_parts h
  have h1 := wakeParent_woken k p
  -- a process after the three parts: it may have been woken and may have a new parent
  have h4 : ∀ q, ∃ st, k3.core q = { k.core q with
      state := st,
      parent := if (k.core q).parent = some p then some k.initproc else (k.core q).parent } ∧
      (st = (k.core q).state ∨ (k.core q).state = .SLEEPING ∧ st = .RUNNABLE) := by
    intro q
    obtain ⟨st1, e1, hst1⟩ := (h1 q).eq
    obtain ⟨st3, e3, hst3⟩ := (h3 q).eq
    have hi : (k.wakeParent p).initproc = k.initproc := (wakeParent_rest k p).1
    rw [reparent_core, e1, hi] at e3 hst3
    refine ⟨st3, e3, ?_⟩
    change st3 = st1 ∨ st1 = .SLEEPING ∧ st3 = .RUNNABLE at hst3
    rcases hst3 with e | ⟨e, e'⟩
    · rw [e]; exact hst1
    · rcases hst1 with e1 | ⟨-, e1⟩
      · exact .inr ⟨e1.symm.trans e, e'⟩
      · rw [e1] at e; cases e
  have hk : ∀ q, q ≠ p → (k3.upd p fun r =>
      { r with state := .ZOMBIE, etime := k.now }).core q = k3.core q := by
    intro q hq
    rw [core_upd, update_of_ne hq]
  have hkp : (k3.upd p fun r => { r with state := .ZOMBIE, etime := k.now }).core p =
      { k3.core p with state := .ZOMBIE, etime := k.now } := by
    rw [core_upd, update_self]
    generalize k.now = now
    rfl
  refine ⟨?_, fun q hq => ?_, fun q => ?_, fun q hs => ?_⟩
  · obtain ⟨st, e, -⟩ := h4 p
    exact ⟨_, by rw [hkp, e]⟩
  · obtain ⟨st, e, hst⟩ := h4 q
    exact ⟨st, _, by rw [hk q hq, e], hst⟩
  · obtain ⟨st, e, -⟩ := h4 q
    by_cases hq : q = p
    · rw [hq] at e ⊢
      rw [hkp, e]
    · rw [hk q hq, e]
  · have hq : q ≠ p := by
      intro e
      rw [e, hkp] at hs
      cases hs
    rw [hk q hq] at hs
    have hs1 : ((k.wakeParent p).core q).state = .SLEEPING := by
      have e := (h3 q).asleep hs
      rw [e, reparent_core] at hs
      exact hs
    have e1 := (h1 q).asleep hs1
    refine ⟨fun par hp => wakeParent_asleep k hp hs1, fun hz => ?_⟩
    obtain ⟨z, hzp, hzs⟩ := hz
    have h := hw q ⟨z, by rw [(h1 z).parent]; exact hzp, (h1 z).zombie.mpr hzs⟩ hs
    rwa [e1] at h

/-! ## the parts of fork -/

lemma forkTo_upd {np : Slot} {pc : ForkPc} (hne : np ≠ p) :
    k.ForkTo ((k.upd np f).upd p fun r => { r with fork := pc }) p np (f (k.procs np)).core pc := by
  unfold ForkTo
  rw [core_upd, core_upd, upd_of_ne _ _ hne.symm]
  rfl

lemma ForkCase.turn {need : Nat} (h : k.ForkCase p need k') (ho : ForkOk k)
    (hr : (k.procs p).state = .RUNNING) : Turn k k' (k.forkEvent p) := by
  unfold forkEvent
  have ne : ∀ {np}, (k.procs p).fork.child = some np → np ≠ p := by
    intro np hc e
    have := ho.embryo p np hc
    rw [e, hr] at this
    cases this
  cases h with
  | full hf hn =>
    rw [hf]
    simp only [hn]
    exact ⟨.wake fun q => .inl rfl, rfl, rfl, rfl⟩
  | @alloc np q hf hn hu =>
    have hne : np ≠ p := by
      intro e
      rw [e, hr] at hu
      cases hu
    rw [hf]
    simp only [hn]
    have h1 : k.ForkTo ((k.upd np fun r =>
        { r with
          state := .EMBRYO, pid := k.nextpid, current_queue := 0, ticks := fun _ => 0,
          waittime := 5 }).upd p fun r => { r with fork := .kalloc np }) p np _ _ := forkTo_upd hne
    exact ⟨.alloc hr hf hu h1, rfl, rfl, rfl⟩
  | @noStack np hf | @noCopy np hf =>
    have hc : _ = some np := congrArg ForkPc.child hf
    rw [hf]
    exact ⟨.forkFail hr hc (forkTo_upd (ne hc)), rfl, rfl, rfl⟩
  | @stack np pg rest hf =>
    have hc : _ = some np := congrArg ForkPc.child hf
    rw [hf]
    exact ⟨.forkStack hr hf (forkTo_upd (ne hc)), rfl, rfl, rfl⟩
  | @times np hf =>
    have hc : _ = some np := congrArg ForkPc.child hf
    rw [hf]
    refine ⟨.create hr hf ?_, rfl, rfl, rfl⟩
    unfold allocTimes
    generalize k.now = now
    exact forkTo_upd (ne hc)
  | @copy np hf =>
    have hc : _ = some np := congrArg ForkPc.child hf
    rw [hf]
    exact ⟨.forkCopy hr hf (forkTo_upd (ne hc)), rfl, rfl, rfl⟩
  | @ready np hf =>
    have hc : _ = some np := congrArg ForkPc.child hf
    rw [hf]
    exact ⟨.ready hr hf (forkTo_upd (ne hc)), rfl, rfl, rfl⟩

/-! ## the other operations -/

lemma CoreTo.turn (h : CoreTo k k') : Turn k k' .plain :=
  ⟨.wake fun q => .inl (by rw [h.core]), h.ticks, h.nextpid, h.initproc⟩

lemma turn_wakeup1 (k : Kernel) (ch : Chan) : Turn k (k.wakeup1 ch) .plain :=
  ⟨.wake fun q => wakeup1_woken k ch q, rfl, rfl, rfl⟩

lemma turn_dispatch (hr : (k.procs p).state = .RUNNABLE) :
    Turn k (k.dispatch p) .plain := ⟨.dispatch hr (core_upd ..), rfl, rfl, rfl⟩

lemma turn_dispatchQueue (hr : (k.procs p).state = .RUNNABLE) :
    Turn k (k.dispatchQueue p) .plain := ⟨.dispatch hr (core_upd ..), rfl, rfl, rfl⟩

lemma turn_yield (hr : (k.procs p).state = .RUNNING) : Turn k (k.yield p) .plain :=
  ⟨.yield hr (core_upd ..), rfl, rfl, rfl⟩

lemma turn_sleepOn (ch : Chan) (hr : (k.procs p).state = .RUNNING) :
    Turn k (k.sleepOn p ch .sleep) .plain := ⟨.sleep hr (core_upd ..), rfl, rfl, rfl⟩

section
variable (hr : (k.procs p).state = .RUNNING)
include hr

lemma turn_unchan : Turn k (k.unchan p) .plain :=
  ⟨.unchan hr (core_upd ..), rfl, rfl, rfl⟩

lemma turn_exit (hf : (k.procs p).fork = .none) (h : k.exit p = .ok k') : Turn k k' .plain := by
  obtain ⟨hi, k1, k3, -, -, -, ⟨h1, h2, h3⟩, e⟩ := exit_parts h
  refine ⟨.exit hr hf hi (exit_exited h), ?_, ?_, ?_⟩
  · rw [e]; exact h2
  · rw [e]; exact h3
  · rw [e]; exact h1

lemma turn_charge (h : k.charge p = .ok k') : Turn k k' (.charge p) := by
  unfold charge at h
  rw [hr] at h
  simp only at h
  split at h
  · cases h
  · next l hl =>
    cases h
    exact ⟨.charge hr (core_upd ..), rfl, rfl, rfl⟩

end

lemma turn_kill (k : Kernel) (pid : Int) : Turn k (k.kill pid) (k.killEvent pid) := by
  unfold kill killEvent
  cases k.find (fun r => r.pid = pid) with
  | none => exact (CoreTo.refl k).turn
  | some q =>
    refine ⟨.kill ?_, rfl, rfl, rfl⟩
    rw [core_upd]
    congr 1
    show Proc.core (if (k.core q).state = .SLEEPING then _ else _) = _
    split <;> rfl

end Kernel

variable {a : Action n} {c : Fin n} {p : Slot} {x : Bool}

section
variable (hw : Waiting s a c p x k) (hr : (s.ker.procs p).state = .RUNNING)
include hw hr

lemma Waiting.turn_reap {z : Slot} (hz : k.zombieChild p = some z)
    (hk : k.reap pol x z = .ok k') : Turn s.ker k' (.reap p z x) := by
  rw [hw.zombieChild] at hz
  obtain ⟨hp, hzs⟩ := zombieChild_spec hz
  have hne : z ≠ p := by
    intro e
    rw [e, hr] at hzs
    cases hzs
  obtain ⟨ch, hch⟩ : ∃ ch, k.core = update s.ker.core p { s.ker.core p with chan := ch } ∧
      k.ticks = s.ker.ticks ∧ k.nextpid = s.ker.nextpid ∧ k.initproc = s.ker.initproc := by
    cases hw with
    | call => exact ⟨(s.ker.core p).chan, (update_eq_self p _).symm, rfl, rfl, rfl⟩
    | woken => exact ⟨none, core_upd .., rfl, rfl, rfl⟩
  obtain ⟨hcore, ht, hn, hi⟩ := hch
  obtain ⟨st, pd, -, -, ho, he, -, ht', hn', hi', -⟩ := reap_ok hk
  refine ⟨@Fate.reap _ _ p z x ch hr hp hzs ?_, ht'.trans ht, hn'.trans hn, hi'.trans hi⟩
  have hkz : k.core z = s.ker.core z := by rw [hcore, update_of_ne hne]
  rw [← hcore]
  funext q
  by_cases hq : q = z
  · rw [hq, update_self, ← hkz]
    show (k'.procs z).core = _
    rw [he]
    rfl
  · rw [update_of_ne hq]
    show (k'.procs q).core = _
    rw [ho q hq]
    rfl

lemma Waiting.turn_block
    (hz : k.zombieChild p = none) :
    Turn s.ker (k.sleepOn p (.proc p) (if x then .waitx else .wait)) .plain := by
  rw [hw.zombieChild] at hz
  refine ⟨.waitBlock hr hz (x := x) ?_, ?_, ?_, ?_⟩
  · rw [Kernel.sleepOn, core_upd]
    cases hw with
    | call => rfl
    | woken =>
      rw [Kernel.unchan, upd_same, core_upd, update_idem]
      rfl
  all_goals cases hw <;> rfl

end

/-! ## every step -/

lemma event_not_resume (h : (s.cpus c).mode ≠ .resume) : event s (.cpu c) = chargeEvent s c := by
  have hw : waits s (.cpu c) = none := if_neg h
  unfold event
  rw [hw]

lemma event_cpu {m : Mode} (hm : (s.cpus c).mode = m) (h : m ≠ .resume) (ht : ∀ u, m ≠ .tickCharge u) :
    event s (.cpu c) = .plain := by
  subst hm
  rw [event_not_resume h]
  unfold chargeEvent
  split
  · next u p hm hp => exact absurd hm (ht u)
  · rfl

lemma event_resume (hm : (s.cpus c).mode = .resume)
    (hp : (s.cpus c).proc = some p) (hw : (s.ker.procs p).context ≠ .wait)
    (hx : (s.ker.procs p).context ≠ .waitx) : event s (.cpu c) = .plain := by
  have hn : waits s (.cpu c) = none := by
    simp only [waits, if_pos hm, hp]
  unfold event
  rw [hn]
  simp only [chargeEvent, hm]

lemma event_waits (hw : Waiting s a c p x k) : event s a = k.waitEvent p x := by
  unfold event Kernel.waitEvent
  rw [hw.waits, hw.zombieChild]

/-- **Every step of a sound machine does to the processes what its event says.** -/
theorem step_turn (hs : Sound s) (h : step pol s a = .ok s') : Turn s.ker s'.ker (event s a) := by
  have running : ∀ {c : Fin n} {p : Slot}, (s.cpus c).proc = some p →
      (s.cpus c).mode.place = .on ∨ (s.cpus c).mode.place = .trap →
      (s.ker.procs p).state = .RUNNING := fun hp hm => (hs.place _).proc_running hp hm
  have refl : Turn s.ker s.ker .plain := (Kernel.CoreTo.refl _).turn
  cases step_trans h with
  | begin hm | ageEnd hm | ageKeep hm | scanSkip hm | scanNext hm
  | scanEnd hm | backTable hm | trapEnd hm =>
    rw [event_cpu hm nofun fun _ => nofun]
    exact refl
  | ageUp hm ht hp hr hw hk =>
    rw [event_cpu hm nofun fun _ => nofun]
    exact (schedTo_promote hk).core.turn
  | runQueue hm hpol he hr =>
    rw [event_cpu hm nofun fun _ => nofun]
    exact turn_dispatchQueue hr
  | runTable hm hpol he hr =>
    rw [event_cpu hm nofun fun _ => nofun]
    exact turn_dispatch (choose_runnable hr)
  | backQueue hm hpol hp hk =>
    rw [event_cpu hm nofun fun _ => nofun]
    exact (schedTo_afterSwtch hk).core.turn
  | resume hm hp hc =>
    rw [event_resume hm hp]
    · exact refl
    · rcases hc with e | e <;> rw [e] <;> nofun
    · rcases hc with e | e <;> rw [e] <;> nofun
  | resumeSleep hm hp hc =>
    rw [event_resume hm hp (by rw [hc]; nofun) (by rw [hc]; nofun)]
    exact turn_unchan (running hp (.inl (by rw [hm]; rfl)))
  | reap hw hz hk =>
    rw [event_waits hw, Kernel.waitEvent, hz]
    exact hw.turn_reap (running hw.proc (.inl hw.place)) hz hk
  | waitFail hw hz =>
    rw [event_waits hw, Kernel.waitEvent, hz]
    cases hw with
    | call => exact refl
    | woken x hm hp => exact turn_unchan (running hp (.inl (by rw [hm]; rfl)))
  | waitBlock hw hz =>
    rw [event_waits hw, Kernel.waitEvent, hz]
    exact hw.turn_block (running hw.proc (.inl hw.place)) hz
  | @fork c p need k hm hp hl hk =>
    have e : event s (.sys c (.fork need)) = s.ker.forkEvent p := by
      show (match (s.cpus c).proc with | some p => s.ker.forkEvent p | none => .plain) = _
      rw [hp]
    rw [e]
    exact (forkStep_case hk).turn hs.fork (running hp (.inl (by rw [hm]; rfl)))
  | exit hm hp hf hl hk => exact turn_exit (running hp (.inl (by rw [hm]; rfl))) hf hk
  | @kill c p pid => exact turn_kill s.ker pid
  | sleep hm hp => exact turn_sleepOn _ (running hp (.inl (by rw [hm]; rfl)))
  | wakeup | intr => exact turn_wakeup1 ..
  | setPriority => exact (schedTo_setPriority ..).core.turn
  | @timer c u hm hc =>
    have e : event s (.timer c u) = .tick := if_pos hc
    rw [e]
    exact ⟨.tick rfl, rfl, rfl, rfl⟩
  | @timerOther c u hm hc =>
    have e : event s (.timer c u) = .plain := if_neg hc
    rw [e]
    exact refl
  | tickWake hm =>
    rw [event_cpu hm nofun fun _ => nofun]
    exact turn_wakeup1 ..
  | @tickIdle c u hm hp =>
    have e : event s (.cpu c) = .plain := by
      rw [event_not_resume (by rw [hm]; nofun), chargeEvent, hm, hp]
    rw [e]
    exact refl
  | @tickCharge c u p k hm hp hk =>
    have e : event s (.cpu c) = .charge p := by
      rw [event_not_resume (by rw [hm]; nofun), chargeEvent, hm, hp]
    rw [e]
    exact turn_charge (running hp (.inr (by rw [hm]; rfl))) hk
  | yield hm hp hpol hr =>
    rw [event_cpu hm nofun fun _ => nofun]
    exact turn_yield hr

end Xv6
