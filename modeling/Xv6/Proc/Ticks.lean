import Xv6.Proc.Lookup

/-!
# The clock, step by step

CPU 0 counts a tick when the timer interrupt arrives and books it later, after `wakeup(&ticks)`, to
the process it has interrupted. In between the tick is owed (`State.owed`); no other step touches
CPU 0 then, so the process that is charged is the one that was interrupted.

    step_owing     : how a step changes what is owed;
    Turn.clocked   : how a step changes the clocks of a process.
-/

namespace Xv6
open Lib Function Kernel

variable {n : Nat} {pol : Policy} {s s' : State n} {k k' : Kernel}

/-! ## the tick that CPU 0 owes -/

/-- between `ticks++` and the booking of the tick. -/
def Mode.ticking : Mode → Bool
  | .tickWake _ => true
  | .tickCharge _ => true
  | _ => false

namespace State

/-- CPU 0. -/
def cpu0 (s : State n) : Cpu := if h : 0 < n then s.cpus ⟨0, h⟩ else {}

/-- CPU 0 has counted a tick and not booked it yet. -/
def ticking (s : State n) : Bool := s.cpu0.mode.ticking

/-- the process to which that tick will be booked. -/
def owed (s : State n) : Option Slot := if s.ticking then s.cpu0.proc else none

lemma cpu0_eq (s : State n) {c : Fin n} (hc : c.val = 0) : s.cpu0 = s.cpus c := by
  have hn : 0 < n := by have := c.isLt; omega
  unfold cpu0
  rw [dif_pos hn]
  exact congrArg s.cpus (Fin.ext hc.symm)

lemma cpu0_update {c : Fin n} {cpu : Cpu} (h : s'.cpus = update s.cpus c cpu) :
    s'.cpu0 = if c.val = 0 then cpu else s.cpu0 := by
  by_cases hc : c.val = 0
  · rw [if_pos hc, s'.cpu0_eq hc, h, update_self]
  · rw [if_neg hc]
    unfold cpu0
    split
    · next hn =>
      have hne : (⟨0, hn⟩ : Fin n) ≠ c := fun e => hc (congrArg Fin.val e).symm
      rw [h, update_of_ne hne]
    · rfl

end State

variable {a : Action n} {p np q : Slot} {ev : Event} {pc : ForkPc} {r r' : Proc}

/-- the step counts or books a tick. -/
def Event.clock : Event → Bool
  | .tick => true
  | .charge _ => true
  | _ => false

lemma Kernel.waitEvent_clock (k : Kernel) (p : Slot) (x : Bool) : (k.waitEvent p x).clock = false := by
  unfold waitEvent
  split <;> rfl

lemma Kernel.killEvent_clock (k : Kernel) (pid : Int) : (k.killEvent pid).clock = false := by
  unfold killEvent
  split <;> rfl

lemma Kernel.forkEvent_clock (k : Kernel) (p : Slot) : (k.forkEvent p).clock = false := by
  unfold forkEvent
  split
  · split <;> rfl
  · rfl
  · rfl
  · rfl

lemma event_clock (h : (event s a).clock = true) :
    (∃ c u, a = .timer c u ∧ c.val = 0) ∨ ∃ c u, a = .cpu c ∧ (s.cpus c).mode = .tickCharge u := by
  unfold event at h
  split at h
  · rw [waitEvent_clock] at h
    cases h
  · split at h
    · next c u _ =>
      split at h
      · next hc => exact .inl ⟨c, u, rfl, hc⟩
      · cases h
    · next c _ =>
      unfold chargeEvent at h
      split at h
      · next u q hm hp => exact .inr ⟨c, u, rfl, hm⟩
      · cases h
    · rw [killEvent_clock] at h
      cases h
    · split at h
      · rw [forkEvent_clock] at h
        cases h
      · cases h
    · cases h

/-- what a step does to the CPU `c` that takes it, as far as the clock is concerned. -/
inductive TimerMove (cpu cpu' : Cpu) (c : Fin n) : Event → Prop
  | off {ev : Event} (he : ev.clock = false) (hm : cpu.mode.ticking = false)
      (hm' : cpu'.mode.ticking = false) : TimerMove cpu cpu' c ev
  | tick (hc : c.val = 0) (hm : cpu.mode = .idle ∨ cpu.mode = .run)
      (hm' : cpu'.mode.ticking = true) (hp : cpu'.proc = cpu.proc) : TimerMove cpu cpu' c .tick
  | wake (hm : cpu.mode.ticking = true) (hm' : cpu'.mode.ticking = true)
      (hp : cpu'.proc = cpu.proc) : TimerMove cpu cpu' c .plain
  | idle (hm : cpu.mode.ticking = true) (hm' : cpu'.mode.ticking = false)
      (hp : cpu.proc = none) : TimerMove cpu cpu' c .plain
  | charge {p : Slot} (hm : cpu.mode.ticking = true) (hm' : cpu'.mode.ticking = false)
      (hp : cpu.proc = some p) : TimerMove cpu cpu' c (.charge p)

lemma step_timer (h : step pol s a = .ok s') :
    ∃ c cpu, s'.cpus = update s.cpus c cpu ∧ TimerMove (s.cpus c) cpu c (event s a) := by
  -- a step of `c` that neither counts nor books a tick
  have off : ∀ {a : Action n} {c : Fin n} {cpu : Cpu}, (s.cpus c).mode.ticking = false →
      cpu.mode.ticking = false → (∀ c' u, a = .timer c' u → c'.val ≠ 0) →
      (∀ c', a = .cpu c' → c' = c) → TimerMove (s.cpus c) cpu c (event s a) := by
    intro a c cpu hm hm' ht hg
    refine .off (Bool.eq_false_iff.mpr fun e => ?_) hm hm'
    rcases event_clock e with ⟨c', u, ha, hc⟩ | ⟨c', u, ha, hc⟩
    · exact ht c' u ha hc
    · rw [hg c' ha] at hc
      rw [hc] at hm
      cases hm
  have own : ∀ {c : Fin n} {cpu : Cpu}, (s.cpus c).mode.ticking = false →
      cpu.mode.ticking = false → TimerMove (s.cpus c) cpu c (event s (.cpu c)) := by
    intro c cpu hm hm'
    exact off hm hm' (fun _ _ => nofun) (fun _ e => by cases e; rfl)
  have sys : ∀ {c : Fin n} {cpu : Cpu} {op : Op}, (s.cpus c).mode = .run →
      cpu.mode.ticking = false → TimerMove (s.cpus c) cpu c (event s (.sys c op)) := by
    intro c cpu op hm hm'
    exact off (by rw [hm]; rfl) hm' (fun _ _ => nofun) (fun _ => nofun)
  have wait : ∀ {a : Action n} {c : Fin n} {p : Slot} {x : Bool} {k : Kernel} {cpu : Cpu},
      Waiting s a c p x k → cpu.mode.ticking = false →
      TimerMove (s.cpus c) cpu c (event s a) := by
    intro a c p x k cpu hw hm'
    cases hw with
    | call x hm => exact sys hm hm'
    | woken x hm => exact own (by rw [hm]; rfl) hm'
  cases step_trans h with
  | @begin c hm =>
    refine ⟨c, _, rfl, own (by rw [hm]; rfl) ?_⟩
    unfold firstMode
    split <;> rfl
  | @ageEnd c l i hm =>
    refine ⟨c, _, rfl, own (by rw [hm]; rfl) ?_⟩
    unfold ageNext
    split <;> rfl
  | ageKeep hm | ageUp hm | scanEnd hm | runQueue hm
  | runTable hm | backTable hm | backQueue hm | resume hm
  | resumeSleep hm | yield hm => exact ⟨_, _, rfl, own (by rw [hm]; rfl) rfl⟩
  | @scanSkip c p hm | @scanNext c hm =>
    exact ⟨c, _, rfl, own (by rw [hm]; rfl) (show (s.cpus c).mode.ticking = false by rw [hm]; rfl)⟩
  | reap hw | waitFail hw | waitBlock hw => exact ⟨_, _, rfl, wait hw rfl⟩
  | @fork c p need k hm | @kill c p pid hm | @wakeup c p ch hm
  | @setPriority c p pid v hm => exact ⟨c, _, rfl, sys hm (by rw [hm]; rfl)⟩
  | exit hm | sleep hm => exact ⟨_, _, rfl, sys hm rfl⟩
  | @intr c ch hm =>
    have hq : (s.cpus c).mode.ticking = false := by rcases hm with e | e <;> rw [e] <;> rfl
    exact ⟨c, _, rfl, off hq hq (fun _ _ => nofun) (fun _ => nofun)⟩
  | @timer c u hm hc =>
    have he : event s (.timer c u) = .tick := if_pos hc
    rw [he]
    exact ⟨c, _, rfl, .tick hc hm rfl rfl⟩
  | @timerOther c u hm hc =>
    have hq : (s.cpus c).mode.ticking = false := by rcases hm with e | e <;> rw [e] <;> rfl
    exact ⟨c, _, rfl, off hq rfl (fun _ _ e => by cases e; exact hc) (fun _ => nofun)⟩
  | @tickWake c u hm =>
    rw [event_cpu hm nofun fun _ => nofun]
    exact ⟨c, _, rfl, .wake (by rw [hm]; rfl) rfl rfl⟩
  | @tickIdle c u hm hp =>
    have he : event s (.cpu c) = .plain := by
      rw [event_not_resume (by rw [hm]; nofun)]
      unfold chargeEvent
      rw [hm, hp]
    rw [he]
    exact ⟨c, _, rfl, .idle (by rw [hm]; rfl) rfl hp⟩
  | @tickCharge c u p k hm hp =>
    have he : event s (.cpu c) = .charge p := by
      rw [event_not_resume (by rw [hm]; nofun)]
      unfold chargeEvent
      rw [hm, hp]
    rw [he]
    exact ⟨c, _, rfl, .charge (by rw [hm]; rfl) rfl hp⟩
  | @trapEnd c u hm =>
    refine ⟨c, _, rfl, own (by rw [hm]; rfl) ?_⟩
    unfold Cpu.afterTrap
    split <;> rfl

/-- only CPU 0 counts ticks. -/
def TimerOk (s : State n) : Prop := ∀ c, (s.cpus c).mode.ticking = true → c.val = 0

lemma TimerOk.next {a : Action n} (h : TimerOk s) (hst : step pol s a = .ok s') : TimerOk s' := by
  obtain ⟨c, cpu, hc, hm⟩ := step_timer hst
  intro c' ht
  rw [hc, update_apply] at ht
  split at ht
  · next e =>
    rw [e]
    revert hm
    generalize event s a = ev
    intro hm
    cases hm with
    | off _ _ hm' | idle _ hm' | charge _ hm' => rw [hm'] at ht; cases ht
    | tick hz => exact hz
    | wake hm' => exact h c hm'
  · exact h c' ht

lemma Run.timerOk {npages need : Nat} {tr : Trace n} (hb : Boot npages need s)
    (h : Run pol s tr s') : TimerOk s' := by
  refine h.history (fun _ t => TimerOk t) ?_ fun _ _ _ _ _ ih hst => ih.next hst
  obtain ⟨-, rfl⟩ := hb.eq
  intro c hc
  cases hc

/-- how a step changes the tick that CPU 0 owes. -/
inductive Owing (s s' : State n) : Event → Prop
  | tick (hm : s.cpu0.mode = .idle ∨ s.cpu0.mode = .run) (h : s.ticking = false)
      (h' : s'.ticking = true) (ho : s'.owed = s.cpu0.proc) : Owing s s' .tick
  | charge {p : Slot} (h : s.ticking = true) (h' : s'.ticking = false) (ho : s.owed = some p) :
      Owing s s' (.charge p)
  | rest {ev : Event} (he : ev.clock = false)
      (h : s'.ticking = true → s.ticking = true) (ho : s'.owed = s.owed) : Owing s s' ev

lemma step_owing (hz : TimerOk s) (h : step pol s a = .ok s') : Owing s s' (event s a) := by
  obtain ⟨c, cpu, hcpus, hm⟩ := step_timer h
  have h0 := State.cpu0_update hcpus
  revert hm
  generalize event s a = ev
  intro hm
  by_cases hc : c.val = 0
  · rw [if_pos hc] at h0
    rw [← s.cpu0_eq hc] at hm
    have ht' : s'.ticking = cpu.mode.ticking := congrArg (fun x => x.mode.ticking) h0
    have ho' : s'.owed = if cpu.mode.ticking then cpu.proc else none := by
      unfold State.owed
      rw [ht', h0]
    cases hm with
    | off he hm hm' =>
      have ho : s.owed = none := if_neg (by rw [State.ticking, hm]; nofun)
      rw [hm'] at ht' ho'
      exact .rest he (by rw [ht']; nofun) (ho'.trans ho.symm)
    | tick _ hm hm' hp =>
      have hoff : s.ticking = false := by
        unfold State.ticking
        rcases hm with e | e <;> rw [e] <;> rfl
      rw [hm'] at ht' ho'
      exact .tick hm hoff ht' (ho'.trans hp)
    | wake hm hm' hp =>
      have ho : s.owed = s.cpu0.proc := if_pos hm
      rw [hm'] at ho'
      exact .rest rfl (fun _ => hm) (ho'.trans (hp.trans ho.symm))
    | idle hm hm' hp =>
      have ho : s.owed = s.cpu0.proc := if_pos hm
      rw [hm'] at ho'
      exact .rest rfl (fun _ => hm) (ho'.trans (hp.symm.trans ho.symm))
    | charge hm hm' hp =>
      have ho : s.owed = s.cpu0.proc := if_pos hm
      exact .charge hm (ht'.trans hm') (ho.trans hp)
  · -- CPU 0 did not move
    rw [if_neg hc] at h0
    have he : ev.clock = false := by
      cases hm with
      | off he => exact he
      | tick hz => exact absurd hz hc
      | wake => rfl
      | idle => rfl
      | charge hm' => exact absurd (hz c hm') hc
    refine .rest he ?_ ?_
    · unfold State.ticking; rw [h0]; exact id
    · unfold State.owed State.ticking; rw [h0]

lemma Sound.owed_running (hs : Sound s) (h : s.owed = some p) : (s.ker.procs p).state = .RUNNING := by
  unfold State.owed at h
  split at h
  · next ht =>
    unfold State.ticking at ht
    unfold State.cpu0 at h ht
    split at h
    · next hn =>
      rw [dif_pos hn] at ht
      refine (hs.place _).proc_running h (.inr ?_)
      cases hm : (s.cpus ⟨0, hn⟩).mode with
      | tickWake => rfl
      | tickCharge => rfl
      | _ => rw [hm] at ht; cases ht
    · cases h
  · cases h

/-! ## the clocks of a process -/

/-- none of the clocks moves. -/
structure SameClock (r r' : Proc) : Prop where
  ctime : r'.ctime = r.ctime
  rtime : r'.rtime = r.rtime
  iotime : r'.iotime = r.iotime
  total : r'.total_ticks = r.total_ticks

lemma SameClock.refl (r : Proc) : SameClock r r := ⟨rfl, rfl, rfl, rfl⟩

/-- how a step changes the clocks of the slot `q`. -/
inductive Clocked (now : Int) (q : Slot) (r r' : Proc) : Event → Prop
  | kept {ev : Event} (hc : ev ≠ .create q) (hg : ev ≠ .charge q) (h : SameClock r r') :
      Clocked now q r r' ev
  | create (hc : r'.ctime = now) (hr : r'.rtime = 0) (hi : r'.iotime = 0)
      (ht : r'.total_ticks = r.total_ticks) : Clocked now q r r' (.create q)
  | charge {l : Fin 5} (hc : r'.ctime = r.ctime) (hr : r'.rtime = r.rtime + 1)
      (hi : r'.iotime = r.iotime)
      (ht : r'.total_ticks = Function.update r.total_ticks l (r.total_ticks l + 1)) :
      Clocked now q r r' (.charge q)

lemma ForkOk.ne_child (ho : ForkOk k) (hr : (k.core p).state = .RUNNING)
    (hc : (k.core p).fork.child = some np) : np ≠ p := by
  intro e
  have he := ho.embryo p np hc
  rw [e, show (k.procs p).state = _ from hr] at he
  cases he

lemma Turn.clocked (ho : ForkOk k) (h : Turn k k' ev) (q : Slot) : Clocked k.now q (k.core q) (k'.core q) ev := by
  have one : ∀ {p r}, k'.core = update k.core p r → SameClock (k.core p) r →
      SameClock (k.core q) (k'.core q) := fun hk hr => core_rel SameClock.refl hk hr q
  have two : ∀ {p np r pc}, k.ForkTo k' p np r pc → SameClock (k.core np) r →
      SameClock (k.core q) (k'.core q) := fun hk hr => hk.rel SameClock.refl hr ⟨rfl, rfl, rfl, rfl⟩ q
  cases h.fate with
  | wake hk =>
    obtain ⟨st, e, -⟩ := (hk q).eq
    exact .kept nofun nofun (by rw [e]; exact ⟨rfl, rfl, rfl, rfl⟩)
  | unchan hr hk | dispatch hr hk | yield hr hk | sleep hr hk | waitBlock hr hz hk | kill hk =>
    exact .kept nofun nofun (one hk ⟨rfl, rfl, rfl, rfl⟩)
  | @exit p hr hf hi hk =>
    refine .kept nofun nofun ?_
    by_cases e : q = p
    · obtain ⟨par, e'⟩ := hk.self
      rw [e, e']
      exact ⟨rfl, rfl, rfl, rfl⟩
    · obtain ⟨st, par, e', -⟩ := hk.others q e
      rw [e']
      exact ⟨rfl, rfl, rfl, rfl⟩
  | forkFail hr hf hk | forkStack hr hf hk | forkCopy hr hf hk | alloc hr hf hu hk | ready hr hf hk =>
    exact .kept nofun nofun (two hk ⟨rfl, rfl, rfl, rfl⟩)
  | tick hk => exact .kept nofun nofun (by rw [hk]; exact .refl _)
  | @charge p l hr hk =>
    by_cases e : q = p
    · subst e
      rw [hk, update_self]
      exact .charge rfl rfl rfl rfl
    · refine .kept nofun (fun e' => e (by cases e'; rfl)) ?_
      rw [hk, update_of_ne e]
      exact .refl _
  | @create p np hr hf hk =>
    have hc : _ = some np := congrArg ForkPc.child hf
    have hat := hk.at (ho.ne_child hr hc)
    by_cases e : q = np
    · rw [e, hat.2.1]
      generalize k.now = now
      exact .create rfl rfl rfl rfl
    · refine .kept (fun e' => e (by cases e'; rfl)) nofun ?_
      by_cases e' : q = p
      · rw [e', hat.1]
        exact ⟨rfl, rfl, rfl, rfl⟩
      · rw [hat.2.2 q e' e]
        exact .refl _
  | reap hr hp hz hk =>
    refine .kept nofun nofun ?_
    exact core_rel2 SameClock.refl hk ⟨rfl, rfl, rfl, rfl⟩ ⟨rfl, rfl, rfl, rfl⟩ q

/-! ## from the creation of a process to its exit -/

/-- the child that `fork` has given its clocks. -/
def ForkPc.timed : ForkPc → Option Slot
  | .copyuvm np => some np
  | .ready np => some np
  | _ => Option.none

/-- `q` has its clocks and has not exited. -/
def Fresh (k : Kernel) (q : Slot) : Prop :=
  (k.core q).state.alive = true ∨ ∃ f, (k.core f).fork.timed = some q

lemma ForkPc.child_of_timed (h : pc.timed = some np) : pc.child = some np := by
  cases pc with
  | copyuvm => exact h
  | ready => exact h
  | _ => cases h

lemma Fresh.not_zombie (ho : ForkOk k) (h : Fresh k q) : (k.core q).state ≠ .ZOMBIE := by
  intro e
  rcases h with ha | ⟨f, hf⟩
  · rw [e] at ha; cases ha
  · have he := ho.embryo f q (ForkPc.child_of_timed hf)
    rw [show (k.procs q).state = _ from e] at he
    cases he

/-- nobody is created and nobody exits. -/
structure Lives (r r' : Proc) : Prop where
  alive : r'.state.alive = true → r.state.alive = true
  timed : ∀ x, r'.fork.timed = some x → r.fork.timed = some x
  dead : r'.state = .ZOMBIE → r.state = .ZOMBIE ∧ r'.etime = r.etime

lemma Lives.refl (r : Proc) : Lives r r := ⟨id, fun _ => id, fun e => ⟨e, rfl⟩⟩

lemma Lives.living (ha : r.state.alive = true) (hs : r'.state ≠ .ZOMBIE) (hf : r'.fork = r.fork) : Lives r r' :=
  ⟨fun _ => ha, fun x e => by rwa [hf] at e, fun e => absurd e hs⟩

lemma Lives.forker (h : ∀ x, pc.timed = some x → r.fork.timed = some x) :
    Lives r { r with fork := pc } := ⟨id, h, fun e => ⟨e, rfl⟩⟩

lemma Woken.lives (h : Woken r r') : Lives r r' := by
  rcases h with e | ⟨hs, e⟩
  · rw [e]; exact .refl r
  · rw [e]; exact .living (by rw [hs]; rfl) nofun rfl

/-- how a step changes the age of the slot `q`. -/
structure Aged (k k' : Kernel) (q : Slot) (ev : Event) : Prop where
  fresh : Fresh k' q → Fresh k q ∨ ev = .create q
  dead : (k'.core q).state = .ZOMBIE →
    (k.core q).state = .ZOMBIE ∧ (k'.core q).etime = (k.core q).etime ∨
      (k.core q).state = .RUNNING ∧ (k'.core q).etime = k.now ∧ ev = .plain

lemma Aged.of_lives (h : ∀ q, Lives (k.core q) (k'.core q)) (q : Slot) : Aged k k' q ev := by
  refine ⟨fun hf => .inl ?_, fun e => .inl ((h q).dead e)⟩
  rcases hf with ha | ⟨f, hf⟩
  · exact .inl ((h q).alive ha)
  · exact .inr ⟨f, (h f).timed q hf⟩

lemma Aged.other (hk : k.ForkTo k' p np r pc) (hne : np ≠ p) (hq : q ≠ np)
    (hr : r.fork = (k.core np).fork) (hpc : pc.timed ≠ some q) : Aged k k' q ev := by
  have hat := hk.at hne
  have hst : (k'.core q).state = (k.core q).state ∧ (k'.core q).etime = (k.core q).etime := by
    by_cases e : q = p
    · rw [e, hat.1]; exact ⟨rfl, rfl⟩
    · rw [hat.2.2 q e hq]; exact ⟨rfl, rfl⟩
  refine ⟨fun hf => .inl ?_, fun e => .inl ⟨hst.1 ▸ e, hst.2⟩⟩
  rcases hf with ha | ⟨f, hf⟩
  · exact .inl (hst.1 ▸ ha)
  · refine .inr ⟨f, ?_⟩
    by_cases e : f = p
    · rw [e, hat.1] at hf
      exact absurd hf hpc
    · by_cases e' : f = np
      · rw [e', hat.2.1, hr] at hf
        rw [e']
        exact hf
      · rw [hat.2.2 f e e'] at hf
        exact hf

lemma Exited.aged (hr : (k.core p).state = .RUNNING) (h : Exited k k' p) (q : Slot) : Aged k k' q .plain := by
  obtain ⟨par, hself⟩ := h.self
  have hlives : ∀ x, x ≠ p → Lives (k.core x) (k'.core x) := by
    intro x hx
    obtain ⟨st, par', e, hst⟩ := h.others x hx
    rw [e]
    rcases hst with hst | ⟨hs, hst⟩
    · rw [hst]; exact ⟨id, fun _ => id, fun e => ⟨e, rfl⟩⟩
    · rw [hst]; exact .living (by rw [hs]; rfl) nofun rfl
  refine ⟨fun hf => .inl ?_, fun e => ?_⟩
  · rcases hf with ha | ⟨f, hf⟩
    · by_cases hq : q = p
      · rw [hq, hself] at ha; cases ha
      · exact .inl ((hlives q hq).alive ha)
    · by_cases hp : f = p
      · rw [hp, hself] at hf; exact .inr ⟨p, hf⟩
      · exact .inr ⟨f, (hlives f hp).timed q hf⟩
  · by_cases hq : q = p
    · refine .inr ⟨by rw [hq, hr], ?_, rfl⟩
      rw [hq, hself]
    · exact .inl ((hlives q hq).dead e)

lemma Turn.aged (ho : ForkOk k) (h : Turn k k' ev) (q : Slot) : Aged k k' q ev := by
  -- the child of a part of `fork` is an EMBRYO, which is neither alive nor a ZOMBIE
  have embryo : ∀ {p np : Slot}, (k.core p).fork.child = some np →
      (k.core np).state = .EMBRYO := fun hc => ho.embryo _ _ hc
  have child : ∀ {r r' : Proc}, r.state = .EMBRYO → r'.state = r.state ∨ r'.state = .UNUSED →
      r'.fork = r.fork ∨ r'.fork = .none → Lives r r' := by
    intro r r' hr hs hf
    refine ⟨fun e => ?_, fun x e => ?_, fun e => ?_⟩
    · rcases hs with e' | e' <;> rw [e'] at e
      · rw [hr] at e; cases e
      · cases e
    · rcases hf with e' | e' <;> rw [e'] at e
      · exact e
      · cases e
    · rcases hs with e' | e' <;> rw [e'] at e
      · rw [hr] at e; cases e
      · cases e
  cases h.fate with
  | wake hk => exact .of_lives (fun q => (hk q).lives) q
  | unchan hr hk | charge hr hk =>
    exact .of_lives (core_rel .refl hk (.living (by rw [hr]; rfl) (by rw [hr]; nofun) rfl)) q
  | dispatch hr hk | yield hr hk | sleep hr hk | waitBlock hr hz hk =>
    exact .of_lives (core_rel .refl hk (.living (by rw [hr]; rfl) nofun rfl)) q
  | exit hr hf hi hk => exact hk.aged hr q
  | forkFail hr hf hk =>
    refine .of_lives (hk.rel .refl ?_ (.forker fun _ => nofun)) q
    exact child (embryo hf) (.inr rfl) (.inl rfl)
  | @forkStack p np hr hf hk =>
    have hc : _ = some np := congrArg ForkPc.child hf
    exact .of_lives (hk.rel .refl (child (embryo hc) (.inl rfl) (.inr rfl)) (.forker fun _ => nofun)) q
  | @forkCopy p np hr hf hk =>
    have hc : _ = some np := congrArg ForkPc.child hf
    refine .of_lives (hk.rel .refl (child (embryo hc) (.inl rfl) (.inl rfl)) (.forker ?_)) q
    intro x e
    rw [hf]
    exact e
  | tick hk => exact .of_lives (fun q => by rw [hk]; exact .refl _) q
  | alloc hr hf hu hk =>
    refine .of_lives (hk.rel .refl ⟨nofun, fun _ => id, nofun⟩ (.forker fun _ => nofun)) q
  | @create p np hr hf hk =>
    have hc : _ = some np := congrArg ForkPc.child hf
    have hne := ho.ne_child hr hc
    by_cases e : q = np
    · subst e
      refine ⟨fun _ => .inr rfl, fun e => ?_⟩
      have hs : (k'.core q).state = (k.core q).state := by rw [(hk.at hne).2.1]
      rw [hs, embryo hc] at e
      cases e
    · exact .other hk hne e rfl fun e' => e (Option.some.inj e').symm
  | @ready p np hr hf hk =>
    have hc : _ = some np := congrArg ForkPc.child hf
    have hne := ho.ne_child hr hc
    by_cases e : q = np
    · subst e
      refine ⟨fun _ => .inl (.inr ⟨p, by rw [hf]; rfl⟩), fun e => ?_⟩
      rw [(hk.at hne).2.1] at e
      cases e
    · exact .other hk hne e rfl nofun
  | @kill q' hk =>
    refine .of_lives (core_rel .refl hk ?_) q
    by_cases hs : (k.core q').state = .SLEEPING
    · exact .living (by rw [hs]; rfl) (by simp [hs]) rfl
    · exact ⟨fun e => by simpa [hs] using e, fun _ => id, fun e => ⟨by simpa [hs] using e, rfl⟩⟩
  | reap hr hp hz hk =>
    refine .of_lives (core_rel2 .refl hk ?_ ⟨nofun, fun _ => id, nofun⟩) q
    exact .living (by rw [hr]; rfl) (by rw [hr]; nofun) rfl

end Xv6
