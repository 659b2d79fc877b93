import Xv6.Proc.Trans

/-!
# The life-cycle view of a step

For the state of the processes and of the CPUs a step is one of five kinds (`Kind`):

* `calm`        no process changes its state, except that sleepers may become RUNNABLE;
* `dispatch p`  the scheduler switches to `p`;
* `leave p`     `p` gives up its CPU: it becomes RUNNABLE, SLEEPING or ZOMBIE;
* `fork p`      `p` takes the next part of `fork`;
* `reap z`      a ZOMBIE is freed.

`Trans.view`: **every step is of one of these kinds**, with the moves of the CPU and of the lock
that go with it.
-/

namespace Xv6
open Lib Kernel

variable {n : Nat} {pol : Policy} {s s' : State n} {k'' : Kernel}
variable {r r' r'' : Proc}

/-- the fields that only `allocproc`, `fork`, `wait` and `waitx` write. -/
structure Frame (r r' : Proc) : Prop where
  pid : r'.pid = r.pid
  kstack : r'.kstack = r.kstack
  pgdir : r'.pgdir = r.pgdir
  fork : r'.fork = r.fork

/-- nothing happens to the process, except perhaps a wakeup. -/
structure Calm (r r' : Proc) : Prop extends Frame r r' where
  state : r'.state = r.state ∨ (r.state = .SLEEPING ∧ r'.state = .RUNNABLE)

lemma Frame.refl (r : Proc) : Frame r r := ⟨rfl, rfl, rfl, rfl⟩

lemma Frame.trans (h : Frame r r') (h' : Frame r' r'') : Frame r r'' :=
  ⟨h'.pid.trans h.pid, h'.kstack.trans h.kstack, h'.pgdir.trans h.pgdir, h'.fork.trans h.fork⟩

lemma Calm.refl (r : Proc) : Calm r r := ⟨Frame.refl r, .inl rfl⟩

lemma Calm.trans (h : Calm r r') (h' : Calm r' r'') : Calm r r'' := by
  refine ⟨h.toFrame.trans h'.toFrame, ?_⟩
  rcases h.state with e | ⟨e1, e2⟩ <;> rcases h'.state with e' | ⟨e1', e2'⟩
  · exact .inl (e'.trans e)
  · exact .inr ⟨e ▸ e1', e2'⟩
  · exact .inr ⟨e1, e'.trans e2⟩
  · rw [e2] at e1'; cases e1'

lemma Calm.state_eq (h : Calm r r') (hs : r.state ≠ .SLEEPING) : r'.state = r.state := by
  rcases h.state with e | ⟨e, -⟩
  · exact e
  · exact absurd e hs

/-! ## the operations that are calm -/

namespace Kernel
variable {k k' : Kernel}
variable {p : Slot} {l : Fin 5}

/-- `k'` differs from `k` only calmly, and no page or pid is taken. -/
structure CalmTo (k k' : Kernel) : Prop where
  procs : ∀ q, Calm (k.procs q) (k'.procs q)
  nextpid : k'.nextpid = k.nextpid
  initproc : k'.initproc = k.initproc
  freelist : k'.freelist = k.freelist

lemma CalmTo.refl (k : Kernel) : CalmTo k k := ⟨fun _ => Calm.refl _, rfl, rfl, rfl⟩

lemma CalmTo.trans (h : CalmTo k k') (h' : CalmTo k' k'') : CalmTo k k'' :=
  ⟨fun q => (h.procs q).trans (h'.procs q), h'.nextpid.trans h.nextpid,
    h'.initproc.trans h.initproc, h'.freelist.trans h.freelist⟩

section
variable (k : Kernel)

lemma calmTo_upd (p : Slot) (f : Proc → Proc) (h : Calm (k.procs p) (f (k.procs p))) : CalmTo k (k.upd p f) := by
  refine ⟨fun q => ?_, rfl, rfl, rfl⟩
  rw [upd_procs]
  split
  · next e => rw [e]; exact h
  · exact Calm.refl _

lemma calmTo_tick : CalmTo k k.tick := ⟨fun _ => Calm.refl _, rfl, rfl, rfl⟩

lemma calmTo_wakeup1 (ch : Chan) : CalmTo k (k.wakeup1 ch) := by
  refine ⟨fun q => ?_, rfl, rfl, rfl⟩
  show Calm _ (if _ then _ else _)
  split
  · next h => exact ⟨⟨rfl, rfl, rfl, rfl⟩, .inr ⟨h.1, rfl⟩⟩
  · exact Calm.refl _

lemma calmTo_unchan (p : Slot) : CalmTo k (k.unchan p) :=
  calmTo_upd k p _ ⟨⟨rfl, rfl, rfl, rfl⟩, .inl rfl⟩

lemma calmTo_kill (pid : Int) : CalmTo k (k.kill pid) := by
  unfold kill
  split
  · apply calmTo_upd
    split
    · next h => exact ⟨⟨rfl, rfl, rfl, rfl⟩, .inr ⟨h, rfl⟩⟩
    · exact ⟨⟨rfl, rfl, rfl, rfl⟩, .inl rfl⟩
  · exact CalmTo.refl k

end

lemma calmTo_charge (h : k.charge p = .ok k') : CalmTo k k' := by
  unfold charge at h
  split at h
  · split at h
    · cases h
    · cases h; exact calmTo_upd k p _ ⟨⟨rfl, rfl, rfl, rfl⟩, .inl rfl⟩
  · cases h; exact calmTo_upd k p _ ⟨⟨rfl, rfl, rfl, rfl⟩, .inl rfl⟩
  · cases h; exact CalmTo.refl k

lemma calmTo_reparent (k : Kernel) (cur : Slot) : CalmTo k (k.reparent cur) := by
  refine ⟨fun q => ?_, rfl, rfl, rfl⟩
  show Calm _ (if _ then _ else _)
  split
  · exact ⟨⟨rfl, rfl, rfl, rfl⟩, .inl rfl⟩
  · exact Calm.refl _

lemma calmTo_wakeParent (k : Kernel) (cur : Slot) : CalmTo k (k.wakeParent cur) := by
  unfold wakeParent
  split
  · exact calmTo_wakeup1 ..
  · exact CalmTo.refl k

/-! ## the operations of the scheduler -/

/-- only the queues change, and what the scheduler keeps of the processes. -/
structure SchedTo (k k' : Kernel) : Prop where
  procs : ∀ q, k'.procs q = { k.procs q with
    priority := (k'.procs q).priority, ticks := (k'.procs q).ticks,
    start := (k'.procs q).start, current_queue := (k'.procs q).current_queue }
  ticks : k'.ticks = k.ticks
  nextpid : k'.nextpid = k.nextpid
  initproc : k'.initproc = k.initproc
  freelist : k'.freelist = k.freelist

lemma SchedTo.calm (h : SchedTo k k') : CalmTo k k' := by
  refine ⟨fun q => ?_, h.nextpid, h.initproc, h.freelist⟩
  rw [h.procs q]
  exact ⟨⟨rfl, rfl, rfl, rfl⟩, .inl rfl⟩

lemma SchedTo.refl (k : Kernel) : SchedTo k k := ⟨fun _ => rfl, rfl, rfl, rfl, rfl⟩

lemma SchedTo.trans (h : SchedTo k k') (h' : SchedTo k' k'') : SchedTo k k'' := by
  refine ⟨fun q => (h'.procs q).trans ?_, h'.ticks.trans h.ticks, h'.nextpid.trans h.nextpid,
    h'.initproc.trans h.initproc, h'.freelist.trans h.freelist⟩
  have hq := h.procs q
  generalize k'.procs q = r at hq ⊢
  rw [hq]

lemma schedTo_upd (k : Kernel) (p : Slot) {f : Proc → Proc} (h : f (k.procs p) = { k.procs p with
    priority := (f (k.procs p)).priority, ticks := (f (k.procs p)).ticks,
    start := (f (k.procs p)).start, current_queue := (f (k.procs p)).current_queue }) : SchedTo k (k.upd p f) := by
  refine ⟨fun q => ?_, rfl, rfl, rfl, rfl⟩
  rw [upd_procs]
  split
  · next e => rw [e]; exact h
  · rfl

lemma schedTo_setQueue (k : Kernel) (l : Fin 5) (q : ArrQueue Slot) : SchedTo k (k.setQueue l q) :=
  ⟨fun _ => rfl, rfl, rfl, rfl, rfl⟩

lemma schedTo_setPriority (k : Kernel) (pid v : Int) : SchedTo k (k.setPriority pid v) := by
  unfold setPriority
  split
  · exact .refl k
  · split
    · exact schedTo_upd k _ rfl
    · exact .refl k

lemma schedTo_push (h : k.push l p = .ok k') : SchedTo k k' := by
  obtain ⟨q, -, rfl⟩ := push_ok h
  exact schedTo_setQueue k l q

lemma schedTo_remProcess (k : Kernel) (pid curq : Int) : SchedTo k (k.remProcess pid curq) := by
  unfold remProcess
  split
  · exact schedTo_setQueue ..
  · exact .refl k

lemma schedTo_promote {l : Fin 4} (h : k.promote l p = .ok k') : SchedTo k k' := by
  unfold promote at h
  dsimp only at h
  split at h
  · cases h
  · split at h
    · next k2 hk =>
      cases h
      refine .trans ?_ ((schedTo_push hk).trans (schedTo_remProcess ..))
      exact schedTo_upd k p (by dsimp only)
    · cases h

lemma schedTo_takeOut (k : Kernel) (l : Fin 5) (i : Nat) (m : Slot) : SchedTo k (k.takeOut l i m) :=
  (schedTo_setQueue k l _).trans (schedTo_upd _ m rfl)

lemma schedTo_afterSwtch {i : Nat} {m : Slot} (h : k.afterSwtch l i m = .ok k') : SchedTo k k' := by
  unfold afterSwtch at h
  split at h
  · split at h
    · cases h; exact schedTo_setQueue ..
    · split at h
      · cases h; exact schedTo_setQueue ..
      · cases h
  · split at h
    · split at h
      · cases h; exact schedTo_takeOut ..
      · split at h
        · next k1 hk =>
          cases h
          exact (schedTo_upd k m rfl).trans ((schedTo_push hk).trans (schedTo_takeOut ..))
        · cases h
    · cases h; exact .refl k

lemma exit_ok {cur : Slot} (h : k.exit cur = .ok k') : ∃ k3, CalmTo k k3 ∧
      k' = k3.upd cur fun r => { r with state := .ZOMBIE, etime := k.now } := by
  unfold exit at h
  split at h
  · cases h
  · dsimp only at h
    cases h
    refine ⟨_, (calmTo_wakeParent k cur).trans ?_, rfl⟩
    split
    · exact (calmTo_reparent ..).trans (calmTo_wakeup1 ..)
    · exact calmTo_reparent ..

end Kernel

variable {c : Fin n} {k : Kernel} {cpu : Cpu} {l : Option (Fin n)} {p : Slot} {a : Action n} {x : Bool}

/-! ## the kinds of steps -/

inductive Kind where
  | calm
  | dispatch (p : Slot)
  | leave (p : Slot)
  | fork (p : Slot)
  | reap (z : Slot)

/-- the kinds of steps that are made only with `ptable.lock` in hand. -/
def Kind.exclusive : Kind → Bool
  | .dispatch _ => true
  | .leave _ => true
  | .reap _ => true
  | _ => false

/-- what a step of each kind does to the kernel. -/
inductive Life : Kind → Kernel → Kernel → Prop
  | calm {k k' : Kernel} (h : k.CalmTo k') : Life .calm k k'
  | dispatch {k k' : Kernel} {p : Slot} {f : Proc → Proc} (hr : (k.procs p).state = .RUNNABLE)
      (hf : Frame (k.procs p) (f (k.procs p))) (hs : (f (k.procs p)).state = .RUNNING)
      (h : k' = k.upd p f) : Life (.dispatch p) k k'
  | leave {k k1 k' : Kernel} {p : Slot} {f : Proc → Proc} (h1 : k.CalmTo k1)
      (hf : Frame (k1.procs p) (f (k1.procs p)))
      (hs : (f (k1.procs p)).state = .RUNNABLE ∨ (f (k1.procs p)).state = .SLEEPING ∨
        (f (k1.procs p)).state = .ZOMBIE ∧ (k.procs p).fork = .none)
      (h : k' = k1.upd p f) : Life (.leave p) k k'
  | fork {k k' : Kernel} {p : Slot} {need : Nat} (h : k.forkStep p need = .ok k') :
      Life (.fork p) k k'
  | reap {pol : Policy} {x : Bool} {k k1 k' : Kernel} {p z : Slot} (h1 : k.CalmTo k1)
      (hz : k1.zombieChild p = some z) (h : k1.reap pol x z = .ok k') : Life (.reap z) k k'

/-- the four kinds of modes: no process, a process, a trap, the way back to the scheduler. -/
inductive Place where
  | off | on | trap | back

def Mode.place : Mode → Place
  | .idle => .off
  | .age _ _ => .off
  | .scan => .off
  | .resume => .on
  | .run => .on
  | .tickWake _ => .trap
  | .tickCharge _ => .trap
  | .trapTail _ => .trap
  | .back => .back

/-- what a step of each kind does to the CPU that takes it. -/
inductive CpuMove : Kind → Cpu → Cpu → Prop
  | stay {kd : Kind} {cpu cpu' : Cpu} (hd : ∀ p, kd ≠ .dispatch p) (hl : ∀ p, kd ≠ .leave p)
      (hf : ∀ p, kd = .fork p → cpu.proc = some p ∧ cpu.mode.place = .on)
      (hr : ∀ z, kd = .reap z → cpu.mode.place = .on) (hp : cpu'.proc = cpu.proc)
      (hm : cpu'.mode.place = cpu.mode.place) : CpuMove kd cpu cpu'
  | trap {cpu cpu' : Cpu} (hp : cpu'.proc = cpu.proc)
      (hm : cpu.mode.place = .off ∨ cpu.mode.place = .on) (hm' : cpu'.mode.place = .trap) :
      CpuMove .calm cpu cpu'
  | untrap {cpu cpu' : Cpu} (hp : cpu'.proc = cpu.proc) (hm : cpu.mode.place = .trap)
      (hm' : cpu'.mode = cpu.afterTrap) : CpuMove .calm cpu cpu'
  | dispatch {cpu cpu' : Cpu} {p : Slot} (hm : cpu.mode.place = .off) (hp : cpu'.proc = some p)
      (hm' : cpu'.mode.place = .on) : CpuMove (.dispatch p) cpu cpu'
  | leave {cpu cpu' : Cpu} {p : Slot} (hm : cpu.mode.place = .on ∨ cpu.mode.place = .trap)
      (hp : cpu.proc = some p) (hp' : cpu'.proc = some p) (hm' : cpu'.mode.place = .back) :
      CpuMove (.leave p) cpu cpu'
  | back {cpu cpu' : Cpu} (hm : cpu.mode.place = .back) (hp' : cpu'.proc = none)
      (hm' : cpu'.mode.place = .off) : CpuMove .calm cpu cpu'

/-- how `ptable.lock` moves: it is left as it is, taken, kept or released by `c`. -/
inductive LockMove (c : Fin n) : Option (Fin n) → Bool → Option (Fin n) → Bool → Prop
  | same {l : Option (Fin n)} {b : Bool} : LockMove c l b l b
  | take {b : Bool} : LockMove c none b (some c) true
  | keep {l : Option (Fin n)} : LockMove c l true (some c) true
  | release {l : Option (Fin n)} {b : Bool} (h : l = none ∨ b = true) : LockMove c l b none false

/-- a step of kind `kd` by the CPU `c`. -/
structure View (c : Fin n) (kd : Kind) (s s' : State n) : Prop where
  others : ∀ c', c' ≠ c → s'.cpus c' = s.cpus c'
  life : Life kd s.ker s'.ker
  cpu : CpuMove kd (s.cpus c) (s'.cpus c)
  lock : LockMove c s.lock (s.cpus c).mode.locked s'.lock (s'.cpus c).mode.locked
  held : kd.exclusive = true → s.lock = none ∨ (s.cpus c).mode.locked = true

lemma next_others (s : State n) {c' : Fin n} (k : Kernel) (cpu : Cpu) (l : Option (Fin n))
    (h : c' ≠ c) : (s.next c k cpu l).cpus c' = s.cpus c' := Function.update_of_ne h ..

section
variable (s : State n) (c : Fin n) (k : Kernel) (cpu : Cpu)

@[simp] lemma next_same
    (l : Option (Fin n)) : (s.next c k cpu l).cpus c = cpu := Function.update_self ..

@[simp] lemma next_ker
    (l : Option (Fin n)) : (s.next c k cpu l).ker = k := rfl

end

lemma view_next {kd : Kind} (hk : Life kd s.ker k) (hc : CpuMove kd (s.cpus c) cpu)
    (hl : LockMove c s.lock (s.cpus c).mode.locked l cpu.mode.locked)
    (hh : kd.exclusive = true → s.lock = none ∨ (s.cpus c).mode.locked = true) :
    View c kd s (s.next c k cpu l) :=
  ⟨fun c' h => next_others s k cpu l h, hk, by rwa [next_same], by rwa [next_same], hh⟩

lemma view_calm (hk : s.ker.CalmTo k) (hp : cpu.proc = (s.cpus c).proc)
    (hm : cpu.mode.place = (s.cpus c).mode.place)
    (hl : LockMove c s.lock (s.cpus c).mode.locked l cpu.mode.locked) :
    View c .calm s (s.next c k cpu l) :=
  view_next (.calm hk) (.stay (fun _ => nofun) (fun _ => nofun) (fun _ => nofun) (fun _ => nofun) hp hm) hl nofun

lemma choose_runnable (h : (k.procs p).state = .RUNNABLE) : (k.procs (k.choose pol p)).state = .RUNNABLE := by
  -- both inner loops only ever move to a RUNNABLE process
  have loop (f : Slot → Slot → Slot) (hf : ∀ a b, f a b = a ∨ (k.procs (f a b)).state = .RUNNABLE)
      (l : List Slot) (p : Slot) (h : (k.procs p).state = .RUNNABLE) :
      (k.procs (l.foldl f p)).state = .RUNNABLE := by
    induction l generalizing p with
    | nil => exact h
    | cons a l ih =>
      apply ih
      rcases hf p a with e | e
      · rw [e]; exact h
      · exact e
  unfold Kernel.choose
  split
  · apply loop _ _ _ _ h
    intro a b
    split
    · next hb => exact .inr hb.1
    · exact .inl rfl
  · apply loop _ _ _ _ h
    intro a b
    split
    · exact .inl rfl
    · next hb =>
      split
      · exact .inl rfl
      · split
        · exact .inr (not_not.mp hb)
        · exact .inl rfl
  · exact h

lemma Waiting.calm (h : Waiting s a c p x k) : s.ker.CalmTo k := by
  cases h with
  | call => exact Kernel.CalmTo.refl _
  | woken => exact calmTo_unchan ..

lemma Waiting.proc (h : Waiting s a c p x k) : (s.cpus c).proc = some p := by
  cases h <;> assumption

lemma Waiting.place (h : Waiting s a c p x k) : (s.cpus c).mode.place = .on := by
  cases h with
  | call x hm => rw [hm]; rfl
  | woken x hm => rw [hm]; rfl

lemma Waiting.lock {a : Action n} {c : Fin n} {p : Slot} {x : Bool} {k : Kernel}
    (h : Waiting s a c p x k) : s.lock = none ∨ (s.cpus c).mode.locked = true := by
  cases h with
  | call x hm hp hf hl => exact .inl hl
  | woken x hm => rw [hm]; exact .inr rfl

/-- **Every step is of one of the five kinds.** -/
theorem Trans.view (h : Trans pol s a s') : ∃ c kd, View c kd s s' := by
  cases h with
  | @begin c hm hl =>
    refine ⟨c, .calm, view_calm (.refl _) rfl ?_ ?_⟩
    · rw [hm]; unfold firstMode; split <;> rfl
    · rw [hl]
      have e : (firstMode pol).locked = true := by unfold firstMode; split <;> rfl
      show LockMove c none _ (some c) (firstMode pol).locked
      rw [e]; exact .take
  | @ageEnd c l i hm =>
    refine ⟨c, .calm, view_calm (.refl _) ?_ ?_ ?_⟩
    · unfold ageNext; split <;> rfl
    · rw [hm]; unfold ageNext; split <;> rfl
    · have e : (ageNext (s.cpus c) l).mode.locked = true := by unfold ageNext; split <;> rfl
      rw [hm, e]; exact .same
  | @ageKeep c l i p hm | @tickIdle c u hm =>
    exact ⟨c, .calm, view_calm (.refl _) rfl (by rw [hm]; rfl) (by rw [hm]; exact .same)⟩
  | @ageUp c l i p k hm ht hp hr hw hk =>
    exact ⟨c, .calm, view_calm (schedTo_promote hk).calm rfl (by rw [hm]; rfl) (by rw [hm]; exact .same)⟩
  | @scanSkip c | @scanNext c =>
    exact ⟨c, .calm, view_calm (.refl _) rfl rfl .same⟩
  | @scanEnd c hm | @resume c p hm =>
    exact ⟨c, .calm, view_calm (.refl _) rfl (by rw [hm]; rfl) (by rw [hm]; exact .release (.inr rfl))⟩
  | @runQueue c p hm hpol he hr =>
    exact ⟨c, .dispatch p, view_next (.dispatch hr ⟨rfl, rfl, rfl, rfl⟩ rfl rfl)
      (.dispatch (by rw [hm]; rfl) rfl rfl) (by rw [hm]; exact .same) (fun _ => .inr (by rw [hm]; rfl))⟩
  | @runTable c p hm hpol he hr =>
    exact ⟨c, .dispatch _, view_next (.dispatch (choose_runnable hr) ⟨rfl, rfl, rfl, rfl⟩ rfl rfl)
      (.dispatch (by rw [hm]; rfl) rfl rfl) (by rw [hm]; exact .same) (fun _ => .inr (by rw [hm]; rfl))⟩
  | @backTable c m hm =>
    exact ⟨c, .calm, view_next (.calm (.refl _)) (.back (by rw [hm]; rfl) rfl rfl) (by rw [hm]; exact .same) nofun⟩
  | @backQueue c m k hm hpol hp hk =>
    exact ⟨c, .calm, view_next (.calm (schedTo_afterSwtch hk).calm)
      (.back (by rw [hm]; rfl) rfl rfl) (by rw [hm]; exact .same) nofun⟩
  | @resumeSleep c p hm =>
    exact ⟨c, .calm, view_calm (calmTo_unchan ..) rfl (by rw [hm]; rfl) (by rw [hm]; exact .release (.inr rfl))⟩
  | @reap _ c p z x k k' hw hz hk =>
    exact ⟨c, .reap z, view_next (.reap hw.calm hz hk)
      (.stay (fun _ => nofun) (fun _ => nofun) (fun _ => nofun) (fun _ _ => hw.place) rfl hw.place.symm)
      (.release hw.lock) (fun _ => hw.lock)⟩
  | @waitFail _ c p x k hw =>
    exact ⟨c, .calm, view_calm hw.calm rfl hw.place.symm (.release hw.lock)⟩
  | @waitBlock _ c p x k hw =>
    refine ⟨c, .leave p, view_next (.leave hw.calm ⟨rfl, rfl, rfl, rfl⟩ (.inr (.inl rfl)) rfl)
      (.leave (.inl hw.place) hw.proc hw.proc rfl) ?_ (fun _ => hw.lock)⟩
    rcases hw.lock with e | e
    · rw [e]; exact .take
    · rw [e]; exact .keep
  | @fork c p need k hm hp hl hk =>
    exact ⟨c, .fork p, view_next (.fork hk)
      (.stay (fun _ => nofun) (fun _ => nofun) (fun _ e => by cases e; exact ⟨hp, by rw [hm]; rfl⟩)
        (fun _ => nofun) rfl rfl) .same nofun⟩
  | @exit c p k hm hp hf hl hk =>
    obtain ⟨k3, hc, e⟩ := exit_ok hk
    exact ⟨c, .leave p, view_next (.leave hc ⟨rfl, rfl, rfl, rfl⟩ (.inr (.inr ⟨rfl, hf⟩)) e)
      (.leave (.inl (by rw [hm]; rfl)) hp hp rfl) (by rw [hl]; exact .take) (fun _ => .inl hl)⟩
  | @kill c p pid hm hp hl =>
    exact ⟨c, .calm, view_calm (calmTo_kill ..) rfl rfl (by rw [hl]; exact .same)⟩
  | @sleep c p ch hm hp hf hl =>
    exact ⟨c, .leave p, view_next (.leave (.refl _) ⟨rfl, rfl, rfl, rfl⟩ (.inr (.inl rfl)) rfl)
      (.leave (.inl (by rw [hm]; rfl)) hp hp rfl) (by rw [hl]; exact .take) (fun _ => .inl hl)⟩
  | @wakeup c p ch hm hp hl | @intr c ch hm hl =>
    exact ⟨c, .calm, view_calm (calmTo_wakeup1 ..) rfl rfl (by rw [hl]; exact .same)⟩
  | @setPriority c p pid v hm hp hl =>
    exact ⟨c, .calm, view_calm (schedTo_setPriority ..).calm rfl rfl (by rw [hl]; exact .same)⟩
  | @timer c u hm =>
    refine ⟨c, .calm, view_next (.calm (calmTo_tick _)) (.trap rfl ?_ rfl) ?_ nofun⟩
    · rcases hm with e | e <;> rw [e]
      · exact .inl rfl
      · exact .inr rfl
    · rcases hm with e | e <;> rw [e] <;> exact .same
  | @timerOther c u hm =>
    refine ⟨c, .calm, view_next (.calm (.refl _)) (.trap rfl ?_ rfl) ?_ nofun⟩
    · rcases hm with e | e <;> rw [e]
      · exact .inl rfl
      · exact .inr rfl
    · rcases hm with e | e <;> rw [e] <;> exact .same
  | @tickWake c u hm hl =>
    exact ⟨c, .calm, view_calm (calmTo_wakeup1 ..) rfl (by rw [hm]; rfl) (by rw [hm, hl]; exact .same)⟩
  | @tickCharge c u p k hm hp hk =>
    exact ⟨c, .calm, view_calm (calmTo_charge hk) rfl (by rw [hm]; rfl) (by rw [hm]; exact .same)⟩
  | @trapEnd c u hm =>
    refine ⟨c, .calm, view_next (.calm (.refl _)) (.untrap rfl (by rw [hm]; rfl) rfl) ?_ nofun⟩
    have e : (s.cpus c).afterTrap.locked = false := by unfold Cpu.afterTrap; split <;> rfl
    show LockMove c _ _ _ (s.cpus c).afterTrap.locked
    rw [hm, e]; exact .same
  | @yield c u p hm hp hpol hr hl =>
    exact ⟨c, .leave p, view_next (.leave (.refl _) ⟨rfl, rfl, rfl, rfl⟩ (.inl rfl) rfl)
      (.leave (.inr (by rw [hm]; rfl)) hp hp rfl) (by rw [hl]; exact .take) (fun _ => .inl hl)⟩

end Xv6
