import Xv6.Proc.View

/-!
# Who runs where: the lock, the CPUs and the states of the processes

`Sound s` is the invariant of the machine that does not speak about queues or pages:

* the lock is held by the CPU that is in a locked mode, so by at most one;
* a CPU in the scheduler's loops has no process, a CPU that runs or traps has a RUNNING one, and a
  CPU on its way back has one that is RUNNABLE, SLEEPING or ZOMBIE;
* no process is on two CPUs, and every RUNNING process is on one;
* the child a process is forking is an EMBRYO, and nobody else is forking it.

`step_sound`: every step keeps it, in every build, for any number of CPUs.
-/

namespace Xv6
open Lib Kernel Option

variable {n : Nat} {pol : Policy} {s s' : State n} {k k' : Kernel}
variable {cpu cpu' : Cpu} {p np z : Slot} {c c' : Fin n} {kd : Kind} {f : Proc → Proc} {pc : ForkPc}
  {need npages : Nat} {a : Action n}

/-- the child that the process is forking. -/
def ForkPc.child : ForkPc → Option Slot
  | .none => Option.none
  | .kalloc np => some np
  | .ctime np => some np
  | .copyuvm np => some np
  | .ready np => some np

def PlaceOk (k : Kernel) (cpu : Cpu) : Prop :=
  match cpu.mode.place with
  | .off => cpu.proc = none
  | .on => ∃ p, cpu.proc = some p ∧ (k.procs p).state = .RUNNING
  | .trap => ∀ p, cpu.proc = some p → (k.procs p).state = .RUNNING
  | .back => ∃ p, cpu.proc = some p ∧ ((k.procs p).state = .RUNNABLE ∨
      (k.procs p).state = .SLEEPING ∨ (k.procs p).state = .ZOMBIE)

/-- the child being forked is an EMBRYO, its forker is alive. -/
structure ForkOk (k : Kernel) : Prop where
  embryo : ∀ p np, (k.procs p).fork.child = some np → (k.procs np).state = .EMBRYO
  alive : ∀ p np, (k.procs p).fork.child = some np →
    (k.procs p).state = .RUNNABLE ∨ (k.procs p).state = .RUNNING ∨ (k.procs p).state = .SLEEPING
  inj : ∀ p p' np, (k.procs p).fork.child = some np → (k.procs p').fork.child = some np → p = p'

structure Sound (s : State n) : Prop where
  lock : ∀ c, (s.cpus c).mode.locked = true ↔ s.lock = some c
  place : ∀ c, PlaceOk s.ker (s.cpus c)
  inj : ∀ c c' p, (s.cpus c).proc = some p → (s.cpus c').proc = some p → c = c'
  running : ∀ p, (s.ker.procs p).state = .RUNNING → ∃ c, (s.cpus c).proc = some p
  fork : ForkOk s.ker

/-! ## one CPU -/

section
variable (h : PlaceOk k cpu)
include h

lemma PlaceOk.congr (hp : cpu'.proc = cpu.proc) (hm : cpu'.mode.place = cpu.mode.place) : PlaceOk k cpu' := by
  unfold PlaceOk at h ⊢
  rw [hm, hp]
  exact h

lemma PlaceOk.mono (hp : ∀ p, cpu.proc = some p → Calm (k.procs p) (k'.procs p)) : PlaceOk k' cpu := by
  unfold PlaceOk at h ⊢
  have run : ∀ p, cpu.proc = some p → (k.procs p).state = .RUNNING → (k'.procs p).state = .RUNNING := by
    intro p e hr
    rw [(hp p e).state_eq (by rw [hr]; nofun), hr]
  cases hm : cpu.mode.place with
  | off => rw [hm] at h; exact h
  | on =>
    rw [hm] at h
    obtain ⟨p, e, hr⟩ := h
    exact ⟨p, e, run p e hr⟩
  | trap =>
    rw [hm] at h
    intro p e
    exact run p e (h p e)
  | back =>
    rw [hm] at h
    obtain ⟨p, e, hr⟩ := h
    refine ⟨p, e, ?_⟩
    rcases (hp p e).state with e' | ⟨-, e'⟩
    · rw [e']; exact hr
    · exact .inl e'

lemma PlaceOk.proc_running (hp : cpu.proc = some p)
    (hm : cpu.mode.place = .on ∨ cpu.mode.place = .trap) : (k.procs p).state = .RUNNING := by
  unfold PlaceOk at h
  rcases hm with hm | hm
  · rw [hm] at h
    obtain ⟨q, e, hr⟩ := h
    rw [hp] at e
    cases e
    exact hr
  · rw [hm] at h
    exact h p hp

lemma PlaceOk.back_not_running
    (hp : cpu.proc = some p) (hm : cpu.mode.place = .back) : (k.procs p).state = .RUNNABLE ∨
      (k.procs p).state = .SLEEPING ∨ (k.procs p).state = .ZOMBIE := by
  unfold PlaceOk at h
  rw [hm] at h
  obtain ⟨q, e, hr⟩ := h
  rw [hp] at e
  cases e
  exact hr

end

lemma Sound.proc_state (h : Sound s) (hp : (s.cpus c).proc = some p) :
    (s.ker.procs p).state ≠ .UNUSED ∧ (s.ker.procs p).state ≠ .EMBRYO := by
  have hc := h.place c
  cases hm : (s.cpus c).mode.place with
  | off =>
    unfold PlaceOk at hc
    rw [hm] at hc
    simp only [hp] at hc
    cases hc
  | on => rw [hc.proc_running hp (.inl hm)]; exact ⟨nofun, nofun⟩
  | trap => rw [hc.proc_running hp (.inr hm)]; exact ⟨nofun, nofun⟩
  | back =>
    rcases hc.back_not_running hp hm with e | e | e <;> rw [e] <;> exact ⟨nofun, nofun⟩

lemma place_back {m : Mode} (h : m.place = .back) : m.locked = true := by
  cases m <;> first | rfl | cases h

lemma Sound.exclusive (h : Sound s) (hl : s.lock = none ∨ (s.cpus c).mode.locked = true)
    (hc : c' ≠ c) : (s.cpus c').mode.locked = false := by
  cases hb : (s.cpus c').mode.locked with
  | false => rfl
  | true =>
    have e' := (h.lock c').mp hb
    rcases hl with e | e
    · rw [e] at e'; cases e'
    · rw [(h.lock c).mp e] at e'
      exact absurd (some.inj e').symm hc

/-! ## the lock -/

lemma View.lock_step (v : View c kd s s')
    (h : ∀ c, (s.cpus c).mode.locked = true ↔ s.lock = some c) (c' : Fin n) :
    (s'.cpus c').mode.locked = true ↔ s'.lock = some c' := by
  have hc := h c
  have hm := v.lock
  by_cases e : c' = c
  · subst e
    generalize (s.cpus c').mode.locked = b at hc hm
    generalize (s'.cpus c').mode.locked = b' at hm ⊢
    generalize s.lock = l at hc hm
    generalize s'.lock = l' at hm ⊢
    cases hm with
    | same => exact hc
    | take | keep => exact ⟨fun _ => rfl, fun _ => rfl⟩
    | release => exact ⟨nofun, nofun⟩
  · rw [v.others c' e]
    have hc' := h c'
    generalize (s.cpus c).mode.locked = b at hc hm
    generalize (s'.cpus c).mode.locked = b' at hm
    generalize s.lock = l at hc hc' hm
    generalize s'.lock = l' at hm ⊢
    rw [hc']
    cases hm with
    | same => exact Iff.rfl
    | take => exact ⟨nofun, fun e' => absurd (some.inj e').symm e⟩
    | keep => rw [hc.mp rfl]
    | release hl =>
      rcases hl with hl | hl
      · rw [hl]
      · rw [hc.mp hl]
        exact ⟨fun e' => absurd (some.inj e').symm e, nofun⟩

/-! ## fork -/

lemma ForkOk.none_of (h : ForkOk k) (hs : (k.procs p).state = .UNUSED ∨
    (k.procs p).state = .EMBRYO ∨ (k.procs p).state = .ZOMBIE) : (k.procs p).fork.child = none := by
  cases hc : (k.procs p).fork.child with
  | none => rfl
  | some np =>
    exfalso
    have ha := h.alive p np hc
    rcases hs with e | e | e <;> rw [e] at ha <;> rcases ha with e' | e' | e' <;> cases e'

lemma ForkOk.mono (h : ForkOk k) (hf : ∀ p, (k'.procs p).fork = (k.procs p).fork)
    (he : ∀ p, (k.procs p).state = .EMBRYO → (k'.procs p).state = .EMBRYO)
    (ha : ∀ p np, (k.procs p).fork.child = some np →
      (k'.procs p).state = .RUNNABLE ∨ (k'.procs p).state = .RUNNING ∨
        (k'.procs p).state = .SLEEPING) : ForkOk k' := by
  refine ⟨fun p np hc => ?_, fun p np hc => ?_, fun p p' np hc hc' => ?_⟩
  · rw [hf] at hc; exact he np (h.embryo p np hc)
  · rw [hf] at hc; exact ha p np hc
  · rw [hf] at hc hc'; exact h.inj p p' np hc hc'

lemma ForkOk.calm (h : ForkOk k) (hk : k.CalmTo k') : ForkOk k' := by
  refine h.mono (fun p => (hk.procs p).fork) (fun p e => ?_) (fun p np hc => ?_)
  · rw [(hk.procs p).state_eq (by rw [e]; nofun), e]
  · rcases (hk.procs p).state with e | ⟨-, e⟩
    · rw [e]; exact h.alive p np hc
    · exact .inl e

lemma Sound.fork_ne (h : Sound s) (hp : (s.cpus c).proc = some p)
    (hn : (s.ker.procs np).state = .UNUSED ∨ (s.ker.procs np).state = .EMBRYO) : np ≠ p := by
  rintro rfl
  have := h.proc_state hp
  rcases hn with e | e
  · exact this.1 e
  · exact this.2 e

/-- one part of `fork`, seen at the child `np`: what becomes of it (`f`) and of the forker. -/
structure ForkEdge (k : Kernel) (p np : Slot) (f : Proc → Proc) (pc : ForkPc) : Prop where
  before : (k.procs np).state = .UNUSED ∧ (k.procs p).fork.child = none ∨
    (k.procs np).state = .EMBRYO ∧ (k.procs p).fork.child = some np
  after : pc.child = none ∧ ((f (k.procs np)).state = .UNUSED ∨ (f (k.procs np)).state = .RUNNABLE) ∨
    pc.child = some np ∧ (f (k.procs np)).state = .EMBRYO
  child : (f (k.procs np)).fork.child = none

lemma ForkOk.edge (h : ForkOk k)
    (hc : (k.procs p).fork.child = some np)
    (hf : (f (k.procs np)).fork = (k.procs np).fork ∨ (f (k.procs np)).fork = .none)
    (ha : pc.child = none ∧ ((f (k.procs np)).state = .UNUSED ∨
        (f (k.procs np)).state = .RUNNABLE) ∨
      pc.child = some np ∧ (f (k.procs np)).state = (k.procs np).state) : ForkEdge k p np f pc := by
  have he := h.embryo p np hc
  refine ⟨.inr ⟨he, hc⟩, ?_, ?_⟩
  · rw [he] at ha; exact ha
  · rcases hf with e | e <;> rw [e]
    · exact h.none_of (.inr (.inl he))
    · rfl

lemma ForkOk.edge_alloc (h : ForkOk k) (hf : (k.procs p).fork = .none)
    (hu : (k.procs np).state = .UNUSED) : ForkEdge k p np (fun r =>
      { r with
        state := .EMBRYO, pid := k.nextpid, current_queue := 0, ticks := fun _ => 0,
        waittime := 5 }) (.kalloc np) :=
  ⟨.inl ⟨hu, by rw [hf]; rfl⟩, .inr ⟨rfl, rfl⟩, h.none_of (.inl hu)⟩

lemma Kernel.ForkCase.edge (hk : k.ForkCase p need k') (h : ForkOk k) :
    k' = k ∨ ∃ np f pc, ForkEdge k p np f pc ∧
      k'.procs = ((k.upd np f).upd p fun r => { r with fork := pc }).procs := by
  cases hk with
  | full => exact .inl rfl
  | alloc hf hn hu => exact .inr ⟨_, _, _, h.edge_alloc hf hu, rfl⟩
  | noStack hf | noCopy hf =>
    exact .inr ⟨_, _, _, h.edge (by rw [hf]; rfl) (.inl rfl) (.inl ⟨rfl, .inl rfl⟩), rfl⟩
  | stack hf => exact .inr ⟨_, _, _, h.edge (by rw [hf]; rfl) (.inr rfl) (.inr ⟨rfl, rfl⟩), rfl⟩
  | times hf | copy hf => exact .inr ⟨_, _, _, h.edge (by rw [hf]; rfl) (.inl rfl) (.inr ⟨rfl, rfl⟩), rfl⟩
  | ready hf =>
    exact .inr ⟨_, _, _, h.edge (by rw [hf]; rfl) (.inl rfl) (.inl ⟨rfl, .inr rfl⟩), rfl⟩

lemma ForkEdge.ok (he : ForkEdge k p np f pc)
    (h : ForkOk k) (hp : (k.procs p).state = .RUNNING) (hne : np ≠ p)
    (hk : k'.procs = ((k.upd np f).upd p fun r => { r with fork := pc }).procs) : ForkOk k' := by
  have eqp : k'.procs p = { k.procs p with fork := pc } := by
    rw [hk, upd_same, upd_of_ne _ _ hne.symm]
  have eqn : k'.procs np = f (k.procs np) := by
    rw [hk, upd_of_ne _ _ hne, upd_same]
  have eqo : ∀ q, q ≠ p → q ≠ np → k'.procs q = k.procs q := by
    intro q h1 h2
    rw [hk, upd_of_ne _ _ h1, upd_of_ne _ _ h2]
  -- a forker other than `p` was forking the same child before, which is not `np`
  have old : ∀ q x, q ≠ p → (k'.procs q).fork.child = some x → (k.procs q).fork.child = some x ∧ x ≠ np ∧ q ≠ np := by
    intro q x hq hx
    have hqn : q ≠ np := by
      rintro rfl
      rw [eqn, he.child] at hx
      cases hx
    rw [eqo q hq hqn] at hx
    refine ⟨hx, ?_, hqn⟩
    rintro rfl
    rcases he.before with ⟨e, -⟩ | ⟨-, e⟩
    · rw [h.embryo q x hx] at e; cases e
    · exact hq (h.inj q p x hx e)
  have new : ∀ x, (k'.procs p).fork.child = some x → x = np ∧ (k'.procs np).state = .EMBRYO := by
    intro x hx
    rw [eqp] at hx
    rcases he.after with ⟨e, -⟩ | ⟨e, hs⟩
    · simp only [e] at hx
      cases hx
    · simp only [e] at hx
      exact ⟨(some.inj hx).symm, by rw [eqn, hs]⟩
  refine ⟨fun q x hx => ?_, fun q x hx => ?_, fun q q' x hx hx' => ?_⟩
  · by_cases e : q = p
    · subst e
      obtain ⟨rfl, hs⟩ := new x hx
      exact hs
    · obtain ⟨hx', hxn, -⟩ := old q x e hx
      have hemb := h.embryo q x hx'
      have hxp : x ≠ p := by
        rintro rfl
        rw [hp] at hemb
        cases hemb
      rw [eqo x hxp hxn]
      exact hemb
  · by_cases e : q = p
    · subst e
      rw [eqp]
      exact .inr (.inl hp)
    · obtain ⟨hx', -, hqn⟩ := old q x e hx
      rw [eqo q e hqn]
      exact h.alive q x hx'
  · by_cases e : q = p <;> by_cases e' : q' = p
    · rw [e, e']
    · subst e
      exact absurd (new x hx).1 (old q' x e' hx').2.1
    · subst e'
      exact absurd (new x hx').1 (old q x e hx).2.1
    · exact h.inj q q' x (old q x e hx).1 (old q' x e' hx').1

/-! ## every step -/

lemma Sound.off_none (h : Sound s) (hm : (s.cpus c).mode.place = .off) : (s.cpus c).proc = none := by
  have := h.place c
  unfold PlaceOk at this
  rw [hm] at this
  exact this

lemma Sound.place_of_not_running (h : Sound s) (hp : (s.cpus c).proc = some p)
    (hr : (s.ker.procs p).state ≠ .RUNNING) : (s.cpus c).mode.place = .back := by
  cases hm : (s.cpus c).mode.place with
  | off => rw [h.off_none hm] at hp; cases hp
  | on => exact absurd ((h.place c).proc_running hp (.inl hm)) hr
  | trap => exact absurd ((h.place c).proc_running hp (.inr hm)) hr
  | back => rfl

lemma Sound.others_running (h : Sound s) (hl : s.lock = none ∨ (s.cpus c).mode.locked = true)
    (hc : c' ≠ c) (hp : (s.cpus c').proc = some p) : (s.ker.procs p).state = .RUNNING := by
  by_contra hr
  have hb := place_back (h.place_of_not_running hp hr)
  rw [h.exclusive hl hc] at hb
  cases hb

lemma Waiting.zombie_off {x : Bool} (hs : Sound s) (hw : Waiting s a c p x k)
    (hz : (s.ker.procs z).state = .ZOMBIE) (c' : Fin n) : (s.cpus c').proc ≠ some z := by
  intro hp
  have hr : (s.ker.procs z).state ≠ .RUNNING := by rw [hz]; nofun
  by_cases e : c' = c
  · subst e
    have hb := hs.place_of_not_running hp hr
    rw [hw.place] at hb
    cases hb
  · exact hr (hs.others_running hw.lock e hp)

lemma CpuMove.proc_or_none (h : CpuMove kd cpu cpu') (hd : ∀ p, kd ≠ .dispatch p) :
    cpu'.proc = cpu.proc ∨ cpu'.proc = none ∧ cpu.mode.place = .back := by
  cases h with
  | stay h1 h2 hf hr hp | trap hp | untrap hp => exact .inl hp
  | dispatch => exact absurd rfl (hd _)
  | leave hm hp hp' => exact .inl (hp'.trans hp.symm)
  | back hm hp' => exact .inr ⟨hp', hm⟩

lemma View.proc_before (v : View c kd s s') (hd : ∀ p, kd ≠ .dispatch p)
    (hp : (s'.cpus c').proc = some p) : (s.cpus c').proc = some p := by
  by_cases e : c' = c
  · subst e
    rcases v.cpu.proc_or_none hd with e' | ⟨e', -⟩
    · rw [← e', hp]
    · rw [e'] at hp; cases hp
  · rw [← v.others c' e, hp]

lemma View.proc_after (v : View c kd s s') (h : Sound s) (hd : ∀ p, kd ≠ .dispatch p)
    (hr : (s.ker.procs p).state = .RUNNING) : ∃ c', (s'.cpus c').proc = some p := by
  obtain ⟨c', hp⟩ := h.running p hr
  refine ⟨c', ?_⟩
  by_cases e : c' = c
  · subst e
    rcases v.cpu.proc_or_none hd with e' | ⟨-, hm⟩
    · rw [e', hp]
    · have := (h.place c').back_not_running hp hm
      rw [hr] at this
      rcases this with e | e | e <;> cases e
  · rw [v.others c' e, hp]

lemma View.sound (v : View c kd s s') (h : Sound s)
    (hd : ∀ p, kd ≠ .dispatch p) (hf : ForkOk s'.ker) (hc : PlaceOk s'.ker (s'.cpus c))
    (ho : ∀ c' p, c' ≠ c → (s.cpus c').proc = some p → Calm (s.ker.procs p) (s'.ker.procs p))
    (hr : ∀ p, (s'.ker.procs p).state = .RUNNING → (s.ker.procs p).state = .RUNNING) :
    Sound s' := by
  refine ⟨v.lock_step h.lock, fun c' => ?_, fun c1 c2 p h1 h2 => ?_, fun p hp => ?_, hf⟩
  · by_cases e : c' = c
    · rw [e]; exact hc
    · rw [v.others c' e]; exact (h.place c').mono (ho c' · e)
  · exact h.inj c1 c2 p (v.proc_before hd h1) (v.proc_before hd h2)
  · exact v.proc_after h hd (hr p hp)

lemma View.sound_calm (v : View c .calm s s') (h : Sound s) : Sound s' := by
  obtain ⟨hk⟩ : Life .calm s.ker s'.ker := v.life
  refine v.sound h (fun _ => nofun) (h.fork.calm hk) ?_ (fun _ p _ _ => hk.procs p) (fun p hp => ?_)
  · have hc : PlaceOk s'.ker (s.cpus c) := (h.place c).mono (fun p _ => hk.procs p)
    cases v.cpu with
    | stay h1 h2 hf hr hp hm => exact hc.congr hp hm
    | trap hp hm hm' =>
      unfold PlaceOk at hc ⊢
      rw [hm']
      intro p e
      rw [hp] at e
      rcases hm with hm | hm
      · rw [hm] at hc
        simp only [e] at hc
        cases hc
      · rw [hm] at hc
        obtain ⟨q, e', hr⟩ := hc
        rw [e] at e'
        cases e'
        exact hr
    | untrap hp hm hm' =>
      unfold PlaceOk at hc ⊢
      rw [hm] at hc
      rw [hm', hp]
      unfold Cpu.afterTrap
      cases e : (s.cpus c).proc with
      | none => rfl
      | some p => exact ⟨p, rfl, hc p e⟩
    | back hm hp' hm' =>
      unfold PlaceOk
      rw [hm']
      exact hp'
  · rcases (hk.procs p).state with e | ⟨-, e⟩
    · rw [← e, hp]
    · rw [e] at hp; cases hp

lemma View.sound_fork (v : View c (.fork p) s s') (h : Sound s) : Sound s' := by
  obtain ⟨hcp, hon, hp', hm'⟩ : (s.cpus c).proc = some p ∧ (s.cpus c).mode.place = .on ∧
      (s'.cpus c).proc = (s.cpus c).proc ∧ (s'.cpus c).mode.place = (s.cpus c).mode.place := by
    cases v.cpu with
    | stay h1 h2 hf hr hp hm => exact ⟨(hf p rfl).1, (hf p rfl).2, hp, hm⟩
  have hrun := (h.place c).proc_running hcp (.inl hon)
  obtain ⟨hk⟩ : ∃ need, s.ker.forkStep p need = .ok s'.ker := by
    cases v.life with | fork hk => exact ⟨_, hk⟩
  rcases (forkStep_case ‹_›).edge h.fork with e | ⟨np, f, pc, he, hk⟩
  · refine v.sound h (fun _ => nofun) (e ▸ h.fork) (e ▸ (h.place c).congr hp' hm') ?_ ?_
    · intro _ q _ _; rw [e]; exact Calm.refl _
    · intro q hq; rw [← e]; exact hq
  · have hne : np ≠ p := h.fork_ne hcp (he.before.imp And.left And.left)
    have eqp : s'.ker.procs p = { s.ker.procs p with fork := pc } := by
      rw [hk, upd_same, upd_of_ne _ _ hne.symm]
    have eqo : ∀ q, q ≠ p → q ≠ np → s'.ker.procs q = s.ker.procs q := by
      intro q h1 h2
      rw [hk, upd_of_ne _ _ h1, upd_of_ne _ _ h2]
    refine v.sound h (fun _ => nofun) (he.ok h.fork hrun hne hk) ?_ ?_ ?_
    · unfold PlaceOk
      rw [hm', hon]
      exact ⟨p, hp'.trans hcp, by rw [eqp]; exact hrun⟩
    · intro c' q hc hq
      have hqp : q ≠ p := by
        rintro rfl
        exact hc (h.inj c' c q hq hcp)
      have hqn : q ≠ np := (h.fork_ne hq (he.before.imp And.left And.left)).symm
      rw [eqo q hqp hqn]
      exact Calm.refl _
    · intro q hq
      by_cases e : q = p
      · rw [e]; exact hrun
      · by_cases e' : q = np
        · exfalso
          rw [e', hk, upd_of_ne _ _ hne, upd_same] at hq
          rcases he.after with ⟨-, e | e⟩ | ⟨-, e⟩ <;> rw [e] at hq <;> cases hq
        · rwa [eqo q e e'] at hq

lemma View.sound_leave (v : View c (.leave p) s s') (h : Sound s) : Sound s' := by
  obtain ⟨hcp, hcp', hm'⟩ : (s.cpus c).proc = some p ∧ (s'.cpus c).proc = some p ∧
      (s'.cpus c).mode.place = .back := by
    cases v.cpu with
    | stay h1 h2 => exact absurd rfl (h2 p)
    | leave hm hp hp' hm' => exact ⟨hp, hp', hm'⟩
  obtain ⟨k1, f, h1, hf, hs, hk⟩ : ∃ k1 f, s.ker.CalmTo k1 ∧ Frame (k1.procs p) (f (k1.procs p)) ∧
      ((f (k1.procs p)).state = .RUNNABLE ∨ (f (k1.procs p)).state = .SLEEPING ∨
        (f (k1.procs p)).state = .ZOMBIE ∧ (s.ker.procs p).fork = .none) ∧
      s'.ker = k1.upd p f := by
    cases v.life with | leave h1 hf hs hk => exact ⟨_, _, h1, hf, hs, hk⟩
  have eqp : s'.ker.procs p = f (k1.procs p) := by rw [hk, upd_same]
  have eqo : ∀ q, q ≠ p → s'.ker.procs q = k1.procs q := by
    intro q hq
    rw [hk, upd_of_ne _ _ hq]
  refine v.sound h (fun _ => nofun) ((h.fork.calm h1).mono ?_ ?_ ?_) ?_ ?_ ?_
  · intro q
    by_cases e : q = p
    · rw [e, eqp, hf.fork]
    · rw [eqo q e]
  · intro q hq
    by_cases e : q = p
    · exfalso
      have := h.proc_state hcp
      rw [e] at hq
      rcases (h1.procs p).state with e' | ⟨-, e'⟩
      · rw [e'] at hq; exact this.2 hq
      · rw [e'] at hq; cases hq
    · rwa [eqo q e]
  · intro q np hc
    by_cases e : q = p
    · rw [e, eqp]
      rcases hs with e' | e' | ⟨-, e'⟩
      · exact .inl e'
      · exact .inr (.inr e')
      · rw [e, (h1.procs p).fork, e'] at hc; cases hc
    · rw [eqo q e]
      exact (h.fork.calm h1).alive q np hc
  · unfold PlaceOk
    rw [hm']
    refine ⟨p, hcp', ?_⟩
    rw [eqp]
    exact hs.imp_right (Or.imp_right And.left)
  · intro c' q hc hq
    have hqp : q ≠ p := by
      rintro rfl
      exact hc (h.inj c' c q hq hcp)
    rw [eqo q hqp]
    exact h1.procs q
  · intro q hq
    by_cases e : q = p
    · exfalso
      rw [e, eqp] at hq
      rcases hs with e' | e' | ⟨e', -⟩ <;> rw [e'] at hq <;> cases hq
    · rw [eqo q e] at hq
      rcases (h1.procs q).state with e' | ⟨-, e'⟩
      · rw [← e', hq]
      · rw [e'] at hq; cases hq

lemma View.reap_off (v : View c (.reap z) s s') (h : Sound s)
    (hz : (s.ker.procs z).state = .ZOMBIE) (c' : Fin n) : (s.cpus c').proc ≠ some z := by
  intro hp
  have hr : (s.ker.procs z).state ≠ .RUNNING := by rw [hz]; nofun
  by_cases e : c' = c
  · subst e
    have hb := h.place_of_not_running hp hr
    cases v.cpu with
    | stay h1 h2 hf hr => rw [hr z rfl] at hb; cases hb
  · exact hr (h.others_running (v.held rfl) e hp)

lemma Life.reap_zombie (h : Life (.reap z) k k') :
    (k.procs z).state = .ZOMBIE ∧ (k'.procs z).state = .UNUSED ∧
      (k'.procs z).fork = (k.procs z).fork ∧ ∀ q, q ≠ z → Calm (k.procs q) (k'.procs q) := by
  cases h with
  | @reap pol x _ k1 _ p z h1 hz hk =>
    obtain ⟨st, pd, -, -, ho, he, -⟩ := reap_ok hk
    have hz1 : (k1.procs z).state = .ZOMBIE := by
      have := find_some hz
      simp only [Bool.and_eq_true, decide_eq_true_eq] at this
      exact this.2
    refine ⟨?_, by rw [he], by rw [he]; exact (h1.procs z).fork, fun q hq => ?_⟩
    · rcases (h1.procs z).state with e | ⟨-, e⟩
      · rw [← e, hz1]
      · rw [e] at hz1; cases hz1
    · rw [ho q hq]; exact h1.procs q

lemma View.sound_reap (v : View c (.reap z) s s') (h : Sound s) : Sound s' := by
  obtain ⟨hz, hz', hzf, ho⟩ := v.life.reap_zombie
  have hoff := v.reap_off h hz
  refine v.sound h (fun _ => nofun) (h.fork.mono ?_ ?_ ?_) ?_ ?_ ?_
  · intro q
    by_cases e : q = z
    · rw [e, hzf]
    · exact (ho q e).fork
  · intro q hq
    have e : q ≠ z := by rintro rfl; rw [hz] at hq; cases hq
    rw [(ho q e).state_eq (by rw [hq]; nofun), hq]
  · intro q np hc
    have e : q ≠ z := by
      rintro rfl
      rw [h.fork.none_of (.inr (.inr hz))] at hc
      cases hc
    rcases (ho q e).state with e' | ⟨-, e'⟩
    · rw [e']; exact h.fork.alive q np hc
    · exact .inl e'
  · cases v.cpu with
    | stay h1 h2 hf hr hp hm =>
      exact ((h.place c).mono fun p hcp => ho p fun e => hoff c (e ▸ hcp)).congr hp hm
  · intro c' q _ hq
    exact ho q fun e => hoff c' (e ▸ hq)
  · intro q hq
    by_cases e : q = z
    · rw [e, hz'] at hq; cases hq
    · rcases (ho q e).state with e' | ⟨-, e'⟩
      · rw [← e', hq]
      · rw [e'] at hq; cases hq

lemma View.sound_dispatch (v : View c (.dispatch p) s s') (h : Sound s) : Sound s' := by
  obtain ⟨hm, hcp', hm'⟩ : (s.cpus c).mode.place = .off ∧ (s'.cpus c).proc = some p ∧
      (s'.cpus c).mode.place = .on := by
    cases v.cpu with
    | stay h1 => exact absurd rfl (h1 p)
    | dispatch hm hp hm' => exact ⟨hm, hp, hm'⟩
  obtain ⟨f, hr, hf, hs, hk⟩ : ∃ f, (s.ker.procs p).state = .RUNNABLE ∧
      Frame (s.ker.procs p) (f (s.ker.procs p)) ∧ (f (s.ker.procs p)).state = .RUNNING ∧
      s'.ker = s.ker.upd p f := by
    cases v.life with | dispatch hr hf hs hk => exact ⟨_, hr, hf, hs, hk⟩
  have eqp : s'.ker.procs p = f (s.ker.procs p) := by rw [hk, upd_same]
  have eqo : ∀ q, q ≠ p → s'.ker.procs q = s.ker.procs q := by
    intro q hq
    rw [hk, upd_of_ne _ _ hq]
  -- `p` is RUNNABLE, so it is on no CPU yet
  have hfree : ∀ c', (s.cpus c').proc ≠ some p := by
    intro c' hp
    by_cases e : c' = c
    · rw [e, h.off_none hm] at hp; cases hp
    · rw [h.others_running (v.held rfl) e hp] at hr; cases hr
  have hold : ∀ c' q, c' ≠ c → (s'.cpus c').proc = some q → (s.cpus c').proc = some q ∧ q ≠ p := by
    intro c' q e hq
    rw [v.others c' e] at hq
    exact ⟨hq, fun e' => hfree c' (e' ▸ hq)⟩
  refine ⟨v.lock_step h.lock, fun c' => ?_, fun c1 c2 q h1 h2 => ?_, fun q hq => ?_, ?_⟩
  · by_cases e : c' = c
    · subst e
      unfold PlaceOk
      rw [hm']
      exact ⟨p, hcp', by rw [eqp, hs]⟩
    · rw [v.others c' e]
      refine (h.place c').mono fun q hq => ?_
      rw [eqo q fun e' => hfree c' (e' ▸ hq)]
      exact Calm.refl _
  · by_cases e1 : c1 = c <;> by_cases e2 : c2 = c
    · rw [e1, e2]
    · rw [e1, hcp'] at h1
      exact absurd (some.inj h1).symm (hold c2 q e2 h2).2
    · rw [e2, hcp'] at h2
      exact absurd (some.inj h2).symm (hold c1 q e1 h1).2
    · exact h.inj c1 c2 q (hold c1 q e1 h1).1 (hold c2 q e2 h2).1
  · by_cases e : q = p
    · rw [e]; exact ⟨c, hcp'⟩
    · rw [eqo q e] at hq
      obtain ⟨c', hc'⟩ := h.running q hq
      refine ⟨c', ?_⟩
      have hne : c' ≠ c := by
        rintro rfl
        rw [h.off_none hm] at hc'
        cases hc'
      rw [v.others c' hne, hc']
  · refine h.fork.mono (fun q => ?_) (fun q hq => ?_) (fun q np hc => ?_)
    · by_cases e : q = p
      · rw [e, eqp, hf.fork]
      · rw [eqo q e]
    · have e : q ≠ p := by rintro rfl; rw [hr] at hq; cases hq
      rwa [eqo q e]
    · by_cases e : q = p
      · rw [e, eqp]; exact .inr (.inl hs)
      · rw [eqo q e]; exact h.fork.alive q np hc

lemma View.keeps_sound (v : View c kd s s') (h : Sound s) : Sound s' := by
  cases kd with
  | calm => exact v.sound_calm h
  | dispatch => exact v.sound_dispatch h
  | leave => exact v.sound_leave h
  | fork => exact v.sound_fork h
  | reap => exact v.sound_reap h

/-- **Every step keeps the machine sound.** -/
theorem step_sound (h : Sound s) (ht : step pol s a = .ok s') : Sound s' := by
  obtain ⟨c, kd, v⟩ := (step_trans ht).view
  exact v.keeps_sound h

lemma Boot.sound (h : Boot npages need s) : Sound s := by
  obtain ⟨-, rfl⟩ := h.eq
  have idle : ∀ p, ((firstKernel npages need).procs p).fork = .none ∧
      ((firstKernel npages need).procs p).state ≠ .RUNNING := by
    intro p
    by_cases e : p = 0
    · rw [e, firstKernel_init]; exact ⟨rfl, nofun⟩
    · rw [firstKernel_others _ _ e]; exact ⟨rfl, nofun⟩
  have child : ∀ p np, ((firstKernel npages need).procs p).fork.child ≠ some np := by
    intro p np
    rw [(idle p).1]
    nofun
  refine ⟨fun c => ⟨nofun, nofun⟩, fun c => rfl, nofun, fun p hp => absurd hp (idle p).2, ?_⟩
  exact ⟨fun p np hc => absurd hc (child p np), fun p np hc => absurd hc (child p np),
    fun p p' np hc => absurd hc (child p np)⟩

/-- **Every state that a run reaches is sound.** -/
theorem Run.sound {tr : Trace n} (hb : Boot npages need s) (h : Run pol s tr s') : Sound s' :=
  h.invariant Sound (fun _ _ => True) (fun _ _ _ hi _ hs => step_sound hi hs) (fun _ _ => trivial) hb.sound

end Xv6
