import Xv6.Proc.Family

/-!
# Calls that name a process by its pid (`kill`, `set_priority`, `getpinfo`)

All three take the first slot of the table with the given pid, whatever its state. The pid of a
free slot is 0 when it was never used or its process was reaped, and the pid of the child when a
`fork` gave it back. So the calls reach only slots in use exactly when the first slot with that
pid is in use (`reaches_iff`).

`allocproc` does not reset `killed`: a child starts with the flag that `kill` left in its slot since
the slot was last reaped (`Run.killed`).
-/

namespace Xv6
open Lib Function List

variable {n : Nat} {pol : Policy} {s s' : State n} {k k' : Kernel}

/-- `struct proc_stat`, without `active`, which is never set. -/
structure ProcStat where
  pid : Int
  runtime : Int
  num_run : Int
  current_queue : Int
  ticks : Fin 5 → Int

namespace Kernel

variable {pid : Int} {p : Slot}

/-- the first slot with this pid. -/
def lookup (k : Kernel) (pid : Int) : Option Slot := k.find (fun r => r.pid = pid)

/-- what `kill(pid)` returns. -/
def killRet (k : Kernel) (pid : Int) : Int := if (k.lookup pid).isSome then 0 else -1

/-- what `set_priority(pid, priority)` returns. -/
def setPriorityRet (k : Kernel) (pid priority : Int) : Int :=
  if priority < 0 ∨ 100 < priority then -2 else if (k.lookup pid).isSome then 24 else -1

/-- `getpinfo(p_proc, pid)`: what it stores into `*p_proc`, if anything, and what it returns. -/
def getpinfo (k : Kernel) (pid : Int) : Option ProcStat × Int :=
  match k.lookup pid with
  | some p =>
    let r := k.procs p
    (some ⟨r.pid, r.rtime, r.num_run, r.current_queue, r.total_ticks⟩, pid)
  | none => (none, -1)

/-- some slot that is not UNUSED has this pid. -/
def InUse (k : Kernel) (pid : Int) : Prop := ∃ p, (k.procs p).state ≠ .UNUSED ∧ (k.procs p).pid = pid

instance (k : Kernel) (pid : Int) : Decidable (k.InUse pid) :=
  inferInstanceAs (Decidable (∃ p : Slot, (k.procs p).state ≠ .UNUSED ∧ (k.procs p).pid = pid))

/-- the three calls succeed exactly for the pids in use, and leave every UNUSED slot alone. -/
structure ReachesLive (k : Kernel) (pid : Int) : Prop where
  kill : k.killRet pid = 0 ↔ k.InUse pid
  priority : ∀ v, 0 ≤ v → v ≤ 100 → (k.setPriorityRet pid v = 24 ↔ k.InUse pid)
  pinfo : (k.getpinfo pid).1.isSome = true ↔ k.InUse pid
  killKeeps : ∀ q, (k.procs q).state = .UNUSED → (k.kill pid).procs q = k.procs q
  priorityKeeps : ∀ v, 0 ≤ v → v ≤ 100 → ∀ q, (k.procs q).state = .UNUSED → (k.setPriority pid v).procs q = k.procs q

/-- `p` has this pid and no slot before it has. -/
def FirstWith (k : Kernel) (pid : Int) (p : Slot) : Prop :=
  (k.procs p).pid = pid ∧ ∀ q < p, (k.procs q).pid ≠ pid

/-! ## the first slot with a pid -/

lemma lookup_pid (h : k.lookup pid = some p) : (k.procs p).pid = pid := by
  simpa using find_some h

lemma lookup_eq_some : k.lookup pid = some p ↔ k.FirstWith pid p := by
  unfold lookup find FirstWith
  rw [find?_eq_some_iff_getElem]
  constructor
  · intro ⟨hp, i, hi, e, hj⟩
    have hpi : p.val = i := by simp [← e]
    refine ⟨by simpa using hp, fun q hq => ?_⟩
    have := hj q.val (by rw [← hpi]; exact hq)
    simpa using this
  · intro ⟨hp, hq⟩
    refine ⟨by simpa using hp, p.val, by simp, by simp, fun j hj => ?_⟩
    simpa using hq ⟨j, hj.trans p.isLt⟩ hj

lemma lookup_none (h : k.lookup pid = none) : ¬ k.InUse pid := by
  intro hu
  obtain ⟨p, -, hp⟩ := hu
  have := find?_eq_none.mp h p (mem_finRange p)
  simp [hp] at this

lemma kill_of_ne {q : Slot} (h : k.lookup pid = some p) (hq : q ≠ p) : (k.kill pid).procs q = k.procs q := by
  unfold lookup at h
  unfold kill
  rw [h]
  exact upd_of_ne _ _ hq

lemma setPriority_eq {v : Int} (h : k.lookup pid = some p) (h0 : 0 ≤ v)
    (h1 : v ≤ 100) : k.setPriority pid v = k.upd p fun r => { r with priority := v } := by
  unfold lookup at h
  unfold setPriority
  rw [if_neg (by omega), h]

lemma reaches_of_none (h : k.lookup pid = none) : k.ReachesLive pid := by
  have hu := lookup_none h
  refine ⟨⟨fun e => ?_, fun e => absurd e hu⟩, fun v h0 h1 => ⟨fun e => ?_, fun e => absurd e hu⟩,
    ⟨fun e => ?_, fun e => absurd e hu⟩, fun q _ => ?_, fun v h0 h1 q _ => ?_⟩
  · rw [killRet, h] at e; cases e
  · rw [setPriorityRet, h, if_neg (by omega)] at e; cases e
  · rw [getpinfo, h] at e; cases e
  · unfold lookup at h
    rw [kill, h]
  · unfold lookup at h
    rw [setPriority, h, if_neg (by omega)]

/-- **the calls reach only processes exactly when the first slot with the pid is in use.** -/
theorem reaches_iff (k : Kernel) (pid : Int) :
    k.ReachesLive pid ↔ ∀ p, k.FirstWith pid p → (k.procs p).state ≠ .UNUSED := by
  cases h : k.lookup pid with
  | none =>
    refine ⟨fun _ p hp => ?_, fun _ => reaches_of_none h⟩
    rw [lookup_eq_some.mpr hp] at h
    cases h
  | some p =>
    have hfirst := lookup_eq_some.mp h
    constructor
    · intro hr q hq hu
      obtain rfl : p = q := Option.some.inj (h.symm.trans (lookup_eq_some.mpr hq))
      -- a priority other than the one that the slot holds
      obtain ⟨v, h0, h1, hv⟩ : ∃ v : Int, 0 ≤ v ∧ v ≤ 100 ∧ v ≠ (k.procs p).priority := by
        by_cases e : (k.procs p).priority = 0
        · exact ⟨1, by omega, by omega, by omega⟩
        · exact ⟨0, by omega, by omega, fun e' => e e'.symm⟩
      have hk := hr.priorityKeeps v h0 h1 p hu
      rw [setPriority_eq h h0 h1, upd_same] at hk
      exact hv (congrArg Proc.priority hk)
    · intro hp
      have hs := hp p hfirst
      have hu : k.InUse pid := ⟨p, hs, lookup_pid h⟩
      refine ⟨⟨fun _ => hu, fun _ => ?_⟩, fun v h0 h1 => ⟨fun _ => hu, fun _ => ?_⟩,
        ⟨fun _ => hu, fun _ => ?_⟩, fun q hq => ?_, fun v h0 h1 q hq => ?_⟩
      · rw [killRet, h]; rfl
      · rw [setPriorityRet, h, if_neg (by omega)]; rfl
      · rw [getpinfo, h]; rfl
      · exact kill_of_ne h fun e => hs (e ▸ hq)
      · rw [setPriority_eq h h0 h1]
        exact upd_of_ne _ _ fun e => hs (e ▸ hq)

end Kernel

/-! ## the flag that a child starts with -/

/-- `killed` of the slot `q` after a step. -/
def Event.killed (q : Slot) : Event → Bool → Bool
  | .kill q', b => if q' = q then true else b
  | .reap _ z _, b => if z = q then false else b
  | _, b => b

lemma Turn.killed {ev : Event} (h : Turn k k' ev) (q : Slot) :
    (k'.core q).killed = ev.killed q (k.core q).killed := by
  have one : ∀ {p r}, k'.core = update k.core p r → r.killed = (k.core p).killed →
      (k'.core q).killed = (k.core q).killed := fun hk hr =>
    Kernel.core_rel (R := fun r r' => r'.killed = r.killed) (fun _ => rfl) hk hr q
  have two : ∀ {p np r pc}, k.ForkTo k' p np r pc → r.killed = (k.core np).killed →
      (k'.core q).killed = (k.core q).killed := fun hk hr =>
    hk.rel (R := fun r r' => r'.killed = r.killed) (fun _ => rfl) hr rfl q
  cases h.fate with
  | wake hk =>
    obtain ⟨st, e, -⟩ := (hk q).eq
    rw [e]; rfl
  | unchan hr hk | dispatch hr hk | yield hr hk | sleep hr hk | waitBlock hr hz hk | charge hr hk => exact one hk rfl
  | @exit p hr hf hi hk =>
    by_cases e : q = p
    · obtain ⟨par, e'⟩ := hk.self
      rw [e, e']; rfl
    · obtain ⟨st, par, e', -⟩ := hk.others q e
      rw [e']; rfl
  | forkFail hr hf hk | forkStack hr hf hk | forkCopy hr hf hk | alloc hr hf hu hk | create hr hf hk
  | ready hr hf hk => exact two hk rfl
  | tick hk => rw [hk]; rfl
  | @kill q' hk =>
    show _ = if q' = q then true else (k.core q).killed
    rw [hk, update_apply]
    by_cases e : q = q'
    · rw [if_pos e, if_pos e.symm]
    · rw [if_neg e, if_neg fun e' => e e'.symm]
  | @reap p z x ch hr hp hz hk =>
    show _ = if z = q then false else (k.core q).killed
    rw [hk, update_apply]
    by_cases e : q = z
    · rw [if_pos e, if_pos e.symm]
    · rw [if_neg e, if_neg fun e' => e e'.symm, update_apply]
      split
      · next e' => rw [e']
      · rfl

/-- the step frees the slot `q` in `wait` or `waitx`. -/
def frees (q : Slot) (e : State n × Action n) : Bool :=
  match event e.1 e.2 with
  | .reap _ z _ => z = q
  | _ => false

/-- **`killed` is set exactly when a `kill` has reached the slot since it was last reaped.** -/
theorem Run.killed {npages need : Nat} {tr : Trace n} (hb : Boot npages need s)
    (h : Run pol s tr s') (q : Slot) : (s'.ker.procs q).killed = true ↔
      ∃ e ∈ since (frees q) tr, event e.1 e.2 = .kill q := by
  refine h.history (fun tr t => (t.ker.procs q).killed = true ↔
    ∃ e ∈ since (frees q) tr, event e.1 e.2 = .kill q) ?_ ?_
  · obtain ⟨-, rfl⟩ := hb.eq
    have hk : ((firstKernel npages need).procs q).killed = false := by
      by_cases e : q = 0
      · rw [e, firstKernel_init]
      · rw [firstKernel_others _ _ e]
    show ((firstKernel npages need).procs q).killed = true ↔ _
    rw [hk]
    simp
  · intro tr u a u' hr ih hst
    have ht : (u'.ker.procs q).killed = (event u a).killed q (u.ker.procs q).killed :=
      (step_turn (Run.sound hb hr) hst).killed q
    rw [since_concat, ht]
    have hfrees : frees q (u, a) = true ↔ ∃ p x, event u a = .reap p q x := by
      unfold frees
      cases event u a <;> simp
    by_cases hf : frees q (u, a) = true
    · obtain ⟨p, x, e⟩ := hfrees.mp hf
      rw [if_pos hf, e]
      simp [Event.killed]
    · rw [if_neg hf]
      have hmem : (∃ e ∈ since (frees q) tr ++ [(u, a)], event e.1 e.2 = .kill q) ↔
          (u.ker.procs q).killed = true ∨ event u a = .kill q := by
        rw [ih]
        simp only [mem_append, mem_singleton]
        constructor
        · intro ⟨e, he, hk⟩
          rcases he with he | he
          · exact .inl ⟨e, he, hk⟩
          · rw [he] at hk; exact .inr hk
        · intro he
          rcases he with ⟨e, he, hk⟩ | he
          · exact ⟨e, .inl he, hk⟩
          · exact ⟨(u, a), .inr rfl, he⟩
      rw [hmem]
      cases he : event u a with
      | kill q' =>
        show (if q' = q then true else _) = true ↔ _
        by_cases e : q' = q
        · rw [if_pos e, e]; simp
        · rw [if_neg e]; simp [e]
      | reap p z x =>
        have hz : z ≠ q := fun e => hf (hfrees.mpr ⟨p, x, by rw [he, e]⟩)
        show (if z = q then false else _) = true ↔ _
        rw [if_neg hz]; simp
      | _ => simp [Event.killed]

/-- **Calls by pid, and the flag of a new process.** In every state that a run reaches, and for
every pid, `kill`, `set_priority` and `getpinfo` succeed exactly for the pids in use and change no
free slot, if and only if the first slot with that pid is in use. A child leaves `fork` with
`killed` clear if and only if no `kill` has reached its slot since the slot was last reaped. Runs end
at `Stop.index`. -/
theorem pid_calls_reach_live_iff {npages need : Nat} {tr : Trace n}
    (hb : Boot npages need s) (h : Run pol s tr s') :
    (∀ pid, s'.ker.ReachesLive pid ↔ ∀ p, s'.ker.FirstWith pid p → (s'.ker.procs p).state ≠ .UNUSED) ∧
    (∀ a s'' np, step pol s' a = .ok s'' → event s' a = .ready np →
      ((s''.ker.procs np).killed = false ↔ ∀ e ∈ since (frees np) tr, event e.1 e.2 ≠ .kill np)) := by
  refine ⟨fun pid => s'.ker.reaches_iff pid, fun a s'' np hst he => ?_⟩
  have hk : (s''.ker.procs np).killed = (s'.ker.procs np).killed := by
    have := (step_turn (Run.sound hb h) hst).killed np
    rw [he] at this
    exact this
  rw [hk, ← Bool.not_eq_true, Run.killed hb h np]
  push Not
  rfl

/-- init forks a child: `kill(1)` reaches init, and the child starts with `killed` clear. -/
theorem pid_calls_reach_live_iff_fork : ∃ (s s' s'' : State 1) (tr : Trace 1),
    Boot 100 0 s ∧ Run .DEFAULT s tr s' ∧ step .DEFAULT s' (.sys 0 (.fork 0)) = .ok s'' ∧
      event s' (.sys 0 (.fork 0)) = .ready 1 ∧ s'.ker.ReachesLive 1 ∧
      (s''.ker.procs 1).killed = false := by
  obtain ⟨s, t, tr, hb, h, hno, hready, hpid, hrun, hnext⟩ : ∃ (s t : State 1) (tr : _), Boot 100 0 s ∧
      Run .DEFAULT s tr t ∧ (∀ e ∈ tr, event e.1 e.2 ≠ .kill 1) ∧
      event t (.sys 0 (.fork 0)) = .ready 1 ∧ (t.ker.procs 0).pid = 1 ∧
      (t.ker.procs 0).state = .RUNNING ∧ stepTo (step .DEFAULT) t (.sys 0 (.fork 0)) (fun _ => true) = true :=
    Boot.exists_run (by decide) (turns 3 ++ replicate 4 (.sys 0 (.fork 0))) (by decide +kernel)
  obtain ⟨t', hst, -⟩ := of_stepTo hnext
  have hboth := pid_calls_reach_live_iff hb h
  refine ⟨s, t, t', tr, hb, h, hst, hready, (hboth.1 1).mpr fun p hp => ?_,
    (hboth.2 _ t' 1 hst hready).mpr fun e he => hno e (mem_of_mem_since he)⟩
  -- init is the first slot of all
  have hp0 : p = 0 := by
    by_contra hne
    exact hp.2 0 (Fin.pos_of_ne_zero hne) hpid
  rw [hp0, hrun]
  decide

/-- init calls `kill(0)`: the call succeeds though no process has the pid 0, and sets the flag of
the free slot 1, from which the next child starts with `killed` set. -/
theorem kill_zero_marks_next_child : ∃ (s s' s'' s3 : State 1) (tr tr' : Trace 1),
    Boot 100 0 s ∧ Run .DEFAULT s tr s' ∧ step .DEFAULT s' (.sys 0 (.kill 0)) = .ok s'' ∧
      Run .DEFAULT s'' tr' s3 ∧
      s'.ker.killRet 0 = 0 ∧ ¬ s'.ker.InUse 0 ∧
      (s'.ker.procs 1).state = .UNUSED ∧ (s'.ker.procs 1).killed = false ∧
      (s''.ker.procs 1).state = .UNUSED ∧ (s''.ker.procs 1).killed = true ∧
      (s3.ker.procs 1).state = .RUNNABLE ∧ (s3.ker.procs 1).pid = 2 ∧
      (s3.ker.procs 1).killed = true := by
  obtain ⟨s, t, tr, hb, h, hret, huse, hfree, hclear, hkill⟩ : ∃ (s t : State 1) (tr : _), Boot 100 0 s ∧
      Run .DEFAULT s tr t ∧ t.ker.killRet 0 = 0 ∧ ¬ t.ker.InUse 0 ∧ (t.ker.procs 1).state = .UNUSED ∧
      (t.ker.procs 1).killed = false ∧ stepTo (step .DEFAULT) t (.sys 0 (.kill 0)) (fun t' =>
        (t'.ker.procs 1).state = .UNUSED ∧ (t'.ker.procs 1).killed = true ∧
        runsTo (step .DEFAULT) t' forkAll (fun _ u => (u.ker.procs 1).state = .RUNNABLE ∧
          (u.ker.procs 1).pid = 2 ∧ (u.ker.procs 1).killed = true) = true) = true :=
    Boot.exists_run (by decide) (turns 3) (by decide +kernel)
  obtain ⟨t', hst, ht'⟩ := of_stepTo hkill
  obtain ⟨hfree', hset, hfork⟩ := of_decide_eq_true ht'
  obtain ⟨tr', u, hu, hlast⟩ := Path.of_labels _ hfork
  exact ⟨s, t, t', u, tr, tr', hb, h, hst, hu, hret, huse, hfree, hclear, hfree', hset, hlast⟩

end Xv6
