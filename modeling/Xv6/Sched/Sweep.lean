import Xv6.Queue.Arrays

/-!
# The sweep over the five queues on one CPU

A pass of the MLFQ `scheduler` is ONE sweep: the loops over `q0 .. q4` follow each other, and a
process that runs is dispatched from the middle of it. `Passed s q`: the process `q` stands at a
place that the sweep has left behind. The scheduler never goes back in a pass, so it runs a lower
queue over a higher one exactly when somebody that it has passed is RUNNABLE.

`SweepMove` is what a step does to the place of the sweep and to the arrays. A sweep stays `Clean`
(nobody it has passed is RUNNABLE) as long as (`SweepOk`)

* nobody is made RUNNABLE at a place that was passed;
* the entry that the cursor steps over when a process comes back is not RUNNABLE: this is the process
  itself if its slice is not over, and the entry behind it, which slides under the cursor, if it is;
* `wait` takes no entry out below the cursor.

`init_yields_under_q1` is a run in which the second fails.
-/

namespace Xv6
open Lib

variable {s s' : State 1} {a : Action 1} {k k' : Kernel} {l : Option (Fin 1)}

/-- a pass is under way. -/
def Sweeping (s : State 1) : Prop := (s.cpus 0).mode = .scan ∨ (s.cpus 0).proc ≠ none

/-- `q` stands in a queue above the one that is swept, or below the cursor. -/
def Passed (s : State 1) (q : Slot) : Prop :=
  (∃ j, j < (s.cpus 0).lvl ∧ q ∈ s.ker.lists j) ∨
    (s.cpus 0).lvl ≠ 4 ∧ ∃ t, t < (s.cpus 0).i ∧
      (t : Int) ≤ (s.ker.queue (s.cpus 0).lvl).top ∧
      (s.ker.queue (s.cpus 0).lvl).cell t = some q

instance (s : State 1) : Decidable (Sweeping s) := inferInstanceAs (Decidable (_ ∨ _))

instance (s : State 1) (q : Slot) : Decidable (Passed s q) := inferInstanceAs (Decidable (_ ∨ _))

/-! ## what a step does to the sweep -/

inductive SweepMove (s : State 1) (a : Action 1) (s' : State 1) : Prop
  | off (h : ¬ Sweeping s')
  | start (hl : (s'.cpus 0).lvl = 0) (hi : (s'.cpus 0).i = 0)
  | stay (hs : Sweeping s) (hq : s'.ker.queue = s.ker.queue) (hl : (s'.cpus 0).lvl = (s.cpus 0).lvl)
      (hi : (s'.cpus 0).i = (s.cpus 0).i)
  | skip {p : Slot} (hs : Sweeping s) (he : examined .MLFQ s 0 = some p)
      (hr : (s.ker.procs p).state ≠ .RUNNABLE) (hk : s'.ker = s.ker)
      (hl : (s'.cpus 0).lvl = (s.cpus 0).lvl) (hi : (s'.cpus 0).i = (s.cpus 0).i + 1)
  | next (hs : Sweeping s) (ht : ¬ ((s.cpus 0).i : Int) ≤ (s.ker.queue (s.cpus 0).lvl).top)
      (hl4 : (s.cpus 0).lvl ≠ 4) (hk : s'.ker = s.ker)
      (hl : (s'.cpus 0).lvl = (s.cpus 0).lvl + 1) (hi : (s'.cpus 0).i = 0)
  | back {m : Slot} (hs : Sweeping s) (ha : a = .cpu 0) (hm : (s.cpus 0).mode = .back)
      (hp : (s.cpus 0).proc = some m)
      (hk : s.ker.afterSwtch (s.cpus 0).lvl (s.cpus 0).i m = .ok s'.ker)
      (hl : (s'.cpus 0).lvl = (s.cpus 0).lvl) (hi : (s'.cpus 0).i = (s.cpus 0).i + 1)
  | alloc {np : Slot} {q : ArrQueue Slot} (hs : Sweeping s)
      (hq : (s.ker.queue 0).push NPROC np = some q)
      (hq' : s'.ker.queue = (s.ker.setQueue 0 q).queue) (hn : (s'.ker.procs np).state = .EMBRYO)
      (hl : (s'.cpus 0).lvl = (s.cpus 0).lvl) (hi : (s'.cpus 0).i = (s.cpus 0).i)
  | reap {z : Slot} (hs : Sweeping s) (hp : (s.cpus 0).proc ≠ none)
      (ha : reaps s a = some (z, false))
      (hq : s'.ker.queue = (s.ker.remProcess (s.ker.procs z).pid (s.ker.procs z).current_queue).queue)
      (hl : (s'.cpus 0).lvl = (s.cpus 0).lvl) (hi : (s'.cpus 0).i = (s.cpus 0).i)

lemma sweep_stay {c : Fin 1} {k : Kernel} {cpu : Cpu}
    (hq : k.queue = s.ker.queue) (hp : cpu.proc = (s.cpus c).proc) (hl : cpu.lvl = (s.cpus c).lvl)
    (hi : cpu.i = (s.cpus c).i) (hm : cpu.mode ≠ .scan) : SweepMove s a (s.next c k cpu l) := by
  obtain rfl : c = 0 := Subsingleton.elim _ _
  by_cases e : (s.cpus 0).proc = none
  · apply SweepMove.off
    unfold Sweeping
    rw [next_same, not_or, not_not]
    exact ⟨hm, hp.trans e⟩
  · exact .stay (.inr e) hq (by rw [next_same]; exact hl) (by rw [next_same]; exact hi)

lemma sweep_off {c : Fin 1} {k : Kernel} {cpu : Cpu} (hp : cpu.proc = none)
    (hm : cpu.mode ≠ .scan) : SweepMove s a (s.next c k cpu l) := by
  obtain rfl : c = 0 := Subsingleton.elim _ _
  apply SweepMove.off
  unfold Sweeping
  rw [next_same, not_or, not_not]
  exact ⟨hm, hp⟩

lemma Kernel.remProcess_congr (hq : k'.queue = k.queue)
    (hp : ∀ e, (k'.procs e).pid = (k.procs e).pid) (pid curq : Int) :
    (k'.remProcess pid curq).queue = (k.remProcess pid curq).queue := by
  unfold remProcess
  cases queueNo curq with
  | none => exact hq
  | some l =>
    show Function.update k'.queue l _ = Function.update k.queue l _
    rw [hq]
    simp only [hp]

/-- **Every step of a sound machine moves the sweep in one of these ways.** -/
theorem step_sweep (hs : Sound s) (h : step .MLFQ s a = .ok s') : SweepMove s a s' := by
  have zero : ∀ c : Fin 1, c = 0 := fun c => Subsingleton.elim _ _
  have scanning : ∀ {c : Fin 1}, (s.cpus c).mode = .scan → Sweeping s := by
    intro c hm
    rw [zero c] at hm
    exact .inl hm
  have running : ∀ {c : Fin 1} {p : Slot}, (s.cpus c).proc = some p → Sweeping s := by
    intro c p hp
    rw [zero c] at hp
    exact .inr (by rw [hp]; nofun)
  cases step_trans h with
  | @begin c hm | @ageKeep c l i p hm | @ageUp c l i p k hm | @scanEnd c hm =>
    exact sweep_off (hs.off_none (by rw [hm]; rfl)) nofun
  | @ageEnd c l i hm =>
    obtain rfl := zero c
    have hp := hs.off_none (show (s.cpus 0).mode.place = .off by rw [hm]; rfl)
    unfold ageNext
    split
    · exact .start (by rw [next_same]) (by rw [next_same])
    · exact sweep_off hp nofun
  | @scanSkip c p hm he hr =>
    obtain rfl := zero c
    exact .skip (scanning hm) he hr rfl (by rw [next_same]) (by rw [next_same])
  | @scanNext c hm hpol ht hl =>
    obtain rfl := zero c
    exact .next (scanning hm) ht hl rfl (by rw [next_same]) (by rw [next_same])
  | @runQueue c p hm =>
    obtain rfl := zero c
    exact .stay (scanning hm) rfl (by rw [next_same]) (by rw [next_same])
  | runTable hm hpol | backTable hm hpol => exact absurd rfl hpol
  | @backQueue c m k hm hpol hp hk =>
    obtain rfl := zero c
    exact .back (running hp) rfl hm hp hk (by rw [next_same]) (by rw [next_same])
  | resume | resumeSleep | sleep | timer | timerOther | tickWake
  | tickIdle | yield => exact sweep_stay rfl rfl rfl rfl nofun
  | @reap _ c p z x k k' hw hz hk =>
    obtain rfl := zero c
    obtain ⟨-, -, -, -, -, -, hq, -⟩ := Kernel.reap_ok hk
    cases x with
    | true =>
      rw [if_neg fun e => nomatch e.2] at hq
      exact sweep_stay (hq.trans hw.still.queue) rfl rfl rfl nofun
    | false =>
      rw [if_pos ⟨rfl, rfl⟩, Kernel.remProcess_congr hw.still.queue fun e => (hw.calm.procs e).pid,
        (hw.calm.procs z).pid, hw.still.cq z] at hq
      exact .reap (running hw.proc) (by rw [hw.proc]; nofun) (hw.reaps hz) hq (by rw [next_same]) (by rw [next_same])
  | waitFail hw | waitBlock hw => exact sweep_stay hw.still.queue rfl rfl rfl nofun
  | @fork c p need k hm hp hl hk =>
    obtain rfl := zero c
    have hmode : (s.cpus 0).mode ≠ .scan := by rw [hm]; nofun
    rcases (Kernel.forkStep_case hk).rest hs.fork with ⟨np, q, hf, hn, hu, hq, rfl⟩ | hr
    · exact .alloc (running hp) hq rfl (alloced s.ker p np q).state (by rw [next_same]) (by rw [next_same])
    · exact sweep_stay hr.still.queue rfl rfl rfl hmode
  | exit hm hp hf hl hk => exact sweep_stay (Kernel.stillTo_exit hk).queue rfl rfl rfl nofun
  | kill hm =>
    exact sweep_stay (Kernel.stillTo_kill ..).queue rfl rfl rfl (by rw [hm]; nofun)
  | wakeup hm => exact sweep_stay rfl rfl rfl rfl (by rw [hm]; nofun)
  | setPriority hm =>
    exact sweep_stay (Kernel.stillTo_setPriority ..).queue rfl rfl rfl (by rw [hm]; nofun)
  | intr hm => exact sweep_stay rfl rfl rfl rfl (by rcases hm with e | e <;> rw [e] <;> nofun)
  | tickCharge hm hp hk => exact sweep_stay (Kernel.charge_still hk).1 rfl rfl rfl nofun
  | trapEnd =>
    refine sweep_stay rfl rfl rfl rfl ?_
    unfold Cpu.afterTrap
    split <;> nofun

/-! ## clean sweeps -/

/-- the step makes `q` RUNNABLE. -/
def wakes (s : State 1) (a : Action 1) (q : Slot) : Bool :=
  match step .MLFQ s a with
  | .ok s' => (s.ker.procs q).state ≠ .RUNNABLE && (s'.ker.procs q).state = .RUNNABLE
  | .error _ => false

/-- the index over which the cursor steps when `m` comes back. -/
def stepped (s : State 1) (m : Slot) : Nat :=
  if s.ker.sliceOver (s.cpus 0).lvl m = true then (s.cpus 0).i + 1 else (s.cpus 0).i

/-- the steps that leave nobody behind. -/
structure SweepOk (s : State 1) (a : Action 1) : Prop where
  wake : Sweeping s → ∀ q, wakes s a q = true → ¬ Passed s q
  under : ∀ m, a = .cpu 0 → (s.cpus 0).mode = .back → (s.cpus 0).proc = some m →
    (s.cpus 0).lvl ≠ 4 → (stepped s m : Int) ≤ (s.ker.queue (s.cpus 0).lvl).top →
    ∀ q, (s.ker.queue (s.cpus 0).lvl).cell (stepped s m) = some q → (s.ker.procs q).state ≠ .RUNNABLE
  rem : ∀ z, reaps s a = some (z, false) → Clear s (s.ker.procs z).pid (s.ker.procs z).current_queue

instance (s : State 1) (a : Action 1) : Decidable (SweepOk s a) :=
  decidable_of_iff
    ((Sweeping s → ∀ q, wakes s a q = true → ¬ Passed s q) ∧
      (∀ m, a = .cpu 0 → (s.cpus 0).mode = .back → (s.cpus 0).proc = some m →
        (s.cpus 0).lvl ≠ 4 → (stepped s m : Int) ≤ (s.ker.queue (s.cpus 0).lvl).top →
        ∀ q, (s.ker.queue (s.cpus 0).lvl).cell (stepped s m) = some q → (s.ker.procs q).state ≠ .RUNNABLE) ∧
      ∀ z, reaps s a = some (z, false) → Clear s (s.ker.procs z).pid (s.ker.procs z).current_queue)
    ⟨fun h => ⟨h.1, h.2.1, h.2.2⟩, fun h => ⟨h.wake, h.under, h.rem⟩⟩

/-- nobody that was passed is RUNNABLE. -/
def Clean (s : State 1) : Prop :=
  Sweeping s → ∀ q, Passed s q → (s.ker.procs q).state ≠ .RUNNABLE

lemma Kernel.afterSwtch_queue {l : Fin 5} {i : Nat} {m : Slot} (h : k.afterSwtch l i m = .ok k') :
    (∀ q, (k'.procs q).state = (k.procs q).state) ∧ (∀ j, j < l → k'.queue j = k.queue j) ∧
      (l ≠ 4 → k'.queue l = if k.sliceOver l m = true then (k.queue l).delete i else k.queue l) := by
  have take : ∀ (k1 : Kernel) (q : Slot), ((k1.takeOut l i m).procs q).state = (k1.procs q).state := by
    intro k1 q
    unfold takeOut
    rw [upd_procs]
    split
    · next e => rw [e]; rfl
    · rfl
  unfold afterSwtch at h
  by_cases hl : l = 4
  · rw [if_pos hl] at h
    subst hl
    split at h
    · cases h
      exact ⟨fun _ => rfl, fun j hj => setQueue_of_ne _ _ (ne_of_lt hj), fun e => absurd rfl e⟩
    · split at h
      · cases h
        exact ⟨fun _ => rfl, fun j hj => setQueue_of_ne _ _ (ne_of_lt hj), fun e => absurd rfl e⟩
      · cases h
  · rw [if_neg hl] at h
    split at h
    · next ho =>
      rw [if_pos ho]
      split at h
      · cases h
        exact ⟨take k, fun j hj => setQueue_of_ne _ _ (ne_of_lt hj), fun _ => setQueue_same ..⟩
      · split at h
        · next k1 hk1 =>
          cases h
          obtain ⟨q, -, rfl⟩ := push_ok hk1
          have hlt : l < l + 1 := by rw [Fin.lt_def, succ_val hl]; omega
          refine ⟨fun x => ?_, fun j hj => ?_, fun _ => ?_⟩
          · rw [take, setQueue_procs, upd_procs]
            split
            · next e => rw [e]
            · rfl
          · show ((_ : Kernel).setQueue l _).queue j = k.queue j
            rw [setQueue_of_ne _ _ (ne_of_lt hj), setQueue_of_ne _ _ (ne_of_lt (lt_trans hj hlt))]
            rfl
          · show ((_ : Kernel).setQueue l _).queue l = (k.queue l).delete i
            rw [setQueue_same, setQueue_of_ne _ _ (ne_of_lt hlt)]
            rfl
        · cases h
    · next ho =>
      cases h
      rw [if_neg ho]
      exact ⟨fun _ => rfl, fun _ _ => rfl, fun _ => rfl⟩

lemma Passed.mono {q : Slot} (h : Passed s' q) (hl : (s'.cpus 0).lvl = (s.cpus 0).lvl)
    (hi : (s'.cpus 0).i = (s.cpus 0).i)
    (hup : ∀ j, j < (s.cpus 0).lvl → q ∈ s'.ker.lists j → q ∈ s.ker.lists j)
    (hcell : ∀ t : Nat, (s.cpus 0).lvl ≠ 4 → t < (s.cpus 0).i →
      (t : Int) ≤ (s'.ker.queue (s.cpus 0).lvl).top →
      (s'.ker.queue (s.cpus 0).lvl).cell t = some q →
      (t : Int) ≤ (s.ker.queue (s.cpus 0).lvl).top ∧ (s.ker.queue (s.cpus 0).lvl).cell t = some q) : Passed s q := by
  unfold Passed at h
  rw [hl, hi] at h
  rcases h with ⟨j, hj, hq⟩ | ⟨hl4, t, ht, htop, hc⟩
  · exact .inl ⟨j, hj, hup j hj hq⟩
  · exact .inr ⟨hl4, t, ht, hcell t hl4 ht htop hc⟩

lemma Kernel.remProcess_queue (k : Kernel) (pid curq : Int) (l : Fin 5) :
    (k.remProcess pid curq).queue l = k.queue l ∨ (l.val : Int) = curq ∧
      (k.remProcess pid curq).queue l = (k.queue l).rem fun e => (k.procs e).pid = pid := by
  unfold remProcess
  cases hq : queueNo curq with
  | none => exact .inl rfl
  | some m =>
    by_cases e : l = m
    · subst e
      exact .inr ⟨(queueNo_eq hq).symm, setQueue_same ..⟩
    · exact .inl (setQueue_of_ne _ _ e)

lemma Clear.cell {pid curq : Int} (h : Clear s pid curq) (hp : (s.cpus 0).proc ≠ none) {t : Nat}
    (ht : t < (s.cpus 0).i)
    (htop : (t : Int) ≤ ((s.ker.remProcess pid curq).queue (s.cpus 0).lvl).top) :
    (t : Int) ≤ (s.ker.queue (s.cpus 0).lvl).top ∧
      ((s.ker.remProcess pid curq).queue (s.cpus 0).lvl).cell t = (s.ker.queue (s.cpus 0).lvl).cell t := by
  rcases s.ker.remProcess_queue pid curq (s.cpus 0).lvl with e | ⟨hl, e⟩
  · rw [e] at htop ⊢
    exact ⟨htop, rfl⟩
  · rw [e] at htop ⊢
    refine ⟨Int.le_trans htop (ArrQueue.remLoop_top_le ..), ArrQueue.remLoop_cell _ _ _ _ _ ?_⟩
    intro j _ hj
    rw [Option.any_eq_false]
    intro e he
    rw [decide_eq_false_iff_not]
    exact h 0 hp hl j (by omega) e he

/-- a RUNNABLE process that the sweep has passed after a good step was passed before it. -/
theorem SweepMove.passed {q : Slot} (hm : SweepMove s a s') (hsw : Sweeping s') (hc : SweepOk s a)
    (hq : Passed s' q) (hr : (s'.ker.procs q).state = .RUNNABLE) : Sweeping s ∧ Passed s q := by
  cases hm with
  | off h => exact absurd hsw h
  | start hl hi =>
    unfold Passed at hq
    rw [hl, hi] at hq
    rcases hq with ⟨j, hj, -⟩ | ⟨-, t, ht, -⟩
    · exact absurd hj (Fin.not_lt_zero j)
    · exact absurd ht (Nat.not_lt_zero t)
  | stay hs hqu hl hi =>
    refine ⟨hs, hq.mono hl hi (fun j _ h => ?_) fun t _ _ h1 h2 => ?_⟩
    · rw [Kernel.lists_congr hqu] at h
      exact h
    · rw [hqu] at h1 h2
      exact ⟨h1, h2⟩
  | @skip p hs he hp hk hl hi =>
    refine ⟨hs, ?_⟩
    unfold Passed at hq
    rw [hl, hi, hk] at hq
    rcases hq with hup | ⟨hl4, t, ht, htop, hcell⟩
    · exact .inl hup
    · rcases Nat.lt_or_eq_of_le (Nat.le_of_lt_succ ht) with hlt | rfl
      · exact .inr ⟨hl4, t, hlt, htop, hcell⟩
      · -- the entry that was skipped
        unfold examined at he
        rw [if_pos rfl, if_pos htop, hcell] at he
        rw [hk, Option.some.inj he] at hr
        exact absurd hr hp
  | next hs ht hl4 hk hl hi =>
    refine ⟨hs, ?_⟩
    unfold Passed at hq
    rw [hl, hi, hk] at hq
    rcases hq with ⟨j, hj, hmem⟩ | ⟨-, t, ht', -⟩
    · rw [Fin.lt_def, Kernel.succ_val hl4] at hj
      rcases Nat.lt_or_eq_of_le (Nat.le_of_lt_succ hj) with hlt | heq
      · exact .inl ⟨j, hlt, hmem⟩
      · -- the whole queue has been scanned
        rw [Fin.ext heq] at hmem
        obtain ⟨t, htop, hcell⟩ := ArrQueue.mem_entries.mp hmem
        exact .inr ⟨hl4, t, by omega, htop, hcell⟩
    · exact absurd ht' (Nat.not_lt_zero t)
  | @back m hs ha hmode hp hk hl hi =>
    obtain ⟨hst, hup, hdel⟩ := Kernel.afterSwtch_queue hk
    rw [hst] at hr
    refine ⟨hs, ?_⟩
    unfold Passed at hq
    rw [hl, hi] at hq
    rcases hq with ⟨j, hj, hmem⟩ | ⟨hl4, t, ht, htop, hcell⟩
    · refine .inl ⟨j, hj, ?_⟩
      unfold Kernel.lists at hmem
      rw [hup j hj] at hmem
      exact hmem
    · have hover := hc.under m ha hmode hp hl4
      rw [hdel hl4] at htop hcell
      unfold stepped at hover
      split at htop
      · next ho =>
        rw [if_pos ho] at hcell hover
        change (t : Int) ≤ (s.ker.queue (s.cpus 0).lvl).top - 1 at htop
        change ((s.ker.queue (s.cpus 0).lvl).shift (s.cpus 0).i).cell t = some q at hcell
        rw [ArrQueue.shift_cell] at hcell
        rcases Nat.lt_or_eq_of_le (Nat.le_of_lt_succ ht) with hlt | rfl
        · rw [if_neg (by omega)] at hcell
          exact .inr ⟨hl4, t, hlt, by omega, hcell⟩
        · -- the entry that has slid under the cursor
          rw [if_pos (by omega)] at hcell
          exact absurd hr (hover (by omega) q hcell)
      · next ho =>
        rw [if_neg ho] at hcell hover
        rcases Nat.lt_or_eq_of_le (Nat.le_of_lt_succ ht) with hlt | rfl
        · exact .inr ⟨hl4, t, hlt, htop, hcell⟩
        · exact absurd hr (hover htop q hcell)
  | @alloc np qu hs hpush hqu hn hl hi =>
    have hne : q ≠ np := by
      intro e
      rw [e, hn] at hr
      cases hr
    refine ⟨hs, hq.mono hl hi (fun j _ h => ?_) fun t _ _ h1 h2 => ?_⟩
    · unfold Kernel.lists at h
      rw [hqu] at h
      by_cases e : j = 0
      · rw [e, Kernel.setQueue_same] at h
        rw [e]
        exact (ArrQueue.mem_push hpush h).resolve_right hne
      · rw [Kernel.setQueue_of_ne _ _ e] at h
        exact h
    · rw [hqu] at h1 h2
      by_cases e : (s.cpus 0).lvl = 0
      · rw [e, Kernel.setQueue_same] at h1 h2
        rw [e]
        exact (ArrQueue.push_cell hpush h1 h2).resolve_right hne
      · rw [Kernel.setQueue_of_ne _ _ e] at h1 h2
        exact ⟨h1, h2⟩
  | @reap z hs hp ha hqu hl hi =>
    refine ⟨hs, hq.mono hl hi (fun j _ h => ?_) fun t _ ht h1 h2 => ?_⟩
    · unfold Kernel.lists at h
      rw [hqu] at h
      rcases s.ker.remProcess_queue (s.ker.procs z).pid (s.ker.procs z).current_queue j with
        e | ⟨-, e⟩
      · rw [e] at h
        exact h
      · rw [e] at h
        exact ArrQueue.mem_rem h
    · rw [hqu] at h1 h2
      obtain ⟨htop, hcell⟩ := (hc.rem z ha).cell hp ht h1
      rw [hcell] at h2
      exact ⟨htop, h2⟩

/-- **Good steps keep the sweep clean.** -/
theorem Clean.keep (hs : Sound s) (h : Clean s) (hc : SweepOk s a) (hst : step .MLFQ s a = .ok s') : Clean s' := by
  intro hsw q hq hr
  obtain ⟨hsw0, hq0⟩ := (step_sweep hs hst).passed hsw hc hq hr
  have hw : wakes s a q = true := by
    unfold wakes
    rw [hst]
    simp [h hsw0 q hq0, hr]
  exact hc.wake hsw0 q hw hq0

/-- **No lower queue is run over a higher one** in a pass whose steps are all good: when a process
of `q_k` is dispatched, no entry of `q_j` with `j < k` is RUNNABLE. The run starts at any sound
state between two passes. Runs end at `Stop.index`. -/
theorem upper_queues_first {tr : Trace 1} {x : Slot} (hs : Sound s)
    (h0 : ¬ Sweeping s) (h : Run .MLFQ s tr s') (hc : ∀ e ∈ tr, SweepOk e.1 e.2)
    (hd : dispatched .MLFQ s' (.cpu 0) = some x) :
    (s'.ker.queue (s'.cpus 0).lvl).cell (s'.cpus 0).i = some x ∧
      ∀ j, j < (s'.cpus 0).lvl → ∀ i : Nat, (i : Int) ≤ (s'.ker.queue j).top →
        ∀ q, (s'.ker.queue j).cell i = some q → (s'.ker.procs q).state ≠ .RUNNABLE := by
  obtain ⟨-, hclean⟩ : Sound s' ∧ Clean s' := by
    refine h.invariant (fun s => Sound s ∧ Clean s) SweepOk ?_ hc ⟨hs, fun h => absurd h h0⟩
    intro s a s' ⟨hs, hcl⟩ hc hst
    exact ⟨step_sound hs hst, hcl.keep hs hc hst⟩
  obtain ⟨c, p, e, hm, he, -, hx⟩ := dispatched_some hd
  cases e
  refine ⟨?_, fun j hj i hi q hcell => hclean (.inl hm) q (.inl ⟨j, hj, ?_⟩)⟩
  · unfold examined at he
    rw [if_pos rfl] at he
    split at he
    · rw [hx]; exact he
    · cases he
  · exact ArrQueue.mem_entries.mpr ⟨i, hi, hcell⟩

/-- pid 4 is dispatched from `q1` while everybody in `q0` sleeps. -/
theorem upper_queues_first_q1 : ∃ (s s' : State 1) (tr : Trace 1),
    Boot 100 0 s ∧ Run .MLFQ s tr s' ∧ dispatched .MLFQ s' (.cpu 0) = some 3 ∧
      (s'.cpus 0).lvl = 1 ∧ (s'.ker.queue 0).top = 2 ∧
      ∀ i : Nat, (i : Int) ≤ (s'.ker.queue 0).top → ∀ q, (s'.ker.queue 0).cell i = some q →
        (s'.ker.procs q).state ≠ .RUNNABLE := by
  obtain ⟨s, t, tr, hb, h, hc, hd, hl, htop⟩ : ∃ (s t : State 1) (tr : _), Boot 100 0 s ∧ Run .MLFQ s tr t ∧
      (∀ e ∈ tr, SweepOk e.1 e.2) ∧ dispatched .MLFQ t (.cpu 0) = some 3 ∧ (t.cpus 0).lvl = 1 ∧
      (t.ker.queue 0).top = 2 :=
    Boot.exists_run (by decide) (fourInQ1 ++ turns 1) (by decide +kernel)
  refine ⟨s, t, tr, hb, h, hd, hl, htop, ?_⟩
  exact (upper_queues_first hb.sound (by obtain ⟨-, rfl⟩ := hb.eq; decide) h hc hd).2 0 (by rw [hl]; decide)

/-- init yields on a tick and stays in `q0` (its pid is not above 3); in the same pass pid 4 uses up
its slice of `q0` and is dispatched from `q1`. -/
theorem init_yields_under_q1 : ∃ (s s' : State 1) (tr : Trace 1),
    Boot 100 0 s ∧ Run .MLFQ s tr s' ∧ dispatched .MLFQ s' (.cpu 0) = some 3 ∧
      (s'.cpus 0).lvl = 1 ∧ (s'.ker.queue 1).cell 0 = some 3 ∧
      (0 : Int) ≤ (s'.ker.queue 0).top ∧ (s'.ker.queue 0).cell 0 = some 0 ∧
      (s'.ker.procs 0).state = .RUNNABLE :=
  Boot.exists_run (by decide) (turns 7 ++ forkAll ++ forkAll ++ forkAll ++ tickYield ++ turns 3 ++
    [.sys 0 (.sleep (.addr 1))] ++ turns 3 ++ [.sys 0 (.sleep (.addr 1))] ++ turns 3 ++
    tickYield ++ turns 2) (by decide +kernel)

end Xv6
