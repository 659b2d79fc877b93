import Xv6.Lib.Turns
import Xv6.Queue.Arrays

/-!
# Turns in the lowest queue, on one CPU

The loop over `q4` puts the process that comes back at the end of the array, so as a list `q4` is a
queue whose entries take turns: `turn_move` says that every step is a move of such a queue. Of two
processes that stay in `q4` the one that ran last therefore stands behind the other, and between two
dispatches of `x` the other one is dispatched, PROVIDED the scan has not gone past it when it
dispatches `x` again (`NonePast`).

The scan does go past entries. The rotation moves entry `i + 1` to the place `i`, but `i` is
incremented and the bound is not changed, so that entry is stepped over and the process that has just
run is met once more at the end of the array: `lowest_runs_twice`.
-/

namespace Xv6
open Lib Lib.Turns Function List Kernel

variable {s s' : State 1} {a : Action 1} {t x : Slot} {S : Finset Slot}

/-- the process of `q4` that runs. -/
def lowest (s : State 1) : Option Slot := if (s.cpus 0).lvl = 4 then (s.cpus 0).proc else none

/-- the process that the step dispatches from `q4`. -/
def dispatchedLowest (s : State 1) (a : Action 1) : Option Slot :=
  if (s.cpus 0).lvl = 4 then dispatched .MLFQ s a else none

/-- the processes of `S` are RUNNABLE or RUNNING, none is killed, and each has one entry in `q4`. -/
def Staying (S : Finset Slot) (k : Kernel) : Prop :=
  ∀ q ∈ S, ((k.procs q).state = .RUNNABLE ∨ (k.procs q).state = .RUNNING) ∧
    (k.procs q).killed = false ∧ (k.lists 4).count q = 1

/-- no process of `S` stands in `q4` below the place of the scan. -/
def NonePast (S : Finset Slot) (s : State 1) : Prop :=
  ∀ j, j < (s.cpus 0).i → ∀ q, (s.ker.queue 4).cell j = some q → q ∉ S

instance (S : Finset Slot) (k : Kernel) : Decidable (Staying S k) :=
  inferInstanceAs (Decidable (∀ _, _))

instance (S : Finset Slot) (s : State 1) : Decidable (NonePast S s) :=
  inferInstanceAs (Decidable (∀ _, _))

lemma Staying.mem {k : Kernel} {q : Slot} (h : Staying S k) (hq : q ∈ S) : q ∈ k.lists 4 := by
  apply count_pos_iff.mp
  rw [(h q hq).2.2]
  exact Nat.one_pos

/-! ## every step is a move of the queue -/

lemma lowest_none (h : (s.cpus 0).proc = none) : lowest s = none := by
  unfold lowest
  rw [h]
  exact ite_self none

lemma lowest_congr (hp : (s'.cpus 0).proc = (s.cpus 0).proc)
    (hl : (s.cpus 0).proc ≠ none → (s'.cpus 0).lvl = (s.cpus 0).lvl) : lowest s' = lowest s := by
  by_cases e : (s.cpus 0).proc = none
  · rw [lowest_none e, lowest_none (hp.trans e)]
  · unfold lowest
    rw [hl e, hp]

section
variable (ha : s.ker.AllFull) (h : dispatchedLowest s a = some x)
include ha h

lemma dispatchedLowest_some :
    a = .cpu 0 ∧ (s.cpus 0).lvl = 4 ∧ (s.cpus 0).mode = .scan ∧ examined .MLFQ s 0 = some x ∧
      (s.ker.procs x).state = .RUNNABLE ∧ (s.ker.lists 4)[(s.cpus 0).i]? = some x := by
  unfold dispatchedLowest at h
  split at h
  · next hl =>
    obtain ⟨c, p, e, hm, he, hr, hx⟩ := dispatched_some h
    obtain rfl : c = 0 := Subsingleton.elim _ _
    obtain rfl : x = p := hx
    refine ⟨e, hl, hm, he, hr, ?_⟩
    unfold examined at he
    rw [if_pos rfl, hl] at he
    split at he
    · next ht => exact ha.get ht he
    · cases he
  · cases h

lemma lowest_dispatched (hst : step .MLFQ s a = .ok s') : lowest s' = some x := by
  obtain ⟨rfl, hl, hm, he, hr, -⟩ := dispatchedLowest_some ha h
  rw [step_dispatch_queue hm he hr hst]
  unfold lowest
  rw [next_same, if_pos hl]

end

/-- the code after `swtch` moves the queue, if it takes nobody out for good but others. -/
theorem Kernel.BackCase.turn {k k' : Kernel} {l : Fin 5} {i : Nat} {m : Slot}
    (hb : k.BackCase l i m k') (hi : (k.lists l)[i]? = some m)
    (ht : (k.procs t).killed = false) (hx : (k.procs x).killed = false) :
    Move t x (if l = 4 then some m else none) (k.lists 4) none (k'.lists 4) := by
  have other : ∀ {q : Slot}, (k.procs m).killed = true → (k.procs q).killed = false → m ≠ q := by
    intro q hk hq e
    rw [e, hq] at hk
    cases hk
  cases hb with
  | stay hl ho e =>
    rw [if_neg hl, e]
    exact .lose (List.Sublist.refl _)
  | spin hl hk hp hq =>
    subst hl
    rw [hq, update_self, if_pos rfl]
    exact .back hi
  | repeatLast hl hk hp hy hq =>
    subst hl
    rw [hq, update_self, if_pos rfl]
    exact .retire _ hi (other hk ht) (other hk hx)
  | drop hl ho hk hp hq =>
    rw [hq, update_of_ne (Ne.symm hl), if_neg hl]
    exact .lose (List.Sublist.refl _)
  | demote hl ho hk hp hq =>
    rw [hq, update_of_ne (Ne.symm hl), if_neg hl]
    by_cases e : (4 : Fin 5) = l + 1
    · rw [← e, update_self]
      exact .add [m]
    · rw [update_of_ne e]
      exact .lose (List.Sublist.refl _)

/-- **Every step that does not dispatch `t` from `q4` is a move of the queue.** -/
theorem turn_move (hs : Sound s) (ha : Arrays s) (hm : QMove .MLFQ s a s')
    (hd : dispatchedLowest s a ≠ some t) (ht : (s.ker.procs t).killed = false)
    (hx : (s.ker.procs x).killed = false) :
    Move t x (lowest s) (s.ker.lists 4) (lowest s') (s'.ker.lists 4) := by
  have one : ∀ c : Fin 1, c = 0 := fun c => Subsingleton.elim _ _
  -- the CPU keeps its process and its place, and `q4` at most loses entries
  have stay : ∀ {k : Kernel} {cpu : Cpu} {l : Option (Fin 1)}, cpu.proc = (s.cpus 0).proc →
      cpu.lvl = (s.cpus 0).lvl → (k.lists 4).Sublist (s.ker.lists 4) →
      Move t x (lowest s) (s.ker.lists 4) (lowest (s.next 0 k cpu l)) ((s.next 0 k cpu l).ker.lists 4) := by
    intro k cpu l hp hl hq
    have e : lowest (s.next 0 k cpu l) = lowest s := by
      apply lowest_congr
      · rw [next_same]; exact hp
      · intro _
        rw [next_same]; exact hl
    rw [e]
    exact .lose hq
  cases hm with
  | quiet hq =>
    obtain ⟨hp, hi⟩ := hq.parked rfl 0
    rw [lowest_congr hp fun e => (hi e).1, lists_congr hq.still.queue]
    exact .lose (List.Sublist.refl _)
  | @charge c u p k hmode hp hk =>
    obtain rfl := one c
    refine stay rfl rfl ?_
    rw [lists_congr (charge_still hk).1]
  | @run c p hac hmode hpol he hr =>
    obtain rfl := one c
    have hidle : lowest s = none := lowest_none (hs.off_none (by rw [hmode]; rfl))
    rw [hidle, next_ker, lists_congr (stillTo_dispatchQueue s.ker p).queue]
    by_cases hl : (s.cpus 0).lvl = 4
    · have hrun : lowest (s.next 0 (s.ker.dispatchQueue p)
          { s.cpus 0 with proc := some p, mode := .resume } s.lock) = some p := by
        unfold lowest
        rw [next_same, if_pos hl]
      rw [hrun]
      refine .serve fun e => hd ?_
      unfold dispatchedLowest
      rw [if_pos hl, hac, dispatched_of_examined hmode he, if_pos hr, ← e]
      rfl
    · have hrun : lowest (s.next 0 (s.ker.dispatchQueue p)
          { s.cpus 0 with proc := some p, mode := .resume } s.lock) = none := by
        unfold lowest
        rw [next_same, if_neg hl]
      rw [hrun]
      exact .lose (List.Sublist.refl _)
  | @alloc c p np q hmode hp hal hu hq =>
    obtain rfl := one c
    refine stay rfl rfl ?_
    rw [(alloced_lists ha.full p hq).2, update_of_ne (by decide)]
  | @age c l i p k hmode hal htop hp hr hk =>
    obtain rfl := one c
    obtain ⟨m, -, -, hlists, -⟩ := promote_lists ha.full hk
    have hne : (4 : Fin 5) ≠ l.castSucc := by
      intro e
      exact absurd (congrArg Fin.val e) (by show 4 ≠ l.val; omega)
    refine stay rfl rfl ?_
    rw [hlists, update_of_ne hne]
    split
    · exact ArrQueue.remSkip_sublist ..
    · exact List.Sublist.refl _
  | @back c m k hac hmode hpol hp hk =>
    obtain rfl := one c
    have hi := ha.parked 0 m hp
    obtain ⟨-, hb⟩ := afterSwtch_lists ha.full hi hk
    rw [lowest_none (by rw [next_same] : ((s.next 0 k _ s.lock).cpus 0).proc = none), next_ker]
    unfold lowest
    rw [hp]
    exact hb.turn hi ht hx
  | @reap c p z b k k' hw hal hz hk =>
    obtain rfl := one c
    exact stay rfl rfl ((hw.reaped hz hk).sublist ha.full 4)

/-! ## between two dispatches -/

lemma due_keep (hs : Sound s) (ha : Arrays s) (ht : t ∈ S) (hx : x ∈ S)
    (hS : Staying S s.ker) (hS' : Staying S s'.ker) (hd : dispatchedLowest s a ≠ some t)
    (h : Due t x (lowest s) (s.ker.lists 4)) (hst : step .MLFQ s a = .ok s') :
    Due t x (lowest s') (s'.ker.lists 4) := by
  have hm := turn_move hs ha (step_qmove hs hst) hd (hS t ht).2.1 (hS x hx).2.1
  exact h.move hm (hS'.mem ht) (hS'.mem hx) (hS t ht).2.2 (hS x hx).2.2

/-- **The processes that stay in `q4` take turns**, in every run from a state with sound arrays: if the
scan, when it dispatches `x` from `q4` again, has gone past nobody of `S`, then every other process of
`S` has been dispatched from `q4` since the last dispatch of `x`. Runs end at `Stop.index`. -/
theorem lowest_queue_round_robin {pre mid post : Trace 1}
    {e0 e1 : State 1 × Action 1} {S : Finset Slot} (hs : Sound s) (ha : Arrays s)
    (h : Run .MLFQ s (pre ++ e0 :: mid ++ e1 :: post) s')
    (hc : ∀ e ∈ pre ++ e0 :: mid, NoShift e.1 e.2 ∧ FreshPid e.1 e.2)
    (h0 : dispatchedLowest e0.1 e0.2 = some x) (h1 : dispatchedLowest e1.1 e1.2 = some x)
    (hx : x ∈ S) (hS : ∀ e ∈ mid ++ [e1], Staying S e.1.ker) (hn : NonePast S e1.1) :
    ∀ t ∈ S, t ≠ x → ∃ e ∈ mid, dispatchedLowest e.1 e.2 = some t := by
  intro t ht hne
  have hS1 := hS e1 (mem_append_right _ (mem_singleton.mpr rfl))
  -- the invariant: in a state in which `S` stays in `q4`, `t` is due
  refine h.served_between
    (fun s => (Sound s ∧ Arrays s) ∧ (Staying S s.ker → Due t x (lowest s) (s.ker.lists 4)))
    (fun s a => (NoShift s a ∧ FreshPid s a) ∧ Staying S s.ker) ?_ ?_
    (fun e he => ⟨hc e (mem_append_right _ (mem_cons_of_mem _ he)), hS e (mem_append_left _ he)⟩) ?_
  · intro hpre v hv
    obtain ⟨hs0, ha0⟩ := Run.arrays hs ha hpre fun e he => hc e (mem_append_left _ he)
    have hc0 := hc e0 (mem_append_right _ (mem_cons_self ..))
    refine ⟨⟨step_sound hs0 hv, ha0.keep hs0 hc0.1 hc0.2 (step_qmove hs0 hv)⟩, fun _ => ?_⟩
    rw [lowest_dispatched ha0.full h0 hv]
    exact due_served hne
  · intro s a s' hi hc hd hst
    obtain ⟨⟨hs, ha⟩, hdue⟩ := hi
    obtain ⟨⟨hsh, hf⟩, hS⟩ := hc
    refine ⟨⟨step_sound hs hst, ha.keep hs hsh hf (step_qmove hs hst)⟩, fun hS' => ?_⟩
    exact due_keep hs ha ht hx hS hS' hd (hdue hS) hst
  · intro hi
    obtain ⟨⟨hs1, ha1⟩, hdue⟩ := hi
    obtain ⟨-, -, hm, -, -, hi⟩ := dispatchedLowest_some ha1.full h1
    have hdue1 := hdue hS1
    rw [lowest_none (hs1.off_none (by rw [hm]; rfl))] at hdue1
    obtain ⟨j, hj, hjt⟩ := hdue1.index (hS1 x hx).2.2 hi
    exact hn j hj t (ha1.full.index hjt).2 ht

/-- `k` turns of the CPU after each of a series of timer interrupts. -/
def ticking (ks : List Nat) : List (Action 1) := ks.flatMap fun k => .timer 0 false :: turns k

/-- init forks pids 2 to 5 and waits, pids 2 and 3 sleep, and pids 4 and 5 (slots 3 and 4) use up
their slices of `q0` to `q3`; 497 steps. -/
def twoToQ4 : List (Action 1) :=
  turns 7 ++ forkAll ++ forkAll ++ forkAll ++ forkAll ++ [.sys 0 .wait] ++ turns 3 ++
    [.sys 0 (.sleep (.addr 1))] ++ turns 3 ++ [.sys 0 (.sleep (.addr 1))] ++ turns 3 ++
    ticking [7, 19, 7, 7, 20, 7, 20, 7, 6, 21, 7, 20, 7, 20, 7, 20, 7, 6, 21, 6, 21, 6, 21, 6, 21, 7,
      20, 7, 20, 7, 20, 7, 20]

/-- slot 3 is dispatched at the end of a pass and at the start of the next but one; the pass between
them runs slot 4. -/
theorem lowest_queue_round_robin_two : ∃ (s s' : State 1) (mid post : Trace 1)
    (e0 e1 : State 1 × Action 1), Run .MLFQ s (e0 :: mid ++ e1 :: post) s' ∧
      dispatchedLowest e0.1 e0.2 = some 3 ∧ dispatchedLowest e1.1 e1.2 = some 3 ∧
      (∀ e ∈ mid ++ [e1], Staying {3, 4} e.1.ker) ∧
      ∃ e ∈ mid, dispatchedLowest e.1 e.2 = some 4 := by
  obtain ⟨s, t, pre, mid, post, e0, e1, hb, h, ha, h0, h1, hn, hc, hS⟩ : ∃ (s t : State 1)
      (pre mid post : List _) (e0 e1 : _), Boot 100 0 s ∧ Run .MLFQ s (pre ++ e0 :: mid ++ e1 :: post) t ∧
      Arrays e0.1 ∧ dispatchedLowest e0.1 e0.2 = some 3 ∧ dispatchedLowest e1.1 e1.2 = some 3 ∧
      NonePast {3, 4} e1.1 ∧ (∀ e ∈ e0 :: mid, NoShift e.1 e.2 ∧ FreshPid e.1 e.2) ∧
      ∀ e ∈ mid ++ [e1], Staying {3, 4} e.1.ker :=
    Boot.exists_between (by decide) (twoToQ4 ++ ticking [7, 6, 21, 6, 20]) 510 50 (by decide +kernel)
  have hs0 := Run.sound hb h.between.1
  rw [append_assoc] at h
  obtain ⟨v, -, h2⟩ := h.split
  obtain ⟨rfl, -⟩ := h2.head
  have h3 : Run .MLFQ e0.1 ([] ++ e0 :: mid ++ e1 :: post) t := h2
  exact ⟨_, t, mid, post, e0, e1, h2, h0, h1, hS,
    lowest_queue_round_robin hs0 ha h3 hc h0 h1 (by decide) hS hn 4 (by decide) (by decide)⟩

/-- `q4` holds slots 3 and 4: slot 3 runs, is put behind slot 4, and runs again at the end of the same
pass; slot 4 was stepped over. -/
theorem lowest_runs_twice : ∃ (s s' : State 1) (pre mid post : Trace 1)
    (e0 e1 : State 1 × Action 1), Boot 100 0 s ∧
      Run .MLFQ s (pre ++ e0 :: mid ++ e1 :: post) s' ∧
      dispatchedLowest e0.1 e0.2 = some 3 ∧ dispatchedLowest e1.1 e1.2 = some 3 ∧
      (∀ e ∈ e0 :: mid ++ [e1], Staying {3, 4} e.1.ker) ∧
      ∀ e ∈ mid, dispatched .MLFQ e.1 e.2 = none :=
  Boot.exists_between (by decide) (twoToQ4 ++ ticking [7, 6]) 503 6 (by decide +kernel)

end Xv6
