import Xv6.Queue.Arrays
import Xv6.Proc.Reap
import Xv6.Lib.Homes

/-!
# Every entry stands in the queue of its process

In the MLFQ build the queue of a process is stored twice: as a position in `q0 .. q4` and in
`current_queue`. `Kernel.home` reads the second, and `Placed` says that the lists of entries agree
with it (`Lib.Homes`): no entry is stale, misplaced or there twice.

Four pieces of the code edit one half only, and a step is good (`KeepsPlaced`) if it is none of them:

* a `fork` that fails gives its slot back and leaves the entry in `q0`;
* `waitx` does not call `rem_process`;
* `ageing` decrements `current_queue` BEFORE it calls `rem_process` with it, so what it removes is
  the entry it has just appended;
* the killed branch of the loop over `q4` shifts the array and does not decrement `c4`.

`Placed.keep`: every good step keeps the placement.
-/

namespace Xv6
open Lib Function List Kernel Option

variable {n : Nat} {s s' : State n} {k k' : Kernel}

namespace Kernel

variable {p : Slot} {l : Fin 5}

/-- the queue in which a process belongs. -/
def home (k : Kernel) (p : Slot) : Option (Fin 5) :=
  if (k.procs p).state = .UNUSED then none else queueNo (k.procs p).current_queue

def Placed (k : Kernel) : Prop := Homes k.lists k.home

lemma home_some : k.home p = some l ↔ (k.procs p).state ≠ .UNUSED ∧ (k.procs p).current_queue = l.val := by
  unfold home
  split
  · next e => exact ⟨nofun, fun h => absurd e h.1⟩
  · next e =>
    constructor
    · intro h
      exact ⟨e, queueNo_eq h⟩
    · intro h
      rw [h.2]
      exact queueNo_val l

lemma home_congr (hs : (k'.procs p).state = (k.procs p).state)
    (hc : (k'.procs p).current_queue = (k.procs p).current_queue) : k'.home p = k.home p := by
  unfold home
  rw [hs, hc]

lemma home_keep (h : k.home p = some l) (hu : (k'.procs p).state ≠ .UNUSED)
    (hc : (k'.procs p).current_queue = (k.procs p).current_queue) : k'.home p = some l :=
  home_some.mpr ⟨hu, hc.trans (home_some.mp h).2⟩

lemma Placed.congr (h : Placed k) (hl : k'.lists = k.lists)
    (hh : ∀ l p, p ∈ k.lists l → k.home p = some l → k'.home p = some l) : Placed k' := by
  refine Homes.shrink h (fun l => ?_) (fun l p hp e => ?_)
  · rw [hl]
  · rw [hl] at hp
    exact hh l p hp e

lemma stillQueued_iff (k : Kernel) (z : Slot) : k.StillQueued z ↔
    ∃ l, queueNo (k.procs z).current_queue = some l ∧ ∃ e ∈ k.lists l, (k.procs e).pid = (k.procs z).pid := by
  unfold StillQueued lists
  constructor
  · intro ⟨l, hl, j, hj, hc⟩
    obtain ⟨e, he, hp⟩ := (Option.any_eq_true ..).mp hc
    exact ⟨l, hl, e, ArrQueue.mem_entries.mpr ⟨j, hj, he⟩, of_decide_eq_true hp⟩
  · intro ⟨l, hl, e, he, hp⟩
    obtain ⟨j, hj, hc⟩ := ArrQueue.mem_entries.mp he
    refine ⟨l, hl, j, hj, ?_⟩
    rw [hc]
    exact decide_eq_true hp

instance (k : Kernel) (z : Slot) : Decidable (k.StillQueued z) :=
  decidable_of_iff _ (stillQueued_iff k z).symm

/-! ## the moves that edit the lists -/

lemma Placed.alloc (h : Placed k) {np : Slot} (hu : (k.procs np).state = .UNUSED)
    (ha : Alloced k np k') (hl : k'.lists = update k.lists 0 (k.lists 0 ++ [np])) : Placed k' := by
  have hno : ∀ l, np ∉ k.lists l := by
    intro l hm
    exact (home_some.mp (h.mem l np hm)).1 hu
  unfold Placed
  rw [hl]
  refine Homes.add h hno ?_ fun l q hq e => ?_
  · exact home_some.mpr ⟨by rw [ha.state]; nofun, ha.cq⟩
  · have hne : q ≠ np := fun e => hno l (e ▸ hq)
    obtain ⟨e1, -, e2, -⟩ := ha.others q hne
    rw [home_congr e1 e2]
    exact e

lemma Placed.spin (h : Placed k) {i : Nat} {m : Slot} (hi : (k.lists l)[i]? = some m)
    (hp : k'.procs = k.procs)
    (hq : k'.lists = update k.lists l ((k.lists l).eraseIdx i ++ [m])) : Placed k' := by
  refine Homes.shrink h (fun j => ?_) fun j p _ e => ?_
  · rw [hq]
    by_cases e : j = l
    · rw [e, update_self]
      exact ((perm_append_singleton ..).trans (cons_eraseIdx_perm hi)).subperm
    · rw [update_of_ne e]
  · exact (home_congr (by rw [hp]) (by rw [hp])).trans e

/-- the code after `swtch`; in `q4` a killed process has to be the last entry. -/
theorem Placed.back (h : Placed k) {l : Fin 5} {i : Nat} {m : Slot} (hi : (k.lists l)[i]? = some m)
    (hb : k.BackCase l i m k')
    (hlast : l = 4 → (k.procs m).killed = true → ¬ i + 1 < (k.lists 4).length) : Placed k' := by
  cases hb with
  | stay hl ho e => rw [e]; exact h
  | spin hl hk hp hq =>
    subst hl
    exact h.spin hi hp hq
  | @repeatLast hl hk hp y hy hq =>
    subst hl
    have hlen := (List.getElem?_eq_some_iff.mp hi).1
    have hno := hlast rfl hk
    have hym : y = m := by
      rw [List.getLast?_eq_getElem?, show (k.lists 4).length - 1 = i by omega, hi] at hy
      exact (some.inj hy).symm
    subst hym
    exact h.spin hi hp hq
  | drop hl ho hk hp hq =>
    refine Homes.shrink h (fun j => ?_) fun j p hpj e => ?_
    · rw [hq]
      by_cases e : j = l
      · rw [e, update_self]
        exact (eraseIdx_sublist ..).subperm
      · rw [update_of_ne e]
    · have hs : (k'.procs p).state = (k.procs p).state := by
        rw [hp, upd_procs]; split <;> simp [*]
      have hc : (k'.procs p).current_queue = (k.procs p).current_queue := by
        rw [hp, upd_procs]; split <;> simp [*]
      exact (home_congr hs hc).trans e
  | demote hl ho hk hp hq =>
    obtain ⟨hu, hcq⟩ := home_some.mp (h.mem l m (mem_of_getElem? hi))
    unfold Placed
    rw [hq]
    refine Homes.move h hi (succ_ne hl) ?_ fun q hqm => ?_
    · rw [home_some, hp, upd_same]
      refine ⟨hu, ?_⟩
      show (k.procs m).current_queue + 1 = ((l + 1 : Fin 5).val : Int)
      rw [hcq, succ_val hl]
      rfl
    · exact home_congr (by rw [hp, upd_of_ne _ _ hqm]) (by rw [hp, upd_of_ne _ _ hqm])

lemma Placed.not_mem_rem (h : Placed k) (hpid : k.PidsOk) {z : Slot}
    (hz : (k.procs z).state ≠ .UNUSED) (l : Fin 5) :
    z ∉ k.remLists (k.procs z).pid (k.procs z).current_queue l := by
  rw [remLists_apply]
  split
  · apply ArrQueue.not_mem_remSkip (h.nodup l)
    · intro x hx e
      exact hpid x z (home_some.mp (h.mem l x hx)).1 hz (of_decide_eq_true e)
    · exact decide_eq_true rfl
  · next hne =>
    intro hm
    exact hne (home_some.mp (h.mem l z hm)).2.symm

end Kernel

variable {a : Action n} {npages need : Nat}

lemma Kernel.Placed.reap {pol : Policy} {x : Bool} {z : Slot} (h : s.ker.Placed)
    (ha : Arrays s) (hr : Reaped pol s x z k') (hpol : pol = .MLFQ)
    (hx : x = true → ¬ s.ker.StillQueued z) : k'.Placed := by
  have hl := hr.lists ha.full
  have hz : (s.ker.procs z).state ≠ .UNUSED := by rw [hr.zombie]; nofun
  have hsub := hr.sublist ha.full
  have hzout : ∀ l, z ∉ k'.lists l := by
    intro l hm
    cases x with
    | false =>
      rw [hl, if_pos ⟨hpol, rfl⟩] at hm
      exact h.not_mem_rem ha.pids hz l hm
    | true =>
      have hm' := (hsub l).subset hm
      refine hx rfl ((stillQueued_iff ..).mpr ⟨l, ?_, z, hm', rfl⟩)
      rw [(home_some.mp (h.mem l z hm')).2]
      exact queueNo_val l
  refine Homes.shrink h (fun l => (hsub l).subperm) fun l p hp e => ?_
  have hne : p ≠ z := fun e' => hzout l (e' ▸ hp)
  exact home_keep e ((hr.calm p hne).not_freed (home_some.mp e).1) (hr.cq p)

/-! ## every step -/

/-- the steps that edit both halves. -/
structure KeepsPlaced (s : State n) (a : Action n) : Prop where
  shift : NoShift s a
  fresh : FreshPid s a
  fork : forkFails s a = none
  waitx : ∀ z, reaps s a = some (z, true) → ¬ s.ker.StillQueued z
  age : promoted s a = none
  last : ∀ c m, a = .cpu c → (s.cpus c).mode = .back → (s.cpus c).proc = some m →
    (s.cpus c).lvl = 4 → (s.ker.procs m).killed = true → ¬ ((s.cpus c).i : Int) < (s.ker.queue 4).top

instance (s : State n) (a : Action n) : Decidable (KeepsPlaced s a) :=
  decidable_of_iff
    (NoShift s a ∧ FreshPid s a ∧ forkFails s a = none ∧
      (∀ z, reaps s a = some (z, true) → ¬ s.ker.StillQueued z) ∧ promoted s a = none ∧
      ∀ c m, a = .cpu c → (s.cpus c).mode = .back → (s.cpus c).proc = some m →
        (s.cpus c).lvl = 4 → (s.ker.procs m).killed = true → ¬ ((s.cpus c).i : Int) < (s.ker.queue 4).top)
    ⟨fun h => ⟨h.1, h.2.1, h.2.2.1, h.2.2.2.1, h.2.2.2.2.1, h.2.2.2.2.2⟩,
      fun h => ⟨h.shift, h.fresh, h.fork, h.waitx, h.age, h.last⟩⟩

/-- **Every good step keeps every entry in its place.** -/
theorem Kernel.Placed.keep (ha : Arrays s) (h : s.ker.Placed)
    (hc : KeepsPlaced s a) (hm : QMove .MLFQ s a s') : s'.ker.Placed := by
  cases hm with
  | quiet hq =>
    refine h.congr (lists_congr hq.still.queue) fun l p hp e => ?_
    refine home_keep e (fun e' => ?_) (hq.still.cq p)
    have := hq.freed p (home_some.mp e).1 e'
    rw [hc.fork] at this
    cases this
  | @charge c u p k hm hp hk =>
    obtain ⟨hq, hcq, -⟩ := charge_still hk
    refine h.congr (lists_congr hq) fun l q hq e => ?_
    exact home_keep e (((calmTo_charge hk).procs q).not_freed (home_some.mp e).1) (hcq q)
  | @run c p _ hm hpol he hr =>
    have hst := stillTo_dispatchQueue s.ker p
    refine h.congr (lists_congr hst.queue) fun l q hq e => ?_
    refine home_keep e (fun hu => ?_) (hst.cq q)
    exact (home_some.mp e).1 ((dispatchQueue_procs hr q).2.2.mp hu)
  | @alloc c p np q hm hp hal hu hq =>
    exact h.alloc hu (alloced s.ker p np q) (alloced_lists ha.full p hq).2
  | @age c l i p k hm hal =>
    rw [hc.age] at hal
    cases hal
  | @back c m k hac hm hpol hp hk =>
    have hi := ha.parked c m hp
    obtain ⟨-, hb⟩ := afterSwtch_lists ha.full hi hk
    refine h.back hi hb fun hl hkd hlt => ?_
    have hlen : ((s.ker.lists 4).length : Int) = (s.ker.queue 4).top + 1 := (ha.full 4).length
    exact hc.last c m hac hm hp hl hkd (by omega)
  | @reap c p z x k k' hw hal hz hk =>
    exact h.reap ha (hw.reaped hz hk) rfl fun e => hc.waitx z (e ▸ hal)

lemma Boot.placed (h : Boot npages need s) : s.ker.Placed := by
  obtain ⟨-, rfl⟩ := h.eq
  have hl := firstKernel_lists npages need
  refine ⟨fun l => ?_, fun l p hp => ?_⟩
  · show ((firstKernel npages need).lists l).Nodup
    rw [hl]
    split
    · exact nodup_singleton 0
    · exact nodup_nil
  · change p ∈ (firstKernel npages need).lists l at hp
    rw [hl] at hp
    split at hp
    · next e =>
      rw [mem_singleton.mp hp, e]
      apply home_some.mpr
      rw [show (firstState npages need : State n).ker = firstKernel npages need from rfl, firstKernel_init]
      exact ⟨nofun, rfl⟩
    · cases hp

/-- a sound machine whose arrays are in order, with every entry in its place. -/
structure InPlace (s : State n) : Prop where
  sound : Sound s
  arrays : Arrays s
  placed : s.ker.Placed

lemma InPlace.keep (h : InPlace s) (hc : KeepsPlaced s a) (hst : step .MLFQ s a = .ok s') : InPlace s' := by
  have hm := step_qmove h.sound hst
  exact ⟨step_sound h.sound hst, h.arrays.keep h.sound hc.shift hc.fresh hm, h.placed.keep h.arrays hc hm⟩

lemma Boot.inPlace (h : Boot npages need s) : InPlace s :=
  ⟨h.sound, h.arrays, h.placed⟩

lemma InPlace.run {tr : Trace n} (h : InPlace s) (hr : Run .MLFQ s tr s')
    (hc : ∀ e ∈ tr, KeepsPlaced e.1 e.2) : InPlace s' :=
  hr.invariant InPlace KeepsPlaced (fun _ _ _ h hc hst => h.keep hc hst) hc h

/-- **No entry is stale, misplaced or there twice.** In every state that a run of good steps
reaches, every entry of `q_l` is a process in use whose `current_queue` is `l`, and no process is at
two places. Runs end at `Stop.index`. -/
theorem entries_stay_in_place {npages need : Nat} {tr : Trace n}
    (hb : Boot npages need s) (h : Run .MLFQ s tr s') (hc : ∀ e ∈ tr, KeepsPlaced e.1 e.2) :
    (∀ l, ∀ i : Nat, (i : Int) ≤ (s'.ker.queue l).top → ∃ p, (s'.ker.queue l).cell i = some p ∧
      (s'.ker.procs p).state ≠ .UNUSED ∧ (s'.ker.procs p).current_queue = l.val) ∧
    ∀ l m p, ∀ i j : Nat, (i : Int) ≤ (s'.ker.queue l).top → (j : Int) ≤ (s'.ker.queue m).top →
      (s'.ker.queue l).cell i = some p → (s'.ker.queue m).cell j = some p → l = m ∧ i = j := by
  obtain ⟨-, ha, hp⟩ := hb.inPlace.run h hc
  refine ⟨fun l i hi => ?_, fun l m p i j hi hj hl hm => ?_⟩
  · obtain ⟨p, hcell⟩ := isSome_iff_exists.mp ((ha.full l).some i hi)
    have hmem := mem_of_getElem? (ha.full.get hi hcell)
    exact ⟨p, hcell, home_some.mp (hp.mem l p hmem)⟩
  · have hl' := ha.full.get hi hl
    have hm' := ha.full.get hj hm
    obtain rfl : l = m := hp.apart (mem_of_getElem? hl') (mem_of_getElem? hm')
    obtain ⟨hlt, -⟩ := List.getElem?_eq_some_iff.mp hl'
    refine ⟨rfl, (List.getElem?_inj hlt (hp.nodup l)).mp ?_⟩
    rw [hl', hm']

/-- init forks a child, which exits, and waits for it. -/
theorem entries_stay_in_place_wait : ∃ (s s' : State 1) (tr : Trace 1),
    Boot 100 0 s ∧ Run .MLFQ s tr s' ∧ (∀ e ∈ tr, KeepsPlaced e.1 e.2) ∧
      (s'.ker.procs 1).state = .UNUSED ∧ (s'.ker.queue 0).top = 0 ∧
      ∃ p, (s'.ker.queue 0).cell 0 = some p ∧ (s'.ker.procs p).state ≠ .UNUSED := by
  obtain ⟨s, t, tr, hb, h, hc, hu, htop⟩ : ∃ (s t : State 1) (tr : _), Boot 100 0 s ∧ Run .MLFQ s tr t ∧
      (∀ e ∈ tr, KeepsPlaced e.1 e.2) ∧ (t.ker.procs 1).state = .UNUSED ∧ (t.ker.queue 0).top = 0 :=
    Boot.exists_run (by decide) (turns 7 ++ forkAll ++ tickYield ++ turns 3 ++ [.sys 0 .exit] ++ turns 13 ++
      [.sys 0 .wait]) (by decide +kernel)
  obtain ⟨p, hp, hs, -⟩ := (entries_stay_in_place hb h hc).1 0 0 (by rw [htop]; decide)
  exact ⟨s, t, tr, hb, h, hc, hu, htop, p, hp, hs⟩

/-- four pages are enough for init and one child; the second `fork` finds a slot but no page for
the stack, and leaves the free slot 2 in `q0`. -/
theorem failed_fork_leaves_entry : ∃ (s s' : State 1) (tr : Trace 1),
    Boot 4 0 s ∧ Run .MLFQ s tr s' ∧ s'.lock = none ∧ (s'.ker.queue 0).top = 2 ∧
      (s'.ker.queue 0).cell 2 = some 2 ∧ (s'.ker.procs 2).state = .UNUSED :=
  Boot.exists_run (by decide) (turns 7 ++ forkAll ++ [.sys 0 (.fork 0), .sys 0 (.fork 0)]) (by decide +kernel)

end Xv6
