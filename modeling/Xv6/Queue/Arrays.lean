import Xv6.Queue.Moves

/-!
# The arrays as lists, and the indices parked in them

`Kernel.lists k l` is the list of the entries `q_l[0], ..., q_l[c_l]`. As long as no cell up to
`c_l` is null (`AllFull`) the array code is list editing, and every operation of `proc.c` has its
list form here: `push_lists`, `remProcess_lists`, `promote_lists`, `afterSwtch_lists`.

`Arrays s` is what the array code relies on:

* no cell up to `c_l` is null;
* a scheduler that waits in `swtch` has parked an index at which its process still stands;
* no two slots in use have the same pid.

It survives every step that does not shift an entry away under a parked index (`NoShift`) and does
not hand out a pid that is in use (`FreshPid`): `Arrays.keep`.
-/

namespace Xv6
open Lib Function List Kernel

variable {n : Nat} {pol : Policy} {s s' : State n} {k k' : Kernel}

namespace Kernel

variable {l : Fin 5} {q : ArrQueue Slot} {i : Nat} {m p : Slot}

/-- the entries of the five queues. -/
def lists (k : Kernel) (l : Fin 5) : List Slot := (k.queue l).entries

def AllFull (k : Kernel) : Prop := ∀ l, (k.queue l).Full

lemma AllFull.congr (h : AllFull k) (e : k'.queue = k.queue) : AllFull k' := by
  intro l
  rw [e]
  exact h l

lemma lists_congr (e : k'.queue = k.queue) : k'.lists = k.lists := by
  funext l
  unfold lists
  rw [e]

lemma AllFull.setQueue (h : AllFull k) (hq : q.Full) : AllFull (k.setQueue l q) := by
  intro j
  by_cases e : j = l
  · rw [e, setQueue_same]; exact hq
  · rw [setQueue_of_ne _ _ e]; exact h j

lemma setQueue_lists (k : Kernel) (l : Fin 5) (q : ArrQueue Slot) :
    (k.setQueue l q).lists = update k.lists l q.entries := by
  funext j
  unfold lists
  by_cases e : j = l
  · rw [e, setQueue_same, update_self]
  · rw [setQueue_of_ne _ _ e, update_of_ne e]

lemma AllFull.index (h : AllFull k)
    (hi : (k.lists l)[i]? = some m) : (i : Int) ≤ (k.queue l).top ∧ (k.queue l).cell i = some m :=
  (h l).cell_of_getElem? hi

lemma AllFull.get (h : AllFull k) (hi : (i : Int) ≤ (k.queue l).top) (hc : (k.queue l).cell i = some m) :
    (k.lists l)[i]? = some m := by
  unfold lists
  rw [(h l).getElem?_of_le hi, hc]

/-! ## the operations on lists -/

lemma push_lists (h : AllFull k) {x : Slot} (hq : (k.queue l).push NPROC x = some q) : AllFull (k.setQueue l q) ∧
      (k.setQueue l q).lists = update k.lists l (k.lists l ++ [x]) := by
  obtain ⟨h1, h2⟩ := (h l).push hq
  refine ⟨h.setQueue h1, ?_⟩
  rw [setQueue_lists, h2]
  rfl

/-- `rem_process` on lists. -/
def remLists (k : Kernel) (pid curq : Int) : Fin 5 → List Slot :=
  match queueNo curq with
  | some l =>
    update k.lists l (ArrQueue.remSkip (fun e => (k.procs e).pid = pid) (k.lists l))
  | none => k.lists

lemma remProcess_lists (h : AllFull k) (pid curq : Int) :
    AllFull (k.remProcess pid curq) ∧ (k.remProcess pid curq).lists = k.remLists pid curq := by
  unfold remProcess remLists
  cases queueNo curq with
  | none => exact ⟨h, rfl⟩
  | some l =>
    obtain ⟨h1, h2⟩ := (h l).rem (fun e => (k.procs e).pid = pid)
    refine ⟨h.setQueue h1, ?_⟩
    simp only [setQueue_lists, h2]
    rfl

/-- **`rem_process` deletes one entry and nothing else**: with the pid at most once in `q_l`, its entry is taken
out, the others keep their order, no other queue changes, and no cell beyond `c_l` is looked at. -/
theorem remProcess_deletes_one (k : Kernel) (pid : Int) (l : Fin 5) (hf : (k.queue l).Full)
    (hone : (k.queue l).entries.countP (fun e => (k.procs e).pid = pid) ≤ 1) :
    ((k.remProcess pid l).queue l).entries = (k.queue l).entries.filter (fun e => (k.procs e).pid ≠ pid) ∧
    ((k.remProcess pid l).queue l).top =
      (if ∃ e ∈ (k.queue l).entries, (k.procs e).pid = pid then (k.queue l).top - 1 else (k.queue l).top) ∧
    (∀ m, m ≠ l → (k.remProcess pid l).queue m = k.queue m) ∧
    ∀ q : ArrQueue Slot, q.top = (k.queue l).top → (∀ i : Nat, (i : Int) ≤ q.top → q.cell i = (k.queue l).cell i) →
      (((k.setQueue l q).remProcess pid l).queue l).top = ((k.remProcess pid l).queue l).top ∧
      ∀ i : Nat, (i : Int) ≤ q.top →
        (((k.setQueue l q).remProcess pid l).queue l).cell i = ((k.remProcess pid l).queue l).cell i := by
  have hrem : ∀ k : Kernel, k.remProcess pid l = k.setQueue l ((k.queue l).rem fun e => (k.procs e).pid = pid) := by
    intro k
    unfold remProcess
    rw [queueNo_val]
  obtain ⟨hfull, hent⟩ := hf.rem fun e => (k.procs e).pid = pid
  rw [ArrQueue.remSkip_eq_filter hone] at hent
  simp only [hrem, setQueue_same]
  refine ⟨by simpa using hent, ?_, fun m hm => setQueue_of_ne _ _ hm, fun q ht hc => ?_⟩
  · have hl := hfull.length
    have hl₀ := hf.length
    have hsum := length_eq_countP_add_countP (fun e => decide ((k.procs e).pid = pid)) (l := (k.queue l).entries)
    rw [hent, ← countP_eq_length_filter] at hl
    simp only [decide_eq_true_eq, decide_not] at hsum
    split
    · next h =>
      have hpos : 0 < (k.queue l).entries.countP fun e => decide ((k.procs e).pid = pid) := by
        simpa [countP_pos_iff] using h
      omega
    · next h =>
      have hzero : (k.queue l).entries.countP (fun e => decide ((k.procs e).pid = pid)) = 0 := by
        simpa [countP_eq_zero] using h
      omega
  · rw [ht] at hc ⊢
    unfold ArrQueue.rem
    rw [ht]
    exact ArrQueue.remLoop_congr _ _ _ (Int.le_refl _) ht hc

/-- pid 1, in slot 0, is taken out from between two other entries. -/
theorem remProcess_deletes_one_middle : let k := (firstKernel 2 0).setQueue 0 ⟨fun i => [1, 0, 2][i]?, 2⟩
    ((k.remProcess 1 (0 : Fin 5)).queue 0).entries = [1, 2] :=
  (remProcess_deletes_one _ 1 0 (by decide +kernel) (by decide +kernel)).1.trans (by decide +kernel)

lemma remLists_apply (k : Kernel) (pid curq : Int) (l : Fin 5) : k.remLists pid curq l =
    if (l.val : Int) = curq then ArrQueue.remSkip (fun e => (k.procs e).pid = pid) (k.lists l) else k.lists l := by
  unfold remLists
  cases hq : queueNo curq with
  | none =>
    rw [if_neg]
    intro e
    rw [← e, queueNo_val] at hq
    cases hq
  | some m =>
    have hm := queueNo_eq hq
    by_cases e : l = m
    · subst e
      rw [if_pos hm.symm]
      exact update_self ..
    · rw [if_neg (fun e' => e (Fin.ext (by omega)))]
      exact update_of_ne e ..

/-- what `ageing` does to the process it moves up. -/
def raise (k : Kernel) (m : Fin 5) (p : Slot) : Kernel :=
  k.upd p fun r =>
    { r with
      current_queue := m.val, ticks := update r.ticks m 0, start := k.now }

lemma promote_ok {l : Fin 4} (h : k.promote l p = .ok k') : ∃ m q, (k.procs p).current_queue - 1 = (m.val : Int) ∧
      (k.queue l.castSucc).push NPROC p = some q ∧
      k' = ((k.raise m p).setQueue l.castSucc q).remProcess (k.procs p).pid m.val := by
  dsimp only [promote] at h
  split at h
  · cases h
  · next m hm =>
    have hm' := queueNo_eq hm
    split at h
    · next k2 hk =>
      cases h
      obtain ⟨q, hq, rfl⟩ := push_ok hk
      exact ⟨m, q, hm', hq, by rw [hm']; rfl⟩
    · cases h

lemma raise_pid (k : Kernel) (m : Fin 5) (p q : Slot) : ((k.raise m p).procs q).pid = (k.procs q).pid := by
  unfold raise
  rw [upd_procs]
  split
  · next e => rw [e]
  · rfl

lemma promote_lists (hf : AllFull k) {l : Fin 4} (h : k.promote l p = .ok k') :
    ∃ m : Fin 5, (k.procs p).current_queue - 1 = (m.val : Int) ∧ AllFull k' ∧ (∀ j, k'.lists j = if j = m then
        ArrQueue.remSkip (fun e => (k.procs e).pid = (k.procs p).pid)
          (update k.lists l.castSucc (k.lists l.castSucc ++ [p]) j)
        else update k.lists l.castSucc (k.lists l.castSucc ++ [p]) j) ∧ k'.procs = (k.raise m p).procs := by
  obtain ⟨m, q, hm, hq, rfl⟩ := promote_ok h
  obtain ⟨h1, h2⟩ := push_lists (k := k.raise m p) hf hq
  obtain ⟨h3, h4⟩ := remProcess_lists h1 (k.procs p).pid m.val
  refine ⟨m, hm, h3, fun j => ?_, by simp⟩
  rw [h4, remLists_apply, h2]
  have e : ((j.val : Int) = m.val) ↔ j = m := ⟨fun e => Fin.ext (by omega), fun e => by rw [e]⟩
  simp only [e, setQueue_procs, raise_pid]
  rfl

/-- everything the code after `swtch` can do, on lists: `m` stands at the index `i` of `q_l`. -/
inductive BackCase (k : Kernel) (l : Fin 5) (i : Nat) (m : Slot) (k' : Kernel) : Prop
  | stay (hl : l ≠ 4) (ho : k.sliceOver l m = false) (e : k' = k)
  | spin (hl : l = 4) (hk : (k.procs m).killed = false) (hp : k'.procs = k.procs)
      (hq : k'.lists = update k.lists 4 ((k.lists 4).eraseIdx i ++ [m]))
  | repeatLast (hl : l = 4) (hk : (k.procs m).killed = true) (hp : k'.procs = k.procs) {x : Slot}
      (hx : (k.lists 4).getLast? = some x)
      (hq : k'.lists = update k.lists 4 ((k.lists 4).eraseIdx i ++ [x]))
  | drop (hl : l ≠ 4) (ho : k.sliceOver l m = true) (hk : (k.procs m).killed = true)
      (hp : k'.procs = (k.upd m fun r =>
        { r with ticks := update r.ticks l 0 }).procs)
      (hq : k'.lists = update k.lists l ((k.lists l).eraseIdx i))
  | demote (hl : l ≠ 4) (ho : k.sliceOver l m = true) (hk : (k.procs m).killed = false)
      (hp : k'.procs = (k.upd m fun r =>
        { r with
          current_queue := r.current_queue + 1, ticks := update r.ticks l 0 }).procs)
      (hq : k'.lists = update (update k.lists (l + 1) (k.lists (l + 1) ++ [m])) l ((k.lists l).eraseIdx i))

lemma takeOut_lists (h : AllFull k) (m : Slot) (hi : (i : Int) ≤ (k.queue l).top) : AllFull (k.takeOut l i m) ∧
      (k.takeOut l i m).lists = update k.lists l ((k.lists l).eraseIdx i) := by
  have hd := (h l).delete hi
  have e : ArrQueue.entries ((k.queue l).delete i) = (k.lists l).eraseIdx i :=
    ArrQueue.entries_delete (h l) hi
  have hq : (k.takeOut l i m).queue = (k.setQueue l ((k.queue l).delete i)).queue := rfl
  refine ⟨AllFull.congr (h.setQueue hd) hq, ?_⟩
  rw [lists_congr hq, setQueue_lists, e]

lemma succ_ne (h : l ≠ 4) : l + 1 ≠ l := by
  revert h
  revert l
  decide

lemma succ_val (h : l ≠ 4) : (l + 1).val = l.val + 1 := by
  revert h
  revert l
  decide

lemma afterSwtch_lists (h : AllFull k) (hi : (k.lists l)[i]? = some m) (hk : k.afterSwtch l i m = .ok k') :
    AllFull k' ∧ BackCase k l i m k' := by
  obtain ⟨hle, -⟩ := h.index hi
  unfold afterSwtch at hk
  by_cases hl : l = 4
  · subst hl
    rw [if_pos rfl] at hk
    cases hkd : (k.procs m).killed with
    | true =>
      rw [hkd, if_pos rfl] at hk
      cases hk
      have hne : k.lists 4 ≠ [] := by
        intro e
        rw [e] at hi
        cases hi
      obtain ⟨x, hx⟩ : ∃ x, (k.lists 4).getLast? = some x :=
        ⟨_, getLast?_eq_getLast_of_ne_nil hne⟩
      refine ⟨h.setQueue ((h 4).shift i), .repeatLast rfl hkd rfl hx ?_⟩
      rw [setQueue_lists, ArrQueue.entries_shift (h 4) hle hx]
      rfl
    | false =>
      rw [hkd, if_neg nofun] at hk
      split at hk
      · next q hq =>
        cases hk
        obtain ⟨h1, h2⟩ := (h 4).rotate hle hq
        refine ⟨h.setQueue h1, .spin rfl hkd rfl ?_⟩
        rw [setQueue_lists, h2]
        rfl
      · cases hk
  · rw [if_neg hl] at hk
    cases ho : k.sliceOver l m with
    | false =>
      rw [ho, if_neg nofun] at hk
      cases hk
      exact ⟨h, .stay hl ho rfl⟩
    | true =>
      rw [ho, if_pos rfl] at hk
      cases hkd : (k.procs m).killed with
      | true =>
        rw [hkd, if_pos rfl] at hk
        cases hk
        obtain ⟨h1, h2⟩ := takeOut_lists h m hle
        exact ⟨h1, .drop hl ho hkd rfl h2⟩
      | false =>
        rw [hkd, if_neg nofun] at hk
        split at hk
        · next k1 hk1 =>
          cases hk
          obtain ⟨q, hq, rfl⟩ := push_ok hk1
          set k0 := k.upd m fun r => { r with current_queue := r.current_queue + 1 }
          obtain ⟨h1, h2⟩ := push_lists (k := k0) h hq
          have hle' : (i : Int) ≤ ((k0.setQueue (l + 1) q).queue l).top := by
            rw [setQueue_of_ne _ _ (succ_ne hl).symm]
            exact hle
          obtain ⟨h3, h4⟩ := takeOut_lists h1 m hle'
          refine ⟨h3, .demote hl ho hkd ?_ ?_⟩
          · funext q
            simp only [takeOut, upd_procs, setQueue_procs]
            split
            · simp only [k0, upd_same]
            · next e => simp only [k0, upd_of_ne _ _ e]
          · rw [h4, h2]
            have e : update k0.lists (l + 1) (k0.lists (l + 1) ++ [m]) l = k.lists l :=
              update_of_ne (succ_ne hl).symm ..
            rw [e]
            rfl
        · cases hk

lemma charge_still (h : k.charge p = .ok k') :
    k'.queue = k.queue ∧ (∀ q, (k'.procs q).current_queue = (k.procs q).current_queue) ∧
      ∀ q, (k'.procs q).killed = (k.procs q).killed := by
  have keep : ∀ f : Proc → Proc, (∀ r, (f r).current_queue = r.current_queue ∧
      (f r).killed = r.killed) → (k.upd p f).queue = k.queue ∧
      (∀ q, ((k.upd p f).procs q).current_queue = (k.procs q).current_queue) ∧
      ∀ q, ((k.upd p f).procs q).killed = (k.procs q).killed := by
    intro f hf
    refine ⟨rfl, fun q => ?_, fun q => ?_⟩ <;> rw [upd_procs] <;> split
    · next e => rw [(hf _).1, e]
    · rfl
    · next e => rw [(hf _).2, e]
    · rfl
  unfold charge at h
  split at h
  · split at h
    · cases h
    · cases h; exact keep _ fun _ => ⟨rfl, rfl⟩
  · cases h; exact keep _ fun _ => ⟨rfl, rfl⟩
  · cases h; exact ⟨rfl, fun _ => rfl, fun _ => rfl⟩

/-- no two slots in use have the same pid. -/
def PidsOk (k : Kernel) : Prop :=
  ∀ p q, (k.procs p).state ≠ .UNUSED → (k.procs q).state ≠ .UNUSED → (k.procs p).pid = (k.procs q).pid → p = q

lemma PidsOk.mono (h : PidsOk k) (hu : ∀ p, (k'.procs p).state ≠ .UNUSED →
    (k.procs p).state ≠ .UNUSED ∧ (k'.procs p).pid = (k.procs p).pid) : PidsOk k' := by
  intro p q hp hq e
  obtain ⟨hp', ep⟩ := hu p hp
  obtain ⟨hq', eq⟩ := hu q hq
  rw [ep, eq] at e
  exact h p q hp' hq' e

lemma PidsOk.calm (h : PidsOk k) (hc : CalmTo k k') : PidsOk k' :=
  h.mono fun p => (hc.procs p).used

end Kernel

variable {np p z m : Slot} {a : Action n} {c : Fin n} {x : Bool} {l j : Fin 5} {i : Nat}

/-! ## the slot that allocproc takes -/

/-- what the part of `fork` that takes the slot `np` leaves in the table. -/
structure Alloced (k : Kernel) (np : Slot) (k' : Kernel) : Prop where
  state : (k'.procs np).state = .EMBRYO
  pid : (k'.procs np).pid = k.nextpid
  cq : (k'.procs np).current_queue = 0
  ticks : (k'.procs np).ticks = fun _ => 0
  others : ∀ q, q ≠ np → (k'.procs q).state = (k.procs q).state ∧
    (k'.procs q).pid = (k.procs q).pid ∧ (k'.procs q).current_queue = (k.procs q).current_queue ∧
    (k'.procs q).ticks = (k.procs q).ticks ∧ (k'.procs q).killed = (k.procs q).killed

lemma alloced (k : Kernel) (p np : Slot) (q : ArrQueue Slot) :
    Alloced k np (((k.embryo np).setQueue 0 q).upd p fun r => { r with fork := .kalloc np }) := by
  have hn : (k.embryo np).procs np = { k.procs np with
      state := .EMBRYO, pid := k.nextpid, current_queue := 0, ticks := fun _ => 0,
      waittime := 5 } := by simp [Kernel.embryo]
  have ho : ∀ q, q ≠ np → (k.embryo np).procs q = k.procs q := by
    intro q e
    simp [Kernel.embryo, upd_of_ne _ _ e]
  have field : ∀ {β : Type} (f : Proc → β), (∀ r pc, f { r with fork := pc } = f r) → ∀ x,
      f ((((k.embryo np).setQueue 0 q).upd p fun r => { r with fork := .kalloc np }).procs x) =
        f ((k.embryo np).procs x) := by
    intro β f hf x
    rw [upd_procs]
    split
    · next e => rw [hf, e]; rfl
    · rfl
  refine ⟨?_, ?_, ?_, ?_, fun x hx => ⟨?_, ?_, ?_, ?_, ?_⟩⟩
  · rw [field Proc.state fun _ _ => rfl, hn]
  · rw [field Proc.pid fun _ _ => rfl, hn]
  · rw [field Proc.current_queue fun _ _ => rfl, hn]
  · rw [field Proc.ticks fun _ _ => rfl, hn]
  · rw [field Proc.state fun _ _ => rfl, ho x hx]
  · rw [field Proc.pid fun _ _ => rfl, ho x hx]
  · rw [field Proc.current_queue fun _ _ => rfl, ho x hx]
  · rw [field Proc.ticks fun _ _ => rfl, ho x hx]
  · rw [field Proc.killed fun _ _ => rfl, ho x hx]

lemma alloced_lists (hf : k.AllFull) (p : Slot) {q : ArrQueue Slot}
    (hq : (k.queue 0).push NPROC np = some q) :
    (((k.embryo np).setQueue 0 q).upd p fun r => { r with fork := .kalloc np }).AllFull ∧
      (((k.embryo np).setQueue 0 q).upd p fun r => { r with fork := .kalloc np }).lists =
        update k.lists 0 (k.lists 0 ++ [np]) :=
  push_lists (k := k.embryo np) hf hq

lemma Alloced.pids (h : Alloced k np k') (hk : k.PidsOk)
    (hf : ∀ q, (k.procs q).state ≠ .UNUSED → (k.procs q).pid ≠ k.nextpid) : k'.PidsOk := by
  have old : ∀ q, q ≠ np → (k'.procs q).state ≠ .UNUSED →
      (k.procs q).state ≠ .UNUSED ∧ (k'.procs q).pid = (k.procs q).pid := by
    intro q hq hu
    obtain ⟨e1, e2, -⟩ := h.others q hq
    exact ⟨e1 ▸ hu, e2⟩
  intro x y hx hy e
  by_cases ex : x = np <;> by_cases ey : y = np
  · rw [ex, ey]
  · obtain ⟨hu, ep⟩ := old y ey hy
    rw [ex, h.pid, ep] at e
    exact absurd e.symm (hf y hu)
  · obtain ⟨hu, ep⟩ := old x ex hx
    rw [ey, h.pid, ep] at e
    exact absurd e (hf x hu)
  · obtain ⟨hux, epx⟩ := old x ex hx
    obtain ⟨huy, epy⟩ := old y ey hy
    rw [epx, epy] at e
    exact hk x y hux huy e

/-! ## the reaping of a child -/

/-- what a step that frees `z` leaves. -/
structure Reaped (pol : Policy) (s : State n) (x : Bool) (z : Slot) (k' : Kernel) : Prop where
  zombie : (s.ker.procs z).state = .ZOMBIE
  gone : (k'.procs z).state = .UNUSED
  calm : ∀ q, q ≠ z → Calm (s.ker.procs q) (k'.procs q)
  cq : ∀ q, (k'.procs q).current_queue = (s.ker.procs q).current_queue
  ticks : ∀ q, (k'.procs q).ticks = (s.ker.procs q).ticks
  killed : ∀ q, q ≠ z → (k'.procs q).killed = false → (s.ker.procs q).killed = false
  full : s.ker.AllFull → k'.AllFull
  lists : s.ker.AllFull → k'.lists = if pol = .MLFQ ∧ x = false then
    s.ker.remLists (s.ker.procs z).pid (s.ker.procs z).current_queue else s.ker.lists

lemma Waiting.reaped (hw : Waiting s a c p x k) (hz : k.zombieChild p = some z) (hk : k.reap pol x z = .ok k') :
    Reaped pol s x z k' := by
  have hlife := (Life.reap hw.calm hz hk).reap_zombie
  obtain ⟨st, pd, -, -, ho, hez, hq, -⟩ := reap_ok hk
  have field : ∀ {β : Type} (f : Proc → β), f (k'.procs z) = f (k.procs z) → ∀ q, f (k'.procs q) = f (k.procs q) := by
    intro β f e q
    by_cases eq : q = z
    · rw [eq, e]
    · rw [ho q eq]
  have hpids : (fun e => (k.procs e).pid) = fun e => (s.ker.procs e).pid :=
    funext fun e => (hw.calm.procs e).pid
  have hrem : ∀ pid curq, k.remLists pid curq = s.ker.remLists pid curq := by
    intro pid curq
    funext l
    rw [remLists_apply, remLists_apply, lists_congr hw.still.queue]
    simp only [congrFun hpids]
  refine ⟨hlife.1, hlife.2.1, hlife.2.2.2, fun q => ?_, fun q => ?_, fun q hqz e => ?_, fun hf => ?_, fun hf => ?_⟩
  · rw [← hw.still.cq q]
    exact field Proc.current_queue (by rw [hez]) q
  · rw [← hw.still.ticks q]
    exact field Proc.ticks (by rw [hez]) q
  · rw [ho q hqz] at e
    exact hw.still.killed q e
  · have hf' : k.AllFull := hf.congr hw.still.queue
    split at hq
    · exact (remProcess_lists hf' _ _).1.congr hq
    · exact hf'.congr hq
  · have hf' : k.AllFull := hf.congr hw.still.queue
    split
    · next hc =>
      rw [if_pos hc] at hq
      rw [lists_congr hq, (remProcess_lists hf' _ _).2, hrem, (hw.calm.procs z).pid, hw.still.cq z]
    · next hc =>
      rw [if_neg hc] at hq
      rw [lists_congr hq, lists_congr hw.still.queue]

lemma Reaped.sublist (h : Reaped pol s x z k') (hf : s.ker.AllFull)
    (l : Fin 5) : (k'.lists l).Sublist (s.ker.lists l) := by
  rw [h.lists hf]
  split
  · rw [remLists_apply]
    split
    · exact ArrQueue.remSkip_sublist ..
    · exact List.Sublist.refl _
  · exact List.Sublist.refl _

/-! ## the invariant -/

/-- no entry of the queue `curq` that stands below a parked index has this pid. -/
def Clear (s : State n) (pid curq : Int) : Prop :=
  ∀ c, (s.cpus c).proc ≠ none → ((s.cpus c).lvl.val : Int) = curq → ∀ j, j < (s.cpus c).i →
    ∀ e, (s.ker.queue (s.cpus c).lvl).cell j = some e → (s.ker.procs e).pid ≠ pid

/-- the step shifts no entry away under an index that a scheduler has parked. -/
structure NoShift (s : State n) (a : Action n) : Prop where
  wait : ∀ z, reaps s a = some (z, false) → Clear s (s.ker.procs z).pid (s.ker.procs z).current_queue
  age : ∀ p, promoted s a = some p → Clear s (s.ker.procs p).pid ((s.ker.procs p).current_queue - 1)
  back : ∀ c m, a = .cpu c → (s.cpus c).mode = .back → (s.cpus c).proc = some m →
    ((s.cpus c).lvl = 4 ∨ s.ker.sliceOver (s.cpus c).lvl m = true) →
    ∀ c', c' ≠ c → (s.cpus c').proc ≠ none → (s.cpus c').lvl = (s.cpus c).lvl → (s.cpus c').i < (s.cpus c).i

/-- a pid that the step hands out is not in use. -/
def FreshPid (s : State n) (a : Action n) : Prop :=
  ∀ np, allocates s a = some np → ∀ q, (s.ker.procs q).state ≠ .UNUSED → (s.ker.procs q).pid ≠ s.ker.nextpid

instance (s : State n) (pid curq : Int) : Decidable (Clear s pid curq) :=
  inferInstanceAs (Decidable (∀ _, _))

instance (s : State n) (a : Action n) : Decidable (NoShift s a) :=
  decidable_of_iff
    ((∀ z, reaps s a = some (z, false) →
        Clear s (s.ker.procs z).pid (s.ker.procs z).current_queue) ∧
      (∀ p, promoted s a = some p → Clear s (s.ker.procs p).pid ((s.ker.procs p).current_queue - 1)) ∧
      ∀ c m, a = .cpu c → (s.cpus c).mode = .back → (s.cpus c).proc = some m →
        ((s.cpus c).lvl = 4 ∨ s.ker.sliceOver (s.cpus c).lvl m = true) →
        ∀ c', c' ≠ c → (s.cpus c').proc ≠ none → (s.cpus c').lvl = (s.cpus c).lvl → (s.cpus c').i < (s.cpus c).i)
    ⟨fun h => ⟨h.1, h.2.1, h.2.2⟩, fun h => ⟨h.wait, h.age, h.back⟩⟩

instance (s : State n) (a : Action n) : Decidable (FreshPid s a) :=
  inferInstanceAs (Decidable (∀ _, _))

structure Arrays (s : State n) : Prop where
  full : s.ker.AllFull
  parked : ∀ c m, (s.cpus c).proc = some m → (s.ker.lists (s.cpus c).lvl)[(s.cpus c).i]? = some m
  pids : s.ker.PidsOk

instance (k : Kernel) : Decidable k.PidsOk := inferInstanceAs (Decidable (∀ _, _))

instance (s : State n) : Decidable (Arrays s) :=
  decidable_of_iff
    ((∀ l, (s.ker.queue l).Full) ∧
      (∀ c m, (s.cpus c).proc = some m → (s.ker.lists (s.cpus c).lvl)[(s.cpus c).i]? = some m) ∧
      s.ker.PidsOk)
    ⟨fun h => ⟨h.1, h.2.1, h.2.2⟩, fun h => ⟨h.full, h.parked, h.pids⟩⟩

lemma Arrays.rem_parked (h : Arrays s) {pid curq : Int} (hc : Clear s pid curq) (hm : (s.cpus c).proc = some m)
    (hpid : (s.ker.procs m).pid ≠ pid) : (s.ker.remLists pid curq (s.cpus c).lvl)[(s.cpus c).i]? = some m := by
  have hp := h.parked c m hm
  rw [remLists_apply]
  split
  · next e =>
    refine ArrQueue.remSkip_getElem? hp fun j y hj hy => ?_
    rw [decide_eq_false_iff_not]
    rcases Nat.lt_or_eq_of_le hj with hlt | rfl
    · exact hc c (by rw [hm]; nofun) e j hlt y (h.full.index hy).2
    · rw [hp] at hy
      cases hy
      exact hpid
  · exact hp

lemma Arrays.age_parked (h : Arrays s) (hc : Clear s (s.ker.procs p).pid (j.val : Int))
    (hm : (s.cpus c).proc = some m) (hpid : (s.ker.procs m).pid ≠ (s.ker.procs p).pid) : (if (s.cpus c).lvl = j then
      ArrQueue.remSkip (fun e => (s.ker.procs e).pid = (s.ker.procs p).pid)
        (update s.ker.lists l (s.ker.lists l ++ [p]) (s.cpus c).lvl)
      else update s.ker.lists l (s.ker.lists l ++ [p]) (s.cpus c).lvl)[(s.cpus c).i]? = some m := by
  have hp := h.parked c m hm
  obtain ⟨hlt, -⟩ := List.getElem?_eq_some_iff.mp hp
  -- the appended entry lies beyond the parked index
  have happ : ∀ i, i ≤ (s.cpus c).i →
      (update s.ker.lists l (s.ker.lists l ++ [p]) (s.cpus c).lvl)[i]? = (s.ker.lists (s.cpus c).lvl)[i]? := by
    intro i hi
    by_cases e : (s.cpus c).lvl = l
    · rw [e, update_self, List.getElem?_append_left (by rw [← e]; omega)]
    · rw [update_of_ne e]
  split
  · next e =>
    refine ArrQueue.remSkip_getElem? ?_ fun i y hi hy => ?_
    · rw [happ _ (Nat.le_refl _), hp]
    · rw [happ i hi] at hy
      rw [decide_eq_false_iff_not]
      rcases Nat.lt_or_eq_of_le hi with hlt | rfl
      · exact hc c (by rw [hm]; nofun) (by rw [e]) i hlt y (h.full.index hy).2
      · rw [hp] at hy
        cases hy
        exact hpid
  · rw [happ _ (Nat.le_refl _), hp]

lemma Arrays.back_parked (h : Arrays s) {c' : Fin n} {m' : Slot}
    (hn : ((s.cpus c).lvl = 4 ∨ s.ker.sliceOver (s.cpus c).lvl m = true) →
      (s.cpus c').lvl = (s.cpus c).lvl → (s.cpus c').i < (s.cpus c).i)
    (hm' : (s.cpus c').proc = some m')
    (hb : s.ker.BackCase (s.cpus c).lvl (s.cpus c).i m k') :
    (k'.lists (s.cpus c').lvl)[(s.cpus c').i]? = some m' := by
  have hp := h.parked c' m' hm'
  have append : ∀ {L : List Slot} (tail : List Slot), L[(s.cpus c').i]? = some m' →
      (L ++ tail)[(s.cpus c').i]? = some m' := by
    intro L tail e
    rw [List.getElem?_append_left (List.getElem?_eq_some_iff.mp e).1, e]
  -- an entry taken out of the same queue stands above the parked index
  have erase : ((s.cpus c).lvl = 4 ∨ s.ker.sliceOver (s.cpus c).lvl m = true) →
      (s.cpus c').lvl = (s.cpus c).lvl →
      ((s.ker.lists (s.cpus c).lvl).eraseIdx (s.cpus c).i)[(s.cpus c').i]? = some m' := by
    intro hc hl
    rw [List.getElem?_eraseIdx_of_lt (hn hc hl), ← hl, hp]
  cases hb with
  | stay hl ho e => rw [e]; exact hp
  | spin hl hk hp' hq | repeatLast hl hk hp' hx hq =>
    rw [hq]
    by_cases e : (s.cpus c').lvl = 4
    · rw [e, update_self]
      exact append _ (hl ▸ erase (.inl hl) (e.trans hl.symm))
    · rw [update_of_ne e, hp]
  | drop hl ho hk hp' hq =>
    rw [hq]
    by_cases e : (s.cpus c').lvl = (s.cpus c).lvl
    · rw [e, update_self]
      exact erase (.inr ho) e
    · rw [update_of_ne e, hp]
  | demote hl ho hk hp' hq =>
    rw [hq]
    by_cases e : (s.cpus c').lvl = (s.cpus c).lvl
    · rw [e, update_self]
      exact erase (.inr ho) e
    · rw [update_of_ne e]
      by_cases e' : (s.cpus c').lvl = (s.cpus c).lvl + 1
      · rw [e', update_self]
        exact append _ (e' ▸ hp)
      · rw [update_of_ne e', hp]

section
variable (hb : k.BackCase l i m k')
include hb

lemma Kernel.BackCase.calm_pids
    (q : Slot) : (k'.procs q).state = (k.procs q).state ∧ (k'.procs q).pid = (k.procs q).pid ∧
      (k'.procs q).killed = (k.procs q).killed := by
  cases hb with
  | stay hl ho e => rw [e]; exact ⟨rfl, rfl, rfl⟩
  | spin hl hk hp | repeatLast hl hk hp => rw [hp]; exact ⟨rfl, rfl, rfl⟩
  | drop hl ho hk hp | demote hl ho hk hp =>
    rw [hp, upd_procs]
    split
    · next e => rw [e]; exact ⟨rfl, rfl, rfl⟩
    · exact ⟨rfl, rfl, rfl⟩

lemma Kernel.BackCase.mem_of_ne {x : Slot} (hx : x ∈ k'.lists j) (hne : x ≠ m) : x ∈ k.lists j := by
  have update : ∀ {L : List Slot} {f : Fin 5 → List Slot} {t : Fin 5}, (∀ j, x ∈ f j → x ∈ k.lists j) →
      (x ∈ L → x ∈ k.lists t) → x ∈ update f t L j → x ∈ k.lists j := by
    intro L f t hf hL hx
    by_cases e : j = t
    · rw [e, update_self] at hx
      rw [e]
      exact hL hx
    · rw [update_of_ne e] at hx
      exact hf j hx
  have erase : ∀ t, x ∈ (k.lists t).eraseIdx i → x ∈ k.lists t := fun t h => mem_of_mem_eraseIdx h
  have append : ∀ t y, (x = y → x ∈ k.lists t) → ∀ L, (x ∈ L → x ∈ k.lists t) → x ∈ L ++ [y] → x ∈ k.lists t := by
    intro t y hy L hL hx
    rcases mem_append.mp hx with hx | hx
    · exact hL hx
    · exact hy (mem_singleton.mp hx)
  cases hb with
  | stay hl ho e => rw [e] at hx; exact hx
  | spin hl hk hp hq =>
    rw [hq] at hx
    exact update (fun _ h => h) (append 4 m (fun e => absurd e hne) _ (erase 4)) hx
  | @repeatLast hl hk hp y hy hq =>
    rw [hq] at hx
    exact update (fun _ h => h) (append 4 y (fun e => e ▸ mem_of_getLast? hy) _ (erase 4)) hx
  | drop hl ho hk hp hq =>
    rw [hq] at hx
    exact update (fun _ h => h) (erase l) hx
  | demote hl ho hk hp hq =>
    rw [hq] at hx
    refine update (fun t h => ?_) (erase l) hx
    by_cases e : t = l + 1
    · rw [e, update_self] at h
      rw [e]
      exact append (l + 1) m (fun e => absurd e hne) _ id h
    · rw [update_of_ne e] at h
      exact h

lemma Kernel.BackCase.procs_of_ne {x : Slot} (hne : x ≠ m) : k'.procs x = k.procs x := by
  cases hb with
  | stay hl ho e => rw [e]
  | spin hl hk hp => rw [hp]
  | repeatLast hl hk hp => rw [hp]
  | drop hl ho hk hp | demote hl ho hk hp => rw [hp, upd_of_ne _ _ hne]

end

/-- **Steps without shifts keep the arrays in order.** -/
theorem Arrays.keep (hs : Sound s) (h : Arrays s) (hn : NoShift s a)
    (hf : FreshPid s a) (hm : QMove .MLFQ s a s') : Arrays s' := by
  -- the CPUs that do not take the step
  have others : ∀ {c c' : Fin n} {k : Kernel} {cpu : Cpu} {l : Option (Fin n)} {m : Slot},
      c' ≠ c → ((s.next c k cpu l).cpus c').proc = some m → (s.cpus c').proc = some m ∧
        (s.next c k cpu l).cpus c' = s.cpus c' := by
    intro c c' k cpu l m hc hp
    rw [next_others s k cpu l hc] at hp ⊢
    exact ⟨hp, rfl⟩
  cases hm with
  | quiet hq =>
    refine ⟨h.full.congr hq.still.queue, fun c m hc => ?_, h.pids.mono hq.used⟩
    obtain ⟨e, hi⟩ := hq.parked rfl c
    rw [e] at hc
    obtain ⟨e1, e2⟩ := hi (by rw [hc]; nofun)
    rw [e1, e2, lists_congr hq.still.queue]
    exact h.parked c m hc
  | @charge c u p k hm hp hk =>
    obtain ⟨hq, -⟩ := charge_still hk
    refine ⟨h.full.congr hq, fun c' m hc => ?_, h.pids.calm (calmTo_charge hk)⟩
    rw [next_ker, lists_congr hq]
    by_cases e : c' = c
    · subst e
      rw [next_same] at hc ⊢
      exact h.parked c' m hc
    · obtain ⟨hc', e'⟩ := others e hc
      rw [e']
      exact h.parked c' m hc'
  | @run c p ha hm hpol he hr =>
    have hq := (stillTo_dispatchQueue s.ker p).queue
    refine ⟨h.full.congr hq, fun c' m hc => ?_, h.pids.mono fun q hq' => ?_⟩
    · rw [next_ker, lists_congr hq]
      by_cases e : c' = c
      · subst e
        rw [next_same] at hc ⊢
        cases hc
        simp only [examined, if_true] at he
        split at he
        · next ht => exact h.full.get ht he
        · cases he
      · obtain ⟨hc', e'⟩ := others e hc
        rw [e']
        exact h.parked c' m hc'
    · obtain ⟨hpid, -, hu⟩ := dispatchQueue_procs hr q
      exact ⟨fun e => hq' (hu.mpr e), hpid⟩
  | @alloc c p np q hm hp ha hu hq =>
    obtain ⟨h1, h2⟩ := alloced_lists h.full p hq
    refine ⟨h1, fun c' m hc => ?_, ?_⟩
    · have hc' : (s.cpus c').proc = some m ∧ (s.next c (((s.ker.embryo np).setQueue 0 q).upd p
          fun r => { r with fork := .kalloc np }) (s.cpus c) s.lock).cpus c' = s.cpus c' := by
        by_cases e : c' = c
        · subst e
          rw [next_same] at hc ⊢
          exact ⟨hc, rfl⟩
        · exact others e hc
      have hp' := h.parked c' m hc'.1
      rw [hc'.2, next_ker, h2]
      by_cases e : (s.cpus c').lvl = 0
      · rw [e, update_self]
        rw [e] at hp'
        rw [List.getElem?_append_left (List.getElem?_eq_some_iff.mp hp').1, hp']
      · rw [update_of_ne e]
        exact hp'
    · exact (alloced s.ker p np q).pids h.pids (hf np ha)
  | @age c l i p k hm ha ht hp hr hk =>
    obtain ⟨m, hcq, hfull, hlists, hprocs⟩ := promote_lists h.full hk
    have hcalm := (schedTo_promote hk).calm
    refine ⟨hfull, fun c' x hc => ?_, h.pids.calm hcalm⟩
    have hne : c' ≠ c := by
      rintro rfl
      rw [next_same] at hc
      change (s.cpus c').proc = some x at hc
      rw [hs.off_none (by rw [hm]; rfl)] at hc
      cases hc
    obtain ⟨hc', e⟩ := others hne hc
    have hrun := hs.others_running (.inr (by rw [hm]; rfl)) hne hc'
    rw [e, next_ker, hlists]
    refine h.age_parked (hcq ▸ hn.age p ha) hc' fun e' => ?_
    have := h.pids x p (by rw [hrun]; nofun) (by rw [hr]; nofun) e'
    rw [this, hr] at hrun
    cases hrun
  | @back c m k ha hm hpol hp hk =>
    obtain ⟨hfull, hb⟩ := afterSwtch_lists h.full (h.parked c m hp) hk
    refine ⟨hfull, fun c' x hc => ?_, h.pids.mono fun q hq => ?_⟩
    · have hne : c' ≠ c := by
        rintro rfl
        rw [next_same] at hc
        cases hc
      obtain ⟨hc', e⟩ := others hne hc
      rw [e, next_ker]
      exact h.back_parked (fun ho hl => hn.back c m ha hm hp ho c' hne (by rw [hc']; nofun) hl) hc' hb
    · obtain ⟨e1, e2, -⟩ := hb.calm_pids q
      rw [next_ker, e1] at hq
      exact ⟨hq, e2⟩
  | @reap c p z x k k' hw ha hz hk =>
    have hr := hw.reaped hz hk
    refine ⟨hr.full h.full, fun c' m hc => ?_, h.pids.mono fun q hq => ?_⟩
    · have hc' : (s.cpus c').proc = some m ∧
          ((s.next c k' { s.cpus c with mode := .run } none).cpus c').lvl = (s.cpus c').lvl ∧
          ((s.next c k' { s.cpus c with mode := .run } none).cpus c').i = (s.cpus c').i := by
        by_cases e : c' = c
        · subst e
          rw [next_same] at hc ⊢
          exact ⟨hc, rfl, rfl⟩
        · obtain ⟨hc', e'⟩ := others e hc
          rw [e']
          exact ⟨hc', rfl, rfl⟩
      obtain ⟨hc', el, ei⟩ := hc'
      rw [el, ei, next_ker, hr.lists h.full]
      split
      · next hx =>
        obtain ⟨-, rfl⟩ := hx
        refine h.rem_parked (hn.wait z ha) hc' fun e => ?_
        have hmz := h.pids m z (hs.proc_state hc').1 (by rw [hr.zombie]; nofun) e
        exact hw.zombie_off hs hr.zombie c' (hmz ▸ hc')
      · exact h.parked c' m hc'
    · have hqz : q ≠ z := by
        rintro rfl
        exact hq hr.gone
      exact (hr.calm q hqz).used hq

lemma Run.arrays {tr : Trace n} (hs : Sound s) (ha : Arrays s) (h : Run .MLFQ s tr s')
    (hc : ∀ e ∈ tr, NoShift e.1 e.2 ∧ FreshPid e.1 e.2) : Sound s' ∧ Arrays s' := by
  refine h.invariant (fun s => Sound s ∧ Arrays s) (fun s a => NoShift s a ∧ FreshPid s a) ?_ hc ⟨hs, ha⟩
  intro s a s' hi hc hst
  exact ⟨step_sound hi.1 hst, hi.2.keep hi.1 hc.1 hc.2 (step_qmove hi.1 hst)⟩

lemma firstKernel_lists (npages need : Nat) (l : Fin 5) :
    (firstKernel npages need).lists l = if l = 0 then [0] else [] := by
  unfold Kernel.lists
  split
  · next e => rw [e, firstKernel_queue_zero]; rfl
  · next e => rw [firstKernel_queue_ne _ _ e]; rfl

lemma Boot.arrays {npages need : Nat} (h : Boot npages need s) : Arrays s := by
  obtain ⟨-, rfl⟩ := h.eq
  refine ⟨fun l => ?_, nofun, fun p q hp hq _ => ?_⟩
  · show ((firstKernel npages need).queue l).Full
    by_cases e : l = 0
    · rw [e, firstKernel_queue_zero]
      refine ⟨by decide, fun i hi => ?_⟩
      obtain rfl : i = 0 := by
        change (i : Int) ≤ 0 at hi
        omega
      rfl
    · rw [firstKernel_queue_ne _ _ e]
      exact ArrQueue.full_empty
  · have only : ∀ p, ((firstKernel npages need).procs p).state ≠ .UNUSED → p = 0 := by
      intro p hp
      by_contra e
      rw [firstKernel_others _ _ e] at hp
      exact hp rfl
    rw [only p hp, only q hq]

end Xv6
