import Xv6.Queue.Placed

/-!
# One call of `ageing`

`Kernel.ageing` is the call as a whole: the four loops over `q1 .. q4`, one after the other. `Aged k k'` is what it is
for: each process that has waited too long goes from its queue to the end of the queue above.

The loop over `q_{l+1}` decrements `current_queue` BEFORE it passes it to `rem_process`. So what `rem_process` takes
out is the entry just appended to `q_l`, and `q_{l+1}` is never edited (`Looped.queue`): the call does its work exactly
if there is nothing to do (`ageing_promotes_iff`).
-/

namespace Xv6
open Lib List Function

variable {n : Nat} {k k' : Kernel} {l : Fin 4}

namespace Kernel

/-! ## the call -/

/-- the loop over `q_{l+1}` from the turn `i` on; `q_{l+1}` has `NPROC` cells. -/
def ageLoop (l : Fin 4) : Nat → Nat → Kernel → Except Stop Kernel
  | 0, _, _ => .error .index
  | n + 1, i, k =>
    match k.ageTurn l i with
    | .ok (some k') => ageLoop l n (i + 1) k'
    | .ok none => .ok k
    | .error e => .error e

def ageing (k : Kernel) : Except Stop Kernel :=
  (finRange 4).foldlM (fun k l => k.ageLoop l (NPROC + 1) 0) k

/-- the processes that `ageing` is to move. -/
def Due (k : Kernel) (p : Slot) : Prop := (k.procs p).state = .RUNNABLE ∧ k.waited p = true

instance (k : Kernel) : DecidablePred k.Due := fun _ => inferInstanceAs (Decidable (_ ∧ _))

/-- what stays in `q_l`. -/
def stays (k : Kernel) (l : Fin 5) : List Slot :=
  if l = 0 then k.lists 0 else (k.lists l).filter fun p => ¬ k.Due p

/-- what comes to `q_l` from the queue below. -/
def comes (k : Kernel) (l : Fin 5) : List Slot :=
  if l = 4 then [] else (k.lists (l + 1)).filter fun p => k.Due p

/-- every process that has waited too long is moved up by one queue, and nothing else happens. -/
structure Aged (k k' : Kernel) : Prop where
  queues : ∀ l, k'.lists l = k.stays l ++ k.comes l
  moved : ∀ (l : Fin 4) p, p ∈ k.lists l.succ → k.Due p → k'.procs p = { k.procs p with
    current_queue := l.val, ticks := update (k.procs p).ticks l.castSucc 0, start := k.now }
  others : ∀ p, (∀ l : Fin 4, p ∈ k.lists l.succ → ¬ k.Due p) → k'.procs p = k.procs p
  once : ∀ l p, p ∈ k.lists l → ∃ m, p ∈ k'.lists m ∧ ∀ m', p ∈ k'.lists m' → m' = m

/-! ## one turn -/

/-- what one loop may change: the queue above, and the processes of its own queue. -/
structure Looped (l : Fin 4) (k k' : Kernel) : Prop where
  full : k'.AllFull
  queue : ∀ m, m ≠ l.castSucc → k'.queue m = k.queue m
  length : (k'.lists l.castSucc).length ≤ (k.lists l.castSucc).length
  procs : ∀ p, p ∉ k.lists l.succ → k'.procs p = k.procs p
  ticks : k'.ticks = k.ticks

lemma Looped.refl (h : k.AllFull) : Looped l k k :=
  ⟨h, fun _ _ => rfl, Nat.le_refl _, fun _ _ => rfl, rfl⟩

lemma Looped.lists (h : Looped l k k') {m : Fin 5} (hm : m ≠ l.castSucc) : k'.lists m = k.lists m := by
  unfold Kernel.lists
  rw [h.queue m hm]

lemma succ_ne_castSucc (l : Fin 4) : l.succ ≠ l.castSucc := by
  revert l
  decide

lemma remSkip_length_lt {f : Slot → Bool} {L : List Slot} {x : Slot} (hx : x ∈ L) (hf : f x = true) :
    (ArrQueue.remSkip f L).length < L.length := by
  have hle := (ArrQueue.remSkip_sublist f L).length_le
  rcases Nat.lt_or_eq_of_le hle with h | h
  · exact h
  · -- nothing is taken out: then there is no hit
    have he := (ArrQueue.remSkip_sublist f L).eq_of_length h
    exfalso
    induction L with
    | nil => cases hx
    | cons a L ih =>
      cases hfa : f a with
      | true =>
        have h1 := congrArg length he
        have h2 := (ArrQueue.remSkip_sublist f (L.drop 1)).length_le
        rw [ArrQueue.remSkip_hit hfa, length_append, length_take, length_cons] at h1
        rw [length_drop] at h2
        omega
      | false =>
        rw [ArrQueue.remSkip_cons_neg hfa] at he
        have he := (cons.inj he).2
        rcases mem_cons.mp hx with rfl | hx
        · rw [hf] at hfa
          cases hfa
        · exact ih hx (by rw [he]) (by rw [he]) he

lemma promote_looped (hf : k.AllFull) {p : Slot} (hp : p ∈ k.lists l.succ)
    (hcq : (k.procs p).current_queue = l.succ.val) (hroom : (k.lists l.castSucc).length < NPROC) :
    ∃ k', k.promote l p = .ok k' ∧ Looped l k k' ∧ ∀ q, q ≠ p → k'.procs q = k.procs q := by
  obtain ⟨q, hq⟩ := (hf l.castSucc).push_some p hroom
  have hm : queueNo ((k.procs p).current_queue - 1) = some l.castSucc := by
    rw [hcq, ← queueNo_val l.castSucc]
    congr 1
    show ((l.val + 1 : Nat) : Int) - 1 = l.val
    omega
  have hok : ∃ k', k.promote l p = .ok k' := by
    unfold promote push
    dsimp only
    rw [hm]
    dsimp only
    rw [upd_queue, hq]
    exact ⟨_, rfl⟩
  obtain ⟨k', hk'⟩ := hok
  obtain ⟨m, q', hm', hq', rfl⟩ := promote_ok hk'
  have hml : m = l.castSucc := by
    rw [hm', queueNo_val] at hm
    exact Option.some.inj hm
  subst hml
  obtain ⟨h1, h2⟩ := push_lists (k := k.raise l.castSucc p) hf hq'
  obtain ⟨h3, h4⟩ := remProcess_lists h1 (k.procs p).pid l.castSucc.val
  refine ⟨_, hk', ⟨h3, fun m hne => ?_, ?_, fun r hr => ?_, by simp [raise]⟩, fun r hr => ?_⟩
  · unfold remProcess
    rw [queueNo_val]
    rw [setQueue_of_ne _ _ hne, setQueue_of_ne _ _ hne]
    rfl
  · have hself : ((k.raise l.castSucc p).procs p).pid = (k.procs p).pid := raise_pid ..
    rw [h4, remLists_apply, if_pos rfl, h2, update_self]
    have hlt := remSkip_length_lt (f := fun e => decide (((k.raise l.castSucc p).procs e).pid = (k.procs p).pid))
      (L := k.lists l.castSucc ++ [p]) (mem_append_right _ mem_cons_self) (decide_eq_true hself)
    rw [length_append, length_singleton] at hlt
    exact Nat.le_of_lt_succ hlt
  · rw [remProcess_procs, setQueue_procs]
    refine upd_of_ne _ _ fun e => hr ?_
    rw [e]
    exact hp
  · rw [remProcess_procs, setQueue_procs]
    exact upd_of_ne _ _ hr

lemma Looped.trans {k'' : Kernel} (h : Looped l k k') (h' : Looped l k' k'') : Looped l k k'' := by
  refine ⟨h'.full, fun m hm => (h'.queue m hm).trans (h.queue m hm), h'.length.trans h.length, fun p hp => ?_,
    h'.ticks.trans h.ticks⟩
  rw [h'.procs p (by rw [h.lists (succ_ne_castSucc l)]; exact hp), h.procs p hp]

/-! ## one loop -/

/-- **The loop over `q_{l+1}`** ends; if nobody has waited too long it does nothing. The entries from `i` on are as
they were, so the invariant speaks about them only. -/
theorem ageLoop_looped (t : Nat) : ∀ {i : Nat} {k : Kernel}, k.AllFull → (k.lists l.succ).Nodup →
    (k.lists l.succ).length ≤ i + t → (∀ p ∈ (k.lists l.succ).drop i, (k.procs p).current_queue = l.succ.val) →
    (k.lists l.succ ≠ [] → (k.lists l.castSucc).length < NPROC) →
    ∃ k', k.ageLoop l (t + 1) i = .ok k' ∧ Looped l k k' ∧ ((∀ p ∈ (k.lists l.succ).drop i, ¬ k.Due p) → k' = k) := by
  induction t with
  | zero =>
    intro i k hf _ hlen _ _
    have htop := (hf l.succ).length
    refine ⟨k, ?_, .refl hf, fun _ => rfl⟩
    unfold ageLoop ageTurn
    rw [if_neg]
    have : ((k.queue l.succ).entries.length : Int) ≤ i := by exact_mod_cast hlen
    omega
  | succ t ih =>
    intro i k hf hnd hlen hcq hroom
    have htop := (hf l.succ).length
    have hlists : (k.queue l.succ).entries = k.lists l.succ := rfl
    rw [hlists] at htop
    by_cases hi : i < (k.lists l.succ).length
    · -- the entry at `i`
      have hget : (k.lists l.succ)[i]? = some (k.lists l.succ)[i] := getElem?_eq_getElem hi
      generalize hp : (k.lists l.succ)[i] = p at hget
      obtain ⟨hle, hcell⟩ := hf.index hget
      have hdrop : (k.lists l.succ).drop i = p :: (k.lists l.succ).drop (i + 1) := by
        rw [← hp]
        exact drop_eq_getElem_cons hi
      have hmem : p ∈ k.lists l.succ := mem_of_getElem? hget
      have hnot : p ∉ (k.lists l.succ).drop (i + 1) := by
        have h1 := hnd.sublist (drop_sublist i _)
        rw [hdrop] at h1
        exact (nodup_cons.mp h1).1
      have hstep : ∀ k1, k.ageTurn l i = .ok (some k1) → k.ageLoop l (t + 1 + 1) i = k1.ageLoop l (t + 1) (i + 1) := by
        intro k1 h1
        conv => lhs; unfold ageLoop
        rw [h1]
      by_cases hdue : k.Due p
      · obtain ⟨k1, hk1, hl1, hother⟩ := promote_looped hf hmem
          (hcq p (by rw [hdrop]; exact mem_cons_self)) (hroom (ne_nil_of_mem hmem))
        have hturn : k.ageTurn l i = .ok (some k1) := by
          unfold ageTurn
          rw [if_pos hle, hcell]
          dsimp only
          rw [if_pos ⟨hdue.1, hdue.2⟩, hk1]
        have hsame := hl1.lists (succ_ne_castSucc l)
        obtain ⟨k', hk', hl', -⟩ := @ih (i + 1) k1 hl1.full (by rw [hsame]; exact hnd) (by rw [hsame]; omega)
          (fun r hr => by
            rw [hsame] at hr
            rw [hother r (fun e => hnot (e ▸ hr))]
            exact hcq r (by rw [hdrop]; exact mem_cons_of_mem _ hr))
          (fun h => by
            rw [hsame] at h
            exact Nat.lt_of_le_of_lt hl1.length (hroom h))
        refine ⟨k', (hstep k1 hturn).trans hk', hl1.trans hl', fun hno => ?_⟩
        exact absurd hdue (hno p (by rw [hdrop]; exact mem_cons_self))
      · have hturn : k.ageTurn l i = .ok (some k) := by
          unfold ageTurn
          rw [if_pos hle, hcell]
          dsimp only
          rw [if_neg fun h => hdue ⟨h.1, h.2⟩]
        obtain ⟨k', hk', hl', hno'⟩ := @ih (i + 1) k hf hnd (by omega)
          (fun r hr => hcq r (by rw [hdrop]; exact mem_cons_of_mem _ hr)) hroom
        refine ⟨k', (hstep k hturn).trans hk', hl', fun hno => hno' fun r hr => ?_⟩
        exact hno r (by rw [hdrop]; exact mem_cons_of_mem _ hr)
    · refine ⟨k, ?_, .refl hf, fun _ => rfl⟩
      unfold ageLoop ageTurn
      rw [if_neg (by omega)]

/-! ## the four loops -/

/-- **The loops of `ls`, in order.** Before each of them its two queues are as at the call, and so are the processes of
the queue it goes through; and of the queues with somebody to move, the lowest is the same at the end. -/
theorem ages_spec {k0 : Kernel} (hp : k0.Placed) (ls : List (Fin 4)) : ∀ {k : Kernel}, k.AllFull →
    ls.Pairwise (· < ·) → k.ticks = k0.ticks →
    (∀ l ∈ ls, k.queue l.castSucc = k0.queue l.castSucc ∧ k.queue l.succ = k0.queue l.succ ∧
      ∀ p ∈ k0.lists l.succ, k.procs p = k0.procs p) →
    ∃ k', ls.foldlM (fun k l => k.ageLoop l (NPROC + 1) 0) k = .ok k' ∧
      ((∀ l ∈ ls, ∀ p ∈ k0.lists l.succ, ¬ k0.Due p) → k' = k) ∧ ((∃ l ∈ ls, ∃ p ∈ k0.lists l.succ, k0.Due p) →
        ∃ l ∈ ls, (∃ p ∈ k0.lists l.succ, k0.Due p) ∧ k'.lists l.succ = k0.lists l.succ) := by
  induction ls with
  | nil =>
    intro k _ _ _ _
    exact ⟨k, rfl, fun _ => rfl, fun ⟨_, h, _⟩ => absurd h not_mem_nil⟩
  | cons l ls ih =>
    intro k hf hs hticks hsame
    obtain ⟨hlt, hs⟩ := pairwise_cons.mp hs
    obtain ⟨hq1, hq2, hpr⟩ := hsame l mem_cons_self
    have hl1 : k.lists l.castSucc = k0.lists l.castSucc := congrArg ArrQueue.entries hq1
    have hl2 : k.lists l.succ = k0.lists l.succ := congrArg ArrQueue.entries hq2
    have hdue : ∀ p ∈ k0.lists l.succ, (k.Due p ↔ k0.Due p) := by
      intro p hm
      unfold Due waited
      rw [hpr p hm, hticks]
    have hcard : Fintype.card Slot = NPROC := Fintype.card_fin NPROC
    obtain ⟨k1, hk1, hloop, hidle⟩ := @ageLoop_looped l NPROC 0 k hf (by rw [hl2]; exact hp.nodup _)
      (by rw [hl2, Nat.zero_add, ← hcard]; exact hp.length_le _)
      (fun p hm => by
        rw [drop_zero, hl2] at hm
        rw [hpr p hm]
        exact (home_some.mp (hp.mem _ p hm)).2)
      (fun hne => by
        obtain ⟨x, hx⟩ := exists_mem_of_ne_nil _ hne
        rw [hl2] at hx
        rw [hl1, ← hcard]
        exact hp.length_lt fun h => succ_ne_castSucc l (hp.apart hx h))
    obtain ⟨k', hk', hno, hsome⟩ := @ih k1 hloop.full hs (hloop.ticks.trans hticks) (fun m hm => by
      have hlm := hlt m hm
      obtain ⟨h1, h2, h3⟩ := hsame m (mem_cons_of_mem _ hm)
      refine ⟨(hloop.queue _ fun e => ?_).trans h1, (hloop.queue _ fun e => ?_).trans h2, fun p hp' => ?_⟩
      · have := congrArg Fin.val e
        simp only [Fin.val_castSucc] at this
        omega
      · have := congrArg Fin.val e
        simp only [Fin.val_castSucc, Fin.val_succ] at this
        omega
      · refine (hloop.procs p fun h => ?_).trans (h3 p hp')
        rw [hl2] at h
        have := congrArg Fin.val (hp.apart hp' h)
        simp only [Fin.val_succ] at this
        omega)
    have hidle' : (∀ p ∈ k0.lists l.succ, ¬ k0.Due p) → k1 = k := by
      intro h
      refine hidle fun p hm => ?_
      rw [drop_zero, hl2] at hm
      rw [hdue p hm]
      exact h p hm
    refine ⟨k', ?_, fun h => ?_, fun ⟨m, hm, hex⟩ => ?_⟩
    · rw [foldlM_cons, hk1]
      exact hk'
    · rw [hno fun m hm => h m (mem_cons_of_mem _ hm)]
      exact hidle' (h l mem_cons_self)
    · by_cases hlow : ∃ m ∈ ls, ∃ p ∈ k0.lists m.succ, k0.Due p
      · obtain ⟨m', hm', h⟩ := hsome hlow
        exact ⟨m', mem_cons_of_mem _ hm', h⟩
      · -- the queue of `l` is the lowest one with somebody to move
        have hml : m = l := by
          rcases mem_cons.mp hm with rfl | hm
          · rfl
          · exact absurd ⟨m, hm, hex⟩ hlow
        subst hml
        refine ⟨m, mem_cons_self, hex, ?_⟩
        rw [hno fun m' hm' p hp' hd => hlow ⟨m', hm', p, hp', hd⟩, hloop.lists (succ_ne_castSucc m), hl2]

lemma aged_self (hp : k.Placed) (hno : ∀ (l : Fin 4) p, p ∈ k.lists l.succ → ¬ k.Due p) : Aged k k := by
  have hlow : ∀ l : Fin 5, l ≠ 0 → ∀ p ∈ k.lists l, ¬ k.Due p := by
    intro l hl p hm
    obtain ⟨j, rfl⟩ := Fin.exists_succ_eq.mpr hl
    exact hno j p hm
  refine ⟨fun l => ?_, fun l p hm hd => absurd hd (hno l p hm), fun _ _ => rfl, fun l p hm => ?_⟩
  · have h1 : k.stays l = k.lists l := by
      unfold stays
      split
      · next h => rw [h]
      · next h =>
        refine filter_eq_self.mpr fun p hm => decide_eq_true (hlow l h p hm)
    have h2 : k.comes l = [] := by
      unfold comes
      split
      · rfl
      · next h =>
        refine filter_eq_nil_iff.mpr fun p hm hd => ?_
        refine hlow (l + 1) (fun e => ?_) p hm (of_decide_eq_true hd)
        have := succ_val h
        rw [e] at this
        cases this
    rw [h1, h2, append_nil]
  · exact ⟨l, hm, fun m hm' => hp.apart hm' hm⟩

lemma Aged.not_mem (h : Aged k k') (hp : k.Placed) {p : Slot} (hm : p ∈ k.lists l.succ) (hd : k.Due p) :
    p ∉ k'.lists l.succ := by
  have hl : l.succ ≠ 0 := Fin.succ_ne_zero l
  rw [h.queues l.succ]
  intro hmem
  rcases mem_append.mp hmem with hmem | hmem
  · unfold stays at hmem
    rw [if_neg hl] at hmem
    exact of_decide_eq_true (mem_filter.mp hmem).2 hd
  · unfold comes at hmem
    split at hmem
    · cases hmem
    · next h4 =>
      have e := hp.apart hm (mem_filter.mp hmem).1
      exact succ_ne h4 e.symm

lemma ageing_spec (hf : k.AllFull) (hp : k.Placed) : ∃ k', k.ageing = .ok k' ∧
    ((∀ (l : Fin 4) p, p ∈ k.lists l.succ → ¬ k.Due p) → k' = k) ∧
    ((∃ (l : Fin 4) (p : Slot), p ∈ k.lists l.succ ∧ k.Due p) →
      ∃ (l : Fin 4) (p : Slot), p ∈ k.lists l.succ ∧ k.Due p ∧ k'.lists l.succ = k.lists l.succ) := by
  obtain ⟨k', hk', h1, h2⟩ := ages_spec hp (finRange 4) hf (pairwise_lt_finRange 4) rfl
    fun l _ => ⟨rfl, rfl, fun _ _ => rfl⟩
  refine ⟨k', hk', fun h => h1 fun l _ p hm => h l p hm, fun ⟨l, p, hm, hd⟩ => ?_⟩
  obtain ⟨l', -, ⟨p', hm', hd'⟩, hsame⟩ := h2 ⟨l, mem_finRange l, p, hm, hd⟩
  exact ⟨l', p', hm', hd', hsame⟩

end Kernel

/-! ## the steps of the machine -/

lemma ageNext_mode (cpu : Cpu) (l : Fin 4) (m : Mode) : ageNext { cpu with mode := m } l = ageNext cpu l := by
  unfold ageNext
  split <;> rfl

lemma ageLoop_run {c : Fin n} (t : Nat) : ∀ {i : Nat} {s : State n}, (s.cpus c).mode = .age l i →
    s.ker.ageLoop l t i = .ok k' → ∃ tr s', Run .MLFQ s tr s' ∧ (∀ e ∈ tr, e.2 = .cpu c) ∧ s'.ker = k' ∧
      s'.cpus c = ageNext (s.cpus c) l := by
  induction t with
  | zero => intro i s _ h; cases h
  | succ t ih =>
    intro i s hm h
    have hstep : step .MLFQ s (.cpu c) = ageStep s c l i := by
      unfold step cpuStep
      simp only [hm]
    unfold Kernel.ageLoop at h
    unfold ageStep at hstep
    cases ht : s.ker.ageTurn l i with
    | error =>
      rw [ht] at h
      cases h
    | ok r =>
      rw [ht] at h hstep
      cases r with
      | none =>
        cases h
        refine ⟨[(s, .cpu c)], _, .cons hstep (.nil _), fun e he => ?_, rfl, ?_⟩
        · rw [mem_singleton.mp he]
        · exact update_self ..
      | some k1 =>
        obtain ⟨tr, s', h1, h2, h3, h4⟩ := @ih (i + 1) (s.next c k1 { s.cpus c with mode := .age l (i + 1) } s.lock)
          (by rw [next_same]) h
        refine ⟨(s, .cpu c) :: tr, s', .cons hstep h1, fun e he => ?_, h3, ?_⟩
        · rcases mem_cons.mp he with rfl | he
          · rfl
          · exact h2 e he
        · rw [h4, next_same, ageNext_mode]

/-- where the machine is before the loop `j`. -/
def ageMode (j : Nat) : Mode := if h : j < 4 then .age ⟨j, h⟩ 0 else .scan

lemma ageNext_ageMode (cpu : Cpu) (l : Fin 4) : (ageNext cpu l).mode = ageMode (l.val + 1) := by
  have h : ∀ l : Fin 4, (if l = 3 then Mode.scan else .age (l + 1) 0) = ageMode (l.val + 1) := by decide
  rw [← h l]
  unfold ageNext
  split <;> rfl

lemma ages_run {c : Fin n} (ls : List (Fin 4)) : ∀ {j : Nat} {s : State n}, ls = (finRange 4).drop j →
    (s.cpus c).mode = ageMode j → ls.foldlM (fun (k : Kernel) l => k.ageLoop l (NPROC + 1) 0) s.ker = .ok k' →
    ∃ tr s', Run .MLFQ s tr s' ∧ (∀ e ∈ tr, e.2 = .cpu c) ∧ s'.ker = k' ∧ (s'.cpus c).mode = .scan := by
  induction ls with
  | nil =>
    intro j s hls hm h
    have hj : 4 ≤ j := drop_eq_nil_iff.mp hls.symm
    cases h
    refine ⟨[], s, .nil s, fun _ he => absurd he not_mem_nil, rfl, ?_⟩
    rw [hm]
    exact dif_neg (Nat.not_lt.mpr hj)
  | cons l ls ih =>
    intro j s hls hm h
    have hj : j < 4 := by
      by_contra hj
      rw [drop_eq_nil_iff.mpr (Nat.le_of_not_lt hj)] at hls
      cases hls
    have hj' : j < (finRange 4).length := by rw [length_finRange]; exact hj
    rw [drop_eq_getElem_cons hj', getElem_finRange] at hls
    obtain ⟨hl, hls⟩ := cons.inj hls
    have hl : l = ⟨j, hj⟩ := hl
    have hmode : (s.cpus c).mode = .age l 0 := by
      rw [hm, hl]
      exact dif_pos hj
    rw [foldlM_cons] at h
    cases h1 : s.ker.ageLoop l (NPROC + 1) 0 with
    | error =>
      rw [h1] at h
      cases h
    | ok =>
      rw [h1] at h
      obtain ⟨tr1, s1, r1, a1, rfl, c1⟩ := ageLoop_run _ hmode h1
      obtain ⟨tr2, s2, r2, a2, hk, hc⟩ := ih hls (by rw [c1, ageNext_ageMode, hl]) h
      refine ⟨tr1 ++ tr2, s2, r1.append r2, fun e he => ?_, hk, hc⟩
      exact (mem_append.mp he).elim (a1 e) (a2 e)

/-- **The call is what the machine does** between the start of a pass and the scan of the queues, in
steps of the CPU that holds the lock, if it does not end at `Stop.index`. -/
theorem ageing_run {c : Fin n} {s : State n} (hm : (s.cpus c).mode = .age 0 0) (h : s.ker.ageing = .ok k') :
    ∃ tr s', Run .MLFQ s tr s' ∧ (∀ e ∈ tr, e.2 = .cpu c) ∧ s'.ker = k' ∧ (s'.cpus c).mode = .scan :=
  ages_run _ drop_zero.symm hm h

/-- **A call of `ageing` ends; it does what it is for exactly if there is nothing to do.** -/
theorem ageing_promotes_iff (hf : k.AllFull) (hp : k.Placed) : ∃ k', k.ageing = .ok k' ∧
    (k.Aged k' ↔ ∀ (l : Fin 4) p, p ∈ k.lists l.succ → ¬ k.Due p) := by
  obtain ⟨k', hk', hidle, hstuck⟩ := Kernel.ageing_spec hf hp
  refine ⟨k', hk', fun h l p hm hd => ?_, fun hno => ?_⟩
  · obtain ⟨l', p', hm', hd', hsame⟩ := hstuck ⟨l, p, hm, hd⟩
    exact h.not_mem hp hm' hd' (by rw [hsame]; exact hm')
  · rw [hidle hno]
    exact Kernel.aged_self hp hno

/-- pid 4 uses up its slice of `q0`, gets one tick in `q1`, and waits there while six ticks pass; then a pass of the
scheduler starts. -/
def fourWaits : List (Action 1) :=
  fourInQ1 ++ turns 3 ++ tickYield ++ turns 5 ++ (replicate 6 tickYield).flatten ++ turns 1

/-- pid 4 has come to `q1` and is RUNNABLE, but not due yet: a call of `ageing` is right to do nothing. -/
theorem ageing_promotes_iff_early : ∃ k k' : Kernel, k.AllFull ∧ k.Placed ∧ 3 ∈ k.lists 1 ∧
    (k.procs 3).state = .RUNNABLE ∧ k.ageing = .ok k' ∧ k.Aged k' := by
  obtain ⟨s, t, tr, hb, h, hc, hin, hr, hno⟩ : ∃ (s t : State 1) (tr : _), Boot 100 0 s ∧ Run .MLFQ s tr t ∧
      (∀ e ∈ tr, KeepsPlaced e.1 e.2) ∧ 3 ∈ t.ker.lists 1 ∧ (t.ker.procs 3).state = .RUNNABLE ∧
      ∀ (l : Fin 4) p, p ∈ t.ker.lists l.succ → ¬ t.ker.Due p :=
    Boot.exists_run (by decide) fourInQ1 (by decide +kernel)
  have hp := hb.inPlace.run h hc
  obtain ⟨k', hk', ha⟩ := ageing_promotes_iff hp.arrays.full hp.placed
  exact ⟨t.ker, k', hp.arrays.full, hp.placed, hin, hr, hk', ha.mpr hno⟩

/-- pid 4 has waited for six ticks in `q1`. The call of `ageing` at the start of the pass gives it the number 0, and it
stays in `q1`: it is not moved up. -/
theorem waiting_process_is_not_moved : ∃ (s s' : State 1) (tr : Trace 1) (k' : Kernel), Boot 100 0 s ∧
    Run .MLFQ s tr s' ∧ s'.ker.AllFull ∧ s'.ker.Placed ∧ 3 ∈ s'.ker.lists 1 ∧ s'.ker.Due 3 ∧
      s'.ker.ageing = .ok k' ∧ 3 ∈ k'.lists 1 ∧ 3 ∉ k'.lists 0 ∧ (k'.procs 3).current_queue = 0 ∧
      ¬ s'.ker.Aged k' := by
  obtain ⟨s, t, tr, hb, h, hc, hin, hdue, ht⟩ : ∃ (s t : State 1) (tr : _), Boot 100 0 s ∧ Run .MLFQ s tr t ∧
      (∀ e ∈ tr, KeepsPlaced e.1 e.2) ∧ 3 ∈ t.ker.lists 1 ∧ t.ker.Due 3 ∧
      t.ker.ageing.toOption.any (fun k' => 3 ∈ k'.lists 1 ∧ 3 ∉ k'.lists 0 ∧ (k'.procs 3).current_queue = 0) = true :=
    Boot.exists_run (by decide) fourWaits (by decide +kernel)
  have hp := hb.inPlace.run h hc
  cases hk : t.ker.ageing with
  | error =>
    rw [hk] at ht
    cases ht
  | ok k' =>
    rw [hk] at ht
    obtain ⟨h1, h2, h3⟩ := of_decide_eq_true ht
    refine ⟨_, t, tr, k', hb, h, hp.arrays.full, hp.placed, hin, hdue, hk, h1, h2, h3, fun ha => ?_⟩
    exact @Kernel.Aged.not_mem t.ker k' 0 ha hp.placed 3 hin hdue h1

end Xv6
