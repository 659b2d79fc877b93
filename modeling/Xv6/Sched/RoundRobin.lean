import Xv6.Proc.Running
import Xv6.Lib.Cursor
import Mathlib.Data.List.Sort
import Mathlib.Data.Finset.Max

/-!
# The table scan of DEFAULT and PRIORITY on one CPU

The loop of `scheduler` over `ptable.proc` is a cursor (`Lib.Cursor`): `Cpu.phase` is where it
stands, and `table_move` says how every step of the machine moves it. The start state is
arbitrary: what counts is that the CPU has a process exactly when it is not in the scheduler's
loops (`Cpu.Ok`), and the first dispatch brings that about.

* `default_serves_before_return`: DEFAULT never passes over a RUNNABLE process twice for the same
  other process.
* `priority_round_robin`: PRIORITY serves equal priorities in turn as long as the scan never meets
  a process of lower priority BETWEEN two of them; `priority_starves_equal` is a run with such a
  process.
-/

namespace Xv6
open Lib Lib.Cursor List

variable {pol : Policy} {p : Slot}
variable {cpu cpu' : Cpu} {s s' : State 1} {a : Action 1} {k : Kernel} {l : Option (Fin 1)} {ph ph' : Phase}
  {x t : Slot}

/-! ## the cursor of one CPU -/

/-- the CPU has no process in the scheduler's loops, and has one when it runs it. -/
def Cpu.Ok (cpu : Cpu) : Prop :=
  match cpu.mode.place with
  | .off => cpu.proc = none
  | .trap => True
  | _ => cpu.proc ≠ none

def Cpu.phase (cpu : Cpu) : Phase :=
  match cpu.mode with
  | .scan => .scan cpu.i
  | _ => if cpu.proc = none then .idle else .busy cpu.i

lemma Cpu.Ok.off {cpu : Cpu} (h : cpu.Ok) (hm : cpu.mode.place = .off) : cpu.proc = none := by
  unfold Cpu.Ok at h
  rw [hm] at h
  exact h

lemma CpuMove.ok {kd : Kind} (h : CpuMove kd cpu cpu') (ho : cpu.Ok) : cpu'.Ok := by
  unfold Cpu.Ok at ho ⊢
  cases h with
  | stay h1 h2 hf hr hp hm => rw [hm, hp]; exact ho
  | trap hp hm hm' => rw [hm']; trivial
  | untrap hp hm hm' =>
    rw [hm', hp]
    unfold Cpu.afterTrap
    by_cases e : cpu.proc = none
    · rw [if_pos e]; exact e
    · rw [if_neg e]; exact e
  | dispatch hm hp hm' => rw [hm', hp]; nofun
  | leave hm hp hp' hm' => rw [hm', hp']; nofun
  | back hm hp' hm' => rw [hm']; exact hp'

lemma step_ok (h : step pol s a = .ok s') (ho : (s.cpus 0).Ok) : (s'.cpus 0).Ok := by
  obtain ⟨c, kd, v⟩ := (step_trans h).view
  obtain rfl : c = 0 := Subsingleton.elim _ _
  exact v.cpu.ok ho

lemma phase_scan (h : cpu.mode = .scan) : cpu.phase = .scan cpu.i := by
  unfold Cpu.phase; rw [h]

lemma phase_idle (h : cpu.mode ≠ .scan) (hp : cpu.proc = none) : cpu.phase = .idle := by
  unfold Cpu.phase
  split
  · next e => exact absurd e h
  · rw [if_pos hp]

lemma phase_busy (h : cpu.mode ≠ .scan) (hp : cpu.proc ≠ none) : cpu.phase = .busy cpu.i := by
  unfold Cpu.phase
  split
  · next e => exact absurd e h
  · rw [if_neg hp]

lemma phase_congr (h : cpu.mode ≠ .scan) (h' : cpu'.mode ≠ .scan)
    (hp : cpu'.proc = cpu.proc) (hi : cpu'.i = cpu.i) : cpu'.phase = cpu.phase := by
  by_cases e : cpu.proc = none
  · rw [phase_idle h e, phase_idle h' (hp.trans e)]
  · rw [phase_busy h e, phase_busy h' (hp ▸ e), hi]

/-! ## how the steps move it -/

lemma examined_table (hpol : pol ≠ .MLFQ) (he : examined pol s 0 = some p) : (s.cpus 0).i = p.val := by
  unfold examined at he
  rw [if_neg hpol] at he
  split at he
  · cases he; rfl
  · cases he

/-- what a step does to the cursor of the table scan. -/
inductive TableMove (pol : Policy) (s : State 1) (a : Action 1) : Phase → Phase → Prop
  | stay {ph : Phase} (hd : dispatched pol s a = none) : TableMove pol s a ph ph
  | start (hd : dispatched pol s a = none) : TableMove pol s a .idle (.scan 0)
  | skip {p : Slot} (hr : (s.ker.procs p).state ≠ .RUNNABLE) (hd : dispatched pol s a = none) :
      TableMove pol s a (.scan p.val) (.scan (p.val + 1))
  | stop {i : Nat} (h : NPROC ≤ i) (hd : dispatched pol s a = none) :
      TableMove pol s a (.scan i) .idle
  | run {p : Slot} (hr : (s.ker.procs p).state = .RUNNABLE)
      (hd : dispatched pol s a = some (s.ker.choose pol p)) :
      TableMove pol s a (.scan p.val) (.busy (s.ker.choose pol p).val)
  | back {i : Nat} (hd : dispatched pol s a = none) : TableMove pol s a (.busy i) (.scan (i + 1))

lemma table_next (h : (s.cpus 0).phase = ph) (h' : cpu.phase = ph')
    (hm : TableMove pol s a ph ph') :
    TableMove pol s a (s.cpus 0).phase ((s.next 0 k cpu l).cpus 0).phase := by
  rw [next_same, h, h']
  exact hm

lemma table_stay (hd : dispatched pol s a = none) (h : (s.cpus 0).mode ≠ .scan)
    (h' : cpu.mode ≠ .scan) (hp : cpu.proc = (s.cpus 0).proc) (hi : cpu.i = (s.cpus 0).i) :
    TableMove pol s a (s.cpus 0).phase ((s.next 0 k cpu l).cpus 0).phase := by
  exact table_next rfl (phase_congr h h' hp hi) (.stay hd)

lemma table_move (hpol : pol ≠ .MLFQ) (ho : (s.cpus 0).Ok)
    (h : step pol s a = .ok s') : TableMove pol s a (s.cpus 0).phase (s'.cpus 0).phase := by
  have zero : ∀ c : Fin 1, c = 0 := fun c => Subsingleton.elim _ _
  have off : (s.cpus 0).mode.place = .off → (s.cpus 0).proc = none := ho.off
  cases step_trans h with
  | @begin c hm =>
    obtain rfl := zero c
    have hf : firstMode pol = .scan := by unfold firstMode; rw [if_neg hpol]
    exact table_next (phase_idle (by rw [hm]; nofun) (off (by rw [hm]; rfl))) (phase_scan hf)
      (.start (dispatched_of_mode (by rw [hm]; nofun)))
  | @ageEnd c l i hm =>
    obtain rfl := zero c
    have hp := off (by rw [hm]; rfl)
    have hd : dispatched pol s (.cpu 0) = none := dispatched_of_mode (by rw [hm]; nofun)
    have h0 : (s.cpus 0).phase = .idle := phase_idle (by rw [hm]; nofun) hp
    unfold ageNext
    split
    · exact table_next h0 (phase_scan rfl) (.start hd)
    · exact table_next h0 (phase_idle nofun hp) (.stay hd)
  | @ageKeep c l i p hm | @ageUp c l i p k hm | @resume c p hm
  | @resumeSleep c p hm | @tickWake c u hm | @tickIdle c u hm | @tickCharge c u p k hm
  | @yield c u p hm =>
    obtain rfl := zero c
    exact table_stay (dispatched_of_mode (by rw [hm]; nofun)) (by rw [hm]; nofun) nofun rfl rfl
  | @scanSkip c p hm he hr =>
    obtain rfl := zero c
    have hi := examined_table hpol he
    refine table_next (phase_scan hm) (phase_scan hm) ?_
    rw [hi]
    exact .skip hr (by rw [dispatched_of_examined hm he, if_neg hr])
  | scanNext hm e | runQueue hm e | backQueue hm e => exact absurd e hpol
  | @scanEnd c hm he =>
    obtain rfl := zero c
    have hi : NPROC ≤ (s.cpus 0).i := by
      unfold examined at he
      rw [if_neg hpol] at he
      split at he
      · cases he
      · omega
    exact table_next (phase_scan hm) (phase_idle nofun (off (by rw [hm]; rfl))) (.stop hi (dispatched_of_none he))
  | @runTable c p hm _ he hr =>
    obtain rfl := zero c
    have hi := examined_table hpol he
    refine table_next (phase_scan hm) (phase_busy nofun nofun) ?_
    rw [hi]
    exact .run hr (by rw [dispatched_of_examined hm he, if_pos hr])
  | @backTable c m hm _ hp =>
    obtain rfl := zero c
    exact table_next (phase_busy (by rw [hm]; nofun) (by rw [hp]; nofun)) (phase_scan rfl)
      (.back (dispatched_of_mode (by rw [hm]; nofun)))
  | @reap _ c p z x k k' hw | @waitFail _ c p x k hw | @waitBlock _ c p x k hw =>
    obtain rfl := zero c
    exact table_stay hw.dispatched hw.mode nofun rfl rfl
  | @fork c p need k hm | @kill c p pid hm | @wakeup c p ch hm
  | @setPriority c p pid v hm =>
    obtain rfl := zero c
    exact table_stay rfl (by rw [hm]; nofun) (by rw [hm]; nofun) rfl rfl
  | @exit c p k hm | @sleep c p ch hm =>
    obtain rfl := zero c
    exact table_stay rfl (by rw [hm]; nofun) nofun rfl rfl
  | @intr c ch hm =>
    obtain rfl := zero c
    have hm' : (s.cpus 0).mode ≠ .scan := by rcases hm with e | e <;> rw [e] <;> nofun
    exact table_stay rfl hm' hm' rfl rfl
  | @timer c u hm | @timerOther c u hm =>
    obtain rfl := zero c
    exact table_stay rfl (by rcases hm with e | e <;> rw [e] <;> nofun) nofun rfl rfl
  | @trapEnd c u hm =>
    obtain rfl := zero c
    refine table_stay (dispatched_of_mode (by rw [hm]; nofun)) (by rw [hm]; nofun) ?_ rfl rfl
    unfold Cpu.afterTrap
    split <;> nofun

lemma step_dispatched (hpol : pol ≠ .MLFQ)
    (hd : dispatched pol s a = some x) (h : step pol s a = .ok s') :
    (s'.cpus 0).Ok ∧ (s'.cpus 0).phase = .busy x.val ∧ (s'.ker.procs x).state = .RUNNING := by
  obtain ⟨c, p, rfl, hm, he, hr, rfl⟩ := dispatched_some hd
  obtain rfl : c = 0 := Subsingleton.elim _ _
  rw [step_dispatch_table hpol hm he hr h, next_same, next_ker]
  refine ⟨?_, phase_busy nofun nofun, ?_⟩
  · unfold Cpu.Ok
    nofun
  · rw [Kernel.dispatch, Kernel.upd_same]

lemma not_dispatched_of_runnable {mid : Trace 1} (hpol : pol ≠ .MLFQ)
    (h : Run pol s mid s') (hr : ∀ e ∈ mid, (e.1.ker.procs t).state = .RUNNABLE)
    (hr' : (s'.ker.procs t).state = .RUNNABLE) : ∀ e ∈ mid, dispatched pol e.1 e.2 ≠ some t := by
  intro e he hd
  obtain ⟨u, hs, hu⟩ := h.next he
  have hrun := (step_dispatched hpol hd hs).2.2
  rcases hu with rfl | ⟨e', he', rfl⟩
  · rw [hr'] at hrun; cases hrun
  · rw [hr e' he'] at hrun; cases hrun

/-- a step that neither skips nor dispatches the RUNNABLE process `t` is a move of the cursor that
keeps it ahead, when the choice does not jump over `t`. -/
theorem TableMove.move
    (h : TableMove pol s a ph ph') (ht : ∀ i, ph = .scan i → (s.ker.procs t).state = .RUNNABLE)
    (hd : dispatched pol s a ≠ some t)
    (hj : ∀ p : Slot, ph = .scan p.val → (s.ker.procs p).state = .RUNNABLE →
      Jump x t p (s.ker.choose pol p)) : Move NPROC x t ph ph' := by
  cases h with
  | stay => exact .stay
  | start => exact .start
  | @skip p hp =>
    refine .skip fun e => hp ?_
    rw [Fin.ext e]
    exact ht _ rfl
  | stop hi => exact .stop hi
  | @run p hp he =>
    refine .run (hj p rfl hp) fun e => hd ?_
    rw [he, Fin.ext e]
  | back => exact .back

/-! ## DEFAULT -/

/-- **Nobody is passed over twice for the same process.** In the DEFAULT build, between two
dispatches of `x` there is no other process that is RUNNABLE the whole time. Runs end at `Stop.index`. -/
theorem default_serves_before_return {s s' : State 1} {pre mid post : Trace 1}
    {e0 e1 : State 1 × Action 1} {x t : Slot}
    (h : Run .DEFAULT s (pre ++ e0 :: mid ++ e1 :: post) s')
    (h0 : dispatched .DEFAULT e0.1 e0.2 = some x) (h1 : dispatched .DEFAULT e1.1 e1.2 = some x)
    (hne : t ≠ x) : ¬ ∀ e ∈ mid ++ [e1], (e.1.ker.procs t).state = .RUNNABLE := by
  intro hr
  have hpol : Policy.DEFAULT ≠ .MLFQ := nofun
  have hxt : x.val ≠ t.val := fun e => hne (Fin.ext e.symm)
  obtain ⟨-, u, -, hmid, -⟩ := h.between
  have hnt := not_dispatched_of_runnable hpol hmid (fun e he => hr e (mem_append_left _ he))
    (hr e1 (mem_append_right _ (mem_singleton.mpr rfl)))
  obtain ⟨e, he, hd⟩ : ∃ e ∈ mid, dispatched .DEFAULT e.1 e.2 = some t := by
    refine h.served_between (fun s => (s.cpus 0).Ok ∧ Ahead x t (s.cpus 0).phase)
      (fun s _ => (s.ker.procs t).state = .RUNNABLE) ?_ ?_
      (fun e he => hr e (mem_append_left _ he)) ?_
    · intro _ v hv
      obtain ⟨hok, hph, -⟩ := step_dispatched hpol h0 hv
      exact ⟨hok, hph ▸ ahead_busy⟩
    · intro s a s' hi hc hd hs
      have hm : Move NPROC x t (s.cpus 0).phase (s'.cpus 0).phase :=
        (table_move hpol hi.1 hs).move (fun _ _ => hc) hd fun p _ _ => .inl rfl
      exact ⟨step_ok hs hi.1, hi.2.move hm t.isLt hxt⟩
    · intro hi
      obtain ⟨c, p, -, hm, he, -, hx⟩ := dispatched_some h1
      obtain rfl : c = 0 := Subsingleton.elim _ _
      have hahead := hi.2
      rw [phase_scan hm, examined_table hpol he] at hahead
      refine hahead.not_run hxt (.inl ?_)
      rw [hx]
      rfl
  exact hnt e he hd

/-- init and its child in turn. -/
theorem default_serves_before_return_two : ∃ (s s' : State 1)
    (pre mid post : Trace 1) (e0 e1 : State 1 × Action 1), Boot 100 0 s ∧
      Run .DEFAULT s (pre ++ e0 :: mid ++ e1 :: post) s' ∧
      dispatched .DEFAULT e0.1 e0.2 = some 0 ∧ dispatched .DEFAULT e1.1 e1.2 = some 0 ∧
      ¬ ∀ e ∈ mid ++ [e1], (e.1.ker.procs 1).state = .RUNNABLE := by
  obtain ⟨s, t, pre, mid, post, e0, e1, hb, h, h0, h1⟩ : ∃ (s t : State 1) (pre mid post : List _)
      (e0 e1 : _), Boot 100 0 s ∧ Run .DEFAULT s (pre ++ e0 :: mid ++ e1 :: post) t ∧
      dispatched .DEFAULT e0.1 e0.2 = some 0 ∧ dispatched .DEFAULT e1.1 e1.2 = some 0 :=
    Boot.exists_between (by decide)
      (turns 3 ++ forkAll ++ tickYield ++ turns 3 ++ tickYield ++ turns 66) 1 82 (by decide +kernel)
  exact ⟨s, t, pre, mid, post, e0, e1, hb, h, h0, h1, default_serves_before_return h h0 h1 (by decide)⟩

/-! ## PRIORITY -/

/-- the processes of `H` are runnable with the priority `v`, the other RUNNABLE ones have a larger
value. -/
def EqualTop (H : Finset Slot) (v : Int) (k : Kernel) : Prop :=
  (∀ h ∈ H, ((k.procs h).state = .RUNNABLE ∨ (k.procs h).state = .RUNNING) ∧ (k.procs h).priority = v) ∧
  ∀ q, q ∉ H → (k.procs q).state = .RUNNABLE → v < (k.procs q).priority

instance (H : Finset Slot) (v : Int) (k : Kernel) : Decidable (EqualTop H v k) :=
  inferInstanceAs (Decidable (_ ∧ _))

/-- the scan is not at a RUNNABLE process outside `H` that stands between two members of `H`. -/
def NoneBetween (H : Finset Slot) (s : State 1) : Prop :=
  (s.cpus 0).mode = .scan → ∀ p : Slot, (s.cpus 0).i = p.val → (s.ker.procs p).state = .RUNNABLE →
    p ∉ H → (∀ h ∈ H, p < h) ∨ ∀ h ∈ H, h < p

instance (H : Finset Slot) (s : State 1) : Decidable (NoneBetween H s) :=
  inferInstanceAs (Decidable (_ → _))

section Choice
variable {k : Kernel} {H : Finset Slot} {v : Int}

/-- one comparison of the inner loop of PRIORITY. -/
def Kernel.better (k : Kernel) (hp p1 : Slot) : Slot :=
  if (k.procs p1).state = .RUNNABLE ∧ (k.procs p1).priority < (k.procs hp).priority then p1 else hp

lemma EqualTop.le (h : EqualTop H v k) {q : Slot} (hr : (k.procs q).state = .RUNNABLE) :
    v ≤ (k.procs q).priority := by
  by_cases hq : q ∈ H
  · rw [(h.1 q hq).2]
  · exact Int.le_of_lt (h.2 q hq hr)

lemma EqualTop.foldl_mem (h : EqualTop H v k) (hp : p ∈ H) (l : List Slot) : l.foldl k.better p = p := by
  induction l with
  | nil => rfl
  | cons a l ih =>
    have hb : k.better p a = p := by
      unfold Kernel.better
      rw [if_neg]
      rintro ⟨hr, hlt⟩
      have := h.le hr
      rw [(h.1 p hp).2] at hlt
      omega
    rw [foldl_cons, hb, ih]

lemma foldl_not_mem (hp : p ∉ H) (hr : (k.procs p).state = .RUNNABLE) (l : List Slot)
    (hl : ∀ a ∈ l, a ∉ H) : l.foldl k.better p ∉ H ∧ (k.procs (l.foldl k.better p)).state = .RUNNABLE := by
  induction l generalizing p with
  | nil => exact ⟨hp, hr⟩
  | cons a l ih =>
    rw [foldl_cons]
    unfold Kernel.better
    split
    · next ha =>
      exact ih (hl a (mem_cons_self ..)) ha.1 fun b hb => hl b (mem_cons_of_mem _ hb)
    · exact ih hp hr fun b hb => hl b (mem_cons_of_mem _ hb)

/-- **The choice of PRIORITY**: a process of `H` is taken as it is met; at any other one the search
starts over and takes the first of `H` in the table. -/
theorem EqualTop.choose (h : EqualTop H v k) (hH : ∀ q ∈ H, (k.procs q).state = .RUNNABLE)
    (hne : H.Nonempty) (hr : (k.procs p).state = .RUNNABLE) :
    (p ∈ H → k.choose .PRIORITY p = p) ∧ (p ∉ H → k.choose .PRIORITY p ∈ H ∧ ∀ q ∈ H, k.choose .PRIORITY p ≤ q) := by
  have hc : k.choose .PRIORITY p = (List.finRange NPROC).foldl k.better p := rfl
  refine ⟨fun hp => by rw [hc]; exact h.foldl_mem hp _, fun hp => ?_⟩
  set m := H.min' hne
  have hm : m ∈ H := H.min'_mem hne
  obtain ⟨l1, l2, hl⟩ := append_of_mem (mem_finRange m)
  -- the slots before the first of `H` are outside `H`
  have hl1 : ∀ a ∈ l1, a ∉ H := by
    intro a ha haH
    have hs : (l1 ++ m :: l2).Pairwise (· < ·) := by
      rw [← hl]
      exact (sortedLT_finRange NPROC).pairwise
    have hlt := (pairwise_append.mp hs).2.2 a ha m (mem_cons_self ..)
    exact absurd (H.min'_le a haH) (not_le.mpr hlt)
  obtain ⟨hn, hr'⟩ := foldl_not_mem hp hr l1 hl1
  have hb : k.better (l1.foldl k.better p) m = m := by
    unfold Kernel.better
    have hlt := h.2 _ hn hr'
    rw [← (h.1 m hm).2] at hlt
    rw [if_pos ⟨hH m hm, hlt⟩]
  have e : k.choose .PRIORITY p = m := by
    rw [hc, hl, foldl_append, foldl_cons, hb]
    exact h.foldl_mem hm l2
  rw [e]
  exact ⟨hm, fun q hq => H.min'_le q hq⟩

end Choice

variable {s : State 1} {H : Finset Slot} {v : Int}

lemma Sound.runnable_of_scan (hs : Sound s) (h : EqualTop H v s.ker)
    (hm : (s.cpus 0).mode = .scan) : ∀ q ∈ H, (s.ker.procs q).state = .RUNNABLE := by
  intro q hq
  rcases (h.1 q hq).1 with e | e
  · exact e
  · obtain ⟨c, hc⟩ := hs.running q e
    obtain rfl : c = 0 := Subsingleton.elim _ _
    rw [hs.off_none (by rw [hm]; rfl)] at hc
    cases hc

lemma Sound.cpu_ok (h : Sound s) : (s.cpus 0).Ok := by
  have hp := h.place 0
  unfold PlaceOk at hp
  unfold Cpu.Ok
  cases e : (s.cpus 0).mode.place <;> rw [e] at hp
  · exact hp
  · obtain ⟨p, hp, -⟩ := hp
    simp only [hp]
    nofun
  · trivial
  · obtain ⟨p, hp, -⟩ := hp
    simp only [hp]
    nofun

lemma mode_of_phase {cpu : Cpu} {i : Nat} (h : cpu.phase = .scan i) : cpu.mode = .scan ∧ cpu.i = i := by
  by_cases e : cpu.mode = .scan
  · rw [phase_scan e] at h
    exact ⟨e, Phase.scan.inj h⟩
  · by_cases e' : cpu.proc = none
    · rw [phase_idle e e'] at h; cases h
    · rw [phase_busy e e'] at h; cases h

lemma priority_jump {x t p : Slot} (hs : Sound s) (h : EqualTop H v s.ker) (hn : NoneBetween H s)
    (hx : x ∈ H) (ht : t ∈ H) (hph : (s.cpus 0).phase = .scan p.val)
    (hr : (s.ker.procs p).state = .RUNNABLE) : Jump x t p (s.ker.choose .PRIORITY p) := by
  obtain ⟨hm, hi⟩ := mode_of_phase hph
  obtain ⟨h1, h2⟩ := h.choose (hs.runnable_of_scan h hm) ⟨x, hx⟩ hr
  by_cases hp : p ∈ H
  · rw [h1 hp]; exact .inl rfl
  · obtain ⟨-, hle⟩ := h2 hp
    refine .inr ⟨?_, hle x hx, hle t ht⟩
    rcases hn hm p hi hr hp with hb | hb
    · exact .inl ⟨hb x hx, hb t ht⟩
    · exact .inr ⟨hb x hx, hb t ht⟩

/-- **Equal priorities are served in turn**, in every run from a sound state in which the scan does
not meet a process of lower priority between two processes of `H`: between two dispatches of one
member of `H` every other member is dispatched. Runs end at `Stop.index`. -/
theorem priority_round_robin {s s' : State 1} {pre mid post : Trace 1}
    {e0 e1 : State 1 × Action 1} {H : Finset Slot} {v : Int} {x : Slot} (hs : Sound s)
    (h : Run .PRIORITY s (pre ++ e0 :: mid ++ e1 :: post) s')
    (h0 : dispatched .PRIORITY e0.1 e0.2 = some x) (h1 : dispatched .PRIORITY e1.1 e1.2 = some x)
    (hx : x ∈ H) (hH : ∀ e ∈ mid ++ [e1], EqualTop H v e.1.ker)
    (hn : ∀ e ∈ mid ++ [e1], NoneBetween H e.1) :
    ∀ t ∈ H, t ≠ x → ∃ e ∈ mid, dispatched .PRIORITY e.1 e.2 = some t := by
  intro t ht hne
  have hpol : Policy.PRIORITY ≠ .MLFQ := nofun
  have hxt : x.val ≠ t.val := fun e => hne (Fin.ext e.symm)
  have hl : e1 ∈ mid ++ [e1] := mem_append_right _ (mem_singleton.mpr rfl)
  refine h.served_between (fun s => Sound s ∧ Ahead x t (s.cpus 0).phase)
    (fun s _ => EqualTop H v s.ker ∧ NoneBetween H s) ?_ ?_
    (fun e he => ⟨hH e (mem_append_left _ he), hn e (mem_append_left _ he)⟩) ?_
  · intro hpre v hv
    have hs0 : Sound e0.1 := hpre.invariant Sound (fun _ _ => True)
      (fun _ _ _ hi _ hs => step_sound hi hs) (fun _ _ => trivial) hs
    obtain ⟨-, hph, -⟩ := step_dispatched hpol h0 hv
    exact ⟨step_sound hs0 hv, hph ▸ ahead_busy⟩
  · intro s a s' hi hc hd hst
    have hm : Move NPROC x t (s.cpus 0).phase (s'.cpus 0).phase := by
      refine (table_move hpol hi.1.cpu_ok hst).move (fun i e => ?_) hd fun p hp hr => ?_
      · exact hi.1.runnable_of_scan hc.1 (mode_of_phase e).1 t ht
      · exact priority_jump hi.1 hc.1 hc.2 hx ht hp hr
    exact ⟨step_sound hi.1 hst, hi.2.move hm t.isLt hxt⟩
  · intro hi
    obtain ⟨c, p, -, hm, he, hr, hxp⟩ := dispatched_some h1
    obtain rfl : c = 0 := Subsingleton.elim _ _
    have hph : (e1.1.cpus 0).phase = .scan p.val := by rw [phase_scan hm, examined_table hpol he]
    have hj := priority_jump hi.1 (hH e1 hl) (hn e1 hl) hx ht hph hr
    rw [← hxp] at hj
    have hahead := hi.2
    rw [hph] at hahead
    exact hahead.not_run hxt hj

/-- init and its first child, both with priority 1. -/
theorem priority_round_robin_two : ∃ (s s' : State 1) (pre mid post : Trace 1)
    (e0 e1 : State 1 × Action 1), Boot 100 0 s ∧
      Run .PRIORITY s (pre ++ e0 :: mid ++ e1 :: post) s' ∧
      dispatched .PRIORITY e0.1 e0.2 = some 1 ∧ dispatched .PRIORITY e1.1 e1.2 = some 1 ∧
      (∀ e ∈ mid ++ [e1], EqualTop {0, 1} 1 e.1.ker) ∧
      ∃ e ∈ mid, dispatched .PRIORITY e.1 e.2 = some 0 := by
  obtain ⟨s, t, pre, mid, post, e0, e1, hb, h, h0, h1, hS, hn⟩ : ∃ (s t : State 1) (pre mid post : List _)
      (e0 e1 : _), Boot 100 0 s ∧ Run .PRIORITY s (pre ++ e0 :: mid ++ e1 :: post) t ∧
      dispatched .PRIORITY e0.1 e0.2 = some 1 ∧ dispatched .PRIORITY e1.1 e1.2 = some 1 ∧
      (∀ e ∈ mid ++ [e1], EqualTop {0, 1} 1 e.1.ker) ∧ ∀ e ∈ mid ++ [e1], NoneBetween {0, 1} e.1 :=
    Boot.exists_between (by decide) (turns 3 ++ forkAll ++ tickYield ++ turns 3 ++ tickYield ++ turns 67 ++
      tickYield ++ turns 2) 13 77 (by decide +kernel)
  exact ⟨s, t, pre, mid, post, e0, e1, hb, h, h0, h1, hS,
    priority_round_robin hb.sound h h0 h1 (by decide) hS hn 0 (by decide) (by decide)⟩

/-- init (slot 0) and pid 3 (slot 2) have priority 1, pid 2 between them has 60: at pid 2 the
search starts over, init is dispatched twice in a row and pid 3 is not. -/
theorem priority_starves_equal : ∃ (s s' : State 1) (pre mid post : Trace 1)
    (e0 e1 : State 1 × Action 1), Boot 100 0 s ∧
      Run .PRIORITY s (pre ++ e0 :: mid ++ e1 :: post) s' ∧
      dispatched .PRIORITY e0.1 e0.2 = some 0 ∧ dispatched .PRIORITY e1.1 e1.2 = some 0 ∧
      (∀ e ∈ e0 :: mid ++ [e1], EqualTop {0, 2} 1 e.1.ker) ∧
      ∀ e ∈ mid, dispatched .PRIORITY e.1 e.2 = none :=
  Boot.exists_between (by decide) (turns 3 ++ forkAll ++ forkAll ++
    [.sys 0 (.setPriority 3 1), .sys 0 (.setPriority 2 60)] ++ tickYield ++ turns 3 ++ tickYield ++ turns 2)
    20 6 (by decide +kernel)

end Xv6
