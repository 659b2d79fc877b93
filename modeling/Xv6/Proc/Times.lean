import Xv6.Proc.Layout
import Xv6.Proc.Ticks
import Mathlib.Algebra.BigOperators.Fin
import Mathlib.Algebra.Order.BigOperators.Group.Finset

/-!
# Run times, wait times and tick statistics

Everything is counted in the trace. `life q tr` is the part of the run since the slot `q` last got
its clocks (for init: all of it), `ticksAt P l` the number of ticks in `l` at which `P` held, and
`booked q` picks the steps that book a tick to `q`. For every slot (`Books`)

    rtime            = #booked in the life of q;
    #booked + owed   = #ticks in its life that found q on CPU 0;
    ∑ total_ticks    = #booked in the whole run;
    iotime           = 0,

and while fewer than `2 ^ 31` ticks have been counted (`Dates`)

    ticks - ctime    = #ticks in its life;
    etime - ctime    = #ticks in its life before it became a ZOMBIE     (once it is one).

`total_ticks` is not reset with the other clocks, and `iotime` never grows: the process that CPU 0
has interrupted is RUNNING. All of this needs `ticks[current_queue]` to stay inside of the array:
the results are stated over runs of `stepOn`, with that as a hypothesis.
-/

namespace Xv6
open Lib List Kernel

variable {n : Nat} {pol : Policy} {s s' u u' : State n} {k k' : Kernel} {npages need : Nat}
variable {tr l : Trace n} {a : Action n} {q : Slot}
variable {P Q : State n → Bool} {npages need : Nat}

/-- the step gives `q` its clocks. -/
def creates (q : Slot) (e : State n × Action n) : Bool := event e.1 e.2 = .create q

/-- the steps since `q` got its clocks. -/
def life (q : Slot) (tr : Trace n) : Trace n :=
  since (creates q) tr

/-- the step counts a tick. -/
def isTick (e : State n × Action n) : Bool := event e.1 e.2 = .tick

/-- the step books a tick to `q`. -/
def booked (q : Slot) (e : State n × Action n) : Bool := event e.1 e.2 = .charge q

/-- the number of ticks at which `P` held. -/
def ticksAt (P : State n → Bool) (l : Trace n) : Nat :=
  l.countP fun e => isTick e && P e.1

def inState (q : Slot) (st : ProcState) (s : State n) : Bool := (s.ker.procs q).state = st

/-- `q` is the process of CPU 0. -/
def onCpu0 (q : Slot) (s : State n) : Bool := s.cpu0.proc = some q

/-! ## counting -/

lemma ticksAt_concat (P : State n → Bool) (l : Trace n)
    (e : State n × Action n) :
    ticksAt P (l ++ [e]) = ticksAt P l + if (isTick e && P e.1) = true then 1 else 0 :=
  countP_concat ..

lemma ticksAt_split (P Q : State n → Bool) (l : Trace n) :
    ticksAt P l = ticksAt (fun s => P s && Q s) l + ticksAt (fun s => P s && !Q s) l := by
  unfold ticksAt
  rw [countP_eq_countP_filter_add l _ fun e => Q e.1]
  simp only [countP_filter, Bool.and_assoc]

lemma ticksAt_congr (h : ∀ e ∈ l, isTick e = true → P e.1 = Q e.1) : ticksAt P l = ticksAt Q l := by
  refine countP_congr fun e he => ?_
  cases ht : isTick e with
  | false => rfl
  | true => rw [h e he ht]

lemma ticksAt_mono (h : ∀ e ∈ l, isTick e = true → P e.1 = true → Q e.1 = true) : ticksAt P l ≤ ticksAt Q l := by
  refine countP_mono_left fun e he hp => ?_
  rw [Bool.and_eq_true] at hp ⊢
  exact ⟨hp.1, h e he hp.1 hp.2⟩

lemma ticksAt_eq_zero : ticksAt P l = 0 ↔ ∀ e ∈ l, isTick e = true → P e.1 = false := by
  unfold ticksAt
  rw [countP_eq_zero]
  refine forall_congr' fun e => forall_congr' fun _ => ?_
  cases isTick e <;> cases P e.1 <;> simp

lemma life_of_create (h : event u a = .create q) : life q (tr ++ [(u, a)]) = [] := by
  unfold life
  rw [since_concat, if_pos (show creates q (u, a) = true from decide_eq_true h)]

lemma life_of_ne (h : event u a ≠ .create q) : life q (tr ++ [(u, a)]) = life q tr ++ [(u, a)] := by
  unfold life
  rw [since_concat, if_neg (by simpa [creates] using h)]

lemma ticksAt_of_not (P : State n → Bool) (h : event u a ≠ .tick) : ticksAt P (l ++ [(u, a)]) = ticksAt P l := by
  rw [ticksAt_concat, if_neg (by simp [isTick, h]), Nat.add_zero]

lemma booked_concat : (l ++ [(u, a)]).countP (booked q) =
    l.countP (booked q) + if event u a = .charge q then 1 else 0 := by
  rw [countP_concat]
  simp [booked]

/-! ## the books of one slot -/

/-- the counters. -/
structure Books (q : Slot) (tr : Trace n) (t : State n) : Prop where
  total : ∑ l, (t.ker.procs q).total_ticks l = tr.countP (booked q)
  run : (t.ker.procs q).rtime = (life q tr).countP (booked q)
  io : (t.ker.procs q).iotime = 0
  owed : (life q tr).countP (booked q) + (if t.owed = some q then 1 else 0) = ticksAt (onCpu0 q) (life q tr)

/-- the dates, as long as `ticks` does not wrap. -/
structure Dates (q : Slot) (tr : Trace n) (t : State n) : Prop where
  born : (t.ker.ticks : Int) = (t.ker.procs q).ctime + ticksAt (fun _ => true) (life q tr)
  fresh : Fresh t.ker q → ticksAt (inState q .ZOMBIE) (life q tr) = 0
  dead : (t.ker.procs q).state = .ZOMBIE → (t.ker.procs q).etime =
    (t.ker.procs q).ctime + ticksAt (fun s => !inState q .ZOMBIE s) (life q tr)

lemma sum_update (f : Fin 5 → Int) (i : Fin 5) : ∑ l, Function.update f i (f i + 1) l = ∑ l, f l + 1 := by
  rw [Finset.sum_update_of_mem (Finset.mem_univ i), ← Finset.add_sum_erase _ f (Finset.mem_univ i),
    Finset.sdiff_singleton_eq_erase]
  exact Int.add_right_comm ..

lemma Turn.create_embryo (ho : ForkOk k) (h : Turn k k' (.create q)) : (k.core q).state = .EMBRYO := by
  cases h.fate with
  | @create p _ hr hf => exact ho.embryo p q (by rw [show (k.procs p).fork = _ from hf]; rfl)

lemma Books.create (hs : Sound u) (hz : TimerOk u) (hst : step pol u a = .ok u')
    (he : event u a = .create q) (h : Books q tr u) : Books q (tr ++ [(u, a)]) u' := by
  have ht : Turn u.ker u'.ker (.create q) := he ▸ step_turn hs hst
  have hl : life q (tr ++ [(u, a)]) = [] := life_of_create he
  -- CPU 0 does not owe a tick to an EMBRYO
  have howed : u'.owed ≠ some q := by
    have ho : u'.owed = u.owed := by
      have := step_owing hz hst
      rw [he] at this
      cases this with
      | rest _ _ ho => exact ho
    intro e
    have hrun := hs.owed_running (ho.symm.trans e)
    rw [show (u.ker.procs q).state = _ from ht.create_embryo hs.fork] at hrun
    cases hrun
  cases ht.clocked hs.fork q with
  | kept hc => exact absurd rfl hc
  | create hc hr hi htt =>
    refine ⟨?_, ?_, hi, ?_⟩
    · rw [booked_concat, if_neg (by rw [he]; nofun), Nat.add_zero, ← h.total]
      exact congrArg (fun f : Fin 5 → Int => ∑ l, f l) htt
    · rw [hl]; exact hr
    · rw [hl, if_neg howed]; rfl

lemma Dates.create (hs : Sound u) (hst : step pol u a = .ok u') (he : event u a = .create q)
    (hnow : u.ker.now = u.ker.ticks) : Dates q (tr ++ [(u, a)]) u' := by
  have ht : Turn u.ker u'.ker (.create q) := he ▸ step_turn hs hst
  have hl : life q (tr ++ [(u, a)]) = [] := life_of_create he
  have hticks : u'.ker.ticks = u.ker.ticks := ht.ticks
  refine ⟨?_, fun _ => by rw [hl]; rfl, fun hd => ?_⟩
  · cases ht.clocked hs.fork q with
    | kept hc => exact absurd rfl hc
    | create hc =>
      rw [hl, hticks, show (u'.ker.procs q).ctime = _ from hc, hnow]
      exact (Int.add_zero _).symm
  · rcases (ht.aged hs.fork q).dead hd with ⟨e, -⟩ | ⟨-, -, e⟩
    · rw [ht.create_embryo hs.fork] at e; cases e
    · cases e

lemma Clocked.keep {now : Int} {r r' : Proc} {ev : Event} (h : Clocked now q r r' ev)
    (he : ev ≠ .create q) : r'.ctime = r.ctime ∧ r'.iotime = r.iotime ∧
      r'.rtime = r.rtime + (if ev = .charge q then 1 else 0) ∧
      ∑ l, r'.total_ticks l = ∑ l, r.total_ticks l + (if ev = .charge q then 1 else 0) := by
  cases h with
  | kept _ hg h =>
    rw [if_neg hg, Int.add_zero, Int.add_zero, h.total]
    exact ⟨h.ctime, h.iotime, h.rtime, rfl⟩
  | create => exact absurd rfl he
  | charge hc hr hi ht =>
    rw [if_pos rfl, ht]
    exact ⟨hc, hi, hr, sum_update ..⟩

lemma State.owed_of_not_ticking (h : s.ticking = false) : s.owed = none := by
  unfold State.owed
  rw [h]
  rfl

lemma Owing.count {m : Nat} (h : Owing u u' (event u a))
    (hm : l.countP (booked q) + (if u.owed = some q then 1 else 0) = m) :
    (l ++ [(u, a)]).countP (booked q) + (if u'.owed = some q then 1 else 0) =
      m + if (isTick (u, a) && onCpu0 q u) = true then 1 else 0 := by
  rw [booked_concat, ← hm]
  unfold isTick onCpu0
  revert h
  generalize event u a = ev
  intro h
  cases h with
  | tick _ ht ht' ho =>
    rw [State.owed_of_not_ticking ht, ho]
    simp
  | @charge p ht ht' ho =>
    rw [State.owed_of_not_ticking ht', ho]
    simp
  | rest he _ ho =>
    have h1 : ev ≠ .tick := fun e => by rw [e] at he; cases he
    have h2 : ev ≠ .charge q := fun e => by rw [e] at he; cases he
    rw [ho]
    simp [h1, h2]

lemma Event.ticks_eq (ev : Event) {t : Nat} (h : t + 1 < 2 ^ 32) : ev.ticks t = t + if ev = .tick then 1 else 0 := by
  cases ev with
  | tick =>
    exact Nat.mod_eq_of_lt h
  | _ => rfl

lemma Books.keep (hs : Sound u) (hz : TimerOk u) (hst : step pol u a = .ok u')
    (he : event u a ≠ .create q) (h : Books q tr u) : Books q (tr ++ [(u, a)]) u' := by
  have hl : life q (tr ++ [(u, a)]) = life q tr ++ [(u, a)] := life_of_ne he
  obtain ⟨-, hi, hr, htt⟩ := ((step_turn hs hst).clocked hs.fork q).keep he
  refine ⟨?_, ?_, hi.trans h.io, ?_⟩
  · rw [booked_concat, show ∑ l, (u'.ker.procs q).total_ticks l = _ from htt,
      show ∑ l, (u.ker.core q).total_ticks l = _ from h.total]
    push_cast
    rfl
  · rw [hl, booked_concat, show (u'.ker.procs q).rtime = _ from hr,
      show (u.ker.core q).rtime = _ from h.run]
    push_cast
    rfl
  · rw [hl, ticksAt_concat]
    exact (step_owing hz hst).count h.owed

lemma Dates.keep (hs : Sound u) (hst : step pol u a = .ok u') (he : event u a ≠ .create q)
    (hnow : u.ker.now = u.ker.ticks) (htick : u.ker.ticks + 1 < 2 ^ 32) (h : Dates q tr u) :
    Dates q (tr ++ [(u, a)]) u' := by
  have ht := step_turn hs hst
  have hag := ht.aged hs.fork q
  have hl : life q (tr ++ [(u, a)]) = life q tr ++ [(u, a)] := life_of_ne he
  have hct : (u'.ker.procs q).ctime = (u.ker.procs q).ctime :=
    ((ht.clocked hs.fork q).keep he).1
  refine ⟨?_, fun hf => ?_, fun hd => ?_⟩
  · have hb := h.born
    have ht' : u'.ker.ticks = u.ker.ticks + if event u a = .tick then 1 else 0 := by
      rw [ht.ticks, Event.ticks_eq _ htick]
    rw [hl, ticksAt_concat, ht', hct]
    simp only [isTick, Bool.and_true, decide_eq_true_eq]
    omega
  · have hf' : Fresh u.ker q := (hag.fresh hf).resolve_right he
    have hnz : inState q .ZOMBIE u = false := decide_eq_false (hf'.not_zombie hs.fork)
    rw [hl, ticksAt_concat, h.fresh hf', hnz]
    simp
  · rcases hag.dead hd with ⟨e, het⟩ | ⟨e, het, hp⟩
    · -- it was a ZOMBIE already
      have hin : inState q .ZOMBIE u = true := decide_eq_true e
      have het' : (u'.ker.procs q).etime = (u.ker.procs q).etime := het
      rw [hl, ticksAt_concat, het', hct, hin]
      simpa using h.dead e
    · -- it exits: so far all ticks of its life found it alive
      have hf : Fresh u.ker q := .inl (by rw [e]; rfl)
      have hall := ticksAt_split (fun _ => true) (inState q .ZOMBIE) (life q tr)
      simp only [Bool.true_and] at hall
      rw [h.fresh hf, Nat.zero_add] at hall
      rw [hl, ticksAt_of_not _ (by rw [hp]; nofun), show (u'.ker.procs q).etime = _ from het, hct, hnow, h.born, hall]

/-! ## the books over a run -/

lemma now_eq (h : k.ticks < 2 ^ 31) : k.now = k.ticks := by
  unfold Kernel.now int32
  rw [Int.bmod_eq_of_le] <;> omega

lemma Boot.books (hb : Boot npages need s) (q : Slot) : Books q [] s ∧ Dates q [] s := by
  obtain ⟨-, rfl⟩ := hb.eq
  obtain ⟨htt, hr, hi, hc, hst⟩ : ((firstKernel npages need).procs q).total_ticks = (fun _ => 0) ∧
      ((firstKernel npages need).procs q).rtime = 0 ∧
      ((firstKernel npages need).procs q).iotime = 0 ∧
      ((firstKernel npages need).procs q).ctime = 0 ∧
      ((firstKernel npages need).procs q).state ≠ .ZOMBIE := by
    by_cases e : q = 0
    · rw [e, firstKernel_init]
      exact ⟨rfl, rfl, rfl, rfl, nofun⟩
    · rw [firstKernel_others _ _ e]
      exact ⟨rfl, rfl, rfl, rfl, nofun⟩
  have ho : (firstState npages need : State n).owed = none := by
    unfold State.owed State.ticking State.cpu0
    split <;> rfl
  refine ⟨⟨?_, hr, hi, by rw [ho]; rfl⟩, ⟨?_, fun _ => rfl, fun e => absurd e hst⟩⟩
  · show ∑ l, ((firstKernel npages need).procs q).total_ticks l = 0
    rw [htt]
    rfl
  · show ((0 : Nat) : Int) = ((firstKernel npages need).procs q).ctime + 0
    rw [hc]
    rfl

lemma countP_isTick_concat (tr : Trace n) (u : State n) (a : Action n) :
    (tr ++ [(u, a)]).countP isTick = tr.countP isTick + if event u a = .tick then 1 else 0 := by
  rw [countP_concat]
  simp [isTick]

section
variable (hb : Boot npages need s)
include hb

section
variable (h : Run pol s tr s')
include h

lemma Run.ticks (ht : tr.countP isTick < 2 ^ 31) : s'.ker.ticks = tr.countP isTick := by
  revert ht
  refine h.history (fun tr t => tr.countP isTick < 2 ^ 31 → t.ker.ticks = tr.countP isTick) ?_ ?_
  · intro _
    obtain ⟨-, rfl⟩ := hb.eq
    rfl
  · intro tr u a u' hr ih hst ht
    rw [countP_isTick_concat] at ht ⊢
    have hu := ih (by omega)
    rw [(step_turn (Run.sound hb hr) hst).ticks, Event.ticks_eq _ (by omega), hu]

lemma Run.books (q : Slot) : Books q tr s' := by
  apply h.history (fun tr t => Books q tr t) (hb.books q).1
  intro tr u a u' hr ih hst
  have hs := Run.sound hb hr
  have hz := Run.timerOk hb hr
  by_cases he : event u a = .create q
  · exact ih.create hs hz hst he
  · exact ih.keep hs hz hst he

lemma Run.dates (ht : tr.countP isTick < 2 ^ 31) (q : Slot) : Dates q tr s' := by
  revert ht
  refine h.history (fun tr t => tr.countP isTick < 2 ^ 31 → Dates q tr t) (fun _ => (hb.books q).2) ?_
  intro tr u a u' hr ih hst ht
  rw [countP_isTick_concat] at ht
  have ht' : tr.countP isTick < 2 ^ 31 := by omega
  have hticks := Run.ticks hb hr ht'
  have hs := Run.sound hb hr
  have hnow : u.ker.now = u.ker.ticks := now_eq (by omega)
  by_cases he : event u a = .create q
  · exact Dates.create hs hst he hnow
  · exact (ih ht').keep hs hst he hnow (by omega)

lemma Run.onCpu0_running
    {e : State n × Action n} (he : e ∈ tr) (ht : isTick e = true) (ho : onCpu0 q e.1 = true) :
    inState q .RUNNING e.1 = true := by
  obtain ⟨pre, v, hr, hst⟩ := h.reached he
  have hs := Run.sound hb hr
  have hw := step_owing (Run.timerOk hb hr) hst
  rw [show event e.1 e.2 = .tick from of_decide_eq_true ht] at hw
  have hp : e.1.cpu0.proc = some q := of_decide_eq_true ho
  cases hw with
  | rest he => cases he
  | tick hm =>
    apply decide_eq_true
    unfold State.cpu0 at hp hm
    split at hp
    · next hn =>
      rw [dif_pos hn] at hm
      rcases hm with hm | hm
      · rw [hs.off_none (by rw [hm]; rfl)] at hp
        cases hp
      · exact (hs.place _).proc_running hp (.inl (by rw [hm]; rfl))
    · cases hp

end

end

/-! ## each tick is charged at most once -/

/-- by how much a step raises the run times of all processes together. -/
def rtimeGain (pol : Policy) (e : State n × Action n) : Int :=
  match step pol e.1 e.2 with
  | .ok u' => ∑ q, max 0 ((u'.ker.procs q).rtime - (e.1.ker.procs q).rtime)
  | .error _ => 0

/-- the step books a tick. -/
def Event.books : Event → Bool
  | .charge _ => true
  | _ => false

lemma rtimeGain_le (hs : Sound u) (hb : ∀ q, 0 ≤ (u.ker.procs q).rtime)
    (hst : step pol u a = .ok u') :
    rtimeGain pol (u, a) ≤ if (event u a).books = true then 1 else 0 := by
  have hq : ∀ q, max 0 ((u'.ker.procs q).rtime - (u.ker.procs q).rtime) ≤
      if event u a = .charge q then (1 : Int) else 0 := by
    intro q
    have hc : Clocked _ q (u.ker.procs q).core (u'.ker.procs q).core (event u a) :=
      (step_turn hs hst).clocked hs.fork q
    have h0 := hb q
    revert hc
    generalize event u a = ev
    intro hc
    cases hc with
    | kept _ hg h =>
      have : (u'.ker.procs q).rtime = (u.ker.procs q).rtime := h.rtime
      rw [if_neg hg]
      omega
    | create _ hr =>
      have : (u'.ker.procs q).rtime = 0 := hr
      rw [if_neg nofun]
      omega
    | charge _ hr =>
      have : (u'.ker.procs q).rtime = (u.ker.procs q).rtime + 1 := hr
      rw [if_pos rfl]
      omega
  have hsum : ∑ q, (if event u a = .charge q then (1 : Int) else 0) ≤
      if (event u a).books = true then 1 else 0 := by
    cases event u a with
    | charge => simp [Event.books]
    | _ => simp [Event.books]
  unfold rtimeGain
  simp only [hst]
  exact (Finset.sum_le_sum fun q _ => hq q).trans hsum

lemma Run.gains (hb : Boot npages need s) (h : Run pol s tr s') :
    (tr.map (rtimeGain pol)).sum + (if s'.ticking = true then 1 else 0) ≤ tr.countP isTick := by
  refine h.history (fun tr t =>
    (tr.map (rtimeGain pol)).sum + (if t.ticking = true then 1 else 0) ≤ tr.countP isTick) ?_ ?_
  · obtain ⟨-, rfl⟩ := hb.eq
    have hoff : (firstState npages need : State n).ticking = false := by
      unfold State.ticking State.cpu0
      split <;> rfl
    rw [hoff]
    simp
  · intro tr u a u' hr ih hst
    rw [countP_isTick_concat]
    have hpos : ∀ q, 0 ≤ (u.ker.procs q).rtime := by
      intro q
      rw [(Run.books hb hr q).run]
      omega
    have hg := rtimeGain_le (Run.sound hb hr) hpos hst
    have hw := step_owing (Run.timerOk hb hr) hst
    rw [map_append, sum_append, map_singleton, sum_singleton]
    revert hg hw
    generalize event u a = ev
    intro hg hw
    cases hw with
    | tick _ h1 h2 | charge h1 h2 =>
      rw [h1] at ih
      rw [h2]
      simp [Event.books] at hg ih ⊢
      omega
    | rest he h1 =>
      have hne : ev ≠ .tick := fun e => by rw [e] at he; cases he
      have hnb : ev.books = false := by cases ev <;> first | rfl | cases he
      rw [hnb] at hg
      rw [if_neg hne]
      have hle : (if u'.ticking = true then (1 : Int) else 0) ≤
          if u.ticking = true then 1 else 0 := by
        split
        · next e => rw [if_pos (h1 e)]
        · split <;> omega
      simp at hg ⊢
      omega

/-! ## what waitx reports -/

/-- the child that the step reaps by `waitx`, and what is stored to `*wtime` and `*rtime`. -/
def waitxReports (s : State n) (a : Action n) : Option (Slot × Int × Int) :=
  match waits s a with
  | some (p, true) =>
    match (waitKernel s p a).zombieChild p, (waitKernel s p a).waitx p with
    | some z, .ok (.reaped _ (some (wtime, rtime)) _) => some (z, wtime, rtime)
    | _, _ => none
  | _ => none

lemma waitKernel_same (s : State n) (p : Slot) (a : Action n) (q : Slot) :
    ∃ ch, (waitKernel s p a).procs q = { s.ker.procs q with chan := ch } := by
  have hs : ∃ ch, s.ker.procs q = { s.ker.procs q with chan := ch } := ⟨_, rfl⟩
  cases a with
  | cpu =>
    show ∃ ch, (s.ker.upd p fun r => { r with chan := none }).procs q = _
    rw [upd_procs]
    split
    · next e => exact ⟨none, by rw [e]⟩
    · exact hs
  | _ => exact hs

lemma waitxReports_eq {z : Slot} {w r : Int} (h : waitxReports s a = some (z, w, r)) :
    (s.ker.procs z).state = .ZOMBIE ∧ r = (s.ker.procs z).rtime ∧
      w = (s.ker.procs z).etime - (s.ker.procs z).ctime - r - (s.ker.procs z).iotime := by
  unfold waitxReports at h
  split at h
  · next p hw =>
    split at h
    · next z' pid w' r' k' hz hx =>
      cases h
      obtain ⟨ch, hk⟩ := waitKernel_same s p a z
      have hst := (zombieChild_spec hz).2
      unfold Kernel.waitx at hx
      rw [hz] at hx
      dsimp only at hx
      split at hx
      · cases hx
        rw [hk] at hst ⊢
        exact ⟨hst, rfl, rfl⟩
      · cases hx
    · cases h
  · cases h

section Reports

variable {npages need : Nat} (hb : Boot npages need s) (h : Run pol s tr s')
include hb h

lemma Run.rtime_eq {z : Slot} (hz : (s'.ker.procs z).state = .ZOMBIE) :
    (s'.ker.procs z).rtime = ticksAt (onCpu0 z) (life z tr) := by
  have hbk := Run.books hb h z
  have ho : s'.owed ≠ some z := by
    intro e
    have := (Run.sound hb h).owed_running e
    rw [hz] at this
    cases this
  rw [hbk.run, ← hbk.owed, if_neg ho, Nat.add_zero]

/-- the ticks of a life before the exit: RUNNABLE, on CPU 0, or neither. -/
theorem Run.ticks_split (z : Slot) : ticksAt (fun s => !inState z .ZOMBIE s) (life z tr) =
    ticksAt (inState z .RUNNABLE) (life z tr) + ticksAt (onCpu0 z) (life z tr) +
      ticksAt (fun s => !inState z .ZOMBIE s && !inState z .RUNNABLE s && !onCpu0 z s) (life z tr) := by
  have hrun : ∀ e ∈ life z tr, isTick e = true → onCpu0 z e.1 = true →
      (e.1.ker.procs z).state = .RUNNING := fun e he hti ho =>
    of_decide_eq_true (Run.onCpu0_running hb h (mem_of_mem_since he) hti ho)
  rw [ticksAt_split (fun s => !inState z .ZOMBIE s) (inState z .RUNNABLE),
    ticksAt_split (fun s => !inState z .ZOMBIE s && !inState z .RUNNABLE s) (onCpu0 z),
    ← Nat.add_assoc]
  congr 2
  · refine ticksAt_congr fun e _ _ => ?_
    unfold inState
    cases (e.1.ker.procs z).state <;> rfl
  · refine ticksAt_congr fun e he hti => ?_
    cases ho : onCpu0 z e.1 with
    | false => simp
    | true => simp [inState, hrun e he hti ho]

lemma Run.running_split (z : Slot) : ticksAt (inState z .RUNNING) (life z tr) =
    ticksAt (onCpu0 z) (life z tr) + ticksAt (fun s => inState z .RUNNING s && !onCpu0 z s) (life z tr) := by
  rw [ticksAt_split (inState z .RUNNING) (onCpu0 z)]
  congr 1
  refine ticksAt_congr fun e he hti => ?_
  cases ho : onCpu0 z e.1 with
  | false => simp
  | true => rw [Run.onCpu0_running hb h (mem_of_mem_since he) hti ho]; rfl

end Reports

/-- **What `waitx` reports.** While `current_queue` is inside of `0 .. 4` wherever it is an index, and
with fewer than `2 ^ 31` ticks, for every child `z` that `waitx` reaps: `*rtime` is the number of
ticks at which it was RUNNING and `*wtime` the number at which it was RUNNABLE, if and only if every
tick from its creation to its exit found it RUNNABLE or on CPU 0. -/
theorem waitx_times_iff {npages need : Nat} (hb : Boot npages need s) (h : Path (stepOn pol) s tr s')
    (hq : ∀ e ∈ tr, inRange e.1 e.2 = true) (ht : tr.countP isTick < 2 ^ 31) {z : Slot} {w r : Int}
    (hw : waitxReports s' a = some (z, w, r)) :
    (r = ticksAt (inState z .RUNNING) (life z tr) ∧ w = ticksAt (inState z .RUNNABLE) (life z tr)) ↔
    ∀ e ∈ life z tr, isTick e = true → inState z .ZOMBIE e.1 = false →
      inState z .RUNNABLE e.1 = true ∨ onCpu0 z e.1 = true := by
  have h := Run.of_stepOn h hq
  obtain ⟨hz, hr, hwt⟩ := waitxReports_eq hw
  have hrt := Run.rtime_eq hb h hz
  have hsplit := Run.ticks_split hb h z
  have hrun := Run.running_split hb h z
  rw [(Run.books hb h z).io, (Run.dates hb h ht z).dead hz, hr, hrt] at hwt
  rw [hr, hrt]
  -- `lost` counts the ticks that are neither
  have hlost : ticksAt (fun s => !inState z .ZOMBIE s && !inState z .RUNNABLE s && !onCpu0 z s)
      (life z tr) = 0 ↔ ∀ e ∈ life z tr, isTick e = true → inState z .ZOMBIE e.1 = false →
        inState z .RUNNABLE e.1 = true ∨ onCpu0 z e.1 = true := by
    rw [ticksAt_eq_zero]
    refine forall_congr' fun e => forall_congr' fun _ => forall_congr' fun _ => ?_
    cases inState z .ZOMBIE e.1 <;> cases inState z .RUNNABLE e.1 <;> cases onCpu0 z e.1 <;> simp
  rw [← hlost]
  have hle : ticksAt (fun s => inState z .RUNNING s && !onCpu0 z s) (life z tr) ≤
      ticksAt (fun s => !inState z .ZOMBIE s && !inState z .RUNNABLE s && !onCpu0 z s) (life z tr) := by
    refine ticksAt_mono fun e _ _ hp => ?_
    unfold inState at hp ⊢
    revert hp
    cases (e.1.ker.procs z).state <;> simp
  omega

/-- a child that runs for one tick on CPU 0 and exits: 0 ticks of waiting, 1 of running. -/
theorem waitx_times_iff_ran : ∃ (s s' : State 1) (tr : Trace 1),
    Boot 100 0 s ∧ Path (stepOn .DEFAULT) s tr s' ∧ (∀ e ∈ tr, inRange e.1 e.2 = true) ∧ tr.countP isTick < 2 ^ 31 ∧
      waitxReports s' (.cpu 0) = some (1, 0, 1) ∧
      (1 : Int) = ticksAt (inState 1 .RUNNING) (life 1 tr) ∧
      (0 : Int) = ticksAt (inState 1 .RUNNABLE) (life 1 tr) := by
  obtain ⟨s, t, tr, hb, h, hq, ht, hw, hall⟩ : ∃ (s t : State 1) (tr : _), Boot 100 0 s ∧
      Path (stepOn .DEFAULT) s tr t ∧ (∀ e ∈ tr, inRange e.1 e.2 = true) ∧ tr.countP isTick < 2 ^ 31 ∧
      waitxReports t (.cpu 0) = some (1, 0, 1) ∧
      ∀ e ∈ life 1 tr, isTick e = true → onCpu0 1 e.1 = true := Boot.exists_run (by decide)
    (turns 3 ++ forkAll ++ [.sys 0 .waitx] ++ turns 3 ++ tickYield ++ turns 68 ++ [.sys 0 .exit] ++
      turns 66) (by decide +kernel)
  exact ⟨s, t, tr, hb, h, hq, ht, hw, (waitx_times_iff hb h hq ht hw).mpr fun e he hti _ => .inr (hall e he hti)⟩

/-- a child that sleeps over one tick and exits: `waitx` reports 1 tick of waiting, though no tick
found the child RUNNABLE. -/
theorem waitx_counts_sleep : ∃ (s s' : State 1) (tr : Trace 1),
    Boot 100 0 s ∧ Run .DEFAULT s tr s' ∧ tr.countP isTick = 1 ∧
      waitxReports s' (.cpu 0) = some (1, 1, 0) ∧
      ticksAt (inState 1 .SLEEPING) (life 1 tr) = 1 ∧
      ticksAt (inState 1 .RUNNABLE) (life 1 tr) = 0 :=
  Boot.exists_run (by decide) (turns 3 ++ forkAll ++ [.sys 0 .waitx] ++ turns 3 ++
    [.sys 0 (.sleep (.addr 1))] ++ turns 64 ++ tickYield ++ [.intr 0 (.addr 1)] ++ turns 4 ++
    [.sys 0 .exit] ++ turns 66) (by decide +kernel)

/-! ## bounds -/

lemma Run.rtime_le (hb : Boot npages need s) (h : Run pol s tr s')
    (q : Slot) : (s'.ker.procs q).rtime ≤ ticksAt (onCpu0 q) (life q tr) := by
  have hbk := Run.books hb h q
  have ho := hbk.owed
  rw [hbk.run]
  omega

/-- **Each tick is charged to at most one process.** On any number of CPUs, while `current_queue` is
inside of `0 .. 4` wherever it is an index, and with fewer than `2 ^ 31` ticks: a process that lives
has been charged at most the ticks since its creation, a ZOMBIE at most those between its creation
and its exit; the run times of all processes together have been raised at most `ticks` times; and
the wait time that `waitx` computes is not negative. -/
theorem ticks_charged_once {npages need : Nat} (hb : Boot npages need s)
    (h : Path (stepOn pol) s tr s') (hq : ∀ e ∈ tr, inRange e.1 e.2 = true) (ht : tr.countP isTick < 2 ^ 31) :
    (∀ p, (s'.ker.procs p).state.alive = true →
      (s'.ker.procs p).rtime + (s'.ker.procs p).iotime ≤ s'.ker.ticks - (s'.ker.procs p).ctime) ∧
    (∀ p, (s'.ker.procs p).state = .ZOMBIE →
      (s'.ker.procs p).rtime + (s'.ker.procs p).iotime ≤ (s'.ker.procs p).etime - (s'.ker.procs p).ctime) ∧
    (tr.map (rtimeGain pol)).sum ≤ s'.ker.ticks ∧
    (∀ a z w r, waitxReports s' a = some (z, w, r) → 0 ≤ w) := by
  have h := Run.of_stepOn h hq
  have dead : ∀ p, (s'.ker.procs p).state = .ZOMBIE →
      (s'.ker.procs p).rtime + (s'.ker.procs p).iotime ≤ (s'.ker.procs p).etime - (s'.ker.procs p).ctime := by
    intro p hp
    have hle := Run.rtime_le hb h p
    have hsplit := Run.ticks_split hb h p
    rw [(Run.books hb h p).io, (Run.dates hb h ht p).dead hp]
    omega
  refine ⟨fun p hp => ?_, dead, ?_, fun a z w r hw => ?_⟩
  · have hle := Run.rtime_le hb h p
    have hmono : ticksAt (onCpu0 p) (life p tr) ≤ ticksAt (fun _ => true) (life p tr) :=
      ticksAt_mono fun _ _ _ _ => rfl
    rw [(Run.books hb h p).io, (Run.dates hb h ht p).born]
    omega
  · have hg := Run.gains hb h
    rw [Run.ticks hb h ht]
    split at hg <;> omega
  · obtain ⟨hz, hr, hwt⟩ := waitxReports_eq hw
    have := dead z hz
    omega

/-- init is interrupted by one tick, which is booked to it. -/
theorem ticks_charged_once_init : ∃ (s s' : State 1) (tr : Trace 1),
    Boot 100 0 s ∧ Path (stepOn .DEFAULT) s tr s' ∧ (∀ e ∈ tr, inRange e.1 e.2 = true) ∧ tr.countP isTick < 2 ^ 31 ∧
      (s'.ker.procs 0).rtime = 1 ∧ (tr.map (rtimeGain .DEFAULT)).sum ≤ s'.ker.ticks ∧
      (s'.ker.procs 0).rtime + (s'.ker.procs 0).iotime ≤ s'.ker.ticks - (s'.ker.procs 0).ctime := by
  obtain ⟨s, t, tr, hb, h, hq, ht, hr, hst⟩ : ∃ (s t : State 1) (tr : _), Boot 100 0 s ∧
      Path (stepOn .DEFAULT) s tr t ∧ (∀ e ∈ tr, inRange e.1 e.2 = true) ∧ tr.countP isTick < 2 ^ 31 ∧
      (t.ker.procs 0).rtime = 1 ∧ (t.ker.procs 0).state.alive = true :=
    Boot.exists_run (by decide) (turns 3 ++ tickYield) (by decide +kernel)
  have hall := ticks_charged_once hb h hq ht
  exact ⟨s, t, tr, hb, h, hq, ht, hr, hall.2.2.1, hall.1 0 hst⟩

/-- pid 4 sleeps, is woken `a` steps later and waits for six ticks; `b` steps later it runs. -/
def waitsSix (a b : Nat) : List (Action 1) :=
  .sys 0 (.sleep (.addr 2)) :: turns a ++ .intr 0 (.addr 2) :: (replicate 6 tickYield).flatten ++ turns b

/-- pid 4 is promoted four times in `q1`, and `current_queue` falls to -3. From then on each of its
ticks is charged to `rtime` and to `iotime`, which is `ticks[-3]`: after 25 of them it has been
charged 51 ticks, 50 ticks after its creation. -/
theorem tick_charged_twice : ∃ (s s' : State 1) (tr : Trace 1),
    Boot 100 0 s ∧ Path (stepOn .MLFQ) s tr s' ∧ tr.countP isTick = 50 ∧
      (s'.ker.procs 3).state.alive = true ∧ (s'.ker.procs 3).current_queue = -3 ∧
      (s'.ker.procs 3).rtime = 26 ∧ (s'.ker.procs 3).iotime = 25 ∧
      s'.ker.ticks - (s'.ker.procs 3).ctime = 50 :=
  Boot.exists_run (by decide) (fourInQ1 ++ turns 3 ++ waitsSix 5 12 ++ waitsSix 5 11 ++ waitsSix 7 11 ++
    waitsSix 8 11 ++ (replicate 6 ([3, 3, 4, 16].flatMap fun k => tickYield ++ turns k)).flatten ++
    tickYield) (by decide +kernel)

/-! ## the tick statistics -/

lemma Run.total_ticks_eq (hb : Boot npages need s) (h : Run pol s tr s')
    (q : Slot) : ∑ l, (s'.ker.procs q).total_ticks l =
      (s'.ker.procs q).rtime + (upTo (creates q) tr).countP (booked q) := by
  have hbk := Run.books hb h q
  have hsplit : tr.countP (booked q) = (upTo (creates q) tr).countP (booked q) + (life q tr).countP (booked q) := by
    unfold life
    rw [← countP_append, upTo_append_since]
  rw [hbk.total, hbk.run, hsplit]
  push_cast
  omega

lemma Kernel.getpinfo_stat {pid : Int} {st : ProcStat} (h : (k.getpinfo pid).1 = some st) :
    ∃ p, k.lookup pid = some p ∧ st.runtime = (k.procs p).rtime ∧ st.ticks = (k.procs p).total_ticks := by
  unfold getpinfo at h
  split at h
  · next p hp => cases h; exact ⟨p, hp, rfl, rfl⟩
  · cases h

/-- **The tick statistics add up** to the run time, in every state that a run reaches with
`current_queue` inside of `0 .. 4` wherever it is an index, and for every slot in use, and so do
those that `getpinfo` returns, if and only if no tick was booked to an earlier process of the same
slot. -/
theorem tick_statistics_iff {npages need : Nat} (hb : Boot npages need s)
    (h : Path (stepOn pol) s tr s') (hq : ∀ e ∈ tr, inRange e.1 e.2 = true) :
    (∀ p, (s'.ker.procs p).state.made = true →
      (∑ l, (s'.ker.procs p).total_ticks l = (s'.ker.procs p).rtime ↔
        ∀ e ∈ upTo (creates p) tr, event e.1 e.2 ≠ .charge p)) ∧
    (∀ pid st p, (s'.ker.getpinfo pid).1 = some st → s'.ker.lookup pid = some p →
      (∑ l, st.ticks l = st.runtime ↔ ∀ e ∈ upTo (creates p) tr, event e.1 e.2 ≠ .charge p)) := by
  have h := Run.of_stepOn h hq
  have hiff : ∀ p, ∑ l, (s'.ker.procs p).total_ticks l = (s'.ker.procs p).rtime ↔
      ∀ e ∈ upTo (creates p) tr, event e.1 e.2 ≠ .charge p := by
    intro p
    rw [Run.total_ticks_eq hb h p]
    have hz : (upTo (creates p) tr).countP (booked p) = 0 ↔ ∀ e ∈ upTo (creates p) tr, event e.1 e.2 ≠ .charge p := by
      rw [countP_eq_zero]
      simp [booked]
    rw [← hz]
    omega
  refine ⟨fun p _ => hiff p, fun pid st p hst hp => ?_⟩
  obtain ⟨p', hp', hr, htt⟩ := getpinfo_stat hst
  rw [hp] at hp'
  cases hp'
  rw [hr, htt]
  exact hiff p

/-- init has run for one tick, and no process had its slot before it. -/
theorem tick_statistics_iff_init : ∃ (s s' : State 1) (tr : Trace 1),
    Boot 100 0 s ∧ Path (stepOn .DEFAULT) s tr s' ∧ (∀ e ∈ tr, inRange e.1 e.2 = true) ∧
      (s'.ker.procs 0).rtime = 1 ∧
      ∑ l, (s'.ker.procs 0).total_ticks l = (s'.ker.procs 0).rtime := by
  obtain ⟨s, t, tr, hb, h, hq, hr, hst, hno⟩ : ∃ (s t : State 1) (tr : _), Boot 100 0 s ∧
      Path (stepOn .DEFAULT) s tr t ∧ (∀ e ∈ tr, inRange e.1 e.2 = true) ∧
      (t.ker.procs 0).rtime = 1 ∧ (t.ker.procs 0).state.made = true ∧
      ∀ e ∈ upTo (creates 0) tr, event e.1 e.2 ≠ .charge 0 :=
    Boot.exists_run (by decide) (turns 3 ++ tickYield) (by decide +kernel)
  exact ⟨s, t, tr, hb, h, hq, hr, ((tick_statistics_iff hb h hq).1 0 hst).mpr hno⟩

/-- the first child runs for one tick, exits and is reaped; the second child gets its slot and
starts with run time 0, but with one tick in its statistics. -/
theorem tick_statistics_left_over : ∃ (s s' : State 1) (tr : Trace 1),
    Boot 100 0 s ∧ Run .DEFAULT s tr s' ∧ (s'.ker.procs 1).state = .RUNNABLE ∧
      (s'.ker.procs 1).pid = 3 ∧ (s'.ker.procs 1).rtime = 0 ∧
      ∑ l, (s'.ker.procs 1).total_ticks l = 1 :=
  Boot.exists_run (by decide) (turns 3 ++ forkAll ++ [.sys 0 .wait] ++ turns 3 ++ tickYield ++ turns 68 ++
    [.sys 0 .exit] ++ turns 67 ++ forkAll) (by decide +kernel)

end Xv6
