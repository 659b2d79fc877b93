import Xv6.Sleep.Machine
import Xv6.Lib.Mutex

/-!
# No wakeup is lost

A process that has found the condition false either holds `lk`, and then the condition is still false
(`Pc.tested`), or it holds `ptable.lock` (`Pc.dozes`) or is SLEEPING. From then on

    the condition is false, or a producer has not yet called `wakeup1` (`Owed`):

who makes the condition true is such a producer, and it calls `wakeup1` with `ptable.lock`, when nobody
dozes, and wakes all who sleep.
-/

set_option linter.unusedSectionVars false

namespace Xv6.Sleep
open Lib
open Function (update update_self update_of_ne update_eq_self)

variable {ι κ σ : Type} [DecidableEq ι] [DecidableEq κ] {cond : σ → Bool} {lk x : Lock}
  {s s' t : State ι κ cond} {p q : ι} {c d : κ} {k k₀ : Pc ι cond} {a : Label ι κ cond}

namespace Pc

/-- the locks that are held at a place. -/
def holds (lk x : Lock) : Pc ι cond → Bool
  | .test _ | .sleep _ | .slept _ | .leave | .set _ _ | .first => x = lk
  | .unlock _ => x = lk || x = .ptable
  | .doze _ | .woken _ | .rouse _ | .killed | .yield _ | .resume _ | .wakeup1 => x = .ptable
  | .wakeup r => r && x = lk
  | .scan r | .woke r => x = .ptable || r && x = lk
  | _ => false

/-- after the test, with `lk`. -/
def tested : Pc ι cond → Bool
  | .sleep _ | .unlock _ => true
  | _ => false

/-- after the test, with `ptable.lock` instead. -/
def dozes : Pc ι cond → Bool
  | .doze _ => true
  | _ => false

/-- a producer has made the condition true and has not called `wakeup1` yet. -/
def pending : Pc ι cond → Bool
  | .first | .wakeup _ | .scan _ | .wakeup1 => true
  | .preempt k | .yield k | .resume k => k.pending
  | _ => false

/-- what is known of `lk`, and of a process that was preempted. -/
def Fits (lk : Lock) : Pc ι cond → Prop
  | .unlock _ => lk = .other
  | .produce _ w | .set _ w => w = .inside → lk = .ptable
  | .scan r | .woke r => r = true → lk = .other
  | .wakeup1 => lk = .ptable
  | .preempt k | .yield k | .resume k => (∀ x, k.holds lk x = false) ∧ k.Fits lk
  | _ => True

end Pc

/-- what a CPU is doing. -/
def State.view (s : State ι κ cond) (c : κ) : Bool ⊕ Pc ι cond :=
  match s.cpu c with
  | .sched b => .inl b
  | .proc p => .inr (s.pc p)

def held (lk x : Lock) : Bool ⊕ Pc ι cond → Bool
  | .inl b => b && x = .ptable
  | .inr k => k.holds lk x

/-- if the condition is true, a wakeup is to come. -/
def Owed (s : State ι κ cond) : Prop := cond s.val = true → ∃ q, (s.pc q).pending = true

structure Ok (lk : Lock) (s : State ι κ cond) : Prop where
  locked : ∀ x, Mutex (s.lock x) (held lk x) s.view
  single : ∀ c d p, s.cpu c = .proc p → s.cpu d = .proc p → d = c
  running : ∀ c p, s.cpu c = .proc p → s.state p = .RUNNING
  off : ∀ p, (∀ c, s.cpu c ≠ .proc p) → (∃ f, s.pc p = .woken f) ∨ ∃ k, s.pc p = .resume k
  sleeping : ∀ p, s.state p = .SLEEPING → s.chan p = true ∧ ∃ f, s.pc p = .woken f
  fits : ∀ p, (s.pc p).Fits lk
  tested : ∀ p, (s.pc p).tested = true → cond s.val = false
  owed : ∀ p, (s.pc p).dozes = true ∨ s.state p = .SLEEPING → Owed s

lemma view_proc (hc : s.cpu c = .proc p) : s.view c = .inr (s.pc p) := by
  unfold State.view
  rw [hc]

namespace Ok

variable {l : Lock → Option κ} {ch : ι → Bool} {y : Lock}

section
variable (h : Ok lk s)
include h

lemma on (hw : ∀ f, s.pc p ≠ .woken f) (hr : ∀ k, s.pc p ≠ .resume k) : ∃ c, s.cpu c = .proc p := by
  by_contra hx
  rcases h.off p (not_exists.mp hx) with ⟨f, hf⟩ | ⟨k, hk⟩
  · exact hw f hf
  · exact hr k hk

lemma on_of_tested (hp : (s.pc p).tested = true) : ∃ c, s.cpu c = .proc p := by
  apply h.on
  all_goals
    intro f hf
    rw [hf] at hp
    cases hp

lemma on_of_dozes (hp : (s.pc p).dozes = true) : ∃ c, s.cpu c = .proc p := by
  apply h.on
  all_goals
    intro f hf
    rw [hf] at hp
    cases hp

/-- the process on `c` holds the lock exactly when it is where the lock is held. -/
theorem lock_iff (hc : s.cpu c = .proc p) : s.lock x = some c ↔ (s.pc p).holds lk x = true := by
  have h1 := h.locked x c
  rw [view_proc hc] at h1
  exact h1

lemma unique (hc : s.cpu c = .proc p) (hd : s.cpu d = .proc q)
    (hp : (s.pc p).holds lk x = true) (hq : (s.pc q).holds lk x = true) : p = q := by
  have h1 := (h.lock_iff hc).mpr hp
  rw [(h.lock_iff hd).mpr hq] at h1
  cases h1
  rw [hc] at hd
  cases hd
  rfl

end

lemma tested_holds (hp : k.tested = true) : k.holds lk lk = true := by
  cases k with
  | sleep | unlock => simp [Pc.holds]
  | _ => cases hp

lemma dozes_holds (hp : k.dozes = true) : k.holds lk .ptable = true := by
  cases k with
  | doze => simp [Pc.holds]
  | _ => cases hp

/-! ## a process goes on -/

lemma view_goto (h : Ok lk s) (hc : s.cpu c = .proc p) (l : Lock → Option κ) (v : σ) (ch : ι → Bool) :
    State.view { s.goto p k with lock := l, val := v, chan := ch } = update s.view c (.inr k) := by
  funext d
  unfold State.view
  by_cases hd : d = c
  · rw [hd, update_self]
    simp only [State.goto, hc, update_self]
  · rw [update_of_ne hd]
    simp only [State.goto]
    cases hq : s.cpu d with
    | sched => rfl
    | proc q =>
      have hqp : q ≠ p := by
        rintro rfl
        exact hd (h.single c d q hc hq)
      simp only [update_of_ne hqp]

lemma pending_update (hk0 : s.pc p = k₀) (hp : k₀.pending = true → k.pending = true)
    (h : ∃ q, (s.pc q).pending = true) : ∃ q, (update s.pc p k q).pending = true := by
  obtain ⟨q, hq⟩ := h
  refine ⟨q, pc_update (P := fun q (k : Pc ι cond) => (s.pc q).pending = true → k.pending = true) ?_ (fun _ _ => id) q hq⟩
  rw [hk0]
  exact hp

section
variable (h : Ok lk s) (hc : s.cpu c = .proc p) (hk0 : s.pc p = k₀)
include h hc hk0

lemma advance {v : σ}
    (hl : ∀ x, Mutex (l x) (held lk x) (update s.view c (.inr k))) (hch : ∀ q, q ≠ p → ch q = s.chan q)
    (hf : k.Fits lk) (ht : k.tested = true ∨ k.dozes = true → cond v = false) (hv : v = s.val ∨ s.lock lk = some c)
    (hw : cond v = true → cond s.val = true ∨ k.pending = true)
    (hp : (k₀.pending = true → k.pending = true) ∨ ∀ q, (s.pc q).dozes = false ∧ s.state q ≠ .SLEEPING) :
    Ok lk { s.goto p k with lock := l, val := v, chan := ch } := by
  have hself : update s.pc p k p = k := update_self ..
  have hne : ∀ q, q ≠ p → update s.pc p k q = s.pc q := fun q hq => update_of_ne hq ..
  have hrun := h.running c p hc
  -- a wakeup that is to come is still to come
  have howed : (k₀.pending = true → k.pending = true) → Owed s →
      Owed { s.goto p k with lock := l, val := v, chan := ch } := by
    intro hp ho hcond
    rcases hw hcond with h1 | h1
    · exact pending_update hk0 hp (ho h1)
    · exact ⟨p, (congrArg Pc.pending hself).trans h1⟩
  refine ⟨fun x => ?_, h.single, h.running, fun q hq => ?_, fun q hq => ?_, fun q => ?_, fun q hq => ?_,
    fun q hq => ?_⟩
  · rw [h.view_goto hc]
    exact hl x
  · have hqp : q ≠ p := by
      rintro rfl
      exact hq c hc
    show (∃ f, update s.pc p k q = .woken f) ∨ ∃ k', update s.pc p k q = .resume k'
    rw [hne q hqp]
    exact h.off q hq
  · have hsleep : s.state q = .SLEEPING := hq
    have hqp : q ≠ p := by
      intro hqp
      rw [hqp, hrun] at hsleep
      cases hsleep
    show ch q = true ∧ ∃ f, update s.pc p k q = .woken f
    rw [hne q hqp, hch q hqp]
    exact h.sleeping q hsleep
  · exact pc_update (P := fun _ (k : Pc ι cond) => k.Fits lk) hf (fun q _ => h.fits q) q
  · have hq : (update s.pc p k q).tested = true := hq
    by_cases hqp : q = p
    · rw [hqp, hself] at hq
      exact ht (.inl hq)
    · -- it holds `lk`, so the value is as before
      rw [hne q hqp] at hq
      rcases hv with hv | hlk
      · rw [hv]
        exact h.tested q hq
      · obtain ⟨d, hd⟩ := h.on_of_tested hq
        exact absurd (h.unique hd hc (tested_holds hq) ((h.lock_iff hc).mp hlk)) hqp
  · have hq : (update s.pc p k q).dozes = true ∨ s.state q = .SLEEPING := hq
    by_cases hqp : q = p
    · rw [hqp, hself, hrun] at hq
      intro hcond
      have h1 := ht (.inr (hq.resolve_right nofun))
      exact absurd (h1.symm.trans hcond) Bool.false_ne_true
    · rw [hne q hqp] at hq
      rcases hp with hp | hp
      · exact howed hp (h.owed q hq)
      · -- nobody sleeps
        rcases hq with hq | hq
        · exact absurd ((hp q).1.symm.trans hq) Bool.false_ne_true
        · exact absurd hq (hp q).2

lemma keep {x : Lock}
    (hk : k.holds lk x = k₀.holds lk x) : Mutex (s.lock x) (held lk x) (update s.view c (.inr k)) := by
  apply (h.locked x).move
  rw [view_proc hc, hk0]
  exact hk

lemma take (hy : s.lock y = none)
    (hky : k.holds lk y = true) (hk : ∀ x, x ≠ y → k.holds lk x = k₀.holds lk x) (x : Lock) :
    Mutex (update s.lock y (some c) x) (held lk x) (update s.view c (.inr k)) := by
  by_cases hx : x = y
  · rw [hx, update_self]
    exact (h.locked y).take hy hky
  · rw [update_of_ne hx]
    exact h.keep hc hk0 (hk x hx)

lemma give (hy : k₀.holds lk y = true)
    (hky : k.holds lk y = false) (hk : ∀ x, x ≠ y → k.holds lk x = k₀.holds lk x) (x : Lock) :
    Mutex (update s.lock y none x) (held lk x) (update s.view c (.inr k)) := by
  by_cases hx : x = y
  · rw [hx, update_self]
    have hk' : held lk y (.inr k) = false := hky
    refine (h.locked y).give ?_ hk'
    rw [view_proc hc, hk0]
    exact hy
  · rw [update_of_ne hx]
    exact h.keep hc hk0 (hk x hx)

end

/-! ## sleepers wake up -/

lemma wakes (h : Ok lk s) {st : ι → ProcState}
    (hst : ∀ q, st q = s.state q ∨ s.state q = .SLEEPING ∧ st q = .RUNNABLE) : Ok lk { s with state := st } := by
  have hback : ∀ q, st q = .SLEEPING → s.state q = .SLEEPING := by
    intro q hq
    rcases hst q with h1 | ⟨h1, -⟩
    · rw [← h1]
      exact hq
    · exact h1
  refine ⟨h.locked, h.single, fun c q hc => ?_, h.off, fun q hq => h.sleeping q (hback q hq), h.fits,
    h.tested, fun q hq => h.owed q (hq.imp_right (hback q))⟩
  rcases hst q with h1 | ⟨h1, -⟩
  · exact h1.trans (h.running c q hc)
  · rw [h.running c q hc] at h1
    cases h1

lemma not_dozes (h : Ok lk s) (hc : s.cpu c = .proc p) (hp : (s.pc p).holds lk .ptable = true)
    (hk : (s.pc p).dozes = false) (q : ι) : (s.pc q).dozes = false := by
  rw [← Bool.not_eq_true]
  intro hq
  obtain ⟨d, hd⟩ := h.on_of_dozes hq
  rw [h.unique hd hc (dozes_holds hq) hp, hk] at hq
  cases hq

lemma scan (h : Ok lk s) (hc : s.cpu c = .proc p) (hk0 : s.pc p = k₀)
    (hp : k₀.holds lk .ptable = true) (hd0 : k₀.dozes = false) (hk : ∀ x, k.holds lk x = k₀.holds lk x)
    (hf : k.Fits lk) (ht : k.tested = false) (hd : k.dozes = false) : Ok lk (s.wakeup1.goto p k) := by
  have h1 : Ok lk s.wakeup1 := by
    apply h.wakes
    intro q
    by_cases hq : s.state q = .SLEEPING ∧ s.chan q = true
    · exact .inr ⟨hq.1, if_pos hq⟩
    · exact .inl (if_neg hq)
  have hall : ∀ q, (s.pc q).dozes = false ∧ s.wakeup1.state q ≠ .SLEEPING := by
    intro q
    refine ⟨h.not_dozes hc (by rw [hk0]; exact hp) (by rw [hk0]; exact hd0) q, fun hq => ?_⟩
    dsimp only [State.wakeup1] at hq
    split at hq
    · cases hq
    · next hn => exact hn ⟨hq, (h.sleeping q hq).1⟩
  exact h1.advance hc hk0 (fun x => h1.keep hc hk0 (hk x)) (fun _ _ => rfl) hf (by rw [ht, hd]; exact nofun)
    (.inl rfl) .inl (.inr hall)

/-! ## the scheduler -/

lemma switch (h : Ok lk s) (hc : s.cpu c = .proc p) (hk0 : s.pc p = k₀)
    (hx : ∀ x, k₀.holds lk x = decide (x = .ptable)) {st : ProcState}
    (hch : ∀ q, q ≠ p → ch q = s.chan q) (hk : (∃ f, k = .woken f) ∨ ∃ k', k = .resume k')
    (hst : st = .SLEEPING → ch p = true ∧ (∃ f, k = .woken f) ∧ k₀.dozes = true) (hf : k.Fits lk)
    (hp : k₀.pending = true → k.pending = true) :
    Ok lk { s.goto p k with
            chan := ch
            state := update s.state p st
            cpu := update s.cpu c (.sched true) } := by
  have hself : update s.pc p k p = k := update_self ..
  have hne : ∀ q, q ≠ p → update s.pc p k q = s.pc q := fun q hq => update_of_ne hq ..
  have hcpu : ∀ d q, update s.cpu c (.sched true) d = .proc q → d ≠ c ∧ s.cpu d = .proc q ∧ q ≠ p := by
    intro d q hd
    have hdc : d ≠ c := by
      rintro rfl
      rw [update_self] at hd
      cases hd
    rw [update_of_ne hdc] at hd
    refine ⟨hdc, hd, ?_⟩
    rintro rfl
    exact hdc (h.single c d q hc hd)
  have htested : k.tested = false ∧ k.dozes = false := by
    obtain ⟨f, rfl⟩ | ⟨k', rfl⟩ := hk <;> exact ⟨rfl, rfl⟩
  have hview : State.view { s.goto p k with
            chan := ch
            state := update s.state p st
            cpu := update s.cpu c (.sched true) } = update s.view c (.inl true) := by
    funext d
    unfold State.view
    by_cases hd : d = c
    · rw [hd, update_self]
      simp only [update_self]
    · rw [update_of_ne hd]
      simp only [State.goto, update_of_ne hd]
      cases hq : s.cpu d with
      | sched => rfl
      | proc q =>
        have hqp : q ≠ p := by
          rintro rfl
          exact hd (h.single c d q hc hq)
        simp only [hne q hqp]
  have howed : Owed s → Owed { s.goto p k with
            chan := ch
            state := update s.state p st
            cpu := update s.cpu c (.sched true) } := by
    exact fun ho hcond => pending_update hk0 hp (ho hcond)
  refine ⟨fun x => ?_, fun d e q hd he => ?_, fun d q hd => ?_, fun q hq => ?_, fun q hq => ?_, fun q => ?_,
    fun q hq => ?_, fun q hq => ?_⟩
  · rw [hview]
    apply (h.locked x).move
    rw [view_proc hc, hk0]
    exact (Bool.true_and _).trans (hx x).symm
  · exact h.single d e q (hcpu d q hd).2.1 (hcpu e q he).2.1
  · obtain ⟨-, h1, h2⟩ := hcpu d q hd
    show update s.state p st q = .RUNNING
    rw [update_of_ne h2]
    exact h.running d q h1
  · show (∃ f, update s.pc p k q = .woken f) ∨ ∃ k', update s.pc p k q = .resume k'
    by_cases hqp : q = p
    · rw [hqp, hself]
      exact hk
    · rw [hne q hqp]
      apply h.off q
      intro d hd
      have hdc : d ≠ c := by
        rintro rfl
        rw [hc] at hd
        cases hd
        exact hqp rfl
      apply hq d
      show update s.cpu c (.sched true) d = .proc q
      rw [update_of_ne hdc]
      exact hd
  · have hq : update s.state p st q = .SLEEPING := hq
    show ch q = true ∧ ∃ f, update s.pc p k q = .woken f
    by_cases hqp : q = p
    · rw [hqp, update_self] at hq
      rw [hqp, hself]
      exact ⟨(hst hq).1, (hst hq).2.1⟩
    · rw [update_of_ne hqp] at hq
      rw [hne q hqp, hch q hqp]
      exact h.sleeping q hq
  · exact pc_update (P := fun _ (k : Pc ι cond) => k.Fits lk) hf (fun q _ => h.fits q) q
  · refine pc_update (P := fun _ (k : Pc ι cond) => k.tested = true → cond s.val = false) ?_ (fun q _ => h.tested q) q hq
    rw [htested.1]
    exact nofun
  · have hq : (update s.pc p k q).dozes = true ∨ update s.state p st q = .SLEEPING := hq
    apply howed
    by_cases hqp : q = p
    · rw [hqp, hself, htested.2, update_self] at hq
      exact h.owed p (.inl (by rw [hk0]; exact (hst (hq.resolve_left nofun)).2.2))
    · rw [hne q hqp, update_of_ne hqp] at hq
      exact h.owed q hq

lemma run (h : Ok lk s) (hc : s.cpu c = .sched true) (hp : s.state p = .RUNNABLE) : Ok lk { s with
            state := update s.state p .RUNNING
            cpu := update s.cpu c (.proc p) } := by
  have hoff : ∀ d, s.cpu d ≠ .proc p := by
    intro d hd
    rw [h.running d p hd] at hp
    cases hp
  have hcpu : ∀ d q, update s.cpu c (.proc p) d = .proc q → d = c ∧ q = p ∨ s.cpu d = .proc q := by
    refine pc_update (P := fun d (x : Cpu ι) => ∀ q, x = .proc q → d = c ∧ q = p ∨ s.cpu d = .proc q) ?_ fun _ _ _ => .inr
    rintro _ ⟨⟩
    exact .inl ⟨rfl, rfl⟩
  have hview : State.view { s with
            state := update s.state p .RUNNING
            cpu := update s.cpu c (.proc p) } = update s.view c (.inr (s.pc p)) := by
    funext d
    unfold State.view
    by_cases hd : d = c
    · rw [hd, update_self]
      simp only [update_self]
    · rw [update_of_ne hd]
      simp only [update_of_ne hd]
  have hsleep : ∀ q, update s.state p .RUNNING q = .SLEEPING → s.state q = .SLEEPING :=
    pc_update (P := fun q (x : ProcState) => x = .SLEEPING → s.state q = .SLEEPING) nofun fun _ _ => id
  refine ⟨fun x => ?_, fun d e q hd he => ?_, fun d q hd => ?_, fun q hq => ?_,
    fun q hq => h.sleeping q (hsleep q hq), h.fits, h.tested, fun q hq => h.owed q (hq.imp_right (hsleep q))⟩
  · rw [hview]
    apply (h.locked x).move
    -- it was in `sleep` or `yield`, with the lock
    have hx : (s.pc p).holds lk x = decide (x = .ptable) := by
      rcases h.off p hoff with ⟨f, hf⟩ | ⟨k, hk⟩
      · rw [hf]
        rfl
      · rw [hk]
        rfl
    unfold State.view
    rw [hc]
    exact hx.trans (Bool.true_and _).symm
  · rcases hcpu d q hd with ⟨h1, h2⟩ | h1
    · rcases hcpu e q he with ⟨h3, -⟩ | h3
      · exact h3.trans h1.symm
      · exact absurd (h2 ▸ h3) (hoff e)
    · rcases hcpu e q he with ⟨-, h3⟩ | h3
      · exact absurd (h3 ▸ h1) (hoff d)
      · exact h.single d e q h1 h3
  · show update s.state p .RUNNING q = .RUNNING
    rcases hcpu d q hd with ⟨-, rfl⟩ | h1
    · exact update_self ..
    · have hqp : q ≠ p := by
        rintro rfl
        exact hoff d h1
      rw [update_of_ne hqp]
      exact h.running d q h1
  · apply h.off q
    intro d hd
    have hdc : d ≠ c := by
      rintro rfl
      rw [hc] at hd
      cases hd
    apply hq d
    show update s.cpu c (.proc p) d = .proc q
    rw [update_of_ne hdc]
    exact hd

lemma scheds (h : Ok lk s) {b b' : Bool} (hc : s.cpu c = .sched b)
    (hl : ∀ x, Mutex (l x) (held lk x) (update s.view c (.inl b'))) :
    Ok lk { s with lock := l, cpu := update s.cpu c (.sched b') } := by
  have hcpu : ∀ d q, update s.cpu c (.sched b') d = .proc q ↔ s.cpu d = .proc q := by
    refine pc_update (P := fun d (x : Cpu ι) => ∀ q, x = .proc q ↔ s.cpu d = .proc q) (fun q => ?_) fun _ _ _ => Iff.rfl
    rw [hc]
    exact ⟨nofun, nofun⟩
  refine ⟨fun x => ?_, fun d e q hd he => ?_, fun d q hd => ?_, fun q hq => ?_, h.sleeping, h.fits, h.tested, h.owed⟩
  · have hview : State.view { s with lock := l, cpu := update s.cpu c (.sched b') } = update s.view c (.inl b') := by
      funext d
      unfold State.view
      by_cases hd : d = c
      · rw [hd, update_self]
        simp only [update_self]
      · rw [update_of_ne hd]
        simp only [update_of_ne hd]
    rw [hview]
    exact hl x
  · exact h.single d e q ((hcpu d q).mp hd) ((hcpu e q).mp he)
  · exact h.running d q ((hcpu d q).mp hd)
  · exact h.off q fun d hd => hq d ((hcpu d q).mpr hd)

/-! ## steps -/

section
variable (h : Ok lk s) (hc : s.cpu c = .proc p) (hk0 : s.pc p = k₀)
include h hc hk0

lemma acquires
    (hs : (s.acquire c y).map (·.goto p k) = .ok s') (hky : k.holds lk y = true)
    (hk : ∀ x, x ≠ y → k.holds lk x = k₀.holds lk x) (hf : s.lock y = none → k.Fits lk)
    (ht : k.tested = true ∨ k.dozes = true → cond s.val = false)
    (hp : k₀.pending = true → k.pending = true) : Ok lk s' := by
  obtain ⟨t, h1, rfl⟩ := map_ok hs
  obtain ⟨hy, rfl⟩ := acquire_ok h1
  exact h.advance hc hk0 (h.take hc hk0 hy hky hk) (fun _ _ => rfl) (hf hy) ht (.inl rfl) .inl (.inl hp)

lemma releases
    (hs : (s.release c y).map (·.goto p k) = .ok s') (hy : k₀.holds lk y = true) (hky : k.holds lk y = false)
    (hk : ∀ x, x ≠ y → k.holds lk x = k₀.holds lk x) (hf : k.Fits lk)
    (ht : k.tested = true ∨ k.dozes = true → cond s.val = false)
    (hp : k₀.pending = true → k.pending = true) : Ok lk s' := by
  obtain ⟨t, h1, rfl⟩ := map_ok hs
  obtain rfl := release_ok h1
  exact h.advance hc hk0 (h.give hc hk0 hy hky hk) (fun _ _ => rfl) hf ht (.inl rfl) .inl (.inl hp)

lemma moves (hk : ∀ x, k.holds lk x = k₀.holds lk x)
    (hf : k.Fits lk) (ht : k.tested = true ∨ k.dozes = true → cond s.val = false)
    (hp : k₀.pending = true → k.pending = true) : Ok lk (s.goto p k) :=
  h.advance hc hk0 (fun x => h.keep hc hk0 (hk x)) (fun _ _ => rfl) hf ht (.inl rfl) .inl (.inl hp)

end

lemma turn (h : Ok lk s) (hc : s.cpu c = .proc p) (hs : turn lk s c p = .ok s') : Ok lk s' := by
  have hf := h.fits p
  unfold Sleep.turn at hs
  generalize hk : s.pc p = k at hs hf
  cases k with
  | user =>
    cases hs
  | enter | relock =>
    exact h.acquires hc hk hs (by simp [Pc.holds]) (by simp [Pc.holds]) (fun _ => trivial) nofun nofun
  | test =>
    dsimp only at hs
    split at hs
    · next hv =>
      cases hs
      refine h.advance hc hk (fun _ => h.keep hc hk rfl) (fun _ _ => rfl) trivial nofun (.inr ?_)
        (fun _ => .inl hv) (.inl nofun)
      rw [h.lock_iff hc, hk]
      simp [Pc.holds]
    · next hv =>
      cases hs
      exact h.moves hc hk (fun _ => rfl) trivial (fun _ => by simpa using hv) nofun
  | sleep =>
    have hv := h.tested p (by rw [hk]; rfl)
    dsimp only at hs
    split at hs
    · next hlk =>
      cases hs
      exact h.moves hc hk (fun x => by simp [Pc.holds, hlk]) trivial (fun _ => hv) nofun
    · next hlk =>
      have hlk : lk = .other := by
        cases lk with
        | ptable => exact absurd rfl hlk
        | other => rfl
      exact h.acquires hc hk hs (by simp [Pc.holds]) (fun x hx => by simp [Pc.holds, hx]) (fun _ => hlk)
        (fun _ => hv) nofun
  | unlock =>
    have hv := h.tested p (by rw [hk]; rfl)
    have hlk : lk = .other := hf
    exact h.releases hc hk hs (by simp [Pc.holds]) (by simp [Pc.holds, hlk])
      (fun x hx => by simp [Pc.holds, hx]) trivial (fun _ => hv) nofun
  | doze f =>
    obtain rfl := sched_ok hs
    exact h.switch hc hk (fun _ => rfl) (fun q hq => update_of_ne hq ..) (.inl ⟨f, rfl⟩)
      (fun _ => ⟨update_self .., ⟨f, rfl⟩, rfl⟩) trivial nofun
  | woken =>
    dsimp only at hs
    have hch : ∀ q, q ≠ p → update s.chan p false q = s.chan q :=
      fun q hq => update_of_ne hq ..
    split at hs
    · next hlk =>
      cases hs
      exact h.advance hc hk (fun _ => h.keep hc hk (by simp [Pc.holds, hlk])) hch trivial nofun (.inl rfl) .inl
        (.inl nofun)
    · next hlk =>
      obtain ⟨t, h1, rfl⟩ := map_ok hs
      obtain rfl := release_ok h1
      exact h.advance hc hk (h.give hc hk (by simp [Pc.holds]) rfl fun x hx => by simp [Pc.holds, hx]) hch
        trivial nofun (.inl rfl) .inl (.inl nofun)
  | slept =>
    cases hs
    exact h.moves hc hk (fun _ => rfl) trivial nofun nofun
  | leave =>
    exact h.releases hc hk hs (by simp [Pc.holds]) rfl (by simp [Pc.holds]) trivial nofun nofun
  | produce =>
    exact h.acquires hc hk hs (by simp [Pc.holds]) (by simp [Pc.holds]) (fun _ => hf) nofun nofun
  | set g w =>
    cases hs
    have hlk : s.lock lk = some c := by
      rw [h.lock_iff hc, hk]
      simp [Pc.holds]
    cases w with
    | before =>
      exact h.advance hc hk (fun _ => h.keep hc hk (by simp [Pc.holds])) (fun _ _ => rfl) trivial nofun (.inr hlk)
        (fun _ => .inr rfl) (.inl nofun)
    | after =>
      exact h.advance hc hk (fun _ => h.keep hc hk rfl) (fun _ _ => rfl) trivial nofun (.inr hlk)
        (fun _ => .inr rfl) (.inl nofun)
    | inside =>
      have hpt : lk = .ptable := hf rfl
      exact h.advance hc hk (fun _ => h.keep hc hk (by simp [Pc.holds, hpt])) (fun _ _ => rfl) hpt nofun (.inr hlk)
        (fun _ => .inr rfl) (.inl nofun)
  | first =>
    exact h.releases hc hk hs (by simp [Pc.holds]) rfl (fun x hx => by simp [Pc.holds, hx]) trivial nofun fun _ => rfl
  | wakeup =>
    refine h.acquires hc hk hs (by simp [Pc.holds]) (fun x hx => by simp [Pc.holds, hx]) (fun hy hr => ?_)
      nofun fun _ => rfl
    -- a CPU that holds `ptable.lock` cannot take it
    cases lk with
    | other => rfl
    | ptable =>
      have h1 : s.lock .ptable = some c := by
        rw [h.lock_iff hc, hk, hr]
        rfl
      rw [hy] at h1
      cases h1
  | scan =>
    cases hs
    exact h.scan hc hk (by simp [Pc.holds]) rfl (fun _ => rfl) hf rfl rfl
  | woke r =>
    cases r with
    | true =>
      have hlk : lk = .other := hf rfl
      exact h.releases hc hk hs (by simp [Pc.holds]) (by simp [Pc.holds, hlk])
        (fun x hx => by simp [Pc.holds, hx]) trivial nofun nofun
    | false =>
      exact h.releases hc hk hs (by simp [Pc.holds]) rfl (fun x hx => by simp [Pc.holds, hx]) trivial nofun nofun
  | wakeup1 =>
    have hlk : lk = .ptable := hf
    cases hs
    exact h.scan hc hk (by simp [Pc.holds]) rfl (fun x => by simp [Pc.holds, hlk]) trivial rfl rfl
  | kill =>
    exact h.acquires hc hk hs (by simp [Pc.holds]) (fun x hx => by simp [Pc.holds, hx]) (fun _ => trivial) nofun
      nofun
  | rouse q =>
    cases hs
    have h1 : Ok lk { s with
        state := if s.state q = .SLEEPING then update s.state q .RUNNABLE else s.state } := by
      apply h.wakes
      intro r
      split
      · next hq =>
        by_cases hr : r = q
        · rw [hr, update_self]
          exact .inr ⟨hq, rfl⟩
        · rw [update_of_ne hr]
          exact .inl rfl
      · exact .inl rfl
    exact h1.moves hc hk (fun _ => rfl) trivial nofun nofun
  | killed =>
    exact h.releases hc hk hs (by simp [Pc.holds]) rfl (fun x hx => by simp [Pc.holds, hx]) trivial nofun nofun
  | preempt =>
    exact h.acquires hc hk hs (by simp [Pc.holds]) (fun x hx => by simp [Pc.holds, hx]) (fun _ => hf) nofun id
  | yield k =>
    obtain rfl := sched_ok hs
    exact h.switch hc hk (fun _ => rfl) (fun _ _ => rfl) (.inr ⟨k, rfl⟩) nofun hf id
  | resume =>
    obtain ⟨hnone, hf⟩ := hf
    refine h.releases hc hk hs (by simp [Pc.holds]) (hnone _) (fun x hx => ?_) hf (fun hx => ?_) id
    · rw [hnone x]
      simp [Pc.holds, hx]
    · -- where no lock is held, nobody is about to sleep
      exfalso
      rcases hx with hx | hx
      · exact absurd (tested_holds hx) (by rw [hnone lk]; exact nofun)
      · exact absurd (dozes_holds hx) (by rw [hnone .ptable]; exact nofun)

theorem step (h : Ok lk s) (hs : step lk s a = .ok s') : Ok lk s' := by
  -- a process without locks that begins something
  have begins : ∀ {c k}, call s c k = .ok s' → (∀ x, k.holds lk x = false) → k.Fits lk →
      k.tested = false → k.dozes = false → Ok lk s' := by
    intro c k hs hk hf ht hd
    obtain ⟨p, hc, hp, rfl⟩ := call_ok hs
    exact h.moves hc hp hk hf (by rw [ht, hd]; exact nofun) nofun
  cases a with
  | step c =>
    simp only [Sleep.step] at hs
    split at hs
    · next p hc => exact h.turn hc hs
    · next hc =>
      obtain ⟨t, h1, rfl⟩ := map_ok hs
      obtain ⟨hy, rfl⟩ := acquire_ok h1
      apply h.scheds hc
      intro x
      cases x with
      | ptable =>
        have hk : held lk .ptable (.inl true : Bool ⊕ Pc ι cond) = true := rfl
        exact (h.locked .ptable).take hy hk
      | other =>
        apply (h.locked .other).move
        unfold State.view
        rw [hc]
        rfl
    · next hc =>
      obtain ⟨t, h1, rfl⟩ := map_ok hs
      obtain rfl := release_ok h1
      apply h.scheds hc
      have hview : s.view c = .inl true := by
        unfold State.view
        rw [hc]
      intro x
      cases x with
      | ptable =>
        have hk : held lk .ptable (.inl false : Bool ⊕ Pc ι cond) = false := rfl
        exact (h.locked .ptable).give (by rw [hview]; rfl) hk
      | other =>
        apply (h.locked .other).move
        rw [hview]
        rfl
  | run =>
    simp only [Sleep.step] at hs
    split at hs
    · next hg =>
      cases hs
      exact h.run hg.1 hg.2
    · cases hs
  | consume | kill => exact begins hs (fun _ => rfl) trivial rfl rfl
  | produce =>
    simp only [Sleep.step] at hs
    split at hs
    · cases hs
    · next hw =>
      refine begins hs (fun _ => rfl) (fun hx => ?_) rfl rfl
      cases lk with
      | ptable => rfl
      | other => exact absurd ⟨hx, rfl⟩ hw
  | timer =>
    simp only [Sleep.step] at hs
    split at hs
    · next p hc =>
      split at hs
      · cases hs
      · next hno =>
        cases hs
        have hnone : ∀ x, (s.pc p).holds lk x = false := by
          intro x
          rw [← Bool.not_eq_true, ← h.lock_iff hc]
          cases x with
          | ptable => exact fun hx => hno (.inl hx)
          | other => exact fun hx => hno (.inr hx)
        exact h.moves hc rfl (fun x => (hnone x).symm) ⟨hnone, h.fits p⟩ nofun id
    · cases hs

lemma boot (v : σ) : Ok lk (State.boot v : State ι κ cond) := by
  refine ⟨fun x c => ?_, nofun, nofun, fun _ _ => .inr ⟨_, rfl⟩, nofun, fun _ => ⟨fun _ => rfl, trivial⟩,
    nofun, ?_⟩
  · exact ⟨nofun, nofun⟩
  · rintro p (hp | hp) <;> cases hp

end Ok

/-- No wakeup is lost: in every run, a process SLEEPING on the channel while the condition is true is going
to be woken by a producer; and who returns from `sleep` holds the lock. -/
theorem sleep_loses_no_wakeup {v : σ} {tr : List (State ι κ cond × Label ι κ cond)}
    (h : Path (step lk) (State.boot v) tr s) :
    (∀ p, s.state p = .SLEEPING → s.chan p = true → cond s.val = true → ∃ q, (s.pc q).pending = true) ∧
      ∀ p f, s.pc p = .slept f → ∃ c, s.cpu c = .proc p ∧ s.lock lk = some c := by
  have hok : Ok lk s := h.invariant (Ok lk) (fun _ _ => True) (fun _ _ _ hi _ => hi.step) (fun _ _ => trivial)
    (Ok.boot v)
  refine ⟨fun p hp _ => hok.owed p (.inr hp), fun p f hp => ?_⟩
  obtain ⟨c, hc⟩ := hok.on (p := p) (by rw [hp]; exact nofun) (by rw [hp]; exact nofun)
  refine ⟨c, hc, ?_⟩
  rw [hok.lock_iff hc, hp]
  simp [Pc.holds]

/-- A sleep-lock: one process holds it and another one sleeps for it; the first one has released it, and
still has to call `wakeup`. -/
theorem sleep_loses_no_wakeup_lock : ∃ tr s,
    Path (step .other) (State.boot ⟨false, 0⟩ : State Bool Bool Sleeplock.free) tr s ∧
      s.state true = .SLEEPING ∧ s.val.free = true ∧ ∃ q, (s.pc q).pending = true := by
  obtain ⟨tr, s, h, hs, hc, hv⟩ : ∃ tr s,
      Path (step .other) (State.boot ⟨false, 0⟩ : State Bool Bool Sleeplock.free) tr s ∧
      s.state true = .SLEEPING ∧ s.chan true = true ∧ s.val.free = true := Path.of_labels
    ([.step false, .run false false, .step false, acquiresleep false 1, .step false, .step false, .step false,
      .step true, .run true true, .step true, acquiresleep true 2] ++ List.replicate 6 (.step true) ++
      [releasesleep false, .step false, .step false]) (by decide +kernel)
  exact ⟨tr, s, h, hs, hv, (sleep_loses_no_wakeup h).1 true hs hc hv⟩

end Xv6.Sleep
