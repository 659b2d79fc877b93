import Mathlib.Data.List.Basic

/-!
# Runs of a machine whose steps can stop

A machine is a function `step : σ → α → Except ε σ`: from the state `s` the label `a` leads to
a next state, or the machine stops with an error. `Path step s tr t` is a finite run from `s`
to `t`; its trace `tr` lists every step taken, each with the state BEFORE it:

* `Path.append`, `Path.split`   runs are put together and cut at any step;
* `Path.invariant`              **the invariant rule**: what the first state has and every step
                                that meets a condition `C` keeps, the last state has;
                                `Path.always`: so has every state before a step;
* `Path.next`, `Path.start`     the states of a run that are states before a step;
* `Path.between`                the part between two steps;
* `Path.served_between`         **the rule of turns**: who is served between two steps;
* `Path.descent`                **the rule of descent**: a step taken again and again ends;
* `runs`, `runsTo`              a list of labels is executed and the end is tested;
                                `Path.of_runsTo`, `Path.of_labels` make it a `Path`; `stepTo`
                                does so for one step, and `stopsWith` tests that it fails;
                                `runsBetween` tests the part between two steps.
-/

namespace Xv6.Lib
open List

variable {σ α ε : Type} {tr : List (σ × α)} {s t : σ} {e : σ × α}

/-- a run from `s` to `t`: the trace holds each step as (state before it, label). -/
inductive Path (step : σ → α → Except ε σ) : σ → List (σ × α) → σ → Prop
  | nil (s : σ) : Path step s [] s
  | cons {s s' t : σ} {a : α} {tr : List (σ × α)} :
      step s a = .ok s' → Path step s' tr t → Path step s ((s, a) :: tr) t

namespace Path
variable {step : σ → α → Except ε σ}
variable {s u t : σ} {tr pre mid post : List (σ × α)} {e0 e1 : σ × α}

lemma append {s t u : σ} {tr tr' : List (σ × α)} (h : Path step s tr t)
    (h' : Path step t tr' u) : Path step s (tr ++ tr') u := by
  induction h with
  | nil => exact h'
  | cons hs _ ih => exact .cons hs (ih h')

lemma split {tr' : List (σ × α)} (h : Path step s (tr ++ tr') u) : ∃ t, Path step s tr t ∧ Path step t tr' u := by
  induction tr generalizing s with
  | nil => exact ⟨s, .nil s, h⟩
  | cons e tr ih =>
    cases h with
    | cons hs h =>
      obtain ⟨t, h1, h2⟩ := ih h
      exact ⟨t, .cons hs h1, h2⟩

lemma head (h : Path step s (e :: tr) t) : e.1 = s ∧ ∃ s', step s e.2 = .ok s' ∧ Path step s' tr t := by
  cases h with
  | cons hs h => exact ⟨rfl, _, hs, h⟩

section
variable (I : σ → Prop) (C : σ → α → Prop) (hI : ∀ s a s', I s → C s a → step s a = .ok s' → I s')
  (h : Path step s tr t)
include hI h

/-- **The invariant rule**, for runs whose steps all meet the condition `C`. -/
theorem invariant (hC : ∀ e ∈ tr, C e.1 e.2) (h0 : I s) : I t := by
  induction h with
  | nil => exact h0
  | cons hs _ ih =>
    have hc := hC _ (mem_cons_self ..)
    exact ih (fun e he => hC e (mem_cons_of_mem _ he)) (hI _ _ _ h0 hc hs)

lemma always (hC : ∀ e ∈ tr, C e.1 e.2) (h0 : I s) : ∀ e ∈ tr, I e.1 := by
  induction h with
  | nil => exact nofun
  | cons hs _ ih =>
    intro e he
    rcases mem_cons.mp he with rfl | he
    · exact h0
    · have hc := hC _ (mem_cons_self ..)
      exact ih (fun e he => hC e (mem_cons_of_mem _ he)) (hI _ _ _ h0 hc hs) e he

end

/-- the state after a step of the run is the state before another one, or the last. -/
theorem next (h : Path step s tr t) (he : e ∈ tr) :
    ∃ s', step e.1 e.2 = .ok s' ∧ (s' = t ∨ ∃ e' ∈ tr, e'.1 = s') := by
  obtain ⟨l, r, rfl⟩ := append_of_mem he
  obtain ⟨m, -, h2⟩ := h.split
  obtain ⟨rfl, s', hs, h3⟩ := h2.head
  refine ⟨s', hs, ?_⟩
  cases r with
  | nil => cases h3; exact .inl rfl
  | cons e' =>
    obtain ⟨rfl, -⟩ := h3.head
    exact .inr ⟨e', mem_append_right _ (mem_cons_of_mem _ (mem_cons_self ..)), rfl⟩

lemma start {P : σ → Prop} (h : Path step s tr t) (hP : ∀ e ∈ tr, P e.1) (ht : P t) : P s := by
  cases h with
  | nil => exact ht
  | cons => exact hP _ (mem_cons_self ..)

lemma between (h : Path step s (pre ++ e0 :: mid ++ e1 :: post) u) :
    Path step s pre e0.1 ∧ ∃ t, step e0.1 e0.2 = .ok t ∧ Path step t mid e1.1 ∧ ∃ t', step e1.1 e1.2 = .ok t' := by
  obtain ⟨v, h1, h2⟩ := h.split
  obtain ⟨rfl, t', ht', -⟩ := h2.head
  obtain ⟨w, h3, h4⟩ := h1.split
  obtain ⟨rfl, t, ht, h5⟩ := h4.head
  exact ⟨h3, t, ht, h5, t', ht'⟩

/-- **The rule of turns.** `f` names whom a step serves. If the step `e0` leads to `I`, every step
that does not serve `t` keeps `I`, and `I` does not hold before `e1`, then `t` is served between
`e0` and `e1`. -/
theorem served_between {β : Type} {f : σ → α → Option β} {t : β} (I : σ → Prop) (C : σ → α → Prop)
    (h : Path step s (pre ++ e0 :: mid ++ e1 :: post) u)
    (h0 : Path step s pre e0.1 → ∀ v, step e0.1 e0.2 = .ok v → I v)
    (hI : ∀ s a s', I s → C s a → f s a ≠ some t → step s a = .ok s' → I s')
    (hC : ∀ e ∈ mid, C e.1 e.2) (h1 : ¬ I e1.1) : ∃ e ∈ mid, f e.1 e.2 = some t := by
  by_contra hnone
  obtain ⟨hpre, v, hv, hmid, -⟩ := h.between
  apply h1
  refine hmid.invariant I (fun s a => C s a ∧ f s a ≠ some t) ?_ ?_ (h0 hpre v hv)
  · intro s a s' hi hc hst
    exact hI s a s' hi hc.1 hc.2 hst
  · intro e he
    exact ⟨hC e he, fun hf => hnone ⟨e, he, hf⟩⟩

/-- **The rule of descent.** If the step `a` can be taken wherever `I` holds and `Q` does not, keeps
`I` and lowers `m`, then taking it again and again ends in `Q`. -/
theorem descent (a : α) (I Q : σ → Prop) (m : σ → Nat)
    (hI : ∀ s, I s → ¬ Q s → ∃ s', step s a = .ok s' ∧ I s' ∧ m s' < m s) (h0 : I s) :
    ∃ tr t, Path step s tr t ∧ (∀ e ∈ tr, e.2 = a) ∧ I t ∧ Q t := by
  generalize hk : m s = k
  induction k using Nat.strongRecOn generalizing s with
  | ind k ih =>
    by_cases hq : Q s
    · exact ⟨[], s, .nil s, nofun, h0, hq⟩
    · obtain ⟨s', hs, hi, hm⟩ := hI s h0 hq
      obtain ⟨tr, t, hp, ha, ht⟩ := ih (m s') (by omega) hi rfl
      refine ⟨(s, a) :: tr, t, .cons hs hp, fun e he => ?_, ht⟩
      rcases mem_cons.mp he with rfl | he
      · rfl
      · exact ha e he

end Path

variable {step : σ → α → Except ε σ} {s : σ} {l : List α} {a : α} {i : Nat}

/-- executes a list of labels, and keeps the trace. -/
def runs (step : σ → α → Except ε σ) : σ → List α → Except ε (List (σ × α) × σ)
  | s, [] => .ok ([], s)
  | s, a :: l =>
    match step s a with
    | .ok s' =>
      match runs step s' l with
      | .ok (tr, t) => .ok ((s, a) :: tr, t)
      | .error e => .error e
    | .error e => .error e

/-- the labels can be executed, and the trace and the last state pass the test `P`. -/
def runsTo (step : σ → α → Except ε σ) (s : σ) (l : List α) (P : List (σ × α) → σ → Bool) : Bool :=
  match runs step s l with
  | .ok (tr, t) => P tr t
  | .error _ => false

lemma Path.of_runs {t : σ} (h : runs step s l = .ok (tr, t)) : Path step s tr t := by
  induction l generalizing s tr with
  | nil => cases h; exact .nil _
  | cons a l ih =>
    unfold runs at h
    split at h
    · next s' hs =>
      split at h
      · next tr' t' hr => cases h; exact .cons hs (ih hr)
      · cases h
    · cases h

lemma Path.of_runsTo {P : List (σ × α) → σ → Bool} (h : runsTo step s l P = true) :
    ∃ tr t, Path step s tr t ∧ P tr t = true := by
  unfold runsTo at h
  split at h
  · next tr t hr => exact ⟨tr, t, .of_runs hr, h⟩
  · cases h

/-- **A run by execution.** The labels are executed, and what holds at the end is decided. -/
theorem Path.of_labels {P : List (σ × α) → σ → Prop} [∀ tr t, Decidable (P tr t)] (l : List α)
    (h : runsTo step s l (fun tr t => P tr t) = true) : ∃ tr t, Path step s tr t ∧ P tr t := by
  obtain ⟨tr, t, hp, ht⟩ := Path.of_runsTo h
  exact ⟨tr, t, hp, of_decide_eq_true ht⟩

/-- the step can be taken, and the state after it passes the test `P`. -/
def stepTo (step : σ → α → Except ε σ) (s : σ) (a : α) (P : σ → Bool) : Bool :=
  match step s a with
  | .ok t => P t
  | .error _ => false

lemma of_stepTo {P : σ → Bool} (h : stepTo step s a P = true) : ∃ t, step s a = .ok t ∧ P t = true := by
  unfold stepTo at h
  split at h
  · next t ht => exact ⟨t, ht, h⟩
  · cases h

/-- the step cannot be taken, because of `e`. -/
def stopsWith [DecidableEq ε] (step : σ → α → Except ε σ) (s : σ) (a : α) (e : ε) : Bool :=
  match step s a with
  | .ok _ => false
  | .error e' => e' = e

lemma of_stopsWith [DecidableEq ε] {e : ε} (h : stopsWith step s a e = true) : step s a = .error e := by
  unfold stopsWith at h
  split at h
  · cases h
  · next e' he => rw [he, of_decide_eq_true h]

/-- a list cut at its `i`-th element. -/
def cutAt {β : Type} : Nat → List β → Option (List β × β × List β)
  | _, [] => none
  | 0, e :: l => some ([], e, l)
  | i + 1, e :: l =>
    match cutAt i l with
    | some (pre, x, post) => some (e :: pre, x, post)
    | none => none

lemma cutAt_eq {β : Type} {l pre post : List β} {e : β}
    (h : cutAt i l = some (pre, e, post)) : l = pre ++ e :: post := by
  induction l generalizing i pre with
  | nil => cases i <;> cases h
  | cons a l ih =>
    cases i with
    | zero => cases h; rfl
    | succ =>
      unfold cutAt at h
      split at h
      · next hc => cases h; rw [cons_append, ← ih hc]
      · cases h

/-- executes the labels and tests the steps `i` and `i + 1 + j` and the steps between them. -/
def runsBetween (step : σ → α → Except ε σ) (s : σ) (l : List α) (i j : Nat)
    (P : σ × α → List (σ × α) → σ × α → Bool) : Bool :=
  runsTo step s l fun tr _ =>
    match cutAt i tr with
    | some (_, e0, rest) =>
      match cutAt j rest with
      | some (mid, e1, _) => P e0 mid e1
      | none => false
    | none => false

lemma Path.of_runsBetween {j : Nat} {P : σ × α → List (σ × α) → σ × α → Prop}
    [∀ e0 mid e1, Decidable (P e0 mid e1)]
    (h : runsBetween step s l i j (fun e0 mid e1 => P e0 mid e1) = true) :
    ∃ t pre mid post e0 e1, Path step s (pre ++ e0 :: mid ++ e1 :: post) t ∧ P e0 mid e1 := by
  obtain ⟨tr, t, hp, hP⟩ := Path.of_runsTo h
  split at hP
  · next pre e0 rest hc =>
    split at hP
    · next mid e1 post hc' =>
      refine ⟨t, pre, mid, post, e0, e1, ?_, of_decide_eq_true hP⟩
      rw [append_assoc, cons_append, ← cutAt_eq hc', ← cutAt_eq hc]
      exact hp
    · cases hP
  · cases hP

end Xv6.Lib
