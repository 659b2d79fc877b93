import Mathlib.Logic.Function.Basic

/-!
# A lock and the code that holds it

The processes `ι` are at places `κ` of a program, and `g k` says whether the code at `k` holds the
lock. `Mutex l g pc`: the owner that the lock records is the process whose place holds it.

    Mutex.move : a process goes to a place that holds the lock exactly when the old one did;
    Mutex.take : it takes the free lock;
    Mutex.give : it gives the lock back.
-/

namespace Xv6.Lib
open Function

variable {ι κ : Type} {l : Option ι} {g : κ → Bool} {pc : ι → κ} {p q : ι} {k : κ}

def Mutex (l : Option ι) (g : κ → Bool) (pc : ι → κ) : Prop := ∀ q, l = some q ↔ g (pc q) = true

lemma Mutex.unique (h : Mutex l g pc) (hp : g (pc p) = true) (hq : g (pc q) = true) : p = q := by
  have h1 := (h p).mpr hp
  rw [(h q).mpr hq] at h1
  exact (Option.some.inj h1).symm

lemma Mutex.free (h : Mutex l g pc) (hl : l = none) (q : ι) : g (pc q) = false := by
  rw [← Bool.not_eq_true, ← h q, hl]
  exact nofun

lemma Mutex.congr (h : Mutex l g pc) {pc' : ι → κ} (hq : ∀ q, g (pc' q) = g (pc q)) : Mutex l g pc' := fun q => by
  rw [hq]
  exact h q

variable [DecidableEq ι]

lemma pc_update {P : ι → κ → Prop} (hp : P p k) (hq : ∀ q, q ≠ p → P q (pc q)) (q : ι) : P q (update pc p k q) :=
  (forall_update_iff pc P).mpr ⟨hp, hq⟩ q

lemma Mutex.move (h : Mutex l g pc) (hk : g k = g (pc p)) : Mutex l g (update pc p k) := by
  apply h.congr
  exact pc_update (P := fun q k => g k = g (pc q)) hk fun _ _ => rfl

lemma Mutex.take (h : Mutex l g pc) (hl : l = none) (hk : g k = true) : Mutex (some p) g (update pc p k) := by
  intro q
  by_cases hq : q = p
  · rw [hq, update_self]
    exact ⟨fun _ => hk, fun _ => rfl⟩
  · rw [update_of_ne hq, h.free hl q]
    exact ⟨fun he => absurd (Option.some.inj he).symm hq, fun he => absurd he Bool.false_ne_true⟩

lemma Mutex.give (h : Mutex l g pc) (hp : g (pc p) = true) (hk : g k = false) : Mutex none g (update pc p k) := by
  refine pc_update (P := fun q k => none = some q ↔ g k = true) ?_ fun q hq => ?_
  · rw [hk]
    exact ⟨nofun, nofun⟩
  · exact ⟨nofun, fun he => absurd (h.unique he hp) hq⟩

end Xv6.Lib
