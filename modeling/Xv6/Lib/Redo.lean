import Mathlib.Data.List.Nodup
import Mathlib.Logic.Function.Basic

/-!
# A redo log

`keys` names the cells of a store that a transaction writes, `log i` holds the new value of the
`i`-th of them, `home` is the store. `redo keys log home` is the store that the transaction is
meant to leave. What is redone stays the same while the transaction is installed, in whatever order
and however often (`redo_install`), and once everything is installed the store itself is what is
redone, so that the log may be erased (`redo_installed`).
-/

namespace Xv6.Lib
open Function

variable {α β : Type} [DecidableEq α]
variable {keys : List α} {log : Nat → β} {home : α → β}

/-- the store with the logged values in place of its own. -/
def redo (keys : List α) (log : Nat → β) (home : α → β) (a : α) : β :=
  if a ∈ keys then log (keys.idxOf a) else home a

@[simp] lemma redo_nil (log : Nat → β) (home : α → β) : redo [] log home = home := rfl

lemma redo_congr {log' : Nat → β} {home' : α → β} {a : α} (hl : ∀ i < keys.length, log i = log' i)
    (hh : a ∉ keys → home a = home' a) : redo keys log home a = redo keys log' home' a := by
  unfold redo
  split
  · next h => exact hl _ (List.idxOf_lt_length_iff.mpr h)
  · next h => exact hh h

lemma redo_install {x : α} (hx : x ∈ keys)
    (v : β) (a : α) : redo keys log (update home x v) a = redo keys log home a := by
  refine redo_congr (fun _ _ => rfl) fun ha => ?_
  rw [update_of_ne]
  rintro rfl
  exact ha hx

/-- the first `t` cells of the transaction hold their new values. -/
def Installed (keys : List α) (log : Nat → β) (home : α → β) (t : Nat) : Prop :=
  ∀ i (h : i < keys.length), i < t → home keys[i] = log i

lemma redo_installed (h : Installed keys log home keys.length) (a : α) : redo keys log home a = home a := by
  unfold redo
  split
  · next ha =>
    have hi := List.idxOf_lt_length_iff.mpr ha
    have := h _ hi hi
    rw [List.getElem_idxOf hi] at this
    exact this.symm
  · rfl

lemma Installed.next {keys : List α} {log : Nat → β} {home : α → β} {t : Nat}
    (hn : keys.Nodup) (h : Installed keys log home t) (ht : t < keys.length) :
    Installed keys log (update home keys[t] (log t)) (t + 1) := by
  intro i hi hit
  by_cases e : i = t
  · subst e
    rw [update_self]
  · have hne : keys[i] ≠ keys[t] := fun he => e ((hn.getElem_inj_iff).mp he)
    rw [update_of_ne hne]
    exact h i hi (by omega)

end Xv6.Lib
