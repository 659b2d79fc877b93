import Mathlib.Order.Lattice
import Mathlib.Logic.Basic

/-!
# Loops that select an entry of a list

    select_last : `m = x` for every `x` with `P x` leaves the last of them in `m`;
    select_best : `m = x` for every `x` with `P x` and a smaller key than `m` leaves one with the smallest key.
-/

namespace Xv6.Lib
open List

variable {α β : Type} (P : α → Prop) [DecidablePred P]

lemma select_last (l : List α) (a : α) :
    let m := l.foldl (fun m x => if P x then x else m) a
    (m = a ∧ ∀ x ∈ l, ¬ P x) ∨ ∃ l1 l2, l = l1 ++ m :: l2 ∧ P m ∧ ∀ x ∈ l2, ¬ P x := by
  induction l generalizing a with
  | nil => exact .inl ⟨rfl, nofun⟩
  | cons x l ih =>
    intro m
    have hm : m = l.foldl (fun m x => if P x then x else m) (if P x then x else a) := rfl
    rcases ih (if P x then x else a) with ⟨h1, h2⟩ | ⟨l1, l2, h1, h2, h3⟩
    · rw [← hm] at h1
      by_cases h : P x
      · rw [if_pos h] at h1
        exact .inr ⟨[], l, by rw [h1]; rfl, by rw [h1]; exact h, h2⟩
      · rw [if_neg h] at h1
        refine .inl ⟨h1, fun y hy => ?_⟩
        rcases mem_cons.mp hy with rfl | hy
        · exact h
        · exact h2 y hy
    · rw [← hm] at h1 h2
      exact .inr ⟨x :: l1, l2, by rw [h1]; rfl, h2, h3⟩

lemma select_best [LinearOrder β] (key : α → β) (l : List α) (a : α) :
    let m := l.foldl (fun m x => if P x ∧ key x < key m then x else m) a
    (m = a ∨ m ∈ l ∧ P m) ∧ key m ≤ key a ∧ ∀ x ∈ l, P x → key m ≤ key x := by
  induction l generalizing a with
  | nil => exact ⟨.inl rfl, le_refl _, nofun⟩
  | cons x l ih =>
    intro m
    have hm : m = l.foldl (fun m x => if P x ∧ key x < key m then x else m)
        (if P x ∧ key x < key a then x else a) := rfl
    by_cases h : P x ∧ key x < key a
    · rw [if_pos h] at hm
      obtain ⟨h1, h2, h3⟩ := ih x
      rw [← hm] at h1 h2 h3
      refine ⟨.inr ?_, le_trans h2 (le_of_lt h.2), fun y hy hP => ?_⟩
      · rcases h1 with h1 | ⟨h1, hP⟩
        · exact ⟨mem_cons.mpr (.inl h1), h1 ▸ h.1⟩
        · exact ⟨mem_cons_of_mem _ h1, hP⟩
      · rcases mem_cons.mp hy with rfl | hy
        · exact h2
        · exact h3 y hy hP
    · rw [if_neg h] at hm
      obtain ⟨h1, h2, h3⟩ := ih a
      rw [← hm] at h1 h2 h3
      refine ⟨h1.imp_right fun ⟨h1, hP⟩ => ⟨mem_cons_of_mem _ h1, hP⟩, h2, fun y hy hP => ?_⟩
      rcases mem_cons.mp hy with rfl | hy
      · exact le_trans h2 (not_lt.mp fun hlt => h ⟨hP, hlt⟩)
      · exact h3 y hy hP

end Xv6.Lib
