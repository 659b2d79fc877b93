import Mathlib.Data.List.Nodup
import Mathlib.Logic.Function.Basic

/-!
# A singly linked list whose links are in its elements

`Chain next q L`: from the pointer `q`, along `next`, the elements are those of `L`, in this order.
A pointer to a pointer is `none` (the head) or `some c` (the link of `c`).

    Chain.walk  : what such a pointer points to is an element again;
    Chain.push  : a new element is linked where a pointer to a pointer finds the end;
    Chain.pop   : the head is moved on.
-/

namespace Xv6.Lib
open Function List

variable {β : Type} {next next' : β → Option β} {q : Option β} {L : List β} {b c d : β}

def Chain (next : β → Option β) : Option β → List β → Prop
  | q, [] => q = none
  | q, b :: L => q = some b ∧ Chain next (next b) L

namespace Chain

lemma nil_iff (h : Chain next q L) : q = none ↔ L = [] := by
  cases L with
  | nil => exact ⟨fun _ => rfl, fun _ => h⟩
  | cons =>
    constructor
    · intro hq
      rw [h.1] at hq
      cases hq
    · intro hL
      cases hL

lemma head (h : Chain next q L) : q = L.head? := by
  cases L with
  | nil => exact h
  | cons => exact h.1

lemma pop (h : Chain next (some b) L) : ∃ L', L = b :: L' ∧ Chain next (next b) L' := by
  cases L with
  | nil => cases h
  | cons c L =>
    obtain ⟨h1, h2⟩ := h
    cases h1
    exact ⟨L, rfl, h2⟩

lemma congr (h : Chain next q L) (hn : ∀ b ∈ L, next' b = next b) : Chain next' q L := by
  induction L generalizing q with
  | nil => exact h
  | cons b L ih =>
    refine ⟨h.1, ?_⟩
    rw [hn b mem_cons_self]
    exact ih h.2 fun c hc => hn c (mem_cons_of_mem _ hc)

lemma mem (h : Chain next q L) (hc : c ∈ L) (hd : next c = some d) : d ∈ L := by
  induction L generalizing q with
  | nil => cases hc
  | cons b L ih =>
    rcases mem_cons.mp hc with rfl | hc
    · cases L with
      | nil =>
        have h1 := h.2
        rw [hd] at h1
        cases h1
      | cons =>
        have h1 := h.2.1
        rw [hd] at h1
        cases h1
        exact mem_cons_of_mem _ mem_cons_self
    · exact mem_cons_of_mem _ (ih h.2 hc)

variable [DecidableEq β]

lemma push (h : Chain next q L) (hL : L.Nodup) (hc : c ∈ L) (hn : next c = none) (hb : b ∉ L)
    (hbn : next b = none) : Chain (update next c (some b)) q (L ++ [b]) := by
  induction L generalizing q with
  | nil => cases hc
  | cons e L ih =>
    obtain ⟨heL, hL⟩ := nodup_cons.mp hL
    have hbL : b ∉ L := fun hx => hb (mem_cons_of_mem _ hx)
    refine ⟨h.1, ?_⟩
    rcases mem_cons.mp hc with rfl | hc
    · -- the last element is the first one
      have hnil : L = [] := h.2.nil_iff.mp hn
      rw [hnil, update_self]
      have hbc : b ≠ c := fun hx => hb (hx ▸ mem_cons_self)
      refine ⟨rfl, ?_⟩
      show update next c (some b) b = none
      rw [update_of_ne hbc]
      exact hbn
    · have hec : e ≠ c := fun hx => heL (hx ▸ hc)
      rw [update_of_ne hec]
      exact ih h.2 hL hc hbL

end Chain

end Xv6.Lib
