import Mathlib.Algebra.BigOperators.Group.Finset.Piecewise
import Mathlib.Algebra.BigOperators.Ring.Finset
import Mathlib.Algebra.Order.BigOperators.Group.Finset

/-!
# A weight added up over finitely many parties

`total w f` is the sum of `w (f i)` over all parties `i`. When one party moves, only its own weight
changes (`total_update`).
-/

namespace Xv6.Lib
open Function

variable {ι α : Type} [Fintype ι] [DecidableEq ι]

def total (w : α → Int) (f : ι → α) : Int := ∑ i, w (f i)

lemma total_update (w : α → Int) (f : ι → α) (i : ι) (x : α) :
    total w (update f i x) = total w f - w (f i) + w x := by
  unfold total
  have hx : ∀ j, w (update f i x j) = update (fun j => w (f j)) i (w x) j := by
    intro j
    rw [update_apply, update_apply]
    split <;> rfl
  rw [Finset.sum_congr rfl fun j _ => hx j, Finset.sum_update_of_mem (Finset.mem_univ i),
    ← Finset.add_sum_erase _ (fun j => w (f j)) (Finset.mem_univ i),
    Finset.sdiff_singleton_eq_erase]
  omega

omit [DecidableEq ι] in
lemma total_congr {w : α → Int} {f g : ι → α} (h : ∀ i, w (g i) = w (f i)) :
    total w g = total w f := Finset.sum_congr rfl fun i _ => h i

omit [DecidableEq ι] in
lemma total_eq_zero {w : α → Int} (hw : ∀ x, 0 ≤ w x) {f : ι → α} : total w f = 0 ↔ ∀ i, w (f i) = 0 := by
  unfold total
  rw [Finset.sum_eq_zero_iff_of_nonneg fun i _ => hw (f i)]
  exact ⟨fun h i => h i (Finset.mem_univ i), fun h i _ => h i⟩

omit [DecidableEq ι] in
lemma total_le_mul {w v : α → Int} {c : Int} (h : ∀ x, w x ≤ v x * c) (f : ι → α) : total w f ≤ total v f * c := by
  unfold total
  rw [Finset.sum_mul]
  exact Finset.sum_le_sum fun i _ => h (f i)

end Xv6.Lib
