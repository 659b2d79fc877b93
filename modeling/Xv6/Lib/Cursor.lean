import Mathlib.Order.Defs.LinearOrder

/-!
# A cursor that cycles over a table of `N` places

The owner of the cursor is idle, or looks at the place `i` (`scan i`), or serves the place it has
chosen (`busy i`) and goes on with the next one. Passing the end makes it idle, and it starts
again at 0. At the place `i` it may serve `i` itself, or JUMP to a place `y`.

Let `x` and `t` be two places, and let `x` be served. As long as `t` is neither skipped nor
served, and no jump starts between `x` and `t` or ends above one of them (`Jump`), the cursor stays
`Ahead`: it has not come back to `x`. So **`x` is not served twice before `t`** (`Ahead.not_run`).
-/

namespace Xv6.Lib.Cursor

inductive Phase where
  | idle
  | scan (i : Nat)
  | busy (i : Nat)

/-- the cursor at `i` serves `y`: this place, or one below both `x` and `t` when `i` is not between
them. -/
def Jump (x t i y : Nat) : Prop :=
  y = i ∨ ((i < x ∧ i < t) ∨ (x < i ∧ t < i)) ∧ y ≤ x ∧ y ≤ t

/-- the moves that neither skip nor serve `t`. -/
inductive Move (N x t : Nat) : Phase → Phase → Prop
  | stay {ph : Phase} : Move N x t ph ph
  | start : Move N x t .idle (.scan 0)
  | skip {i : Nat} (h : i ≠ t) : Move N x t (.scan i) (.scan (i + 1))
  | stop {i : Nat} (h : N ≤ i) : Move N x t (.scan i) .idle
  | run {i y : Nat} (h : Jump x t i y) (hy : y ≠ t) : Move N x t (.scan i) (.busy y)
  | back {i : Nat} : Move N x t (.busy i) (.scan (i + 1))

/-- the cursor will reach `t` before it is at `x` again. -/
def Ahead (x t : Nat) : Phase → Prop
  | .idle => t < x
  | .scan i => (x < t → x < i ∧ i ≤ t) ∧ (t < x → x < i ∨ i ≤ t)
  | .busy i => (x < t → x ≤ i ∧ i < t) ∧ (t < x → x ≤ i ∨ i < t)

variable {N x t : Nat} {ph ph' : Phase}

lemma ahead_busy : Ahead x t (.busy x) :=
  ⟨fun h => ⟨Nat.le_refl x, h⟩, fun _ => .inl (Nat.le_refl x)⟩

/-- **Every move keeps the cursor ahead.** -/
theorem Ahead.move (h : Ahead x t ph) (hm : Move N x t ph ph') (ht : t < N) (hne : x ≠ t) : Ahead x t ph' := by
  cases hm with
  | stay => exact h
  | start => exact ⟨fun e => absurd h (by show ¬ t < x; omega), fun _ => .inr (Nat.zero_le t)⟩
  | skip | back =>
    obtain ⟨h1, h2⟩ := h
    refine ⟨fun e => ?_, fun e => ?_⟩
    · have := h1 e; omega
    · have := h2 e; omega
  | stop =>
    obtain ⟨h1, -⟩ := h
    show t < x
    by_contra hx
    have := h1 (by omega)
    omega
  | @run i y hj =>
    obtain ⟨h1, h2⟩ := h
    refine ⟨fun e => ?_, fun e => ?_⟩
    · have hi := h1 e
      rcases hj with rfl | ⟨hb, -⟩ <;> omega
    · have hi := h2 e
      rcases hj with rfl | ⟨-, hb⟩ <;> omega

/-- **A cursor that is ahead does not serve `x`.** -/
theorem Ahead.not_run {i : Nat} (h : Ahead x t (.scan i)) (hne : x ≠ t) : ¬ Jump x t i x := by
  obtain ⟨h1, h2⟩ := h
  rcases Nat.lt_or_gt_of_ne hne with e | e
  · have hi := h1 e
    rintro (rfl | ⟨hb, -⟩) <;> omega
  · have hi := h2 e
    rintro (rfl | ⟨-, hb⟩) <;> omega

end Xv6.Lib.Cursor
