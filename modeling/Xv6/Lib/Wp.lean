import Mathlib.Logic.Basic

/-!
# Programs with a state and errors: preconditions

A program is a term of `StateT σ (Except ε) α`. `wp E m Q s` says: run from `s`, the program `m`
ends with a result and a state in `Q`, or with an error in `E`.

    wp_seq     m, then f:   wp m Q s → (∀ a s', Q a s' → wp (f a) R s') → wp (m >>= f) R s;
    wp_mono    a weaker postcondition;
    wp_zoom    a program on a part of the state.

A proof about a program follows its text: one `wp_seq` for each statement, with the lemma about it.
-/

namespace Xv6.Lib

variable {σ ε α β : Type}

def wp (E : ε → Prop) (m : StateT σ (Except ε) α) (Q : α → σ → Prop) (s : σ) : Prop :=
  match m s with
  | .ok (a, s') => Q a s'
  | .error e => E e

section
variable {E : ε → Prop} {Q : α → σ → Prop} {R : β → σ → Prop} {s : σ}
variable {m : StateT σ (Except ε) α} {a : α} {s' : σ} {e : ε}

lemma wp_of_ok (h : m s = .ok (a, s')) (hq : Q a s') : wp E m Q s := by
  unfold wp
  rw [h]
  exact hq

lemma wp_of_error (h : m s = .error e) (he : E e) : wp E m Q s := by
  unfold wp
  rw [h]
  exact he

lemma wp.elim (h : wp E m Q s) : (∀ a s', m s = .ok (a, s') → Q a s') ∧ ∀ e, m s = .error e → E e := by
  unfold wp at h
  constructor
  · intro a s' hm
    rw [hm] at h
    exact h
  · intro e hm
    rw [hm] at h
    exact h

lemma wp_mono {Q' : α → σ → Prop} (h : wp E m Q s) (hq : ∀ a s', Q a s' → Q' a s') : wp E m Q' s := by
  cases hm : m s with
  | ok => exact wp_of_ok hm (hq _ _ (h.elim.1 _ _ hm))
  | error => exact wp_of_error hm (h.elim.2 _ hm)

lemma wp.result (h : wp E m Q s) : wp E m (fun a s' => m s = .ok (a, s') ∧ Q a s') s := by
  cases hm : m s with
  | ok => exact wp_of_ok hm ⟨rfl, h.elim.1 _ _ hm⟩
  | error => exact wp_of_error hm (h.elim.2 _ hm)

lemma wp_pure (h : Q a s) : wp E (pure a) Q s := h

lemma wp_throw (h : E e) : wp E (throw e : StateT σ (Except ε) α) Q s := h

lemma wp_set {Q : PUnit → σ → Prop} (h : Q ⟨⟩ s') : wp E (set s' : StateT σ (Except ε) PUnit) Q s := h

lemma wp_modify {Q : PUnit → σ → Prop} {f : σ → σ} (h : Q ⟨⟩ (f s)) :
    wp E (modify f : StateT σ (Except ε) PUnit) Q s := h

/-- **One statement after the other.** -/
theorem wp_seq {f : α → StateT σ (Except ε) β} (h : wp E m Q s)
    (hf : ∀ a s', Q a s' → wp E (f a) R s') : wp E (m >>= f) R s := by
  cases hm : m s with
  | ok r =>
    have e : (m >>= f) s = f r.1 r.2 := by
      show (m s >>= fun x => f x.1 x.2) = _
      rw [hm]
      rfl
    unfold wp
    rw [e]
    exact hf r.1 r.2 (h.elim.1 _ _ hm)
  | error e =>
    refine wp_of_error (e := e) ?_ (h.elim.2 _ hm)
    show (m s >>= fun x => f x.1 x.2) = _
    rw [hm]
    rfl

lemma wp_get_seq {f : σ → StateT σ (Except ε) β} (h : wp E (f s) R s) : wp E (get >>= f) R s := h

lemma wp_modify_seq {g : σ → σ} {f : PUnit → StateT σ (Except ε) β} (h : wp E (f ⟨⟩) R (g s)) :
    wp E (modify g >>= f) R s := h

end

/-! ## a part of the state -/

section
variable {τ : Type} (part : τ → σ) (put : τ → σ → τ)

/-- runs `m` on a part of the state. -/
def zoom (m : StateT σ (Except ε) α) : StateT τ (Except ε) α := fun t =>
  match m (part t) with
  | .ok (a, s) => .ok (a, put t s)
  | .error e => .error e

lemma wp_zoom {E : ε → Prop} {m : StateT σ (Except ε) α} {Q : α → σ → Prop} {t : τ} (h : wp E m Q (part t)) :
    wp E (zoom part put m) (fun a t' => ∃ s, t' = put t s ∧ Q a s) t := by
  cases hm : m (part t) with
  | ok r =>
    have e : zoom part put m t = .ok (r.1, put t r.2) := by
      unfold zoom
      rw [hm]
    exact wp_of_ok e ⟨r.2, rfl, h.elim.1 _ _ hm⟩
  | error e =>
    have he : zoom part put m t = .error e := by
      unfold zoom
      rw [hm]
    exact wp_of_error he (h.elim.2 e hm)

end

end Xv6.Lib
