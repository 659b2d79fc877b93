import Xv6.Lib.Path
import Mathlib.Data.List.DropRight

/-!
# What has happened so far in a run

`Path.history` is the invariant rule for statements about a state TOGETHER with the steps that led
to it: the trace grows at its end.

`since f l` is the part of the list `l` after the last element with `f`, and `upTo f l` is the
rest:

    since_concat    : since f (l ++ [e]) = if f e then [] else since f l ++ [e];
    upTo_append_since : upTo f l ++ since f l = l.
-/

namespace Xv6.Lib
open List

variable {σ α ε β : Type}
variable {step : σ → α → Except ε σ} {s t : σ} {tr : List (σ × α)}

/-- **The history rule**: what holds of the first state and no steps, and is kept when one more step
is taken, holds of every run. -/
theorem Path.history (I : List (σ × α) → σ → Prop) (h : Path step s tr t) (h0 : I [] s)
    (hI : ∀ tr u a u', Path step s tr u → I tr u → step u a = .ok u' → I (tr ++ [(u, a)]) u') :
    I tr t := by
  induction tr using List.reverseRecOn generalizing t with
  | nil =>
    cases h
    exact h0
  | append_singleton tr e ih =>
    obtain ⟨u, h1, h2⟩ := h.split
    obtain ⟨a, b⟩ := e
    obtain ⟨hu, u', hs, h3⟩ := h2.head
    cases h3
    subst hu
    exact hI tr a b _ h1 (ih h1) hs

/-! ## the part of a list after its last mark -/

/-- the elements after the last one with `f`; all of them when there is none. -/
def since (f : β → Bool) (l : List β) : List β := l.rtakeWhile fun e => !f e

/-- the elements up to the last one with `f`. -/
def upTo (f : β → Bool) (l : List β) : List β := l.rdropWhile fun e => !f e

@[simp] lemma since_nil (f : β → Bool) : since f [] = [] := rfl

lemma upTo_append_since (f : β → Bool) (l : List β) : upTo f l ++ since f l = l :=
  rdropWhile_append_rtakeWhile ..

lemma since_concat (f : β → Bool) (l : List β) (e : β) :
    since f (l ++ [e]) = if f e = true then [] else since f l ++ [e] := by
  unfold since
  rw [rtakeWhile_concat]
  cases f e <;> rfl

lemma mem_of_mem_since {f : β → Bool} {l : List β} {e : β} (h : e ∈ since f l) : e ∈ l :=
  (rtakeWhile_suffix _ l).subset h

lemma countP_concat (g : β → Bool) (l : List β) (e : β) :
    (l ++ [e]).countP g = l.countP g + if g e = true then 1 else 0 := by
  rw [countP_append, countP_singleton]

lemma filterMap_concat {γ : Type} (g : β → Option γ) (l : List β) (e : β) :
    (l ++ [e]).filterMap g = l.filterMap g ++ (g e).toList := by
  rw [filterMap_append]
  cases h : g e with
  | none => rw [filterMap_cons_none h]; rfl
  | some => rw [filterMap_cons_some h]; rfl

/-- **The order rule**: if every step lets out what was held or just came in, in this order, then what a run lets out
and holds at its end is, in order, among what it held and what came in. -/
theorem Path.sublist {γ : Type} {inn out : σ × α → Option γ} {held : σ → List γ}
    (hst : ∀ u a u', step u a = .ok u' → ((out (u, a)).toList ++ held u').Sublist (held u ++ (inn (u, a)).toList))
    (h : Path step s tr t) : (tr.filterMap out ++ held t).Sublist (held s ++ tr.filterMap inn) := by
  refine h.history (fun tr t => (tr.filterMap out ++ held t).Sublist (held s ++ tr.filterMap inn)) (by simp) ?_
  intro tr u a u' _ ih hu
  rw [filterMap_concat, filterMap_concat, append_assoc, ← append_assoc (held s)]
  refine ((Sublist.refl _).append (hst u a u' hu)).trans ?_
  rw [← append_assoc]
  exact ih.append (.refl _)

lemma Path.reached {e : σ × α} (h : Path step s tr t) (he : e ∈ tr) :
    ∃ pre v, Path step s pre e.1 ∧ step e.1 e.2 = .ok v := by
  obtain ⟨pre, post, rfl⟩ := append_of_mem he
  obtain ⟨u, hu, h2⟩ := h.split
  obtain ⟨rfl, v, hst, -⟩ := h2.head
  exact ⟨pre, v, hu, hst⟩

end Xv6.Lib
