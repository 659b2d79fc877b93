import Mathlib.Logic.Function.Basic

/-!
# Resources that are referred to from places

Each place `p` refers to a resource, `own p = some b`, or to none. `Owns D used own` says that of
the resources in `D` exactly those marked in `used` are referred to, each from one place only:

    Owns.alloc      an unmarked resource is marked and goes to an empty place;
    Owns.free       the resource of a place is unmarked, and the place emptied;
    Owns.reframe    the same places, read from somewhere else.

A resource that is in use and has no place yet, or no place any more, is left out of `D`:

    Owns.pick       an unmarked resource is taken;
    Owns.put        it goes to an empty place;
    Owns.pull       a resource is taken from its place;
    Owns.drop       it is unmarked.
-/

namespace Xv6.Lib
open Function

variable {π β : Type} [DecidableEq π] [DecidableEq β]

structure Owns (D : β → Prop) (used : β → Bool) (own : π → Option β) : Prop where
  one : ∀ p q b, own p = some b → own q = some b → p = q
  data : ∀ p b, own p = some b → D b
  used_iff : ∀ b, D b → (used b = true ↔ ∃ p, own p = some b)

namespace Owns
variable {D : β → Prop} {used used' : β → Bool} {own own' : π → Option β} {b : β} {p : π}

omit [DecidableEq π] [DecidableEq β] in
lemma used_of (h : Owns D used own) (hp : own p = some b) : used b = true :=
  (h.used_iff b (h.data p b hp)).mpr ⟨p, hp⟩

omit [DecidableEq π] [DecidableEq β] in
lemma not_owned (h : Owns D used own) (hb : used b = false) (p : π) : own p ≠ some b := by
  intro hp
  rw [h.used_of hp] at hb
  cases hb

omit [DecidableEq π] [DecidableEq β] in
lemma reframe (h : Owns D used own) (hown : ∀ p, own' p = own p)
    (hused : ∀ b, D b → used' b = used b) : Owns D used' own' := by
  refine ⟨fun p q b hp hq => ?_, fun p b hp => ?_, fun b hb => ?_⟩
  · rw [hown] at hp hq
    exact h.one p q b hp hq
  · rw [hown] at hp
    exact h.data p b hp
  · rw [hused b hb, h.used_iff b hb]
    constructor <;> intro ⟨p, hp⟩ <;> exact ⟨p, by rw [← hp, hown]⟩

/-! ## in the hand -/

omit [DecidableEq π] [DecidableEq β] in
lemma pick (h : Owns D used own) (hb : used b = false) (hused : ∀ x, x ≠ b → used' x = used x) :
    Owns (fun x => D x ∧ x ≠ b) used' own := by
  refine ⟨h.one, fun p x hp => ⟨h.data p x hp, ?_⟩, fun x hx => ?_⟩
  · rintro rfl
    exact h.not_owned hb p hp
  · rw [hused x hx.2]
    exact h.used_iff x hx.1

omit [DecidableEq β] in
lemma put (h : Owns (fun x => D x ∧ x ≠ b) used own) (hD : D b) (hb : used b = true) (hp : own p = none) :
    Owns D used (update own p (some b)) := by
  have new : ∀ q x, update own p (some b) q = some x → (q = p ∧ x = b) ∨ (q ≠ p ∧ own q = some x) := by
    intro q x hq
    by_cases e : q = p
    · rw [e, update_self] at hq
      exact .inl ⟨e, (Option.some.inj hq).symm⟩
    · rw [update_of_ne e] at hq
      exact .inr ⟨e, hq⟩
  refine ⟨fun q r x hq hr => ?_, fun q x hq => ?_, fun x hx => ?_⟩
  · rcases new q x hq with ⟨e, ex⟩ | ⟨-, hq⟩ <;> rcases new r x hr with ⟨e', ex'⟩ | ⟨-, hr⟩
    · rw [e, e']
    · exact absurd ex (h.data r x hr).2
    · exact absurd ex' (h.data q x hq).2
    · exact h.one q r x hq hr
  · rcases new q x hq with ⟨-, ex⟩ | ⟨-, hq⟩
    · rw [ex]; exact hD
    · exact (h.data q x hq).1
  · by_cases ex : x = b
    · rw [ex]
      exact ⟨fun _ => ⟨p, update_self ..⟩, fun _ => hb⟩
    · rw [h.used_iff x ⟨hx, ex⟩]
      constructor
      · intro ⟨q, hq⟩
        refine ⟨q, ?_⟩
        rw [update_of_ne, hq]
        intro e
        rw [e, hp] at hq
        cases hq
      · intro ⟨q, hq⟩
        rcases new q x hq with ⟨-, e⟩ | ⟨-, hq⟩
        · exact absurd e ex
        · exact ⟨q, hq⟩

omit [DecidableEq β] in
lemma pull (h : Owns D used own) (hp : own p = some b) : Owns (fun x => D x ∧ x ≠ b) used (update own p none) := by
  have old : ∀ q x, update own p none q = some x → q ≠ p ∧ own q = some x := by
    intro q x hq
    by_cases e : q = p
    · rw [e, update_self] at hq
      cases hq
    · rw [update_of_ne e] at hq
      exact ⟨e, hq⟩
  refine ⟨fun q r x hq hr => ?_, fun q x hq => ⟨h.data q x (old q x hq).2, ?_⟩, fun x hx => ?_⟩
  · exact h.one q r x (old q x hq).2 (old r x hr).2
  · rintro rfl
    exact (old q x hq).1 (h.one q p x (old q x hq).2 hp)
  · rw [h.used_iff x hx.1]
    constructor
    · intro ⟨q, hq⟩
      refine ⟨q, ?_⟩
      rw [update_of_ne, hq]
      intro e
      rw [e, hp] at hq
      exact hx.2 (Option.some.inj hq).symm
    · intro ⟨q, hq⟩
      exact ⟨q, (old q x hq).2⟩

omit [DecidableEq π] in
lemma drop (h : Owns (fun x => D x ∧ x ≠ b) used own) (hb : used' b = false)
    (hused : ∀ x, x ≠ b → used' x = used x) : Owns D used' own := by
  refine ⟨h.one, fun p x hp => (h.data p x hp).1, fun x hx => ?_⟩
  by_cases ex : x = b
  · rw [ex, hb]
    refine ⟨fun hf => (by cases hf), fun ⟨q, hq⟩ => ?_⟩
    exact absurd rfl (h.data q b hq).2
  · rw [hused x ex]
    exact h.used_iff x ⟨hx, ex⟩

/-! ## in one step -/

lemma alloc (h : Owns D used own) (hD : D b) (hb : used b = false) (hp : own p = none)
    (hown : ∀ q, own' q = if q = p then some b else own q)
    (hused : ∀ x, used' x = if x = b then true else used x) : Owns D used' own' := by
  have hpick : Owns (fun x => D x ∧ x ≠ b) used' own := h.pick hb fun x hx => by rw [hused, if_neg hx]
  have hput := hpick.put hD (by rw [hused, if_pos rfl]) hp
  exact hput.reframe (fun q => by rw [hown, update_apply]) fun _ _ => rfl

lemma free (h : Owns D used own) (hp : own p = some b) : Owns D (update used b false) (update own p none) :=
  (h.pull hp).drop (update_self ..) fun _ hx => update_of_ne hx ..

end Owns

end Xv6.Lib
