import Mathlib.Data.List.Perm.Subperm

/-!
# Resources that have one owner

Every resource is on the free list or belongs to one of the owners `ι`: `Owned own free` says that
no resource is in two places. An operation moves resources between the free list and ONE owner;
`Owned.move` is the rule for it: what the owner and the free list hold afterwards is part of what
they held before. Losing resources (a leak) is allowed, copying them is not.
-/

namespace Xv6.Lib
open List

variable {ι α : Type} {own own' : ι → List α} {free free' : List α}

structure Owned (own : ι → List α) (free : List α) : Prop where
  nodup : ∀ i, (own i ++ free).Nodup
  apart : ∀ i j, i ≠ j → List.Disjoint (own i) (own j)

namespace Owned

lemma not_free (h : Owned own free) {i : ι} {x : α} (hx : x ∈ own i) : x ∉ free :=
  fun hf => (nodup_append.mp (h.nodup i)).2.2 x hx x hf rfl

/-- **The owner `i` and the free list exchange resources.** -/
theorem move (h : Owned own free) (i : ι) (ho : ∀ j, j ≠ i → own' j = own j)
    (hi : (own' i ++ free').Subperm (own i ++ free)) : Owned own' free' := by
  have hn : (own' i ++ free').Nodup := by
    obtain ⟨l, hp, hs⟩ := hi
    exact hp.nodup_iff.mp (hs.nodup (h.nodup i))
  have hsub : ∀ x, x ∈ own' i ∨ x ∈ free' → x ∈ own i ∨ x ∈ free := by
    intro x hx
    exact mem_append.mp (hi.subset (mem_append.mpr hx))
  -- nothing that moved belonged to another owner
  have away : ∀ j x, j ≠ i → x ∈ own j → ¬ (x ∈ own' i ∨ x ∈ free') := by
    intro j x hj hx hx'
    rcases hsub x hx' with e | e
    · exact h.apart j i hj hx e
    · exact h.not_free hx e
  refine ⟨fun j => ?_, fun j m hjm => ?_⟩
  · by_cases e : j = i
    · rw [e]; exact hn
    · rw [ho j e]
      refine nodup_append.mpr ⟨(nodup_append.mp (h.nodup j)).1, (nodup_append.mp hn).2.1, ?_⟩
      rintro x hx y hy rfl
      exact away j x e hx (.inr hy)
  · by_cases ej : j = i
    · subst ej
      have em : m ≠ j := Ne.symm hjm
      rw [ho m em]
      intro x hx hx'
      exact away m x em hx' (.inl hx)
    · by_cases em : m = i
      · subst em
        rw [ho j ej]
        intro x hx hx'
        exact away j x ej hx (.inl hx')
      · rw [ho j ej, ho m em]
        exact h.apart j m hjm

end Owned
end Xv6.Lib
