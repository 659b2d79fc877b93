import Mathlib.Logic.Function.Basic

/-!
# A write-back cache

`Lines σ κ ν` is a cache in front of a store `back : κ → ν`. The line `i` is for the key `key i`,
if it has one; `val i` is the value it holds, if it holds one; `dirty i` says that the store does
not have that value yet. `Coherent A c` says that reader and writer of `c` cannot tell it from the
plain array `A`:

    Coherent.assign    a clean line is given to a key that has no line;
    Coherent.fill      a line without a value is read from the store;
    Coherent.put       a value is written into a line: the array changes at its key;
    Coherent.flush     the value of a line is written back.
-/

set_option linter.unusedSectionVars false

namespace Xv6.Lib
open Function Option

variable {σ κ ν : Type} [DecidableEq σ] [DecidableEq κ]

lemma update_cases {f : σ → ν} {i j : σ} {x y : ν} (h : update f i x j = y) :
    (j = i ∧ x = y) ∨ (j ≠ i ∧ f j = y) := by
  by_cases e : j = i
  · rw [e, update_self] at h
    exact .inl ⟨e, h⟩
  · rw [update_of_ne e] at h
    exact .inr ⟨e, h⟩

structure Lines (σ κ ν : Type) where
  key : σ → Option κ
  val : σ → Option ν
  dirty : σ → Bool
  back : κ → ν

namespace Lines

def assign (c : Lines σ κ ν) (i : σ) (k : κ) : Lines σ κ ν :=
  { c with
    key := update c.key i (some k)
    val := update c.val i none
    dirty := update c.dirty i false }

def fill (c : Lines σ κ ν) (i : σ) (k : κ) : Lines σ κ ν :=
  { c with val := update c.val i (some (c.back k)) }

def put (c : Lines σ κ ν) (i : σ) (v : ν) : Lines σ κ ν :=
  { c with val := update c.val i (some v), dirty := update c.dirty i true }

def flush (c : Lines σ κ ν) (i : σ) (k : κ) (v : ν) : Lines σ κ ν :=
  { c with dirty := update c.dirty i false, back := update c.back k v }

end Lines

structure Coherent (A : κ → ν) (c : Lines σ κ ν) : Prop where
  unique : ∀ i j k, c.key i = some k → c.key j = some k → i = j
  /-- a line with a value has a key, and the value is that of the array. -/
  keyed : ∀ i v, c.val i = some v → ∃ k, c.key i = some k ∧ v = A k
  valued : ∀ i, c.dirty i = true → ∃ v, c.val i = some v
  /-- the store is behind only where a line is dirty. -/
  behind : ∀ k, c.back k = A k ∨ ∃ i, c.key i = some k ∧ c.dirty i = true

namespace Coherent
variable {A : κ → ν} {c : Lines σ κ ν} {i : σ} {k : κ} {v : ν}

section
variable (h : Coherent A c)
include h

lemma read (hk : c.key i = some k) (hv : c.val i = some v) : v = A k := by
  obtain ⟨k', hk', e⟩ := h.keyed i v hv
  rw [hk] at hk'
  rw [e, some.inj hk']

lemma clean (hk : c.key i = some k) (hv : c.val i = none) : c.back k = A k := by
  refine (h.behind k).resolve_right fun ⟨j, hj, hd⟩ => ?_
  obtain ⟨w, hw⟩ := h.valued j hd
  rw [h.unique j i k hj hk, hv] at hw
  cases hw

lemma assign (hd : c.dirty i = false) (hno : ∀ j, c.key j ≠ some k) : Coherent A (c.assign i k) := by
  have hkey : ∀ j ≠ i, (c.assign i k).key j = c.key j := fun j e => update_of_ne e _ _
  have hval : ∀ j ≠ i, (c.assign i k).val j = c.val j := fun j e => update_of_ne e _ _
  refine ⟨fun j j' x hj hj' => ?_, fun j w hw => ?_, fun j hj => ?_, fun x => ?_⟩
  · rcases update_cases hj with ⟨e, ex⟩ | ⟨e, hj⟩ <;>
      rcases update_cases hj' with ⟨e', ex'⟩ | ⟨e', hj'⟩
    · rw [e, e']
    · rw [← ex] at hj'; exact absurd hj' (hno j')
    · rw [← ex'] at hj; exact absurd hj (hno j)
    · exact h.unique j j' x hj hj'
  · rcases update_cases hw with ⟨_, hw⟩ | ⟨e, hw⟩
    · cases hw
    · rw [hkey j e]
      exact h.keyed j w hw
  · rcases update_cases hj with ⟨_, hj⟩ | ⟨e, hj⟩
    · cases hj
    · rw [hval j e]
      exact h.valued j hj
  · refine (h.behind x).imp id fun ⟨j, hj, hdj⟩ => ?_
    have e : j ≠ i := by
      intro e
      rw [e, hd] at hdj
      cases hdj
    exact ⟨j, by rw [hkey j e]; exact hj, (update_of_ne e _ _).trans hdj⟩

lemma fill (hk : c.key i = some k) (hv : c.val i = none) : Coherent A (c.fill i k) := by
  refine ⟨h.unique, fun j w hw => ?_, fun j hj => ?_, h.behind⟩
  · rcases update_cases hw with ⟨e, hw⟩ | ⟨_, hw⟩
    · rw [← some.inj hw, e]
      exact ⟨k, hk, h.clean hk hv⟩
    · exact h.keyed j w hw
  · have hne : j ≠ i := by
      intro e
      obtain ⟨w, hw⟩ := h.valued j hj
      rw [e, hv] at hw
      cases hw
    obtain ⟨w, hw⟩ := h.valued j hj
    exact ⟨w, (update_of_ne hne _ _).trans hw⟩

lemma put (hk : c.key i = some k) (v : ν) : Coherent (update A k v) (c.put i v) := by
  refine ⟨h.unique, fun j w hw => ?_, fun j hj => ?_, fun x => ?_⟩
  · rcases update_cases hw with ⟨e, hw⟩ | ⟨e, hw⟩
    · rw [← some.inj hw, e]
      exact ⟨k, hk, by rw [update_self]⟩
    · obtain ⟨x, hx, ew⟩ := h.keyed j w hw
      have hne : x ≠ k := by
        intro ex
        rw [ex] at hx
        exact e (h.unique j i k hx hk)
      exact ⟨x, hx, by rw [update_of_ne hne, ew]⟩
  · rcases update_cases hj with ⟨e, _⟩ | ⟨e, hj⟩
    · exact ⟨v, by rw [e]; exact update_self ..⟩
    · obtain ⟨w, hw⟩ := h.valued j hj
      exact ⟨w, (update_of_ne e _ _).trans hw⟩
  · by_cases ex : x = k
    · exact .inr ⟨i, by rw [ex]; exact hk, update_self ..⟩
    · rw [update_of_ne ex]
      refine (h.behind x).imp id fun ⟨j, hj, hd⟩ => ⟨j, hj, ?_⟩
      have e : j ≠ i := by
        intro e
        rw [e, hk] at hj
        exact ex (some.inj hj).symm
      exact (update_of_ne e _ _).trans hd

lemma flush (hk : c.key i = some k) (hv : c.val i = some v) : Coherent A (c.flush i k v) := by
  refine ⟨h.unique, h.keyed, fun j hj => ?_, fun x => ?_⟩
  · rcases update_cases hj with ⟨_, hj⟩ | ⟨_, hj⟩
    · cases hj
    · exact h.valued j hj
  · by_cases ex : x = k
    · left
      rw [ex, ← h.read hk hv]
      exact update_self ..
    · refine (h.behind x).imp (fun hx => ?_) fun ⟨j, hj, hd⟩ => ⟨j, hj, ?_⟩
      · exact (update_of_ne ex _ _).trans hx
      · have e : j ≠ i := by
          intro e
          rw [e, hk] at hj
          exact ex (some.inj hj).symm
        exact (update_of_ne e _ _).trans hd

end

end Coherent

end Xv6.Lib
