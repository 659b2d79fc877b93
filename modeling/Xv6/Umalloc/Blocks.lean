import Mathlib.Data.List.Basic
import Mathlib.Data.List.Perm.Basic

/-!
# Free blocks in address order

A block is `size` units of eight bytes at `addr`. Free blocks are kept in address order, with a gap between two of
them (`Apart`). `insert b F` puts the block `b` into the list `F` and joins it with its neighbours where there is no
gap.
-/

namespace Xv6.Umalloc
open List

structure Block where
  addr : Nat
  size : Nat
  deriving DecidableEq

namespace Block

def limit (b : Block) : Nat := b.addr + 8 * b.size

def Disj (b c : Block) : Prop := b.limit ≤ c.addr ∨ c.limit ≤ b.addr

lemma Disj.symm {b c : Block} (h : b.Disj c) : c.Disj b := Or.symm h

end Block

variable {b c d m : Block} {F G : List Block} {P : Block → Prop}

def Apart (F : List Block) : Prop := F.Pairwise fun b c => b.limit < c.addr

/-- the units of these blocks. -/
def total : List Block → Nat
  | [] => 0
  | b :: F => b.size + total F

@[simp] lemma total_nil : total [] = 0 := rfl

@[simp] lemma total_cons : total (b :: F) = b.size + total F := rfl

@[simp] lemma total_append : total (F ++ G) = total F + total G := by
  induction F with
  | nil => simp
  | cons b F ih =>
    rw [cons_append, total_cons, total_cons, ih, Nat.add_assoc]

lemma total_perm (h : F.Perm G) : total F = total G := by
  induction h with
  | nil => rfl
  | cons b _ ih => rw [total_cons, total_cons, ih]
  | swap =>
    simp only [total_cons]
    omega
  | trans _ _ ih1 ih2 => exact ih1.trans ih2

/-! ## where a block belongs -/

def below (b : Block) (F : List Block) : List Block := F.filter fun c => c.addr < b.addr

def above (b : Block) (F : List Block) : List Block := F.filter fun c => ¬ c.addr < b.addr

lemma mem_below : c ∈ below b F ↔ c ∈ F ∧ c.addr < b.addr := by
  unfold below
  rw [mem_filter, decide_eq_true_iff]

lemma mem_above : c ∈ above b F ↔ c ∈ F ∧ b.addr ≤ c.addr := by
  unfold above
  rw [mem_filter, decide_eq_true_iff, Nat.not_lt]

lemma below_append_above (h : Apart F) : below b F ++ above b F = F := by
  induction F with
  | nil => rfl
  | cons c F ih =>
    obtain ⟨hc, hF⟩ := pairwise_cons.mp h
    by_cases hcb : c.addr < b.addr
    · have h1 : below b (c :: F) = c :: below b F := filter_cons_of_pos (decide_eq_true hcb)
      have h2 : above b (c :: F) = above b F := filter_cons_of_neg (by simpa using hcb)
      rw [h1, h2, cons_append, ih hF]
    · -- all later ones are above
      have h1 : below b (c :: F) = [] := by
        apply filter_eq_nil_iff.mpr
        intro d hd
        rw [decide_eq_true_iff]
        rcases mem_cons.mp hd with rfl | hd
        · exact hcb
        · have h3 := hc d hd
          unfold Block.limit at h3
          omega
      have h2 : above b (c :: F) = c :: F := by
        apply filter_eq_self.mpr
        intro d hd
        rw [decide_eq_true_iff]
        rcases mem_cons.mp hd with rfl | hd
        · exact hcb
        · have h3 := hc d hd
          unfold Block.limit at h3
          omega
      rw [h1, h2]
      rfl

lemma below_eq {A B : List Block} (h : F = A ++ B)
    (hA : ∀ c ∈ A, c.addr < b.addr) (hB : ∀ c ∈ B, b.addr ≤ c.addr) : below b F = A := by
  unfold below
  rw [h, filter_append]
  have h1 : A.filter (fun c => c.addr < b.addr) = A :=
    filter_eq_self.mpr fun c hc => decide_eq_true (hA c hc)
  have h2 : B.filter (fun c => c.addr < b.addr) = [] := by
    apply filter_eq_nil_iff.mpr
    intro c hc
    rw [decide_eq_true_iff, Nat.not_lt]
    exact hB c hc
  rw [h1, h2, append_nil]

/-! ## joining -/

/-- two blocks without a gap between them. -/
def join (b c : Block) : Block := ⟨b.addr, b.size + c.size⟩

lemma limit_join (h : b.limit = c.addr) : (join b c).limit = c.limit := by
  unfold join Block.limit at *
  dsimp only
  omega

def joinAbove (b : Block) : List Block → Block × List Block
  | [] => (b, [])
  | c :: F => if b.limit = c.addr then (join b c, F) else (b, c :: F)

lemma joinAbove_cons : joinAbove b (c :: F) = if b.limit = c.addr then (join b c, F) else (b, c :: F) := rfl

def joinBelow (F : List Block) (b : Block) : List Block :=
  match F.getLast? with
  | none => [b]
  | some d => if d.limit = b.addr then F.dropLast ++ [join d b] else F ++ [b]

lemma joinBelow_nil : joinBelow [] b = [b] := rfl

lemma joinBelow_concat : joinBelow (F ++ [d]) b = if d.limit = b.addr then F ++ [join d b] else F ++ [d] ++ [b] := by
  unfold joinBelow
  rw [List.getLast?_concat, dropLast_concat]

def insert (b : Block) (F : List Block) : List Block :=
  joinBelow (below b F) (joinAbove b (above b F)).1 ++ (joinAbove b (above b F)).2

lemma mem_joinAbove (h : c ∈ (joinAbove b F).2) : c ∈ F := by
  cases F with
  | nil => cases h
  | cons =>
    rw [joinAbove_cons] at h
    split at h
    · exact mem_cons_of_mem _ h
    · exact h

lemma joinAbove_addr : (joinAbove b F).1.addr = b.addr := by
  cases F with
  | nil => rfl
  | cons =>
    rw [joinAbove_cons]
    split
    all_goals rfl

/-- what is true of blocks and of joined blocks. -/
def Joins (P : Block → Prop) : Prop := ∀ b c, P b → P c → b.limit = c.addr → P (join b c)

section
variable (hP : Joins P) (hb : P b) (hF : ∀ c ∈ F, P c)
include hP hb hF

lemma joinAbove_forall : P (joinAbove b F).1 ∧ ∀ c ∈ (joinAbove b F).2, P c := by
  cases F with
  | nil => exact ⟨hb, nofun⟩
  | cons c =>
    rw [joinAbove_cons]
    split
    · next hc => exact ⟨hP b c hb (hF c mem_cons_self) hc, fun d hd => hF d (mem_cons_of_mem _ hd)⟩
    · exact ⟨hb, hF⟩

lemma joinBelow_forall : ∀ c ∈ joinBelow F b, P c := by
  rcases eq_nil_or_concat F with rfl | ⟨F, d, rfl⟩
  · intro c hc
    rw [joinBelow_nil, mem_singleton] at hc
    rw [hc]
    exact hb
  · rw [concat_eq_append] at hF ⊢
    rw [joinBelow_concat]
    have hd : P d := hF d (by simp)
    intro c hc
    split at hc
    · next hl =>
      rcases mem_append.mp hc with hc | hc
      · exact hF c (mem_append_left _ hc)
      · rw [mem_singleton.mp hc]
        exact hP d b hd hb hl
    · rcases mem_append.mp hc with hc | hc
      · exact hF c hc
      · rw [mem_singleton.mp hc]
        exact hb

lemma insert_forall : ∀ c ∈ insert b F, P c := by
  obtain ⟨h1, h2⟩ := joinAbove_forall hP hb (F := above b F) fun c hc => hF c (mem_above.mp hc).1
  intro c hc
  rcases mem_append.mp hc with hc | hc
  · exact joinBelow_forall hP h1 (fun d hd => hF d (mem_below.mp hd).1) c hc
  · exact h2 c hc

end

lemma joins_disj {a : Block} (ha : 0 < a.size) : Joins (Block.Disj · a) := by
  intro b c hb hc hbc
  have h1 := limit_join hbc
  unfold Block.Disj at *
  rw [h1]
  unfold join Block.limit at *
  dsimp only at *
  omega

lemma total_joinAbove : (joinAbove b F).1.size + total (joinAbove b F).2 = b.size + total F := by
  cases F with
  | nil => rfl
  | cons c F =>
    rw [joinAbove_cons]
    split
    · show b.size + c.size + total F = b.size + total (c :: F)
      rw [total_cons]
      omega
    · rfl

lemma total_joinBelow : total (joinBelow F b) = total F + b.size := by
  rcases eq_nil_or_concat F with rfl | ⟨F, d, rfl⟩
  · simp [joinBelow_nil]
  · rw [concat_eq_append, joinBelow_concat]
    split
    · simp only [join, total_append, total_cons, total_nil]
      omega
    · simp only [total_append, total_cons, total_nil]
      omega

lemma total_insert (h : Apart F) : total (insert b F) = b.size + total F := by
  unfold insert
  rw [total_append, total_joinBelow, Nat.add_assoc, total_joinAbove]
  conv_rhs => rw [← below_append_above (b := b) h, total_append]
  omega

lemma exists_insert (b : Block) (F : List Block) : ∃ m ∈ insert b F, b.size ≤ m.size := by
  have h1 : b.size ≤ (joinAbove b (above b F)).1.size := by
    cases above b F with
    | nil => exact Nat.le_refl _
    | cons =>
      rw [joinAbove_cons]
      split
      · exact Nat.le_add_right ..
      · exact Nat.le_refl _
  obtain ⟨m, hm, h2⟩ : ∃ m ∈ joinBelow (below b F) (joinAbove b (above b F)).1,
      (joinAbove b (above b F)).1.size ≤ m.size := by
    generalize (joinAbove b (above b F)).1 = b1
    rcases eq_nil_or_concat (below b F) with hF | ⟨F, d, hF⟩
    · rw [hF]
      exact ⟨b1, mem_singleton_self _, Nat.le_refl _⟩
    · rw [hF, concat_eq_append, joinBelow_concat]
      split
      · exact ⟨join d b1, by simp, Nat.le_add_left ..⟩
      · exact ⟨b1, by simp, Nat.le_refl _⟩
  exact ⟨m, mem_append_left _ hm, Nat.le_trans h1 h2⟩

/-! ## the order -/

lemma apart_concat : Apart (F ++ [b]) ↔ Apart F ∧ ∀ c ∈ F, c.limit < b.addr := by
  unfold Apart
  rw [pairwise_append]
  constructor
  · rintro ⟨h1, -, h2⟩
    exact ⟨h1, fun c hc => h2 c hc b (mem_singleton_self _)⟩
  · rintro ⟨h1, h2⟩
    refine ⟨h1, pairwise_singleton .., fun c hc d hd => ?_⟩
    rw [mem_singleton.mp hd]
    exact h2 c hc

lemma joinAbove_apart (hF : Apart F) (hs : ∀ c ∈ F, 0 < c.size) (hb : ∀ c ∈ F, b.limit ≤ c.addr) :
    b.limit ≤ (joinAbove b F).1.limit ∧ Apart (joinAbove b F).2 ∧
      ∀ c ∈ (joinAbove b F).2, (joinAbove b F).1.limit < c.addr := by
  cases F with
  | nil => exact ⟨Nat.le_refl _, List.Pairwise.nil, nofun⟩
  | cons c =>
    obtain ⟨h1, h2⟩ := pairwise_cons.mp hF
    have hc := hb c mem_cons_self
    rw [joinAbove_cons]
    split
    · next hj =>
      refine ⟨?_, h2, fun d hd => ?_⟩
      · rw [limit_join hj]
        unfold Block.limit at *
        omega
      · rw [limit_join hj]
        exact h1 d hd
    · next hj =>
      refine ⟨Nat.le_refl _, hF, fun d hd => ?_⟩
      show b.limit < d.addr
      rcases mem_cons.mp hd with rfl | hd
      · omega
      · have h3 := h1 d hd
        unfold Block.limit at *
        omega

lemma joinBelow_apart (hF : Apart F) (hb : ∀ c ∈ F, c.limit ≤ b.addr) :
    Apart (joinBelow F b) ∧ ∀ c ∈ joinBelow F b, c.limit ≤ b.limit := by
  rcases eq_nil_or_concat F with rfl | ⟨F, d, rfl⟩
  · refine ⟨pairwise_singleton .., fun c hc => ?_⟩
    exact Nat.le_of_eq (congrArg Block.limit (mem_singleton.mp hc))
  · rw [concat_eq_append] at hF hb ⊢
    obtain ⟨h1, h2⟩ := apart_concat.mp hF
    have hd := hb d (by simp)
    have hF' : ∀ c ∈ F ++ [d], c.limit ≤ b.limit := by
      intro c hc
      have h3 := hb c hc
      unfold Block.limit at *
      omega
    rw [joinBelow_concat]
    split
    · next hj =>
      refine ⟨apart_concat.mpr ⟨h1, h2⟩, fun c hc => ?_⟩
      rcases mem_append.mp hc with hc | hc
      · exact hF' c (mem_append_left _ hc)
      · exact Nat.le_of_eq ((congrArg Block.limit (mem_singleton.mp hc)).trans (limit_join hj))
    · next hj =>
      refine ⟨apart_concat.mpr ⟨hF, fun c hc => ?_⟩, fun c hc => ?_⟩
      · rcases mem_append.mp hc with hc | hc
        · have h3 := h2 c hc
          unfold Block.limit at *
          omega
        · rw [mem_singleton.mp hc]
          omega
      · rcases mem_append.mp hc with hc | hc
        · exact hF' c hc
        · exact Nat.le_of_eq (congrArg Block.limit (mem_singleton.mp hc))

lemma below_limit (h : ∀ c ∈ F, b.Disj c) (hc : c ∈ below b F) : c.limit ≤ b.addr := by
  obtain ⟨h1, h2⟩ := mem_below.mp hc
  rcases h c h1 with h3 | h3
  · unfold Block.limit at h3
    omega
  · exact h3

lemma above_addr (h : ∀ c ∈ F, b.Disj c) (hs : ∀ c ∈ F, 0 < c.size) (hc : c ∈ above b F) : b.limit ≤ c.addr := by
  obtain ⟨h1, h2⟩ := mem_above.mp hc
  have h4 := hs c h1
  rcases h c h1 with h3 | h3
  · exact h3
  · unfold Block.limit at *
    omega

lemma insert_apart (hF : Apart F) (hs : ∀ c ∈ F, 0 < c.size) (hb : ∀ c ∈ F, b.Disj c) : Apart (insert b F) := by
  have hlow : Apart (below b F) := List.Pairwise.filter _ hF
  have hhigh : Apart (above b F) := List.Pairwise.filter _ hF
  obtain ⟨h2, h3, h4⟩ := joinAbove_apart hhigh (fun c hc => hs c (mem_above.mp hc).1) fun c hc => above_addr hb hs hc
  obtain ⟨h5, h6⟩ := joinBelow_apart hlow (b := (joinAbove b (above b F)).1) fun c hc => by
    rw [joinAbove_addr]
    exact below_limit hb hc
  refine pairwise_append.mpr ⟨h5, h3, fun c hc d hd => ?_⟩
  exact Nat.lt_of_le_of_lt (h6 c hc) (h4 d hd)

end Xv6.Umalloc
