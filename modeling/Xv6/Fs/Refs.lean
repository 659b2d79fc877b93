import Xv6.Fs.Trunc

/-!
# References to inodes: `iget`, `ilock` and `iput`

`Ctx e H R V c` is what a call knows while it runs: the invariant, the references `H` of everyone
else, its own references `R` (a pointer that is held twice is there twice), each with the number of
its inode, and the entries `V` among them that it has read from the disk. The count of an entry is
the number of its references. An entry of `V` can be read and written, since no `iput` but of
a last reference, and no `iget`, makes it invalid.

What a call may do to the disk besides its own work is `Idle`: an `iput` frees an inode that has no
links and that nobody else holds. Where every inode without links is held (`Tidy`), that does not
happen on the way.
-/

set_option linter.unusedSectionVars false

namespace Xv6.Fs
open Lib Function List

/-- every allocated inode without links, among those in `T`, is in the cache, referenced and read. -/
def Tidy (e : Env) (T : Nat → Prop) (c : Core) : Prop :=
  ∀ n x, T n → c.node e n = some x → x.d.nlink = 0 → ∃ i, c.Held i ∧ (c.inode i).inum = n

/-- the references that others hold: how many to an entry, and to which inode. -/
structure Holders where
  ref : Ip → Nat
  num : Ip → Nat
  /-- the inodes that are known to be held, if they have no links. -/
  tidy : Nat → Prop

abbrev Refs := List (Ip × Nat)

structure Ctx (e : Env) (H : Holders) (R : Refs) (V : List Ip) (c : Core) : Prop where
  inv : Inv e c
  refs : ∀ i, (c.inode i).ref = ((R.map Prod.fst).count i + H.ref i : Nat)
  num : ∀ p ∈ R, (c.inode p.1).inum = p.2
  out : ∀ i, 0 < H.ref i → (c.inode i).inum = H.num i
  valid : ∀ i ∈ V, (c.inode i).valid = true
  sub : ∀ i ∈ V, i ∈ R.map Prod.fst
  tidy : Tidy e H.tidy c

/-- the inodes that are held, by others or in `R`. -/
def Kept (H : Holders) (R : Refs) (n : Nat) : Prop :=
  (∃ i, 0 < H.ref i ∧ H.num i = n) ∨ ∃ i, (i, n) ∈ R

/-- nothing has happened to the disk, but that inodes without links, not in `K`, were freed. -/
structure Idle (e : Env) (K : Nat → Prop) (c c' : Core) : Prop where
  nodes : ∀ n, c'.node e n = c.node e n ∨ c'.node e n = none ∧ ¬ K n ∧ ∃ x, c.node e n = some x ∧ x.d.nlink = 0
  same : c'.node e = c.node e → c.Same c'

/-- a class of failures that leaves out only what `Safe` does. -/
class Allows (E : Stop → Prop) : Prop where
  of_safe : ∀ x, Safe x → E x

instance : Allows Safe := ⟨fun _ h => h⟩

/-- the failures of a look-up in a directory. -/
class Looks (E : Stop → Prop) : Prop where
  dir : E (.panic "dirlookup not DIR")
  read : E (.panic "dirlookup read")
  range : E (.panic "bmap: out of range")
  iget : E (.panic "iget: no inodes")

instance {E : Stop → Prop} [Allows E] : Looks E := by
  constructor <;> exact Allows.of_safe _ (by decide)

variable {e : Env} {E : Stop → Prop} [Allows E] {c c' : Core} {i j : Ip} {n : Nat} {H : Holders}
  {R R' : Refs} {V V' : List Ip} {y : Inode} {K K' : Nat → Prop} {d : Dinode} {x : Node} {T : Nat → Prop}

lemma does_fail {α : Type} {Q : α → Core → Prop} {x : Stop} (h : Safe x) :
    Runs E (throw x : M α) Q c := does_throw (Allows.of_safe x h)

lemma Runs.any {α : Type} {m : M α} {Q : α → Core → Prop} (h : Does m Q c) : Runs E m Q c :=
  h.up Allows.of_safe

/-! ## idle changes -/

namespace Idle

lemma of_same (h : c.Same c') : Idle e K c c' := ⟨fun _ => .inl (congrFun h.node _), fun _ => h⟩

section
variable (h : Idle e K c c')
include h

lemma mono (hK : ∀ n, K' n → K n) : Idle e K' c c' :=
  ⟨fun n => (h.nodes n).imp_right fun ⟨h1, h2, h3⟩ => ⟨h1, fun hk => h2 (hK n hk), h3⟩, h.same⟩

lemma eq_of_some (hx : c'.node e n = some x) : c.node e n = some x := by
  rcases h.nodes n with hn | ⟨hn, -, -⟩
  · rw [← hn]
    exact hx
  · rw [hn] at hx
    cases hx

lemma kept (hn : K n) : c'.node e n = c.node e n :=
  (h.nodes n).resolve_right fun ⟨_, hk, _⟩ => hk hn

lemma trans {c'' : Core} (h' : Idle e K c' c'') : Idle e K c c'' := by
  constructor
  · intro n
    rcases h'.nodes n with hn | ⟨hn, hk, x, hx, hl⟩
    · rcases h.nodes n with hm | ⟨hm, hr⟩
      · exact .inl (hn.trans hm)
      · exact .inr ⟨hn.trans hm, hr⟩
    · exact .inr ⟨hn, hk, x, h.eq_of_some hx, hl⟩
  · intro hs
    have h1 : c'.node e = c.node e := by
      funext n
      rcases h.nodes n with hn | ⟨hn, -, x, hx, -⟩
      · exact hn
      · -- what was freed first is not there again
        rcases h'.nodes n with hm | ⟨hm, -, x', hx', -⟩
        · rw [← hs, hm]
        · rw [hn] at hx'
          cases hx'
    exact (h.same h1).trans (h'.same (hs.trans h1.symm))

end

end Idle

/-! ## references -/

namespace Ctx

section
variable (h : Ctx e H R V c)
include h

lemma ref_pos (hi : i ∈ R.map Prod.fst) : 0 < (c.inode i).ref := by
  have h1 := h.refs i
  have h2 := count_pos_iff.mpr hi
  omega

lemma ref_pos_iff : 0 < (c.inode i).ref ↔ i ∈ R.map Prod.fst ∨ 0 < H.ref i := by
  rw [h.refs i, ← count_pos_iff]
  omega

lemma held (hi : i ∈ V) : c.Held i := ⟨h.ref_pos (h.sub i hi), h.valid i hi⟩

lemma perm (hp : R.Perm R') : Ctx e H R' V c :=
  ⟨h.inv, fun i => by rw [← (hp.map Prod.fst).count_eq]; exact h.refs i,
    fun p hm => h.num p (hp.mem_iff.mpr hm), h.out, h.valid,
    fun i hi => (hp.map Prod.fst).mem_iff.mp (h.sub i hi), h.tidy⟩

end

lemma swap {p q : Ip × Nat} (h : Ctx e H (p :: q :: R) V c) : Ctx e H (q :: p :: R) V c :=
  h.perm (List.Perm.swap _ _ _)

section
variable (h : Ctx e H R V c)
include h

lemma weaken (hV : ∀ i ∈ V', i ∈ V) : Ctx e H R V' c :=
  ⟨h.inv, h.refs, h.num, h.out, fun i hi => h.valid i (hV i hi), fun i hi => h.sub i (hV i hi), h.tidy⟩

lemma kept (hi : 0 < (c.inode i).ref) : Kept H R (c.inode i).inum := by
  rcases h.ref_pos_iff.mp hi with hm | hm
  · obtain ⟨p, hp, rfl⟩ := mem_map.mp hm
    refine .inr ⟨p.1, ?_⟩
    rw [h.num p hp]
    exact hp
  · exact .inl ⟨i, hm, (h.out i hm).symm⟩

lemma node (hi : i ∈ V) : c.node e (c.inode i).inum = some ((c.inode i).d.node c.data) :=
  (h.inv.copy i (h.held hi)).node_eq

lemma orphan (ht : H.tidy n) (hx : c.node e n = some x) (hl : x.d.nlink = 0) : Kept H R n := by
  obtain ⟨i, hi, hn⟩ := h.tidy n x ht hx hl
  rw [← hn]
  exact h.kept hi.ref

end

end Ctx

lemma Tidy.setInode (h : Tidy e T c)
    (hy : c.Held i → 0 < y.ref ∧ y.valid = true ∧ y.inum = (c.inode i).inum) :
    Tidy e T (c.setInode i y) := by
  intro n x hT hx hl
  obtain ⟨j, hj, hn⟩ := h n x hT hx hl
  by_cases hji : j = i
  · rw [hji] at hj hn
    obtain ⟨h1, h2, h3⟩ := hy hj
    refine ⟨i, ⟨?_, ?_⟩, ?_⟩
    · rw [c.setInode_self]
      exact h1
    · rw [c.setInode_self]
      exact h2
    · rw [c.setInode_self]
      exact h3.trans hn
  · refine ⟨j, ⟨?_, ?_⟩, ?_⟩
    · rw [c.setInode_of_ne y hji]
      exact hj.ref
    · rw [c.setInode_of_ne y hji]
      exact hj.valid
    · rw [c.setInode_of_ne y hji]
      exact hn

lemma Tidy.keeps (h : Tidy e T c) (hk : Keeps c c') (hi : c.Held i)
    (hnode : ∀ n, n ≠ (c.inode i).inum → c'.node e n = c.node e n) : Tidy e T c' := by
  have held : ∀ j, c.Held j → c'.Held j ∧ (c'.inode j).inum = (c.inode j).inum := by
    intro j hj
    obtain ⟨d, hd⟩ := hk j
    rw [hd]
    exact ⟨⟨by rw [hd]; exact hj.ref, by rw [hd]; exact hj.valid⟩, rfl⟩
  intro n x hT hx hl
  by_cases hn : n = (c.inode i).inum
  · exact ⟨i, (held i hi).1, (held i hi).2.trans hn.symm⟩
  · rw [hnode n hn] at hx
    obtain ⟨j, hj, hjn⟩ := h n x hT hx hl
    exact ⟨j, (held j hj).1, (held j hj).2.trans hjn⟩

namespace Ctx

section
variable (h : Ctx e H R V c)
include h

lemma keeps (hi : Inv e c') (hk : Keeps c c') (hv : i ∈ V)
    (hnode : ∀ n, n ≠ (c.inode i).inum → c'.node e n = c.node e n) : Ctx e H R V c' := by
  have hk' : ∀ j, (c'.inode j).ref = (c.inode j).ref ∧ (c'.inode j).inum = (c.inode j).inum ∧
      (c'.inode j).valid = (c.inode j).valid := by
    intro j
    obtain ⟨d, hd⟩ := hk j
    rw [hd]
    exact ⟨rfl, rfl, rfl⟩
  refine ⟨hi, fun j => (hk' j).1.trans (h.refs j), fun p hp => (hk' _).2.1.trans (h.num p hp),
    fun j hj => (hk' j).2.1.trans (h.out j hj), fun j hj => (hk' j).2.2.trans (h.valid j hj), h.sub,
    h.tidy.keeps hk (h.held hv) hnode⟩

lemma setInode (hi : Inv e (c.setInode i y))
    (hr : ∀ j, (if j = i then y.ref else (c.inode j).ref) = ((R'.map Prod.fst).count j + H.ref j : Nat))
    (hn : ∀ p ∈ R', if p.1 = i then y.inum = p.2 else p ∈ R)
    (ho : 0 < H.ref i → y.inum = (c.inode i).inum)
    (hv : ∀ j ∈ V', if j = i then y.valid = true else j ∈ V) (hs : ∀ j ∈ V', j ∈ R'.map Prod.fst)
    (ht : Tidy e H.tidy (c.setInode i y)) :
    Ctx e H R' V' (c.setInode i y) := by
  have hself := c.setInode_self i y
  have hne : ∀ j, j ≠ i → (c.setInode i y).inode j = c.inode j := fun j => c.setInode_of_ne y
  refine ⟨hi, fun j => ?_, fun p hp => ?_, fun j hj => ?_, fun j hj => ?_, hs, ht⟩
  · have hj := hr j
    by_cases hji : j = i
    · rw [if_pos hji] at hj
      rw [hji, hself, ← hji]
      exact hj
    · rw [if_neg hji] at hj
      rw [hne j hji]
      exact hj
  · have hp' := hn p hp
    by_cases hpi : p.1 = i
    · rw [if_pos hpi] at hp'
      rw [hpi, hself]
      exact hp'
    · rw [if_neg hpi] at hp'
      rw [hne _ hpi]
      exact h.num p hp'
  · by_cases hji : j = i
    · rw [hji] at hj ⊢
      rw [hself, ho hj]
      exact h.out i hj
    · rw [hne j hji]
      exact h.out j hj
  · have hj' := hv j hj
    by_cases hji : j = i
    · rw [if_pos hji] at hj'
      rw [hji, hself]
      exact hj'
    · rw [if_neg hji] at hj'
      rw [hne j hji]
      exact h.valid j hj'

lemma setInode_same (hi : Inv e (c.setInode i y))
    (hr : y.ref = (c.inode i).ref) (hn : y.inum = (c.inode i).inum)
    (hv : (c.inode i).valid = true → y.valid = true) : Ctx e H R V (c.setInode i y) := by
  refine h.setInode hi (fun j => ?_) (fun p hp => ?_) (fun _ => hn) (fun j hj => ?_) h.sub
    (h.tidy.setInode fun hh => ⟨by rw [hr]; exact hh.ref, hv hh.valid, hn⟩)
  · split
    · next hji => rw [hji, hr]; exact h.refs i
    · exact h.refs j
  · split
    · next hpi => rw [hn, ← hpi]; exact h.num p hp
    · exact hp
  · split
    · next hji => exact hv (by rw [← hji]; exact h.valid j hj)
    · exact hj

lemma known (hi : i ∈ R.map Prod.fst) (hv : (c.inode i).valid = true) : Ctx e H R (i :: V) c := by
  refine ⟨h.inv, h.refs, h.num, h.out, fun j hj => ?_, fun j hj => ?_, h.tidy⟩
  · rcases mem_cons.mp hj with hj | hj
    · rw [hj]; exact hv
    · exact h.valid j hj
  · rcases mem_cons.mp hj with hj | hj
    · rw [hj]; exact hi
    · exact h.sub j hj

end

end Ctx

/-! ## new references -/

lemma same_setInode (c : Core) (i : Ip) (y : Inode) : c.Same (c.setInode i y) := ⟨rfl, rfl, rfl⟩

lemma refs_cons {r : Ip → Int} {x : Int}
    (h : ∀ j, r j = ((R.map Prod.fst).count j + H.ref j : Nat))
    (hx : x = ((R.map Prod.fst).count i + H.ref i : Nat) + 1) (j : Ip) :
    (if j = i then x else r j) = ((((i, n) :: R).map Prod.fst).count j + H.ref j : Nat) := by
  show _ = (((i :: R.map Prod.fst).count j + H.ref j : Nat) : Int)
  by_cases hji : j = i
  · rw [if_pos hji, hx, hji, count_cons_self]
    omega
  · rw [if_neg hji, count_cons_of_ne (Ne.symm hji)]
    exact h j

lemma mem_fst_cons {p : Ip × Nat} (hj : j ∈ R.map Prod.fst) : j ∈ (p :: R).map Prod.fst :=
  mem_cons_of_mem _ hj

lemma mem_fst_head : i ∈ ((i, n) :: R).map Prod.fst := mem_cons_self

lemma Ctx.inc (h : Ctx e H R V c) (hi : 0 < (c.inode i).ref) (hn : (c.inode i).inum = n) :
    Ctx e H ((i, n) :: R) V (c.setInode i { c.inode i with ref := (c.inode i).ref + 1 }) := by
  refine h.setInode ?_ (refs_cons h.refs (congrArg (· + 1) (h.refs i))) (fun p hp => ?_)
    (fun _ => rfl) (fun j hj => ?_) (fun j hj => mem_fst_cons (h.sub j hj))
    (h.tidy.setInode fun hh => ⟨Int.lt_trans hi (Int.lt_succ _), hh.valid, rfl⟩)
  · exact h.inv.setInode_same (fun _ hv => (h.inv.copy i ⟨hi, hv⟩).of_eq rfl rfl) rfl fun _ => hi
  · split
    · next hpi =>
      rcases mem_cons.mp hp with hp | hp
      · rw [hp]; exact hn
      · rw [← hpi]; exact h.num p hp
    · next hpi =>
      rcases mem_cons.mp hp with hp | hp
      · rw [hp] at hpi
        exact absurd rfl hpi
      · exact hp
  · split
    · next hji => rw [← hji]; exact h.valid j hj
    · exact hj

lemma does_idup (h : Ctx e H R V c) (hi : (i, n) ∈ R) :
    Runs E (idup i) (fun j c' => j = i ∧ Ctx e H ((i, n) :: R) V c' ∧ c.Same c') c := by
  unfold idup
  exact does_modify_seq (does_pure ⟨rfl, h.inc (h.ref_pos (mem_map_of_mem hi)) (h.num _ hi), same_setInode c i _⟩)

/-- which entries are locked. -/
def Core.locks (c : Core) (i : Ip) : Bool := (c.inode i).locked

lemma locks_setInode : (c.setInode i y).locks = update c.locks i y.locked := by
  funext j
  by_cases hj : j = i
  · rw [hj, update_self, Core.locks, c.setInode_self]
  · rw [update_of_ne hj, Core.locks, c.setInode_of_ne y hj, Core.locks]

lemma locks_keep (hy : y.locked = (c.inode i).locked) : (c.setInode i y).locks = c.locks := by
  rw [locks_setInode, hy]
  exact update_eq_self ..

lemma does_iget_room {E : Stop → Prop} (hg : E (.panic "iget: no inodes") ∨ ∃ j, (c.inode j).ref = 0)
    (h : Ctx e H R V c) :
    Runs E (iget n) (fun i c' => (Ctx e H ((i, n) :: R) V c' ∧ c.Same c') ∧ c'.locks = c.locks) c := by
  unfold iget
  apply does_get
  cases hc : c.cached n with
  | some i =>
    exact does_modify_seq (does_pure ⟨⟨h.inc (Core.cached_some hc).1 (Core.cached_some hc).2,
      same_setInode c i _⟩, locks_keep rfl⟩)
  | none =>
    cases he : c.empty with
    | none =>
      refine does_throw (hg.resolve_right fun ⟨j, hj⟩ => ?_)
      exact absurd (decide_eq_true hj) (List.find?_eq_none.mp he j (mem_finRange j))
    | some i =>
      have hz := Core.empty_some he
      have hfree : ¬ (i ∈ R.map Prod.fst ∨ 0 < H.ref i) := by
        rw [← h.ref_pos_iff]
        omega
      have hni := fun hm => hfree (.inl hm)
      refine does_modify_seq (does_pure ⟨⟨h.setInode ?_ (refs_cons h.refs ?_) (fun p hp => ?_)
        (fun hr => absurd (.inr hr) hfree) (fun j hj => ?_) (fun j hj => mem_fst_cons (h.sub j hj))
        (h.tidy.setInode fun hh => absurd hh.ref (by omega)), same_setInode c i _⟩, locks_keep rfl⟩)
      · exact h.inv.setInode (fun _ hv => by cases hv) fun _ j _ hr => Core.cached_none hc j hr
      · rw [← h.refs i, hz]
        rfl
      · split
        · next hpi =>
          rcases mem_cons.mp hp with hp | hp
          · rw [hp]
          · exact absurd (hpi ▸ mem_map_of_mem hp) hni
        · next hpi =>
          rcases mem_cons.mp hp with hp | hp
          · rw [hp] at hpi
            exact absurd rfl hpi
          · exact hp
      · rw [if_neg]
        · exact hj
        · intro hji
          exact hni (hji ▸ h.sub j hj)

lemma does_iget {E : Stop → Prop} [Looks E] (h : Ctx e H R V c) :
    Runs E (iget n) (fun i c' => Ctx e H ((i, n) :: R) V c' ∧ c.Same c') c :=
  (does_iget_room (.inl Looks.iget) h).mono fun _ _ hq => hq.1

/-! ## a new inode -/

lemma Sound.renew (h : Inv e c) (hno : ∀ i, c.Held i → (c.inode i).inum ≠ n)
    (hold : ∀ x, own e c.dinode c.data (.inode n x) = none) (ha : ∀ k, d.addrs k = 0)
    (hz : d.type ≠ 0 → d.size = 0) : Inv e (c.setDinode n d) := by
  have hnew : ∀ m, (c.setDinode n d).dinode m = if m = n then d else c.dinode m :=
    fun m => update_apply _ _ _ _
  have hown : ∀ q, own e (c.setDinode n d).dinode c.data q = own e c.dinode c.data q := by
    intro q
    cases q with
    | fixed => rfl
    | inode m x =>
      by_cases hm : m = n
      · rw [hm, hold]
        show (if _ then nz (Dinode.block _ c.data x) else none) = none
        rw [hnew, if_pos rfl, block_of_addrs ha]
        exact ite_self _
      · exact own_frame (by rw [hnew, if_neg hm]) fun _ _ => rfl
  refine ⟨h.owns.reframe hown fun _ _ => rfl, fun m bn hm hty hdev hs => ?_, fun i hi => ?_, h.apart⟩
  · rw [hnew] at hty hdev hs
    split at hs
    · next hmn =>
      rw [if_pos hmn] at hty
      rw [hz hty] at hs
      exact absurd hs (Nat.not_lt_zero _)
    · next hmn =>
      rw [if_neg hmn] at hty hdev
      obtain ⟨b, hb⟩ := h.full m bn hm hty hdev hs
      exact ⟨b, (hown _).trans hb⟩
  · have hc := h.copy i ⟨hi.ref, hi.valid⟩
    refine ⟨hc.inum_lt, ?_, hc.type_ne⟩
    rw [hnew]
    exact hc.same.trans (if_neg (hno i ⟨hi.ref, hi.valid⟩)).symm

lemma Sound.not_held (h : Inv e c) (hn : (c.dinode n).type = 0) (hi : c.Held i) : (c.inode i).inum ≠ n := by
  intro hin
  have hc := h.copy i hi
  have hty := hc.type_ne
  rw [hc.same, hin] at hty
  exact hty hn

lemma Sound.ialloc (h : Inv e c) (hn : (c.dinode n).type = 0) (type : Int) :
    Inv e (c.setDinode n { Dinode.zero with type := type }) :=
  h.renew (fun _ hi => h.not_held hn hi) (fun _ => if_neg fun hl => hl.2 hn) (fun _ => rfl) fun _ => rfl

/-- the inode `n` is left out of what is known to be held. -/
def Holders.except (H : Holders) (n : Nat) : Holders := { H with tidy := fun m => H.tidy m ∧ m ≠ n }

lemma Ctx.linked (h : Ctx e (H.except n) R V c) (hn : ∀ x, c.node e n = some x → x.d.nlink ≠ 0) : Ctx e H R V c := by
  refine ⟨h.inv, h.refs, h.num, h.out, h.valid, h.sub, fun m x hT hx hl => ?_⟩
  by_cases hm : m = n
  · rw [hm] at hx
    exact absurd hl (hn x hx)
  · exact h.tidy m x ⟨hT, hm⟩ hx hl

/-- one inode of the table has changed, and nothing else on the disk. -/
structure Touched (n : Nat) (d : Dinode) (c c' : Core) : Prop where
  used : c'.used = c.used
  data : c'.data = c.data
  dinode : c'.dinode = Function.update c.dinode n d

lemma Touched.same {c'' : Core} (h : Touched n d c c') (h' : c'.Same c'') : Touched n d c c'' :=
  ⟨h'.used.trans h.used, h'.data.trans h.data, h'.dinode.trans h.dinode⟩

lemma Touched.node (h : Touched n d c c') (hn : n < e.ninodes) (ht : d.type ≠ 0) :
    c'.node e = update (c.node e) n (some (d.node c.data)) := by
  funext m
  show nodeAt e c'.dinode c'.data m = _
  rw [h.dinode, h.data, update_apply]
  split
  · next hm =>
    rw [hm]
    apply (nodeAt_live hn (by rw [update_self]; exact ht)).trans
    rw [update_self]
  · next hm => exact nodeAt_frame (update_of_ne hm _ _) fun _ _ _ => rfl

lemma does_ialloc (h : Ctx e H R V c) {type : Int} (ht : type ≠ 0) :
    Runs E (ialloc e type) (fun i c' => ∃ n, n ≠ 0 ∧ n < e.ninodes ∧ c.node e n = none ∧
      Ctx e (H.except n) ((i, n) :: R) V c' ∧
      Touched n { Dinode.zero with type := type } c c') c := by
  unfold Fs.ialloc
  apply does_get
  cases hf : c.freeInode e with
  | none => exact does_fail (by decide)
  | some n =>
    have hn : n < e.ninodes := mem_range.mp (mem_of_find?_eq_some hf)
    have hfree := (Core.freeInode_some hf).2
    generalize hd : ({ Dinode.zero with type := type } : Dinode) = d
    have hty : d.type ≠ 0 := by rw [← hd]; exact ht
    have htouch : Touched n d c (c.setDinode n d) := ⟨rfl, rfl, rfl⟩
    have h1 : Ctx e (H.except n) R V (c.setDinode n d) := by
      refine ⟨by rw [← hd]; exact h.inv.ialloc hfree type, h.refs, h.num, h.out, h.valid, h.sub,
        fun m x hm hx hl => ?_⟩
      rw [htouch.node hn hty, update_of_ne hm.2] at hx
      obtain ⟨i, hi, hin⟩ := h.tidy m x hm.1 hx hl
      exact ⟨i, ⟨hi.ref, hi.valid⟩, hin⟩
    refine does_modify_seq ((Runs.any (does_logWrite _)).seq fun _ c' hc => ?_)
    rw [hc]
    exact (does_iget h1).mono fun i c' ⟨h', hs⟩ =>
      ⟨n, (Core.freeInode_some hf).1, hn, nodeAt_none fun hl => hl.2 hfree, h', htouch.same hs⟩

/-! ## locks -/

lemma Ctx.lock (h : Ctx e H R V c) (b : Bool) : Ctx e H R V (c.setInode i { c.inode i with locked := b }) := by
  refine h.setInode_same (h.inv.setInode_same (fun hr hv => ?_) rfl fun hr => hr) rfl rfl fun hv => hv
  exact (h.inv.copy i ⟨hr, hv⟩).of_eq rfl rfl

lemma does_acquire (h : Ctx e H R V c) : Runs E (acquire i) (fun _ c' => Ctx e H R V c' ∧ c.Same c') c := by
  unfold acquire
  exact does_get (does_ite (fun _ => does_fail (by decide)) fun _ => does_modify ⟨h.lock true, same_setInode c i _⟩)

/-- `ilock` of the inode `n` will not fail for its type. -/
def Live (e : Env) (E : Stop → Prop) (c : Core) (n : Nat) : Prop :=
  E (.panic "ilock: no type") ∨ c.node e n ≠ none

lemma Live.same (h : Live e E c n) (hs : c.Same c') : Live e E c' n := by
  unfold Live
  rw [hs.node]
  exact h

section
variable (h : Ctx e H R V c) (hi : (i, n) ∈ R) (hl : Live e E c n)
include h hi hl

lemma does_load : Runs E (load e i) (fun _ c' => Ctx e H R (i :: V) c' ∧ c.Same c') c := by
  have hm : i ∈ R.map Prod.fst := mem_map_of_mem hi
  have hn : (c.inode i).inum = n := h.num _ hi
  unfold load
  refine does_get (does_ite (fun hv => does_pure ⟨h.known hm hv, .refl c⟩) fun hv => ?_)
  refine does_ite (fun _ => does_fail (by decide)) fun hlt => does_modify_seq ?_
  refine does_ite (fun ht => ?_) fun ht => does_pure ⟨Ctx.known ?_ hm ?_, same_setInode c i _⟩
  · rcases hl with hl | hl
    · exact does_throw hl
    · refine absurd (nodeAt_none fun hn' => hn'.2 ?_) hl
      rw [← hn]
      exact ht
  · refine h.setInode_same (h.inv.setInode_same (fun _ _ => ?_) rfl fun hr => hr) rfl rfl fun _ => rfl
    exact ⟨Nat.lt_of_not_le hlt, rfl, ht⟩
  · rw [c.setInode_self]

lemma does_ilock : Runs E (ilock e i) (fun _ c' => Ctx e H R (i :: V) c' ∧ c.Same c') c := by
  unfold ilock
  refine does_get (does_ite (fun _ => does_fail (by decide)) fun _ => ?_)
  refine (does_acquire h).seq fun _ c1 ⟨h1, hs1⟩ => ?_
  exact (does_load h1 hi (hl.same hs1)).mono fun _ c2 ⟨h2, hs2⟩ => ⟨h2, hs1.trans hs2⟩

end

lemma does_iunlock (h : Ctx e H R V c) : Runs E (iunlock i) (fun _ c' => Ctx e H R V c' ∧ c.Same c') c := by
  unfold iunlock
  exact does_get (does_ite (fun _ => does_fail (by decide)) fun _ => does_modify ⟨h.lock false, same_setInode c i _⟩)

/-! ## `iput` -/

lemma Sound.ifree (h : Inv e c) (hi : c.Held i) (ha : ∀ k, (c.inode i).d.addrs k = 0) :
    Inv e ((c.setInode i { c.inode i with d := { (c.inode i).d with type := 0 }, valid := false }).setDinode
      (c.inode i).inum { (c.inode i).d with type := 0 }) := by
  have hc := h.copy i hi
  have h' : Inv e (c.setInode i { c.inode i with d := { (c.inode i).d with type := 0 }, valid := false }) :=
    h.setInode_same (fun _ hv => by cases hv) rfl fun hr => hr
  refine h'.renew (fun j hj => ?_) (fun x => ?_) ha fun ht => absurd rfl ht
  · have hji : j ≠ i := by
      intro hji
      have hv := hj.valid
      rw [hji, c.setInode_self] at hv
      cases hv
    have hr := hj.ref
    rw [c.setInode_of_ne _ hji] at hr ⊢
    exact fun hn => hji (h.apart j i hr hi.ref hn)
  · show own e c.dinode c.data _ = none
    rw [hc.own_eq, block_of_addrs ha]
    rfl

/-- an inode was freed, and its entry is not valid any more. -/
structure Freed (e : Env) (i : Ip) (c c' : Core) : Prop where
  inv : Inv e c'
  gone : c'.node e (c.inode i).inum = none
  others : ∀ n, n ≠ (c.inode i).inum → c'.node e n = c.node e n
  refs : ∀ j, (c'.inode j).ref = (c.inode j).ref ∧ (c'.inode j).inum = (c.inode j).inum
  valid : ∀ j, j ≠ i → (c'.inode j).valid = (c.inode j).valid

lemma does_ifree (h : Inv e c) (hi : c.Held i) : Does (ifree e i) (fun _ c' => Freed e i c c') c := by
  unfold Fs.ifree
  refine (does_itrunc h hi).seq fun _ c1 ⟨h1, hk, ha, hz⟩ => does_modify_seq ?_
  refine (does_iupdate i).seq fun _ c2 hc2 => does_modify ?_
  have hi1 : c1.Held i := by
    obtain ⟨d, hd⟩ := hk i
    exact ⟨by rw [hd]; exact hi.ref, by rw [hd]; exact hi.valid⟩
  have hnum : (c1.inode i).inum = (c.inode i).inum := by
    obtain ⟨d, hd⟩ := hk i
    rw [hd]
  generalize hy : ({ c1.inode i with d := { (c1.inode i).d with type := 0 }, valid := false } : Inode) = y
  have hc : (c2.setInode i { c2.inode i with valid := false }) =
      (c1.setInode i y).setDinode (c1.inode i).inum { (c1.inode i).d with type := 0 } := by
    have hs := c1.setCopy_self i { (c1.inode i).d with type := 0 }
    rw [hc2]
    show Core.setInode (Core.setDinode _ ((c1.setCopy i _).inode i).inum ((c1.setCopy i _).inode i).d) i
      { (c1.setCopy i _).inode i with valid := false } = _
    rw [hs, ← hy]
    unfold Core.setInode Core.setDinode Core.setCopy Core.setInode
    rw [update_idem]
  rw [hc]
  have hT : ∀ m, ((c1.setInode i y).setDinode (c1.inode i).inum
      { (c1.inode i).d with type := 0 }).dinode m =
      if m = (c.inode i).inum then { (c1.inode i).d with type := 0 } else c1.dinode m := by
    intro m
    rw [← hnum]
    exact update_apply _ _ _ _
  refine ⟨by rw [← hy]; exact h1.ifree hi1 hz, nodeAt_none fun hl => hl.2 ?_, fun n hn => ?_,
    fun j => ?_, fun j hj => ?_⟩
  · rw [hT, if_pos rfl]
  · rw [← ha.node hn]
    exact nodeAt_frame (by rw [hT, if_neg hn]) fun _ _ _ => rfl
  · obtain ⟨d, hd⟩ := hk j
    show ((c1.setInode i y).inode j).ref = _ ∧ ((c1.setInode i y).inode j).inum = _
    by_cases hji : j = i
    · rw [hji] at hd ⊢
      rw [c1.setInode_self, ← hy, hd]
      exact ⟨rfl, rfl⟩
    · rw [c1.setInode_of_ne _ hji, hd]
      exact ⟨rfl, rfl⟩
  · obtain ⟨d, hd⟩ := hk j
    show ((c1.setInode i y).inode j).valid = _
    rw [c1.setInode_of_ne _ hj, hd]

section
variable (h : Ctx e H ((i, n) :: R) V c)
include h

lemma Ctx.last : (c.inode i).ref = 1 ↔ ¬ Kept H R n := by
  have hr : (c.inode i).ref = ((i :: R.map Prod.fst).count i + H.ref i : Nat) := h.refs i
  have hn : (c.inode i).inum = n := h.num _ mem_cons_self
  rw [count_cons_self] at hr
  constructor
  · rintro h1 (⟨j, hj, hjn⟩ | ⟨j, hj⟩)
    · have hji : j = i := by
        apply h.inv.apart j i (h.ref_pos_iff.mpr (.inr hj)) (h.ref_pos mem_fst_head)
        rw [h.out j hj, hjn, hn]
      rw [hji] at hj
      omega
    · have hm : j ∈ R.map Prod.fst := mem_map_of_mem hj
      have hji : j = i := by
        apply h.inv.apart j i (h.ref_pos (mem_fst_cons hm)) (h.ref_pos mem_fst_head)
        rw [hn]
        exact h.num _ (mem_cons_of_mem _ hj)
      have hpos := count_pos_iff.mpr hm
      rw [hji] at hpos
      omega
  · intro hk
    have hR : (R.map Prod.fst).count i = 0 := by
      refine count_eq_zero_of_not_mem fun hm => hk (.inr ⟨i, ?_⟩)
      obtain ⟨p, hp, hpi⟩ := mem_map.mp hm
      have hpn : p.2 = n := by
        rw [← h.num p (mem_cons_of_mem _ hp), hpi, hn]
      rw [← hpi, ← hpn]
      exact hp
    have hH : H.ref i = 0 := by
      by_contra h0
      have hpos : 0 < H.ref i := Nat.pos_of_ne_zero h0
      exact hk (.inl ⟨i, hpos, by rw [← h.out i hpos, hn]⟩)
    omega

lemma Ctx.dec (hV : ∀ j ∈ V', j ∈ V ∧ j ∈ R.map Prod.fst)
    (hlast : ∀ x, c.Held i → c.node e n = some x → x.d.nlink = 0 → 1 < (c.inode i).ref) :
    Ctx e H R V' (c.setInode i { c.inode i with ref := (c.inode i).ref - 1 }) := by
  have hr : 0 < (c.inode i).ref := h.ref_pos mem_fst_head
  have hn : (c.inode i).inum = n := h.num _ mem_cons_self
  refine h.setInode ?_ (fun j => ?_) (fun p hp => ?_) (fun _ => rfl) (fun j hj => ?_)
    (fun j hj => (hV j hj).2) fun m x hT hx hl => ?_
  · exact h.inv.setInode_same (fun _ hv => (h.inv.copy i ⟨hr, hv⟩).of_eq rfl rfl) rfl fun _ => hr
  · have hj : (c.inode j).ref = ((i :: R.map Prod.fst).count j + H.ref j : Nat) := h.refs j
    split
    · next hji =>
      rw [hji, count_cons_self] at hj
      rw [hji]
      show (c.inode i).ref - 1 = _
      omega
    · next hji =>
      rw [count_cons_of_ne (Ne.symm hji)] at hj
      exact hj
  · have hp' := h.num p (mem_cons_of_mem _ hp)
    split
    · next hpi => rw [← hpi]; exact hp'
    · exact mem_cons_of_mem _ hp
  · split
    · next hji => rw [← hji]; exact h.valid j (hV j hj).1
    · exact (hV j hj).1
  · obtain ⟨j, hj, hjm⟩ := h.tidy m x hT hx hl
    by_cases hji : j = i
    · rw [hji] at hj hjm
      have h1 := hlast x hj (by rw [← hn, hjm]; exact hx) hl
      refine ⟨i, ⟨?_, ?_⟩, ?_⟩
      · rw [c.setInode_self]
        show 0 < (c.inode i).ref - 1
        omega
      · rw [c.setInode_self]
        exact hj.valid
      · rw [c.setInode_self]
        exact hjm
    · refine ⟨j, ⟨?_, ?_⟩, ?_⟩
      · rw [c.setInode_of_ne _ hji]
        exact hj.ref
      · rw [c.setInode_of_ne _ hji]
        exact hj.valid
      · rw [c.setInode_of_ne _ hji]
        exact hjm

lemma Ctx.freed (hf : Freed e i c c') (hl : (c.inode i).ref = 1)
    (hV : ∀ j ∈ V', j ∈ V ∧ j ∈ R.map Prod.fst) : Ctx e H ((i, n) :: R) V' c' := by
  have hn : (c.inode i).inum = n := h.num _ mem_cons_self
  have hk := h.last.mp hl
  have hni : i ∉ R.map Prod.fst := by
    intro hm
    obtain ⟨p, hp, hpi⟩ := mem_map.mp hm
    refine hk (.inr ⟨p.1, ?_⟩)
    have hpn : p.2 = n := by
      rw [← h.num p (mem_cons_of_mem _ hp), hpi, hn]
    rw [← hpn]
    exact hp
  refine ⟨hf.inv, fun j => (hf.refs j).1.trans (h.refs j), fun p hp => (hf.refs _).2.trans (h.num p hp),
    fun j hj => (hf.refs j).2.trans (h.out j hj), fun j hj => ?_,
    fun j hj => mem_fst_cons (hV j hj).2, fun m x hT hx hx0 => ?_⟩
  · rw [hf.valid j fun hji => hni (hji ▸ (hV j hj).2)]
    exact h.valid j (hV j hj).1
  · have hm : m ≠ (c.inode i).inum := by
      intro hm
      rw [hm, hf.gone] at hx
      cases hx
    rw [hf.others m hm] at hx
    obtain ⟨j, hj, hjm⟩ := h.tidy m x hT hx hx0
    have hji : j ≠ i := by
      intro hji
      rw [hji] at hjm
      exact hm hjm.symm
    refine ⟨j, ⟨?_, ?_⟩, (hf.refs j).2.trans hjm⟩
    · rw [(hf.refs j).1]
      exact hj.ref
    · rw [hf.valid j hji]
      exact hj.valid

lemma Ctx.not_last
    (hno : ¬ ((c.inode i).valid = true ∧ (c.inode i).d.nlink = 0 ∧ (c.inode i).ref = 1))
    (hv : (c.inode i).valid = true) (hx : c.node e n = some x) (hl : x.d.nlink = 0) :
    1 < (c.inode i).ref := by
  have hr : 0 < (c.inode i).ref := h.ref_pos mem_fst_head
  have hn : (c.inode i).inum = n := h.num _ mem_cons_self
  have hnode : c.node e (c.inode i).inum = some ((c.inode i).d.node c.data) :=
    (h.inv.copy i ⟨hr, hv⟩).node_eq
  rw [hn, hx] at hnode
  rw [Option.some.inj hnode] at hl
  have hne : (c.inode i).ref ≠ 1 := fun h1 => hno ⟨hv, hl, h1⟩
  omega

section
variable (hV : ∀ j ∈ V', j ∈ V ∧ j ∈ R.map Prod.fst)
include hV

/-- an inode without links that nobody else holds is freed, if it was read. -/
theorem does_iput : Runs E (iput e i) (fun _ c' => Ctx e H R V' c' ∧ Idle e (Kept H R) c c') c := by
  unfold iput
  refine (does_acquire h).seq fun _ c1 ⟨h1, hs1⟩ => does_get ?_
  have hn : (c1.inode i).inum = n := h1.num _ mem_cons_self
  have hr : 0 < (c1.inode i).ref := h1.ref_pos mem_fst_head
  -- whether or not the inode was freed
  have hfree : Runs E (if (c1.inode i).valid = true ∧ (c1.inode i).d.nlink = 0 ∧ (c1.inode i).ref = 1
      then ifree e i else pure ()) (fun _ c' => Ctx e H ((i, n) :: R) V' c' ∧
        (¬ Kept H R n ∧ (∃ x, c1.node e n = some x ∧ x.d.nlink = 0) ∧ c'.node e n = none ∧
          (∀ m, m ≠ n → c'.node e m = c1.node e m) ∨
        c' = c1 ∧ ¬ ((c1.inode i).valid = true ∧ (c1.inode i).d.nlink = 0 ∧ (c1.inode i).ref = 1)))
      c1 := by
    refine does_ite (fun hlast => ?_) fun hlast => does_pure ⟨h1.weaken fun j hj => (hV j hj).1, .inr ⟨rfl, hlast⟩⟩
    have hh : c1.Held i := ⟨hr, hlast.1⟩
    refine Runs.any ((does_ifree h1.inv hh).mono fun _ c' hf => ⟨h1.freed hf hlast.2.2 hV, .inl ?_⟩)
    have hnode : c1.node e (c1.inode i).inum = some ((c1.inode i).d.node c1.data) :=
      (h1.inv.copy i hh).node_eq
    have hgone := hf.gone
    have hothers := hf.others
    rw [hn] at hnode hgone hothers
    exact ⟨h1.last.mp hlast.2.2, ⟨_, hnode, hlast.2.1⟩, hgone, hothers⟩
  refine hfree.seq fun _ c2 ⟨h2, hd⟩ => does_modify_seq (does_modify ?_)
  have hs2 : c2.Same ((c2.setInode i { c2.inode i with locked := false }).setInode i
      { (c2.setInode i { c2.inode i with locked := false }).inode i with
        ref := ((c2.setInode i { c2.inode i with locked := false }).inode i).ref - 1 }) := ⟨rfl, rfl, rfl⟩
  have hidle : Idle e (Kept H R) c1 c2 := by
    rcases hd with ⟨hk, hx, hgone, hothers⟩ | ⟨hc, -⟩
    · refine ⟨fun m => ?_, fun hsame => ?_⟩
      · by_cases hm : m = n
        · rw [hm]
          exact .inr ⟨hgone, hk, hx⟩
        · exact .inl (hothers m hm)
      · obtain ⟨x, hx, -⟩ := hx
        rw [← hsame, hgone] at hx
        cases hx
    · rw [hc]
      exact .of_same (.refl c1)
  have hall := ((Idle.of_same hs1).trans hidle).trans (.of_same hs2)
  refine ⟨(h2.lock false).dec (fun j hj => ⟨hj, (hV j hj).2⟩) fun x hh hx hl => ?_, hall⟩
  rcases hd with ⟨-, -, hgone, -⟩ | ⟨hc, hno⟩
  · have hx' : c2.node e n = some x := hx
    rw [hgone] at hx'
    cases hx'
  · rw [hc] at hh hx ⊢
    have hv := hh.valid
    rw [c1.setInode_self] at hv ⊢
    exact h1.not_last hno hv hx hl

lemma does_iunlockput : Runs E (iunlockput e i) (fun _ c' => Ctx e H R V' c' ∧ Idle e (Kept H R) c c') c := by
  unfold iunlockput
  refine (does_iunlock h).seq fun _ c1 ⟨h1, hs1⟩ => ?_
  exact (does_iput h1 hV).mono fun _ c2 ⟨h2, hi2⟩ => ⟨h2, (Idle.of_same hs1).trans hi2⟩

end

end

end Xv6.Fs
