import Xv6.Sys.Files

/-!
# Who holds the inodes

An inode is held by the entries of the file table that are open on it, and by the processes whose
current directory it is: `s.iref i` is their number. `Good` is the state between two calls: the
table (`Tab`, `Books`), and, if `J` holds, the file system with these holders (`Fs.Ctx`). A call
lends the file system a reference that some holder has, and takes it back.

With `J := False` nothing is asked of the disk; with `T := True` no inode without links is left that
nobody holds.
-/

namespace Xv6.Fs
open Lib Function List

/-! ## an inode that is held -/

/-- the type of an inode stays, and its content, if `b`. -/
structure Node.Stays (b : Prop) (x y : Node) : Prop where
  type : y.d.type = x.d.type
  content : b → y.bytes = x.bytes ∧ y.d.size = x.d.size ∧ y.blk = x.blk

/-- does the edit write the content of the inode `n`? -/
def Edit.writes (n : Nat) : Edit → Prop
  | .make _ _ _ k _ _ | .link _ k _ | .unlink k _ _ | .write k _ _ => k = n
  | .nolink _ => False

variable {e : Env} {K : Nat → Prop} {o : Option Edit} {c c' : Core} {n : Nat} {x y z : Node} {b : Prop}
  {A A' : Nat → Option Node}

namespace Node.Stays

lemma refl (x : Node) : x.Stays b x := ⟨rfl, fun _ => ⟨rfl, rfl, rfl⟩⟩

lemma trans (h : x.Stays b y) (h' : y.Stays b z) : x.Stays b z := by
  refine ⟨h'.type.trans h.type, fun hb => ?_⟩
  obtain ⟨h1, h2, h3⟩ := h.content hb
  obtain ⟨h1', h2', h3'⟩ := h'.content hb
  exact ⟨h1'.trans h1, h2'.trans h2, h3'.trans h3⟩

lemma relink (x : Node) (v : Int) : x.Stays b (x.relink v) := ⟨rfl, fun _ => ⟨rfl, rfl, rfl⟩⟩

end Node.Stays

lemma stays_update {m : Nat} (hx : A n = some x) (hA : A' = update A m (some z))
    (ht : m = n → z.d.type = x.d.type) (hb : b → m ≠ n) : ∃ y, A' n = some y ∧ x.Stays b y := by
  rw [hA]
  by_cases hm : m = n
  · refine ⟨z, ?_, ht hm, fun h => absurd hm (hb h)⟩
    rw [hm, update_self]
  · refine ⟨x, ?_, .refl x⟩
    rw [update_of_ne (Ne.symm hm)]
    exact hx

lemma Relinked.stays {m : Nat} {v : Int} (h : Relinked m v A A') (hx : A n = some x) :
    ∃ y, A' n = some y ∧ x.Stays b y := by
  obtain ⟨u, hu, hA⟩ := h
  rw [hA]
  by_cases hm : n = m
  · rw [← hm, hx] at hu
    cases hu
    exact ⟨_, by rw [hm, update_self], .relink x v⟩
  · exact ⟨x, by rw [update_of_ne hm]; exact hx, .refl x⟩

/-- **A held inode stays allocated**, with its type; its content changes where the edit writes it. -/
theorem Effect.kept (h : Effect e K o c c') (hn : K n) (hx : c.node e n = some x) :
    ∃ y, c'.node e n = some y ∧ x.Stays (∀ a, o = some a → ¬ a.writes n) y := by
  -- an idle step keeps the node
  have idle : ∀ {K' : Nat → Prop} {c c' : Core} {x : Node}, (∀ k, K k → K' k) → Idle e K' c c' →
      c.node e n = some x → c'.node e n = some x := by
    intro K' c c' x hK hi hx
    rw [hi.kept (hK n hn)]
    exact hx
  have same : ∀ {c c' : Core} {x : Node}, Idle e K c c' → c.node e n = some x → c'.node e n = some x :=
    idle fun _ hk => hk
  generalize hb : (∀ a, o = some a → ¬ a.writes n) = b
  cases h with
  | idle h => exact ⟨x, same h hx, .refl x⟩
  | make h1 hm h2 =>
    have hx1 := same h1 hx
    obtain ⟨u, v, z, hu, -, -, hz, hA⟩ := hm.nodes
    have hfree := hm.free
    refine (stays_update (b := b) (x := x) ?_ hA (fun hnn => ?_) fun h hnn => ?_).imp
      fun y ⟨hy, hs⟩ => ⟨same h2 hy, hs⟩
    · refine (update_of_ne (fun h => ?_) _ _).trans hx1
      rw [← h, hx1] at hfree
      cases hfree
    · rw [hnn, hx1] at hu
      cases hu
      rw [hz.fields.1]
      split <;> rfl
    · rw [← hb] at h
      exact h _ rfl hnn
  | link h1 ht hm h2 hen h3 =>
    obtain ⟨y, hy, hs⟩ := hm.stays (b := b) (same h1 hx)
    have hy3 := same h2 hy
    obtain ⟨u, v, hu, -, hv, hA⟩ := hen
    refine (stays_update (b := b) hy3 hA (fun hnn => ?_) fun h hnn => ?_).imp
      fun z ⟨hz, hs'⟩ => ⟨same h3 hz, hs.trans hs'⟩
    · rw [hnn, hy3] at hu
      cases hu
      exact hv.fields.1
    · rw [← hb] at h
      exact h _ rfl hnn
  | nolink h1 hm hd hu h2 hd' hv h3 =>
    obtain ⟨u, hu1, hn2, hu3, hn4⟩ := nolink_nodes hm hd hu h2 hd' hv
    obtain ⟨y, hy, hs⟩ := Relinked.stays (b := b) ⟨u, hu1, hn2⟩ (same h1 hx)
    obtain ⟨z, hz, hs'⟩ := Relinked.stays (b := b) ⟨_, hu3, hn4⟩ (idle (fun _ hk => .inl hk) h2 hy)
    exact ⟨z, same h3 hz, hs.trans hs'⟩
  | unlink h1 hcl h2 hm h3 =>
    have hx1 := same h1 hx
    obtain ⟨u, v, w, off, hu, -, -, -, -, -, -, -, -, -, hw, hA⟩ := hcl
    refine Exists.elim (stays_update (b := b) hx1 hA (fun hnn => ?_) fun h hnn => ?_) fun y ⟨hy, hs⟩ =>
      (hm.stays (b := b) (same h2 hy)).imp fun z ⟨hz, hs'⟩ => ⟨same h3 hz, hs.trans hs'⟩
    · rw [hnn, hx1] at hu
      cases hu
      split
      · show w.d.type = _
        rw [hw.fields]
      · rw [hw.fields]
    · rw [← hb] at h
      exact h _ rfl hnn
  | write h1 hx' ht hoff hmax hy hnode h2 =>
    have hx1 := same h1 hx
    refine (stays_update (b := b) hx1 hnode (fun hnn => ?_) fun h hnn => ?_).imp fun z ⟨hz, hs⟩ => ⟨same h2 hz, hs⟩
    · rw [hnn, hx1] at hx'
      cases hx'
      rw [hy.fields]
    · rw [← hb] at h
      exact h _ rfl hnn

/-! ## references that are lent -/

def hold (r : Ip → Int) (c : Core) (T : Prop) : Holders :=
  ⟨fun i => (r i).toNat, fun i => (c.inode i).inum, fun _ => T⟩

/-- without one reference to `i`. -/
def less (r : Ip → Int) (i : Ip) : Ip → Int := fun j => r j - hit j (some i)

variable {T : Prop} {i j : Ip} {R : Refs} {V V' : List Ip} {c₀ : Core} {r r' : Ip → Int}

lemma less_nonneg (hr : ∀ j, 0 ≤ r j) (hi : 0 < r i) (j : Ip) : 0 ≤ less r i j := by
  have := hr j
  unfold less
  rw [hit_some]
  split
  · next h => rw [h]; omega
  · omega

lemma less_pos (h : 0 < less r i j) : 0 < r j := by
  have := hit_nonneg j (some i)
  unfold less at h
  omega

lemma less_of_ne (h : j ≠ i) : less r i j = r j := by
  unfold less
  rw [hit_some, if_neg h, Int.sub_zero]

lemma Ctx.lend (h : Ctx e (hold r c₀ T) R V c) (hi : 0 < r i) :
    Ctx e (hold (less r i) c₀ T) ((i, (c₀.inode i).inum) :: R) V c := by
  refine ⟨h.inv, fun j => ?_, fun p hp => ?_, fun j hj => ?_, h.valid, fun j hj => mem_fst_cons (h.sub j hj), h.tidy⟩
  · have hr := h.refs j
    show _ = (((i :: R.map Prod.fst).count j + (less r i j).toNat : Nat) : Int)
    replace hr : (c.inode j).ref = (((R.map Prod.fst).count j + (r j).toNat : Nat) : Int) := hr
    by_cases hji : j = i
    · rw [hji] at hr ⊢
      rw [count_cons_self]
      unfold less
      rw [hit_self]
      omega
    · rw [count_cons_of_ne (Ne.symm hji), less_of_ne hji]
      exact hr
  · rcases mem_cons.mp hp with hp | hp
    · rw [hp]
      exact h.out i (Int.lt_toNat.mpr hi)
    · exact h.num p hp
  · exact h.out j (Int.lt_toNat.mpr (less_pos (Int.lt_toNat.mp hj)))

lemma Ctx.give (h : Ctx e (hold r c₀ T) ((i, n) :: R) V c) (hr : ∀ j, 0 ≤ r j)
    (hr' : ∀ j, r' j = r j + hit j (some i)) (hV : ∀ j ∈ V', j ∈ V ∧ j ∈ R.map Prod.fst) :
    Ctx e (hold r' c T) R V' c := by
  refine ⟨h.inv, fun j => ?_, fun p hp => h.num p (mem_cons_of_mem _ hp), fun _ _ => rfl,
    fun j hj => h.valid j (hV j hj).1, fun j hj => (hV j hj).2, h.tidy⟩
  have h1 := h.refs j
  have h2 := hr j
  show _ = (((R.map Prod.fst).count j + (r' j).toNat : Nat) : Int)
  replace h1 : (c.inode j).ref = (((i :: R.map Prod.fst).count j + (r j).toNat : Nat) : Int) := h1
  rw [hr' j, hit_some]
  split
  · next hji =>
    rw [hji] at h1 h2 ⊢
    rw [count_cons_self] at h1
    omega
  · next hji =>
    rw [count_cons_of_ne (Ne.symm hji)] at h1
    omega

lemma Ctx.renew (h : Ctx e (hold r c₀ T) R V c) (hr : ∀ j, r' j = r j) : Ctx e (hold r' c T) R V c :=
  ⟨h.inv, fun j => (h.refs j).trans (by show _ = ((_ + (r' j).toNat : Nat) : Int); rw [hr j]; rfl), h.num,
    fun _ _ => rfl, h.valid, h.sub, h.tidy⟩

lemma kept_lend (hn : ∃ j, 0 < r j ∧ (c.inode j).inum = n) :
    Kept (hold (less r i) c T) [(i, (c.inode i).inum)] n := by
  obtain ⟨j, hj, hjn⟩ := hn
  by_cases hji : j = i
  · rw [hji] at hjn
    exact .inr ⟨i, by rw [hjn]; exact mem_singleton_self _⟩
  · refine .inl ⟨j, Int.lt_toNat.mpr ?_, hjn⟩
    rw [less_of_ne hji]
    exact hj

lemma Ctx.inum_eq (h : Ctx e (hold (less r i) c₀ T) R V c) (hi : (i, (c₀.inode i).inum) ∈ R)
    (hj : 0 < r j) : (c.inode j).inum = (c₀.inode j).inum := by
  by_cases hji : j = i
  · rw [hji]
    exact h.num _ hi
  · refine h.out j (Int.lt_toNat.mpr ?_)
    rw [less_of_ne hji]
    exact hj

end Xv6.Fs

namespace Xv6.Sys
open Lib Fs Function List

/-- the number of holders of the entry `i` of the inode cache. -/
def State.iref (s : State) (i : Ip) : Int := refs (fun f => (s.file f).inode) i + refs s.cwd i

/-- the inode `n` is open, or the current directory of a process. -/
def State.held (s : State) (n : Nat) : Prop := ∃ i, 0 < s.iref i ∧ (s.fs.core.inode i).inum = n

variable {e : Env} {J T : Prop} {E : Stop → Prop} {d : Fp → Int} {s s' : State} {f : Fp} {p : Slot}
  {fd : Fd} {x : File} {i j ip : Ip} {n m : Nat} {R : Refs} {V V' : List Ip} {c c₀ c' : Core}
  {o : Option Edit}

/-! ## counting the holders -/

lemma State.iref_nonneg (s : State) (i : Ip) : 0 ≤ s.iref i :=
  Int.add_nonneg (refs_nonneg _ i) (refs_nonneg _ i)

lemma State.iref_cwd (h : s.cwd p = some i) : 0 < s.iref i :=
  Int.add_pos_of_nonneg_of_pos (refs_nonneg _ i) (refs_pos.mpr ⟨p, h⟩)

lemma State.iref_file (h : (s.file f).inode = some i) : 0 < s.iref i :=
  Int.add_pos_of_pos_of_nonneg (refs_pos.mpr ⟨f, h⟩) (refs_nonneg _ i)

lemma State.iref_setFile (s : State) (f : Fp) (x : File) (i : Ip) :
    (s.setFile f x).iref i = s.iref i - hit i (s.file f).inode + hit i x.inode := by
  have hfun : (fun g => ((s.setFile f x).file g).inode) = update (fun g => (s.file g).inode) f x.inode := by
    funext g
    by_cases hg : g = f
    · rw [hg, s.setFile_self, update_self]
    · rw [s.setFile_of_ne x hg, update_of_ne hg]
  unfold State.iref
  rw [hfun, refs_update]
  show _ + refs s.cwd i = _
  omega

lemma State.iref_setCwd (s : State) (p : Slot) (o : Option Ip) (i : Ip) :
    (s.setCwd p o).iref i = s.iref i - hit i (s.cwd p) + hit i o := by
  have h := refs_update s.cwd p o i
  unfold State.iref
  show refs (fun f => (s.file f).inode) i + refs (update s.cwd p o) i = _
  omega

lemma State.less_file (hp : s.cwd p = some i) (hf : (s.file f).inode = some j) : 0 < less s.iref i j := by
  have h1 : 0 < refs (fun f => (s.file f).inode) j := refs_pos.mpr ⟨f, hf⟩
  have h2 : 0 < refs s.cwd i := refs_pos.mpr ⟨p, hp⟩
  have h3 := refs_nonneg s.cwd j
  unfold less State.iref
  rw [hit_some]
  split
  · next hji =>
    rw [hji] at h1 ⊢
    omega
  · omega

lemma State.less_cwd {q : Slot} (hp : s.cwd p = some i) (hq : s.cwd q = some j) (hne : q ≠ p) :
    0 < less s.iref i j := by
  have h1 := refs_update s.cwd p none j
  have h2 : 0 < refs (update s.cwd p none) j := by
    refine refs_pos.mpr ⟨q, ?_⟩
    rw [update_of_ne hne]
    exact hq
  have h3 := refs_nonneg (fun f => (s.file f).inode) j
  rw [hp, hit_none] at h1
  unfold less State.iref
  omega

lemma Aside.iref (h : Aside s s') (i : Ip) : s'.iref i = s.iref i := by
  unfold State.iref
  rw [h.cwd]
  simp only [h.inode]

/-! ## the state between two calls -/

structure Good (e : Env) (J T : Prop) (s : State) : Prop where
  tab : Tab (fun _ => 0) [] s
  books : Books s
  ctx : J → Ctx e (hold s.iref s.fs.core T) [] [] s.fs.core
  alive : J → ∀ n, s.held n → s.fs.core.node e n ≠ none
  /-- a directory is not open for writing. -/
  nodir : J → ∀ f i y, (s.file f).inode = some i → (s.file f).writable = true →
    s.fs.core.node e (s.fs.core.inode i).inum = some y → y.d.type ≠ T_DIR

/-- what a call leaves of the holders: each of them was there, or is new. -/
structure Moves (e : Env) (K : Nat → Prop) (s s' : State) : Prop where
  inode : ∀ i, 0 < s'.iref i →
    (0 < s.iref i ∧ (s'.fs.core.inode i).inum = (s.fs.core.inode i).inum ∧ K (s.fs.core.inode i).inum) ∨
    s'.fs.core.node e (s'.fs.core.inode i).inum ≠ none
  file : ∀ f i, (s'.file f).inode = some i → (s'.file f).writable = true →
    ((s.file f).inode = some i ∧ (s.file f).writable = true ∧
      (s'.fs.core.inode i).inum = (s.fs.core.inode i).inum ∧ K (s.fs.core.inode i).inum) ∨
    ∀ y, s'.fs.core.node e (s'.fs.core.inode i).inum = some y → y.d.type ≠ T_DIR

lemma Good.turn (h : Good e J T s) (s' : State) (ht : Tab (fun _ => 0) [] s') (hb : Books s')
    (hc : J → Ctx e (hold s'.iref s'.fs.core T) [] [] s'.fs.core)
    (hm : J → ∃ K o, Effect e K o s.fs.core s'.fs.core ∧ Moves e K s s') : Good e J T s' := by
  refine ⟨ht, hb, hc, fun hj n ⟨i, hi, hn⟩ => ?_, fun hj f i y hf hw hy => ?_⟩
  · obtain ⟨K, o, he, hm⟩ := hm hj
    rcases hm.inode i hi with ⟨h1, h2, h3⟩ | h1
    · obtain ⟨x, hx⟩ := Option.ne_none_iff_exists'.mp (h.alive hj _ ⟨i, h1, rfl⟩)
      obtain ⟨y, hy, -⟩ := he.kept h3 hx
      rw [← hn, h2, hy]
      exact Option.some_ne_none y
    · rw [← hn]
      exact h1
  · obtain ⟨K, o, he, hm⟩ := hm hj
    rcases hm.file f i hf hw with ⟨h1, h2, h3, h4⟩ | h1
    · obtain ⟨x, hx⟩ := Option.ne_none_iff_exists'.mp (h.alive hj _ ⟨i, State.iref_file h1, rfl⟩)
      obtain ⟨y', hy', hs⟩ := he.kept h4 hx
      rw [h3, hy'] at hy
      cases hy
      rw [hs.type]
      exact h.nodir hj f i x h1 h2 hx
    · exact h1 y hy

lemma Aside.moves {K : Nat → Prop} (ha : Aside s s')
    (hn : ∀ i, 0 < s.iref i → (s'.fs.core.inode i).inum = (s.fs.core.inode i).inum)
    (hK : ∀ n, s.held n → K n) : Moves e K s s' := by
  refine ⟨fun i hi => .inl ?_, fun f i hf hw => .inl ?_⟩
  · rw [ha.iref] at hi
    exact ⟨hi, hn i hi, hK _ ⟨i, hi, rfl⟩⟩
  · have hf' := (ha.inode f).symm.trans hf
    have hi := State.iref_file hf'
    rw [ha.writable f i hf'] at hw
    exact ⟨hf', hw, hn i hi, hK _ ⟨i, hi, rfl⟩⟩

lemma Good.lend (h : Good e J T s) (hj : J) (hi : 0 < s.iref i) :
    Ctx e (hold (less s.iref i) s.fs.core T) [(i, (s.fs.core.inode i).inum)] [] s.fs.core :=
  (h.ctx hj).lend hi

lemma Good.back (h : Good e J T s) (hi : 0 < s.iref i) (ht : Tab (fun _ => 0) [] s') (hb : Books s')
    (ha : Aside s s')
    (hc : J → Ctx e (hold (less s.iref i) s.fs.core T) [(i, (s.fs.core.inode i).inum)] V s'.fs.core ∧
      ∃ o, Effect e (Kept (hold (less s.iref i) s.fs.core T) [(i, (s.fs.core.inode i).inum)]) o
        s.fs.core s'.fs.core) : Good e J T s' := by
  refine h.turn s' ht hb (fun hj => ?_) fun hj => ?_
  · refine (hc hj).1.give (less_nonneg s.iref_nonneg hi) (fun j => ?_) fun _ hv => by cases hv
    rw [ha.iref]
    unfold less
    omega
  · obtain ⟨o, he⟩ := (hc hj).2
    exact ⟨_, o, he, ha.moves (fun j hj' => (hc hj).1.inum_eq (mem_singleton_self _) hj') fun n hn => kept_lend hn⟩

end Xv6.Sys
