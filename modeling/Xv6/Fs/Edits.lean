import Xv6.Fs.Names

/-!
# What a call does to the disk

A call that changes the disk makes one `Edit`: it makes an inode, adds or removes a name, or writes
content. `Effect e K x c c'` says what the nodes are after the edit `x`; before, after and within it
an `iput` may free inodes (`Idle`), but none of `K`. This module follows `create` and the other parts
of the calls; `Walk` puts them together.
-/

namespace Xv6.Fs
open Lib Function List Option

/-- `ip->nlink += v` -/
def Node.relink (x : Node) (v : Int) : Node :=
  { x with d := { x.d with nlink := short (x.d.nlink + v) } }

/-- an inode with one link, and no content. -/
def Node.new (type major minor : Int) : Node :=
  ⟨⟨type, major, minor, 1, 0, fun _ => 0⟩, fun _ => 0, fun _ => 0⟩

/-- what `create` makes of the new inode `m`, in the directory `n`. -/
def Node.Born (type major minor : Int) (n m : Nat) (y : Node) : Prop :=
  if type = T_DIR then ∃ y₁, (Node.new type major minor).Entered dot m y₁ ∧ y₁.Entered dotdot n y
  else y = Node.new type major minor

/-- the new inode `m` has the name `name` in the directory `n`. -/
structure Made (e : Env) (type major minor : Int) (n : Nat) (name : List UInt8) (m : Nat)
    (A A' : Nat → Option Node) : Prop where
  free : A m = none
  pos : m ≠ 0
  lt : m < e.ninodes
  nodes : ∃ x y z, A n = some x ∧ x.d.type = T_DIR ∧ y.Born type major minor n m ∧
    (if type = T_DIR then x.relink 1 else x).Entered name m z ∧
    A' = update (update A m (some y)) n (some z)

/-- the link count of the inode `n` changes by `v`. -/
def Relinked (n : Nat) (v : Int) (A A' : Nat → Option Node) : Prop :=
  ∃ x, A n = some x ∧ A' = update A n (some (x.relink v))

/-- the directory `n` has the new entry (`name`, `m`). -/
def Entered (n : Nat) (name : List UInt8) (m : Nat) (A A' : Nat → Option Node) : Prop :=
  ∃ x y, A n = some x ∧ x.d.type = T_DIR ∧ x.Entered name m y ∧ A' = update A n (some y)

/-- the entries are all empty, but for "." and "..". -/
def Node.bare (x : Node) : Bool :=
  (offsets (2 * DESIZE) x.d.size).all fun off => deInum (x.de off) = 0

/-- the entry for `name` in the directory `n` is cleared; it was for the inode `m`, which is not
a directory with entries. -/
def Cleared (n : Nat) (name : List UInt8) (m : Nat) (A A' : Nat → Option Node) : Prop :=
  ∃ x u y off, A n = some x ∧ x.d.type = T_DIR ∧ namecmp name dot ≠ 0 ∧ namecmp name dotdot ≠ 0 ∧
    x.find name = some (m, off) ∧ A m = some u ∧ 1 ≤ u.d.nlink ∧
    (u.d.type = T_DIR → u.bare = true) ∧ off ≤ x.d.size ∧ off + DESIZE ≤ MAXFILE * BSIZE ∧
    x.Wrote off (List.replicate DESIZE 0) y ∧ A' = update A n (some (if u.d.type = T_DIR then y.relink (-1) else y))

inductive Edit where
  | make (type major minor : Int) (n : Nat) (name : List UInt8) (m : Nat)
  | link (m n : Nat) (name : List UInt8)
  /-- a link that was not made: the count goes up and down. -/
  | nolink (m : Nat)
  | unlink (n : Nat) (name : List UInt8) (m : Nat)
  | write (n off : Nat) (src : List UInt8)

inductive Effect (e : Env) (K : Nat → Prop) : Option Edit → Core → Core → Prop
  | idle {c c' : Core} (h : Idle e K c c') : Effect e K none c c'
  | make {c c₁ c₂ c' : Core} {type major minor : Int} {n m : Nat} {name : List UInt8}
      (h₁ : Idle e K c c₁) (h : Made e type major minor n name m (c₁.node e) (c₂.node e))
      (h₂ : Idle e K c₂ c') : Effect e K (some (.make type major minor n name m)) c c'
  | link {c c₁ c₂ c₃ c₄ c' : Core} {m n : Nat} {name : List UInt8} (h₁ : Idle e K c c₁)
      (ht : ∀ x, c₁.node e m = some x → x.d.type ≠ T_DIR)
      (hm : Relinked m 1 (c₁.node e) (c₂.node e)) (h₂ : Idle e K c₂ c₃)
      (hn : Entered n name m (c₃.node e) (c₄.node e)) (h₃ : Idle e K c₄ c') :
      Effect e K (some (.link m n name)) c c'
  | nolink {c c₁ c₂ c₃ c₄ c' : Core} {m : Nat} {d d' : Dinode} (h₁ : Idle e K c c₁)
      (hm : c₁.node e m ≠ none) (hd : d = { c₁.dinode m with nlink := short ((c₁.dinode m).nlink + 1) })
      (hu : Touched m d c₁ c₂) (h₂ : Idle e (fun k => K k ∨ k = m) c₂ c₃)
      (hd' : d' = { d with nlink := short (d.nlink + -1) }) (hv : Touched m d' c₃ c₄)
      (h₃ : Idle e K c₄ c') : Effect e K (some (.nolink m)) c c'
  | unlink {c c₁ c₂ c₃ c₄ c' : Core} {n m : Nat} {name : List UInt8} (h₁ : Idle e K c c₁)
      (hn : Cleared n name m (c₁.node e) (c₂.node e)) (h₂ : Idle e K c₂ c₃)
      (hm : Relinked m (-1) (c₃.node e) (c₄.node e)) (h₃ : Idle e K c₄ c') :
      Effect e K (some (.unlink n name m)) c c'
  | write {c c₁ c₂ c' : Core} {n off : Nat} {src : List UInt8} {x y : Node} (h₁ : Idle e K c c₁)
      (hx : c₁.node e n = some x) (ht : x.d.type ≠ T_DEV) (hoff : off ≤ x.d.size)
      (hmax : off + src.length ≤ MAXFILE * BSIZE) (hy : x.Wrote off src y)
      (hnode : c₂.node e = update (c₁.node e) n (some y)) (h₂ : Idle e K c₂ c') :
      Effect e K (some (.write n off src)) c c'

variable {e : Env} {E : Stop → Prop} [Allows E] {c c' : Core} {i ip dp cwd : Ip} {n m cn off : Nat}
  {H : Holders} {R : Refs} {V : List Ip} {name path : List UInt8} {x y : Node}
  {K K' : Nat → Prop}
variable {o : Option Edit} {d d' : Dinode} {data : Nat → Block} {type major minor : Int}

lemma Effect.idle_after {c'' : Core} (h : Effect e K o c c') (hi : Idle e K c' c'') : Effect e K o c c'' := by
  cases h with
  | idle h => exact .idle (h.trans hi)
  | make h1 h h2 => exact .make h1 h (h2.trans hi)
  | link h1 ht hm h2 hn h3 => exact .link h1 ht hm h2 hn (h3.trans hi)
  | nolink h1 hm hd hu h2 hd' hv h3 => exact .nolink h1 hm hd hu h2 hd' hv (h3.trans hi)
  | unlink h1 hn h2 hm h3 => exact .unlink h1 hn h2 hm (h3.trans hi)
  | write h1 hx ht hoff hmax hy hnode h2 => exact .write h1 hx ht hoff hmax hy hnode (h2.trans hi)

lemma Effect.idle_before {c0 : Core} (h : Effect e K o c c') (hi : Idle e K c0 c) : Effect e K o c0 c' := by
  cases h with
  | idle h => exact .idle (hi.trans h)
  | make h1 h h2 => exact .make (hi.trans h1) h h2
  | link h1 ht hm h2 hn h3 => exact .link (hi.trans h1) ht hm h2 hn h3
  | nolink h1 hm hd hu h2 hd' hv h3 => exact .nolink (hi.trans h1) hm hd hu h2 hd' hv h3
  | unlink h1 hn h2 hm h3 => exact .unlink (hi.trans h1) hn h2 hm h3
  | write h1 hx ht hoff hmax hy hnode h2 => exact .write (hi.trans h1) hx ht hoff hmax hy hnode h2

lemma Effect.mono (h : Effect e K o c c') (hK : ∀ n, K' n → K n) : Effect e K' o c c' := by
  cases h with
  | idle h => exact .idle (h.mono hK)
  | make h1 h h2 => exact .make (h1.mono hK) h (h2.mono hK)
  | link h1 ht hm h2 hn h3 => exact .link (h1.mono hK) ht hm (h2.mono hK) hn (h3.mono hK)
  | nolink h1 hm hd hu h2 hd' hv h3 =>
    exact .nolink (h1.mono hK) hm hd hu (h2.mono fun n hn => hn.imp_left (hK n)) hd' hv (h3.mono hK)
  | unlink h1 hn h2 hm h3 => exact .unlink (h1.mono hK) hn (h2.mono hK) hm (h3.mono hK)
  | write h1 hx ht hoff hmax hy hnode h2 =>
    exact .write (h1.mono hK) hx ht hoff hmax hy hnode (h2.mono hK)

lemma Kept.cons {p : Ip × Nat} (h : Kept H R n) : Kept H (p :: R) n :=
  h.imp_right fun ⟨i, hi⟩ => ⟨i, mem_cons_of_mem _ hi⟩

/-! ## the node that was changed, and the others -/

lemma Becomes.self (h : Becomes e H R V n y c c') (hi : i ∈ V) (hn : (i, n) ∈ R) : c'.nodeOf i = y := by
  have h1 := h.ctx.nodeOf hi hn
  rw [h.node, update_self] at h1
  exact (some.inj h1).symm

lemma Becomes.other (h : Becomes e H R V n y c c') (h0 : Ctx e H R V c) (hi : i ∈ V)
    (hm : (i, m) ∈ R) (hne : m ≠ n) : c'.nodeOf i = c.nodeOf i := by
  have h1 := h.ctx.nodeOf hi hm
  rw [h.node, update_of_ne hne, h0.nodeOf hi hm] at h1
  exact (some.inj h1).symm

lemma node_fields (hs : d'.size = d.size)
    (ha : d'.addrs = d.addrs) : d'.node data = { d.node data with d := d' } := by
  have hb : ∀ x, d'.block data x = d.block data x := by
    intro x
    cases x with
    | addr k => exact congrFun ha k
    | entry j =>
      show (if d'.addrs _ = 0 then 0 else word (data (d'.addrs _)) j) = _
      rw [ha]
      rfl
  have hof : ∀ bn, d'.blockOf data bn = d.blockOf data bn := by
    intro bn
    unfold Dinode.blockOf
    split
    · exact hb _
    · rfl
  have hbyte : ∀ k, d'.byteAt data k = d.byteAt data k := by
    intro k
    unfold Dinode.byteAt
    rw [hof]
  unfold Dinode.node
  rw [funext hb, hs]
  simp only [hbyte]

lemma dinode_of_node (hx : c.node e n = some x) : c.dinode n = x.d :=
  congrArg Node.d (nodeAt_eq_some.mp hx).2

lemma Touched.relinked {v : Int}
    (h : Touched n { c.dinode n with nlink := short ((c.dinode n).nlink + v) } c c')
    (hx : c.node e n = some x) : c'.node e = update (c.node e) n (some (x.relink v)) := by
  obtain ⟨⟨hn, hty⟩, hd⟩ := nodeAt_eq_some.mp hx
  rw [h.node hn (by exact hty), node_fields rfl rfl, ← hd]
  rfl

lemma nolink_nodes {c1 c2 c3 c4 : Core} (hm : c1.node e m ≠ none)
    (hd : d = { c1.dinode m with nlink := short ((c1.dinode m).nlink + 1) })
    (hu : Touched m d c1 c2) (h2 : Idle e (fun k => K k ∨ k = m) c2 c3)
    (hd' : d' = { d with nlink := short (d.nlink + -1) }) (hv : Touched m d' c3 c4) :
    ∃ x, c1.node e m = some x ∧ c2.node e = update (c1.node e) m (some (x.relink 1)) ∧
      c3.node e m = some (x.relink 1) ∧
      c4.node e = update (c3.node e) m (some ((x.relink 1).relink (-1))) := by
  obtain ⟨x, hx⟩ := ne_none_iff_exists'.mp hm
  rw [hd] at hu
  have hn2 := hu.relinked hx
  have hx3 : c3.node e m = some (x.relink 1) := by
    rw [h2.kept (.inr rfl), hn2, update_self]
  have hd3 : c3.dinode m = d := by
    rw [dinode_of_node hx3, hd, dinode_of_node hx]
    rfl
  rw [hd', ← hd3] at hv
  exact ⟨x, hx, hn2, hx3, hv.relinked hx3⟩

lemma does_touch (h : Ctx e H R V c) (hi : i ∈ V) (hn : (i, n) ∈ R)
    (ht : d.type = (c.inode i).d.type) (hs : d.size = (c.inode i).d.size)
    (ha : d.addrs = (c.inode i).d.addrs) : Runs E (iupdate e i) (fun _ c' => Touched n d c c' ∧
      Becomes e H R V n { c.nodeOf i with d := d } c c') (c.setCopy i d) := by
  have hh := h.held hi
  have hc := h.inv.copy i hh
  have hnum : (c.inode i).inum = n := h.num _ hn
  have htbl := Sound.tbl_eq h.inv hh
  have h0 : Sound e (c.tbl i) c := by rw [htbl]; exact h.inv
  have hup : Runs E (iupdate e i) (fun _ c' => Inv e c' ∧ Keeps c c') (c.setCopy i d) := by
    refine Runs.any (does_update h0 hh ht ha fun hdev bn hbn => ?_)
    have hty := hc.type_ne
    rw [ht, hc.same] at hdev
    rw [hs, hc.same] at hbn
    rw [hc.same] at hty
    rw [htbl]
    exact h.inv.full _ bn hc.inum_lt hty hdev hbn
  refine (hup.and (does_iupdate i)).mono fun _ c' ⟨⟨h', hk⟩, hc'⟩ => ?_
  have htouch : Touched n d c c' := by
    rw [hc']
    refine ⟨rfl, rfl, ?_⟩
    show update c.dinode ((c.setCopy i d).inode i).inum ((c.setCopy i d).inode i).d = _
    rw [c.setCopy_self, hnum]
  have hnode : c'.node e = update (c.node e) n (some { c.nodeOf i with d := d }) := by
    rw [htouch.node (by rw [← hnum]; exact hc.inum_lt) (by rw [ht]; exact hc.type_ne), node_fields hs ha]
    rfl
  refine ⟨htouch, h.keeps h' hk hi fun m hm => ?_, hnode⟩
  rw [hnum] at hm
  rw [hnode, update_of_ne hm]

lemma does_relink (h : Ctx e H R V c) (hi : i ∈ V) (hn : (i, n) ∈ R) (v : Int) : Runs E (relink e i v) (fun _ c' =>
      Touched n { (c.inode i).d with nlink := short ((c.inode i).d.nlink + v) } c c' ∧
      Becomes e H R V n ((c.nodeOf i).relink v) c c') c := by
  unfold relink
  exact does_modify_seq (does_touch h hi hn rfl rfl rfl)

/-! ## `create` -/

lemma does_createDots (h : Ctx e H R V c) (hd : dp ∈ V) (hdn : (dp, n) ∈ R) (hi : ip ∈ V)
    (him : (ip, m) ∈ R) (hne : m ≠ n) :
    Runs E (createDots e dp ip) (fun _ c' => ∃ y1 y, (c.nodeOf ip).Entered dot m y1 ∧
      y1.Entered dotdot n y ∧ Ctx e H R V c' ∧ c'.node e = update (update (c.node e) n
        (some ((c.nodeOf dp).relink 1))) m (some y)) c := by
  unfold createDots
  refine (does_relink h hd hdn 1).seq fun _ c1 ⟨_, hb1⟩ => does_get ?_
  have hip : (c1.inode ip).inum = m := hb1.ctx.num _ him
  have hdp : (c1.inode dp).inum = n := hb1.ctx.num _ hdn
  rw [hip, hdp]
  refine (does_dirlink hb1.ctx hi him).seq fun a c2 ⟨_, h2⟩ => ?_
  refine does_ite (fun _ => does_fail (by decide)) fun ha => ?_
  rw [Bool.eq_true_of_not_eq_false ha] at h2
  obtain ⟨y1, hy1, hb2⟩ := h2
  refine (does_dirlink hb2.ctx hi him).seq fun b c3 ⟨_, h3⟩ => ?_
  refine does_ite (fun _ => does_fail (by decide)) fun hb => ?_
  rw [Bool.eq_true_of_not_eq_false hb] at h3
  obtain ⟨y, hy, hb3⟩ := h3
  rw [hb2.self hi him] at hy
  rw [hb1.other h hi him hne] at hy1
  refine does_pure ⟨y1, y, hy1, hy, hb3.ctx, ?_⟩
  rw [hb3.node, hb2.node, hb1.node, update_idem]

lemma new_node : (⟨type, major, minor, 1, 0, fun _ => 0⟩ : Dinode).node data = Node.new type major minor := by
  have hb : (⟨type, major, minor, 1, 0, fun _ => 0⟩ : Dinode).block data = fun _ => 0 :=
    funext (block_of_addrs fun _ => rfl)
  unfold Dinode.node Node.new
  rw [hb]
  rfl

lemma does_ialloc_new (h : Ctx e H R V c) (ht : type ≠ 0)
    {f : Ip → M (Option Ip)} {Q : Option Ip → Core → Prop}
    (hf : ∀ ip m c', m ≠ 0 → m < e.ninodes → c.node e m = none → Ctx e H ((ip, m) :: R) (ip :: V) c' →
      c'.node e = update (c.node e) m (some (Node.new type major minor)) → Runs E (f ip) Q c') :
    Runs E (do
      let ip ← ialloc e type
      ilock e ip
      modifyCore fun c =>
        c.setCopy ip { (c.inode ip).d with major := major, minor := minor, nlink := 1 }
      iupdate e ip
      f ip) Q c := by
  refine (does_ialloc h ht).seq fun ip c1 ⟨m, hm0, hm, hfree, h1, htouch⟩ => ?_
  have hnode1 := htouch.node hm (by exact ht)
  have hlive : Live e E c1 m := by
    refine .inr ?_
    rw [hnode1, update_self]
    exact some_ne_none _
  refine (does_ilock h1 mem_cons_self hlive).seq fun _ c2 ⟨h2, hs2⟩ => does_modify_seq ?_
  generalize hd : ({ (c2.inode ip).d with major := major, minor := minor, nlink := 1 } : Dinode) = d
  have htch : Runs E (iupdate e ip) _ (c2.setCopy ip d) :=
    does_touch h2 mem_cons_self mem_cons_self (by rw [← hd]) (by rw [← hd]) (by rw [← hd])
  refine htch.seq fun _ c3 ⟨ht3, hb3⟩ => ?_
  -- the copy that `ilock` has read
  have hcopy : (c2.inode ip).d = { Dinode.zero with type := type } := by
    have hc := (h2.inv.copy ip (h2.held mem_cons_self)).same
    rw [h2.num _ mem_cons_self, hs2.dinode, htouch.dinode, update_self] at hc
    exact hc
  have hd' : d = ⟨type, major, minor, 1, 0, fun _ => 0⟩ := by
    rw [← hd, hcopy]
    rfl
  have hnode : c3.node e = update (c.node e) m (some (Node.new type major minor)) := by
    rw [ht3.node hm (by rw [hd']; exact ht), hs2.node, hnode1, update_idem, hd', new_node]
  refine hf ip m c3 hm0 hm hfree (hb3.ctx.linked fun x hx => ?_) hnode
  rw [hnode, update_self] at hx
  rw [← some.inj hx]
  exact Int.one_ne_zero

lemma does_createNew (h : Ctx e H ((dp, n) :: R) (dp :: V) c)
    (ht : type ≠ 0) (hV : ∀ j ∈ V, j ∈ R.map Prod.fst) :
    Runs E (createNew e type major minor dp name) (fun r c' => ∃ ip m c1, r = some ip ∧
      Ctx e H ((ip, m) :: R) (ip :: V) c' ∧ Made e type major minor n name m (c.node e) (c1.node e) ∧
      Idle e (Kept H R) c1 c') c := by
  unfold createNew
  refine does_ialloc_new h ht fun ip m c1 hm0 hm hfree h₁ hn1 => ?_
  have hx := h.nodeOf mem_cons_self mem_cons_self
  have hne : m ≠ n := by
    intro hmn
    rw [hmn, hx] at hfree
    cases hfree
  have hdp : dp ∈ ip :: dp :: V := mem_cons_of_mem _ mem_cons_self
  have hdn : (dp, n) ∈ (ip, m) :: (dp, n) :: R := mem_cons_of_mem _ mem_cons_self
  have hx1 : c1.nodeOf dp = c.nodeOf dp := by
    have h1 := h₁.nodeOf hdp hdn
    rw [hn1, update_of_ne hne.symm, hx] at h1
    exact (some.inj h1).symm
  have hy1 : c1.nodeOf ip = Node.new type major minor := by
    have h1 := h₁.nodeOf mem_cons_self mem_cons_self
    rw [hn1, update_self] at h1
    exact (some.inj h1).symm
  -- the directory, and the new inode, before the entry is made
  have hdots : Runs E (if type = T_DIR then createDots e dp ip else pure ())
      (fun _ c' => ∃ y, y.Born type major minor n m ∧ Ctx e H ((ip, m) :: (dp, n) :: R) (ip :: dp :: V) c' ∧
        c'.node e = update (update (c.node e) m (some y)) n
          (some (if type = T_DIR then (c.nodeOf dp).relink 1 else c.nodeOf dp))) c1 := by
    refine does_ite (fun hdir => ?_) fun hdir => does_pure ?_
    · refine (does_createDots h₁ hdp hdn mem_cons_self mem_cons_self hne).mono
        fun _ c' ⟨y1, y, hy, hy', h', hn'⟩ => ⟨y, ?_, h', ?_⟩
      · unfold Node.Born
        rw [if_pos hdir]
        rw [hy1] at hy
        exact ⟨y1, hy, hy'⟩
      · rw [hn', hn1, hx1, if_pos hdir, update_comm hne.symm, update_idem]
    · have hborn : (Node.new type major minor).Born type major minor n m := by
        unfold Node.Born
        rw [if_neg hdir]
      have hval : update (c.node e) m (some (Node.new type major minor)) n = some (c.nodeOf dp) := by
        rw [update_of_ne hne.symm, hx]
      refine ⟨_, hborn, h₁, ?_⟩
      rw [if_neg hdir, hn1, ← hval, update_eq_self]
  refine hdots.seq fun _ c2 ⟨y, hy, h2, hn2⟩ => does_get ?_
  have hip : (c2.inode ip).inum = m := h2.num _ mem_cons_self
  have hz : c2.nodeOf dp = if type = T_DIR then (c.nodeOf dp).relink 1 else c.nodeOf dp := by
    have h1 := h2.nodeOf hdp hdn
    rw [hn2, update_self] at h1
    exact (some.inj h1).symm
  rw [hip]
  refine (does_dirlink h2 hdp hdn).seq fun r c3 ⟨hdir, h3⟩ => ?_
  refine does_ite (fun _ => does_fail (by decide)) fun hr => ?_
  rw [Bool.eq_true_of_not_eq_false hr] at h3
  obtain ⟨z, hent, hb3⟩ := h3
  have hput : Runs E (iunlockput e dp) (fun _ c' => Ctx e H ((ip, m) :: R) (ip :: V) c' ∧
      Idle e (Kept H ((ip, m) :: R)) c3 c') c3 := by
    refine does_iunlockput hb3.ctx.swap fun j hj => ?_
    rcases mem_cons.mp hj with hj | hj
    · rw [hj]
      exact ⟨mem_cons_self, mem_fst_head⟩
    · exact ⟨mem_cons_of_mem _ (mem_cons_of_mem _ hj), mem_fst_cons (hV j hj)⟩
  refine hput.seq fun _ c4 ⟨h4, hi4⟩ => does_pure
    ⟨ip, m, c3, rfl, h4, ⟨hfree, hm0, hm, c.nodeOf dp, y, z, hx, ?_, hy, ?_, ?_⟩, ?_⟩
  · have hty : (c2.nodeOf dp).d.type = T_DIR := hdir
    rw [hz] at hty
    split at hty <;> exact hty
  · rw [← hz]
    exact hent
  · rw [hb3.node, hn2, update_idem]
  · exact hi4.mono fun k hk => hk.cons

lemma does_createOld (h : Ctx e H ((ip, m) :: (dp, n) :: R) (dp :: V) c) (type : Int)
    (hV : ∀ j ∈ V, j ∈ R.map Prod.fst) (hq : Quiet e E (Kept H R) c) (hl : Live e E c m) :
    Runs E (createOld e type dp ip) (fun r c' => Idle e (Kept H R) c c' ∧
      (r = none ∧ Ctx e H R V c' ∨ r = some ip ∧ type = T_FILE ∧ Ctx e H ((ip, m) :: R) (ip :: V) c' ∧
        ∃ x, c'.node e m = some x ∧ x.d.type = T_FILE)) c := by
  unfold createOld
  have hput : Runs E (iunlockput e dp) (fun _ c' => Ctx e H ((ip, m) :: R) V c' ∧
      Idle e (Kept H ((ip, m) :: R)) c c') c :=
    does_iunlockput h.swap fun j hj => ⟨mem_cons_of_mem _ hj, mem_fst_cons (hV j hj)⟩
  refine hput.seq fun _ c1 ⟨h1, hi1⟩ => ?_
  replace hi1 : Idle e (Kept H R) c c1 := hi1.mono fun k hk => hk.cons
  refine (does_ilock h1 mem_cons_self (hl.idle hq hi1)).seq fun _ c2 ⟨h2, hs2⟩ => does_get ?_
  have hi2 := hi1.trans (.of_same hs2)
  refine does_ite (fun ht => does_pure ⟨hi2, .inr ⟨rfl, ht.1, h2, ?_⟩⟩) fun _ => ?_
  · exact ⟨_, h2.nodeOf mem_cons_self mem_cons_self, ht.2⟩
  · refine (does_iunlockput h2 fun j hj => ⟨mem_cons_of_mem _ hj, hV j hj⟩).seq
      fun _ c3 ⟨h3, hi3⟩ => does_pure ⟨hi2.trans hi3, .inl ⟨rfl, h3⟩⟩

/-- the path leads to no place for a new name: its end is there already, or its directory is not. -/
def Old (e : Env) (c : Core) (w : Option (Option (Nat × List UInt8))) : Prop :=
  ∀ n name x, w = some (some (n, name)) → c.node e n = some x → x.find name ≠ none

inductive CreateEnd (e : Env) (H : Holders) (R : Refs) (V : List Ip)
    (type major minor : Int) (w : Option (Option (Nat × List UInt8))) (c : Core) :
    Option Ip → Core → Prop
  | no {c' : Core} (h : Ctx e H R V c') (hi : Idle e (Kept H R) c c') (ho : Old e c w) :
      CreateEnd e H R V type major minor w c none c'
  | old {c' : Core} {ip : Ip} {m : Nat} {x : Node} (ht : type = T_FILE)
      (h : Ctx e H ((ip, m) :: R) (ip :: V) c') (hi : Idle e (Kept H R) c c') (ho : Old e c w)
      (hx : c'.node e m = some x) (hxt : x.d.type = T_FILE) :
      CreateEnd e H R V type major minor w c (some ip) c'
  | made {c₁ c₂ c' : Core} {ip : Ip} {n m : Nat} {name : List UInt8} (hw : w = some (some (n, name)))
      (h₁ : Idle e (Kept H R) c c₁)
      (hm : Made e type major minor n name m (c₁.node e) (c₂.node e))
      (h₂ : Idle e (Kept H R) c₂ c') (h : Ctx e H ((ip, m) :: R) (ip :: V) c') :
      CreateEnd e H R V type major minor w c (some ip) c'

lemma does_create (h : Ctx e H R V c) (hi : (cwd, cn) ∈ R) (hq : Quiet e E (Kept H R) c)
    (hl : Live e E c cn) (ht : type ≠ 0) (major minor : Int) :
    Runs E (create e cwd path type major minor)
      (CreateEnd e H R V type major minor (resolvePath (c.node e) true cn path) c) c := by
  unfold create
  refine Runs.seq (does_namex h hi hq hl true) fun r c1 h1 => ?_
  rcases r with _ | ⟨dp, name⟩
  · obtain ⟨hw, h1, hi1⟩ := h1
    refine does_pure (.no h1 hi1 fun n name x hn => ?_)
    rw [hw] at hn
    cases hn
  · obtain ⟨n, hw, h1, hi1, hl1, -⟩ := h1
    refine (does_ilock h1 mem_cons_self hl1).seq fun _ c2 ⟨h2, hs2⟩ => ?_
    have hi2 := hi1.trans (.of_same hs2)
    have hx2 := h2.nodeOf mem_cons_self mem_cons_self
    have hx := hi2.eq_of_some hx2
    refine (does_dirlookup h2 mem_cons_self).seq fun r c3 ⟨hdir, h3⟩ => ?_
    rcases r with _ | ⟨ip, off⟩
    · obtain ⟨-, hc⟩ := h3
      rw [hc]
      exact (does_createNew h2 ht h.sub).mono fun r c' ⟨ip, m, c4, hr, h', hm, hi'⟩ =>
        hr ▸ .made hw hi2 hm hi' h'
    · obtain ⟨m, hf, h3, hs3⟩ := h3
      have hi3 := hi2.trans (.of_same hs3)
      have hold : Old e c (resolvePath (c.node e) true cn path) := by
        intro k name' x hk hkx
        rw [hw] at hk
        cases hk
        rw [hx] at hkx
        rw [← some.inj hkx, hf]
        exact some_ne_none _
      have hlive : Live e E c3 m := ((hq.idle hi2).found hx2 hdir hf).same hs3
      refine (does_createOld h3 type h.sub (hq.idle hi3) hlive).mono fun r c' ⟨hi', hr⟩ => ?_
      rcases hr with ⟨hr, h'⟩ | ⟨hr, ht', h', x, hx', hxt⟩
      · rw [hr]
        exact .no h' (hi3.trans hi') hold
      · rw [hr]
        exact .old ht' h' (hi3.trans hi') hold hx' hxt

end Xv6.Fs
