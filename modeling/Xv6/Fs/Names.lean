import Xv6.Fs.Refs

/-!
# Directories and paths, by the nodes

What a directory says is read off its node: `Node.find x name` is the first entry for `name`, and
`Node.vacant` the first entry that is free. `resolve A` follows a path through the nodes `A`; it is
`none` where the way leads to a free inode. The functions of `fs.c` compute the same:

    does_dirlookup   finds `Node.find`, with a new reference to the inode;
    does_dirlink     writes an entry at `Node.vacant`, or finds the name there (`Entered`);
    does_namex       ends where `resolve` does.
-/

set_option linter.unusedSectionVars false

namespace Xv6.Fs
open Lib List

/-- the entry at the offset `off`. -/
def Node.de (x : Node) (off : Nat) : List UInt8 :=
  (range DESIZE).map fun k => x.bytes (off + k)

/-- is there an entry for `name` at the offset `off`? -/
def Node.isAt (x : Node) (name : List UInt8) (off : Nat) : Bool :=
  deInum (x.de off) ≠ 0 ∧ namecmp name (deName (x.de off)) = 0

/-- the number that the directory has for `name`, and the offset of its entry. -/
def Node.find (x : Node) (name : List UInt8) : Option (Nat × Nat) :=
  ((offsets 0 x.d.size).find? (x.isAt name)).map fun off => (deInum (x.de off), off)

/-- the first empty entry, or the end. -/
def Node.vacant (x : Node) : Nat :=
  ((offsets 0 x.d.size).find? fun off => deInum (x.de off) = 0).getD (DESIZE * ((x.d.size + (DESIZE - 1)) / DESIZE))

/-- the path is followed from the inode `n`; `none` where an inode on the way is free. -/
def resolve (A : Nat → Option Node) (parent : Bool) :
    Nat → List UInt8 → Nat → List UInt8 → Option (Option (Nat × List UInt8))
  | 0, _, _, _ => none
  | fuel + 1, path, n, name =>
    match skipelem path with
    | some (name, path) =>
      match A n with
      | none => none
      | some x =>
        if x.d.type ≠ T_DIR then some none
        else if parent = true ∧ path = [] then some (some (n, name))
        else
          match x.find name with
          | some (m, _) => resolve A parent fuel path m name
          | none => some none
    | none => if parent then some none else some (some (n, name))

/-- where a path leads, from the current directory `cwd`. -/
def resolvePath (A : Nat → Option Node) (parent : Bool) (cwd : Nat) (path : List UInt8) :
    Option (Option (Nat × List UInt8)) :=
  resolve A parent (path.length + 1) path (if path.head? = some slash then ROOTINO else cwd) []

/-- the entry (`name`, `m`) is new in a directory. -/
structure Node.Entered (x : Node) (name : List UInt8) (m : Nat) (y : Node) : Prop where
  new : x.find name = none
  inside : x.vacant ≤ x.d.size
  room : x.vacant + DESIZE ≤ MAXFILE * BSIZE
  wrote : x.Wrote x.vacant (dirent m name) y

/-- every entry leads to an allocated inode, and the inodes without links are those of `K`. -/
structure Calm (A : Nat → Option Node) (K : Nat → Prop) : Prop where
  orphan : ∀ n x, A n = some x → x.d.nlink = 0 → K n
  entry : ∀ n x off, A n = some x → x.d.type = T_DIR → off ∈ offsets 0 x.d.size →
    deInum (x.de off) ≠ 0 → A (deInum (x.de off)) ≠ none
  root : A ROOTINO ≠ none

variable {e : Env} {E : Stop → Prop} [Allows E] {c c' : Core} {i ip dp cwd : Ip} {n m off : Nat}
  {H : Holders} {R : Refs} {V : List Ip} {name path : List UInt8} {A A' : Nat → Option Node}
  {K : Nat → Prop} {x : Node} {parent : Bool} {msg : String}

lemma Calm.idle (h : Calm (c.node e) K) (hi : Idle e K c c') : c'.node e = c.node e := by
  funext n
  rcases hi.nodes n with hn | ⟨-, hk, x, hx, hl⟩
  · exact hn
  · exact absurd (h.orphan n x hx hl) hk

lemma Calm.found (h : Calm A K) (hx : A n = some x) (ht : x.d.type = T_DIR)
    (hf : x.find name = some (m, off)) : A m ≠ none := by
  obtain ⟨o, ho, hm⟩ := Option.map_eq_some_iff.mp hf
  cases hm
  have hat := find?_some ho
  simp only [Node.isAt, decide_eq_true_eq] at hat
  exact h.entry n x _ hx ht (mem_of_find?_eq_some ho) hat.1

lemma resolve_of_sub (hA : ∀ n x, A' n = some x → A n = some x) (fuel : Nat) :
    ∀ {path n name r}, resolve A' parent fuel path n name = some r → resolve A parent fuel path n name = some r := by
  induction fuel with
  | zero => intro path n name r h; cases h
  | succ fuel ih =>
    intro path n name r h
    unfold resolve at h ⊢
    split
    · next hs =>
      rw [hs] at h
      dsimp only at h
      cases hx : A' n with
      | none => rw [hx] at h; cases h
      | some x =>
        rw [hx] at h
        rw [hA n x hx]
        dsimp only at h ⊢
        split
        · next ht => rw [if_pos ht] at h; exact h
        · next ht =>
          rw [if_neg ht] at h
          split
          · next hp => rw [if_pos hp] at h; exact h
          · next hp =>
            rw [if_neg hp] at h
            split
            · next hf => rw [hf] at h; exact ih h
            · next hf => rw [hf] at h; exact h
    · next hs => rw [hs] at h; exact h

/-! ## directories -/

/-- the node of an entry that was read. -/
def Core.nodeOf (c : Core) (i : Ip) : Node := (c.inode i).d.node c.data

lemma Ctx.nodeOf (h : Ctx e H R V c) (hi : i ∈ V) (hn : (i, n) ∈ R) : c.node e n = some (c.nodeOf i) := by
  have hnode := h.node hi
  rw [h.num _ hn] at hnode
  exact hnode

/-- an entry is there, or the failure to read it is allowed. -/
def Legible (E : Stop → Prop) (msg : String) (d : Dinode) (off : Nat) : Prop :=
  E (.panic msg) ∧ E (.panic "bmap: out of range") ∨ off + DESIZE ≤ d.size ∧ d.size ≤ MAXFILE * BSIZE

lemma does_readDe {E : Stop → Prop} (h : Ctx e H R V c) (hi : i ∈ V)
    (ht : (c.inode i).d.type ≠ T_DEV) (hm : Legible E msg (c.inode i).d off) :
    Runs E (readDe e msg i off) (fun de c' => de = (c.nodeOf i).de off ∧ c' = c) c := by
  have hrange : InRange E (c.inode i).d := hm.imp And.right And.right
  unfold readDe
  refine (does_readi h.inv (h.held hi) hrange (by decide)).seq fun r c' ⟨hc, hr⟩ => ?_
  replace hr : r = (c.nodeOf i).readi off DESIZE := hr ht
  rcases hm with ⟨hm, -⟩ | ⟨hend, hmax⟩
  · unfold Node.readi at hr
    split at hr
    · rw [hr]
      exact does_throw hm
    · rw [hr]
      refine does_ite (fun hlen => does_pure ⟨?_, hc⟩) fun _ => does_throw hm
      rw [length_map, length_range] at hlen
      unfold Node.de
      rw [hlen]
  · have hsize : (c.nodeOf i).d.size = (c.inode i).d.size := rfl
    have hmin : min DESIZE ((c.nodeOf i).d.size - off) = DESIZE := by omega
    replace hmax : (c.inode i).d.size ≤ 71680 := hmax
    rw [Node.readi, if_neg (by omega), hmin] at hr
    rw [hr]
    exact does_ite (fun _ => does_pure ⟨rfl, hc⟩) fun hlen => absurd rfl hlen

/-- what a look-up found, by the node. -/
def Found (e : Env) (H : Holders) (R : Refs) (V : List Ip) (c : Core)
    (f : Option (Nat × Nat)) : Option (Ip × Nat) → Core → Prop
  | some (i, off), c' => ∃ m, f = some (m, off) ∧ Ctx e H ((i, m) :: R) V c' ∧ c.Same c'
  | none, c' => f = none ∧ c' = c

lemma does_lookupLoop {E : Stop → Prop} (hg : E (.panic "iget: no inodes") ∨ ∃ j, (c.inode j).ref = 0)
    (h : Ctx e H R V c) (hi : i ∈ V) (ht : (c.inode i).d.type ≠ T_DEV) (offs : List Nat)
    (hm : ∀ off ∈ offs, Legible E "dirlookup read" (c.inode i).d off) :
    Runs E (lookupLoop e i name offs) (fun r c' => Found e H R V c
      ((offs.find? ((c.nodeOf i).isAt name)).map fun off => (deInum ((c.nodeOf i).de off), off)) r c' ∧
        c'.locks = c.locks) c := by
  induction offs with
  | nil => exact does_pure ⟨⟨rfl, rfl⟩, rfl⟩
  | cons off offs ih =>
    obtain ⟨hm0, hm⟩ := forall_mem_cons.mp hm
    -- the entry is passed over
    have hnext : (c.nodeOf i).isAt name off = false → Runs E (lookupLoop e i name offs)
        (fun r c' => Found e H R V c (((off :: offs).find? ((c.nodeOf i).isAt name)).map
          fun off => (deInum ((c.nodeOf i).de off), off)) r c' ∧ c'.locks = c.locks) c := by
      intro hat
      rw [find?_cons_of_neg (by rw [hat]; decide)]
      exact ih hm
    refine (does_readDe h hi ht hm0).seq fun de c' ⟨hde, hc⟩ => ?_
    rw [hc, hde]
    refine does_ite (fun h0 => hnext ?_) fun h0 => does_ite (fun hcmp => ?_) fun hcmp => hnext ?_
    · exact decide_eq_false fun hat => hat.1 h0
    · have hat : (c.nodeOf i).isAt name off = true := decide_eq_true ⟨h0, hcmp⟩
      refine (does_iget_room hg h).seq fun ip c' ⟨⟨h', hs⟩, hk⟩ => does_pure ⟨⟨_, ?_, h', hs⟩, hk⟩
      rw [find?_cons_of_pos hat]
      rfl
    · exact decide_eq_false fun hat => hcmp hat.2

section
variable (h : Ctx e H R V c) (hi : i ∈ V)
include h hi

lemma does_dirlookup {E : Stop → Prop} [Looks E] :
    Runs E (dirlookup e i name) (fun r c' => (c.inode i).d.type = T_DIR ∧
      Found e H R V c ((c.nodeOf i).find name) r c') c := by
  unfold dirlookup
  refine does_get (does_ite (fun _ => does_throw Looks.dir) fun ht => ?_)
  have ht := Classical.not_not.mp ht
  exact (does_lookupLoop (.inl Looks.iget) h hi (by rw [ht]; decide) _ fun _ _ => .inl ⟨Looks.read, Looks.range⟩).mono
    fun r c' hr => ⟨ht, hr.1⟩

lemma does_emptyLoop (ht : (c.inode i).d.type ≠ T_DEV)
    (k : Nat) : ∀ t, Runs E (emptyLoop e i (DESIZE * t)
      ((range' t k).map fun t => 0 + DESIZE * t))
      (fun off c' => off = (((range' t k).map fun t => 0 + DESIZE * t).find?
        fun off => deInum ((c.nodeOf i).de off) = 0).getD (DESIZE * (t + k)) ∧ c' = c) c := by
  induction k with
  | zero => intro t; exact does_pure ⟨rfl, rfl⟩
  | succ k ih =>
    intro t
    rw [range'_succ, map_cons]
    refine (does_readDe h hi ht (.inl ⟨Allows.of_safe _ (by decide), Looks.range⟩)).seq fun de c' ⟨hde, hc⟩ => ?_
    rw [hc, hde]
    let p : Nat → Bool := fun off => deInum ((c.nodeOf i).de off) = 0
    refine does_ite (fun h0 => does_pure ⟨?_, rfl⟩) fun h0 => ?_
    · have hp : p (0 + DESIZE * t) = true := decide_eq_true h0
      rw [find?_cons_of_pos hp]
      rfl
    · have hp : ¬ p (0 + DESIZE * t) = true := fun hp => h0 (of_decide_eq_true hp)
      rw [find?_cons_of_neg hp]
      have hnext : 0 + DESIZE * t + DESIZE = DESIZE * (t + 1) := by rw [Nat.zero_add, Nat.mul_succ]
      have hend : t + (k + 1) = t + 1 + k := by omega
      rw [hnext, hend]
      exact ih (t + 1)

lemma does_vacant (ht : (c.inode i).d.type ≠ T_DEV) :
    Runs E (emptyLoop e i 0 (offsets 0 (c.inode i).d.size)) (fun off c' => off = (c.nodeOf i).vacant ∧ c' = c) c := by
  have hloop := does_emptyLoop (E := E) h hi ht (((c.inode i).d.size - 0 + (DESIZE - 1)) / DESIZE) 0
  rw [← range_eq_range', Nat.zero_add] at hloop
  exact hloop

end

lemma length_strncpy (n : Nat) (t : List UInt8) : (strncpy n t).length = n := by
  unfold strncpy
  dsimp only
  rw [length_append, length_replicate, length_take]
  omega

lemma length_dirent (inum : Nat) (name : List UInt8) : (dirent inum name).length = DESIZE := by
  show (strncpy DIRSIZ name).length + 1 + 1 = DESIZE
  rw [length_strncpy]

/-- the inode `n` has become `y`. -/
structure Becomes (e : Env) (H : Holders) (R : Refs) (V : List Ip) (n : Nat) (y : Node)
    (c c' : Core) : Prop where
  ctx : Ctx e H R V c'
  node : c'.node e = Function.update (c.node e) n (some y)

lemma does_writeDe (h : Ctx e H R V c) (hi : i ∈ V) (hn : (i, n) ∈ R)
    (ht : (c.inode i).d.type ≠ T_DEV) (hm : Safe (.panic msg)) {de : List UInt8}
    (hl : de.length = DESIZE) :
    Runs E (writeDe e msg i de off) (fun _ c' => ∃ y, (c.nodeOf i).Wrote off de y ∧
      off ≤ (c.nodeOf i).d.size ∧ off + DESIZE ≤ MAXFILE * BSIZE ∧ Becomes e H R V n y c c') c := by
  unfold writeDe
  refine (Runs.any (does_writei h.inv (h.held hi) (by rw [hl]; decide))).seq fun r c' ⟨h', hk, hw⟩ => ?_
  refine does_ite (fun hr => does_pure ?_) fun _ => does_fail hm
  cases hw with
  | same hs =>
    rcases hs with hs | hs
    · exact absurd hs ht
    · rw [hs] at hr
      cases hr
  | wrote _ hoff hmax hnode hy =>
    have hnum : (c.inode i).inum = n := h.num _ hn
    rw [hnum] at hnode
    rw [hl] at hmax
    refine ⟨_, hy, hoff, hmax, h.keeps h' hk hi fun m hm => ?_, hnode⟩
    rw [hnum] at hm
    rw [hnode, Function.update_of_ne hm]

/-- the result of `dirlink`. -/
def Linked (e : Env) (H : Holders) (R : Refs) (V : List Ip) (n : Nat) (name : List UInt8)
    (m : Nat) (c : Core) (x : Node) : Bool → Core → Prop
  | true, c' => ∃ y, x.Entered name m y ∧ Becomes e H R V n y c c'
  | false, c' => x.find name ≠ none ∧ Ctx e H R V c' ∧ Idle e (Kept H R) c c'

lemma does_dirlink (h : Ctx e H R V c) (hi : i ∈ V) (hn : (i, n) ∈ R) :
    Runs E (dirlink e i name m) (fun r c' => (c.inode i).d.type = T_DIR ∧
      Linked e H R V n name m c (c.nodeOf i) r c') c := by
  unfold dirlink
  refine (does_dirlookup h hi).seq fun r c1 ⟨ht, h1⟩ => ?_
  have hdev : (c.inode i).d.type ≠ T_DEV := by rw [ht]; decide
  rcases r with _ | ⟨ip, off⟩
  · obtain ⟨hf, hc⟩ := h1
    rw [hc]
    refine does_get ((does_vacant h hi hdev).seq fun off c2 ⟨ho, hc⟩ => ?_)
    rw [hc, ho]
    refine (does_writeDe h hi hn hdev (by decide) (length_dirent m name)).seq
      fun _ c3 ⟨y, hw, hin, hmax, hb⟩ => does_pure ⟨ht, y, ⟨hf, hin, hmax, hw⟩, hb⟩
  · obtain ⟨k, hf, h1, hs⟩ := h1
    refine (does_iput h1 fun j hj => ⟨hj, h.sub j hj⟩).seq fun _ c2 ⟨h2, hi2⟩ => does_pure ?_
    refine ⟨ht, ?_, h2, (Idle.of_same hs).trans hi2⟩
    rw [hf]
    exact Option.some_ne_none _

/-! ## paths -/

/-- the end of a path, by the nodes. -/
def Gets (e : Env) (E : Stop → Prop) (H : Holders) (R : Refs) (V : List Ip) (parent : Bool)
    (c : Core) (w : Option (Option (Nat × List UInt8))) : Option (Ip × List UInt8) → Core → Prop
  | some (i, name), c' => ∃ m, w = some (some (m, name)) ∧ Ctx e H ((i, m) :: R) V c' ∧
      Idle e (Kept H R) c c' ∧ Live e E c' m ∧
      (parent = true → ∃ x, c'.node e m = some x ∧ x.d.type = T_DIR)
  | none, c' => w = some none ∧ Ctx e H R V c' ∧ Idle e (Kept H R) c c'

lemma Gets.idle {c0 : Core} {w w' : Option (Option (Nat × List UInt8))}
    {r : Option (Ip × List UInt8)} (hi : Idle e (Kept H R) c0 c) (h : Gets e E H R V parent c w r c')
    (hw : ∀ r, w = some r → w' = some r) : Gets e E H R V parent c0 w' r c' := by
  rcases r with _ | ⟨i, name⟩
  · obtain ⟨h1, h2, h3⟩ := h
    exact ⟨hw _ h1, h2, hi.trans h3⟩
  · obtain ⟨m, h1, h2, h3, h4⟩ := h
    exact ⟨m, hw _ h1, h2, hi.trans h3, h4⟩

/-- a failure of `ilock` is allowed, or the disk is calm. -/
def Quiet (e : Env) (E : Stop → Prop) (K : Nat → Prop) (c : Core) : Prop :=
  E (.panic "ilock: no type") ∨ Calm (c.node e) K

lemma Quiet.idle (h : Quiet e E K c) (hi : Idle e K c c') : Quiet e E K c' := by
  rcases h with h | h
  · exact .inl h
  · have hn := h.idle hi
    exact .inr (by rw [hn]; exact h)

lemma Quiet.found (h : Quiet e E K c) (hx : c.node e n = some x) (ht : x.d.type = T_DIR)
    (hf : x.find name = some (m, off)) : Live e E c m := by
  rcases h with h | h
  · exact .inl h
  · exact .inr (h.found hx ht hf)

lemma Live.idle (h : Live e E c n) (hq : Quiet e E K c) (hi : Idle e K c c') : Live e E c' n := by
  rcases hq with hq | hq
  · exact .inl hq
  · unfold Live
    rw [hq.idle hi]
    exact h

lemma does_namexLoop (parent : Bool) (hV : ∀ j ∈ V, j ∈ R.map Prod.fst) (fuel : Nat) :
    ∀ {c : Core} {path ip n name}, Ctx e H ((ip, n) :: R) V c → Quiet e E (Kept H R) c →
      Live e E c n → Runs E (namexLoop e parent fuel path ip name)
        (Gets e E H R V parent c (resolve (c.node e) parent fuel path n name)) c := by
  induction fuel with
  | zero => intro c path ip n name _ _ _; exact does_fail (by decide)
  | succ fuel ih =>
    intro c path ip n name h hq hl
    unfold namexLoop resolve
    have hput : ∀ j ∈ V, j ∈ ip :: V ∧ j ∈ R.map Prod.fst :=
      fun j hj => ⟨mem_cons_of_mem _ hj, hV j hj⟩
    cases hs : skipelem path with
    | none =>
      refine does_ite (fun hp => ?_) fun hp => does_pure ⟨n, ?_, h, .of_same (.refl c), hl, ?_⟩
      · refine (does_iput h fun j hj => ⟨hj, hV j hj⟩).seq fun _ c' ⟨h', hi⟩ => does_pure ⟨?_, h', hi⟩
        dsimp only
        rw [if_pos hp]
      · dsimp only
        rw [if_neg hp]
      · exact fun hp' => absurd hp' hp
    | some r =>
      obtain ⟨name, path⟩ := r
      refine (does_ilock h mem_cons_self hl).seq fun _ c1 ⟨h1, hs1⟩ => does_get ?_
      have hnode := h1.nodeOf mem_cons_self mem_cons_self
      have hx : c.node e n = some (c1.nodeOf ip) := by rw [← hs1.node]; exact hnode
      rw [hx]
      dsimp only
      refine does_ite (fun ht => ?_) fun ht => does_ite (fun hp => ?_) fun hp => ?_
      · refine (does_iunlockput h1 hput).seq fun _ c' ⟨h', hi⟩ =>
          does_pure ⟨if_pos ht, h', (Idle.of_same hs1).trans hi⟩
      · refine (does_iunlock h1).seq fun _ c' ⟨h', hs'⟩ => does_pure ⟨n, ?_, h'.weaken
          (fun j hj => mem_cons_of_mem _ hj), .of_same (hs1.trans hs'), ?_, fun _ => ?_⟩
        · exact (if_neg ht).trans (if_pos hp)
        · exact (hl.same hs1).same hs'
        · exact ⟨_, by rw [hs'.node]; exact hnode, Classical.not_not.mp ht⟩
      · replace ht : (c1.nodeOf ip).d.type = T_DIR := Classical.not_not.mp ht
        rw [if_neg (Classical.not_not.mpr ht), if_neg hp]
        refine (does_dirlookup h1 mem_cons_self).seq fun r c2 ⟨_, h2⟩ => ?_
        rcases r with _ | ⟨next, off⟩
        · obtain ⟨hf, hc⟩ := h2
          rw [hf, hc]
          exact (does_iunlockput h1 hput).seq fun _ c' ⟨h', hi⟩ =>
            does_pure ⟨rfl, h', (Idle.of_same hs1).trans hi⟩
        · obtain ⟨k, hf, h2, hs2⟩ := h2
          rw [hf]
          have hs := hs1.trans hs2
          refine (does_iunlockput h2.swap fun j hj => ⟨(hput j hj).1, mem_fst_cons (hput j hj).2⟩).seq
            fun _ c3 ⟨h3, hi3⟩ => ?_
          have hidle : Idle e (Kept H R) c c3 := (Idle.of_same hs).trans
            (hi3.mono fun m hm => hm.imp_right fun ⟨i, hi⟩ => ⟨i, mem_cons_of_mem _ hi⟩)
          have hlive : Live e E c3 k := (hq.found hx ht hf).idle hq hidle
          refine (ih h3 (hq.idle hidle) hlive).mono fun r c' hr => hr.idle hidle fun r hr => ?_
          exact resolve_of_sub (fun n x hx => hidle.eq_of_some hx) fuel hr

lemma does_namex {cn : Nat} (h : Ctx e H R V c) (hi : (cwd, cn) ∈ R) (hq : Quiet e E (Kept H R) c)
    (hl : Live e E c cn) (parent : Bool) : Runs E (namex e parent cwd path)
      (Gets e E H R V parent c (resolvePath (c.node e) parent cn path)) c := by
  have hroot : Live e E c ROOTINO := hq.imp_right Calm.root
  have hstart : Runs E (start cwd path) (fun i c' =>
      Ctx e H ((i, if path.head? = some slash then ROOTINO else cn) :: R) V c' ∧ c.Same c') c := by
    unfold start
    refine does_ite (fun hp => ?_) fun hp => ?_
    · rw [if_pos hp]
      exact does_iget h
    · rw [if_neg hp]
      exact (does_idup h hi).mono fun j c' ⟨hj, h', hs⟩ => by rw [hj]; exact ⟨h', hs⟩
  unfold namex
  refine hstart.seq fun ip c' ⟨h', hs⟩ => ?_
  have hlive : Live e E c (if path.head? = some slash then ROOTINO else cn) := by
    split
    · exact hroot
    · exact hl
  refine (does_namexLoop parent h.sub _ h' (hq.idle (.of_same hs)) (hlive.same hs)).mono
    fun r c'' hr => hr.idle (.of_same hs) fun r hr => ?_
  rw [hs.node] at hr
  exact hr

end Xv6.Fs
