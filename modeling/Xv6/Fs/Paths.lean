import Xv6.Fs.Owned

/-!
# Path lookup is a fold over the elements

The elements of a path are its runs of characters other than `/`, each cut to `DIRSIZ` bytes. `skipelem` takes
the first one (`skipelem_some`), and so `resolve` looks them up one after the other (`walk`).

In a directory tree `namex` does not fail, unless the inode cache is full: it holds one lock at a time, that of
the directory where it looks (`Core.locks`), and two references at most.
-/

namespace Xv6.Fs
open Lib Function List Option

/-! ## the elements of a path -/

def elements (path : List UInt8) : List (List UInt8) :=
  ((path.splitOn slash).filter (· ≠ [])).map (·.take DIRSIZ)

/-- the number that the inode `n` has for `name`, if it is a directory. -/
def lookup (A : Nat → Option Node) (n : Nat) (name : List UInt8) : Option Nat :=
  (A n).bind fun x => if x.d.type = T_DIR then (x.find name).map Prod.fst else none

/-- the names are looked up one after the other. -/
def walk (A : Nat → Option Node) (n : Nat) (names : List (List UInt8)) : Option Nat :=
  names.foldlM (lookup A) n

/-- the last name, and the directory that the names before it lead to. -/
def walkParent (A : Nat → Option Node) (n : Nat) (names : List (List UInt8)) : Option (Nat × List UInt8) :=
  names.getLast?.bind fun name => (walk A n names.dropLast).bind fun m => (A m).bind fun x =>
    if x.d.type = T_DIR then some (m, name) else none

variable {path rest name : List UInt8} {l : List UInt8} {A : Nat → Option Node} {n fuel : Nat}
  {r : Option (Nat × List UInt8)}

lemma elements_slash (l : List UInt8) : elements (slash :: l) = elements l := by
  have h : (slash :: l).splitOn slash = [] :: l.splitOn slash :=
    splitOn_append_cons_self_of_not_mem (not_mem_nil : slash ∉ []) l
  unfold elements
  rw [h]
  rfl

lemma elements_dropWhile (l : List UInt8) : elements (l.dropWhile (· = slash)) = elements l := by
  induction l with
  | nil => rfl
  | cons c l ih =>
    by_cases hc : c = slash
    · rw [dropWhile_cons_of_pos (by simpa using hc), ih, hc, elements_slash]
    · rw [dropWhile_cons_of_neg (by simpa using hc)]

lemma elements_run {w : List UInt8} (hw : w ≠ []) (hs : slash ∉ w) (hl : l.head? = none ∨ l.head? = some slash) :
    elements (w ++ l) = w.take DIRSIZ :: elements l := by
  cases l with
  | nil =>
    unfold elements
    rw [append_nil, splitOn_eq_singleton hs]
    simp [hw]
  | cons c l =>
    obtain rfl : c = slash := some.inj (hl.resolve_left nofun)
    rw [elements_slash]
    unfold elements
    rw [splitOn_append_cons_self_of_not_mem hs]
    simp [hw]

lemma skipelem_none (h : skipelem path = none) : elements path = [] := by
  unfold skipelem at h
  dsimp only at h
  split at h
  · next hs =>
    rw [← elements_dropWhile, hs]
    rfl
  · cases h

lemma head_dropWhile_slash (l : List UInt8) : (l.dropWhile (· = slash)).head? ≠ some slash := by
  intro h
  have h1 := head?_dropWhile_not (fun c => decide (c = slash)) l
  rw [h] at h1
  simp at h1

lemma skipelem_some (h : skipelem path = some (name, rest)) :
    elements path = name :: elements rest ∧ rest.head? ≠ some slash ∧ rest.length < path.length := by
  unfold skipelem at h
  dsimp only at h
  split at h
  · cases h
  · next hs =>
    have hrun := takeWhile_append_dropWhile (p := (· ≠ slash)) (l := path.dropWhile (· = slash))
    obtain ⟨rfl, rfl⟩ := Prod.mk.inj (some.inj h)
    have hne : (path.dropWhile (· = slash)).takeWhile (· ≠ slash) ≠ [] := by
      cases hd : path.dropWhile (· = slash) with
      | nil => exact absurd hd hs
      | cons c t =>
        have hc : c ≠ slash := fun hc => head_dropWhile_slash path (by rw [hd, hc]; rfl)
        rw [takeWhile_cons_of_pos (by simpa using hc)]
        exact cons_ne_nil _ _
    have hnot : slash ∉ (path.dropWhile (· = slash)).takeWhile (· ≠ slash) := fun hm => by
      simpa using mem_takeWhile_imp hm
    refine ⟨?_, head_dropWhile_slash _, ?_⟩
    · rw [← elements_dropWhile path, elements_dropWhile (dropWhile (· ≠ slash) _)]
      conv_lhs => rw [← hrun]
      apply elements_run hne hnot
      cases hd : (path.dropWhile (· = slash)).dropWhile (· ≠ slash) with
      | nil => exact .inl rfl
      | cons c t =>
        have h1 := head?_dropWhile_not (fun c => decide (c ≠ slash)) (path.dropWhile (· = slash))
        rw [hd] at h1
        exact .inr (congrArg some (by simpa using h1))
    · have h1 := congrArg length hrun
      have h2 := length_pos_iff.mpr hne
      have h3 := (dropWhile_sublist (· = slash) (l := path)).length_le
      have h4 := (dropWhile_sublist (· = slash) (l := (path.dropWhile (· = slash)).dropWhile (· ≠ slash))).length_le
      rw [length_append] at h1
      omega

lemma elements_nil (h : rest.head? ≠ some slash) : elements rest = [] ↔ rest = [] := by
  refine ⟨fun he => ?_, fun hr => hr ▸ rfl⟩
  cases hs : skipelem rest with
  | none =>
    unfold skipelem at hs
    dsimp only at hs
    split at hs
    · next hd =>
      cases rest with
      | nil => rfl
      | cons c t =>
        rw [dropWhile_cons_of_neg (by simpa using fun hc => h (congrArg some hc))] at hd
        exact hd
    · cases hs
  | some p =>
    rw [(skipelem_some hs).1] at he
    cases he

/-! ## the fold -/

lemma walk_cons (names : List (List UInt8)) : walk A n (name :: names) = (lookup A n name).bind fun m => walk A m names :=
  rfl

lemma lookup_eq {x : Node} (hx : A n = some x) :
    lookup A n name = if x.d.type = T_DIR then (x.find name).map Prod.fst else none := by
  rw [lookup, hx]
  rfl

lemma resolve_walk (h : resolve A false fuel path n name = some r) : r.map Prod.fst = walk A n (elements path) := by
  induction fuel generalizing path n name with
  | zero => cases h
  | succ fuel ih =>
    unfold resolve at h
    cases hs : skipelem path with
    | none =>
      rw [hs] at h
      cases h
      rw [skipelem_none hs]
      rfl
    | some p =>
      obtain ⟨nm, rest⟩ := p
      rw [hs] at h
      rw [(skipelem_some hs).1, walk_cons]
      cases hx : A n with
      | none => simp [hx] at h
      | some x =>
        rw [lookup_eq hx]
        by_cases ht : x.d.type = T_DIR
        · rw [if_pos ht]
          cases hf : x.find nm with
          | none =>
            simp only [hx, ht, hf] at h
            cases h
            rfl
          | some q =>
            simp only [hx, ht, hf] at h
            exact ih h
        · simp only [hx] at h
          rw [if_pos ht] at h
          cases h
          rw [if_neg ht]
          rfl

lemma resolve_parent (h : resolve A true fuel path n name = some r) : r = walkParent A n (elements path) := by
  induction fuel generalizing path n name with
  | zero => cases h
  | succ fuel ih =>
    unfold resolve at h
    cases hs : skipelem path with
    | none =>
      rw [hs] at h
      cases h
      rw [skipelem_none hs]
      rfl
    | some p =>
      obtain ⟨nm, rest⟩ := p
      obtain ⟨he, hhead, -⟩ := skipelem_some hs
      rw [hs] at h
      rw [he]
      cases hx : A n with
      | none => simp [hx] at h
      | some x =>
        by_cases hr : rest = []
        · -- `nm` is the last element
          rw [(elements_nil hhead).mpr hr]
          by_cases ht : x.d.type = T_DIR <;> simp [hx, ht, hr] at h <;> simp [walkParent, walk, hx, ht, h]
        · have hne : elements rest ≠ [] := fun he => hr ((elements_nil hhead).mp he)
          have hcons : walkParent A n (nm :: elements rest) =
              (lookup A n nm).bind fun m => walkParent A m (elements rest) := by
            unfold walkParent
            rw [getLast?_cons_of_ne_nil hne, dropLast_cons_of_ne_nil hne]
            simp only [walk_cons]
            cases lookup A n nm with
            | none => simp
            | some => rfl
          rw [hcons, lookup_eq hx]
          simp only [hx, true_and, if_neg hr] at h
          by_cases ht : x.d.type = T_DIR
          · rw [if_neg (not_not.mpr ht)] at h
            rw [if_pos ht]
            cases hf : x.find nm with
            | none =>
              rw [hf] at h
              cases h
              rfl
            | some q =>
              rw [hf] at h
              exact ih h
          · rw [if_pos ht] at h
            cases h
            rw [if_neg ht]
            rfl

/-! ## locks -/

variable {e : Env} {E : Stop → Prop} {c : Core} {i cwd : Ip} {H : Holders} {R : Refs} {V : List Ip}
  {L : Ip → Bool}

lemma update_unlocked (hl : L i = false) : update L i false = L := by
  rw [← hl]
  exact update_eq_self ..

lemma ilock_locks (h : Ctx e H R V c) (hi : (i, n) ∈ R) (hn : c.node e n ≠ none) (hl : c.locks i = false) :
    Runs E (ilock e i) (fun _ c' => c'.locks = update c.locks i true) c := by
  have hnum : (c.inode i).inum = n := h.num _ hi
  obtain ⟨hlt, hty⟩ : n < e.ninodes ∧ (c.dinode n).type ≠ 0 := by
    by_contra hx
    exact hn (nodeAt_none hx)
  have hr : 0 < (c.inode i).ref := h.ref_pos (mem_map_of_mem hi)
  unfold ilock
  refine does_get (does_ite (fun h0 => absurd hr (by omega)) fun _ => ?_)
  generalize hy : ({ c.inode i with locked := true } : Inode) = y
  have hk : (c.setInode i y).locks = update c.locks i true := by rw [locks_setInode, ← hy]
  have hself : ((c.setInode i y).inode i).inum = n := by rw [c.setInode_self, ← hy, ← hnum]
  refine Runs.seq (Q := fun _ c' => c' = c.setInode i y) ?_ fun _ c' hc => ?_
  · unfold acquire
    refine does_get (does_ite (fun hb => ?_) fun _ => does_modify (by rw [hy]))
    exact absurd (hl.symm.trans hb) Bool.false_ne_true
  · rw [hc]
    unfold load
    refine does_get (does_ite (fun _ => does_pure hk) fun _ => does_ite (fun h1 => ?_) fun _ => ?_)
    · rw [hself] at h1
      exact absurd hlt (Nat.not_lt.mpr h1)
    · refine does_modify_seq (does_ite (fun h1 => ?_) fun _ => does_pure (Eq.trans (locks_keep ?_) hk))
      · rw [hself] at h1
        exact absurd h1 hty
      · rfl

lemma iunlock_locks (hr : 0 < (c.inode i).ref) (hl : c.locks i = true) :
    Runs E (iunlock i) (fun _ c' => c'.locks = update c.locks i false) c := by
  unfold iunlock
  refine does_get (does_ite (fun hx => ?_) fun _ => does_modify locks_setInode)
  rcases hx with hx | hx
  · exact absurd (hx.symm.trans hl) Bool.false_ne_true
  · omega

/-- an inode that has links, or is held by someone else, is not freed. -/
theorem iput_locks (h : Ctx e H ((i, n) :: R) V c) (hl : c.locks i = false)
    (hk : ∀ x, c.node e n = some x → x.d.nlink = 0 → Kept H R n) :
    Runs E (iput e i) (fun _ c' => c'.locks = c.locks) c := by
  have hnum : (c.inode i).inum = n := h.num _ mem_cons_self
  have hr : 0 < (c.inode i).ref := h.ref_pos mem_fst_head
  unfold iput
  refine Runs.seq (Q := fun _ c' => c' = c.setInode i { c.inode i with locked := true }) ?_ fun _ c' hc => ?_
  · unfold acquire
    refine does_get (does_ite (fun hb => ?_) fun _ => does_modify rfl)
    exact absurd (hl.symm.trans hb) Bool.false_ne_true
  · rw [hc]
    refine does_get (Runs.seq (Q := fun _ c' => c' = c.setInode i { c.inode i with locked := true }) ?_
      fun _ c' hc => ?_)
    · refine does_ite (fun hx => ?_) fun _ => does_pure rfl
      rw [c.setInode_self] at hx
      obtain ⟨hv, h0, h1⟩ := hx
      refine absurd (hk ((c.inode i).d.node c.data) ?_ h0) (h.last.mp h1)
      rw [← hnum]
      exact (h.inv.copy i ⟨hr, hv⟩).node_eq
    · rw [hc]
      refine does_modify_seq (does_modify (Eq.trans (locks_keep ?_) ?_))
      · rfl
      · rw [locks_setInode, locks_setInode, update_idem]
        exact update_unlocked hl

lemma iunlockput_locks (h : Ctx e H ((i, n) :: R) V c) (hc : c.locks = update L i true) (hl : L i = false)
    (hk : ∀ x, c.node e n = some x → x.d.nlink = 0 → Kept H R n) :
    Runs E (iunlockput e i) (fun _ c' => c'.locks = L) c := by
  have hr : 0 < (c.inode i).ref := h.ref_pos mem_fst_head
  unfold iunlockput
  refine ((iunlock_locks hr (by rw [hc, update_self])).and (does_iunlock (E := Safe) h)).seq
    fun _ c' ⟨hc', h', hs⟩ => ?_
  have hL : c'.locks = L := by rw [hc', hc, update_idem, update_unlocked hl]
  rw [← hs.node] at hk
  exact (iput_locks h' (by rw [hL]; exact hl) hk).mono fun _ _ hq => hq.trans hL

/-! ## directory trees -/

/-- the directories consist of entries, which lead to allocated inodes; an inode without links is one of `K`. -/
structure Tree (A : Nat → Option Node) (K : Nat → Prop) : Prop where
  calm : Calm A K
  whole : ∀ n x, A n = some x → x.d.type = T_DIR → DESIZE ∣ x.d.size ∧ x.d.size ≤ MAXFILE * BSIZE

lemma Tree.legible {K : Nat → Prop} {x : Node} (h : Tree A K) (hx : A n = some x) (ht : x.d.type = T_DIR) (off : Nat)
    (ho : off ∈ offsets 0 x.d.size) {msg : String} : Legible E msg x.d off := by
  obtain ⟨⟨k, hk⟩, hmax⟩ := h.whole n x hx ht
  obtain ⟨t, hm, rfl⟩ := mem_map.mp ho
  have ht := mem_range.mp hm
  refine .inr ⟨?_, hmax⟩
  rw [hk] at ht ⊢
  show 0 + 16 * t + 16 ≤ 16 * k
  replace ht : t < (16 * k - 0 + 15) / 16 := ht
  omega

/-- two entries of the cache are free. -/
def Spare (ref : Ip → Int) : Prop := ∃ a b : Ip, a ≠ b ∧ ref a = 0 ∧ ref b = 0

lemma Spare.one (h : Spare fun j => ((R.map Prod.fst).count j + H.ref j : Nat)) (hc : Ctx e H ((i, n) :: R) V c) :
    ∃ j, (c.inode j).ref = 0 := by
  obtain ⟨a, b, hab, ha, hb⟩ := h
  have hne : ∀ j, j ≠ i → (c.inode j).ref = ((R.map Prod.fst).count j + H.ref j : Nat) := fun j hj => by
    rw [hc.refs j]
    show (((i :: R.map Prod.fst).count j + H.ref j : Nat) : Int) = _
    rw [count_cons_of_ne (Ne.symm hj)]
  by_cases hai : a = i
  · exact ⟨b, (hne b fun hbi => hab (hai.trans hbi.symm)).trans hb⟩
  · exact ⟨a, (hne a hai).trans ha⟩

lemma namexLoop_locks (hF : E (.panic "iget: no inodes") ∨ Spare fun j => ((R.map Prod.fst).count j + H.ref j : Nat))
    (parent : Bool) (fuel : Nat) : ∀ {c : Core} {path i n name}, path.length < fuel → Ctx e H ((i, n) :: R) [] c →
      Tree (c.node e) (Kept H R) → c.node e n ≠ none → (∀ j, c.locks j = false) →
      Runs E (namexLoop e parent fuel path i name) (fun _ c' => ∀ j, c'.locks j = false) c := by
  induction fuel with
  | zero => exact fun h => absurd h (Nat.not_lt_zero _)
  | succ fuel ih =>
    intro c path i n name hlen h ht hn hl
    unfold namexLoop
    cases hs : skipelem path with
    | none =>
      refine does_ite (fun _ => ?_) fun _ => does_pure hl
      exact (iput_locks h (hl i) (ht.calm.orphan n)).seq fun _ c' hc => does_pure (by rw [hc]; exact hl)
    | some r =>
      obtain ⟨name, rest⟩ := r
      have hlt := (skipelem_some hs).2.2
      refine ((ilock_locks h mem_cons_self hn (hl i)).and (does_ilock (E := Safe) h mem_cons_self
        (.inr hn))).seq fun _ c1 hc1 => does_get ?_
      obtain ⟨hk1, h1, hs1⟩ := hc1
      have hnode := h1.nodeOf mem_cons_self mem_cons_self
      rw [← hs1.node] at ht
      -- the lock and the reference are given back
      have hput : ∀ {R' c'}, Ctx e H ((i, n) :: R') [i] c' → c'.locks = c1.locks → c'.node e = c1.node e →
          (∀ m, Kept H R m → Kept H R' m) → Runs E (iunlockput e i) (fun _ c' => c'.locks = c.locks) c' :=
        fun h' hk hn' hsub => iunlockput_locks h' (hk.trans hk1) (hl i)
          fun x hx h0 => hsub n (ht.calm.orphan n x (by rw [← hn']; exact hx) h0)
      refine does_ite (fun _ => ?_) fun hd => does_ite (fun _ => ?_) fun _ => ?_
      · exact (hput h1 rfl rfl fun _ hm => hm).seq fun _ c' hc => does_pure (by rw [hc]; exact hl)
      · refine (iunlock_locks (h1.ref_pos mem_fst_head) (by rw [hk1, update_self])).seq fun _ c' hc => does_pure ?_
        rw [hc, hk1, update_idem, update_unlocked (hl i)]
        exact hl
      · replace hd : (c1.nodeOf i).d.type = T_DIR := Classical.not_not.mp hd
        have hlook : Runs E (dirlookup e i name) (fun r c' =>
            Found e H ((i, n) :: R) [i] c1 ((c1.nodeOf i).find name) r c' ∧ c'.locks = c1.locks) c1 := by
          unfold dirlookup
          refine does_get (does_ite (fun hx => absurd hd hx) fun _ => ?_)
          exact does_lookupLoop (hF.imp_right fun hF => hF.one h1) h1 mem_cons_self (by
            show (c1.nodeOf i).d.type ≠ T_DEV
            rw [hd]
            decide) _ fun off ho => ht.legible hnode hd off ho
        refine hlook.seq fun r c2 hc2 => ?_
        obtain ⟨h2, hk2⟩ := hc2
        rcases r with _ | ⟨next, off⟩
        · obtain ⟨-, hc⟩ := h2
          rw [hc]
          exact (hput h1 rfl rfl fun _ hm => hm).seq fun _ c' hc => does_pure (by rw [hc]; exact hl)
        · obtain ⟨k, hf, h2, hs2⟩ := h2
          have hsub : ∀ m, Kept H R m → Kept H ((next, k) :: R) m :=
            fun m hm => hm.imp_right (Exists.imp fun _ => mem_cons_of_mem _)
          have hdown : Does (iunlockput e i) (fun _ c' => Ctx e H ((next, k) :: R) [] c' ∧
              Idle e (Kept H ((next, k) :: R)) c2 c') c2 := does_iunlockput h2.swap fun _ hv => by cases hv
          refine ((hput h2.swap hk2 hs2.node hsub).and hdown).seq fun _ c3 hc3 => ?_
          obtain ⟨hk3, h3, hi3⟩ := hc3
          -- nothing is freed
          have hsame : c3.node e = c1.node e := by
            rw [← hs2.node] at ht ⊢
            exact ht.calm.idle (hi3.mono hsub)
          refine ih (by omega) h3 (by rw [hsame]; exact ht) ?_ (by rw [hk3]; exact hl)
          rw [hsame]
          exact ht.calm.found hnode hd hf

/-! ## `namei` and `nameiparent` -/

/-- what a look-up leaves: the disk is as before, the result is referenced once more, and nothing is locked. -/
structure Returned (c : Core) (r : Option Ip) (c' : Core) : Prop where
  disk : c.Same c'
  refs : ∀ j, (c'.inode j).ref = (c.inode j).ref + if r = some j then 1 else 0
  unlocked : ∀ j, c'.locks j = false

/-- the file system between two calls: its directories are a tree, and every inode without links is held. -/
structure Settled (e : Env) (cwd : Ip) (c : Core) : Prop where
  ready : Ready e c
  unlocked : ∀ j, c.locks j = false
  held : 1 ≤ (c.inode cwd).ref
  cwd : c.node e (c.inode cwd).inum ≠ none
  tree : Tree (c.node e) fun n => ∃ i, 0 < (c.inode i).ref ∧ (c.inode i).inum = n

/-- the failure for want of an entry in the inode cache, of which less than two are free. -/
def Full (c : Core) (x : Stop) : Prop := x = .panic "iget: no inodes" ∧ ¬ Spare fun j => (c.inode j).ref

lemma namex_locks (hF : E (.panic "iget: no inodes") ∨ Spare fun j => (c.inode j).ref) (h : Ctx e H R [] c)
    (hi : (cwd, n) ∈ R) (ht : Tree (c.node e) (Kept H R)) (hn : c.node e n ≠ none) (hl : ∀ j, c.locks j = false)
    (parent : Bool) : Runs E (namex e parent cwd path) (fun _ c' => ∀ j, c'.locks j = false) c := by
  have hstart : Runs E (start cwd path) (fun i c' =>
      (Ctx e H ((i, if path.head? = some slash then ROOTINO else n) :: R) [] c' ∧ c.Same c') ∧ c'.locks = c.locks) c := by
    unfold start
    refine does_ite (fun hp => ?_) fun hp => ?_
    · rw [if_pos hp]
      exact does_iget_room (hF.imp_right fun ⟨a, _, _, ha, _⟩ => ⟨a, ha⟩) h
    · rw [if_neg hp]
      have hk : Runs E (idup cwd) (fun _ c' => c'.locks = c.locks) c := does_modify_seq (does_pure (locks_keep ?_))
      · refine (hk.and (does_idup (E := Safe) h hi)).mono fun j c' ⟨hk, hj, h', hs⟩ => ?_
        rw [hj]
        exact ⟨⟨h', hs⟩, hk⟩
      · rfl
  unfold namex
  refine hstart.seq fun i c' ⟨⟨h', hs⟩, hk⟩ => ?_
  rw [funext h.refs] at hF
  refine namexLoop_locks hF parent _ (Nat.lt_succ_self _) h' (by rw [hs.node]; exact ht) ?_ (by rw [hk]; exact hl)
  rw [hs.node]
  split
  · exact ht.calm.root
  · exact hn

lemma Gets.returned {parent : Bool} {w : Option (Option (Nat × List UInt8))} {r : Option (Ip × List UInt8)} {c' : Core}
    (h : Ctx e H R [] c) (ht : Calm (c.node e) (Kept H R)) (hg : Gets e Safe H R [] parent c w r c')
    (hl : ∀ j, c'.locks j = false) :
    Returned c (r.map Prod.fst) c' ∧ w = some (r.map fun p => ((c'.inode p.1).inum, p.2)) := by
  rcases r with _ | ⟨i, name⟩
  · obtain ⟨hw, h', hi⟩ := hg
    refine ⟨⟨hi.same (ht.idle hi), fun j => ?_, hl⟩, hw⟩
    rw [h.refs, h'.refs]
    simp
  · obtain ⟨m, hw, h', hi, -⟩ := hg
    refine ⟨⟨hi.same (ht.idle hi), fun j => ?_, hl⟩, ?_⟩
    · rw [h.refs, h'.refs]
      by_cases hj : i = j
      · simp [hj]
        omega
      · simp [hj]
    · rw [hw]
      show _ = some (some ((c'.inode i).inum, name))
      rw [h'.num _ mem_cons_self]

/-- **Path lookup is a fold over the path's elements**, from the root or the current directory, unless the inode
cache is full. -/
theorem path_lookup_folds {s : State} (h : Settled e cwd s.core) (path : List UInt8) :
    wp (Full s.core) (namei e cwd path) (fun r s' => Returned s.core r s'.core ∧
      r.map (fun i => (s'.core.inode i).inum) = walk (s.core.node e)
        (if path.head? = some slash then ROOTINO else (s.core.inode cwd).inum) (elements path)) s ∧
    wp (Full s.core) (nameiparent e cwd path) (fun r s' => Returned s.core (r.map Prod.fst) s'.core ∧
      r.map (fun p => ((s'.core.inode p.1).inum, p.2)) = walkParent (s.core.node e)
        (if path.head? = some slash then ROOTINO else (s.core.inode cwd).inum) (elements path)) s := by
  have hctx := h.ready.bring h.held
  have ht : Tree (s.core.node e) (Kept (s.core.others cwd) [(cwd, (s.core.inode cwd).inum)]) := by
    refine ⟨⟨fun n x hx h0 => ?_, h.tree.calm.entry, h.tree.calm.root⟩, h.tree.whole⟩
    obtain ⟨i, hi, rfl⟩ := h.tree.calm.orphan n x hx h0
    exact hctx.kept hi
  have hF : Full s.core (.panic "iget: no inodes") ∨ Spare fun j => (s.core.inode j).ref := by
    by_cases hs : Spare fun j => (s.core.inode j).ref
    · exact .inr hs
    · exact .inl ⟨rfl, hs⟩
  have hrun : ∀ parent, wp (Full s.core) (namex e parent cwd path) (fun r s' => Returned s.core (r.map Prod.fst) s'.core ∧
      resolvePath (s.core.node e) parent (s.core.inode cwd).inum path =
        some (r.map fun p => ((s'.core.inode p.1).inum, p.2))) s := fun parent =>
    wp_mono (((namex_locks hF hctx mem_cons_self ht h.cwd h.unlocked parent).and
      (does_namex (E := Safe) hctx mem_cons_self (.inr ht.calm) (.inr h.cwd) parent)) s rfl)
      fun r s' ⟨hl, hg⟩ => hg.returned hctx ht.calm hl
  constructor
  · refine wp_seq (hrun false) fun r s' ⟨hr, hw⟩ => wp_pure ⟨hr, ?_⟩
    have hfold := resolve_walk hw
    rw [← hfold, Option.map_map, Option.map_map]
    rfl
  · exact wp_mono (hrun true) fun r s' ⟨hr, hw⟩ => ⟨hr, resolve_parent hw⟩

lemma mkfs_settled : Settled mkfsEnv root (mkfs 0).core := by
  refine ⟨.boot (mkfs_owned 0) (mkfs_whole (by decide)), fun _ => rfl, by decide, mkfs_root,
    ⟨fun n x hx h0 => absurd h0 (mkfs_linked n x hx), fun n x off hx _ ho h0 => ?_, mkfs_root⟩, fun n x hx _ => ?_⟩
  · have hone : ∀ off ∈ offsets 0 512, deInum (((rootDinode 0).node (mkfs 0).core.data).de off) ≤ 1 := by decide +kernel
    rw [← (mkfs_node hx).2] at ho h0 ⊢
    have hinum : deInum (((rootDinode 0).node (mkfs 0).core.data).de off) = ROOTINO :=
      Nat.le_antisymm (hone off ho) (Nat.one_le_iff_ne_zero.mpr h0)
    rw [hinum]
    exact mkfs_root
  · rw [← (mkfs_node hx).2]
    decide

/-- "/./../." is the root, and "/../..//x" a name in it. -/
theorem path_lookup_folds_dots : wp (Full (mkfs 0).core) (namei mkfsEnv root [47, 46, 47, 46, 46, 47, 46])
      (fun r s' => r.map (fun i => (s'.core.inode i).inum) = some ROOTINO) (mkfs 0) ∧
    wp (Full (mkfs 0).core) (nameiparent mkfsEnv root [47, 46, 46, 47, 46, 46, 47, 47, 120])
      (fun r s' => r.map (fun p => ((s'.core.inode p.1).inum, p.2)) = some (ROOTINO, [120])) (mkfs 0) := by
  have hwalk : walk ((mkfs 0).core.node mkfsEnv) ROOTINO (elements [47, 46, 47, 46, 46, 47, 46]) = some ROOTINO := by
    decide +kernel
  have hparent : walkParent ((mkfs 0).core.node mkfsEnv) ROOTINO
      (elements [47, 46, 46, 47, 46, 46, 47, 47, 120]) = some (ROOTINO, [120]) := by decide +kernel
  exact ⟨wp_mono (path_lookup_folds mkfs_settled _).1 fun r s' h => h.2.trans hwalk,
    wp_mono (path_lookup_folds mkfs_settled _).2 fun r s' h => h.2.trans hparent⟩

end Xv6.Fs
