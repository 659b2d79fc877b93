import Xv6.Sys.Inodes

/-!
# Every call, from one good state to the next

`Turn` says what a call has done, by its result: at most one edit of the disk, and which one
(`Op.Does`); and that a call on a name that returns -1 leaves the tables as they are. The lemmas
follow the calls of `sysfile.c`; `does_op` puts them together.
-/

set_option linter.unusedSectionVars false

namespace Xv6.Sys
open Lib Fs Function List Sys.State Option

/-- the edit that a call makes, by its result; `cn` is the number of the current directory. -/
def Op.Does (e : Env) (s : State) (p : Slot) (cn : Nat) : Op → Int → Option Edit → Prop
  | .open (some path) omode, r, o =>
    if omode &&& O_CREATE ≠ 0 then
      Makes e T_FILE 0 0 (resolvePath (s.fs.core.node e) true cn path) s.fs.core o ∧
        (r = -1 → s.room p = false ∨ o = none)
    else o = none
  | .mkdir (some path), r, o =>
    Makes e T_DIR 0 0 (resolvePath (s.fs.core.node e) true cn path) s.fs.core o ∧ (r = -1 → o = none)
  | .mknod (some path) major minor, r, o =>
    Makes e T_DEV (short major) (short minor) (resolvePath (s.fs.core.node e) true cn path) s.fs.core o ∧
      (r = -1 → o = none)
  | .link (some (old, new)), r, o =>
    Links (resolvePath (s.fs.core.node e) false cn old) (resolvePath (s.fs.core.node e) true cn new)
      (decide (r = 0)) o
  | .unlink (some path), r, o =>
    Unlinks (resolvePath (s.fs.core.node e) true cn path) (decide (r = 0)) o
  | .write fd src, _, o => o = none ∨ ∃ q f i, s.argfd p fd = some (q, f) ∧ (s.file f).inode = some i ∧
      (s.file f).writable = true ∧ o = some (.write (s.fs.core.inode i).inum (s.file f).off src)
  | _, _, o => o = none

/-- a call on a name. -/
def Op.named : Op → Bool
  | .open .. | .mkdir .. | .mknod .. | .link .. | .unlink .. | .chdir .. => true
  | _ => false

/-- the other processes keep their current directories, and the files that stay open their inodes. -/
structure Held (s : State) (p : Slot) (s' : State) : Prop where
  file : ∀ f i, (s.file f).inode = some i → (s'.file f).inode = none ∨
    (s'.file f).inode = some i ∧ (s'.fs.core.inode i).inum = (s.fs.core.inode i).inum
  cwd : ∀ q i, q ≠ p → s.cwd q = some i → s'.cwd q = some i ∧ (s'.fs.core.inode i).inum = (s.fs.core.inode i).inum

structure Turn (e : Env) (s : State) (p : Slot) (cwd : Ip) (a : Op) (r : Int) (s' : State) : Prop where
  effect : ∃ o, Effect e (fun n => s.held n ∧ s'.held n) o s.fs.core s'.fs.core ∧
    a.Does e s p (s.fs.core.inode cwd).inum r o ∧
    (o ≠ none ∨ a.named = true ∧ r = -1 → ∀ n, s.held n → s'.held n)
  tables : a.named = true → r = -1 → s'.file = s.file ∧ s'.ofile = s.ofile ∧ s'.cwd = s.cwd
  held : Held s p s'

/-- a call leads to a good state, by its turn. -/
abbrev Leads (e : Env) (J T : Prop) (s : State) (p : Slot) (cwd : Ip) (a : Op) (r : Int) (s' : State) : Prop :=
  Good e J T s' ∧ (J → Turn e s p cwd a r s')

variable {e : Env} {J T : Prop} {E : Stop → Prop} [Allows E] {s s' : State} {f : Fp} {p : Slot} {fd : Fd}
  {i cwd ip : Ip} {n m cn : Nat} {R : Refs} {V : List Ip} {c c' : Core} {H : Holders}
  {path : List UInt8} {omode : UInt32}
variable {a : Op} {r : Int} {o : Option Edit} {w : Option (Option (Nat × List UInt8))} {x : File}

lemma no_edit {P : Prop} (ha : a.named = true → r ≠ -1)
    (h : (none : Option Edit) ≠ none ∨ a.named = true ∧ r = -1) : P := by
  rcases h with h | ⟨h1, h2⟩
  · exact absurd rfl h
  · exact absurd h2 (ha h1)

lemma Op.Does.creates (h : (Op.open (some path) omode).Does e s p cn r o) (hc : omode &&& O_CREATE ≠ 0) :
    Makes e T_FILE 0 0 (resolvePath (s.fs.core.node e) true cn path) s.fs.core o ∧
      (r = -1 → s.room p = false ∨ o = none) := by
  unfold Op.Does at h
  exact (if_pos hc).mp h

lemma Op.Does.opens (h : (Op.open (some path) omode).Does e s p cn r o)
    (hc : ¬ omode &&& O_CREATE ≠ 0) : o = none := by
  unfold Op.Does at h
  exact (if_neg hc).mp h

lemma does_endOp {E : Stop → Prop} : Runs E endOp (fun _ c' => c' = c) c := by
  intro s hs
  exact wp_modify (by rw [← hs])

/-! ## `open` -/

/-- an inode, locked, that is opened. -/
def Inside (e : Env) (H : Holders) (R : Refs) (V : List Ip) (omode : UInt32)
    (w : Option (Option (Nat × List UInt8))) (c : Core) : Option Ip → Core → Prop
  | none, c' => Ctx e H R V c' ∧ Idle e (Kept H R) c c' ∧ (omode &&& O_CREATE ≠ 0 → Old e c w)
  | some ip, c' => ∃ m x o, Ctx e H ((ip, m) :: R) (ip :: V) c' ∧ Effect e (Kept H R) o c c' ∧
      c'.node e m = some x ∧ (omode ≠ O_RDONLY → x.d.type ≠ T_DIR) ∧
      (if omode &&& O_CREATE ≠ 0 then Makes e T_FILE 0 0 w c o else o = none)

section
variable (h : Ctx e H R V c) (hi : (cwd, cn) ∈ R) (hq : Fs.Quiet e E (Kept H R) c) (hl : Live e E c cn)
include h hi hq hl

lemma does_openOld (hc : ¬ omode &&& O_CREATE ≠ 0) :
    Runs E (openOld e (omode = O_RDONLY) cwd path) (Inside e H R V omode w c) c := by
  unfold openOld
  refine (does_namei h hi hq hl).seq fun r c1 h1 => ?_
  cases r with
  | none =>
    obtain ⟨-, h1, hi1⟩ := h1
    exact does_pure ⟨h1, hi1, fun hn => absurd hn hc⟩
  | some ip =>
    obtain ⟨m, nm, -, h1, hi1, hl1⟩ := h1
    refine (does_ilock h1 mem_cons_self hl1).seq fun _ c2 ⟨h2, hs2⟩ => does_get ?_
    have hi2 := hi1.trans (.of_same hs2)
    refine does_ite (fun _ => (does_put h2 h.sub).seq fun _ c3 ⟨h3, hi3⟩ => ?_) fun ht => ?_
    · exact does_pure ⟨h3, hi2.trans hi3, fun hn => absurd hn hc⟩
    · refine does_pure ⟨m, c2.nodeOf ip, none, h2, .idle hi2, h2.nodeOf mem_cons_self mem_cons_self,
        fun hr hd => ht ⟨hd, decide_eq_false hr⟩, ?_⟩
      rw [if_neg hc]

lemma does_openInode : Runs E (openInode e cwd path omode)
      (Inside e H R V omode (resolvePath (c.node e) true cn path) c) c := by
  unfold openInode
  refine does_begin (does_ite (fun hc => ?_) fun hc => does_openOld h hi hq hl hc)
  refine (does_create h hi hq hl (by decide) 0 0).mono fun r c' h' => ?_
  cases h' with
  | no h' hi' ho => exact ⟨h', hi', fun _ => ho⟩
  | old _ h' hi' ho hx hxt =>
    refine ⟨_, _, none, h', .idle hi', hx, fun _ => file_ne_dir hxt, ?_⟩
    rw [if_pos hc]
    exact ho
  | made hw h1 hm h2 h' =>
    obtain ⟨x, hx, hxt⟩ := h'.made hm h2
    refine ⟨_, x, _, h', .make h1 hm h2, hx, fun _ => file_ne_dir hxt, ?_⟩
    rw [if_pos hc]
    exact ⟨⟨rfl, rfl, rfl⟩, hw⟩

end

/-- what is known of the file system while a call has the reference of the current directory. -/
abbrev State.lent (s : State) (i : Ip) (T : Prop) : Holders := hold (less s.iref i) s.fs.core T

/-- an entry of the inode cache, with the number of its inode. -/
abbrev State.entry (s : State) (i : Ip) : Ip × Nat := (i, (s.fs.core.inode i).inum)

/-- the inodes that stay while the reference of `i` is lent. -/
abbrev State.kept (s : State) (i : Ip) (T : Prop) : Nat → Prop := Kept (s.lent i T) [s.entry i]

abbrev State.Lends (e : Env) (s : State) (i : Ip) (T : Prop) (V : List Ip) (c : Core) : Prop :=
  Ctx e (s.lent i T) [s.entry i] V c

lemma Good.done (h : Good e J T s) (s' : State) (hi : 0 < s.iref i) (ht : Tab (fun _ => 0) [] s')
    (hb : Books s') (ha : Aside s s') {a : Op} {r : Int}
    (hc : J → s.Lends e i T V s'.fs.core ∧
      ∃ o, Effect e (s.kept i T) o s.fs.core s'.fs.core ∧ a.Does e s p (s.fs.core.inode cwd).inum r o)
    (htab : a.named = true → r = -1 → s'.file = s.file ∧ s'.ofile = s.ofile ∧ s'.cwd = s.cwd) :
    Leads e J T s p cwd a r s' := by
  refine ⟨h.back (V := V) hi ht hb ha fun hj => ?_, fun hj => ?_⟩
  · obtain ⟨h1, o, h2, -⟩ := hc hj
    exact ⟨h1, o, h2⟩
  · obtain ⟨h1, o, h2, h3⟩ := hc hj
    have hnum : ∀ j, 0 < s.iref j → (s'.fs.core.inode j).inum = (s.fs.core.inode j).inum :=
      fun j hj => h1.inum_eq (mem_singleton_self _) hj
    refine ⟨⟨o, h2.mono fun n hn => kept_lend hn.1, h3, fun _ n ⟨j, hj, hn⟩ => ⟨j, ?_, ?_⟩⟩, htab,
      fun f j hf => .inr ⟨(ha.inode f).trans hf, hnum j (iref_file hf)⟩, fun q j _ hq => ⟨?_, ?_⟩⟩
    · rw [ha.iref]
      exact hj
    · exact (hnum j hj).trans hn
    · rw [ha.cwd]
      exact hq
    · exact hnum j (iref_cwd hq)

lemma Books.opened (h : Books s) (hf : (s.file f).type = .FD_NONE) (ip : Ip) (omode : UInt32) :
    Books ((s.setFile f ((s.file f).opened ip omode)).add (.take f)) := by
  have hend : ∀ g k w, ((s.setFile f ((s.file f).opened ip omode)).file g).IsEnd k w ↔ (s.file g).IsEnd k w := by
    intro g k w
    by_cases hg : g = f
    · rw [hg, s.setFile_self]
      refine ⟨fun h => ?_, fun h => ?_⟩
      · cases h.type
      · have ht := h.type
        rw [hf] at ht
        cases ht
    · rw [s.setFile_of_ne _ hg]
  refine ⟨fun k w => ?_, fun g g' k w hg hg' => ?_, h.any, fun g => ?_, fun k => ?_⟩
  · show (∃ y, s.page k = some y ∧ _) ↔ ∃ g, ((s.setFile f ((s.file f).opened ip omode)).file g).IsEnd k w
    simp only [hend]
    exact h.opens k w
  · exact h.one g g' k w ((hend g k w).mp hg) ((hend g' k w).mp hg')
  · have ht := h.took g
    show (Event.take f :: s.did).count _ = (Event.take f :: s.did).count _ +
      if ((s.setFile f ((s.file f).opened ip omode)).file g).type = _ then 0 else 1
    have hd : (Event.take f :: s.did).count (.drop g) = s.did.count (.drop g) :=
      count_cons_of_ne fun h => by cases h
    rw [hd]
    by_cases hg : g = f
    · rw [hg, hf, if_pos rfl] at ht
      rw [hg, s.setFile_self, count_cons_self, ht, if_neg fun h => (by cases h)]
    · rw [s.setFile_of_ne _ hg, count_cons_of_ne fun h => hg (Event.take.inj h).symm]
      exact ht
  · show (Event.take f :: s.did).count _ = (Event.take f :: s.did).count _ + _
    rw [count_cons_of_ne fun h => (by cases h), count_cons_of_ne fun h => (by cases h)]
    exact h.pages k

lemma opened_inode (x : File) (ip : Ip) (omode : UInt32) : (x.opened ip omode).inode = some ip := if_pos rfl

lemma closed_new (hr : x.ref = 0) (ht : x.type = .FD_NONE) : ({ x with ref := 1 } : File).closed = x := by
  cases x
  cases hr
  cases ht
  rfl

lemma opened_writable (h : (x.opened ip omode).writable = true) : omode ≠ O_RDONLY := by
  intro h0
  rw [h0] at h
  replace h : decide (O_RDONLY &&& O_WRONLY ≠ 0 ∨ O_RDONLY &&& O_RDWR ≠ 0) = true := h
  exact absurd h (by decide)

section
variable (h : Good e J T s)
include h

lemma Good.opened (s' : State) (hp : s.cwd p = some cwd) (ht : Tab (fun _ => 0) [] s')
    (hb : Books s') (hcwd : s'.cwd = s.cwd) (hff : (s.file f).inode = none)
    (hxi : x.inode = some ip) (hxw : x.writable = true → omode ≠ O_RDONLY)
    (hfile : s'.file = update s.file f x)
    (hc : J → Inside e (s.lent cwd T) [s.entry cwd] [] omode w s.fs.core (some ip) s'.fs.core)
    (hr : r ≠ -1)
    (ha : ∀ o, (if omode &&& O_CREATE ≠ 0 then Makes e T_FILE 0 0 w s.fs.core o else o = none) →
      a.Does e s p (s.fs.core.inode cwd).inum r o) :
    Leads e J T s p cwd a r s' := by
  have hpos := iref_cwd hp
  -- the new holder is counted
  have href : ∀ j, s'.iref j = s.iref j + hit j (some ip) := by
    intro j
    have h1 := s.iref_setFile f x j
    rw [hff, hit_none, hxi, Int.sub_zero] at h1
    rw [← h1]
    unfold State.iref
    rw [hcwd, hfile]
    rfl
  have hmoves : J → ∃ o, Effect e (s.kept cwd T) o s.fs.core s'.fs.core ∧
      Moves e (s.kept cwd T) s s' ∧
      (∀ j, 0 < s.iref j → (s'.fs.core.inode j).inum = (s.fs.core.inode j).inum) ∧
      (if omode &&& O_CREATE ≠ 0 then Makes e T_FILE 0 0 w s.fs.core o else o = none) := by
    intro hj
    obtain ⟨m, y, o, h₁, he, hx, hnd, ho⟩ := hc hj
    have hnum : ∀ j, 0 < s.iref j → (s'.fs.core.inode j).inum = (s.fs.core.inode j).inum :=
      fun j hj => h₁.inum_eq (mem_cons_of_mem _ mem_cons_self) hj
    have hip : (s'.fs.core.inode ip).inum = m := h₁.num _ mem_cons_self
    refine ⟨o, he, ⟨fun j hj' => ?_, fun g j hg hw => ?_⟩, hnum, ho⟩
    · by_cases hjs : 0 < s.iref j
      · exact .inl ⟨hjs, hnum j hjs, kept_lend ⟨j, hjs, rfl⟩⟩
      · rw [href j, hit_some] at hj'
        split at hj'
        · next hji =>
          rw [hji, hip, hx]
          exact .inr (some_ne_none y)
        · omega
    · rw [hfile, update_apply] at hg hw
      split at hg
      · next hgf =>
        rw [if_pos hgf] at hw
        rw [hxi] at hg
        cases hg
        refine .inr fun z hy => ?_
        rw [hip, hx] at hy
        cases hy
        exact hnd (hxw hw)
      · next hgf =>
        rw [if_neg hgf] at hw
        have hjs := iref_file hg
        exact .inl ⟨hg, hw, hnum j hjs, kept_lend ⟨j, hjs, rfl⟩⟩
  refine ⟨h.turn s' ht hb (fun hj => ?_) fun hj => ?_, fun hj => ?_⟩
  · obtain ⟨m, x, o, h₁, -⟩ := hc hj
    have hz := less_nonneg s.iref_nonneg hpos
    have h2 : Ctx e (hold (fun j => less s.iref cwd j + hit j (some ip)) s'.fs.core T) [s.entry cwd] []
        s'.fs.core := h₁.give hz (fun _ => rfl) fun _ hv => by cases hv
    refine Ctx.give h2 (fun j => Int.add_nonneg (hz j) (hit_nonneg _ _)) (fun j => ?_) fun _ hv => by cases hv
    rw [href j]
    unfold less
    omega
  · obtain ⟨o, he, hm, -⟩ := hmoves hj
    exact ⟨_, o, he, hm⟩
  · obtain ⟨o, he, -, hnum, ho⟩ := hmoves hj
    refine ⟨⟨o, he.mono fun n hn => kept_lend hn.1, ha o ho, fun _ n ⟨j, hj, hn⟩ => ⟨j, ?_, ?_⟩⟩,
      fun _ h0 => absurd h0 hr, fun g j hg => .inr ⟨?_, hnum j (iref_file hg)⟩,
      fun q j _ hq => ⟨by rw [hcwd]; exact hq, hnum j (iref_cwd hq)⟩⟩
    · have := hit_nonneg j (some ip)
      rw [href j]
      omega
    · exact (hnum j hj).trans hn
    · rw [hfile, update_of_ne]
      · exact hg
      · intro hgf
        rw [hgf, hff] at hg
        cases hg

lemma does_openBad (hp : s.cwd p = some cwd) {s1 : State}
    (ht : Tab (fun _ => 0) [] s1) (hb : Books s1) (ha : Aside s s1) (hfile : s1.file = s.file)
    (hofile : s1.ofile = s.ofile)
    (hc : J → Inside e (s.lent cwd T) [s.entry cwd] [] omode (resolvePath (s.fs.core.node e) true
      (s.fs.core.inode cwd).inum path) s.fs.core (some ip) s1.fs.core) (hroom : s.room p = false) :
    wp (Stops J E) (openBad e ip) (Leads e J T s p cwd (.open (some path) omode)) s1 := by
  unfold openBad
  refine wp_onFs (Q := fun r c' => r = -1 ∧ s.Lends e cwd T [] c' ∧
    ∃ o, Effect e (s.kept cwd T) o s.fs.core c' ∧
      Op.Does e s p (s.fs.core.inode cwd).inum (.open (some path) omode) r o) (fun hj => ?_) fun r fs hq => ?_
  · obtain ⟨m, x, o, h1, he, -, -, ho⟩ := hc hj
    have hput : Runs E (iunlockput e ip) (fun _ c' => s.Lends e cwd T [] c' ∧
        Idle e (s.kept cwd T) s1.fs.core c') s1.fs.core :=
      does_put h1 fun _ hv => by cases hv
    refine hput.seq fun _ c2 ⟨h2, hi2⟩ => does_end ⟨rfl, h2, o, he.idle_after hi2, ?_⟩
    show if _ then _ else _
    split
    · next hcr =>
      rw [if_pos hcr] at ho
      exact ⟨ho, fun _ => .inl hroom⟩
    · next hcr =>
      rw [if_neg hcr] at ho
      exact ho
  · exact h.done { s1 with fs := fs } (V := []) (iref_cwd hp) (ht.of_eq rfl rfl rfl) (hb.frame rfl rfl rfl)
      ⟨ha.cwd, ha.inode, ha.writable⟩ (fun hj => (hq hj).2)
      fun _ _ => ⟨hfile, hofile, ha.cwd⟩

lemma does_openFile (hp : s.cwd p = some cwd) {fs : Fs.State}
    (hc : J → Inside e (s.lent cwd T) [s.entry cwd] [] omode (resolvePath (s.fs.core.node e) true
      (s.fs.core.inode cwd).inum path) s.fs.core (some ip) fs.core) :
    wp (Stops J E) (openFile e p ip omode) (Leads e J T s p cwd (.open (some path) omode)) { s with fs := fs } := by
  have ha1 : Aside s { s with fs := fs } := ⟨rfl, fun _ => rfl, fun _ _ _ => rfl⟩
  have ht1 : Tab (fun _ => 0) [] { s with fs := fs } := h.tab.of_eq rfl rfl rfl
  have hb1 : Books { s with fs := fs } := h.books.frame rfl rfl rfl
  unfold openFile
  refine wp_seq does_filealloc fun r s2 ⟨hu, h2⟩ => ?_
  cases r with
  | none =>
    rw [show s2 = _ from h2]
    apply does_openBad h hp ht1 hb1 ha1 rfl rfl hc
    unfold State.room
    rw [show s.unused = none from hu]
    rfl
  | some f =>
    obtain ⟨hr, hs2⟩ := h2
    have ht2 := ht1.alloc hr
    have hnone : (s.file f).type = .FD_NONE := (h.tab.type_iff f).mpr (.inl hr)
    rw [← hs2] at ht2
    have hb2 : Books s2 := by
      rw [hs2]
      exact hb1.alloc
    have hf2 : s2.file f = { s.file f with ref := 1 } := by rw [hs2, setFile_self]
    refine wp_seq does_fdalloc fun r s3 ⟨hfd, h3⟩ => ?_
    cases r with
    | none =>
      rw [show s3 = s2 from h3]
      have hne : (s2.file f).type ≠ .FD_INODE := by
        rw [hf2]
        rw [hnone]
        exact fun h => by cases h
      refine wp_seq (does_fileclose_aside ht2 hb2 (by rw [hf2]) hne) fun _ s4 ⟨ht4, hb4, ha4, hfs4, hf4, ho4⟩ => ?_
      rw [bump_back _ f rfl] at ht4
      -- the table is as before
      have hfile : s4.file = s.file := by
        rw [hf4, hf2, hs2]
        show update (update s.file f _) f _ = _
        rw [update_idem]
        exact update_eq_iff.mpr ⟨closed_new hr hnone, fun _ _ => rfl⟩
      refine does_openBad h hp (ht4.drop ?_) hb4 ?_ hfile ?_ (fun hj => ?_) ?_
      · rw [hfile]
        exact hr
      · have ha2 : Aside s s2 := by
          rw [hs2]
          exact ha1.trans (.setFile rfl rfl)
        exact ha2.trans ha4
      · rw [ho4, hs2]
        rfl
      · rw [hfs4 hj, hs2]
        exact hc hj
      · unfold State.room
        have : s.freeFd p = none := by
          rw [← hfd, hs2]
          rfl
        rw [this, Bool.and_comm]
        rfl
    | some =>
      obtain ⟨hfd, hs3⟩ := h3
      have hp2 : s2.cwd p ≠ none := by
        rw [hs2]
        show s.cwd p ≠ none
        rw [hp]
        exact some_ne_none _
      have ht3 := ht2.place (f := f) hp2 hfd
      rw [bump_back _ f rfl, ← hs3] at ht3
      have hb3 : Books s3 := by
        rw [hs3]
        exact hb2.setFd
      have hf3 : s3.file = update s.file f { s.file f with ref := 1 } := by
        rw [hs3, hs2]
        rfl
      have hcwd3 : s3.cwd = s.cwd := by
        rw [hs3, hs2]
        rfl
      have hfs3 : s3.fs = fs := by
        rw [hs3, hs2]
        rfl
      have hnone3 : (s3.file f).type = .FD_NONE := by
        rw [hf3, update_self]
        exact hnone
      have hunlock : J → Runs E (do iunlock ip; endOp) (fun _ c' => Inside e (s.lent cwd T) [s.entry cwd] []
          omode (resolvePath (s.fs.core.node e) true (s.fs.core.inode cwd).inum path) s.fs.core (some ip) c')
          s3.fs.core := by
        intro hj
        rw [hfs3]
        obtain ⟨m, x, o, h1, he, hx, hnd, ho⟩ := hc hj
        refine (does_iunlock h1).seq fun _ c2 ⟨h2, hs⟩ => does_endOp.mono fun _ c' hc' => ?_
        rw [hc']
        exact ⟨m, x, o, h2, he.idle_after (.of_same hs), by rw [hs.node]; exact hx, hnd, ho⟩
      refine wp_onFs_seq hunlock fun _ fs' hq => wp_modify_seq (wp_pure ?_)
      have hfile : update s3.file f ((s3.file f).opened ip omode) =
          update s.file f ((s3.file f).opened ip omode) := by
        rw [hf3, update_idem]
      refine h.opened (({ s3 with fs := fs' } : State).setFile f ((s3.file f).opened ip omode) |>.add (.take f))
        hp ?_ ?_ hcwd3 ?_ (opened_inode _ ip omode) opened_writable hfile hq (by omega) fun o ho => ?_
      · have ht4 : Tab (fun _ => 0) [f] { s3 with fs := fs' } := ht3.of_eq rfl rfl rfl
        suffices h : Tab (fun _ => 0) [] (({ s3 with fs := fs' } : State).setFile f
            ((s3.file f).opened ip omode)) from h.of_eq rfl rfl rfl
        refine ht4.setFile ?_ (fun _ _ => rfl) ?_ fun g hg => ?_
        · exact ht4.refs f
        · refine ⟨fun h => (by cases h), fun h => ?_⟩
          rcases h with h | h
          · rw [hf3, update_self] at h
            cases h
          · cases h
        · exact ⟨fun h => (by cases h), fun h => absurd (mem_singleton.mp h) hg⟩
      · have hb4 : Books { s3 with fs := fs' } := hb3.frame rfl rfl rfl
        exact hb4.opened hnone3 ip omode
      · unfold File.inode
        rw [hnone]
        exact if_neg fun h => by cases h
      · show if _ then _ else _
        split
        · next hcr =>
          rw [if_pos hcr] at ho
          exact ⟨ho, fun h => absurd h (by omega)⟩
        · next hcr =>
          rw [if_neg hcr] at ho
          exact ho

lemma Good.start (hp : s.cwd p = some cwd) (hj : J) (hq : Fs.Quiet e E s.held s.fs.core) :
    s.Lends e cwd T [] s.fs.core ∧ Fs.Quiet e E (s.kept cwd T) s.fs.core ∧
      Live e E s.fs.core (s.fs.core.inode cwd).inum := by
  have hi := iref_cwd hp
  refine ⟨h.lend hj hi, hq.imp_right fun hc => ⟨fun n x hx hl => ?_, hc.entry, hc.root⟩,
    .inr (h.alive hj _ ⟨cwd, hi, rfl⟩)⟩
  exact kept_lend (hc.orphan n x hx hl)

lemma Good.fs (fs : Fs.State) (hi : 0 < s.iref i)
    (hc : J → s.Lends e i T V fs.core ∧ ∃ o, Effect e (s.kept i T) o s.fs.core fs.core ∧
      a.Does e s p (s.fs.core.inode cwd).inum r o) : Leads e J T s p cwd a r { s with fs := fs } :=
  h.done { s with fs := fs } (V := V) hi (h.tab.of_eq rfl rfl rfl)
    (h.books.frame rfl rfl rfl) ⟨rfl, fun _ => rfl, fun _ _ _ => rfl⟩ hc
    fun _ _ => ⟨rfl, rfl, rfl⟩

lemma Good.same (hp : s.cwd p = some cwd) (ha : a.Does e s p (s.fs.core.inode cwd).inum r none) :
    Good e J T s ∧ (J → Turn e s p cwd a r s) :=
  h.fs s.fs (V := []) (iref_cwd hp) fun hj => ⟨h.lend hj (iref_cwd hp), none, .idle (.of_same (.refl _)), ha⟩

lemma does_sysOpen (hp : s.cwd p = some cwd)
    (hq : J → Fs.Quiet e E s.held s.fs.core) (arg : Option (List UInt8)) (omode : UInt32) :
    wp (Stops J E) (sysOpen e p cwd arg omode) (Leads e J T s p cwd (.open arg omode)) s := by
  unfold sysOpen
  cases arg with
  | none => exact wp_pure (h.same hp rfl)
  | some path =>
    have hopen : J → Runs E (openInode e cwd path omode) (Inside e (s.lent cwd T) [s.entry cwd] [] omode
        (resolvePath (s.fs.core.node e) true (s.fs.core.inode cwd).inum path) s.fs.core) s.fs.core := by
      intro hj
      obtain ⟨h1, hq1, hl1⟩ := h.start hp hj (hq hj)
      exact does_openInode h1 mem_cons_self hq1 hl1
    refine wp_onFs_seq hopen fun r fs hr => ?_
    cases r with
    | some => exact does_openFile h hp hr
    | none =>
      refine wp_onFs (Q := fun r c' => r = -1 ∧ c' = fs.core) (fun _ => does_end ⟨rfl, rfl⟩) fun r fs' hr' => ?_
      refine h.fs _ (V := []) (iref_cwd hp) fun hj => ?_
      obtain ⟨h1, hi1, ho⟩ := hr hj
      rw [(hr' hj).2]
      refine ⟨h1, none, .idle hi1, ?_⟩
      show if _ then _ else _
      split
      · next hc => exact ⟨ho hc, fun _ => .inr rfl⟩
      · rfl

end

/-! ## the other calls on names -/

lemma ret_ne {b : Bool} (h : ret b = -1) : b = false := by
  cases b with
  | false => rfl
  | true => cases h

lemma ret_eq (b : Bool) : decide (ret b = 0) = b := by
  cases b <;> rfl

lemma does_readAll (h : Ctx e H R V c) (hi : ip ∈ V) (l : List (Nat × Nat))
    (hl : ∀ r ∈ l, r.2 < 2 ^ 32) : Runs E (readAll e ip l) (fun _ c' => c' = c) c := by
  induction l with
  | nil => exact does_pure rfl
  | cons r l ih =>
    refine (does_readi h.inv (h.held hi) (.inl (Allows.of_safe _ (by decide)))
      (hl r mem_cons_self)).seq fun _ c' ⟨hc, _⟩ => ?_
    rw [hc]
    exact ih fun r hr => hl r (mem_cons_of_mem _ hr)

section
variable (h : Good e J T s) (hp : s.cwd p = some cwd) (hq : J → Fs.Quiet e E s.held s.fs.core)
include h hp

lemma does_badArg (ha : a.Does e s p (s.fs.core.inode cwd).inum (-1) none) :
    wp (Stops J E) badArg (Leads e J T s p cwd a) s := by
  unfold badArg
  refine wp_onFs (Q := fun r c' => r = -1 ∧ c' = s.fs.core) (fun _ => does_begin (does_end ⟨rfl, rfl⟩))
    fun r fs hr => h.fs _ (V := []) (iref_cwd hp) fun hj => ?_
  obtain ⟨hr1, hc⟩ := hr hj
  rw [hr1, hc]
  exact ⟨h.lend hj (iref_cwd hp), none, .idle (.of_same (.refl _)), ha⟩

include hq

lemma does_call {m : Fs.M Bool} (hm : s.Lends e cwd T [] s.fs.core → Fs.Quiet e E (s.kept cwd T) s.fs.core →
      Live e E s.fs.core (s.fs.core.inode cwd).inum → Runs E m (fun b c' => s.Lends e cwd T [] c' ∧
        ∃ o, Effect e (s.kept cwd T) o s.fs.core c' ∧ a.Does e s p (s.fs.core.inode cwd).inum (ret b) o) s.fs.core) :
    wp (Stops J E) (call m) (Leads e J T s p cwd a) s := by
  unfold call
  have hstart := fun hj => h.start hp hj (hq hj)
  exact wp_onFs_seq (fun hj => hm (hstart hj).1 (hstart hj).2.1 (hstart hj).2.2)
    fun b fs hb => wp_pure (h.fs _ (iref_cwd hp) hb)

lemma does_sysMkdir (arg : Option (List UInt8)) :
    wp (Stops J E) (sysMkdir e cwd arg) (Leads e J T s p cwd (.mkdir arg)) s := by
  cases arg with
  | none => exact does_badArg h hp rfl
  | some =>
    exact does_call h hp hq fun h1 hq1 hl1 => (does_mknod h1 mem_cons_self hq1 hl1 (by decide) 0 0).mono
      fun b c' ⟨h', o, he, hm, hb⟩ => ⟨h', o, he, hm, fun hr => hb (ret_ne hr)⟩

lemma does_sysMknod (arg : Option (List UInt8)) (major minor : Int) :
    wp (Stops J E) (sysMknod e cwd major minor arg) (Leads e J T s p cwd (.mknod arg major minor)) s := by
  cases arg with
  | none => exact does_badArg h hp rfl
  | some =>
    exact does_call h hp hq fun h1 hq1 hl1 => (does_mknod h1 mem_cons_self hq1 hl1 (by decide) _ _).mono
      fun b c' ⟨h', o, he, hm, hb⟩ => ⟨h', o, he, hm, fun hr => hb (ret_ne hr)⟩

lemma does_link (arg : Option (List UInt8 × List UInt8)) :
    wp (Stops J E) (sysLink e cwd arg) (Leads e J T s p cwd (.link arg)) s := by
  rcases arg with _ | ⟨old, new⟩
  · exact wp_pure (h.same hp rfl)
  · refine does_call h hp hq fun h1 hq1 hl1 => (Fs.does_sysLink h1 mem_cons_self hq1 hl1).mono
      fun b c' ⟨h', o, he, ho⟩ => ⟨h', o, he, ?_⟩
    show Links _ _ (decide (ret b = 0)) o
    rw [ret_eq]
    exact ho

lemma does_unlink (arg : Option (List UInt8)) :
    wp (Stops J E) (sysUnlink e cwd arg) (Leads e J T s p cwd (.unlink arg)) s := by
  cases arg with
  | none => exact wp_pure (h.same hp rfl)
  | some =>
    refine does_call h hp hq fun h1 hq1 hl1 => (Fs.does_sysUnlink h1 mem_cons_self hq1 hl1).mono
      fun b c' ⟨h', o, he, ho⟩ => ⟨h', o, he, ?_⟩
    show Unlinks _ (decide (ret b = 0)) o
    rw [ret_eq]
    exact ho

lemma does_exec {reads : List (Nat × Nat)} (hr : ∀ r ∈ reads, r.2 < 2 ^ 32) (ok : Bool) :
    wp (Stops J E) (onFs (exec e cwd path reads ok)) (Leads e J T s p cwd (.exec path reads ok)) s := by
  refine wp_onFs (Q := fun _ c' => s.Lends e cwd T [] c' ∧
    Idle e (s.kept cwd T) s.fs.core c') (fun hj => ?_) fun r fs hf =>
      h.fs _ (V := []) (iref_cwd hp) fun hj => ⟨(hf hj).1, none, .idle (hf hj).2, rfl⟩
  obtain ⟨h1, hq1, hl1⟩ := h.start hp hj (hq hj)
  unfold exec
  refine does_begin ((does_namei h1 mem_cons_self hq1 hl1).seq fun r c2 h2 => ?_)
  cases r with
  | none =>
    obtain ⟨-, h2, hi2⟩ := h2
    exact does_end ⟨h2, hi2⟩
  | some =>
    obtain ⟨m, nm, -, h2, hi2, hl2⟩ := h2
    refine (does_ilock h2 mem_cons_self hl2).seq fun _ c3 ⟨h3, hs3⟩ => ?_
    refine (does_readAll h3 mem_cons_self reads hr).seq fun _ c4 hc4 => ?_
    rw [hc4]
    exact (does_put h3 h1.sub).seq fun _ c5 ⟨h5, hi5⟩ =>
      does_end ⟨h5, (hi2.trans (.of_same hs3)).trans hi5⟩

end

/-! ## fewer holders -/

lemma Idle.live {K K' : Nat → Prop} (h : Idle e K c c') (hK : ∀ n, K' n → K n ∨ c'.node e n ≠ none) :
    Idle e K' c c' :=
  ⟨fun n => (h.nodes n).imp_right fun ⟨h1, h2, h3⟩ => ⟨h1, fun hk => (hK n hk).elim h2 fun h => h h1, h3⟩, h.same⟩

lemma does_sysChdir (h : Good e J T s) (hp : s.cwd p = some cwd) (hq : J → Fs.Quiet e E s.held s.fs.core)
    (arg : Option (List UInt8)) : wp (Stops J E) (sysChdir e p cwd arg) (Leads e J T s p cwd (.chdir arg)) s := by
  cases arg with
  | none => exact does_badArg h hp rfl
  | some path =>
    have hchdir : J → Runs E (Fs.sysChdir e cwd path) (fun r c' =>
        Enters e (s.lent cwd T) [] [] (s.entry cwd) r c' ∧ Idle e (Kept (s.lent cwd T) []) s.fs.core c' ∧
        (r = none → Idle e (s.kept cwd T) s.fs.core c')) s.fs.core := by
      intro hj
      obtain ⟨h₁, hq1, hl1⟩ := h.start hp hj (hq hj)
      exact Fs.does_sysChdir h₁ hq1 hl1
    refine wp_onFs_seq hchdir fun r fs hr => ?_
    cases r with
    | none =>
      exact wp_pure (h.fs fs (V := []) (iref_cwd hp) fun hj =>
        ⟨(hr hj).1, none, .idle ((hr hj).2.2 rfl), rfl⟩)
    | some ip =>
      refine wp_modify_seq (wp_pure ?_)
      have href : ∀ j, (({ s with fs := fs } : State).setCwd p (some ip)).iref j =
          less s.iref cwd j + hit j (some ip) := by
        intro j
        rw [iref_setCwd]
        rw [hp]
        rfl
      have hz := less_nonneg s.iref_nonneg (iref_cwd hp)
      -- the holders were there, or are on the new directory
      have hold : J → ∀ j, 0 < less s.iref cwd j + hit j (some ip) →
          (0 < s.iref j ∧ (fs.core.inode j).inum = (s.fs.core.inode j).inum ∧
            Kept (s.lent cwd T) [] (s.fs.core.inode j).inum) ∨ fs.core.node e (fs.core.inode j).inum ≠ none := by
        intro hj j hpos
        obtain ⟨⟨m, x, h₁, hx, -⟩, -⟩ := hr hj
        by_cases hjs : 0 < less s.iref cwd j
        · exact .inl ⟨less_pos hjs, h₁.out j (Int.lt_toNat.mpr hjs), .inl ⟨j, Int.lt_toNat.mpr hjs, rfl⟩⟩
        · rw [hit_some] at hpos
          split at hpos
          · next hji =>
            have hnum : (fs.core.inode ip).inum = m := h₁.num _ mem_cons_self
            rw [hji, hnum, hx]
            exact .inr (some_ne_none x)
          · omega
      refine ⟨h.turn (({ s with fs := fs } : State).setCwd p (some ip)) ?_
        (h.books.frame rfl rfl rfl) (fun hj => ?_) fun hj => ?_,
        fun hj => ⟨⟨none, ?_, rfl, fun hn => ?_⟩, fun _ hr => (by cases hr), fun g j hg => .inr ⟨hg, ?_⟩, fun q j hqp hq => ⟨?_, ?_⟩⟩⟩
      · refine ⟨⟨h.tab.refs, h.tab.type_iff⟩, fun q fd hq => h.tab.gone q fd ?_⟩
        replace hq : update s.cwd p (some ip) q = none := hq
        rw [update_apply] at hq
        split at hq
        · cases hq
        · exact hq
      · obtain ⟨⟨m, x, h₁, -⟩, -⟩ := hr hj
        exact Ctx.give h₁ hz href fun _ hv => by cases hv
      · refine ⟨_, none, .idle (hr hj).2.1, fun j hj' => ?_, fun g j hg hw => ?_⟩
        · rw [href] at hj'
          exact hold hj j hj'
        · have hjs := less_file hp hg
          obtain ⟨⟨m, x, h₁, -⟩, -⟩ := hr hj
          exact .inl ⟨hg, hw, h₁.out j (Int.lt_toNat.mpr hjs), .inl ⟨j, Int.lt_toNat.mpr hjs, rfl⟩⟩
      · refine .idle (Idle.live (hr hj).2.1 fun n hn => ?_)
        obtain ⟨-, j, hj', hjn⟩ := hn
        rw [href] at hj'
        rcases hold hj j hj' with ⟨-, h2, h3⟩ | h1
        · left
          rw [← hjn]
          show Kept _ _ (fs.core.inode j).inum
          rw [h2]
          exact h3
        · exact .inr (hjn ▸ h1)
      · exact no_edit (fun _ hr => by cases hr) hn
      · obtain ⟨⟨m, x, h₁, -⟩, -⟩ := hr hj
        exact h₁.out j (Int.lt_toNat.mpr (less_file hp hg))
      · show update s.cwd p (some ip) q = some j
        rw [update_of_ne hqp]
        exact hq
      · obtain ⟨⟨m, x, h₁, -⟩, -⟩ := hr hj
        exact h₁.out j (Int.lt_toNat.mpr (less_cwd hp hq hqp))

/-- some holders have gone; the others have their inodes. -/
structure Drops (e : Env) (J T : Prop) (s s' : State) : Prop where
  iref : ∀ i, s'.iref i ≤ s.iref i
  file : ∀ g i, (s'.file g).inode = some i → (s.file g).inode = some i ∧ (s'.file g).writable = (s.file g).writable
  ctx : J → Ctx e (hold s'.iref s'.fs.core T) [] [] s'.fs.core
  idle : J → Idle e s'.held s.fs.core s'.fs.core
  inum : J → ∀ i, 0 < s'.iref i → (s'.fs.core.inode i).inum = (s.fs.core.inode i).inum

lemma Drops.held (h : Drops e J T s s') (hj : J) (hn : s'.held n) : s.held n := by
  obtain ⟨i, hi, hin⟩ := hn
  exact ⟨i, Int.lt_of_lt_of_le hi (h.iref i), (h.inum hj i hi).symm.trans hin⟩

lemma Drops.trans {s'' : State} (h : Drops e J T s s') (h' : Drops e J T s' s'') : Drops e J T s s'' where
  iref i := (h'.iref i).trans (h.iref i)
  file g i hi := ⟨(h.file g i (h'.file g i hi).1).1, (h'.file g i hi).2.trans (h.file g i (h'.file g i hi).1).2⟩
  ctx := h'.ctx
  idle hj := ((h.idle hj).mono fun _ hn => h'.held hj hn).trans (h'.idle hj)
  inum hj i hi := (h'.inum hj i hi).trans (h.inum hj i (Int.lt_of_lt_of_le hi (h'.iref i)))

lemma Good.drops (h : Good e J T s) (s' : State) (ht : Tab (fun _ => 0) [] s') (hb : Books s')
    (hd : Drops e J T s s') : Good e J T s' := by
  refine h.turn s' ht hb hd.ctx fun hj => ⟨s'.held, none, .idle (hd.idle hj), fun i hi => .inl ?_,
    fun g i hg hw => .inl ?_⟩
  · exact ⟨Int.lt_of_lt_of_le hi (hd.iref i), hd.inum hj i hi, i, hi, hd.inum hj i hi⟩
  · obtain ⟨h1, h2⟩ := hd.file g i hg
    have hi := iref_file hg
    exact ⟨h1, h2.symm.trans hw, hd.inum hj i hi, i, hi, hd.inum hj i hi⟩

lemma File.closed_inode (x : File) : x.closed.inode = if x.ref = 1 then none else x.inode := by
  unfold File.inode File.closed
  split
  · exact if_neg fun h => by cases h
  · rfl

lemma iref_closed (s : State) (f : Fp) (i : Ip) : (s.setFile f (s.file f).closed).iref i =
    if (s.file f).ref = 1 then s.iref i - hit i (s.file f).inode else s.iref i := by
  rw [s.iref_setFile, File.closed_inode]
  split
  · rw [hit_none, Int.add_zero]
  · omega

lemma does_drop {d : Fp → Int} (ht : Tab d [] s) (hb : Books s) (hr : 1 ≤ (s.file f).ref)
    (hc : J → Ctx e (hold s.iref s.fs.core T) [] [] s.fs.core) :
    wp (Stops J E) (fileclose e f) (fun _ s' => Tab (bump d f (-1)) [] s' ∧ Books s' ∧
      s'.ofile = s.ofile ∧ s'.cwd = s.cwd ∧ Drops e J T s s') s := by
  generalize hq : (s.setFile f (s.file f).closed).iref = q
  have href : ∀ i, q i = if (s.file f).ref = 1 then s.iref i - hit i (s.file f).inode else s.iref i := by
    intro i
    rw [← hq]
    exact iref_closed s f i
  have hle : ∀ i, q i ≤ s.iref i := by
    intro i
    have := hit_nonneg i (s.file f).inode
    rw [href]
    split <;> omega
  refine wp_mono (does_fileclose (Q := fun c' => Ctx e (hold q s.fs.core T) [] [] c' ∧
    Idle e (Kept (hold q s.fs.core T) []) s.fs.core c') ht hb hr fun hj => ?_)
    fun _ s' ⟨ht', hb', ⟨hf, ho, hcwd⟩, hfs⟩ => ⟨ht', hb', ho, hcwd, ?_⟩
  · split
    · next hlast =>
      have hin : (s.file f).inode = some (s.file f).ip := if_pos hlast.2
      have hqe : q = less s.iref (s.file f).ip := by
        funext i
        rw [href, if_pos hlast.1, hin]
        rfl
      rw [hqe]
      exact Fs.does_fileclose ((hc hj).lend (iref_file hin))
    · next hlast =>
      have hqe : q = s.iref := by
        funext i
        rw [href]
        split
        · next h1 =>
          have hin : (s.file f).inode = none := if_neg fun hty => hlast ⟨h1, hty⟩
          rw [hin, hit_none, Int.sub_zero]
        · rfl
      rw [hqe]
      exact ⟨hc hj, .of_same (.refl _)⟩
  · have hiref : s'.iref = q := by
      funext i
      rw [← hq]
      unfold State.iref
      rw [hf, hcwd]
      rfl
    have hnum : J → ∀ i, 0 < s'.iref i → (s'.fs.core.inode i).inum = (s.fs.core.inode i).inum := by
      intro hj i hi
      rw [hiref] at hi
      exact (hfs hj).1.out i (Int.lt_toNat.mpr hi)
    refine ⟨fun i => by rw [hiref]; exact hle i, fun g i hg => ?_, fun hj => ?_, fun hj => ?_, hnum⟩
    · rw [hf, update_apply] at hg ⊢
      split at hg
      · next hgf =>
        rw [if_pos hgf, hgf]
        rw [File.closed_inode] at hg
        split at hg
        · cases hg
        · exact ⟨hg, rfl⟩
      · next hgf =>
        rw [if_neg hgf]
        exact ⟨hg, rfl⟩
    · rw [hiref]
      exact (hfs hj).1.renew fun _ => rfl
    · refine (hfs hj).2.mono fun n ⟨i, hi, hn⟩ => .inl ⟨i, ?_, ?_⟩
      · rw [hiref] at hi
        exact Int.lt_toNat.mpr hi
      · exact (hnum hj i hi).symm.trans hn

lemma Drops.turn (h : Drops e J T s s') (hj : J) (ha : a.Does e s p (s.fs.core.inode cwd).inum r none)
    (hn : a.named = false) (hc : ∀ q, q ≠ p → s'.cwd q = s.cwd q) : Turn e s p cwd a r s' := by
  refine ⟨⟨none, .idle ((h.idle hj).mono fun _ hk => hk.2), ha, fun h1 => ?_⟩, fun h1 => ?_,
    fun g i hg => ?_, fun q i hq hi => ?_⟩
  · refine no_edit (fun h2 => ?_) h1
    rw [hn] at h2
    cases h2
  · rw [hn] at h1
    cases h1
  · cases hg' : (s'.file g).inode with
    | none => exact .inl rfl
    | some j =>
      have hj' := (h.file g j hg').1
      rw [hg] at hj'
      cases hj'
      exact .inr ⟨rfl, h.inum hj i (iref_file hg')⟩
  · have hi' := (hc q hq).trans hi
    exact ⟨hi', h.inum hj i (iref_cwd hi')⟩

lemma Drops.refl (hc : J → Ctx e (hold s.iref s.fs.core T) [] [] s.fs.core) : Drops e J T s s :=
  ⟨fun _ => Int.le_refl _, fun _ _ hi => ⟨hi, rfl⟩, hc, fun _ => .of_same (.refl _), fun _ _ _ => rfl⟩

lemma Drops.setFd (p : Slot) (fd : Fd) (o : Option Fp)
    (hc : J → Ctx e (hold s.iref s.fs.core T) [] [] s.fs.core) : Drops e J T s (s.setFd p fd o) :=
  ⟨fun _ => Int.le_refl _, fun _ _ hi => ⟨hi, rfl⟩, hc, fun _ => .of_same (.refl _), fun _ _ _ => rfl⟩

lemma does_sysClose (h : Good e J T s) (hp : s.cwd p = some cwd) (k : Int) :
    wp (Stops J E) (sysClose e p k) (Leads e J T s p cwd (.close k)) s := by
  unfold sysClose
  apply wp_get_seq
  cases hk : s.argfd p k with
  | none => exact wp_pure (h.same hp rfl)
  | some a =>
    obtain ⟨fd, f⟩ := a
    have ho := argfd_some hk
    have hd1 : Drops e J T s (s.setFd p fd none) := .setFd p fd none h.ctx
    refine wp_modify_seq (wp_seq (does_drop (h.tab.clear ho) h.books.setFd (h.tab.used ho).1 hd1.ctx)
      fun _ s2 ⟨ht2, hb2, _, hc2, hd2⟩ => ?_)
    rw [bump_back _ f rfl] at ht2
    have hd := hd1.trans hd2
    exact wp_pure ⟨h.drops s2 ht2 hb2 hd, fun hj => hd.turn hj rfl rfl fun q _ => congrFun hc2 q⟩

/-! ## `fork` and `exit` -/

lemma does_exitFiles (l : List Fd) : ∀ {s : State}, Good e J T s →
    wp (Stops J E) (exitFiles e p l) (fun _ s' => Good e J T s' ∧ Drops e J T s s' ∧ s'.cwd = s.cwd ∧
      ∀ fd, fd ∈ l ∨ s.ofile (p, fd) = none → s'.ofile (p, fd) = none) s := by
  induction l with
  | nil =>
    intro s h
    exact wp_pure ⟨h, .refl h.ctx, rfl, fun fd hfd => hfd.resolve_left fun h => by cases h⟩
  | cons fd l ih =>
    intro s h
    unfold exitFiles
    apply wp_get_seq
    cases ho : s.ofile (p, fd) with
    | none =>
      refine wp_mono (ih h) fun _ s' ⟨h1, h2, h3, h4⟩ => ⟨h1, h2, h3, fun fd' hfd => h4 fd' ?_⟩
      rcases hfd with hfd | hfd
      · rcases mem_cons.mp hfd with hfd | hfd
        · rw [hfd]
          exact .inr ho
        · exact .inl hfd
      · exact .inr hfd
    | some f =>
      refine wp_seq (does_drop h.tab h.books (h.tab.used ho).1 h.ctx) fun _ s1 ⟨ht1, hb1, ho1, hc1, hd1⟩ => ?_
      have hset : s1.ofile (p, fd) = some f := by
        rw [ho1]
        exact ho
      have ht2 := ht1.clear hset
      rw [bump_back _ f rfl] at ht2
      have hd := hd1.trans (.setFd p fd none hd1.ctx)
      have h₂ := h.drops _ ht2 hb1.setFd hd
      refine wp_modify_seq (wp_mono (ih h₂) fun _ s' ⟨h1, h2, h3, h4⟩ =>
        ⟨h1, hd.trans h2, h3.trans hc1, fun fd' hfd => h4 fd' ?_⟩)
      show _ ∨ update s1.ofile (p, fd) none (p, fd') = none
      by_cases hff : fd' = fd
      · rw [hff, update_self]
        exact .inr rfl
      · rw [update_of_ne fun h => hff (Prod.mk.inj h).2, ho1]
        exact hfd.imp_left fun hm => (mem_cons.mp hm).resolve_left hff

lemma does_exit (h : Good e J T s) (hp : s.cwd p = some cwd) :
    wp (Stops J E) (exit e p cwd) (Leads e J T s p cwd .exit) s := by
  unfold exit
  by_cases hinit : p = initproc
  · rw [if_pos hinit]
    apply wp_throw
    show _ ∉ _
    decide
  rw [if_neg hinit]
  refine wp_seq (does_exitFiles (List.finRange NOFILE) h) fun _ s1 ⟨h1, hd1, hc1, ho1⟩ => ?_
  have hp1 : s1.cwd p = some cwd := by
    rw [hc1]
    exact hp
  have hpos := iref_cwd hp1
  have hput : J → Runs E (Fs.fileclose e cwd) (fun _ c' => Ctx e (s1.lent cwd T) [] [] c' ∧
      Idle e (Kept (s1.lent cwd T) []) s1.fs.core c') s1.fs.core :=
    fun hj => Fs.does_fileclose (h1.lend hj hpos)
  refine wp_onFs_seq hput fun _ fs hfs => wp_modify_seq (wp_pure ?_)
  have href : (({ s1 with fs := fs } : State).setCwd p none).iref = less s1.iref cwd := by
    funext j
    rw [iref_setCwd, hit_none, Int.add_zero]
    rw [hp1]
    rfl
  have hnum : J → ∀ j, 0 < (({ s1 with fs := fs } : State).setCwd p none).iref j →
      (fs.core.inode j).inum = (s1.fs.core.inode j).inum := by
    intro hj j hj'
    rw [href] at hj'
    exact (hfs hj).1.out j (Int.lt_toNat.mpr hj')
  have hd2 : Drops e J T s1 (({ s1 with fs := fs } : State).setCwd p none) := by
    refine ⟨fun j => ?_, fun g j hg => ⟨hg, rfl⟩, fun hj => ?_, fun hj => ?_, hnum⟩
    · have := hit_nonneg j (some cwd)
      rw [href]
      unfold less
      omega
    · rw [href]
      exact (hfs hj).1.renew fun _ => rfl
    · refine (hfs hj).2.mono fun n ⟨j, hj', hn⟩ => .inl ⟨j, ?_, (hnum hj j hj').symm.trans hn⟩
      rw [href] at hj'
      exact Int.lt_toNat.mpr hj'
  have hd := hd1.trans hd2
  refine ⟨h.drops _ ⟨⟨h1.tab.refs, h1.tab.type_iff⟩, fun q fd hq => ?_⟩
    (h1.books.frame rfl rfl rfl) hd, fun hj => hd.turn hj rfl rfl fun q hq => ?_⟩
  rotate_left
  · show update s1.cwd p none q = _
    rw [update_of_ne hq, hc1]
  by_cases hqp : q = p
  · rw [hqp]
    exact ho1 fd (.inl (mem_finRange fd))
  · replace hq : update s1.cwd p none q = none := hq
    rw [update_of_ne hqp] at hq
    exact h1.tab.gone q fd hq

lemma does_forkFiles {np : Slot} (l : List Fd) (hl : l.Nodup) :
    ∀ {s : State}, Counts (fun _ => 0) [] s → Books s → (∀ fd ∈ l, s.ofile (np, fd) = none) →
      wp (Stops J E) (forkFiles p np l) (fun _ s' => Counts (fun _ => 0) [] s' ∧ Books s' ∧ Aside s s' ∧
        s'.fs = s.fs ∧ ∀ q, q ≠ np → ∀ fd, s'.ofile (q, fd) = s.ofile (q, fd)) s := by
  induction l with
  | nil => exact fun ht hb _ => wp_pure ⟨ht, hb, .refl _, rfl, fun _ _ _ => rfl⟩
  | cons fd l ih =>
    intro s ht hb hz
    obtain ⟨hfd, hl⟩ := nodup_cons.mp hl
    unfold forkFiles
    apply wp_get_seq
    cases ho : s.ofile (p, fd) with
    | none => exact ih hl ht hb fun fd' hm => hz fd' (mem_cons_of_mem _ hm)
    | some f =>
      have hr : 1 ≤ (s.file f).ref := by
        have h1 := ht.refs f
        have h2 := slots_pos ho
        omega
      refine wp_seq (does_filedup hr) fun _ s1 hs1 => wp_modify_seq ?_
      have ht1 := ht.dup not_mem_nil hr
      rw [← hs1] at ht1
      have hof : s1.ofile = s.ofile := by
        rw [hs1]
        rfl
      have hnone : s1.ofile (np, fd) = none := by
        rw [hof]
        exact hz fd mem_cons_self
      have ht2 := ht1.place (f := f) hnone
      rw [bump_back _ f rfl] at ht2
      have hb1 : Books s1 := by
        rw [hs1]
        exact hb.setFile rfl rfl rfl
      have ha1 : Aside s s1 := by
        rw [hs1]
        exact .setFile rfl rfl
      have hupd : ∀ q fd', (q, fd') ≠ (np, fd) → (s1.setFd np fd (some f)).ofile (q, fd') = s.ofile (q, fd') := by
        intro q fd' h
        rw [← hof]
        exact update_of_ne h _ _
      refine wp_mono (ih hl ht2 hb1.setFd fun fd' hm => ?_) fun _ s' ⟨h1, h2, h3, h4, h5⟩ =>
        ⟨h1, h2, ha1.trans ((Aside.setFd ..).trans h3), ?_, fun q hq fd' => ?_⟩
      · rw [hupd np fd' fun h => hfd ((Prod.mk.inj h).2 ▸ hm)]
        exact hz fd' (mem_cons_of_mem _ hm)
      · rw [h4, hs1]
        rfl
      · rw [h5 q hq fd', hupd q fd' fun h => hq (Prod.mk.inj h).1]

lemma does_fork (h : Good e J T s) (hp : s.cwd p = some cwd) (child : Option Slot) :
    wp (Stops J E) (fork p cwd child) (Leads e J T s p cwd (.fork child)) s := by
  cases child with
  | none => exact wp_pure (h.same hp rfl)
  | some np =>
    unfold fork
    apply wp_get_seq
    cases hnp : s.cwd np with
    | some => exact wp_throw trivial
    | none =>
      refine wp_seq (does_forkFiles (List.finRange NOFILE) (nodup_finRange _) h.tab.toCounts h.books
        fun fd _ => h.tab.gone np fd hnp) fun _ s1 ⟨ht1, hb1, ha1, hfs1, ho1⟩ => ?_
      have hpos := iref_cwd hp
      have hdup : J → Runs E (idup cwd) (fun j c' => j = cwd ∧
          Ctx e (s.lent cwd T) [s.entry cwd, s.entry cwd] [] c' ∧ s.fs.core.Same c') s1.fs.core := by
        intro hj
        rw [hfs1]
        exact does_idup (h.lend hj hpos) mem_cons_self
      refine wp_onFs_seq hdup fun ip fs hfs => wp_modify_seq (wp_pure ?_)
      have href : ∀ j, (({ s1 with fs := fs } : State).setCwd np (some ip)).iref j = s.iref j + hit j (some ip) := by
        intro j
        rw [iref_setCwd]
        show s1.iref j - hit j (s1.cwd np) + _ = _
        rw [ha1.cwd, hnp, hit_none, Int.sub_zero, ha1.iref]
      have hnum : J → ∀ j, 0 < s.iref j → (fs.core.inode j).inum = (s.fs.core.inode j).inum :=
        fun hj j hj' => (hfs hj).2.1.inum_eq mem_cons_self hj'
      have hmoves : J → Moves e (s.kept cwd T) s (({ s1 with fs := fs } : State).setCwd np (some ip)) := by
        intro hj
        obtain ⟨hip, h2, -⟩ := hfs hj
        refine ⟨fun j hj' => .inl ?_, fun g j hg hw => .inl ?_⟩
        · have hjs : 0 < s.iref j := by
            rw [href, hit_some] at hj'
            split at hj'
            · next hji => rw [hji, hip]; exact hpos
            · omega
          exact ⟨hjs, hnum hj j hjs, kept_lend ⟨j, hjs, rfl⟩⟩
        · have hg' : (s.file g).inode = some j := (ha1.inode g).symm.trans hg
          have hjs := iref_file hg'
          exact ⟨hg', (ha1.writable g j hg').symm.trans hw, hnum hj j hjs, kept_lend ⟨j, hjs, rfl⟩⟩
      have heff : J → Effect e (s.kept cwd T) none s.fs.core fs.core :=
        fun hj => .idle (.of_same (hfs hj).2.2)
      refine ⟨h.turn (({ s1 with fs := fs } : State).setCwd np (some ip)) ⟨⟨ht1.refs, ht1.type_iff⟩, fun q fd hq => ?_⟩
        (hb1.frame rfl rfl rfl) (fun hj => ?_) fun hj => ⟨_, none, heff hj, hmoves hj⟩,
        fun hj => ⟨⟨none, (heff hj).mono fun n hn => kept_lend hn.1, rfl, fun hn => ?_⟩,
          fun hn => (by cases hn), fun g j hg => .inr ⟨(ha1.inode g).trans hg, hnum hj j (iref_file hg)⟩,
          fun q j _ hq => ⟨?_, hnum hj j (iref_cwd hq)⟩⟩⟩
      · replace hq : update s1.cwd np (some ip) q = none := hq
        rw [update_apply] at hq
        split at hq
        · cases hq
        · next hqn =>
          show s1.ofile (q, fd) = none
          rw [ho1 q hqn fd]
          rw [ha1.cwd] at hq
          exact h.tab.gone q fd hq
      · obtain ⟨hip, h2, -⟩ := hfs hj
        have hz := less_nonneg s.iref_nonneg hpos
        have h3 : Ctx e (hold s.iref fs.core T) [s.entry cwd] [] fs.core := by
          refine h2.give hz (fun j => ?_) fun _ hv => by cases hv
          unfold less
          omega
        refine Ctx.give h3 s.iref_nonneg (fun j => ?_) fun _ hv => by cases hv
        rw [href, hip]
      · exact no_edit (fun h1 => by cases h1) hn
      · show update s1.cwd np (some ip) q = some j
        rw [update_of_ne, ha1.cwd]
        · exact hq
        · intro hqn
          rw [hqn, hnp] at hq
          cases hq

/-! ## open files -/

lemma Good.advance (h : Good e J T s) (fs : Fs.State) (k : Nat) :
    Tab (fun _ => 0) [] (({ s with fs := fs } : State).advance f k) ∧
      Books (({ s with fs := fs } : State).advance f k) ∧
      Aside s (({ s with fs := fs } : State).advance f k) := by
  have ht : Tab (fun _ => 0) [] { s with fs := fs } := h.tab.of_eq rfl rfl rfl
  have hb : Books { s with fs := fs } := h.books.frame rfl rfl rfl
  have ha : Aside s { s with fs := fs } := ⟨rfl, fun _ => rfl, fun _ _ _ => rfl⟩
  exact ⟨ht.setFile (ht.refs f) (fun _ _ => rfl) (ht.type_iff f) fun _ _ => Iff.rfl, hb.setFile rfl rfl rfl,
    ha.trans (.setFile rfl rfl)⟩

section
variable (h : Good e J T s) (hp : s.cwd p = some cwd)
include h hp

lemma does_onFd {m : Fp → M Int} (k : Int) (ha : a.Does e s p (s.fs.core.inode cwd).inum (-1) none)
    (hm : ∀ fd f, s.argfd p k = some (fd, f) → wp (Stops J E) (m f) (Leads e J T s p cwd a) s) :
    wp (Stops J E) (onFd p k m) (Leads e J T s p cwd a) s := by
  unfold onFd
  apply wp_get_seq
  cases hk : s.argfd p k with
  | none => exact wp_pure (h.same hp ha)
  | some x => exact hm x.1 x.2 hk

omit hp in
lemma Good.file (hty : (s.file f).type = .FD_INODE) : (s.file f).inode = some (s.file f).ip ∧
    0 < s.iref (s.file f).ip ∧ (J → s.Lends e (s.file f).ip T [] s.fs.core ∧
      Live e E s.fs.core (s.fs.core.inode (s.file f).ip).inum) := by
  have hin : (s.file f).inode = some (s.file f).ip := if_pos hty
  have hi := iref_file hin
  exact ⟨hin, hi, fun hj => ⟨h.lend hj hi, .inr (h.alive hj _ ⟨_, hi, rfl⟩)⟩⟩

lemma does_read (k : Int) {l : Nat} (hl : l < 2 ^ 32) :
    wp (Stops J E) (onFd p k fun f => fileread e f l) (Leads e J T s p cwd (.read k l)) s := by
  refine does_onFd h hp k rfl fun fd f hk => ?_
  unfold fileread
  apply wp_get_seq
  split
  · exact wp_pure (h.same hp rfl)
  cases hty : (s.file f).type with
  | FD_NONE => exact absurd hty (h.tab.used (argfd_some hk)).2
  | FD_PIPE => exact wp_pure (h.same hp rfl)
  | FD_INODE =>
    obtain ⟨-, hi, hc⟩ := h.file (E := E) hty
    have hread : J → Runs E (Fs.fileread e (s.file f).ip (s.file f).off l) (fun _ c' =>
        s.Lends e (s.file f).ip T [] c' ∧ s.fs.core.Same c') s.fs.core :=
      fun hj => (Fs.does_fileread (hc hj).1 mem_cons_self (hc hj).2 hl).mono fun _ c' ⟨h1, h2, _⟩ => ⟨h1, h2⟩
    refine wp_onFs_seq hread fun r fs hfs => ?_
    have hdid : J → s.Lends e (s.file f).ip T [] fs.core ∧
        ∃ o, Effect e (s.kept (s.file f).ip T) o s.fs.core fs.core ∧ o = none :=
      fun hj => ⟨(hfs hj).1, none, .idle (.of_same (hfs hj).2), rfl⟩
    cases r with
    | none => exact wp_pure (h.fs fs hi hdid)
    | some b =>
      obtain ⟨h1, h2, h3⟩ := h.advance (f := f) fs b.length
      exact wp_modify_seq (wp_pure (h.done _ (V := []) hi h1 h2 h3 hdid fun hn => by cases hn))

lemma does_write (k : Int) {src : List UInt8} (hl : src.length < 2 ^ 32) :
    wp (Stops J E) (onFd p k fun f => filewrite e f src) (Leads e J T s p cwd (.write k src)) s := by
  refine does_onFd h hp k (.inl rfl) fun fd f hk => ?_
  unfold filewrite
  apply wp_get_seq
  split
  · exact wp_pure (h.same hp (.inl rfl))
  next hw =>
  cases hty : (s.file f).type with
  | FD_NONE => exact absurd hty (h.tab.used (argfd_some hk)).2
  | FD_PIPE => exact wp_pure (h.same hp (.inl rfl))
  | FD_INODE =>
    obtain ⟨hin, hi, hc⟩ := h.file (E := E) hty
    -- the edit is the one that the label names
    have hwrite : J → Runs E (filewriteTurn e (s.file f).ip src (s.file f).off) (fun _ c' =>
        s.Lends e (s.file f).ip T [] c' ∧ ∃ o, Effect e (s.kept (s.file f).ip T) o s.fs.core c' ∧
          ∀ r, Op.Does e s p (s.fs.core.inode cwd).inum (.write k src) r o) s.fs.core :=
      fun hj => (does_filewriteTurn (hc hj).1 mem_cons_self (hc hj).2 hl).mono
        fun _ c' ⟨h1, o, h2, h3⟩ => ⟨h1, o, h2, fun _ => (h3.imp And.left And.right).imp_right
          fun ho => ⟨fd, f, _, hk, hin, Bool.eq_true_of_not_eq_false hw, ho⟩⟩
    refine wp_onFs_seq hwrite fun r fs hfs => ?_
    have hdid : ∀ r, J → s.Lends e (s.file f).ip T [] fs.core ∧
        ∃ o, Effect e (s.kept (s.file f).ip T) o s.fs.core fs.core ∧
          Op.Does e s p (s.fs.core.inode cwd).inum (.write k src) r o := by
      intro r hj
      obtain ⟨h1, o, h2, h3⟩ := hfs hj
      exact ⟨h1, o, h2, h3 r⟩
    cases r with
    | none => exact wp_pure (h.fs fs hi (hdid _))
    | some n =>
      obtain ⟨h1, h2, h3⟩ := h.advance (f := f) fs n
      apply wp_modify_seq
      split
      · apply wp_throw
        show _ ∉ _
        decide
      · exact wp_pure (h.done _ (V := []) hi h1 h2 h3 (hdid _) fun hn => by cases hn)

lemma does_fstat (k : Int) : wp (Stops J E) (onFd p k fun f => filestat e f) (Leads e J T s p cwd (.fstat k)) s := by
  refine does_onFd h hp k rfl fun fd f hk => ?_
  unfold filestat
  apply wp_get_seq
  split
  · next hty =>
    obtain ⟨-, hi, hc⟩ := h.file (E := E) hty
    refine wp_onFs (Q := fun _ c' => s.Lends e (s.file f).ip T [] c' ∧ s.fs.core.Same c') (fun hj => ?_)
      fun r fs hfs => h.fs fs hi fun hj => ⟨(hfs hj).1, none, .idle (.of_same (hfs hj).2), rfl⟩
    refine (does_ilock (hc hj).1 mem_cons_self (hc hj).2).seq fun _ c1 ⟨h1, hs1⟩ => ?_
    exact (does_iunlock h1).seq fun _ c2 ⟨h2, hs2⟩ =>
      does_pure ⟨h2.weaken fun _ hv => (by cases hv), hs1.trans hs2⟩
  · exact wp_pure (h.same hp rfl)

end

/-! ## any call -/

lemma Good.beside (h : Good e J T s) (hp : s.cwd p = some cwd) (ha : a.Does e s p (s.fs.core.inode cwd).inum r none)
    (hn : a.named = false) (h' : Tab (fun _ => 0) [] s' ∧ Books s' ∧ Aside s s' ∧ (J → s'.fs.core = s.fs.core)) :
    Leads e J T s p cwd a r s' := by
  obtain ⟨ht, hb, has, hfs⟩ := h'
  refine h.done s' (V := []) (iref_cwd hp) ht hb has (fun hj => ?_) fun h1 => by rw [hn] at h1; cases h1
  rw [hfs hj]
  exact ⟨h.lend hj (iref_cwd hp), none, .idle (.of_same (.refl _)), ha⟩

/-- **Every call leads from a good state to a good one**, and does not stop where it should not. -/
theorem does_op (h : Good e J T s) (hp : s.cwd p = some cwd) (hq : J → Fs.Quiet e E s.held s.fs.core)
    (hf : a.fits = true) : wp (Stops J E) (a.run e p cwd) (Leads e J T s p cwd a) s := by
  have hcwd : s.cwd p ≠ none := by
    rw [hp]
    exact some_ne_none _
  cases a with
  | «open» path omode => exact does_sysOpen h hp hq path omode
  | mkdir path => exact does_sysMkdir h hp hq path
  | mknod path major minor => exact does_sysMknod h hp hq path major minor
  | link paths => exact does_link h hp hq paths
  | unlink path => exact does_unlink h hp hq path
  | chdir path => exact does_sysChdir h hp hq path
  | exec path reads ok =>
    refine does_exec h hp hq (fun r hr => ?_) ok
    exact of_decide_eq_true (all_eq_true.mp hf r hr)
  | dup fd =>
    exact wp_mono (does_dup h.tab h.books hcwd fd) fun r s' h' => h.beside hp rfl rfl h'
  | close fd => exact does_sysClose h hp fd
  | read fd => exact does_read h hp fd (Nat.lt_trans (of_decide_eq_true hf) (by decide))
  | write fd => exact does_write h hp fd (Nat.lt_of_le_of_lt (of_decide_eq_true hf) (by decide))
  | fstat fd => exact does_fstat h hp fd
  | pipe page =>
    exact wp_mono (does_pipe h.tab h.books hcwd page) fun r s' h' => h.beside hp rfl rfl h'
  | fork child => exact does_fork h hp child
  | exit => exact does_exit h hp

end Xv6.Sys
