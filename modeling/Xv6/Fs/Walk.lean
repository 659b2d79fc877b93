import Xv6.Fs.Edits

/-!
# The calls, followed with `Ctx`

Each call gives back the references that it takes, and makes one edit at most. The edit is named by
where the path of the call leads on the disk as it was before (`resolvePath`).
-/

set_option linter.unusedSectionVars false

namespace Xv6.Fs
open Lib Function List Option

variable {e : Env} {E : Stop → Prop} [Allows E] {c c' : Core} {i ip dp cwd : Ip} {n m cn off : Nat}
  {H : Holders} {R : Refs} {V : List Ip} {name path : List UInt8} {x y : Node}
  {K K' : Nat → Prop} {A : Nat → Option Node}
variable {α : Type} {type major minor v : Int}

/-! ## the beginning and the end -/

lemma does_begin {β : Type} {f : Unit → M β} {Q : β → Core → Prop} (h : Runs E (f ()) Q c) :
    Runs E (beginOp >>= f) Q c := (Runs.any does_beginOp).seq fun _ _ hc => hc ▸ h

lemma does_end {r : α} {Q : α → Core → Prop} (h : Q r c) : Runs E (endWith r) Q c :=
  (Runs.any (does_endWith r)).mono fun _ _ ⟨hr, hc⟩ => by rw [hr, hc]; exact h

lemma does_put (h : Ctx e H ((i, n) :: R) (i :: V) c) (hV : ∀ j ∈ V, j ∈ R.map Prod.fst) :
    Runs E (iunlockput e i) (fun _ c' => Ctx e H R V c' ∧ Idle e (Kept H R) c c') c :=
  does_iunlockput h fun j hj => ⟨mem_cons_of_mem _ hj, hV j hj⟩

/-- the end of a path, as `namei` returns it. -/
def Reaches (e : Env) (E : Stop → Prop) (H : Holders) (R : Refs) (V : List Ip) (c : Core)
    (w : Option (Option (Nat × List UInt8))) : Option Ip → Core → Prop
  | some i, c' => ∃ m name, w = some (some (m, name)) ∧ Ctx e H ((i, m) :: R) V c' ∧
      Idle e (Kept H R) c c' ∧ Live e E c' m
  | none, c' => w = some none ∧ Ctx e H R V c' ∧ Idle e (Kept H R) c c'

lemma does_namei (h : Ctx e H R V c) (hi : (cwd, cn) ∈ R) (hq : Quiet e E (Kept H R) c)
    (hl : Live e E c cn) :
    Runs E (namei e cwd path) (Reaches e E H R V c (resolvePath (c.node e) false cn path)) c := by
  unfold namei
  refine (does_namex h hi hq hl false).seq fun r c' h' => does_pure ?_
  rcases r with _ | ⟨ip, name⟩
  · exact h'
  · obtain ⟨m, hw, h', hi', hl', -⟩ := h'
    exact ⟨m, name, hw, h', hi', hl'⟩

/-! ## `open`, `mkdir` and `mknod` -/

/-- a reference to the file that was opened; a directory is opened for reading only. -/
def Opened (e : Env) (H : Holders) (R : Refs) (V : List Ip) (rdonly : Bool) :
    Option Ip → Core → Prop
  | some ip, c' => ∃ m x, Ctx e H ((ip, m) :: R) (ip :: V) c' ∧ c'.node e m = some x ∧
      (rdonly = false → x.d.type ≠ T_DIR)
  | none, c' => Ctx e H R V c'

lemma does_openEnd (h : Ctx e H ((ip, m) :: R) (ip :: V) c) (hV : ∀ j ∈ V, j ∈ R.map Prod.fst)
    {rdonly : Bool} (hx : c.node e m = some x) (ht : rdonly = false → x.d.type ≠ T_DIR) (room : Bool) :
    Runs E (openEnd e room ip) (fun r c' => Idle e (Kept H R) c c' ∧ Opened e H R V rdonly r c' ∧
      (r = none → room = false)) c := by
  unfold openEnd
  refine does_ite (fun _ => (does_iunlock h).seq fun _ c1 ⟨h1, hs1⟩ => does_end ?_) fun hr =>
    (does_put h hV).seq fun _ c1 ⟨h1, hi1⟩ => does_end ?_
  · exact ⟨.of_same hs1, ⟨m, x, h1, by rw [hs1.node]; exact hx, ht⟩, fun hn => by cases hn⟩
  · exact ⟨hi1, h1, fun _ => Bool.eq_false_of_not_eq_true hr⟩

/-- what `create` may have made. -/
def Makes (e : Env) (type major minor : Int) (w : Option (Option (Nat × List UInt8))) (c : Core) :
    Option Edit → Prop
  | none => Old e c w
  | some (.make t a b n name _) => (t = type ∧ a = major ∧ b = minor) ∧ w = some (some (n, name))
  | _ => False

lemma Node.Entered.fields (h : x.Entered name m y) : y.d.type = x.d.type ∧ y.d.nlink = x.d.nlink := by
  rw [h.wrote.fields]
  exact ⟨rfl, rfl⟩

lemma Node.Born.fields (h : y.Born type major minor n m) : y.d.type = type ∧ y.d.nlink = 1 := by
  unfold Node.Born at h
  split at h
  · obtain ⟨y1, h1, h2⟩ := h
    exact ⟨h2.fields.1.trans h1.fields.1, h2.fields.2.trans h1.fields.2⟩
  · rw [h]
    exact ⟨rfl, rfl⟩

lemma Made.born {A' : Nat → Option Node} (h : Made e type major minor n name m A A') :
    ∃ y, A' m = some y ∧ y.d.type = type ∧ y.d.nlink = 1 := by
  obtain ⟨x, y, z, hx, -, hy, -, hA⟩ := h.nodes
  have hne : m ≠ n := by
    intro hmn
    rw [← hmn, h.free] at hx
    cases hx
  refine ⟨y, ?_, hy.fields⟩
  rw [hA, update_of_ne hne, update_self]

lemma Ctx.made {c2 : Core} {A : Nat → Option Node}
    (h : Ctx e H ((ip, m) :: R) (ip :: V) c') (hm : Made e type major minor n name m A (c2.node e))
    (hi : Idle e K c2 c') : ∃ x, c'.node e m = some x ∧ x.d.type = type := by
  have hx := h.nodeOf mem_cons_self mem_cons_self
  obtain ⟨y, hy, ht, -⟩ := hm.born
  rw [hi.eq_of_some hx] at hy
  exact ⟨_, hx, by rw [some.inj hy]; exact ht⟩

lemma file_ne_dir {t : Int} (h : t = T_FILE) : t ≠ T_DIR := by
  rw [h]
  decide

section
variable (h : Ctx e H R V c) (hi : (cwd, cn) ∈ R) (hq : Quiet e E (Kept H R) c) (hl : Live e E c cn)
include h hi hq hl

lemma does_openCreate (room : Bool) :
    Runs E (openCreate e room cwd path) (fun r c' => ∃ o, Effect e (Kept H R) o c c' ∧
      Makes e T_FILE 0 0 (resolvePath (c.node e) true cn path) c o ∧ Opened e H R V false r c' ∧
      (r = none → room = false ∨ o = none)) c := by
  unfold openCreate
  refine does_begin ((does_create h hi hq hl (by decide) 0 0).seq fun r c1 h1 => ?_)
  cases h1 with
  | no h1 hi1 ho => exact does_end ⟨none, .idle hi1, ho, h1, fun _ => .inr rfl⟩
  | old _ h1 hi1 ho hx hxt =>
    exact (does_openEnd h1 h.sub hx (fun _ => file_ne_dir hxt) room).mono fun r c' ⟨hi', h', hr⟩ =>
      ⟨none, .idle (hi1.trans hi'), ho, h', fun hn => .inl (hr hn)⟩
  | made hw h1 hm h2 h' =>
    obtain ⟨x, hx, hxt⟩ := h'.made hm h2
    exact (does_openEnd h' h.sub hx (fun _ => file_ne_dir hxt) room).mono fun r c' ⟨hi', h', hr⟩ =>
      ⟨_, (Effect.make h1 hm h2).idle_after hi', ⟨⟨rfl, rfl, rfl⟩, hw⟩, h', fun hn => .inl (hr hn)⟩

lemma does_sysOpen (room rdonly : Bool) :
    Runs E (sysOpen e room rdonly cwd path) (fun r c' => Idle e (Kept H R) c c' ∧ Opened e H R V rdonly r c') c := by
  unfold sysOpen
  refine does_begin ((does_namei h hi hq hl).seq fun r c1 h1 => ?_)
  cases r with
  | none =>
    obtain ⟨-, h1, hi1⟩ := h1
    exact does_end ⟨hi1, h1⟩
  | some ip =>
    obtain ⟨m, nm, -, h1, hi1, hl1⟩ := h1
    refine (does_ilock h1 mem_cons_self hl1).seq fun _ c2 ⟨h2, hs2⟩ => does_get ?_
    have hi2 := hi1.trans (.of_same hs2)
    refine does_ite (fun _ => (does_put h2 h.sub).seq fun _ c3 ⟨h3, hi3⟩ => ?_) fun ht => ?_
    · exact does_end ⟨hi2.trans hi3, h3⟩
    · have hx := h2.nodeOf mem_cons_self mem_cons_self
      have hnd : rdonly = false → (c2.nodeOf ip).d.type ≠ T_DIR := fun hr hd => ht ⟨hd, hr⟩
      exact (does_openEnd h2 h.sub hx hnd room).mono fun r c' ⟨hi', h', _⟩ => ⟨hi2.trans hi', h'⟩

lemma does_mknod (ht : type ≠ 0) (major minor : Int) :
    Runs E (mknod e cwd path type major minor) (fun r c' => Ctx e H R V c' ∧ ∃ o,
      Effect e (Kept H R) o c c' ∧ Makes e type major minor (resolvePath (c.node e) true cn path) c o ∧
      (r = false → o = none)) c := by
  unfold mknod
  refine does_begin ((does_create h hi hq hl ht major minor).seq fun r c1 h1 => ?_)
  cases h1 with
  | no h1 hi1 ho => exact does_end ⟨h1, none, .idle hi1, ho, fun _ => rfl⟩
  | old _ h1 hi1 ho =>
    exact (does_put h1 h.sub).seq fun _ c' ⟨h', hi'⟩ =>
      does_end ⟨h', none, .idle (hi1.trans hi'), ho, fun _ => rfl⟩
  | made hw h1 hm h2 h' =>
    exact (does_put h' h.sub).seq fun _ c' ⟨h', hi'⟩ =>
      does_end ⟨h', _, (Effect.make h1 hm h2).idle_after hi', ⟨⟨rfl, rfl, rfl⟩, hw⟩, fun hn => by cases hn⟩

end

/-! ## `link` -/

lemma resolve_relink (hm : A m = some x) {parent : Bool} (fuel : Nat) :
    ∀ {path n name}, resolve (update A m (some (x.relink v))) parent fuel path n name =
      resolve A parent fuel path n name := by
  induction fuel with
  | zero => intro path n name; rfl
  | succ fuel ih =>
    intro path n name
    unfold resolve
    by_cases hn : n = m
    · rw [hn, update_self, hm]
      simp only [ih]
      rfl
    · rw [update_of_ne hn]
      simp only [ih]

lemma Calm.relink (h : Calm A K) (hm : A m = some x) (hK : ∀ n, K n → K' n) (hm' : K' m) :
    Calm (update A m (some (x.relink v))) K' := by
  have live : ∀ n, A n ≠ none → update A m (some (x.relink v)) n ≠ none := by
    intro n hn
    rw [update_apply]
    split
    · exact some_ne_none _
    · exact hn
  refine ⟨fun n z hz hl => ?_, fun n z off hz ht ho hd => live _ ?_, live _ h.root⟩
  · by_cases hn : n = m
    · rw [hn]; exact hm'
    · rw [update_of_ne hn] at hz
      exact hK n (h.orphan n z hz hl)
  · by_cases hn : n = m
    · rw [hn, update_self] at hz
      rw [← some.inj hz] at ht ho hd ⊢
      exact h.entry m x off hm ht ho hd
    · rw [update_of_ne hn] at hz
      exact h.entry n z off hz ht ho hd

lemma Ctx.live (h : Ctx e H R V c) (hi : i ∈ V) (hn : (i, n) ∈ R) : Live e E c n := by
  refine .inr ?_
  rw [h.nodeOf hi hn]
  exact some_ne_none _

lemma does_linkBad (h : Ctx e H ((ip, m) :: R) (ip :: V) c) (hV : ∀ j ∈ V, j ∈ R.map Prod.fst) :
    Runs E (linkBad e ip) (fun r c' => r = false ∧ Ctx e H R V c' ∧ ∃ c1,
      Touched m { (c.inode ip).d with nlink := short ((c.inode ip).d.nlink + -1) } c c1 ∧
      Idle e (Kept H R) c1 c') c := by
  unfold linkBad
  have hlock := does_ilock (E := E) h mem_cons_self (h.live mem_cons_self mem_cons_self)
  refine hlock.seq fun _ c1 ⟨h1, hs1⟩ => ?_
  have hd : (c1.inode ip).d = (c.inode ip).d := by
    rw [(h1.inv.copy ip (h1.held mem_cons_self)).same,
      (h.inv.copy ip (h.held mem_cons_self)).same, h1.num _ mem_cons_self,
      h.num _ mem_cons_self, hs1.dinode]
  refine (does_relink h1 mem_cons_self mem_cons_self _).seq fun _ c2 ⟨ht2, hb2⟩ => ?_
  rw [hd] at ht2
  replace ht2 : Touched m { (c.inode ip).d with nlink := short ((c.inode ip).d.nlink + -1) } c c2 :=
    ⟨ht2.used.trans hs1.used, ht2.data.trans hs1.data, by rw [ht2.dinode, hs1.dinode]⟩
  have hput : Runs E (iunlockput e ip) (fun _ c' => Ctx e H R V c' ∧ Idle e (Kept H R) c2 c') c2 :=
    does_put (hb2.ctx.weaken fun j hj => mem_cons_of_mem _ hj) hV
  exact hput.seq fun _ c3 ⟨h3, hi3⟩ => does_end ⟨rfl, h3, c2, ht2, hi3⟩

/-- the edit of `link`, by its result. -/
def Links (w w' : Option (Option (Nat × List UInt8))) : Bool → Option Edit → Prop
  | true, o => ∃ m nm n name, o = some (.link m n name) ∧ w = some (some (m, nm)) ∧
      w' = some (some (n, name))
  | false, o => o = none ∨ ∃ m, o = some (.nolink m)

lemma does_sysLink {old new : List UInt8} (h : Ctx e H R V c) (hi : (cwd, cn) ∈ R)
    (hq : Quiet e E (Kept H R) c) (hl : Live e E c cn) :
    Runs E (sysLink e cwd old new) (fun r c' => Ctx e H R V c' ∧ ∃ o, Effect e (Kept H R) o c c' ∧
      Links (resolvePath (c.node e) false cn old) (resolvePath (c.node e) true cn new) r o) c := by
  unfold sysLink
  refine does_begin ((does_namei h hi hq hl).seq fun r c1 h1 => ?_)
  cases r with
  | none =>
    obtain ⟨-, h1, hi1⟩ := h1
    exact does_end ⟨h1, none, .idle hi1, .inl rfl⟩
  | some ip =>
    obtain ⟨m, nm, hw, h1, hi1, hl1⟩ := h1
    refine (does_ilock h1 mem_cons_self hl1).seq fun _ c2 ⟨h2, hs2⟩ => does_get ?_
    have hi2 := hi1.trans (.of_same hs2)
    have hx2 := h2.nodeOf mem_cons_self mem_cons_self
    refine does_ite (fun _ => ?_) fun hdir => ?_
    · exact (does_put h2 h.sub).seq fun _ c3 ⟨h3, hi3⟩ =>
        does_end ⟨h3, none, .idle (hi2.trans hi3), .inl rfl⟩
    refine (does_relink h2 mem_cons_self mem_cons_self _).seq fun _ c3 ⟨ht3, hb3⟩ => ?_
    refine (does_iunlock hb3.ctx).seq fun _ c4 ⟨h4, hs4⟩ => ?_
    have hn4 : c4.node e = update (c2.node e) m (some ((c2.nodeOf ip).relink 1)) := by
      rw [hs4.node, hb3.node]
    have hq4 : Quiet e E (Kept H ((ip, m) :: R)) c4 := by
      refine (hq.idle hi2).imp_right fun hcalm => ?_
      rw [hn4]
      exact hcalm.relink hx2 (fun k hk => hk.cons) (.inr ⟨ip, mem_cons_self⟩)
    have hl4 : Live e E c4 cn := by
      refine (hl.idle hq hi2).imp_right fun hlive => ?_
      rw [hn4, update_apply]
      split
      · exact some_ne_none _
      · exact hlive
    have hrel : Relinked m 1 (c2.node e) (c3.node e) := ⟨_, hx2, hb3.node⟩
    have hnd : ∀ x, c2.node e m = some x → x.d.type ≠ T_DIR := by
      intro x hx
      rw [hx2] at hx
      rw [← some.inj hx]
      exact hdir
    have hnone : c2.node e m ≠ none := by
      rw [hx2]
      exact some_ne_none _
    -- the copy in memory is the inode of the disk
    have hd2 : (c2.inode ip).d = c2.dinode m := by
      rw [(h2.inv.copy ip (h2.held mem_cons_self)).same, h2.num _ mem_cons_self]
    have hbad : ∀ {c5 : Core}, Ctx e H ((ip, m) :: R) (ip :: V) c5 →
        Idle e (Kept H ((ip, m) :: R)) c3 c5 → Runs E (linkBad e ip) (fun r c' => Ctx e H R V c' ∧
          ∃ o, Effect e (Kept H R) o c c' ∧ Links (resolvePath (c.node e) false cn old)
            (resolvePath (c.node e) true cn new) r o) c5 := by
      intro c5 h5 hi5
      refine (does_linkBad h5 h.sub).mono fun r c' ⟨hr, h', c6, ht6, hi'⟩ => ?_
      rw [hr]
      refine ⟨h', _, .nolink hi2 hnone rfl (hd2 ▸ ht3) (hi5.mono fun k hk => ?_) rfl ?_ hi', .inr ⟨m, rfl⟩⟩
      · rcases hk with hk | hk
        · exact hk.cons
        · rw [hk]
          exact .inr ⟨ip, mem_cons_self⟩
      · -- the copy in memory, with the link that was added
        have hx5 := h5.nodeOf mem_cons_self mem_cons_self
        rw [hi5.kept (.inr ⟨ip, mem_cons_self⟩), hb3.node, update_self] at hx5
        have hd5 : (c5.inode ip).d = ((c2.nodeOf ip).relink 1).d :=
          congrArg Node.d (some.inj hx5).symm
        rw [hd5] at ht6
        rw [← hd2]
        exact ht6
    refine Runs.seq (does_namex h4 (mem_cons_of_mem _ hi) hq4 hl4 true) fun r c5 h5 => ?_
    rcases r with _ | ⟨dp, name⟩
    · obtain ⟨-, h5, hi5⟩ := h5
      exact hbad h5 ((Idle.of_same hs4).trans hi5)
    · obtain ⟨n, hw5, h5, hi5, hl5, -⟩ := h5
      refine (does_ilock h5 mem_cons_self hl5).seq fun _ c6 ⟨h6, hs6⟩ => does_get ?_
      have hi6 : Idle e (Kept H ((ip, m) :: R)) c3 c6 :=
        ((Idle.of_same hs4).trans hi5).trans (.of_same hs6)
      have hip : (c6.inode ip).inum = m := h6.num (ip, m) (mem_cons_of_mem _ mem_cons_self)
      rw [hip]
      refine (does_dirlink h6 mem_cons_self mem_cons_self).seq fun r c7 ⟨hdt, h7⟩ => ?_
      refine does_ite (fun hr => ?_) fun hr => ?_
      · rw [hr] at h7
        obtain ⟨-, h7, hi7⟩ := h7
        refine (does_put h7 h4.sub).seq fun _ c8 ⟨h8, hi8⟩ => hbad h8 ?_
        exact (hi6.trans (hi7.mono fun k hk => hk.cons)).trans hi8
      · rw [Bool.eq_true_of_not_eq_false hr] at h7
        obtain ⟨y, hy, hb7⟩ := h7
        refine (does_put hb7.ctx h4.sub).seq fun _ c8 ⟨h8, hi8⟩ => ?_
        have hput : Runs E (iput e ip) (fun _ c' => Ctx e H R V c' ∧ Idle e (Kept H R) c8 c') c8 :=
          does_iput h8 fun j hj => ⟨mem_cons_of_mem _ hj, h.sub j hj⟩
        refine hput.seq fun _ c9 ⟨h9, hi9⟩ => does_end ⟨h9, _, .link hi2 hnd hrel
          (hi6.mono fun k hk => hk.cons) ⟨c6.nodeOf dp, y, ?_, hdt, hy, hb7.node⟩
          ((hi8.mono fun k hk => hk.cons).trans hi9), m, nm, n, name, rfl, hw, ?_⟩
        · exact h6.nodeOf mem_cons_self mem_cons_self
        · -- the way to the new name is that of the disk before
          unfold resolvePath at hw5 ⊢
          rw [hn4, resolve_relink hx2] at hw5
          exact resolve_of_sub (fun k x hx => hi2.eq_of_some hx) _ hw5

/-! ## `unlink` -/

lemma does_emptyDirLoop (h : Ctx e H R V c) (hi : i ∈ V) (ht : (c.inode i).d.type ≠ T_DEV)
    (offs : List Nat) : Runs E (emptyDirLoop e i offs)
      (fun r c' => r = offs.all (fun off => deInum ((c.nodeOf i).de off) = 0) ∧ c' = c) c := by
  induction offs with
  | nil => exact does_pure ⟨rfl, rfl⟩
  | cons off offs ih =>
    refine (does_readDe h hi ht (.inl ⟨Allows.of_safe _ (by decide), Looks.range⟩)).seq fun de c' ⟨hde, hc⟩ => ?_
    rw [hc, hde, all_cons]
    refine does_ite (fun h0 => does_pure ⟨?_, rfl⟩) fun h0 => ?_
    · rw [decide_eq_false h0]
      rfl
    · rw [decide_eq_true (Classical.not_not.mp h0), Bool.true_and]
      exact ih

lemma does_occupied (h : Ctx e H R V c) (hi : i ∈ V) : Runs E (occupied e i)
    (fun r c' => c' = c ∧ (r = false → (c.nodeOf i).d.type = T_DIR → (c.nodeOf i).bare = true)) c := by
  unfold occupied
  refine does_get (does_ite (fun ht => ?_) fun ht => does_pure ⟨rfl, fun _ hd => absurd hd ht⟩)
  have hloop : Runs E (isdirempty e i) (fun r c' => r = (c.nodeOf i).bare ∧ c' = c) c :=
    does_get (does_emptyDirLoop h hi (by rw [ht]; decide) _)
  refine hloop.seq fun r c' ⟨hr, hc⟩ => does_pure ⟨hc, fun hn _ => ?_⟩
  rw [← hr]
  cases r with
  | true => rfl
  | false => cases hn

lemma does_unlinkEntry (h : Ctx e H ((ip, m) :: (dp, n) :: R) (ip :: dp :: V) c)
    (hV : ∀ j ∈ V, j ∈ R.map Prod.fst) (ht : (c.nodeOf dp).d.type = T_DIR)
    (hd : namecmp name dot ≠ 0) (hdd : namecmp name dotdot ≠ 0)
    (hf : (c.nodeOf dp).find name = some (m, off)) (hl : 1 ≤ (c.nodeOf ip).d.nlink)
    (hbare : (c.nodeOf ip).d.type = T_DIR → (c.nodeOf ip).bare = true) :
    Runs E (unlinkEntry e dp ip off) (fun r c' => r = true ∧ Ctx e H R V c' ∧
      Effect e (Kept H R) (some (.unlink n name m)) c c') c := by
  have hdp : dp ∈ ip :: dp :: V := mem_cons_of_mem _ mem_cons_self
  have hdn : (dp, n) ∈ (ip, m) :: (dp, n) :: R := mem_cons_of_mem _ mem_cons_self
  have hx := h.nodeOf hdp hdn
  have hu := h.nodeOf mem_cons_self mem_cons_self
  unfold unlinkEntry
  have hdev : (c.inode dp).d.type ≠ T_DEV := by
    rw [show (c.inode dp).d.type = T_DIR from ht]
    decide
  refine (does_writeDe h hdp hdn hdev (by decide) length_replicate).seq
    fun _ c1 ⟨y, hy, hoff, hmax, hb1⟩ => does_get ?_
  -- the type of the inode is as before, also if it were the directory itself
  have hty : (c1.inode ip).d.type = (c.nodeOf ip).d.type := by
    show (c1.nodeOf ip).d.type = _
    by_cases hmn : m = n
    · have h1 := hb1.self mem_cons_self (by rw [← hmn]; exact mem_cons_self)
      rw [hmn, hx] at hu
      rw [h1, hy.fields, ← some.inj hu]
    · rw [hb1.other h mem_cons_self mem_cons_self hmn]
  rw [hty]
  have hdir : Runs E (if (c.nodeOf ip).d.type = T_DIR then relink e dp (-1) else pure ())
      (fun _ c' => Ctx e H ((ip, m) :: (dp, n) :: R) (ip :: dp :: V) c' ∧
        Cleared n name m (c.node e) (c'.node e)) c1 := by
    refine does_ite (fun hdir => ?_) fun hdir => does_pure ⟨hb1.ctx, ?_⟩
    · refine (does_relink hb1.ctx hdp hdn _).mono fun _ c2 ⟨_, hb2⟩ => ⟨hb2.ctx, _, _, y, off, hx, ht, hd,
        hdd, hf, hu, hl, hbare, hoff, hmax, hy, ?_⟩
      rw [if_pos hdir, hb2.node, hb1.node, update_idem, hb1.self hdp hdn]
    · refine ⟨_, _, y, off, hx, ht, hd, hdd, hf, hu, hl, hbare, hoff, hmax, hy, ?_⟩
      rw [if_neg hdir, hb1.node]
  refine hdir.seq fun _ c2 ⟨h2, hclear⟩ => ?_
  have hput : Runs E (iunlockput e dp) (fun _ c' => Ctx e H ((ip, m) :: R) (ip :: V) c' ∧
      Idle e (Kept H ((ip, m) :: R)) c2 c') c2 := by
    refine does_iunlockput h2.swap fun j hj => ?_
    rcases mem_cons.mp hj with hj | hj
    · rw [hj]
      exact ⟨mem_cons_self, mem_fst_head⟩
    · exact ⟨mem_cons_of_mem _ (mem_cons_of_mem _ hj), mem_fst_cons (hV j hj)⟩
  refine hput.seq fun _ c3 ⟨h3, hi3⟩ => ?_
  have hu3 := h3.nodeOf mem_cons_self mem_cons_self
  refine (does_relink h3 mem_cons_self mem_cons_self _).seq fun _ c4 ⟨_, hb4⟩ => ?_
  refine (does_put hb4.ctx hV).seq fun _ c5 ⟨h5, hi5⟩ => does_end ⟨rfl, h5, ?_⟩
  exact .unlink (.of_same (.refl c)) hclear (hi3.mono fun k hk => hk.cons) ⟨_, hu3, hb4.node⟩ hi5

/-- the edit of `unlink`, by its result. -/
def Unlinks (w : Option (Option (Nat × List UInt8))) : Bool → Option Edit → Prop
  | true, o => ∃ n name m, o = some (.unlink n name m) ∧ w = some (some (n, name))
  | false, o => o = none

lemma does_sysUnlink (h : Ctx e H R V c) (hi : (cwd, cn) ∈ R) (hq : Quiet e E (Kept H R) c)
    (hl : Live e E c cn) :
    Runs E (sysUnlink e cwd path) (fun r c' => Ctx e H R V c' ∧ ∃ o, Effect e (Kept H R) o c c' ∧
      Unlinks (resolvePath (c.node e) true cn path) r o) c := by
  unfold sysUnlink
  refine does_begin (Runs.seq (does_namex h hi hq hl true) fun r c1 h₁ => ?_)
  rcases r with _ | ⟨dp, name⟩
  · obtain ⟨-, h₁, hi1⟩ := h₁
    exact does_end ⟨h₁, none, .idle hi1, rfl⟩
  · obtain ⟨n, hw, h₁, hi1, hl1, -⟩ := h₁
    refine (does_ilock h₁ mem_cons_self hl1).seq fun _ c2 ⟨h2, hs2⟩ => ?_
    have hi2 := hi1.trans (.of_same hs2)
    -- the label `bad`
    have hbad : ∀ {c3 : Core}, Ctx e H ((dp, n) :: R) (dp :: V) c3 → Idle e (Kept H R) c c3 →
        Runs E (unlinkBad e dp) (fun r c' => Ctx e H R V c' ∧ ∃ o, Effect e (Kept H R) o c c' ∧
          Unlinks (resolvePath (c.node e) true cn path) r o) c3 := by
      intro c3 h3 hi3
      exact (does_put h3 h.sub).seq fun _ c4 ⟨h4, hi4⟩ =>
        does_end ⟨h4, none, .idle (hi3.trans hi4), rfl⟩
    refine does_ite (fun _ => hbad h2 hi2) fun hdots => ?_
    obtain ⟨hd, hdd⟩ := not_or.mp hdots
    refine (does_dirlookup h2 mem_cons_self).seq fun r c3 ⟨hdir, h3⟩ => ?_
    rcases r with _ | ⟨ip, off⟩
    · obtain ⟨-, hc⟩ := h3
      rw [hc]
      exact hbad h2 hi2
    obtain ⟨m, hf, h3, hs3⟩ := h3
    have hx2 := h2.nodeOf mem_cons_self mem_cons_self
    have hlive : Live e E c3 m := ((hq.idle hi2).found hx2 hdir hf).same hs3
    unfold unlinkFound
    refine (does_ilock h3 mem_cons_self hlive).seq fun _ c4 ⟨h4, hs4⟩ => does_get ?_
    have hi4 := (hi2.trans (.of_same hs3)).trans (.of_same hs4)
    refine does_ite (fun _ => does_fail (by decide)) fun hnl => ?_
    refine (does_occupied h4 mem_cons_self).seq fun r c5 ⟨hc, hbare⟩ => ?_
    rw [hc]
    refine does_ite (fun _ => ?_) fun hr => ?_
    · have hV : ∀ j ∈ dp :: V, j ∈ ((dp, n) :: R).map Prod.fst := h2.sub
      refine (does_put h4 hV).seq fun _ c6 ⟨h6, hi6⟩ => hbad h6 ?_
      exact hi4.trans (hi6.mono fun k hk => hk.cons)
    · have hdp : dp ∈ ip :: dp :: V := mem_cons_of_mem _ mem_cons_self
      have hdn : (dp, n) ∈ (ip, m) :: (dp, n) :: R := mem_cons_of_mem _ mem_cons_self
      have hxe : c4.nodeOf dp = c2.nodeOf dp := by
        have h1 := h4.nodeOf hdp hdn
        rw [(hs3.trans hs4).node, hx2] at h1
        exact (some.inj h1).symm
      rw [← hxe] at hf
      have hdir' : (c4.nodeOf dp).d.type = T_DIR := by rw [hxe]; exact hdir
      refine (does_unlinkEntry h4 h.sub hdir' hd hdd hf (Int.not_lt.mp hnl)
        (hbare (Bool.eq_false_of_not_eq_true hr))).mono fun r c' ⟨hr, h', heff⟩ => ?_
      rw [hr]
      exact ⟨h', _, heff.idle_before hi4, n, name, m, rfl, hw⟩

/-! ## `chdir`, and open files -/

/-- the new directory takes the place of the old one. -/
def Enters (e : Env) (H : Holders) (R : Refs) (V : List Ip) (p : Ip × Nat) :
    Option Ip → Core → Prop
  | some i, c' => ∃ m x, Ctx e H ((i, m) :: R) [i] c' ∧ c'.node e m = some x ∧ x.d.type = T_DIR
  | none, c' => Ctx e H (p :: R) V c'

lemma does_sysChdir (h : Ctx e H ((cwd, cn) :: R) V c)
    (hq : Quiet e E (Kept H ((cwd, cn) :: R)) c) (hl : Live e E c cn) :
    Runs E (sysChdir e cwd path) (fun r c' => Enters e H R V (cwd, cn) r c' ∧
      Idle e (Kept H R) c c' ∧ (r = none → Idle e (Kept H ((cwd, cn) :: R)) c c')) c := by
  unfold sysChdir
  refine does_begin ((does_namei h mem_cons_self hq hl).seq fun r c1 h1 => ?_)
  have weak : ∀ {a b : Core}, Idle e (Kept H ((cwd, cn) :: R)) a b → Idle e (Kept H R) a b :=
    fun hi => hi.mono fun k hk => hk.cons
  cases r with
  | none =>
    obtain ⟨-, h1, hi1⟩ := h1
    exact does_end ⟨h1, weak hi1, fun _ => hi1⟩
  | some ip =>
    obtain ⟨m, nm, -, h1, hi1, hl1⟩ := h1
    refine (does_ilock h1 mem_cons_self hl1).seq fun _ c2 ⟨h2, hs2⟩ => does_get ?_
    have hi2 := hi1.trans (.of_same hs2)
    have hx2 := h2.nodeOf mem_cons_self mem_cons_self
    refine does_ite (fun _ => ?_) fun ht => ?_
    · exact (does_put h2 h.sub).seq fun _ c3 ⟨h3, hi3⟩ =>
        does_end ⟨h3, weak (hi2.trans hi3), fun _ => hi2.trans hi3⟩
    · refine (does_iunlock h2).seq fun _ c3 ⟨h3, hs3⟩ => ?_
      have hput : Runs E (iput e cwd) (fun _ c' => Ctx e H ((ip, m) :: R) [ip] c' ∧
          Idle e (Kept H ((ip, m) :: R)) c3 c') c3 := by
        refine does_iput h3.swap fun j hj => ?_
        rw [mem_singleton.mp hj]
        exact ⟨mem_cons_self, mem_fst_head⟩
      refine hput.seq fun _ c4 ⟨h4, hi4⟩ => does_end ⟨⟨m, c2.nodeOf ip, h4, ?_, Classical.not_not.mp ht⟩,
        ((weak hi2).trans (.of_same hs3)).trans (hi4.mono fun k hk => hk.cons), fun hn => by cases hn⟩
      rw [hi4.kept (.inr ⟨ip, mem_cons_self⟩), hs3.node]
      exact hx2

section
variable (h : Ctx e H R V c) (hi : (i, n) ∈ R) (hl : Live e E c n)
include h hi hl

lemma does_filewriteTurn
    {src : List UInt8} (hlen : src.length < 2 ^ 32) :
    Runs E (filewriteTurn e i src off) (fun r c' => Ctx e H R V c' ∧ ∃ o, Effect e K o c c' ∧
      (o = none ∧ c.Same c' ∨ r = some src.length ∧ o = some (.write n off src))) c := by
  unfold filewriteTurn
  refine does_begin ((does_ilock h hi hl).seq fun _ c1 ⟨h1, hs1⟩ => ?_)
  have hnum : (c1.inode i).inum = n := h1.num _ hi
  have hx := h1.nodeOf mem_cons_self hi
  have hV : ∀ j ∈ V, j ∈ i :: V := fun j hj => mem_cons_of_mem _ hj
  refine (Runs.any (does_writei h1.inv (h1.held mem_cons_self) hlen)).seq fun r c2 ⟨h2, hk, hw⟩ => ?_
  cases hw with
  | same =>
    refine (does_iunlock h1).seq fun _ c3 ⟨h3, hs3⟩ => does_end ⟨h3.weaken hV, none, ?_, .inl ⟨rfl, ?_⟩⟩
    · exact .idle (.of_same (hs1.trans hs3))
    · exact hs1.trans hs3
  | wrote ht hoff hmax hnode hy =>
    rw [hnum] at hnode
    have h2' : Ctx e H R (i :: V) c2 := by
      refine h1.keeps h2 hk mem_cons_self fun m hm => ?_
      rw [hnum] at hm
      rw [hnode, update_of_ne hm]
    refine (does_iunlock h2').seq fun _ c3 ⟨h3, hs3⟩ =>
      does_end ⟨h3.weaken hV, some (.write n off src), ?_, .inr ⟨rfl, rfl⟩⟩
    exact .write (.of_same hs1) hx ht hoff hmax hy hnode (.of_same hs3)

lemma does_fileread {k : Nat}
    (hk : k < 2 ^ 32) : Runs E (fileread e i off k) (fun r c' => Ctx e H R V c' ∧ c.Same c' ∧
      ∀ x, c.node e n = some x → x.d.type ≠ T_DEV → r = x.readi off k) c := by
  unfold fileread
  refine (does_ilock h hi hl).seq fun _ c1 ⟨h1, hs1⟩ => ?_
  have hx := h1.nodeOf mem_cons_self hi
  have hr : InRange E (c1.inode i).d := .inl (Allows.of_safe _ (by decide))
  refine (does_readi h1.inv (h1.held mem_cons_self) hr hk).seq fun r c2 ⟨hc, hr⟩ => ?_
  rw [hc]
  refine (does_iunlock h1).seq fun _ c3 ⟨h3, hs3⟩ => does_pure
    ⟨h3.weaken fun j hj => mem_cons_of_mem _ hj, hs1.trans hs3, fun x hx' ht => ?_⟩
  rw [hs1.node, hx'] at hx
  rw [some.inj hx] at ht ⊢
  exact hr ht

end

lemma does_fileclose (h : Ctx e H ((i, n) :: R) V c) :
    Runs E (fileclose e i) (fun _ c' => Ctx e H R [] c' ∧ Idle e (Kept H R) c c') c := by
  unfold fileclose
  have hput : Runs E (iput e i) (fun _ c' => Ctx e H R [] c' ∧ Idle e (Kept H R) c c') c :=
    does_iput h fun _ hj => by cases hj
  refine does_begin (hput.seq fun _ c1 h1 => ?_)
  intro s hs
  apply wp_modify
  rw [← hs] at h1
  exact h1

/-! ## any call -/

/-- the state between two calls, whoever holds the references. -/
structure Ready (e : Env) (c : Core) : Prop where
  inv : Inv e c
  refs : ∀ i, 0 ≤ (c.inode i).ref

lemma Ctx.ready (h : Ctx e H R V c) : Ready e c :=
  ⟨h.inv, fun i => by rw [h.refs i]; exact Int.natCast_nonneg _⟩

/-- everyone else, when a call brings the inode `i`. -/
def Core.others (c : Core) (i : Ip) : Holders :=
  ⟨fun j => (c.inode j).ref.toNat - [i].count j, fun j => (c.inode j).inum, fun _ => False⟩

lemma Ready.bring (h : Ready e c) (hi : 1 ≤ (c.inode i).ref) : Ctx e (c.others i) [(i, (c.inode i).inum)] [] c := by
  refine ⟨h.inv, fun j => ?_, fun p hp => ?_, fun _ _ => rfl, fun _ hj => (by cases hj),
    fun _ hj => (by cases hj), fun _ _ hT => hT.elim⟩
  · show (c.inode j).ref = ([i].count j + ((c.inode j).ref.toNat - [i].count j) : Nat)
    have h0 := h.refs j
    by_cases hji : j = i
    · rw [hji, count_singleton_self]
      omega
    · rw [count_eq_zero_of_not_mem fun hm => hji (mem_singleton.mp hm)]
      omega
  · rw [mem_singleton.mp hp]

/-- the failures that are looked at for any disk. -/
def Benign (x : Stop) : Prop := x ≠ .panic "freeing free block"

instance : Allows Benign := ⟨fun _ h => h.1⟩

lemma does_ignore {m : M α} {Q : Core → Prop} (h : Runs E m (fun _ c' => Q c') c) :
    Runs E (ignore m) (fun _ c' => Q c') c := h.seq fun _ _ h' => does_pure h'

/-- **Every call keeps the invariant**, and makes one edit at most. -/
theorem does_call (a : Call) (h : Ready e c) (hb : 1 ≤ (c.inode a.brings).ref) (hf : a.fits = true) :
    Runs Benign (a.run e) (fun _ c' => Ready e c' ∧ ∃ o, Effect e (fun _ => False) o c c') c := by
  have hc := h.bring hb
  have hty : Benign (.panic "ilock: no type") := by unfold Benign; decide
  have hq : ∀ K, Quiet e Benign K c := fun K => .inl hty
  have hl : ∀ n, Live e Benign c n := fun n => .inl hty
  have weak : ∀ {K : Nat → Prop} {o : Option Edit} {c' : Core}, Effect e K o c c' →
      ∃ o, Effect e (fun _ => False) o c c' := fun he => ⟨_, he.mono fun _ hn => hn.elim⟩
  cases a with
  | create room =>
    refine does_ignore ((does_openCreate hc mem_cons_self (hq _) (hl _) room).mono
      fun r c' ⟨o, he, _, ho, _⟩ => ⟨?_, weak he⟩)
    cases r with
    | none => exact Ctx.ready ho
    | some =>
      obtain ⟨m, x, h', -⟩ := ho
      exact h'.ready
  | «open» room rdonly =>
    refine does_ignore ((does_sysOpen hc mem_cons_self (hq _) (hl _) room rdonly).mono
      fun r c' ⟨hi, ho⟩ => ⟨?_, weak (.idle hi)⟩)
    cases r with
    | none => exact Ctx.ready ho
    | some =>
      obtain ⟨m, x, h', -⟩ := ho
      exact h'.ready
  | mkdir | mknod =>
    exact does_ignore ((does_mknod hc mem_cons_self (hq _) (hl _) (by decide) _ _).mono
      fun r c' ⟨h', o, he, _⟩ => ⟨h'.ready, weak he⟩)
  | link =>
    exact does_ignore ((does_sysLink hc mem_cons_self (hq _) (hl _)).mono
      fun r c' ⟨h', o, he, _⟩ => ⟨h'.ready, weak he⟩)
  | unlink =>
    exact does_ignore ((does_sysUnlink hc mem_cons_self (hq _) (hl _)).mono
      fun r c' ⟨h', o, he, _⟩ => ⟨h'.ready, weak he⟩)
  | chdir =>
    refine does_ignore ((does_sysChdir hc (hq _) (hl _)).mono fun r c' ⟨ho, hi, _⟩ =>
      ⟨?_, weak (.idle hi)⟩)
    cases r with
    | none => exact Ctx.ready ho
    | some =>
      obtain ⟨m, x, h', -⟩ := ho
      exact h'.ready
  | write =>
    exact does_ignore ((does_filewriteTurn (K := fun _ => False) hc mem_cons_self (hl _)
      (of_decide_eq_true hf)).mono fun r c' ⟨h', o, he, _⟩ => ⟨h'.ready, weak he⟩)
  | read =>
    exact does_ignore ((does_fileread hc mem_cons_self (hl _) (of_decide_eq_true hf)).mono
      fun r c' ⟨h', hs, _⟩ => ⟨h'.ready, weak (.idle (K := fun _ => False) (.of_same hs))⟩)
  | close =>
    exact (does_fileclose hc).mono fun r c' ⟨h', hi⟩ => ⟨h'.ready, weak (.idle hi)⟩
  | dup =>
    exact does_ignore ((does_idup hc mem_cons_self).mono fun r c' ⟨_, h', hs⟩ =>
      ⟨h'.ready, weak (.idle (K := fun _ => False) (.of_same hs))⟩)

end Xv6.Fs
