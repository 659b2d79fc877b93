import Xv6.Bio.Logged

/-!
# The invariant of the cache with `commit` in it

`SysOk` adds to the invariant of the cache what holds while somebody is inside `commit`: a pointer
kept for the block `b` is a buffer of that block, locked or about to be (`Cache.Has`), and what is
left of the program is the end of `commit` for the list in `log.lh`.
-/

set_option linter.unusedSectionVars false

namespace Xv6.Bio
open Lib Function List
open Log (Layout)

variable {ι : Type} [DecidableEq ι] [Fintype ι] {n : Nat} {c c' : Cache ι} {A : Disk} {c : Cache ι}
variable {L : Layout} {s s' : Sys ι} {a : Label ι}
variable {p q : ι} {b t dst src : Nat} {i j : Fin NBUF} {b0 : Buf ι} {lh : List Nat} {x : Act ι} {k k' : Commit ι}

/-! ## the pointers of `commit` -/

/-- `p` has the buffer `i` from `bread(b)`, or waits for it there. -/
def Cache.Has (c : Cache ι) (p : ι) (b : Nat) (i : Fin NBUF) : Prop :=
  ((c.buf i).lock = some p ∧ (c.buf i).key = some b) ∨ c.pc p = .waiting b i

lemma Cache.Has.frame {x : BufPc} (h : c.Has p b i) (hbuf : c'.buf = update c.buf j b0)
    (hpc : c'.pc = update c.pc q x)
    (hj : i = j → (c.buf i).lock = some p → b0.lock = (c.buf i).lock ∧ b0.key = (c.buf i).key)
    (hq : c.pc p = .waiting b i → q ≠ p) : c'.Has p b i := by
  rcases h with ⟨hl, hk⟩ | hw
  · left
    rw [hbuf]
    by_cases e : i = j
    · obtain ⟨h1, h2⟩ := hj e hl
      rw [e, update_self, h1, h2]
      exact ⟨hl, hk⟩
    · rw [update_of_ne e]
      exact ⟨hl, hk⟩
  · right
    rw [hpc, update_of_ne (hq hw).symm]
    exact hw

lemma Cache.Has.gets {y : Nat} (hok : CacheOk A c) (h : c.Has p b i) (hq : c.pc q = .waiting y j)
    (hl : (c.buf j).lock = none) (h0 : b0.lock = some q) (hk0 : b0.key = (c.buf j).key) :
    ((c.set j b0).goto q .idle).Has p b i := by
  have hne : (c.buf i).lock = some p → i ≠ j := by
    intro hi e
    rw [e, hl] at hi
    cases hi
  by_cases e : q = p
  · left
    rcases h with ⟨hi, hk⟩ | hw
    · rw [Cache.goto_buf, c.set_buf_ne b0 (hne hi)]
      exact ⟨hi, hk⟩
    · rw [← e, hq] at hw
      cases hw
      rw [Cache.goto_buf, Cache.set_buf_self, h0, hk0, e]
      exact ⟨rfl, hok.wait q b i hq⟩
  · exact h.frame rfl rfl (fun e' hi => absurd e' (hne hi)) fun _ => e

/-- only its own `brelse` takes a buffer away from `p`. -/
theorem Cache.Has.next {x : Act ι} (hok : CacheOk A c) (hst : c.act n x = .ok c') {p : ι} {b : Nat}
    {i : Fin NBUF} (h : c.Has p b i) (hx : x ≠ .brelse p i) : c'.Has p b i := by
  -- who is somewhere else is not `p`
  have away : ∀ {q : ι} {y : BufPc}, c.pc q = y → (∀ b i, y ≠ .waiting b i) → c.pc p = .waiting b i → q ≠ p := by
    intro q y hq hy hw e
    rw [e, hw] at hq
    exact hy b i hq.symm
  cases act_did hok.dirty_valid hst with
  | @hit q y j hp | @unref q j hp =>
    exact h.frame rfl rfl (fun e _ => by rw [e]; exact ⟨rfl, rfl⟩) (away hp nofun)
  | @recycle q y j hp hno hi =>
    refine h.frame rfl rfl (fun e hl => ?_) (away hp nofun)
    have := (hok.free (of_decide_eq_true hi).1).2
    rw [← e, Buf.holders_some hl] at this
    cases this
  | @found q y j hp hl | @fetch q y j hp hl => exact h.gets hok hp hl rfl rfl
  | @mark q j y hp | @bwrite q j y hp =>
    exact h.frame rfl (update_eq_self q c.pc).symm (fun e _ => by rw [e]; exact ⟨rfl, rfl⟩) (away hp nofun)
  | @brelse q j hp hl =>
    refine h.frame rfl rfl (fun e hi => ?_) (away hp nofun)
    rw [e, hl] at hi
    rw [e, Option.some.inj hi] at hx
    exact absurd rfl hx
  | skip => exact h

/-! ## the program of `commit` -/

lemma copy_mem_writeLog (h : Cmd.copy dst src ∈ writeLog L t lh) : ∃ k, lh[k]? = some src ∧ dst = slot L (t + k) := by
  induction lh generalizing t with
  | nil => cases h
  | cons b lh ih =>
    rcases mem_append.mp h with h | h
    · have e : dst = slot L t ∧ src = b := by simpa using h
      exact ⟨0, by rw [e.2]; rfl, e.1⟩
    · obtain ⟨k, hk, e⟩ := ih h
      exact ⟨k + 1, hk, by rw [e, Nat.add_right_comm, Nat.add_assoc]⟩

lemma copy_mem_installTrans (h : Cmd.copy dst src ∈ installTrans L t lh) :
    ∃ k, lh[k]? = some dst ∧ src = slot L (t + k) := by
  induction lh generalizing t with
  | nil => cases h
  | cons b lh ih =>
    rcases mem_append.mp h with h | h
    · have e : dst = b ∧ src = slot L t := by simpa using h
      exact ⟨0, by rw [e.1]; rfl, e.2⟩
    · obtain ⟨k, hk, e⟩ := ih h
      exact ⟨k + 1, hk, by rw [e, Nat.add_right_comm, Nat.add_assoc]⟩

lemma copy_mem_commit (h : Cmd.copy dst src ∈ commit L lh) :
    ∃ k, (lh[k]? = some src ∧ dst = slot L k) ∨ (lh[k]? = some dst ∧ src = slot L k) := by
  unfold commit at h
  split at h
  · cases h
  · rcases mem_append.mp h with h | h
    · rcases mem_append.mp h with h | h
      · rcases mem_append.mp h with h | h
        · obtain ⟨k, hk, e⟩ := copy_mem_writeLog h
          exact ⟨k, .inl ⟨hk, by rw [e, Nat.zero_add]⟩⟩
        · simp [writeHead] at h
      · obtain ⟨k, hk, e⟩ := copy_mem_installTrans h
        exact ⟨k, .inr ⟨hk, by rw [e, Nat.zero_add]⟩⟩
    · simp [writeHead] at h

lemma clear_notMem_writeLog (lh : List Nat) (t : Nat) : Cmd.clear ∉ writeLog L t lh := by
  induction lh generalizing t with
  | nil => exact nofun
  | cons b lh ih =>
    intro h
    rcases mem_append.mp h with h | h
    · simp at h
    · exact ih (t + 1) h

lemma clear_notMem_installTrans (lh : List Nat) (t : Nat) : Cmd.clear ∉ installTrans L t lh := by
  induction lh generalizing t with
  | nil => exact nofun
  | cons b lh ih =>
    intro h
    rcases mem_append.mp h with h | h
    · simp at h
    · exact ih (t + 1) h

/-- nothing is copied after `log.lh.n = 0`. -/
theorem commit_tidy {l r : List Cmd} (h : commit L lh = l ++ .clear :: r) (dst src : Nat) : Cmd.copy dst src ∉ r := by
  unfold commit at h
  split at h
  · cases l <;> cases h
  · have hhead : Cmd.clear ∉ writeHead L := by simp [writeHead]
    have hfirst : Cmd.clear ∉ writeLog L 0 lh ++ writeHead L ++ installTrans L 0 lh := by
      intro hm
      rcases mem_append.mp hm with hm | hm
      · rcases mem_append.mp hm with hm | hm
        · exact clear_notMem_writeLog lh 0 hm
        · exact hhead hm
      · exact clear_notMem_installTrans lh 0 hm
    obtain ⟨-, -, e⟩ := (append_cons_inj_of_notMem hfirst hhead).mp h
    rw [← e]
    simp [writeHead]

/-! ## the invariant -/

/-- what a label stores. -/
def storeOf (L : Layout) (s : Sys ι) (a : Label ι) : Option (Nat × Block) :=
  match a.act L s with
  | .ok x => x.store s.cache
  | .error _ => none

lemma storeOf_eq (h : a.act L s = .ok x) : storeOf L s a = x.store s.cache := by
  unfold storeOf
  rw [h]

structure SysOk (L : Layout) (A : Disk) (s : Sys ι) : Prop where
  cache : CacheOk A s.cache
  vars : ∀ k, s.commit = some k → ∀ b i, k.vars b = some i → s.cache.Has k.who b i
  prog : ∀ k, s.commit = some k → ∃ lh, k.prog <:+ commit L lh ∧ ∀ dst src, .copy dst src ∈ k.prog → s.lh = lh
  room : s.lh.length ≤ L.size - 1

lemma SysOk.init (disk : Disk) : SysOk L disk (Sys.init disk : Sys ι) :=
  ⟨.binit disk, nofun, nofun, Nat.zero_le _⟩

lemma bread_waits (hok : CacheOk A c) (h : c.act n (.bread p b) = .ok c') : ∃ j, c'.pc p = .waiting b j := by
  cases act_did hok.dirty_valid h with
  | @hit q y j | @recycle q y j => exact ⟨j, update_self ..⟩

lemma Cache.Has.locked (h : c.Has p b i) (hp : c.pc p = .idle) :
    (c.buf i).lock = some p ∧ (c.buf i).key = some b := by
  refine h.resolve_right fun hw => ?_
  rw [hp] at hw
  cases hw

lemma SysOk.next_vars (h : SysOk L A s) (hk : s.commit = some k) (hx : k.act L s = .ok x)
    (hc : s.cache.act n x = .ok c) (hk' : (k.next s c).commit = some k') (b : Nat) (i : Fin NBUF) (hi : k'.vars b = some i) : c.Has k'.who b i := by
  have keep : ∀ b i, k.vars b = some i → x ≠ .brelse k.who i → c.Has k.who b i :=
    fun b i hi hne => (h.vars k hk b i hi).next h.cache hc hne
  unfold Commit.act at hx
  unfold Commit.next at hk'
  split at hx
  case isFalse => cases hx
  next hidle =>
  cases hp : k.prog with
  | nil => rw [hp] at hk'; cases hk'
  | cons cmd =>
    rw [hp] at hx hk'
    cases cmd with
    | bread =>
      cases hx
      cases hk'
      rcases update_cases hi with ⟨e, hi⟩ | ⟨_, hi⟩
      · obtain ⟨j, hj⟩ := bread_waits h.cache hc
        unfold Cache.wanted at hi
        rw [hj] at hi
        cases hi
        rw [e]
        exact .inr hj
      · exact keep b i hi nofun
    | copy | head =>
      cases hk'
      refine keep b i hi fun ex => ?_
      unfold Cmd.act at hx
      dsimp only at hx
      split at hx
      · cases hx; cases ex
      · cases hx
    | clear =>
      cases hx
      cases hk'
      exact keep b i hi nofun
    | brelse b' =>
      cases hk'
      rcases update_cases hi with ⟨_, hi⟩ | ⟨hne, hi⟩
      · cases hi
      · refine keep b i hi fun ex => hne ?_
        unfold Cmd.act at hx
        dsimp only at hx
        split at hx
        · next j hj =>
          cases hx
          cases ex
          -- the same buffer cannot be for two blocks
          have h1 := ((h.vars k hk b _ hi).locked hidle).2
          have h2 := ((h.vars k hk b' _ hj).locked hidle).2
          exact Option.some.inj (h1.symm.trans h2)
        · cases hx

lemma SysOk.next_prog (h : SysOk L A s) (hk : s.commit = some k)
    (hk' : (k.next s c).commit = some k') : ∃ lh, k'.prog <:+ commit L lh ∧
      ∀ dst src, .copy dst src ∈ k'.prog → (k.next s c).lh = lh := by
  obtain ⟨lh, ⟨l, hl⟩, hcopy⟩ := h.prog k hk
  refine ⟨lh, ?_⟩
  unfold Commit.next at hk' ⊢
  cases hp : k.prog with
  | nil => rw [hp] at hk'; cases hk'
  | cons cmd prog =>
    rw [hp] at hk' hl hcopy
    have hsuf : prog <:+ commit L lh := ⟨l ++ [cmd], by rw [← hl, append_assoc]; rfl⟩
    cases cmd with
    | clear =>
      cases hk'
      exact ⟨hsuf, fun dst src hm => absurd hm (commit_tidy hl.symm dst src)⟩
    | _ =>
      cases hk'
      exact ⟨hsuf, fun dst src hm => hcopy dst src (mem_cons_of_mem _ hm)⟩

lemma outside_ne (h : s.outside p = true) (hk : s.commit = some k) : k.who ≠ p := by
  unfold Sys.outside at h
  rw [hk] at h
  exact of_decide_eq_true h

lemma after_next (hk : s.commit = some k) (c : Cache ι) : Label.next.after L s c = k.next s c := by
  unfold Label.after
  rw [hk]

lemma SysOk.next (h : SysOk L A s) (hst : step L s a = .ok s') : SysOk L (stored A (storeOf L s a)) s' := by
  obtain ⟨x, hx, hc, e⟩ := step_act hst
  rw [storeOf_eq hx]
  have hcache := h.cache.next hc
  -- a label that leaves `commit` alone
  have same : s'.commit = s.commit → (∀ k, s.commit = some k → s'.lh = s.lh) →
      (∀ k i, s.commit = some k → x ≠ .brelse k.who i) → s'.lh.length ≤ L.size - 1 →
      SysOk L (stored A (x.store s.cache)) s' := by
    intro he hlh hrel hroom
    refine ⟨hcache, fun k hk b i hi => ?_, fun k hk => ?_, hroom⟩
    · rw [he] at hk
      exact (h.vars k hk b i hi).next h.cache hc (hrel k i hk)
    · rw [he] at hk
      rw [hlh k hk]
      exact h.prog k hk
  cases a with
  | bread | bwrite =>
    unfold Label.act at hx
    dsimp only at hx
    split at hx
    · cases hx
      exact same (by rw [e]; rfl) (fun _ _ => by rw [e]; rfl) nofun (by rw [e]; exact h.room)
    · cases hx
  | locked | unref =>
    cases hx
    exact same (by rw [e]; rfl) (fun _ _ => by rw [e]; rfl) nofun (by rw [e]; exact h.room)
  | logWrite =>
    unfold Label.act at hx
    dsimp only at hx
    split at hx
    · cases hx
    · next hn =>
      have none : ∀ k, s.commit ≠ some k := fun k hk => hn (by rw [hk]; rfl)
      refine same (by rw [e]; rfl) (fun k hk => absurd hk (none k)) (fun k _ hk => absurd hk (none k)) ?_
      split at hx
      · cases hx
      · rw [e]
        show (logged s.lh _).length ≤ L.size - 1
        unfold logged
        split
        · exact h.room
        · rw [length_append, length_singleton]
          omega
  | brelse =>
    unfold Label.act at hx
    dsimp only at hx
    split at hx
    · next ho =>
      cases hx
      refine same (by rw [e]; rfl) (fun _ _ => by rw [e]; rfl) (fun k j hk er => ?_) (by rw [e]; exact h.room)
      cases er
      exact outside_ne ho hk rfl
    · cases hx
  | commit =>
    rw [e]
    refine ⟨hcache, fun k hk b i hi => ?_, fun k hk => ?_, h.room⟩
    · cases hk
      cases hi
    · cases hk
      exact ⟨s.lh, suffix_refl _, fun _ _ _ => rfl⟩
  | next =>
    unfold Label.act at hx
    dsimp only at hx
    split at hx
    · next k hk =>
      rw [after_next hk] at e
      refine ⟨hcache, fun k' hk' b i hi => ?_, fun k' hk' => ?_, ?_⟩
      · rw [e] at hk'
        exact h.next_vars hk hx hc hk' b i hi
      · rw [e] at hk' ⊢
        exact h.next_prog hk hk'
      · rw [e]
        unfold Commit.next
        split
        case h_3 => exact Nat.zero_le _
        all_goals exact h.room
    · cases hx

end Xv6.Bio
