import Xv6.Bio.Pointers

/-!
# What `bread` returns, and what is pinned

`flat L d tr` is the plain array of blocks: the disk `d` at the start with everything laid over it
that was stored in the run `tr`. `bread` returns its contents. `commit` stores, too: into the log,
and back into the home blocks; if no block of the log itself was logged, the second changes nothing
(`Harmless`), so that the array outside the log holds what the callers of `log_write` and `bwrite`
stored (`replay (ownStore L)`).

A buffer that `log_write` has marked stays marked, and is not recycled, until `bwrite` is called for
it: by `install_trans`, or by somebody else.
-/

set_option linter.unusedSectionVars false

namespace Xv6.Bio
open Lib Function List
open Log (Layout)

variable {ι : Type} [DecidableEq ι] [Fintype ι] {n : Nat} {c c' : Cache ι} {A d : Disk}
variable {L : Layout} {s s' : Sys ι} {a : Label ι} {tr : Trace ι}
variable {t b : Nat} {lh : List Nat} {rest prog : List Cmd} {p : ι} {i : Fin NBUF} {k : Commit ι} {x : Act ι}

/-! ## what was stored last -/

/-- the disk `d` with the stores of a run laid over it. -/
def replay (store : Sys ι → Label ι → Option (Nat × Block)) (d : Disk) (tr : Trace ι) : Disk :=
  tr.foldl (fun A e => stored A (store e.1 e.2)) d

lemma replay_concat (store : Sys ι → Label ι → Option (Nat × Block)) (d : Disk) (tr : Trace ι)
    (e : Sys ι × Label ι) :
    replay store d (tr ++ [e]) = stored (replay store d tr) (store e.1 e.2) := by
  unfold replay
  rw [foldl_append]
  rfl

def flat (L : Layout) (d : Disk) (tr : Trace ι) : Disk := replay (storeOf L) d tr

lemma SysOk.run (h : Path (step L) (Sys.init d) tr s) : SysOk L (flat L d tr) s := by
  apply h.history (fun tr s => SysOk L (flat L d tr) s) (.init d)
  intro tr u a u' _ hu hst
  show SysOk L (replay (storeOf L) d (tr ++ [(u, a)])) u'
  rw [replay_concat]
  exact hu.next hst

/-- the stores of the callers of `log_write` and `bwrite`, and those of `commit` into the log. -/
def ownStore (L : Layout) (s : Sys ι) : Label ι → Option (Nat × Block)
  | .next => (storeOf L s .next).filter fun x => L.InLog x.1
  | a => storeOf L s a

/-! ## `commit` changes nothing outside the log -/

/-- run on the array `A`, the program stores into home blocks only what they hold. -/
def Harmless (L : Layout) : List Cmd → Disk → Prop
  | [], _ => True
  | .copy dst src :: prog, A =>
    (¬ L.InLog dst → A src = A dst) ∧ Harmless L prog (update A dst (A src))
  | .head :: prog, A => ∀ x, Harmless L prog (update A L.start x)
  | _ :: prog, A => Harmless L prog A

/-- the blocks of the transaction are outside the log, and have slots from `t` on in it. -/
structure Apart (L : Layout) (t : Nat) (lh : List Nat) : Prop where
  home : ∀ b ∈ lh, ¬ L.InLog b
  room : t + lh.length ≤ L.size - 1

lemma Apart.tail (h : Apart L t (b :: lh)) : Apart L (t + 1) lh := by
  refine ⟨fun x hx => h.home x (mem_cons_of_mem _ hx), ?_⟩
  have := h.room
  rw [length_cons] at this
  omega

lemma slot_inLog (h : t < L.size - 1) : L.InLog (slot L t) := by
  unfold slot
  exact ⟨by omega, by omega⟩

lemma Apart.slot_inLog (h : Apart L t (b :: lh)) : L.InLog (slot L t) := by
  apply Bio.slot_inLog
  have := h.room
  rw [length_cons] at this
  omega

/-- once the slots hold what the home blocks hold, installing them is harmless. -/
theorem harmless_install {A : Disk} (hA : ∀ k b, lh[k]? = some b → A (slot L (t + k)) = A b)
    (hrest : Harmless L rest A) : Harmless L (installTrans L t lh ++ rest) A := by
  induction lh generalizing t with
  | nil => exact hrest
  | cons b lh ih =>
    have h0 : A (slot L t) = A b := hA 0 b rfl
    show (¬ L.InLog b → A (slot L t) = A b) ∧
      Harmless L (installTrans L (t + 1) lh ++ rest) (update A b (A (slot L t)))
    rw [h0, update_eq_self]
    refine ⟨fun _ => rfl, ih fun k x hx => ?_⟩
    rw [Nat.add_assoc, Nat.add_comm 1 k]
    exact hA (k + 1) x hx

/-- `write_log` brings the slots to what the home blocks hold. -/
theorem harmless_writeLog {A : Disk}
    (hlh : Apart L t lh)
    (hrest : ∀ B : Disk, (∀ k b, lh[k]? = some b → B (slot L (t + k)) = B b) →
      (∀ b, (∀ k < lh.length, b ≠ slot L (t + k)) → B b = A b) → Harmless L rest B) :
    Harmless L (writeLog L t lh ++ rest) A := by
  induction lh generalizing t A with
  | nil => exact hrest A (by simp) (fun b _ => rfl)
  | cons b lh ih =>
    refine ⟨fun hn => absurd hlh.slot_inLog hn, ih hlh.tail fun B hB hout => ?_⟩
    have hroom := hlh.room
    rw [length_cons] at hroom
    have hb : ∀ k < lh.length + 1, b ≠ slot L (t + k) := by
      intro k hk e
      exact hlh.home b (mem_cons_self ..) (e ▸ Bio.slot_inLog (by omega))
    have hnext : ∀ k, slot L (t + 1 + k) = slot L (t + (k + 1)) := by
      intro k
      unfold slot
      omega
    have hBslot : B (slot L t) = A b := by
      rw [hout (slot L t) fun k _ => by unfold slot; omega, update_self]
    have hBb : B b = A b := by
      rw [hout b fun k hk => by rw [hnext]; exact hb (k + 1) (by omega),
        update_of_ne (show b ≠ slot L t from hb 0 (by omega))]
    refine hrest B (fun k x hx => ?_) fun x hx => ?_
    · cases k with
      | zero =>
        cases hx
        exact hBslot.trans hBb.symm
      | succ k =>
        rw [← hnext]
        exact hB k x hx
    · rw [length_cons] at hx
      rw [hout x fun k hk => by rw [hnext]; exact hx (k + 1) (by omega),
        update_of_ne (show x ≠ slot L t from hx 0 (by omega))]

lemma start_inLog (L : Layout) : L.InLog L.start := ⟨le_refl _, by have := L.pos; omega⟩

lemma harmless_commit (hlh : Apart L 0 lh) (A : Disk) : Harmless L (commit L lh) A := by
  unfold commit
  split
  · trivial
  · rw [append_assoc, append_assoc]
    refine harmless_writeLog hlh fun B hB _ => ?_
    intro x
    refine harmless_install (fun k b hb => ?_) fun _ => trivial
    have hne : b ≠ L.start := by
      intro e
      exact hlh.home b (mem_of_getElem? hb) (e ▸ start_inLog L)
    rw [update_of_ne hne, update_of_ne (by unfold slot; omega)]
    exact hB k b hb

/-- only blocks outside the log are logged, and nobody calls `bwrite` while somebody is inside
`commit`. -/
def plain (L : Layout) (u : Sys ι) : Label ι → Bool
  | .logWrite _ i _ => ¬ L.InLog (u.cache.buf i).blockno
  | .bwrite _ _ _ => u.commit = none
  | _ => true

lemma CacheOk.data_eq (h : CacheOk A c)
    (hl : (c.buf i).lock = some p) (hk : (c.buf i).key = some b) : (c.buf i).data = A b :=
  h.coherent.read hk (if_pos (h.held i p hl))

lemma Commit.act_cons {cmd : Cmd} (hp : k.prog = cmd :: prog)
    (hx : k.act L s = .ok x) : s.cache.pc k.who = .idle ∧ cmd.act L s k = .ok x := by
  unfold Commit.act at hx
  rw [hp] at hx
  split at hx
  · next hidle => exact ⟨hidle, hx⟩
  · cases hx

lemma SysOk.copy_act (h : SysOk L A s) (hk : s.commit = some k) {dst src : Nat}
    (hp : k.prog = .copy dst src :: prog) (hx : k.act L s = .ok x) :
    ∃ i, x = .bwrite k.who i (A src) ∧ (s.cache.buf i).key = some dst := by
  obtain ⟨hidle, hx⟩ := Commit.act_cons hp hx
  dsimp only [Cmd.act] at hx
  split at hx
  · next i j hi hj =>
    have hi' := (h.vars k hk dst i hi).locked hidle
    have hj' := (h.vars k hk src j hj).locked hidle
    cases hx
    exact ⟨i, by rw [h.cache.data_eq hj'.1 hj'.2], hi'.2⟩
  · cases hx

lemma SysOk.head_act (h : SysOk L A s) (hk : s.commit = some k)
    (hp : k.prog = .head :: prog) (hx : k.act L s = .ok x) :
    ∃ i y, x = .bwrite k.who i y ∧ (s.cache.buf i).key = some L.start := by
  obtain ⟨hidle, hx⟩ := Commit.act_cons hp hx
  dsimp only [Cmd.act] at hx
  split at hx
  · next i hi =>
    cases hx
    exact ⟨i, _, rfl, ((h.vars k hk L.start i hi).locked hidle).2⟩
  · cases hx

lemma brelse_act (hp : k.prog = .brelse b :: prog) (hx : k.act L s = .ok x) : ∃ i, x = .brelse k.who i := by
  obtain ⟨-, hx⟩ := Commit.act_cons hp hx
  dsimp only [Cmd.act] at hx
  split at hx
  · next i hi => cases hx; exact ⟨i, rfl⟩
  · cases hx

lemma bwrite_store (x : Block) (hk : (c.buf i).key = some b) : (Act.bwrite p i x).store c = some (b, x) := by
  rw [← (Buf.key_eq.mp hk).2]
  rfl

structure Plain (L : Layout) (d : Disk) (tr : Trace ι) (s : Sys ι) : Prop where
  same : replay (ownStore L) d tr = flat L d tr
  home : ∀ b ∈ s.lh, ¬ L.InLog b
  prog : ∀ k, s.commit = some k → Harmless L k.prog (flat L d tr)

/-- a step of `commit` stores into the log, or stores what is there. -/
theorem Plain.next_cmd (hok : SysOk L A s) (hk : s.commit = some k)
    (hx : k.act L s = .ok x) (hH : Harmless L k.prog A) (c : Cache ι) :
    stored A ((x.store s.cache).filter fun y => L.InLog y.1) = stored A (x.store s.cache) ∧
      ∀ k', (k.next s c).commit = some k' → Harmless L k'.prog (stored A (x.store s.cache)) := by
  unfold Commit.next
  cases hp : k.prog with
  | nil =>
    have e : x = .skip := by
      unfold Commit.act at hx
      rw [hp] at hx
      split at hx <;> cases hx
      rfl
    rw [e]
    exact ⟨rfl, nofun⟩
  | cons cmd =>
    rw [hp] at hH
    cases cmd with
    | bread | clear =>
      cases (Commit.act_cons hp hx).2
      exact ⟨rfl, fun k' hk' => by cases hk'; exact hH⟩
    | copy dst src =>
      obtain ⟨i, rfl, hkey⟩ := hok.copy_act hk hp hx
      rw [bwrite_store _ hkey]
      refine ⟨?_, fun k' hk' => by cases hk'; exact hH.2⟩
      by_cases hin : L.InLog dst
      · rw [Option.filter_some, if_pos (decide_eq_true hin)]
      · rw [Option.filter_some, if_neg (by simpa using hin)]
        show A = update A dst (A src)
        rw [hH.1 hin, update_eq_self]
    | head =>
      obtain ⟨i, y, rfl, hkey⟩ := hok.head_act hk hp hx
      rw [bwrite_store _ hkey]
      refine ⟨?_, fun k' hk' => by cases hk'; exact hH y⟩
      rw [Option.filter_some, if_pos (decide_eq_true (start_inLog L))]
    | brelse =>
      obtain ⟨i, rfl⟩ := brelse_act hp hx
      exact ⟨rfl, fun k' hk' => by cases hk'; exact hH⟩

lemma Plain.next (h : Plain L d tr s) (hok : SysOk L (flat L d tr) s) (hpl : plain L s a = true)
    (hst : step L s a = .ok s') : Plain L d (tr ++ [(s, a)]) s' := by
  obtain ⟨x, hx, hc, e⟩ := step_act hst
  have hflat : flat L d (tr ++ [(s, a)]) = stored (flat L d tr) (x.store s.cache) := by
    show replay (storeOf L) d (tr ++ [(s, a)]) = _
    rw [replay_concat, storeOf_eq hx]
    rfl
  -- a label of a caller
  have caller : ownStore L s a = storeOf L s a → s'.commit = s.commit →
      (∀ k, s.commit = some k → x.store s.cache = none) → (∀ b ∈ s'.lh, ¬ L.InLog b) →
      Plain L d (tr ++ [(s, a)]) s' := by
    intro hown hcom hno hhome
    refine ⟨?_, hhome, fun k hk => ?_⟩
    · rw [replay_concat, h.same, hown, storeOf_eq hx, hflat]
    · rw [hcom] at hk
      rw [hflat, hno k hk]
      exact h.prog k hk
  cases a with
  | bread | brelse =>
    dsimp only [Label.act] at hx
    split at hx
    · cases hx
      exact caller rfl (by rw [e]; rfl) (fun _ _ => rfl) (by rw [e]; exact h.home)
    · cases hx
  | locked | unref =>
    cases hx
    exact caller rfl (by rw [e]; rfl) (fun _ _ => rfl) (by rw [e]; exact h.home)
  | logWrite =>
    dsimp only [Label.act] at hx
    split at hx
    · cases hx
    · next hn =>
      have none : ∀ k, s.commit ≠ some k := fun k hk => hn (by rw [hk]; rfl)
      apply caller rfl (by rw [e]; rfl) (fun k hk => absurd hk (none k))
      rw [e]
      show ∀ b ∈ logged s.lh _, ¬ L.InLog b
      unfold logged
      split
      · exact h.home
      · intro b hb
        rcases mem_append.mp hb with hb | hb
        · exact h.home b hb
        · rw [mem_singleton.mp hb]
          exact of_decide_eq_true hpl
  | bwrite =>
    have none : s.commit = none := of_decide_eq_true hpl
    refine caller rfl (by rw [e]; rfl) (fun k hk => ?_) (by rw [e]; exact h.home)
    rw [none] at hk
    cases hk
  | commit p =>
    have hown : ownStore L s (.commit p) = x.store s.cache := storeOf_eq hx
    dsimp only [Label.act] at hx
    split at hx
    · cases hx
      rw [e]
      refine ⟨?_, h.home, fun k hk => ?_⟩
      · rw [replay_concat, h.same, hflat]
        exact congrArg (stored _) hown
      · cases hk
        exact harmless_commit ⟨h.home, by rw [Nat.zero_add]; exact hok.room⟩ _
    · cases hx
  | next =>
    dsimp only [Label.act] at hx
    split at hx
    · next k hk =>
      rw [after_next hk] at e
      obtain ⟨h1, h2⟩ := Plain.next_cmd hok hk hx (h.prog k hk) s'.cache
      refine ⟨?_, ?_, fun k' hk' => ?_⟩
      · rw [replay_concat, h.same, hflat, ← h1]
        show stored _ ((storeOf L s .next).filter _) = _
        rw [storeOf_eq (show Label.next.act L s = .ok x by unfold Label.act; rw [hk]; exact hx)]
      · rw [e]
        unfold Commit.next
        split
        case h_3 => exact fun b hb => absurd hb not_mem_nil
        all_goals exact h.home
      · rw [hflat]
        rw [e] at hk'
        exact h2 k' hk'
    · cases hx

/-! ## a marked buffer -/

/-- the buffer that a label takes away from its block. -/
def recycles (L : Layout) (s : Sys ι) (a : Label ι) : Option (Fin NBUF) :=
  match a.act L s with
  | .ok (.bread _ b) => if (s.cache.cached ROOTDEV b).isSome then none else s.cache.unused
  | _ => none

/-- the buffer that a label passes to `bwrite`. -/
def writes (L : Layout) (s : Sys ι) (a : Label ι) : Option (Fin NBUF) :=
  match a.act L s with
  | .ok (.bwrite _ i _) => some i
  | _ => none

lemma recycles_clean (h : recycles L s a = some i) : (s.cache.buf i).dirty = false := by
  unfold recycles at h
  split at h
  · split at h
    · cases h
    · have hu : s.cache.order.reverse.find? s.cache.isUnused = some i := h
      have hi : s.cache.isUnused i = true := find?_some hu
      exact (of_decide_eq_true hi).2
  · cases h

lemma Did.marked (h : Did n c x c') (hi : (c.buf i).dirty = true)
    (hx : ∀ p y, x ≠ .bwrite p i y) :
    (c'.buf i).dirty = true ∧ (c'.buf i).blockno = (c.buf i).blockno := by
  have other : ∀ {j : Fin NBUF} {b : Buf ι}, c'.buf = update c.buf j b →
      (i = j → b.dirty = true ∧ b.blockno = (c.buf i).blockno) →
      (c'.buf i).dirty = true ∧ (c'.buf i).blockno = (c.buf i).blockno := by
    intro j b hb hj
    by_cases e : i = j
    · rw [hb, e, update_self, ← e]
      exact hj e
    · rw [hb, update_of_ne e]
      exact ⟨hi, rfl⟩
  cases h with
  | hit | found | fetch | brelse | unref =>
    exact other rfl fun e => by rw [← e]; exact ⟨hi, rfl⟩
  | @recycle q y j hp hno hj =>
    refine other rfl fun e => ?_
    rw [e, (of_decide_eq_true hj).2] at hi
    cases hi
  | mark => exact other rfl fun e => by rw [← e]; exact ⟨rfl, rfl⟩
  | @bwrite q j y => exact other rfl fun e => absurd (by rw [e]) (hx q y)
  | skip => exact ⟨hi, rfl⟩

/-- the next step of `commit` installs the block `b` from its slot. -/
def Installs (L : Layout) (s : Sys ι) (b : Nat) : Prop :=
  ∃ k tail prog, s.commit = some k ∧ k.prog = .copy b (slot L tail) :: prog ∧ s.lh[tail]? = some b

lemma SysOk.commit_writer (h : SysOk L A s) (hk : s.commit = some k)
    {q : ι} {y : Block} (hx : k.act L s = .ok (.bwrite q i y)) :
    Installs L s (s.cache.buf i).blockno ∨ L.InLog (s.cache.buf i).blockno := by
  cases hp : k.prog with
  | nil =>
    unfold Commit.act at hx
    rw [hp] at hx
    split at hx <;> cases hx
  | cons cmd prog =>
    cases cmd with
    | bread | clear => cases (Commit.act_cons hp hx).2
    | brelse =>
      obtain ⟨j, e⟩ := brelse_act hp hx
      cases e
    | head =>
      obtain ⟨j, z, e, hkey⟩ := h.head_act hk hp hx
      cases e
      rw [(Buf.key_eq.mp hkey).2]
      exact .inr (start_inLog L)
    | copy dst src =>
      obtain ⟨j, e, hkey⟩ := h.copy_act hk hp hx
      cases e
      rw [(Buf.key_eq.mp hkey).2]
      -- what is left is the end of `commit`, so the copy is one of its copies
      obtain ⟨lh, hsuf, hlh⟩ := h.prog k hk
      have hmem : Cmd.copy dst src ∈ k.prog := by rw [hp]; exact mem_cons_self ..
      have hroom := h.room
      rw [hlh dst src hmem] at hroom
      obtain ⟨t, ⟨ht, e⟩ | ⟨ht, e⟩⟩ := copy_mem_commit (hsuf.subset hmem)
      · right
        rw [e]
        exact Bio.slot_inLog (Nat.lt_of_lt_of_le (List.getElem?_eq_some_iff.mp ht).1 hroom)
      · left
        rw [e] at hp
        exact ⟨k, t, prog, hk, hp, by rw [hlh dst src hmem]; exact ht⟩

/-- who writes a buffer of the block `b` is a caller of `bwrite`, or `install_trans`; or the block
belongs to the log. -/
theorem SysOk.writer (h : SysOk L A s) (hw : writes L s a = some i) : (∃ p y, a = .bwrite p i y) ∨
      (a = .next ∧ (Installs L s (s.cache.buf i).blockno ∨ L.InLog (s.cache.buf i).blockno)) := by
  unfold writes at hw
  split at hw
  case h_2 => cases hw
  next q j y hx =>
  cases hw
  cases a with
  | bwrite =>
    dsimp only [Label.act] at hx
    split at hx
    · cases hx; exact .inl ⟨q, y, rfl⟩
    · cases hx
  | next =>
    dsimp only [Label.act] at hx
    split at hx
    · next k hk => exact .inr ⟨rfl, h.commit_writer hk hx⟩
    · cases hx
  | logWrite =>
    dsimp only [Label.act] at hx
    split at hx
    · cases hx
    · split at hx <;> cases hx
  | locked => cases hx
  | unref => cases hx
  | _ =>
    dsimp only [Label.act] at hx
    split at hx <;> cases hx

/-! ## the cache as an array of blocks -/

/-- what the callers of the cache see after a run `tr` to `s` from the disk `d`. -/
structure CacheRefines (L : Layout) (d : Disk) (tr : Trace ι) (s : Sys ι) : Prop where
  /-- `bread(b)` finds a buffer if the block is cached or some buffer is free. -/
  gets : ∀ {p b i}, s.outside p = true → s.cache.pc p = .idle →
    s.cache.hasBlock ROOTDEV b i = true ∨ s.cache.isUnused i = true →
    ∃ j s', step L s (.bread p b) = .ok s' ∧ s'.cache.pc p = .waiting b j
  /-- it returns as soon as nobody else holds the buffer. -/
  returns : ∀ {p b i}, s.cache.pc p = .waiting b i → (s.cache.buf i).lock = none →
    b < L.disksize → ∃ s', step L s (.locked p) = .ok s'
  /-- it returns what was stored last for the block. -/
  bread : ∀ {p b i s'}, s.cache.pc p = .waiting b i → step L s (.locked p) = .ok s' →
    (s'.cache.buf i).lock = some p ∧ (s'.cache.buf i).dev = ROOTDEV ∧
      (s'.cache.buf i).blockno = b ∧ (s'.cache.buf i).data = flat L d tr b
  /-- outside the log, that is what the callers of `log_write` and `bwrite` stored. -/
  own : (∀ e ∈ tr, plain L e.1 e.2 = true) → replay (ownStore L) d tr = flat L d tr
  /-- at most one buffer in use or valid is for a block. -/
  one : ∀ i j, 0 < (s.cache.buf i).refcnt ∨ (s.cache.buf i).valid = true →
    0 < (s.cache.buf j).refcnt ∨ (s.cache.buf j).valid = true →
    (s.cache.buf i).dev = (s.cache.buf j).dev → (s.cache.buf i).blockno = (s.cache.buf j).blockno →
    i = j
  /-- a buffer marked by `log_write` is recycled only after its own block was installed or written. -/
  pinned : ∀ {pre mid post : Trace ι} {u v : Sys ι} {p : ι} {i : Fin NBUF}
    {x : Block} {a : Label ι}, tr = pre ++ (u, .logWrite p i x) :: mid ++ (v, a) :: post →
    recycles L v a = some i → ∃ e ∈ mid, (∃ q y, e.2 = .bwrite q i y) ∨
      (e.2 = .next ∧ (Installs L e.1 (u.cache.buf i).blockno ∨ L.InLog (u.cache.buf i).blockno))

lemma CacheOk.bget_ok (h : CacheOk A c) (p : ι)
    (hi : c.hasBlock ROOTDEV b i = true ∨ c.isUnused i = true) :
    ∃ c', bget c p ROOTDEV b = .ok c' := by
  unfold bget
  split
  · exact ⟨_, rfl⟩
  · next hno =>
    split
    · exact ⟨_, rfl⟩
    · next hnone =>
      rcases hi with hi | hi
      · exact absurd hi (find?_eq_none.mp hno i (h.order i))
      · exact absurd hi (find?_eq_none.mp hnone i (mem_reverse.mpr (h.order i)))

lemma CacheOk.locked_ok (h : CacheOk A c) (hp : c.pc p = .waiting b i)
    (hl : (c.buf i).lock = none) (hb : b < n) : ∃ c', locked n c p i = .ok c' := by
  obtain ⟨hdev, hblk⟩ := Buf.key_eq.mp (h.wait p b i hp)
  unfold locked
  rw [if_pos hl]
  split
  · exact ⟨_, rfl⟩
  · next hv =>
    have hd : (c.buf i).dirty = false := Bool.eq_false_iff.mpr fun e => hv (h.dirty_valid i e)
    unfold iderw
    simp only [Cache.goto_buf, Cache.set_buf_self]
    rw [if_neg (by simp), if_neg (fun e => hv e.1), if_neg (by rw [hdev]; decide), if_neg (by omega), hd]
    exact ⟨_, rfl⟩

lemma Did.mark_marks {x : Block} (h : Did n c (.mark p i x) c') :
    (c'.buf i).dirty = true ∧ (c'.buf i).blockno = (c.buf i).blockno := by
  cases h with
  | mark => rw [Cache.set_buf_self]; exact ⟨rfl, rfl⟩

lemma Did.locked_idle (h : Did n c (.locked p) c') : c'.pc p = .idle := by
  cases h with
  | found | fetch => exact update_self ..

lemma marked_kept (h : SysOk L A s) (hi : (s.cache.buf i).dirty = true)
    (hw : writes L s a ≠ some i) (hst : step L s a = .ok s') :
    (s'.cache.buf i).dirty = true ∧ (s'.cache.buf i).blockno = (s.cache.buf i).blockno := by
  obtain ⟨x, hx, hc, -⟩ := step_act hst
  refine (act_did h.cache.dirty_valid hc).marked hi fun p y e => hw ?_
  unfold writes
  rw [hx, e]

lemma logWrite_marks {x : Block} (h : SysOk L A s) (hst : step L s (.logWrite p i x) = .ok s') :
    (s'.cache.buf i).dirty = true ∧ (s'.cache.buf i).blockno = (s.cache.buf i).blockno := by
  obtain ⟨y, hy, hc, -⟩ := step_act hst
  dsimp only [Label.act] at hy
  split at hy
  · cases hy
  split at hy
  · cases hy
  · cases hy
    exact (act_did h.cache.dirty_valid hc).mark_marks

lemma SysOk.bread (h : SysOk L A s)
    (hp : s.cache.pc p = .waiting b i) (hst : step L s (.locked p) = .ok s') :
    (s'.cache.buf i).lock = some p ∧ (s'.cache.buf i).dev = ROOTDEV ∧
      (s'.cache.buf i).blockno = b ∧ (s'.cache.buf i).data = A b := by
  obtain ⟨x, hx, hc, -⟩ := step_act hst
  have hok : CacheOk (stored A (x.store s.cache)) s'.cache := h.cache.next hc
  cases hx
  have hhas : s.cache.Has p b i := .inr hp
  have hidle := (act_did h.cache.dirty_valid hc).locked_idle
  obtain ⟨hl, hk⟩ := (hhas.next h.cache hc nofun).locked hidle
  exact ⟨hl, (Buf.key_eq.mp hk).1, (Buf.key_eq.mp hk).2, hok.data_eq hl hk⟩

lemma Plain.run (h : Path (step L) (Sys.init d) tr s) (hpl : ∀ e ∈ tr, plain L e.1 e.2 = true) : Plain L d tr s := by
  refine h.history (fun tr s => (∀ e ∈ tr, plain L e.1 e.2 = true) → Plain L d tr s) ?_ ?_ hpl
  · exact fun _ => ⟨rfl, nofun, nofun⟩
  · intro tr u a u' hr ih hst hall
    refine (ih fun e he => hall e (mem_append_left _ he)).next (SysOk.run hr) ?_ hst
    exact hall (u, a) (mem_append_right _ (mem_singleton_self _))

lemma CacheOk.one (h : CacheOk A c) {i j : Fin NBUF}
    (hi : 0 < (c.buf i).refcnt ∨ (c.buf i).valid = true)
    (hj : 0 < (c.buf j).refcnt ∨ (c.buf j).valid = true)
    (hblk : (c.buf i).blockno = (c.buf j).blockno) : i = j := by
  have root : ∀ {i : Fin NBUF}, 0 < (c.buf i).refcnt ∨ (c.buf i).valid = true → (c.buf i).dev = ROOTDEV := by
    intro i hi
    rcases hi with hi | hi
    · exact h.used i hi
    · obtain ⟨k, hk, -⟩ := h.coherent.keyed i (c.buf i).data (if_pos hi)
      exact (Buf.key_eq.mp hk).1
  exact h.coherent.unique i j (c.buf j).blockno (Buf.key_eq.mpr ⟨root hi, hblk⟩) (Buf.key_eq.mpr ⟨root hj, rfl⟩)

/-- **The buffer cache is a plain array of blocks**, for any number of processes and any
interleaving; and what `log_write` marks is pinned until it is written. -/
theorem cache_refines (h : Path (step L) (Sys.init d) tr s) : CacheRefines L d tr s := by
  have hok := SysOk.run h
  refine ⟨?_, ?_, fun hp hst => hok.bread hp hst, fun hpl => ?_, ?_, ?_⟩
  · intro p b i ho hp hi
    obtain ⟨c, hc⟩ := hok.cache.bget_ok p hi
    have hact : s.cache.act L.disksize (.bread p b) = .ok c := by
      dsimp only [Cache.act]
      rw [if_pos hp, hc]
    have hst : step L s (.bread p b) = .ok ⟨c, s.lh, s.commit⟩ := by
      dsimp only [step, Label.act]
      rw [if_pos ho]
      dsimp only
      rw [hact]
      rfl
    obtain ⟨j, hj⟩ := bread_waits hok.cache hact
    exact ⟨j, _, hst, hj⟩
  · intro p b i hp hl hb
    obtain ⟨c, hc⟩ := hok.cache.locked_ok hp hl hb
    refine ⟨⟨c, s.lh, s.commit⟩, ?_⟩
    dsimp only [step, Label.act, Cache.act]
    rw [hp]
    dsimp only
    rw [hc]
    rfl
  · exact (Plain.run h hpl).same
  · intro i j hi hj _ hblk
    exact hok.cache.one hi hj hblk
  · rintro pre mid post u v p i x a rfl hrec
    let I : Sys ι → Prop := fun s => (∃ A, SysOk L A s) ∧ (s.cache.buf i).dirty = true ∧
      (s.cache.buf i).blockno = (u.cache.buf i).blockno
    let f : Sys ι → Label ι → Option Unit := fun s a =>
      if writes L s a = some i ∧ (s.cache.buf i).blockno = (u.cache.buf i).blockno then some ()
      else none
    obtain ⟨e, he, hf⟩ : ∃ e ∈ mid, f e.1 e.2 = some () := by
      refine h.served_between I (fun _ _ => True) ?_ ?_ (fun _ _ => trivial) ?_
      · intro hpre t ht
        have hu := SysOk.run hpre
        exact ⟨⟨_, hu.next ht⟩, logWrite_marks hu ht⟩
      · rintro s a s' ⟨⟨A, hs⟩, hd, hb⟩ - hf hst
        have hw : writes L s a ≠ some i := fun hw => hf (if_pos ⟨hw, hb⟩)
        obtain ⟨hd', hb'⟩ := marked_kept hs hd hw hst
        exact ⟨⟨_, hs.next hst⟩, hd', hb'.trans hb⟩
      · rintro ⟨-, hd, -⟩
        rw [recycles_clean hrec] at hd
        cases hd
    have hf' : writes L e.1 e.2 = some i ∧ (e.1.cache.buf i).blockno = (u.cache.buf i).blockno := by
      by_contra hn
      rw [show f e.1 e.2 = none from if_neg hn] at hf
      cases hf
    obtain ⟨pre', w, hpre', -⟩ := h.reached (e := e) (mem_append_left _ (mem_append_right _ (mem_cons_of_mem _ he)))
    refine ⟨e, he, ?_⟩
    rw [← hf'.2]
    exact (SysOk.run hpre').writer hf'.1

/-- the first buffer. -/
def buf0 : Fin NBUF := ⟨0, by decide⟩

/-- `bread(b)` by the only process there is. -/
def readBlock (b : Nat) : List (Label Unit) := [.bread () b, .locked ()]

/-- the steps of `commit` for one block: every `bread` gets its lock, every `brelse` is finished. -/
def commitOne : List (Label Unit) :=
  let copy : List (Label Unit) := [.next, .locked (), .next, .locked (), .next, .next, .unref (), .next, .unref ()]
  let head : List (Label Unit) := [.next, .locked (), .next, .next, .unref ()]
  .commit () :: copy ++ head ++ copy ++ [.next] ++ head ++ [.next]

/-- a block is logged and committed. -/
theorem cache_refines_committed : ∃ (tr : Trace Unit) (s : Sys Unit),
    Path (step Log.mkfsLayout) (Sys.init fun _ _ => 0) tr s ∧ s.lh = [] ∧
      s.cache.disk 100 0 = 7 ∧ CacheRefines Log.mkfsLayout (fun _ _ => 0) tr s := by
  obtain ⟨tr, s, h, hs⟩ : ∃ tr s, Path (step Log.mkfsLayout) (Sys.init fun _ _ => 0 : Sys Unit) tr s ∧
      s.lh = [] ∧ s.cache.disk 100 0 = 7 := Path.of_labels
    (readBlock 100 ++ [.logWrite () buf0 fun _ => 7, .brelse () buf0, .unref ()] ++ commitOne)
    (by decide +kernel)
  exact ⟨tr, s, h, hs.1, hs.2, cache_refines h⟩

/-- a logged block is written with `bwrite`, and then its buffer is recycled: no commit has run. -/
theorem bwrite_unpins : ∃ (tr0 tr : Trace Unit) (u v s : Sys Unit) (x : Block),
    Path (step Log.mkfsLayout) (Sys.init fun _ _ => 0) tr0 u ∧
      step Log.mkfsLayout u (.logWrite () buf0 x) = .ok v ∧ Path (step Log.mkfsLayout) v tr s ∧
      (∀ e ∈ tr, e.1.commit.isNone = true) ∧ (u.cache.buf buf0).blockno ∈ s.lh ∧
      recycles Log.mkfsLayout s (.bread () 300) = some buf0 := by
  have run : runsTo (step Log.mkfsLayout) (Sys.init fun _ _ => 0 : Sys Unit) (readBlock 100)
      (fun _ u => stepTo (step Log.mkfsLayout) u (.logWrite () buf0 fun _ => 7) (fun v =>
        runsTo (step Log.mkfsLayout) v
          ([.bwrite () buf0 fun _ => 8, .brelse () buf0, .unref ()] ++
            (range 29).flatMap fun k => readBlock (200 + k))
          (fun tr s => (tr.all fun e => e.1.commit.isNone) &&
            (decide ((u.cache.buf buf0).blockno ∈ s.lh) &&
              decide (recycles Log.mkfsLayout s (.bread () 300) = some buf0))))) = true := by
    decide +kernel
  obtain ⟨tr0, u, h0, hu⟩ := Path.of_runsTo run
  obtain ⟨v, hv, hr⟩ := of_stepTo hu
  obtain ⟨tr, s, h, hs⟩ := Path.of_runsTo hr
  simp only [Bool.and_eq_true, all_eq_true, decide_eq_true_eq] at hs
  exact ⟨tr0, tr, u, v, s, _, h0, hv, h, hs.1, hs.2.1, hs.2.2⟩

end Xv6.Bio
