import Xv6.Bio.Cache

/-!
# The cache is a plain array of blocks

`Cache.lines` reads the cache as a write-back cache in the sense of `Lib.WriteBack`: a line for each
buffer, keyed by its block number, with a value if it is `B_VALID`. `CacheOk A c` ties it to the
array `A` of what was stored last, and says who refers to which buffer:

    refcnt = those in `acquiresleep` or on the way out of `brelse` + the holder of the lock.

Every action keeps it (`CacheOk.next`), where `A` changes exactly by the data that `mark` and
`bwrite` store.
-/

set_option linter.unusedSectionVars false

namespace Xv6.Bio
open Lib Function List

variable {ι : Type} [DecidableEq ι] {n : Nat} {c c' : Cache ι} {a : Act ι} {A : Disk}
variable {b : Buf ι} {x : Nat} {i j : Fin NBUF}

/-! ## the cache as lines -/

def Buf.key (b : Buf ι) : Option Nat := if b.dev = ROOTDEV then some b.blockno else none

def Buf.val (b : Buf ι) : Option Block := if b.valid then some b.data else none

def Cache.lines (c : Cache ι) : Lines (Fin NBUF) Nat Block where
  key i := (c.buf i).key
  val i := (c.buf i).val
  dirty i := (c.buf i).dirty
  back := c.disk

lemma Buf.key_eq : b.key = some x ↔ b.dev = ROOTDEV ∧ b.blockno = x := by
  unfold key
  split
  · next h => simp [h]
  · next h => simp [h]

lemma Cache.hasBlock_iff : c.hasBlock ROOTDEV x i = true ↔ (c.buf i).key = some x := by
  rw [Buf.key_eq]
  exact decide_eq_true_iff

lemma update_apply_field {β : Type} (f : Buf ι → β) (c : Cache ι) (i : Fin NBUF) (b : Buf ι) :
    (fun j => f (update c.buf i b j)) = update (fun j => f (c.buf j)) i (f b) := by
  funext j
  rw [update_apply, update_apply]
  split <;> rfl

lemma Cache.lines_set (c : Cache ι) (i : Fin NBUF) (b : Buf ι) : (c.set i b).lines =
    { key := update c.lines.key i b.key, val := update c.lines.val i b.val,
      dirty := update c.lines.dirty i b.dirty, back := c.disk } := by
  show Lines.mk (fun j => (update c.buf i b j).key) (fun j => (update c.buf i b j).val)
    (fun j => (update c.buf i b j).dirty) c.disk = _
  rw [update_apply_field, update_apply_field, update_apply_field]
  rfl

lemma Cache.lines_set_same (c : Cache ι) (i : Fin NBUF) (hk : b.key = (c.buf i).key)
    (hv : b.val = (c.buf i).val) (hd : b.dirty = (c.buf i).dirty) : (c.set i b).lines = c.lines := by
  rw [Cache.lines_set, hk, hv, hd]
  show Lines.mk (update c.lines.key i (c.lines.key i))
    (update c.lines.val i (c.lines.val i))
    (update c.lines.dirty i (c.lines.dirty i)) c.disk = _
  rw [update_eq_self, update_eq_self, update_eq_self]
  rfl

/-! ## who refers to a buffer -/

def BufPc.refs (i : Fin NBUF) : BufPc → Int
  | .idle => 0
  | .waiting _ j => if j = i then 1 else 0
  | .leaving j => if j = i then 1 else 0

lemma BufPc.refs_waiting (x : Nat) (i : Fin NBUF) : (BufPc.waiting x i).refs i = 1 := if_pos rfl

lemma BufPc.refs_leaving (i : Fin NBUF) : (BufPc.leaving i).refs i = 1 := if_pos rfl

lemma BufPc.refs_waiting_ne (x : Nat) (h : j ≠ i) : (BufPc.waiting x i).refs j = 0 := if_neg h.symm

lemma BufPc.refs_leaving_ne (h : j ≠ i) : (BufPc.leaving i).refs j = 0 :=
  if_neg h.symm

lemma BufPc.refs_nonneg (i : Fin NBUF) (pc : BufPc) : 0 ≤ pc.refs i := by
  cases pc with
  | idle => exact le_refl 0
  | waiting | leaving => unfold refs; dsimp only; split <;> omega

def Buf.holders (b : Buf ι) : Int := if b.lock.isSome then 1 else 0

variable [Fintype ι]
variable {b : Buf ι} {p : ι} {i : Fin NBUF}

structure CacheOk (A : Disk) (c : Cache ι) : Prop where
  coherent : Coherent A c.lines
  refs : ∀ i, ((c.buf i).refcnt : Int) = total (BufPc.refs i) c.pc + (c.buf i).holders
  wait : ∀ p x i, c.pc p = .waiting x i → (c.buf i).key = some x
  /-- who holds a buffer has read it. -/
  held : ∀ i p, (c.buf i).lock = some p → (c.buf i).valid = true
  order : ∀ i, i ∈ c.order
  used : ∀ i, 0 < (c.buf i).refcnt → (c.buf i).dev = ROOTDEV

lemma CacheOk.binit (disk : Disk) : CacheOk disk (Cache.binit disk : Cache ι) := by
  have hco : Coherent disk (Cache.binit disk : Cache ι).lines :=
    ⟨nofun, nofun, nofun, fun _ => .inl rfl⟩
  refine ⟨hco, fun i => ?_, nofun, nofun, fun i => ?_, nofun⟩
  · have h0 : total (BufPc.refs i) (fun _ : ι => BufPc.idle) = 0 := Finset.sum_eq_zero fun _ _ => rfl
    show (0 : Int) = total (BufPc.refs i) (fun _ : ι => BufPc.idle) + 0
    omega
  · exact mem_reverse.mpr (mem_finRange i)

lemma CacheOk.dirty_valid (h : CacheOk A c) (i : Fin NBUF) (hd : (c.buf i).dirty = true) :
    (c.buf i).valid = true := by
  obtain ⟨v, hv⟩ := h.coherent.valued i hd
  by_contra hn
  have : (c.buf i).val = none := if_neg hn
  rw [show (c.buf i).val = some v from hv] at this
  cases this

lemma Buf.holders_nonneg (b : Buf ι) : 0 ≤ b.holders := by
  unfold holders
  split <;> omega

lemma Buf.holders_some (h : b.lock = some p) : b.holders = 1 := by
  unfold holders
  rw [h]
  rfl

lemma Buf.holders_none (h : b.lock = none) : b.holders = 0 := by
  unfold holders
  rw [h]
  rfl

lemma CacheOk.free (h : CacheOk A c) (h0 : (c.buf i).refcnt = 0) :
    (∀ q, (c.pc q).refs i = 0) ∧ (c.buf i).holders = 0 := by
  have hr := h.refs i
  have ht : 0 ≤ total (BufPc.refs i) c.pc := Finset.sum_nonneg fun p _ => BufPc.refs_nonneg i _
  have hh := (c.buf i).holders_nonneg
  exact ⟨(total_eq_zero (BufPc.refs_nonneg i)).mp (by omega), by omega⟩

lemma CacheOk.refcnt_pos (h : CacheOk A c) (hp : (c.pc p).refs i = 1) : 0 < (c.buf i).refcnt := by
  by_contra hn
  have := (h.free (Nat.eq_zero_of_not_pos hn)).1 p
  omega

lemma CacheOk.held_key (h : CacheOk A c) (hl : (c.buf i).lock = some p) : (c.buf i).key = some (c.buf i).blockno := by
  have hv : (c.buf i).val = some (c.buf i).data := if_pos (h.held i p hl)
  obtain ⟨k, hk, -⟩ := h.coherent.keyed i _ hv
  exact Buf.key_eq.mpr ⟨(Buf.key_eq.mp hk).1, rfl⟩

/-- the buffer `i` becomes `b`, and `p` goes on to `x`. -/
structure Changes (c c' : Cache ι) (i : Fin NBUF) (b : Buf ι) (p : ι) (x : BufPc) : Prop where
  buf : c'.buf = update c.buf i b
  pc : c'.pc = update c.pc p x
  order : ∀ j ∈ c.order, j ∈ c'.order

lemma CacheOk.change {A' : Disk} {x : BufPc} (h : CacheOk A c)
    (hch : Changes c c' i b p x) (hco : Coherent A' c'.lines)
    (href : (b.refcnt : Int) - b.holders + (c.pc p).refs i = (c.buf i).refcnt - (c.buf i).holders + x.refs i)
    (hoth : ∀ j ≠ i, x.refs j = (c.pc p).refs j)
    (hkey : b.key = (c.buf i).key ∨ (c.buf i).refcnt = 0)
    (hx : ∀ y j, x = .waiting y j → j = i ∧ b.key = some y)
    (hheld : ∀ q, b.lock = some q → b.valid = true)
    (hused : 0 < b.refcnt → b.dev = ROOTDEV) : CacheOk A' c' := by
  have self : c'.buf i = b := by rw [hch.buf, update_self]
  have other : ∀ j ≠ i, c'.buf j = c.buf j := by
    intro j e
    rw [hch.buf, update_of_ne e]
  refine ⟨hco, fun j => ?_, fun q y j hq => ?_, fun j q hq => ?_, fun j => hch.order j (h.order j), fun j hj => ?_⟩
  · rw [hch.pc, total_update]
    have hr := h.refs j
    by_cases e : j = i
    · rw [e] at hr ⊢
      rw [self]
      omega
    · rw [other j e, hr, hoth j e]
      omega
  · rw [hch.pc] at hq
    rcases update_cases hq with ⟨_, hq⟩ | ⟨_, hq⟩
    · obtain ⟨rfl, hk⟩ := hx y j hq
      rw [self, hk]
    · by_cases e : j = i
      · rw [e] at hq ⊢
        rw [self]
        rcases hkey with hk | h0
        · rw [hk, h.wait q y i hq]
        · have := (h.free h0).1 q
          rw [hq, BufPc.refs_waiting] at this
          cases this
      · rw [other j e]
        exact h.wait q y j hq
  · by_cases e : j = i
    · rw [e, self] at hq ⊢
      exact hheld q hq
    · rw [other j e] at hq ⊢
      exact h.held j q hq
  · by_cases e : j = i
    · rw [e, self] at hj ⊢
      exact hused hj
    · rw [other j e] at hj ⊢
      exact h.used j hj

/-! ## the step -/

/-- what an action stores: a block number and the new contents. -/
def Act.store (c : Cache ι) : Act ι → Option (Nat × Block)
  | .mark _ i x => some ((c.buf i).blockno, x)
  | .bwrite _ i x => some ((c.buf i).blockno, x)
  | _ => none

def stored (A : Disk) : Option (Nat × Block) → Disk
  | some (b, x) => update A b x
  | none => A

lemma lines_recycle (c : Cache ι) (i : Fin NBUF) (b : Nat) :
    (c.set i { c.buf i with dev := ROOTDEV, blockno := b, valid := false, dirty := false,
                            refcnt := 1 }).lines = c.lines.assign i b := by
  rw [c.lines_set]
  rfl

lemma lines_fetch (c : Cache ι) (i : Fin NBUF) (p : ι) :
    (c.set i { c.buf i with lock := some p, data := c.disk (c.buf i).blockno,
                            valid := true }).lines = c.lines.fill i (c.buf i).blockno := by
  rw [c.lines_set]
  show Lines.mk (update c.lines.key i (c.lines.key i))
    (update c.lines.val i (some (c.disk (c.buf i).blockno)))
    (update c.lines.dirty i (c.lines.dirty i)) c.disk = _
  rw [update_eq_self, update_eq_self]
  rfl

lemma lines_mark (c : Cache ι) (x : Block) (hv : (c.buf i).valid = true) :
    (c.set i { c.buf i with data := x, dirty := true }).lines = c.lines.put i x := by
  have hval : Buf.val { c.buf i with data := x, dirty := true } = some x := if_pos hv
  rw [c.lines_set, hval]
  show Lines.mk (update c.lines.key i (c.lines.key i))
    (update c.lines.val i (some x)) (update c.lines.dirty i true) c.disk = _
  rw [update_eq_self]
  rfl

lemma lines_bwrite (c : Cache ι) (i : Fin NBUF) (x : Block) :
    ({ c.set i { c.buf i with data := x, dirty := false, valid := true } with
       disk := update c.disk (c.buf i).blockno x } : Cache ι).lines =
      (c.lines.put i x).flush i (c.buf i).blockno x := by
  show { (c.set i { c.buf i with data := x, dirty := false, valid := true }).lines with
    back := update c.disk (c.buf i).blockno x } = _
  rw [c.lines_set]
  show Lines.mk (update c.lines.key i (c.lines.key i))
      (update c.lines.val i (some x)) (update c.lines.dirty i false)
      (update c.disk (c.buf i).blockno x) =
    Lines.mk c.lines.key (update c.lines.val i (some x))
      (update (update c.lines.dirty i true) i false)
      (update c.disk (c.buf i).blockno x)
  rw [update_eq_self, update_idem]

lemma CacheOk.next (h : CacheOk A c) (hst : c.act n a = .ok c') : CacheOk (stored A (a.store c)) c' := by
  have hch : ∀ (i : Fin NBUF) (b : Buf ι) (p : ι) (x : BufPc),
      Changes c ((c.set i b).goto p x) i b p x := fun i b p x => ⟨rfl, rfl, fun _ => id⟩
  -- a change that the lines do not show
  have same : ∀ (i : Fin NBUF) (b : Buf ι), b.key = (c.buf i).key → b.val = (c.buf i).val →
      b.dirty = (c.buf i).dirty → Coherent A (c.set i b).lines := by
    intro i b hk hv hd
    rw [c.lines_set_same i hk hv hd]
    exact h.coherent
  cases act_did h.dirty_valid hst with
  | @hit p b i hp hi =>
    have hk := Cache.hasBlock_iff.mp hi
    refine h.change (hch ..) (same i _ rfl rfl rfl) ?_ (fun j e => ?_) (.inl rfl) ?_ (h.held i)
      fun _ => (Buf.key_eq.mp hk).1
    · rw [hp, BufPc.refs_waiting]
      show ((c.buf i).refcnt + 1 : Nat) - (c.buf i).holders + 0 = _
      omega
    · rw [hp, BufPc.refs_waiting_ne b e]
      rfl
    · intro y j hy
      cases hy
      exact ⟨rfl, hk⟩
  | @recycle p b i hp hno hi =>
    obtain ⟨h0, hd⟩ := of_decide_eq_true hi
    have hno' : ∀ j, c.lines.key j ≠ some b := by
      intro j hj
      have := hno j (h.order j)
      rw [Cache.hasBlock_iff.mpr hj] at this
      cases this
    have hh := (h.free h0).2
    refine h.change (hch ..) ?_ ?_ (fun j e => ?_) (.inr h0) ?_ (fun q hq => ?_) fun _ => rfl
    · show Coherent A (c.set i _).lines
      rw [lines_recycle]
      exact h.coherent.assign hd hno'
    · rw [hp, BufPc.refs_waiting, h0]
      show (1 : Int) - (c.buf i).holders + 0 = 0 - (c.buf i).holders + 1
      omega
    · rw [hp, BufPc.refs_waiting_ne b e]
      rfl
    · intro y j hy
      cases hy
      exact ⟨rfl, Buf.key_eq.mpr ⟨rfl, rfl⟩⟩
    · rw [Buf.holders_some (show (c.buf i).lock = some q from hq)] at hh
      cases hh
  | @found p b i hp hl hv =>
    refine h.change (hch ..) (same i _ rfl rfl rfl) ?_ (fun j e => ?_) (.inl rfl) nofun (fun _ _ => hv) (h.used i)
    · rw [hp, BufPc.refs_waiting, Buf.holders_none hl]
      show ((c.buf i).refcnt : Int) - 1 + 1 = (c.buf i).refcnt - 0 + 0
      omega
    · rw [hp, BufPc.refs_waiting_ne b e]
      rfl
  | @fetch p b i hp hl hv =>
    have hk : c.lines.key i = some (c.buf i).blockno := by
      obtain ⟨hdev, -⟩ := Buf.key_eq.mp (h.wait p b i hp)
      exact Buf.key_eq.mpr ⟨hdev, rfl⟩
    have hval : c.lines.val i = none := if_neg (by rw [hv]; exact Bool.false_ne_true)
    refine h.change (hch ..) ?_ ?_ (fun j e => ?_) (.inl rfl) nofun (fun _ _ => rfl) (h.used i)
    · show Coherent A (c.set i _).lines
      rw [lines_fetch]
      exact h.coherent.fill hk hval
    · rw [hp, BufPc.refs_waiting, Buf.holders_none hl]
      show ((c.buf i).refcnt : Int) - 1 + 1 = (c.buf i).refcnt - 0 + 0
      omega
    · rw [hp, BufPc.refs_waiting_ne b e]
      rfl
  | @mark p i x hp hl =>
    have hv := h.held i p hl
    have hch : Changes c (c.set i { c.buf i with data := x, dirty := true }) i
        { c.buf i with data := x, dirty := true } p (c.pc p) :=
      ⟨rfl, (update_eq_self ..).symm, fun _ => id⟩
    refine h.change hch ?_ rfl (fun _ _ => rfl) (.inl rfl) ?_ (fun _ _ => hv) (h.used i)
    · rw [lines_mark c x hv]
      exact h.coherent.put (h.held_key hl) x
    · rw [hp]
      exact nofun
  | @bwrite p i x hp hl =>
    have hch : Changes c { c.set i { c.buf i with data := x, dirty := false, valid := true } with
          disk := update c.disk (c.buf i).blockno x } i
        { c.buf i with data := x, dirty := false, valid := true } p (c.pc p) :=
      ⟨rfl, (update_eq_self ..).symm, fun _ => id⟩
    refine h.change hch ?_ rfl (fun _ _ => rfl) (.inl rfl) ?_ (fun _ _ => rfl) (h.used i)
    · rw [lines_bwrite]
      have hk : c.lines.key i = some (c.buf i).blockno := h.held_key hl
      exact (h.coherent.put hk x).flush hk (update_self ..)
    · rw [hp]
      exact nofun
  | @brelse p i hp hl =>
    refine h.change (hch ..) (same i _ rfl rfl rfl) ?_ (fun j e => ?_) (.inl rfl) nofun nofun (h.used i)
    · rw [hp, BufPc.refs_leaving, Buf.holders_some hl]
      show ((c.buf i).refcnt : Int) - 0 + 0 = (c.buf i).refcnt - 1 + 1
      omega
    · rw [hp, BufPc.refs_leaving_ne e]
      rfl
  | @unref p i hp =>
    have hpos := h.refcnt_pos (i := i) (p := p) (by rw [hp]; exact BufPc.refs_leaving i)
    have hch : Changes c (unref c p i) i { c.buf i with refcnt := (c.buf i).refcnt - 1 } p .idle := by
      refine ⟨rfl, rfl, fun j hj => ?_⟩
      show j ∈ if (c.buf i).refcnt - 1 = 0 then i :: c.order.erase i else c.order
      split
      · by_cases e : j = i
        · rw [e]; exact mem_cons_self ..
        · exact mem_cons_of_mem _ ((mem_erase_of_ne e).mpr hj)
      · exact hj
    refine h.change hch (same i _ rfl rfl rfl) ?_ (fun j e => ?_) (.inl rfl) nofun (h.held i) fun _ => h.used i hpos
    · rw [hp, BufPc.refs_leaving]
      show (((c.buf i).refcnt - 1 : Nat) : Int) - (c.buf i).holders + 1 = (c.buf i).refcnt - (c.buf i).holders + 0
      omega
    · rw [hp, BufPc.refs_leaving_ne e]
      rfl
  | skip => exact h

end Xv6.Bio
