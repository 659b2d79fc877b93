import Xv6.Fs.Write

/-!
# `itrunc`

The blocks of an inode are freed one after the other. Meanwhile the inode still holds some
addresses of freed blocks, so the loops are followed with a map `o` of the places that still count:
each `bfree` takes a block that `o` gives to one place, and empties that place.
-/

namespace Xv6.Fs
open Lib Function List

variable {e : Env} {T : Nat → Dinode} {c c' : Core} {i : Ip} {n a b : Nat}
  {o : Place → Option Nat} {p : Place} {ks : List (Fin (NDIRECT + 1))} {o' : Place → Option Nat}
  {k : Fin (NDIRECT + 1)} {l : List Place}

lemma does_bfree_owned (h : Owns (· < e.size) c.used o) (hp : o p = some b) :
    Does (bfree e b) (fun _ c' => c' = c.setUsed b false ∧ Owns (· < e.size) c'.used (update o p none)) c := by
  refine (does_bfree (h.used_of hp)).mono fun _ c' hc => ⟨hc, ?_⟩
  rw [hc]
  exact h.free hp

section
variable {α β : Type} [DecidableEq α] {f : α → β} {z : β} {a x : α} {l l' : List α}

/-- the values on a list of arguments are replaced by `z`, one after the other. -/
theorem wipe_cons : (if x ∈ l then z else update f a z x) = if x ∈ a :: l then z else f x := by
  rw [update_apply]
  by_cases hx : x = a
  · rw [if_pos hx, ite_self, if_pos (by rw [hx]; exact mem_cons_self)]
  · rw [if_neg hx]
    refine if_congr ?_ rfl rfl
    rw [mem_cons, or_iff_right hx]

lemma wipe_cons_of_eq (h : f a = z) : (if x ∈ l then z else f x) = if x ∈ a :: l then z else f x := by
  rw [← wipe_cons, ← h, update_eq_self]

lemma wipe_append : (if x ∈ l' then z else if x ∈ l then z else f x) =
    if x ∈ l ++ l' then z else f x := by
  by_cases hx : x ∈ l'
  · rw [if_pos hx, if_pos (mem_append_right _ hx)]
  · rw [if_neg hx]
    refine if_congr ?_ rfl rfl
    rw [mem_append, or_iff_left hx]

end

/-- the map `o'` is `o` without the places in `l`. -/
def Emptied (l : List Place) (o o' : Place → Option Nat) : Prop :=
  ∀ p, o' p = if p ∈ l then none else o p

lemma Emptied.cons (h : Emptied l (update o p none) o') : Emptied (p :: l) o o' := by
  intro q
  rw [h q, wipe_cons]

lemma Emptied.cons_none (hp : o p = none) (h : Emptied l o o') : Emptied (p :: l) o o' := by
  intro q
  rw [h q, wipe_cons_of_eq hp]

lemma Emptied.append {l l' : List Place} {o' o'' : Place → Option Nat} (h : Emptied l o o')
    (h' : Emptied l' o' o'') : Emptied (l ++ l') o o'' := by
  intro q
  rw [h' q, h q, wipe_append]

lemma does_truncEntries {x : Block} (js : List (Fin NINDIRECT)) : ∀ {c : Core} {o}
    (_ : Owns (· < e.size) c.used o) (_ : ∀ j ∈ js, o (.inode n (.entry j)) = nz (word x j)),
    js.Nodup → Does (truncEntries e x (js.map Fin.val)) (fun _ c' => ∃ o',
      Emptied (js.map fun j => .inode n (.entry j)) o o' ∧ Owns (· < e.size) c'.used o' ∧
        c' = { c with used := c'.used }) c := by
  induction js with
  | nil => intro c o h _ _; exact does_pure ⟨o, fun p => rfl, h, rfl⟩
  | cons j js ih =>
    intro c o h ho hnd
    obtain ⟨hj, hnd⟩ := nodup_cons.mp hnd
    have hoj := ho j mem_cons_self
    refine does_ite (fun h0 => ?_) fun h0 => ?_
    · rw [h0] at hoj
      refine (ih h (fun k hk => ho k (mem_cons_of_mem _ hk)) hnd).mono
        fun _ c' ⟨o', he, h', hc⟩ => ⟨o', he.cons_none hoj, h', hc⟩
    · have hs : o (.inode n (.entry j)) = some (word x j) := hoj.trans (if_neg h0)
      refine (does_bfree_owned h hs).seq fun _ c1 ⟨hc1, h1⟩ => ?_
      refine (ih h1 (fun k hk => ?_) hnd).mono fun _ c' ⟨o', he, h', hc⟩ => ⟨o', he.cons, h', ?_⟩
      · rw [update_of_ne]
        · exact ho k (mem_cons_of_mem _ hk)
        · intro hkj
          rw [Place.inode.injEq, Spot.entry.injEq] at hkj
          exact hj (hkj.2 ▸ hk)
      · rw [hc, hc1]
        rfl

/-- the addresses `ks` of `i` are 0 in memory. -/
structure Cut (i : Ip) (ks : List (Fin (NDIRECT + 1))) (c c' : Core) : Prop where
  data : c'.data = c.data
  dinode : c'.dinode = c.dinode
  others : ∀ j, j ≠ i → c'.inode j = c.inode j
  self : c'.inode i = { c.inode i with
    d := { (c.inode i).d with addrs := fun k => if k ∈ ks then 0 else (c.inode i).d.addrs k } }

lemma Cut.nil (h : c'.data = c.data) (hd : c'.dinode = c.dinode) (hi : c'.inode = c.inode) : Cut i [] c c' :=
  ⟨h, hd, fun j _ => by rw [hi], by rw [hi]; rfl⟩

lemma Cut.cons (h : Cut i ks ((c.setUsed b false).setAddr i k 0) c') : Cut i (k :: ks) c c' := by
  have hs : ((c.setUsed b false).setAddr i k 0).inode i =
      { c.inode i with d := (c.inode i).d.setAddr k 0 } := Core.setCopy_self _ i _
  refine ⟨h.data, h.dinode, fun j hj => (h.others j hj).trans (Core.setCopy_of_ne _ _ hj), ?_⟩
  rw [h.self, hs]
  refine congrArg (fun f => { c.inode i with d := { (c.inode i).d with addrs := f } }) ?_
  funext m
  exact wipe_cons

lemma Cut.cons_zero (h0 : (c.inode i).d.addrs k = 0) (h : Cut i ks c c') : Cut i (k :: ks) c c' := by
  refine ⟨h.data, h.dinode, h.others, ?_⟩
  rw [h.self]
  refine congrArg (fun f => { c.inode i with d := { (c.inode i).d with addrs := f } }) ?_
  funext m
  exact wipe_cons_of_eq h0

namespace Cut
variable {ks ks' : List (Fin (NDIRECT + 1))}

lemma addrs (h : Cut i ks c c') (k : Fin (NDIRECT + 1)) :
    (c'.inode i).d.addrs k = if k ∈ ks then 0 else (c.inode i).d.addrs k := by
  rw [h.self]

lemma append {c'' : Core} (h : Cut i ks c c') (h' : Cut i ks' c' c'') : Cut i (ks ++ ks') c c'' := by
  refine ⟨h'.data.trans h.data, h'.dinode.trans h.dinode, fun j hj => (h'.others j hj).trans (h.others j hj), ?_⟩
  rw [h'.self, h.self]
  refine congrArg (fun f => { c.inode i with d := { (c.inode i).d with addrs := f } }) ?_
  funext k
  exact wipe_append

lemma setCopy (h : Cut i ks c c') (d : Dinode) : (c'.setCopy i d).inode = (c.setCopy i d).inode := by
  funext j
  by_cases hj : j = i
  · rw [hj, Core.setCopy_self, Core.setCopy_self, h.self]
  · rw [Core.setCopy_of_ne _ _ hj, Core.setCopy_of_ne _ _ hj, h.others j hj]

end Cut

lemma does_truncDirect (ks : List (Fin (NDIRECT + 1))) : ∀ {c : Core} {o}
    (_ : Owns (· < e.size) c.used o)
    (_ : ∀ k ∈ ks, o (.inode n (.addr k)) = nz ((c.inode i).d.addrs k)),
    ks.Nodup → Does (truncDirect e i ks) (fun _ c' => ∃ o',
      Emptied (ks.map fun k => .inode n (.addr k)) o o' ∧ Owns (· < e.size) c'.used o' ∧ Cut i ks c c') c := by
  induction ks with
  | nil => intro c o h _ _; exact does_pure ⟨o, fun p => rfl, h, .nil rfl rfl rfl⟩
  | cons k ks ih =>
    intro c o h ho hnd
    obtain ⟨hk, hnd⟩ := nodup_cons.mp hnd
    have hok := ho k mem_cons_self
    refine does_get (does_ite (fun h0 => ?_) fun h0 => ?_)
    · rw [h0] at hok
      refine (ih h (fun m hm => ho m (mem_cons_of_mem _ hm)) hnd).mono
        fun _ c' ⟨o', he, h', hc⟩ => ⟨o', he.cons_none hok, h', hc.cons_zero h0⟩
    · have hs : o (.inode n (.addr k)) = some ((c.inode i).d.addrs k) := hok.trans (if_neg h0)
      refine (does_bfree_owned h hs).seq fun _ c1 ⟨hc1, h1⟩ => does_modify_seq ?_
      rw [hc1] at h1 ⊢
      refine (@ih ((c.setUsed ((c.inode i).d.addrs k) false).setAddr i k 0) _ h1
        (fun m hm => ?_) hnd).mono fun _ c' ⟨o', he, h', hc⟩ => ⟨o', he.cons, h', hc.cons⟩
      have hmk : m ≠ k := fun hmk => hk (hmk ▸ hm)
      have hs' : ((c.setUsed ((c.inode i).d.addrs k) false).setAddr i k 0).inode i =
          { c.inode i with d := (c.inode i).d.setAddr k 0 } := Core.setCopy_self _ i _
      rw [update_of_ne (by simp [hmk]), hs', ho m (mem_cons_of_mem _ hm)]
      exact congrArg nz (update_of_ne hmk _ _).symm

/-- the entries of the indirect block, and the block itself. -/
def indirects (n : Nat) : List Place :=
  (finRange NINDIRECT).map (fun j => .inode n (.entry j)) ++ [.inode n .indirect]

lemma does_truncIndirect (h : Owns (· < e.size) c.used o)
    (ho : ∀ x, .inode n x ∈ indirects n → o (.inode n x) = nz ((c.inode i).d.block c.data x)) :
    Does (truncIndirect e i) (fun _ c' => ∃ o', Emptied (indirects n) o o' ∧
      Owns (· < e.size) c'.used o' ∧ Cut i [Fin.last NDIRECT] c c') c := by
  have hentry : ∀ j, o (.inode n (.entry j)) = nz ((c.inode i).d.block c.data (.entry j)) :=
    fun j => ho _ (mem_append_left _ (mem_map.mpr ⟨j, mem_finRange j, rfl⟩))
  have hlast : o (.inode n .indirect) = nz ((c.inode i).d.addrs (Fin.last NDIRECT)) :=
    ho _ (mem_append_right _ mem_cons_self)
  unfold truncIndirect
  refine does_get (does_ite (fun h0 => ?_) fun h0 => ?_)
  · refine does_pure ⟨o, fun p => ?_, h, .cons_zero h0 (.nil rfl rfl rfl)⟩
    -- there was no indirect block
    split
    · next hp =>
      rcases mem_append.mp hp with hp | hp
      · obtain ⟨j, _, rfl⟩ := mem_map.mp hp
        rw [hentry, block_entry_none h0]
        rfl
      · rw [mem_singleton.mp hp, hlast, h0]
        rfl
    · rfl
  · refine (does_bread _).seq fun x c1 ⟨_, hx, hc1⟩ => ?_
    rw [hx, hc1, ← map_coe_finRange_eq_range]
    refine (does_truncEntries (n := n) (finRange NINDIRECT) h (fun j _ => ?_)
      (nodup_finRange _)).seq fun _ c2 ⟨o2, he2, h2, hc2⟩ => ?_
    · rw [hentry, block_entry h0]
    have hlast2 : o2 (.inode n .indirect) = some ((c.inode i).d.addrs (Fin.last NDIRECT)) := by
      rw [he2, if_neg, hlast]
      · exact if_neg h0
      · intro hm
        obtain ⟨j, _, hj⟩ := mem_map.mp hm
        cases (Place.inode.inj hj).2
    refine (does_bfree_owned h2 hlast2).seq fun _ c3 ⟨hc3, h3⟩ => does_modify ?_
    rw [hc3] at h3 ⊢
    refine ⟨_, he2.append (Emptied.cons fun p => rfl), h3, ?_⟩
    have hcut : Cut i [Fin.last NDIRECT] c2
        ((c2.setUsed ((c.inode i).d.addrs (Fin.last NDIRECT)) false).setAddr i (Fin.last NDIRECT) 0) :=
      Cut.cons (.nil rfl rfl rfl)
    rw [hc2] at hcut ⊢
    exact ⟨hcut.data, hcut.dinode, hcut.others, hcut.self⟩

/-- the direct addresses. -/
def directs (n : Nat) : List Place :=
  ((finRange NDIRECT).map Fin.castSucc).map fun k => .inode n (.addr k)

lemma mem_places (n : Nat) (x : Spot) : .inode n x ∈ directs n ++ indirects n := by
  cases x with
  | entry j =>
    refine mem_append_right _ (mem_append_left _ ?_)
    exact mem_map.mpr ⟨j, mem_finRange j, rfl⟩
  | addr k =>
    induction k using Fin.lastCases with
    | last => exact mem_append_right _ (mem_append_right _ mem_cons_self)
    | cast k =>
      refine mem_append_left _ (mem_map.mpr ⟨_, ?_, rfl⟩)
      exact mem_map.mpr ⟨k, mem_finRange k, rfl⟩

lemma of_mem_directs (hp : p ∈ directs n) : ∃ k, p = .inode n (.addr (Fin.castSucc k)) := by
  obtain ⟨_, hm, rfl⟩ := mem_map.mp hp
  obtain ⟨k, _, rfl⟩ := mem_map.mp hm
  exact ⟨k, rfl⟩

lemma of_mem_indirects (hp : p ∈ indirects n) : (∃ j, p = .inode n (.entry j)) ∨ p = .inode n .indirect := by
  rcases mem_append.mp hp with hp | hp
  · obtain ⟨j, _, rfl⟩ := mem_map.mp hp
    exact .inl ⟨j, rfl⟩
  · exact .inr (mem_singleton.mp hp)

lemma not_mem_directs (hp : p ∈ indirects n) : p ∉ directs n := by
  intro hd
  obtain ⟨k, rfl⟩ := of_mem_directs hd
  rcases of_mem_indirects hp with ⟨j, hj⟩ | hl
  · cases (Place.inode.inj hj).2
  · exact Fin.castSucc_ne_last k (Spot.addr.inj (Place.inode.inj hl).2)

lemma of_mem_places (hp : p ∈ directs n ++ indirects n) : ∃ x, p = .inode n x := by
  rcases mem_append.mp hp with hp | hp
  · obtain ⟨k, hk⟩ := of_mem_directs hp
    exact ⟨_, hk⟩
  · rcases of_mem_indirects hp with ⟨j, hj⟩ | hl
    · exact ⟨_, hj⟩
    · exact ⟨_, hl⟩

lemma Sound.cleared (h : Sound e T c) (hi : c.Held i) {d : Dinode} (ht : d.type ≠ 0)
    (ha : ∀ k, d.addrs k = 0) (hz : d.size = 0) {c' : Core} (hdata : c'.data = c.data)
    (hin : c'.inode = (c.setCopy i d).inode) (ho : Owns (· < e.size) c'.used o)
    (hnone : ∀ x, o (.inode (c.inode i).inum x) = none)
    (hsame : ∀ p, (∀ x, p ≠ .inode (c.inode i).inum x) → o p = own e T c.data p) :
    Sound e (update T (c.inode i).inum d) c' := by
  have hc := h.copy i hi
  have hsame' : ∀ n x, n ≠ (c.inode i).inum →
      own e (update T (c.inode i).inum d) c'.data (.inode n x) = own e T c.data (.inode n x) := by
    intro n x hn
    rw [hdata]
    exact own_frame (update_of_ne hn _ _) fun _ _ => rfl
  have hown : ∀ p, own e (update T (c.inode i).inum d) c'.data p = o p := by
    intro p
    cases p with
    | fixed b => exact (hsame (.fixed b) fun x hx => by cases hx).symm
    | inode n x =>
      by_cases hn : n = (c.inode i).inum
      · rw [hn, hnone, own_live hc.inum_lt (by rw [update_self]; exact ht),
          update_self, block_of_addrs ha]
        rfl
      · rw [hsame' n x hn]
        exact (hsame _ fun y hy => hn (Place.inode.inj hy).1).symm
  refine ⟨ho.reframe hown fun _ _ => rfl, fun n bn hn hty hdev hs => ?_, fun j hj => ?_, ?_⟩
  · by_cases hni : n = (c.inode i).inum
    · rw [hni, update_self, hz] at hs
      exact absurd hs (Nat.not_lt_zero _)
    · rw [update_of_ne hni] at hty hdev hs
      rw [hsame' n _ hni]
      exact h.full n bn hn hty hdev hs
  · have hr := hj.ref
    have hv := hj.valid
    rw [hin] at hr hv ⊢
    exact h.copies hi ht ⟨hr, hv⟩
  · rw [hin]
    exact h.aparts d

/-- the direct addresses, in the order of the loop. -/
def direct : List (Fin (NDIRECT + 1)) := (finRange NDIRECT).map Fin.castSucc

lemma mem_direct (k : Fin (NDIRECT + 1)) : k ∈ direct ++ [Fin.last NDIRECT] := by
  induction k using Fin.lastCases with
  | last => exact mem_append_right _ mem_cons_self
  | cast k => exact mem_append_left _ (mem_map.mpr ⟨k, mem_finRange k, rfl⟩)

lemma last_not_mem_direct : Fin.last NDIRECT ∉ direct := by
  intro hm
  obtain ⟨k, _, hk⟩ := mem_map.mp hm
  exact Fin.castSucc_ne_last k hk

lemma does_truncAll (h : Inv e c) (hi : c.Held i) :
    Does (truncDirect e i direct >>= fun _ => truncIndirect e i) (fun _ c' => ∃ o,
      Emptied (directs (c.inode i).inum ++ indirects (c.inode i).inum) (own e c.dinode c.data) o ∧
        Owns (· < e.size) c'.used o ∧ Cut i (direct ++ [Fin.last NDIRECT]) c c') c := by
  have hc := h.copy i hi
  have hown : ∀ x, own e c.dinode c.data (.inode (c.inode i).inum x) = nz ((c.inode i).d.block c.data x) := hc.own_eq
  refine (does_truncDirect direct h.owns (fun k _ => hown (.addr k)) ?_).seq fun _ c1 ⟨o1, he1, h1, hc1⟩ => ?_
  · exact (nodup_finRange _).map (Fin.castSucc_injective _)
  have hlast : (c1.inode i).d.addrs (Fin.last NDIRECT) = (c.inode i).d.addrs (Fin.last NDIRECT) :=
    (hc1.addrs _).trans (if_neg last_not_mem_direct)
  replace he1 : Emptied (directs (c.inode i).inum) (own e c.dinode c.data) o1 := he1
  refine (does_truncIndirect h1 fun x hx => ?_).mono
    fun _ c2 ⟨o2, he2, h2, hc2⟩ => ⟨o2, he1.append he2, h2, hc1.append hc2⟩
  rw [he1, if_neg (not_mem_directs hx), hown]
  apply congrArg nz
  rcases of_mem_indirects hx with ⟨j, hj⟩ | hl
  · rw [(Place.inode.inj hj).2]
    show (if _ = 0 then 0 else word (c.data _) j) = if _ = 0 then 0 else word (c1.data _) j
    rw [hlast, hc1.data]
  · rw [(Place.inode.inj hl).2]
    exact hlast.symm

/-- the data blocks and the other inodes of the disk are left alone. -/
structure Apart (n : Nat) (c c' : Core) : Prop where
  data : c'.data = c.data
  dinode : ∀ m, m ≠ n → c'.dinode m = c.dinode m

lemma Apart.node (h : Apart n c c') {m : Nat} (hm : m ≠ n) : c'.node e m = c.node e m :=
  nodeAt_frame (h.dinode m hm) fun _ _ _ => by rw [h.data]

lemma does_itrunc (h : Inv e c) (hi : c.Held i) :
    Does (itrunc e i) (fun _ c' => Inv e c' ∧ Keeps c c' ∧ Apart (c.inode i).inum c c' ∧
      ∀ k, (c'.inode i).d.addrs k = 0) c := by
  unfold itrunc
  rw [← bind_assoc]
  refine (does_truncAll h hi).seq fun _ c1 ⟨o, he, ho, hc1⟩ => ?_
  refine does_modify_seq ((does_iupdate i).mono fun _ c' hc' => ?_)
  generalize hd : ({ (c1.inode i).d with size := 0 } : Dinode) = d at hc'
  have ha : ∀ k, d.addrs k = 0 := by
    intro k
    rw [← hd]
    exact (hc1.addrs k).trans (if_pos (mem_direct k))
  have hty : d.type ≠ 0 := by
    rw [← hd, hc1.self]
    exact (h.copy i hi).type_ne
  have htbl : (c1.setCopy i d).tbl i = update c.dinode (c.inode i).inum d := by
    show update c1.dinode ((c1.setCopy i d).inode i).inum ((c1.setCopy i d).inode i).d = _
    rw [hc1.setCopy, Core.setCopy_self, hc1.dinode]
  have hs : Sound e ((c1.setCopy i d).tbl i) (c1.setCopy i d) := by
    rw [htbl]
    refine h.cleared hi hty ha (by rw [← hd]) hc1.data (hc1.setCopy d) ho (fun x => ?_) fun p hp => ?_
    · rw [he, if_pos (mem_places _ x)]
    · rw [he, if_neg]
      intro hm
      obtain ⟨x, hx⟩ := of_mem_places hm
      exact hp x hx
  rw [hc']
  refine ⟨hs.written, fun j => ?_, ⟨hc1.data, fun m hm => ?_⟩, fun k => ?_⟩
  · show ∃ d', (c1.setCopy i d).inode j = _
    rw [hc1.setCopy]
    exact Keeps.setCopy c i d j
  · show (c1.setCopy i d).tbl i m = _
    rw [htbl, update_of_ne hm]
  · show ((c1.setCopy i d).inode i).d.addrs k = 0
    rw [Core.setCopy_self]
    exact ha k

end Xv6.Fs
