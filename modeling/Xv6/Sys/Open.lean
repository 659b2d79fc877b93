import Xv6.Sys.Calls
import Xv6.Fs.Holes

/-!
# Open files and the inode cache, over every run

What holds after any calls of any processes: the counts of the file table and of the inode cache are
those of the holders, what an entry stands for is given back once, the inode cache agrees with the
disk, and an inode that is open or a current directory stays until its last holder lets go.
-/

namespace Xv6.Sys
open Lib Fs Option Bool

variable {e : Env} {J T : Prop} {E : Stop → Prop} [Allows E] {s s' t : State} {a : Slot × Op} {x : Halt}
  {r : Int}

/-! ## one step -/

lemma syscall_good (h : Good e J T s) (hq : J → Fs.Quiet e E s.held s.fs.core) :
    (∀ r s', syscall e s a = .ok (r, s') → Good e J T s' ∧
      (J → ∃ cwd, s.cwd a.1 = some cwd ∧ Turn e s a.1 cwd a.2 r s')) ∧
    ∀ x, syscall e s a = .error x → Stops J E x := by
  unfold syscall
  cases hp : s.cwd a.1 with
  | none =>
    refine ⟨fun r s' hs => (by cases hs), fun x hx => ?_⟩
    cases hx
    trivial
  | some cwd =>
    dsimp only
    by_cases hf : a.2.fits = true
    · rw [if_pos hf]
      have hop := (does_op (E := E) h hp hq hf).elim
      refine ⟨fun r s' hs => ?_, fun x hx => hop.2 x hx⟩
      obtain ⟨h1, h2⟩ := hop.1 r s' hs
      exact ⟨h1, fun hj => ⟨cwd, rfl, h2 hj⟩⟩
    · rw [if_neg hf]
      refine ⟨fun r s' hs => (by cases hs), fun x hx => ?_⟩
      cases hx
      trivial

lemma step_ok : step e s a = .ok s' ↔ ∃ r, syscall e s a = .ok (r, s') := by
  unfold step
  split
  · next r u hu =>
    rw [hu]
    constructor
    · intro h
      cases h
      exact ⟨r, rfl⟩
    · rintro ⟨r', h⟩
      cases h
      rfl
  · next x hx =>
    rw [hx]
    exact ⟨fun h => (by cases h), fun ⟨_, h⟩ => by cases h⟩

lemma step_error : step e s a = .error x ↔ syscall e s a = .error x := by
  unfold step
  split
  · next r u hu =>
    rw [hu]
    exact ⟨fun h => (by cases h), fun h => by cases h⟩
  · next y hy =>
    rw [hy]
    constructor
    · intro h
      cases h
      rfl
    · intro h
      cases h
      rfl

/-- every failure of the file system is allowed. -/
def Anything (_ : Stop) : Prop := True

instance : Allows Anything := ⟨fun _ _ => trivial⟩

lemma step_good (h : Good e J T s) (hs : step e s a = .ok s') : Good e J T s' := by
  obtain ⟨r, hr⟩ := step_ok.mp hs
  exact ((syscall_good (E := Anything) h fun _ => .inl trivial).1 r s' hr).1

lemma Path.good {s0 : State} {tr : List (State × (Slot × Op))} (h : Path (step e) s0 tr t)
    (h0 : Good e J T s0) : Good e J T t :=
  h.invariant (fun s => Good e J T s) (fun _ _ => True) (fun _ _ _ hs _ hst => step_good hs hst)
    (fun _ _ => trivial) h0

/-! ## the first state -/

lemma boot_slots (fs : Fs.State) (f : Fp) : (State.boot fs).slots f = 0 :=
  refs_eq_zero.mpr fun _ h => by cases h

lemma boot_tab (fs : Fs.State) : Tab (fun _ => 0) [] (State.boot fs) := by
  refine ⟨⟨fun f => ?_, fun f => ⟨fun _ => .inl rfl, fun _ => rfl⟩⟩, fun _ _ _ => rfl⟩
  rw [boot_slots]
  rfl

lemma boot_books (fs : Fs.State) : Books (State.boot fs) := by
  have hno : ∀ f k w, ¬ ((State.boot fs).file f).IsEnd k w := fun f k w h => by cases h.type
  refine ⟨fun k w => ⟨fun ⟨_, h, _⟩ => (by cases h), fun ⟨f, h⟩ => absurd h (hno f k w)⟩,
    fun f _ k w h _ => absurd h (hno f k w), fun _ _ h => (by cases h), fun _ => rfl, fun _ => rfl⟩

/-! ## the file table -/

/-- **The count of an open file is the number of its descriptors**, whatever is on the disk: an entry
without descriptors has no type, `filedup` and `fileclose` do not panic, no page of a pipe is used
after it was freed; what an entry stands for was given back as often as it was taken, but for an
entry in use; and a page was freed as often as it was allocated, but for a pipe with an end that is
an entry in use. -/
theorem open_files_counted {fs : Fs.State} {tr : List (State × (Slot × Op))}
    (h : Path (step e) (State.boot fs) tr t) :
    (∀ f, (t.file f).ref = t.slots f ∧ ((t.file f).ref = 0 ↔ (t.file f).type = .FD_NONE)) ∧
    (∀ a, step e t a ≠ .error (.panic "filedup") ∧ step e t a ≠ .error (.panic "fileclose") ∧
      step e t a ≠ .error .wild) ∧
    (∀ f, t.did.count (.take f) = t.did.count (.drop f) + if (t.file f).ref = 0 then 0 else 1) ∧
    (∀ k, t.did.count (.kalloc k) = t.did.count (.kfree k) + if (t.page k).isSome then 1 else 0) ∧
    ∀ k, (t.page k).isSome = true ↔ ∃ f w, (t.file f).IsEnd k w := by
  have hg : Good e False False t := Path.good h
    ⟨boot_tab fs, boot_books fs, fun hj => hj.elim, fun hj => hj.elim, fun hj => hj.elim⟩
  have htype : ∀ f, (t.file f).ref = 0 ↔ (t.file f).type = .FD_NONE := by
    intro f
    rw [hg.tab.type_iff f]
    exact ⟨.inl, fun h0 => h0.resolve_right List.not_mem_nil⟩
  refine ⟨fun f => ⟨?_, htype f⟩, fun a => ?_, fun f => ?_, hg.books.pages, fun k => ?_⟩
  · rw [hg.tab.refs f, Int.add_zero]
  · have hstop : ∀ x, step e t a = .error x → Stops False Anything x := fun x hx =>
      (syscall_good (E := Anything) hg fun hj => hj.elim).2 x (step_error.mp hx)
    refine ⟨fun hx => ?_, fun hx => ?_, fun hx => hstop _ hx⟩
    · exact hstop _ hx (by decide)
    · exact hstop _ hx (by decide)
  · rw [hg.books.took f]
    simp only [htype f]
  · constructor
    · intro hk
      obtain ⟨y, hy⟩ := isSome_iff_exists.mp hk
      obtain ⟨w, hw⟩ := hg.books.any k y hy
      obtain ⟨f, hf⟩ := (hg.books.opens k w).mp ⟨y, hy, hw⟩
      exact ⟨f, w, hf⟩
    · rintro ⟨f, w, hf⟩
      obtain ⟨y, hy, -⟩ := (hg.books.opens k w).mpr ⟨f, hf⟩
      rw [hy]
      rfl

def p1 : Slot := ⟨1, by decide⟩
def f0 : Fp := ⟨0, by decide⟩
def f1 : Fp := ⟨1, by decide⟩

/-- a pipe is made, a child gets both ends; the child closes one and exits, and the parent closes
both: the page is freed. -/
theorem open_files_counted_pipe : ∃ tr t, Path (step mkfsEnv) (State.boot (mkfs 0)) tr t ∧ tr.length = 7 ∧
    (t.file f0).ref = 0 ∧ (t.file f1).ref = 0 ∧ t.did.count (.kfree 5) = 1 ∧ (t.page 5).isSome = false ∧
    ∀ f, (t.file f).ref = t.slots f := by
  obtain ⟨tr, t, h, hlen, h0, h1, hk, hp⟩ : ∃ tr t, Path (step mkfsEnv) (State.boot (mkfs 0)) tr t ∧
      tr.length = 7 ∧ (t.file f0).ref = 0 ∧ (t.file f1).ref = 0 ∧ t.did.count (.kfree 5) = 1 ∧
      (t.page 5).isSome = false := Path.of_labels [(initproc, .pipe (some 5)), (initproc, .dup 0),
    (initproc, .fork (some p1)), (initproc, .close 0), (p1, .exit), (initproc, .close 1),
    (initproc, .close 2)] (by decide +kernel)
  exact ⟨tr, t, h, hlen, h0, h1, hk, hp, fun f => ((open_files_counted h).1 f).1⟩

/-! ## the inode cache -/

section
variable {used : Nat → Bool} {dinode : Nat → Dinode} {data : Nat → Block}

lemma boot_iref (fs : Fs.State) (i : Ip) : (State.boot fs).iref i = if i.val = 0 then 1 else 0 := by
  have h1 : refs (fun f => ((State.boot fs).file f).inode) i = 0 := refs_eq_zero.mpr fun _ h => by cases h
  have h2 : (State.boot fs).cwd = Function.update (fun _ => none) initproc (some ⟨0, by decide⟩) := by
    funext p
    show (if p = initproc then some _ else none) = _
    rw [Function.update_apply]
  have h3 : refs (fun _ : Slot => (none : Option Ip)) i = 0 := refs_eq_zero.mpr fun _ h => by cases h
  unfold State.iref
  rw [h1, h2, refs_update, h3, hit_none, hit_some]
  simp only [Fin.ext_iff]
  omega

lemma hold_nil {q : Ip → Int} {c : Core} {i : Ip} {k : Int} (h0 : 0 ≤ q i) :
    k = (((([] : List (Ip × Nat)).map Prod.fst).count i + (hold q c T).ref i : Nat) : Int) ↔ k = q i := by
  show k = ((0 + (q i).toNat : Nat) : Int) ↔ _
  rw [Nat.zero_add, Int.toNat_of_nonneg h0]

lemma Good.boot (h : Owned e (Fs.State.boot used dinode data).core)
    (hw : Whole e (Fs.State.boot used dinode data).core)
    (hr : (Fs.State.boot used dinode data).core.node e ROOTINO ≠ none)
    (ht : T → ∀ n x, (Fs.State.boot used dinode data).core.node e n = some x → x.d.nlink ≠ 0) :
    Good e True T (State.boot (Fs.State.boot used dinode data)) := by
  have hready := Ready.boot h hw
  refine ⟨boot_tab _, boot_books _, fun _ => ⟨hready.inv, fun i => ?_, fun _ hp => (by cases hp), fun _ _ => rfl,
    fun _ hv => (by cases hv), fun _ hv => (by cases hv), fun n x hT hx hl => absurd hl (ht hT n x hx)⟩,
    fun _ n ⟨i, hi, hn⟩ => ?_, fun _ f i y hf => (by cases hf)⟩
  · have href : ((Fs.State.boot used dinode data).core.inode i).ref = if i.val = 0 then 1 else 0 := rfl
    exact (hold_nil (State.iref_nonneg _ i)).mpr (href.trans (boot_iref _ i).symm)
  · rw [boot_iref] at hi
    split at hi
    · next h0 =>
      have hroot : ((Fs.State.boot used dinode data).core.inode i).inum = ROOTINO := if_pos h0
      rw [← hn]
      show (Fs.State.boot used dinode data).core.node e ((Fs.State.boot used dinode data).core.inode i).inum ≠ none
      rw [hroot]
      exact hr
    · exact absurd hi (Int.lt_irrefl 0)

/-- **The inode cache is coherent**, after any calls on a disk without holes whose blocks have
owners: there is one entry in use for an inode, its count is the number of open files and current
directories on it, and once it was read, it is the inode on the disk. -/
theorem inode_cache_coherent {tr : List (State × (Slot × Op))}
    (h : Path (step e) (State.boot (Fs.State.boot used dinode data)) tr t)
    (h0 : Owned e (Fs.State.boot used dinode data).core)
    (hw : Whole e (Fs.State.boot used dinode data).core)
    (hr : (Fs.State.boot used dinode data).core.node e ROOTINO ≠ none) :
    (∀ i j, 0 < (t.fs.core.inode i).ref → 0 < (t.fs.core.inode j).ref →
      (t.fs.core.inode i).inum = (t.fs.core.inode j).inum → i = j) ∧
    (∀ i, (t.fs.core.inode i).ref = refs (fun f => (t.file f).inode) i + refs t.cwd i) ∧
    ∀ i, 0 < (t.fs.core.inode i).ref → (t.fs.core.inode i).valid = true →
      (t.fs.core.inode i).d = t.fs.core.dinode (t.fs.core.inode i).inum := by
  have hc := (Path.good (T := False) h (.boot h0 hw hr fun hf => hf.elim)).ctx trivial
  exact ⟨hc.inv.apart, fun i => (hold_nil (t.iref_nonneg i)).mp (hc.refs i),
    fun i hi hv => (hc.inv.copy i ⟨hi, hv⟩).same⟩

end

/-- `O_CREATE | O_RDWR` -/
def rdwr : UInt32 := O_CREATE ||| O_RDWR

/-- "/y" -/
def pathY : List UInt8 := [47, 121]

/-- two processes in the root, and a file that is open twice. -/
theorem inode_cache_coherent_file : ∃ tr t, Path (step mkfsEnv) (State.boot (mkfs 0)) tr t ∧ tr.length = 4 ∧
    (t.fs.core.inode root).ref = 2 ∧ (t.fs.core.inode slot1).ref = 2 ∧
    ∀ i, (t.fs.core.inode i).ref = refs (fun f => (t.file f).inode) i + refs t.cwd i := by
  obtain ⟨tr, t, h, hlen, h0, h1⟩ : ∃ tr t, Path (step mkfsEnv) (State.boot (mkfs 0)) tr t ∧
      tr.length = 4 ∧ (t.fs.core.inode root).ref = 2 ∧ (t.fs.core.inode slot1).ref = 2 :=
    Path.of_labels [(initproc, .open (some pathX) rdwr), (initproc, .open (some pathX) O_RDONLY),
      (initproc, .fork (some p1)), (p1, .unlink (some pathX))] (by decide +kernel)
  exact ⟨tr, t, h, hlen, h0, h1, (inode_cache_coherent h (mkfs_owned 0) (mkfs_whole (by decide)) mkfs_root).2.1⟩

def slot2 : Ip := ⟨2, by decide⟩

/-- a free entry keeps its copy, marked as valid: the file "/x" is closed and opened again, in
another entry, and grows. -/
theorem free_entry_is_stale : Owned mkfsEnv (mkfs 0).core ∧ Whole mkfsEnv (mkfs 0).core ∧
    ∃ tr t, Path (step mkfsEnv) (State.boot (mkfs 0)) tr t ∧ (t.fs.core.inode slot2).valid = true ∧
      (t.fs.core.inode slot2).locked = false ∧ (t.fs.core.inode slot2).d.size = 0 ∧
      (t.fs.core.dinode (t.fs.core.inode slot2).inum).size = 1 :=
  ⟨mkfs_owned 0, mkfs_whole (by decide), Path.of_labels [(initproc, .open (some pathY) rdwr),
    (initproc, .open (some pathX) rdwr), (initproc, .close 0), (initproc, .close 1),
    (initproc, .open (some pathX) O_RDWR), (initproc, .write 0 [7])] (by decide +kernel)⟩

/-! ## an inode that is held -/

/-- the call writes the content of the inode `n`; `cn` is the number of the current directory. -/
def Op.writesTo (e : Env) (s : State) (p : Slot) (cn n : Nat) : Op → Prop
  | .write fd _ => ∃ q f i, s.argfd p fd = some (q, f) ∧ (s.file f).inode = some i ∧
      (s.fs.core.inode i).inum = n
  | .open (some path) omode => omode &&& O_CREATE ≠ 0 ∧
      ∃ name, resolvePath (s.fs.core.node e) true cn path = some (some (n, name))
  | .mkdir (some path) | .mknod (some path) _ _ | .link (some (_, path)) | .unlink (some path) =>
      ∃ name, resolvePath (s.fs.core.node e) true cn path = some (some (n, name))
  | _ => False

variable {o : Option Edit} {n cn : Nat} {p : Slot} {cwd : Ip} {op : Op}

variable {w w' : Option (Option (Nat × List UInt8))} {x : Edit}

lemma makes_writes {c : Core} {type major minor : Int} (h : Makes e type major minor w c (some x))
    (hn : x.writes n) : ∃ name, w = some (some (n, name)) := by
  cases x with
  | make _ _ _ k name =>
    rw [← hn]
    exact ⟨name, h.2⟩
  | link | nolink | unlink | write => exact h.elim

lemma links_writes {b : Bool} (h : Links w w' b (some x)) (hn : x.writes n) : ∃ name, w' = some (some (n, name)) := by
  cases b with
  | false =>
    rcases h with h | ⟨m, h⟩ <;> cases h
    exact hn.elim
  | true =>
    obtain ⟨m, nm, k, name, h1, -, h2⟩ := h
    cases h1
    rw [← hn]
    exact ⟨name, h2⟩

lemma unlinks_writes {b : Bool} (h : Unlinks w b (some x)) (hn : x.writes n) : ∃ name, w = some (some (n, name)) := by
  cases b with
  | false => cases h
  | true =>
    obtain ⟨k, name, m, h1, h2⟩ := h
    cases h1
    rw [← hn]
    exact ⟨name, h2⟩

lemma Op.Does.writes (h : op.Does e s p cn r (some x)) (hn : x.writes n) : op.writesTo e s p cn n := by
  cases op with
  | «open» path omode =>
    cases path with
    | none => cases h
    | some =>
      by_cases hc : omode &&& O_CREATE ≠ 0
      · exact ⟨hc, makes_writes (h.creates hc).1 hn⟩
      · cases h.opens hc
  | mkdir path | mknod path =>
    cases path with
    | none => cases h
    | some => exact makes_writes h.1 hn
  | link paths =>
    cases paths with
    | none => cases h
    | some => exact links_writes h hn
  | unlink path =>
    cases path with
    | none => cases h
    | some => exact unlinks_writes h hn
  | write =>
    rcases h with h | ⟨q, f, i, h1, h2, -, h3⟩
    · cases h
    · cases h3
      exact ⟨q, f, i, h1, h2, hn⟩
  | chdir | exec | dup | close | read | fstat | pipe | fork | exit => cases h

lemma freed_blocks {K : Nat → Prop} {c c' : Core} (h : Inv e c) (h' : Inv e c') (hi : Idle e K c c')
    (hn : c'.node e n = none) {sp : Spot} {b : Nat} (hb : Refers e c (n, sp) b) : c'.used b = false := by
  have hown := own_refers.mpr hb
  refine eq_false_of_not_eq_true fun hu => ?_
  rcases (h'.owned.used_iff b (h.owns.data _ b hown)).mp hu with hm | ⟨q, hq, -⟩
  · have hfix := h.owns.one _ _ b hown (own_fixed.mpr ⟨rfl, hm⟩)
    cases hfix
  · have hq' : c'.node e q.1 = c.node e q.1 := by
      rcases hi.nodes q.1 with h1 | ⟨h1, -⟩
      · exact h1
      · exact absurd h1 (by unfold Core.node; rw [nodeAt_live hq.1.1 hq.1.2]; exact some_ne_none _)
    have hqn := h.owned.once _ _ b (refers_of_node hq' hq) hb
    rw [hqn] at hq
    unfold Core.node at hn
    rw [nodeAt_live hq.1.1 hq.1.2] at hn
    cases hn

/-- **An open file outlives its name.** In a state that some calls lead to, from an image without
holes in which no block has two owners, the root exists and every inode in use is linked, the inode
`n` is open or a current directory. A call leaves it, with its type, and with its content, if the call does not
write there; and when its last holder lets it go, the inode and its blocks are freed, if it has no
links. No block is freed twice. -/
theorem open_file_outlives_name {used : Nat → Bool} {dinode : Nat → Dinode} {data : Nat → Block}
    {tr : List (State × (Slot × Op))} (h : Path (step e) (State.boot (Fs.State.boot used dinode data)) tr t)
    (h0 : Owned e (Fs.State.boot used dinode data).core)
    (hw : Whole e (Fs.State.boot used dinode data).core)
    (hr : (Fs.State.boot used dinode data).core.node e ROOTINO ≠ none)
    (hl : ∀ n x, (Fs.State.boot used dinode data).core.node e n = some x → x.d.nlink ≠ 0) :
    (∀ p cwd op r t', t.cwd p = some cwd → syscall e t (p, op) = .ok (r, t') → Held t p t' ∧
      ∀ n, t.held n → ∃ x, t.fs.core.node e n = some x ∧
        (t'.held n → ∃ y, t'.fs.core.node e n = some y ∧
          x.Stays (¬ op.writesTo e t p (t.fs.core.inode cwd).inum n) y) ∧
        (¬ t'.held n → x.d.nlink ≠ 0 → t'.fs.core.node e n = some x) ∧
        (¬ t'.held n → x.d.nlink = 0 → t'.fs.core.node e n = none ∧
          ∀ sp b, Refers e t.fs.core (n, sp) b → t'.fs.core.used b = false)) ∧
    ∀ a, step e t a ≠ .error (.fs (.panic "freeing free block")) := by
  have hg : Good e True True t := Path.good h (.boot h0 hw hr fun _ => hl)
  have hty : Benign (.panic "ilock: no type") := by unfold Benign; decide
  have hq : True → Fs.Quiet e Benign t.held t.fs.core := fun _ => .inl hty
  refine ⟨fun p cwd op r t' hp hs => ?_, fun a ha => ?_⟩
  · obtain ⟨hg', hturn⟩ := (syscall_good hg hq).1 r t' hs
    obtain ⟨cwd', hp', hturn⟩ := hturn trivial
    rw [hp] at hp'
    cases hp'
    refine ⟨hturn.held, fun n hn => ?_⟩
    obtain ⟨o, heff, hdoes, hkeep⟩ := hturn.effect
    obtain ⟨x, hx⟩ := ne_none_iff_exists'.mp (hg.alive trivial n hn)
    -- a call that lets the inode go makes no edit
    have hidle : ¬ t'.held n → Idle e (fun n => t.held n ∧ t'.held n) t.fs.core t'.fs.core := by
      intro hn'
      cases o with
      | some x => exact absurd (hkeep (.inl (some_ne_none x)) n hn) hn'
      | none =>
        cases heff with
        | idle hi => exact hi
    refine ⟨x, hx, fun hn' => ?_, fun hn' hlink => ?_, fun hn' hlink => ?_⟩
    · obtain ⟨y, hy, hst⟩ := heff.kept ⟨hn, hn'⟩ hx
      exact ⟨y, hy, hst.type, fun hwr => hst.content fun z hz hzn => hwr ((hz ▸ hdoes).writes hzn)⟩
    · rcases (hidle hn').nodes n with h1 | ⟨-, -, y, hy, hly⟩
      · exact h1.trans hx
      · rw [hx] at hy
        cases hy
        exact absurd hly hlink
    · have hfree : t'.fs.core.node e n = none := by
        rcases (hidle hn').nodes n with h1 | ⟨h1, -⟩
        · rcases (hg'.ctx trivial).orphan trivial (h1.trans hx) hlink with ⟨i, hi, hin⟩ | ⟨i, hi⟩
          · exact absurd ⟨i, Int.lt_toNat.mp hi, hin⟩ hn'
          · cases hi
        · exact h1
      exact ⟨hfree, fun sp b => freed_blocks (hg.ctx trivial).inv (hg'.ctx trivial).inv (hidle hn') hfree⟩
  · exact (syscall_good hg hq).2 _ (step_error.mp ha) trivial rfl

/-- what is known of a result. -/
def okWith (P : Int → State → Bool) : Except Halt (Int × State) → Bool
  | .ok (r, s) => P r s
  | .error _ => false

lemma okWith_true {P : Int → State → Bool} {y : Except Halt (Int × State)} (h : okWith P y = true) :
    ∃ r s, y = .ok (r, s) ∧ P r s = true := by
  cases y with
  | ok a => exact ⟨a.1, a.2, rfl, h⟩
  | error => cases h

/-- "/x" is open and has no name any more, another file was made and written; the inode of "/x" goes
when it is closed. -/
theorem open_file_outlives_name_x : ∃ tr t t', Path (step mkfsEnv) (State.boot (mkfs 0)) tr t ∧ tr.length = 4 ∧
    syscall mkfsEnv t (initproc, .close 0) = .ok (0, t') ∧ t.held 2 ∧ t.fs.core.node mkfsEnv 2 ≠ none ∧
    t'.fs.core.node mkfsEnv 2 = none := by
  obtain ⟨tr, t, h, hlen, hf, hi, hlink, hp, hlast⟩ : ∃ tr t, Path (step mkfsEnv) (State.boot (mkfs 0)) tr t ∧
      tr.length = 4 ∧ (t.file f0).inode = some slot1 ∧ (t.fs.core.inode slot1).inum = 2 ∧
      (t.fs.core.dinode 2).nlink = 0 ∧ t.cwd initproc = some root ∧
      okWith (fun r t' => r = 0 ∧ (∀ f, (t'.file f).inode ≠ some slot1) ∧ (∀ p, t'.cwd p ≠ some slot1) ∧
        ∀ i, (t'.fs.core.inode i).inum = 2 → i = slot1) (syscall mkfsEnv t (initproc, .close 0)) = true :=
    Path.of_labels [(initproc, .open (some pathX) rdwr), (initproc, .unlink (some pathX)),
      (initproc, .open (some pathY) rdwr), (initproc, .write 1 [7])] (by decide +kernel)
  obtain ⟨r, t', hs, ht'⟩ := okWith_true hlast
  obtain ⟨hr, hfiles, hcwds, hcache⟩ := of_decide_eq_true ht'
  have hheld : t.held 2 := ⟨slot1, State.iref_file hf, hi⟩
  have hgone : ¬ t'.held 2 := by
    rintro ⟨i, hpos, hn⟩
    have hfs : refs (fun f => (t'.file f).inode) slot1 = 0 := refs_eq_zero.mpr hfiles
    have hcs : refs t'.cwd slot1 = 0 := refs_eq_zero.mpr hcwds
    rw [hcache i hn] at hpos
    unfold State.iref at hpos
    omega
  obtain ⟨x, hx, -, -, hfree⟩ := ((open_file_outlives_name h (mkfs_owned 0) (mkfs_whole (by decide)) mkfs_root
    mkfs_linked).1 initproc root _ r t' hp hs).2 2 hheld
  refine ⟨tr, t, t', h, hlen, hr ▸ hs, hheld, by rw [hx]; exact some_ne_none x, (hfree hgone ?_).1⟩
  rw [← dinode_of_node hx]
  exact hlink

end Xv6.Sys
