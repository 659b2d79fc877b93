import Xv6.Sys.Machine
import Xv6.Fs.Walk
import Xv6.Lib.Refs
import Mathlib.Data.Fintype.Prod

/-!
# The file table

`Tab d U s`: the count of an entry is the number of its descriptors, and `d` more, which are in the
hands of the call that runs; an entry has a type when it is in use, but for those in `U`, which are
new. `Books s`: what an entry stands for was taken once more than it was given back; a pipe is there
as long as one of its ends, and each end is one entry.

The lemmas follow the functions of `file.c` and `pipe.c`. A function of the file system may do
anything with its own state, unless `J` holds: then it is followed by `Xv6.Fs.Runs`.
-/

namespace Xv6.Sys
open Lib Fs Function List Option

/-- the number of descriptors of the entry `f`. -/
def State.slots (s : State) (f : Fp) : Int := refs s.ofile f

structure Counts (d : Fp → Int) (U : List Fp) (s : State) : Prop where
  refs : ∀ f, (s.file f).ref = s.slots f + d f
  type_iff : ∀ f, (s.file f).type = .FD_NONE ↔ (s.file f).ref = 0 ∨ f ∈ U

structure Tab (d : Fp → Int) (U : List Fp) (s : State) : Prop extends Counts d U s where
  gone : ∀ p fd, s.cwd p = none → s.ofile (p, fd) = none

/-- the entry is the end of the pipe in the page `k`, the one for writing if `w`. -/
structure File.IsEnd (x : File) (k : Nat) (w : Bool) : Prop where
  type : x.type = .FD_PIPE
  pipe : x.pipe = k
  writable : x.writable = w

def PipeEnds.isOpen (x : PipeEnds) : Bool → Bool
  | true => x.writeopen
  | false => x.readopen

structure Books (s : State) : Prop where
  opens : ∀ k w, (∃ x, s.page k = some x ∧ x.isOpen w = true) ↔ ∃ f, (s.file f).IsEnd k w
  one : ∀ f g k w, (s.file f).IsEnd k w → (s.file g).IsEnd k w → f = g
  any : ∀ k x, s.page k = some x → ∃ w, x.isOpen w = true
  took : ∀ f, s.did.count (.take f) = s.did.count (.drop f) + if (s.file f).type = .FD_NONE then 0 else 1
  pages : ∀ k, s.did.count (.kalloc k) = s.did.count (.kfree k) + if (s.page k).isSome then 1 else 0

/-- one more, or one less, in the hands of the call. -/
def bump (d : Fp → Int) (f : Fp) (k : Int) : Fp → Int := fun g => d g + if g = f then k else 0

section
variable (d : Fp → Int) {U' : List Fp}

lemma bump_self (f : Fp) (k : Int) : bump d f k f = d f + k := by
  unfold bump
  rw [if_pos rfl]

lemma bump_of_ne {f g : Fp} (k : Int) (h : g ≠ f) : bump d f k g = d g := by
  unfold bump
  rw [if_neg h, Int.add_zero]

lemma bump_bump (f : Fp) (k l : Int) : bump (bump d f k) f l = bump d f (k + l) := by
  funext g
  by_cases hg : g = f
  · rw [hg, bump_self, bump_self, bump_self, Int.add_assoc]
  · rw [bump_of_ne _ _ hg, bump_of_ne _ _ hg, bump_of_ne _ _ hg]

lemma bump_comm (f g : Fp) (k l : Int) : bump (bump d f k) g l = bump (bump d g l) f k := by
  funext h
  unfold bump
  omega

lemma bump_back (f : Fp) {k l : Int} (h : k + l = 0) : bump (bump d f k) f l = d := by
  rw [bump_bump, h]
  funext g
  unfold bump
  split <;> exact Int.add_zero _

end

variable {e : Env} {J : Prop} {E : Stop → Prop} {d d' : Fp → Int} {U : List Fp} {s s' : State}
  {f : Fp} {p : Slot} {fd : Fd} {o : Option Fp} {x : File}

/-! ## entries and descriptors -/

lemma State.setFile_self (s : State) (f : Fp) (x : File) : (s.setFile f x).file f = x :=
  update_self _ _ _

lemma State.setFile_of_ne (s : State) {f g : Fp} (x : File) (h : g ≠ f) :
    (s.setFile f x).file g = s.file g := update_of_ne h _ _

lemma State.slots_setFd (s : State) (p : Slot) (fd : Fd) (o : Option Fp) (f : Fp) :
    (s.setFd p fd o).slots f = s.slots f - hit f (s.ofile (p, fd)) + hit f o :=
  refs_update s.ofile (p, fd) o f

lemma State.slots_pos (h : s.ofile (p, fd) = some f) : 0 < s.slots f := refs_pos.mpr ⟨_, h⟩

lemma State.unused_some (h : s.unused = some f) : (s.file f).ref = 0 := by
  have := List.find?_some h
  simpa using this

lemma State.freeFd_some (h : s.freeFd p = some fd) : s.ofile (p, fd) = none := by
  have := List.find?_some h
  simpa using this

lemma State.argfd_some {k : Int} (h : s.argfd p k = some (fd, f)) : s.ofile (p, fd) = some f := by
  unfold State.argfd at h
  split at h
  · split at h
    · obtain ⟨g, hg, hgf⟩ := map_eq_some_iff.mp h
      cases hgf
      exact hg
    · cases h
  · cases h

lemma Counts.setFile (h : Counts d U s) (hx : x.ref = s.slots f + d' f)
    (hd : ∀ g, g ≠ f → d' g = d g) (ht : x.type = .FD_NONE ↔ x.ref = 0 ∨ f ∈ U')
    (hU : ∀ g, g ≠ f → (g ∈ U' ↔ g ∈ U)) : Counts d' U' (s.setFile f x) := by
  refine ⟨fun g => ?_, fun g => ?_⟩
  · by_cases hg : g = f
    · rw [hg, s.setFile_self]
      exact hx
    · rw [s.setFile_of_ne x hg, hd g hg]
      exact h.refs g
  · by_cases hg : g = f
    · rw [hg, s.setFile_self]
      exact ht
    · rw [s.setFile_of_ne x hg, hU g hg]
      exact h.type_iff g

lemma Counts.setFd (h : Counts d U s) (hd : ∀ g, d' g = d g + hit g (s.ofile (p, fd)) - hit g o) :
    Counts d' U (s.setFd p fd o) := by
  refine ⟨fun g => ?_, h.type_iff⟩
  show (s.file g).ref = _
  rw [s.slots_setFd, hd g, h.refs g]
  omega

lemma Counts.place (h : Counts d U s) (hfd : s.ofile (p, fd) = none) :
    Counts (bump d f (-1)) U (s.setFd p fd (some f)) := by
  refine h.setFd fun g => ?_
  rw [hfd, hit_none, hit_some]
  unfold bump
  split <;> omega

namespace Tab

lemma setFile (h : Tab d U s) (hx : x.ref = s.slots f + d' f) (hd : ∀ g, g ≠ f → d' g = d g)
    (ht : x.type = .FD_NONE ↔ x.ref = 0 ∨ f ∈ U') (hU : ∀ g, g ≠ f → (g ∈ U' ↔ g ∈ U)) : Tab d' U' (s.setFile f x) :=
  ⟨h.toCounts.setFile hx hd ht hU, h.gone⟩

lemma gone_setFd (h : Tab d U s) (hp : s.cwd p ≠ none ∨ o = none) (q : Slot) (fd' : Fd)
    (hq : s.cwd q = none) : (s.setFd p fd o).ofile (q, fd') = none := by
  show update s.ofile (p, fd) o (q, fd') = none
  rw [update_apply]
  split
  · next heq =>
    cases heq
    exact hp.resolve_left fun hp => hp hq
  · exact h.gone q fd' hq

lemma drop (h : Tab d (f :: U) s) (hf : (s.file f).ref = 0) : Tab d U s := by
  refine ⟨⟨h.refs, fun g => ?_⟩, h.gone⟩
  rw [h.type_iff g, mem_cons]
  constructor
  · rintro (h0 | hg | hg)
    · exact .inl h0
    · rw [hg]
      exact .inl hf
    · exact .inr hg
  · rintro (h0 | hg)
    · exact .inl h0
    · exact .inr (.inr hg)

lemma of_eq (h : Tab d U s) (hf : s'.file = s.file) (ho : s'.ofile = s.ofile) (hc : s'.cwd = s.cwd) : Tab d U s' := by
  refine ⟨⟨fun g => ?_, fun g => ?_⟩, fun p fd hp => ?_⟩
  · unfold State.slots
    rw [hf, ho]
    exact h.refs g
  · rw [hf]
    exact h.type_iff g
  · rw [ho]
    rw [hc] at hp
    exact h.gone p fd hp

end Tab

namespace Books

lemma of_eq (h : Books s) (hf : ∀ f, (s'.file f).type = (s.file f).type ∧
      (s'.file f).pipe = (s.file f).pipe ∧ (s'.file f).writable = (s.file f).writable)
    (hp : s'.page = s.page) (hd : s'.did = s.did) : Books s' := by
  have hend : ∀ f k w, (s'.file f).IsEnd k w ↔ (s.file f).IsEnd k w := by
    intro f k w
    obtain ⟨h1, h2, h3⟩ := hf f
    exact ⟨fun ⟨a, b, c⟩ => ⟨h1 ▸ a, h2 ▸ b, h3 ▸ c⟩, fun ⟨a, b, c⟩ => ⟨h1 ▸ a, h2 ▸ b, h3 ▸ c⟩⟩
  refine ⟨fun k w => ?_, fun f g k w h1 h2 => ?_, fun k x hx => ?_, fun f => ?_, fun k => ?_⟩
  · simp only [hp, hend]
    exact h.opens k w
  · exact h.one f g k w ((hend f k w).mp h1) ((hend g k w).mp h2)
  · rw [hp] at hx
    exact h.any k x hx
  · rw [hd, (hf f).1]
    exact h.took f
  · rw [hd, hp]
    exact h.pages k

lemma frame (h : Books s) (hf : s'.file = s.file) (hp : s'.page = s.page) (hd : s'.did = s.did) : Books s' :=
  h.of_eq (fun _ => hf ▸ ⟨rfl, rfl, rfl⟩) hp hd

lemma setFile (h : Books s) (ht : x.type = (s.file f).type) (hp : x.pipe = (s.file f).pipe)
    (hw : x.writable = (s.file f).writable) : Books (s.setFile f x) := by
  refine h.of_eq (fun g => ?_) rfl rfl
  by_cases hg : g = f
  · rw [hg, s.setFile_self]
    exact ⟨ht, hp, hw⟩
  · rw [s.setFile_of_ne x hg]
    exact ⟨rfl, rfl, rfl⟩

end Books

/-! ## rules -/

/-- how a call may stop: never in `filedup` or `fileclose`, or with a page that was freed. -/
def Stops (J : Prop) (E : Stop → Prop) : Halt → Prop
  | .fs x => J → E x
  | .blocked => True
  | .panic msg => msg ∉ ["filedup", "fileclose", "fileread", "filewrite"]
  | .wild => False

lemma wp_onFs {α : Type} {m : Fs.M α} {Q : α → Core → Prop} {R : α → State → Prop} (h : J → Runs E m Q s.fs.core)
    (hR : ∀ a fs, (J → Q a fs.core) → R a { s with fs := fs }) : wp (Stops J E) (onFs m) R s := by
  cases hm : m s.fs with
  | ok r =>
    have e : onFs m s = .ok (r.1, { s with fs := r.2 }) := by
      unfold onFs
      rw [hm]
    exact wp_of_ok e (hR _ _ fun hj => (h hj s.fs rfl).elim.1 _ _ hm)
  | error x =>
    have e : onFs m s = .error (.fs x) := by
      unfold onFs
      rw [hm]
    exact wp_of_error e fun hj => (h hj s.fs rfl).elim.2 _ hm

lemma wp_onFs_seq {α β : Type} {m : Fs.M α} {k : α → M β} {Q : α → Core → Prop} {R : β → State → Prop}
    (h : J → Runs E m Q s.fs.core)
    (hR : ∀ a fs, (J → Q a fs.core) → wp (Stops J E) (k a) R { s with fs := fs }) :
    wp (Stops J E) (onFs m >>= k) R s :=
  wp_seq (wp_onFs h hR) fun _ _ h' => h'

/-! ## the functions of `file.c` -/

/-- a new entry, or none. -/
def Allocated (s : State) : Option Fp → State → Prop
  | none, s' => s' = s
  | some f, s' => (s.file f).ref = 0 ∧ s' = s.setFile f { s.file f with ref := 1 }

lemma does_filealloc : wp (Stops J E) filealloc (fun o s' => s.unused = o ∧ Allocated s o s') s := by
  unfold filealloc
  apply wp_get_seq
  cases hf : s.unused with
  | none => exact wp_pure ⟨rfl, rfl⟩
  | some => exact wp_modify_seq (wp_pure ⟨rfl, State.unused_some hf, rfl⟩)

lemma Tab.alloc (h : Tab d U s) (hf : (s.file f).ref = 0) :
    Tab (bump d f 1) (f :: U) (s.setFile f { s.file f with ref := 1 }) := by
  have hr := h.refs f
  refine h.setFile ?_ (fun g hg => bump_of_ne d 1 hg) ?_ fun g hg => ?_
  · rw [bump_self]
    show (1 : Int) = _
    omega
  · exact ⟨fun _ => .inr mem_cons_self, fun _ => (h.type_iff f).mpr (.inl hf)⟩
  · rw [mem_cons]
    exact ⟨fun hm => hm.resolve_left hg, .inr⟩

lemma Books.alloc (h : Books s) : Books (s.setFile f { s.file f with ref := 1 }) :=
  h.setFile rfl rfl rfl

lemma does_filedup (hr : 1 ≤ (s.file f).ref) : wp (Stops J E) (filedup f)
    (fun _ s' => s' = s.setFile f { s.file f with ref := (s.file f).ref + 1 }) s := by
  unfold filedup
  apply wp_get_seq
  rw [if_neg (by omega)]
  exact wp_modify rfl

lemma Counts.dup (h : Counts d U s) (hf : f ∉ U) (hr : 1 ≤ (s.file f).ref) :
    Counts (bump d f 1) U (s.setFile f { s.file f with ref := (s.file f).ref + 1 }) := by
  refine h.setFile ?_ (fun g hg => bump_of_ne d 1 hg) ?_ fun g _ => Iff.rfl
  · rw [bump_self]
    show (s.file f).ref + 1 = _
    rw [h.refs f]
    omega
  · show (s.file f).type = _ ↔ (s.file f).ref + 1 = 0 ∨ f ∈ U
    rw [h.type_iff f]
    constructor
    · rintro (h0 | h0)
      · omega
      · exact absurd h0 hf
    · rintro (h0 | h0)
      · omega
      · exact absurd h0 hf

/-- the entry after `fileclose`. -/
def File.closed (x : File) : File :=
  { x with ref := x.ref - 1, type := if x.ref = 1 then .FD_NONE else x.type }

lemma Tab.closed (h : Tab d U s) (hr : 1 ≤ (s.file f).ref) :
    Tab (bump d f (-1)) U (s.setFile f (s.file f).closed) := by
  refine h.setFile ?_ (fun g hg => bump_of_ne d (-1) hg) ?_ fun g _ => Iff.rfl
  · rw [bump_self]
    show (s.file f).ref - 1 = _
    rw [h.refs f]
    omega
  · show (if (s.file f).ref = 1 then _ else _) = _ ↔ (s.file f).ref - 1 = 0 ∨ f ∈ U
    split
    · next h1 => exact ⟨fun _ => .inl (by omega), fun _ => rfl⟩
    · next h1 =>
      rw [h.type_iff f]
      constructor
      · rintro (h0 | h0)
        · omega
        · exact .inr h0
      · rintro (h0 | h0)
        · omega
        · exact .inr h0

/-! ## `fileclose` of the last descriptor -/

lemma PipeEnds.isOpen_close (x : PipeEnds) (w w' : Bool) :
    (x.close w).isOpen w' = (if w' = w then false else x.isOpen w') := by
  cases w <;> cases w' <;> rfl

lemma PipeEnds.shut {x : PipeEnds} : x.readopen = false ∧ x.writeopen = false ↔ ∀ w, x.isOpen w = false := by
  constructor
  · intro h w
    cases w with
    | true => exact h.2
    | false => exact h.1
  · intro h
    exact ⟨h false, h true⟩

lemma count_drop (l : List Event) (f g : Fp) :
    (.drop f :: l).count (.drop g) = l.count (.drop g) + if g = f then 1 else 0 := by
  by_cases hg : g = f
  · rw [hg, count_cons_self, if_pos rfl]
  · rw [count_cons_of_ne fun h => hg (Event.drop.inj h).symm, if_neg hg, Nat.add_zero]

namespace Books

variable {k : Nat} {w : Bool} {y : PipeEnds} {z : Option PipeEnds} {l : List Event}

lemma isEnd_setFile (hx : x.type = .FD_NONE) (g : Fp) (k : Nat) (w : Bool) :
    ((s.setFile f x).file g).IsEnd k w ↔ g ≠ f ∧ (s.file g).IsEnd k w := by
  by_cases hg : g = f
  · rw [hg, s.setFile_self]
    refine ⟨fun h => ?_, fun h => absurd rfl h.1⟩
    have ht := h.type
    rw [hx] at ht
    cases ht
  · rw [s.setFile_of_ne x hg]
    exact ⟨fun h => ⟨hg, h⟩, fun h => h.2⟩

lemma took_drop (h : Books s) (hf : (s.file f).type ≠ .FD_NONE) (hx : x.type = .FD_NONE)
    (ht : ∀ g, l.count (.take g) = s.did.count (.take g))
    (hd : ∀ g, l.count (.drop g) = s.did.count (.drop g) + if g = f then 1 else 0) (g : Fp) :
    l.count (.take g) = l.count (.drop g) + if ((s.setFile f x).file g).type = .FD_NONE then 0 else 1 := by
  have h0 := h.took g
  rw [ht, hd, h0]
  by_cases hg : g = f
  · rw [hg, s.setFile_self, if_neg hf, if_pos rfl, if_pos hx]
  · rw [s.setFile_of_ne x hg, if_neg hg, Nat.add_zero]

lemma closeEnd (h : Books s) (hf : (s.file f).IsEnd k w) (hx : x.type = .FD_NONE)
    (hy : s.page k = some y) (hz : z = if ∀ w', (y.close w).isOpen w' = false then none else some (y.close w))
    (hl : l = if z = none then .kfree k :: .drop f :: s.did else .drop f :: s.did) :
    Books { s.setFile f x with page := update s.page k z, did := l } := by
  have hz' : ∀ w', (∃ y', z = some y' ∧ y'.isOpen w' = true) ↔ w' ≠ w ∧ y.isOpen w' = true := by
    intro w'
    have hc := y.isOpen_close w w'
    rw [hz]
    split
    · next hall =>
      have hw' := hall w'
      refine ⟨fun ⟨_, hn, _⟩ => (by cases hn), fun ⟨hne, ho⟩ => ?_⟩
      rw [hc, if_neg hne, ho] at hw'
      cases hw'
    · constructor
      · rintro ⟨y', hy', ho⟩
        cases hy'
        rw [hc] at ho
        split at ho
        · cases ho
        · next hne => exact ⟨hne, ho⟩
      · rintro ⟨hne, ho⟩
        exact ⟨_, rfl, by rw [hc, if_neg hne]; exact ho⟩
  have hpage : ∀ k', update s.page k z k' = if k' = k then z else s.page k' :=
    fun k' => update_apply _ _ _ _
  refine ⟨fun k' w' => ?_, fun g g' k' w' hg hg' => ?_, fun k' y' hy' => ?_, ?_, fun k' => ?_⟩
  · simp only [isEnd_setFile hx, hpage]
    split
    · next hk =>
      rw [hz' w', hk]
      constructor
      · rintro ⟨hne, ho⟩
        obtain ⟨g, hg⟩ := (h.opens k w').mp ⟨y, hy, ho⟩
        refine ⟨g, fun hgf => hne ?_, hg⟩
        rw [← hg.writable, hgf, hf.writable]
      · rintro ⟨g, hgf, hg⟩
        obtain ⟨y', hy', ho⟩ := (h.opens k w').mpr ⟨g, hg⟩
        rw [hy] at hy'
        cases hy'
        refine ⟨fun hww => hgf ?_, ho⟩
        rw [hww] at hg
        exact h.one g f k w hg hf
    · next hk =>
      rw [h.opens k' w']
      refine ⟨fun ⟨g, hg⟩ => ⟨g, fun hgf => hk ?_, hg⟩, fun ⟨g, _, hg⟩ => ⟨g, hg⟩⟩
      rw [← hg.pipe, hgf, hf.pipe]
  · exact h.one g g' k' w' ((isEnd_setFile hx g k' w').mp hg).2 ((isEnd_setFile hx g' k' w').mp hg').2
  · have hy'' := hy'
    replace hy'' : (if k' = k then z else s.page k') = some y' := by rw [← hpage]; exact hy'
    split at hy''
    · rw [hz] at hy''
      split at hy''
      · cases hy''
      · next hall =>
        cases hy''
        obtain ⟨w', hw'⟩ := Classical.not_forall.mp hall
        exact ⟨w', Bool.eq_true_of_not_eq_false hw'⟩
    · exact h.any k' y' hy''
  · have hne : (s.file f).type ≠ .FD_NONE := by
      rw [hf.type]
      exact fun h => by cases h
    refine h.took_drop hne hx (fun g => ?_) fun g => ?_
    · rw [hl]
      split <;> simp
    · rw [← count_drop, hl]
      split
      · rw [count_cons_of_ne fun h => by cases h]
      · rfl
  · show l.count _ = l.count _ + if (update s.page k z k').isSome then 1 else 0
    have h0 := h.pages k'
    rw [hpage, hl]
    by_cases hk : k' = k
    · rw [hk, hy] at h0
      rw [hk, if_pos rfl]
      cases hzz : z with
      | none | some => simpa [count_cons] using h0
    · rw [if_neg hk]
      split
      · simpa [count_cons, Ne.symm hk] using h0
      · simpa [count_cons] using h0

lemma closeInode (h : Books s) (hf : (s.file f).type = .FD_INODE) (hx : x.type = .FD_NONE) :
    Books ((s.setFile f x).add (.drop f)) := by
  have hnot : ∀ k w, ¬ (s.file f).IsEnd k w := by
    intro k w hend
    have ht := hend.type
    rw [hf] at ht
    cases ht
  refine ⟨fun k w => ?_, fun g g' k w hg hg' => ?_, h.any, ?_, fun k => ?_⟩
  · show (∃ y, s.page k = some y ∧ _) ↔ ∃ g, ((s.setFile f x).file g).IsEnd k w
    simp only [isEnd_setFile hx]
    rw [h.opens k w]
    refine ⟨fun ⟨g, hg⟩ => ⟨g, fun hgf => hnot k w ?_, hg⟩, fun ⟨g, _, hg⟩ => ⟨g, hg⟩⟩
    rw [← hgf]
    exact hg
  · exact h.one g g' k w ((isEnd_setFile hx g k w).mp hg).2 ((isEnd_setFile hx g' k w).mp hg').2
  · refine h.took_drop (by rw [hf]; exact fun h => by cases h) hx (fun g => ?_) fun g => ?_
    · exact count_cons_of_ne fun h => by cases h
    · exact count_drop s.did f g
  · show (Event.drop f :: s.did).count _ = (Event.drop f :: s.did).count _ + _
    rw [count_cons_of_ne fun h => (by cases h), count_cons_of_ne fun h => (by cases h)]
    exact h.pages k

end Books

/-- **`fileclose`**: the count goes down, and what a last descriptor stood for is given back. -/
theorem does_fileclose (ht : Tab d U s) (hb : Books s) (hr : 1 ≤ (s.file f).ref) {Q : Core → Prop}
    (hfs : J → if (s.file f).ref = 1 ∧ (s.file f).type = .FD_INODE then
      Runs E (Fs.fileclose e (s.file f).ip) (fun _ c' => Q c') s.fs.core else Q s.fs.core) :
    wp (Stops J E) (fileclose e f) (fun _ s' => Tab (bump d f (-1)) U s' ∧ Books s' ∧
      (s'.file = update s.file f (s.file f).closed ∧ s'.ofile = s.ofile ∧ s'.cwd = s.cwd) ∧
      (J → Q s'.fs.core)) s := by
  have htab := ht.closed hr
  unfold fileclose
  apply wp_get_seq
  rw [if_neg (by omega)]
  by_cases h1 : (s.file f).ref = 1
  · rw [if_neg (by omega)]
    apply wp_modify_seq
    have hx : ({ s.file f with ref := 0, type := .FD_NONE } : File) = (s.file f).closed := by
      unfold File.closed
      rw [if_pos h1, h1]
      rfl
    rw [hx]
    have hnone : (s.file f).closed.type = .FD_NONE := if_pos h1
    unfold release
    cases hty : (s.file f).type with
    | FD_NONE =>
      refine wp_pure ⟨htab, hb.setFile (hnone.trans hty.symm) rfl rfl, ⟨rfl, rfl, rfl⟩, fun hj => ?_⟩
      have := hfs hj
      rw [if_neg (by rw [hty]; exact fun h => by cases h.2)] at this
      exact this
    | FD_INODE =>
      refine wp_modify_seq (wp_onFs (Q := fun _ c' => Q c') (fun hj => ?_) fun _ fs hq => ?_)
      · have := hfs hj
        rw [if_pos ⟨h1, hty⟩] at this
        exact this
      · exact ⟨htab.of_eq rfl rfl rfl, (hb.closeInode hty hnone).frame rfl rfl rfl,
          ⟨rfl, rfl, rfl⟩, hq⟩
    | FD_PIPE =>
      apply wp_modify_seq
      have hq : J → Q s.fs.core := by
        intro hj
        have := hfs hj
        rw [if_neg (by rw [hty]; exact fun h => by cases h.2)] at this
        exact this
      have hend : (s.file f).IsEnd (s.file f).pipe (s.file f).writable := ⟨hty, rfl, rfl⟩
      obtain ⟨y, hy, -⟩ := (hb.opens _ _).mpr ⟨f, hend⟩
      have hclose := hb.closeEnd hend hnone hy rfl rfl
      unfold pipeclose
      apply wp_get_seq
      have hy' : ((s.setFile f (s.file f).closed).add (.drop f)).page (s.file f).pipe = some y := hy
      rw [hy']
      dsimp only
      by_cases hshut : (y.close (s.file f).writable).readopen = false ∧
          (y.close (s.file f).writable).writeopen = false
      · rw [if_pos hshut]
        rw [if_pos (PipeEnds.shut.mp hshut), if_pos rfl] at hclose
        exact wp_modify ⟨htab.of_eq rfl rfl rfl, hclose, ⟨rfl, rfl, rfl⟩, hq⟩
      · rw [if_neg hshut]
        rw [if_neg fun h => hshut (PipeEnds.shut.mpr h), if_neg (some_ne_none _)] at hclose
        exact wp_modify ⟨htab.of_eq rfl rfl rfl, hclose, ⟨rfl, rfl, rfl⟩, hq⟩
  · rw [if_pos (by omega)]
    have hx : ({ s.file f with ref := (s.file f).ref - 1 } : File) = (s.file f).closed := by
      unfold File.closed
      rw [if_neg h1]
    apply wp_modify
    rw [hx]
    refine ⟨htab, hb.setFile (if_neg h1) rfl rfl, ⟨rfl, rfl, rfl⟩, fun hj => ?_⟩
    have := hfs hj
    rw [if_neg fun h => h1 h.1] at this
    exact this

/-! ## what happens beside the inodes -/

/-- the inode that an entry holds a reference to. -/
def File.inode (x : File) : Option Ip := if x.type = .FD_INODE then some x.ip else none

/-- the references to inodes are as before. -/
structure Aside (s s' : State) : Prop where
  cwd : s'.cwd = s.cwd
  inode : ∀ f, (s'.file f).inode = (s.file f).inode
  writable : ∀ f i, (s.file f).inode = some i → (s'.file f).writable = (s.file f).writable

lemma Aside.refl (s : State) : Aside s s := ⟨rfl, fun _ => rfl, fun _ _ _ => rfl⟩

lemma Aside.trans {s'' : State} (h : Aside s s') (h' : Aside s' s'') : Aside s s'' :=
  ⟨h'.cwd.trans h.cwd, fun f => (h'.inode f).trans (h.inode f), fun f i hi =>
    (h'.writable f i ((h.inode f).trans hi)).trans (h.writable f i hi)⟩

lemma Aside.setFd (s : State) (p : Slot) (fd : Fd) (o : Option Fp) : Aside s (s.setFd p fd o) :=
  ⟨rfl, fun _ => rfl, fun _ _ _ => rfl⟩

lemma Aside.setFile (hx : x.inode = (s.file f).inode) (hw : x.writable = (s.file f).writable) :
    Aside s (s.setFile f x) := by
  refine ⟨rfl, fun g => ?_, fun g _ _ => ?_⟩
  · by_cases hg : g = f
    · rw [hg, s.setFile_self]
      exact hx
    · rw [s.setFile_of_ne x hg]
  · by_cases hg : g = f
    · rw [hg, s.setFile_self]
      exact hw
    · rw [s.setFile_of_ne x hg]

lemma does_fileclose_aside (ht : Tab d U s) (hb : Books s) (hr : 1 ≤ (s.file f).ref)
    (hn : (s.file f).type ≠ .FD_INODE) :
    wp (Stops J E) (fileclose e f) (fun _ s' => Tab (bump d f (-1)) U s' ∧ Books s' ∧ Aside s s' ∧
      (J → s'.fs.core = s.fs.core) ∧ s'.file = update s.file f (s.file f).closed ∧ s'.ofile = s.ofile) s := by
  refine wp_mono (does_fileclose (Q := fun c => c = s.fs.core) ht hb hr fun _ => ?_)
    fun _ s' ⟨ht', hb', ⟨hf, ho, hc⟩, hfs⟩ => ⟨ht', hb', ⟨hc, fun g => ?_, fun g _ _ => ?_⟩, hfs, hf, ho⟩
  · rw [if_neg fun h => hn h.2]
  · rw [hf, update_apply]
    split
    · next hg =>
      rw [hg]
      unfold File.inode
      rw [if_neg hn, if_neg]
      intro hc
      replace hc : (if (s.file f).ref = 1 then FdType.FD_NONE else (s.file f).type) = .FD_INODE := hc
      split at hc
      · cases hc
      · exact hn hc
    · rfl
  · rw [hf, update_apply]
    split
    · next hg => rw [hg]; rfl
    · rfl

/-! ## descriptors -/

/-- the descriptor of the entry `f`, or none. -/
def Placed (p : Slot) (f : Fp) (s : State) : Option Fd → State → Prop
  | none, s' => s' = s
  | some fd, s' => s.ofile (p, fd) = none ∧ s' = s.setFd p fd (some f)

lemma does_fdalloc : wp (Stops J E) (fdalloc p f) (fun o s' => s.freeFd p = o ∧ Placed p f s o s') s := by
  unfold fdalloc
  apply wp_get_seq
  cases hf : s.freeFd p with
  | none => exact wp_pure ⟨rfl, rfl⟩
  | some => exact wp_modify_seq (wp_pure ⟨rfl, State.freeFd_some hf, rfl⟩)

lemma Tab.place (h : Tab d U s) (hp : s.cwd p ≠ none) (hfd : s.ofile (p, fd) = none) :
    Tab (bump d f (-1)) U (s.setFd p fd (some f)) :=
  ⟨h.toCounts.place hfd, h.gone_setFd (.inl hp)⟩

lemma Tab.clear (h : Tab d U s) (hfd : s.ofile (p, fd) = some f) : Tab (bump d f 1) U (s.setFd p fd none) := by
  refine ⟨h.toCounts.setFd fun g => ?_, h.gone_setFd (.inr rfl)⟩
  rw [hfd, hit_none, hit_some]
  unfold bump
  split <;> omega

lemma Books.setFd (h : Books s) : Books (s.setFd p fd o) := h.frame rfl rfl rfl

lemma Tab.used (h : Tab (fun _ => 0) [] s) (ho : s.ofile (p, fd) = some f) :
    1 ≤ (s.file f).ref ∧ (s.file f).type ≠ .FD_NONE := by
  have h1 := h.refs f
  have h2 := State.slots_pos ho
  refine ⟨by omega, fun ht => ?_⟩
  rcases (h.type_iff f).mp ht with h0 | h0
  · omega
  · cases h0

lemma does_dup (ht : Tab (fun _ => 0) [] s) (hb : Books s) (hp : s.cwd p ≠ none) (k : Int) :
    wp (Stops J E) (sysDup p k) (fun _ s' => Tab (fun _ => 0) [] s' ∧ Books s' ∧ Aside s s' ∧
      (J → s'.fs.core = s.fs.core)) s := by
  unfold sysDup
  apply wp_get_seq
  cases hk : s.argfd p k with
  | none => exact wp_pure ⟨ht, hb, .refl s, fun _ => rfl⟩
  | some a =>
    obtain ⟨fd0, f⟩ := a
    have ho := State.argfd_some hk
    refine wp_seq does_fdalloc fun r s1 ⟨_, h1⟩ => ?_
    cases r with
    | none =>
      rw [show s1 = s from h1]
      exact wp_pure ⟨ht, hb, .refl s, fun _ => rfl⟩
    | some fd =>
      obtain ⟨hfd, rfl⟩ := h1
      have ht1 := ht.place (f := f) hp hfd
      have h2 := ht1.toCounts.dup not_mem_nil (ht.used ho).1
      rw [bump_back _ f rfl] at h2
      refine wp_seq (does_filedup (ht.used ho).1) fun _ s2 hs2 => wp_pure ⟨?_, ?_, ?_, ?_⟩
      · rw [hs2]
        exact ⟨h2, ht1.gone⟩
      · rw [hs2]
        exact hb.setFd.setFile rfl rfl rfl
      · rw [hs2]
        exact (Aside.setFd s p fd _).trans (.setFile rfl rfl)
      · rw [hs2]
        exact fun _ => rfl

/-! ## pipes -/

section pipe
variable {f0 f1 : Fp} {k : Nat}

lemma State.newPipe_file (s : State) (h : f0 ≠ f1) (g : Fp) : (s.newPipe f0 f1 k).file g =
    if g = f1 then { s.file f1 with type := .FD_PIPE, readable := false, writable := true, pipe := k }
    else if g = f0 then { s.file f0 with type := .FD_PIPE, readable := true, writable := false, pipe := k }
    else s.file g := by
  show update (update s.file f0 _) f1
    { update s.file f0 _ f1 with type := _, readable := _, writable := _, pipe := _ } g = _
  rw [update_of_ne h.symm, update_apply, update_apply]
  rfl

lemma State.newPipe_isEnd (h : f0 ≠ f1) (h0 : (s.file f0).type = .FD_NONE) (h1 : (s.file f1).type = .FD_NONE)
    (g : Fp) (k' : Nat) (w : Bool) : ((s.newPipe f0 f1 k).file g).IsEnd k' w ↔
      (k' = k ∧ g = if w then f1 else f0) ∨ (s.file g).IsEnd k' w := by
  have hno : ∀ g, (s.file g).type = .FD_NONE → ¬ (s.file g).IsEnd k' w := by
    intro g hg hend
    have ht := hend.type
    rw [hg] at ht
    cases ht
  rw [s.newPipe_file h]
  split
  · next hg =>
    rw [hg]
    constructor
    · rintro ⟨-, hk, hw⟩
      rw [← hw]
      exact .inl ⟨hk.symm, rfl⟩
    · rintro (⟨hk, hw⟩ | hend)
      · cases w with
        | true => exact ⟨rfl, hk.symm, rfl⟩
        | false => exact absurd hw.symm h
      · exact absurd hend (hno f1 h1)
  · next hg1 =>
    split
    · next hg =>
      rw [hg]
      constructor
      · rintro ⟨-, hk, hw⟩
        rw [← hw]
        exact .inl ⟨hk.symm, rfl⟩
      · rintro (⟨hk, hw⟩ | hend)
        · cases w with
          | false => exact ⟨rfl, hk.symm, rfl⟩
          | true => exact absurd hw h
        · exact absurd hend (hno f0 h0)
    · next hg0 =>
      refine ⟨.inr, fun h => h.resolve_left fun ⟨_, hw⟩ => ?_⟩
      cases w with
      | true => exact hg1 hw
      | false => exact hg0 hw

lemma Books.newPipe (hb : Books s) (h : f0 ≠ f1) (h0 : (s.file f0).type = .FD_NONE)
    (h1 : (s.file f1).type = .FD_NONE) (hk : s.page k = none) : Books (s.newPipe f0 f1 k) := by
  have hend := State.newPipe_isEnd (k := k) h h0 h1
  have hold : ∀ g w, ¬ (s.file g).IsEnd k w := by
    intro g w hg
    obtain ⟨x, hx, -⟩ := (hb.opens k w).mpr ⟨g, hg⟩
    rw [hk] at hx
    cases hx
  have hpage : ∀ k', (s.newPipe f0 f1 k).page k' = if k' = k then some ⟨true, true⟩ else s.page k' :=
    fun k' => update_apply _ _ _ _
  refine ⟨fun k' w => ?_, fun g g' k' w hg hg' => ?_, fun k' x hx => ?_, fun g => ?_, fun k' => ?_⟩
  · simp only [hend, hpage]
    split
    · next hkk =>
      refine ⟨fun _ => ⟨if w then f1 else f0, .inl ⟨hkk, rfl⟩⟩, fun _ => ⟨_, rfl, ?_⟩⟩
      cases w <;> rfl
    · next hkk =>
      rw [hb.opens k' w]
      exact ⟨fun ⟨g, hg⟩ => ⟨g, .inr hg⟩, fun ⟨g, hg⟩ => ⟨g, hg.resolve_left fun h => hkk h.1⟩⟩
  · rcases (hend g k' w).mp hg with ⟨hkk, hgw⟩ | hg
    · rcases (hend g' k' w).mp hg' with ⟨-, hgw'⟩ | hg'
      · exact hgw.trans hgw'.symm
      · rw [hkk] at hg'
        exact absurd hg' (hold g' w)
    · rcases (hend g' k' w).mp hg' with ⟨hkk, -⟩ | hg'
      · rw [hkk] at hg
        exact absurd hg (hold g w)
      · exact hb.one g g' k' w hg hg'
  · rw [hpage] at hx
    split at hx
    · cases hx
      exact ⟨true, rfl⟩
    · exact hb.any k' x hx
  · have ht := hb.took g
    show (Event.take f1 :: .take f0 :: .kalloc k :: s.did).count _ = (Event.take f1 :: .take f0 ::
      .kalloc k :: s.did).count _ + _
    rw [s.newPipe_file h]
    split
    · next hg =>
      rw [hg, h1] at ht
      rw [hg]
      have hne : (Event.take f0 : Event) ≠ .take f1 := fun h' => h (Event.take.inj h')
      simp only [count_cons_self, count_cons_of_ne hne, ne_eq, reduceCtorEq, not_false_eq_true,
        count_cons_of_ne, if_false, if_true] at ht ⊢
      omega
    · next hg1 =>
      have hne1 : (Event.take f1 : Event) ≠ .take g := fun h' => hg1 (Event.take.inj h').symm
      split
      · next hg =>
        rw [hg, h0] at ht
        rw [hg] at hne1 ⊢
        simp only [count_cons_self, count_cons_of_ne hne1, ne_eq, reduceCtorEq, not_false_eq_true,
          count_cons_of_ne, if_false, if_true] at ht ⊢
        omega
      · next hg0 =>
        have hne0 : (Event.take f0 : Event) ≠ .take g := fun h' => hg0 (Event.take.inj h').symm
        simp only [count_cons_of_ne hne1, count_cons_of_ne hne0, ne_eq, reduceCtorEq,
          not_false_eq_true, count_cons_of_ne]
        exact ht
  · have hp := hb.pages k'
    show (Event.take f1 :: .take f0 :: .kalloc k :: s.did).count _ = (Event.take f1 :: .take f0 ::
      .kalloc k :: s.did).count _ + _
    rw [hpage]
    by_cases hkk : k' = k
    · rw [hkk, hk] at hp
      rw [hkk, if_pos rfl]
      simp only [count_cons_self, ne_eq, reduceCtorEq, not_false_eq_true, count_cons_of_ne,
        isSome_none, isSome_some, if_false, if_true, Bool.false_eq_true] at hp ⊢
      omega
    · have hne : (Event.kalloc k : Event) ≠ .kalloc k' := fun h' => hkk (Event.kalloc.inj h').symm
      rw [if_neg hkk]
      simp only [count_cons_of_ne hne, ne_eq, reduceCtorEq, not_false_eq_true, count_cons_of_ne]
      exact hp

lemma Tab.newPipe (ht : Tab d [f1, f0] s) (h : f0 ≠ f1) (h0 : (s.file f0).ref ≠ 0)
    (h1 : (s.file f1).ref ≠ 0) : Tab d [] (s.newPipe f0 f1 k) := by
  have hfile := s.newPipe_file (k := k) h
  refine ⟨⟨fun g => ?_, fun g => ?_⟩, ht.gone⟩
  · have hr := ht.refs g
    rw [hfile]
    split
    · next hg => rw [hg] at hr ⊢; exact hr
    · split
      · next hg => rw [hg] at hr ⊢; exact hr
      · exact hr
  · have hr := ht.type_iff g
    rw [hfile]
    split
    · next hg =>
      refine ⟨fun hn => (by cases hn), fun hn => ?_⟩
      rcases hn with hn | hn
      · exact absurd hn h1
      · cases hn
    · next hg1 =>
      split
      · next hg =>
        refine ⟨fun hn => (by cases hn), fun hn => ?_⟩
        rcases hn with hn | hn
        · exact absurd hn h0
        · cases hn
      · next hg0 =>
        rw [hr]
        refine or_congr_right ⟨fun hm => ?_, fun hm => (by cases hm)⟩
        rcases mem_cons.mp hm with hm | hm
        · exact absurd hm hg1
        · exact absurd (mem_singleton.mp hm) hg0

lemma Aside.newPipe (h : f0 ≠ f1) (h0 : (s.file f0).type = .FD_NONE)
    (h1 : (s.file f1).type = .FD_NONE) : Aside s (s.newPipe f0 f1 k) := by
  have hno : ∀ {y : File} {i : Ip}, y.type = .FD_NONE → y.inode ≠ some i := by
    intro y i hy
    unfold File.inode
    rw [hy]
    exact fun h => by cases h
  refine ⟨rfl, fun g => ?_, fun g i hi => ?_⟩
  · rw [s.newPipe_file h]
    unfold File.inode
    split
    · next hg => rw [hg, h1]; rfl
    · split
      · next hg => rw [hg, h0]; rfl
      · rfl
  · rw [s.newPipe_file h]
    split
    · next hg => rw [hg] at hi; exact absurd hi (hno h1)
    · split
      · next hg => rw [hg] at hi; exact absurd hi (hno h0)
      · rfl

lemma count_cons_bump (f : Fp) (o : List Fp) :
    (fun g => ((f :: o).count g : Int)) = bump (fun g => (o.count g : Int)) f 1 := by
  funext g
  by_cases hg : g = f
  · rw [hg, bump_self, count_cons_self]
    rfl
  · rw [bump_of_ne _ _ hg, count_cons_of_ne (Ne.symm hg)]

lemma does_pipeBad (o : List Fp) (hn : o.Nodup) : ∀ {s : State}, Tab (fun g => (o.count g : Int)) o s →
    Books s → (∀ f ∈ o, s.slots f = 0) → wp (Stops J E) (pipeBad e o) (fun r s' => r = none ∧
      Tab (fun _ => 0) [] s' ∧ Books s' ∧ Aside s s' ∧ (J → s'.fs.core = s.fs.core) ∧ s'.ofile = s.ofile) s := by
  induction o with
  | nil => exact fun ht hb _ => wp_pure ⟨rfl, ht, hb, .refl _, fun _ => rfl, rfl⟩
  | cons f o ih =>
    intro s ht hb hz
    obtain ⟨hfo, hn⟩ := nodup_cons.mp hn
    have hone : (f :: o).count f = 1 := by
      rw [count_cons_self, count_eq_zero_of_not_mem hfo]
    have hr := ht.refs f
    rw [hz f mem_cons_self, hone] at hr
    have hnone : (s.file f).type = .FD_NONE := (ht.type_iff f).mpr (.inr mem_cons_self)
    have hne : (s.file f).type ≠ .FD_INODE := by
      rw [hnone]
      exact fun h => by cases h
    refine wp_seq (does_fileclose_aside ht hb (by omega) hne) fun _ s1 ⟨ht1, hb1, ha1, hc1, hf1, ho1⟩ => ?_
    have hr1 : (s1.file f).ref = 0 := by
      rw [hf1, update_self]
      show (s.file f).ref - 1 = 0
      omega
    have ht1' : Tab (fun g => (o.count g : Int)) o s1 := by
      rw [count_cons_bump, bump_back _ f rfl] at ht1
      exact ht1.drop hr1
    refine wp_mono (ih hn ht1' hb1 fun g hg => ?_) fun r s' ⟨h1, h2, h3, h4, h5, h6⟩ =>
      ⟨h1, h2, h3, ha1.trans h4, fun hj => (h5 hj).trans (hc1 hj), h6.trans ho1⟩
    unfold State.slots
    rw [ho1]
    exact hz g (mem_cons_of_mem _ hg)

/-- the two ends are in the hands of the call, or there is no pipe. -/
def Piped (J : Prop) (s : State) : Option (Fp × Fp) → State → Prop
  | none, s' => Tab (fun _ => 0) [] s' ∧ Books s' ∧ Aside s s' ∧ (J → s'.fs.core = s.fs.core)
  | some (f0, f1), s' => f0 ≠ f1 ∧ Tab (bump (bump (fun _ => 0) f0 1) f1 1) [] s' ∧ Books s' ∧
      Aside s s' ∧ (J → s'.fs.core = s.fs.core) ∧ (s'.file f0).type = .FD_PIPE ∧ (s'.file f1).type = .FD_PIPE

lemma does_pipealloc (ht : Tab (fun _ => 0) [] s) (hb : Books s) (page : Option Nat) :
    wp (Stops J E) (pipealloc e page) (Piped J s) s := by
  have bad : ∀ {o : List Fp} {s1 : State}, o.Nodup → Tab (fun g => (o.count g : Int)) o s1 → Books s1 →
      Aside s s1 → s1.fs = s.fs → s1.ofile = s.ofile → (∀ f ∈ o, s.slots f = 0) →
      wp (Stops J E) (pipeBad e o) (Piped J s) s1 := by
    intro o s1 hn ht1 hb1 ha1 hc1 ho1 hz
    refine wp_mono (does_pipeBad o hn ht1 hb1 fun f hf => ?_) fun r s' ⟨h1, h2, h3, h4, h5, _⟩ => ?_
    · unfold State.slots
      rw [ho1]
      exact hz f hf
    · rw [h1]
      rw [hc1] at h5
      exact ⟨h2, h3, ha1.trans h4, h5⟩
  unfold pipealloc
  refine wp_seq does_filealloc fun r s1 ⟨_, h₁⟩ => ?_
  cases r with
  | none =>
    rw [show s1 = s from h₁]
    exact bad nodup_nil ht hb (.refl s) rfl rfl fun _ hf => by cases hf
  | some f0 =>
    obtain ⟨hr0, rfl⟩ := h₁
    have hz0 : s.slots f0 = 0 := by
      have := ht.refs f0
      omega
    have ht1 := ht.alloc hr0
    have ha1 : Aside s (s.setFile f0 { s.file f0 with ref := 1 }) := .setFile rfl rfl
    refine wp_seq does_filealloc fun r s2 ⟨_, h₂⟩ => ?_
    cases r with
    | none =>
      rw [show s2 = _ from h₂]
      refine bad (nodup_singleton f0) (by rw [count_cons_bump]; exact ht1) hb.alloc ha1 rfl
        rfl fun f hf => ?_
      rw [mem_singleton.mp hf]
      exact hz0
    | some f1 =>
      obtain ⟨hr1, rfl⟩ := h₂
      have hne : f0 ≠ f1 := by
        intro h
        rw [← h, State.setFile_self] at hr1
        cases hr1
      have hz1 : s.slots f1 = 0 := by
        have := ht.refs f1
        rw [s.setFile_of_ne _ hne.symm] at hr1
        omega
      have ht2 := ht1.alloc hr1
      generalize hs2 : (s.setFile f0 { s.file f0 with ref := 1 }).setFile f1
        { (s.setFile f0 { s.file f0 with ref := 1 }).file f1 with ref := 1 } = s2 at ht2
      have hb2 : Books s2 := by
        rw [← hs2]
        exact hb.alloc.alloc
      have ha2 : Aside s s2 := by
        rw [← hs2]
        exact ha1.trans (.setFile rfl rfl)
      have hc2 : s2.fs = s.fs := by rw [← hs2]; rfl
      have ho2 : s2.ofile = s.ofile := by rw [← hs2]; rfl
      cases page with
      | none =>
        have ht2' : Tab (fun g => ([f0, f1].count g : Int)) [f0, f1] s2 := by
          rw [count_cons_bump, count_cons_bump, bump_comm]
          exact ⟨⟨ht2.refs, fun g =>
            (ht2.type_iff g).trans (or_congr_right (List.Perm.swap f0 f1 []).mem_iff)⟩, ht2.gone⟩
        refine bad ?_ ht2' hb2 ha2 hc2 ho2 fun f hf => ?_
        · simpa using hne
        · rcases mem_cons.mp hf with hf | hf
          · rw [hf]; exact hz0
          · rw [mem_singleton.mp hf]; exact hz1
      | some k =>
        apply wp_get_seq
        cases hk : s2.page k with
        | some => exact wp_throw trivial
        | none =>
          have h0 : (s2.file f0).type = .FD_NONE :=
            (ht2.type_iff f0).mpr (.inr (mem_cons_of_mem _ mem_cons_self))
          have h1 : (s2.file f1).type = .FD_NONE := (ht2.type_iff f1).mpr (.inr mem_cons_self)
          have hpos : ∀ f, s.slots f = 0 → bump (bump (fun _ => 0) f0 1) f1 1 f = 1 → (s2.file f).ref ≠ 0 := by
            intro f hz hd
            have h3 : s2.slots f = 0 := by
              unfold State.slots
              rw [ho2]
              exact hz
            rw [ht2.refs f, h3, hd]
            decide
          have hd0 : bump (bump (fun _ => 0) f0 1) f1 1 f0 = 1 := by
            rw [bump_of_ne _ _ hne, bump_self]
            rfl
          have hd1 : bump (bump (fun _ => 0) f0 1) f1 1 f1 = 1 := by
            rw [bump_self, bump_of_ne _ _ hne.symm]
            rfl
          refine wp_modify_seq (wp_pure ⟨hne, ht2.newPipe hne (hpos f0 hz0 hd0) (hpos f1 hz1 hd1),
            hb2.newPipe hne h0 h1 hk, ha2.trans (.newPipe hne h0 h1), fun _ => congrArg Fs.State.core hc2, ?_, ?_⟩)
          · rw [s2.newPipe_file hne, if_neg hne, if_pos rfl]
          · rw [s2.newPipe_file hne, if_pos rfl]

lemma does_pipe (ht : Tab (fun _ => 0) [] s) (hb : Books s) (hp : s.cwd p ≠ none) (page : Option Nat) :
    wp (Stops J E) (sysPipe e p page)
      (fun _ s' => Tab (fun _ => 0) [] s' ∧ Books s' ∧ Aside s s' ∧ (J → s'.fs.core = s.fs.core)) s := by
  have hinode : ∀ {t : FdType}, t = .FD_PIPE → t ≠ .FD_INODE := by
    intro t h
    rw [h]
    exact fun h => by cases h
  unfold sysPipe
  refine wp_seq (does_pipealloc ht hb page) fun r s1 h₁ => ?_
  rcases r with _ | ⟨rf, wf⟩
  · exact wp_pure h₁
  obtain ⟨hne, ht1, hb1, ha1, hc1, hrf, hwf⟩ := h₁
  have hp1 : s1.cwd p ≠ none := by
    rw [ha1.cwd]
    exact hp
  -- both ends are closed
  have close : ∀ {s2 : State}, Tab (bump (bump (fun _ => 0) rf 1) wf 1) [] s2 → Books s2 → Aside s s2 →
      s2.fs = s1.fs → s2.file = s1.file → wp (Stops J E) (do
        fileclose e rf
        fileclose e wf
        pure (-1 : Int)) (fun _ s' => Tab (fun _ => 0) [] s' ∧ Books s' ∧ Aside s s' ∧
          (J → s'.fs.core = s.fs.core)) s2 := by
    intro s2 ht2 hb2 ha2 hc2 hf2
    have hr : ∀ f, bump (bump (fun _ => 0) rf 1) wf 1 f = 1 → 1 ≤ (s2.file f).ref := by
      intro f hf
      have h1 := ht2.refs f
      have h2 := refs_nonneg s2.ofile f
      unfold State.slots at h1
      omega
    refine wp_seq (does_fileclose_aside ht2 hb2 (hr rf ?_) (by rw [hf2]; exact hinode hrf))
      fun _ s3 ⟨ht3, hb3, ha3, hc3, hf3, _⟩ => ?_
    · rw [bump_of_ne _ _ hne, bump_self]
      rfl
    have hw3 : s3.file wf = s2.file wf := by rw [hf3, update_of_ne hne.symm]
    rw [bump_comm, bump_back _ rf rfl] at ht3
    refine wp_seq (does_fileclose_aside ht3 hb3 ?_ ?_) fun _ s4 ⟨ht4, hb4, ha4, hc4, _⟩ => ?_
    · rw [hw3]
      apply hr wf
      rw [bump_self, bump_of_ne _ _ hne.symm]
      rfl
    · rw [hw3, hf2]
      exact hinode hwf
    · rw [bump_back _ wf rfl] at ht4
      refine wp_pure ⟨ht4, hb4, (ha2.trans ha3).trans ha4, fun hj => ?_⟩
      rw [hc4 hj, hc3 hj, hc2, hc1 hj]
  refine wp_seq does_fdalloc fun r s2 ⟨_, h₂⟩ => ?_
  cases r with
  | none =>
    rw [show s2 = s1 from h₂]
    exact close ht1 hb1 ha1 rfl rfl
  | some fd0 =>
    obtain ⟨hfd0, rfl⟩ := h₂
    have ht2 := ht1.place (f := rf) hp1 hfd0
    have ha2 : Aside s (s1.setFd p fd0 (some rf)) := ha1.trans (.setFd ..)
    refine wp_seq does_fdalloc fun r s3 ⟨_, h3⟩ => ?_
    cases r with
    | none =>
      rw [show s3 = _ from h3]
      have hset : (s1.setFd p fd0 (some rf)).ofile (p, fd0) = some rf := update_self _ _ _
      have ht4 := ht2.clear hset
      rw [bump_back _ rf rfl] at ht4
      exact wp_modify_seq (close ht4 hb1.setFd.setFd (ha2.trans (.setFd ..)) rfl rfl)
    | some =>
      obtain ⟨hfd1, rfl⟩ := h3
      have ht3 := ht2.place (f := wf) hp1 hfd1
      rw [bump_comm _ wf rf, bump_back _ rf rfl, bump_back _ wf rfl] at ht3
      exact wp_pure ⟨ht3, hb1.setFd.setFd, ha2.trans (.setFd ..), hc1⟩

end pipe

end Xv6.Sys
