import Xv6.Mkfs.ReadBack
import Xv6.Fs.Names

/-!
# The image that `main` writes

`WellFormed` is what the kernel expects of an image: no inode has a hole, the blocks in use have one place each, the
bitmap marks them, and link counts count the entries of the root directory. `main` reaches its end for all inputs that
fit (`wp_main`), and what it leaves is well formed unless

* the entries of the root directory fill its blocks: `((off/BSIZE) + 1) * BSIZE` then adds a block that is not there;
* an input is called `.` (or `_.`): its entry is not counted.
-/

namespace Xv6.Mkfs
open Lib Fs Function List

/-! ## what a good image is -/

/-- the entries of the root directory. -/
def Image.entries (im : Image) : List (List UInt8) :=
  (offsets 0 (im.dinode ROOTINO).size).map fun off =>
    (range DESIZE).map fun k => ((im.dinode ROOTINO).node im.data).bytes (off + k)

/-- the number of these that name the inode `n`, but for `.`. -/
def Image.links (im : Image) (n : Nat) : Nat :=
  im.entries.countP fun de => decide (deInum de = n ∧ namecmp dot (deName de) ≠ 0)

structure WellFormed (im : Image) : Prop where
  full : ∀ n bn, (im.dinode n).type ≠ 0 → bn * BSIZE < (im.dinode n).size → (im.dinode n).blockOf im.data bn ≠ 0
  inside : ∀ n x, (im.dinode n).type ≠ 0 → (im.dinode n).block im.data x ≠ 0 →
    nmeta ≤ (im.dinode n).block im.data x ∧ (im.dinode n).block im.data x < im.freeblock
  distinct : ∀ n x m y, (im.dinode n).type ≠ 0 → (im.dinode m).type ≠ 0 → (im.dinode n).block im.data x ≠ 0 →
    (im.dinode n).block im.data x = (im.dinode m).block im.data y → n = m ∧ x = y
  bitmap : ∀ b, b < nbitmap * (BSIZE * 8) → (im.used b = true ↔ b < im.freeblock)
  nlink : ∀ n, (im.dinode n).type ≠ 0 → (im.dinode n).nlink = im.links n

/-! ## the loop over the files -/

variable {im im' : Image} {E : Exit → Prop} {l : List UInt8} {fs : List (Int × List UInt8)} {files : List Input}
variable {n : Nat} {files : List Input} {de t : List UInt8}

/-- the file that an input becomes. -/
def Input.file (f : Input) : Int × List UInt8 := (T_FILE, f.reads.flatten)

/-- the entries of these inputs; the first one gets the inode `n`. -/
def entriesOf : Nat → List Input → List (List UInt8)
  | _, [] => []
  | n, f :: files => dirent n (skipUnderscore f.name) :: entriesOf (n + 1) files

lemma length_entriesOf (n : Nat) (files : List Input) : (entriesOf n files).length = files.length := by
  induction files generalizing n with
  | nil => rfl
  | cons f files ih => exact congrArg (· + 1) (ih (n + 1))

lemma mem_entriesOf (h : de ∈ entriesOf n files) : de.length = DESIZE := by
  induction files generalizing n with
  | nil => cases h
  | cons f files ih =>
    rcases mem_cons.mp h with rfl | h
    · exact length_dirent _ _
    · exact ih h

/-- the inputs fit: their names and sizes. -/
def Input.Ok (f : Input) : Prop := slash ∉ f.name ∧ f.reads.flatten.length ≤ MAXFILE * BSIZE

lemma wp_addFile {f : Input} (hg : Good im ((T_DIR, l) :: fs)) (hf : f.Ok) (hn : fs.length + 2 < NINODES)
    (hl : l.length + DESIZE ≤ MAXFILE * BSIZE)
    (hroom : im.freeblock + need (l.length + DESIZE) + need f.reads.flatten.length ≤ FSSIZE + need l.length) :
    wp E (addFile ROOTINO f) (fun _ im' =>
      Good im' ((T_DIR, l ++ dirent (fs.length + 2) (skipUnderscore f.name)) :: (fs ++ [f.file])) ∧
      im'.freeblock + need l.length = im.freeblock + need (l.length + DESIZE) + need f.reads.flatten.length) im := by
  have hlen : (l ++ dirent (fs.length + 2) (skipUnderscore f.name)).length = l.length + DESIZE := by
    rw [length_append, length_dirent]
  have h0 : need ([] : List UInt8).length = 0 := by simp [need]
  unfold addFile
  rw [if_neg hf.1]
  apply wp_seq (wp_ialloc hg (.inr rfl) hn)
  rintro n im1 ⟨rfl, hg1, hfree1⟩
  have ht : ((T_DIR, l) :: fs ++ [(T_FILE, [])])[0]? = some (T_DIR, l) := rfl
  refine wp_seq (wp_iappend (p := dirent (fs.length + 2) (skipUnderscore f.name)) hg1 ht (.inr ?_) (.inr ?_)) ?_
  · rw [hlen]
    exact hl
  · rw [hlen, hfree1]
    omega
  rintro _ im2 ⟨hg2, hfree2⟩
  rw [hlen, hfree1] at hfree2
  have hg2 : Good im2 (((T_DIR, l ++ dirent (fs.length + 2) (skipUnderscore f.name)) :: fs) ++ [(T_FILE, [])]) := hg2
  have hchunks := @wp_chunks T_FILE E _ f.reads im2 [] hg2 hf.2 (by rw [h0, nil_append]; omega)
  apply wp_mono hchunks
  rintro _ im3 ⟨hg3, hfree3⟩
  rw [h0, nil_append] at hfree3
  exact ⟨hg3, by omega⟩

/-- **The loop of `main`**: one inode and one entry of the root directory for each input. -/
theorem wp_files (files : List Input) : ∀ {im : Image} {l : List UInt8} {fs : List (Int × List UInt8)},
    Good im ((T_DIR, l) :: fs) → (∀ f ∈ files, f.Ok) → fs.length + 1 + files.length < NINODES →
    l.length + DESIZE * files.length ≤ MAXFILE * BSIZE →
    im.freeblock + need (l.length + DESIZE * files.length) + needs (files.map Input.file) ≤ FSSIZE + need l.length →
    wp E (files.forM (addFile ROOTINO)) (fun _ im' =>
      Good im' ((T_DIR, l ++ (entriesOf (fs.length + 2) files).flatten) :: (fs ++ files.map Input.file))) im := by
  induction files with
  | nil =>
    intro im l fs hg _ _ _ _
    show Good im ((T_DIR, l ++ []) :: (fs ++ []))
    rw [append_nil, append_nil]
    exact hg
  | cons f files ih =>
    intro im l fs hg hok hn hl hroom
    rw [length_cons] at hn hl hroom
    have hneeds : needs ((f :: files).map Input.file) =
        need f.reads.flatten.length + needs (files.map Input.file) := rfl
    have hmono : need (l.length + DESIZE) ≤ need (l.length + DESIZE * (files.length + 1)) :=
      need_mono (by show l.length + 16 ≤ l.length + 16 * (files.length + 1); omega)
    rw [hneeds] at hroom
    have hlen := length_dirent (fs.length + 2) (skipUnderscore f.name)
    refine wp_seq (wp_addFile hg (hok f mem_cons_self) (by omega) ?_ (by omega)) ?_
    · show l.length + 16 ≤ MAXFILE * BSIZE
      replace hl : l.length + 16 * (files.length + 1) ≤ MAXFILE * BSIZE := hl
      omega
    rintro _ im1 ⟨hg1, hfree1⟩
    have hadd : l.length + DESIZE + DESIZE * files.length = l.length + DESIZE * (files.length + 1) := by
      show l.length + 16 + 16 * files.length = l.length + 16 * (files.length + 1)
      omega
    refine wp_mono (ih hg1 (fun f' hf' => hok f' (mem_cons_of_mem _ hf')) ?_ ?_ ?_) ?_
    · rw [length_append, length_singleton]
      omega
    · rw [length_append, hlen, hadd]
      exact hl
    · rw [length_append, hlen, hadd]
      omega
    rintro _ im2 hg2
    rw [length_append, length_singleton, append_assoc, append_assoc] at hg2
    exact hg2

/-- the entries of the root directory. -/
def rootEntries (files : List Input) : List (List UInt8) :=
  dirent ROOTINO dot :: dirent ROOTINO dotdot :: entriesOf 2 files

lemma mem_rootEntries (h : de ∈ rootEntries files) : de.length = DESIZE := by
  rcases mem_cons.mp h with rfl | h
  · exact length_dirent _ _
  · rcases mem_cons.mp h with rfl | h
    · exact length_dirent _ _
    · exact mem_entriesOf h

lemma wp_makeRoot (hg : Good im []) : wp E makeRoot (fun r im' => r = ROOTINO ∧
      Good im' [(T_DIR, dirent ROOTINO dot ++ dirent ROOTINO dotdot)]) im := by
  have hfree : im.freeblock = nmeta := hg.count
  have h0 : need ([] : List UInt8).length = 0 := by simp [need]
  unfold makeRoot
  apply wp_seq (wp_ialloc hg (.inl rfl) (by decide))
  rintro n im1 ⟨rfl, hg1, hfree1⟩
  rw [if_neg (by decide)]
  have h1 : need ([] ++ dirent ROOTINO dot).length = 1 := by decide
  have h2 : need (dirent ROOTINO dot ++ dirent ROOTINO dotdot).length = 1 := by decide
  refine wp_seq (wp_iappend (p := dirent ROOTINO dot) hg1 rfl (.inr (by decide)) (.inr ?_)) ?_
  · rw [h1, h0, hfree1, hfree]
    decide
  rintro _ im2 ⟨hg2, hfree2⟩
  rw [h1, h0, hfree1, hfree] at hfree2
  have hg2 : Good im2 [(T_DIR, dirent ROOTINO dot)] := hg2
  refine wp_seq (wp_iappend (p := dirent ROOTINO dotdot) hg2 rfl (.inr (by decide)) (.inr ?_)) ?_
  · rw [h2, show im2.freeblock = nmeta + 1 from hfree2]
    decide
  rintro _ im3 ⟨hg3, -⟩
  exact wp_pure ⟨rfl, hg3⟩

/-! ## the root inode and the bitmap -/

lemma iblock_ne_bmap (hn : n < NINODES) : iblock n ≠ bmapstart := by
  unfold iblock
  show n / 8 + 32 ≠ 58
  have hn : n < 200 := hn
  omega

/-- what `main` does after the loop. -/
structure Finished (im im' : Image) (size : Nat) : Prop where
  freeblock : im'.freeblock = im.freeblock
  data : im'.data = im.data
  dinode : im'.dinode = Function.update im.dinode ROOTINO { im.dinode ROOTINO with size := (size / BSIZE + 1) * BSIZE }
  used : ∀ b, b < BSIZE * 8 → im'.used b = decide (b < im.freeblock)

lemma wp_finish (hg : Good im ((T_DIR, l) :: fs)) :
    wp E (do fixRoot ROOTINO; let im ← get; balloc im.freeblock) (fun _ im' => Finished im im' l.length) im := by
  obtain ⟨hfile, -, hfields, -⟩ := hg.inode (t := 0) rfl
  have hn : ROOTINO < NINODES := by decide
  have hsize : (im.dinode ROOTINO).size = l.length := by rw [hfields]
  generalize hd : ({ im.dinode ROOTINO with size := (l.length / BSIZE + 1) * BSIZE } : Dinode) = d
  have hfits : Fits d := by
    have h1 := @fits_dinode im ROOTINO hn
    generalize im.dinode ROOTINO = d0 at hd h1
    rw [← hd]
    refine ⟨h1.type, h1.major, h1.minor, h1.nlink, ?_, h1.addrs⟩
    have hs : l.length ≤ 140 * 512 := hfile.small
    show (l.length / 512 + 1) * 512 < 2 ^ 32
    omega
  refine wp_seq (Q := fun _ im' => im' = im.putInode ROOTINO d) ?_ ?_
  · unfold fixRoot
    apply wp_seq (Q := fun din im' => din = im.dinode ROOTINO ∧ im' = im) (wp_rinode hn ⟨rfl, rfl⟩)
    rintro din im1 ⟨rfl, rfl⟩
    rw [hsize, hd]
    exact wp_winode hn rfl
  rintro _ im1 rfl
  apply wp_get_seq
  have hfree : (im.putInode ROOTINO d).freeblock = im.freeblock := rfl
  have hle : im.freeblock ≤ 1000 := hg.le
  unfold balloc
  rw [hfree, if_neg (by show ¬ 512 * 8 ≤ im.freeblock; omega)]
  refine wp_modify ⟨rfl, ?_, ?_, fun b hb => ?_⟩
  · rw [← @putInode_data im ROOTINO d hn]
    funext z
    unfold Image.data
    by_cases hz : z < nmeta
    · rw [if_pos hz, if_pos hz]
    · rw [if_neg hz, if_neg hz]
      exact update_of_ne (fun h => hz (by rw [h]; decide)) _ _
  · rw [hd, ← putInode_dinode hn hfits]
    funext n
    unfold Image.dinode
    split
    · next hn' =>
      show getDinode (update (im.putInode ROOTINO d).sect bmapstart _ (iblock n)) _ = _
      rw [update_of_ne (iblock_ne_bmap hn')]
    · rfl
  · have h1 : b / (BSIZE * 8) = 0 := Nat.div_eq_of_lt hb
    have h2 : b % (BSIZE * 8) = b := Nat.mod_eq_of_lt hb
    unfold Image.used
    rw [h1, h2, Nat.add_zero]
    show bitAt (update (im.putInode ROOTINO d).sect bmapstart
      (foldl setBit (fun _ => 0) (range im.freeblock)) bmapstart) b = _
    rw [update_self, bitAt_foldl _ _ (show b < 32 * 128 by omega), bitAt_zero, Bool.or_false, decide_eq_decide]
    exact mem_range

/-! ## the entries of the root directory -/

lemma strncpy_cons {c : UInt8} (hc : c ≠ 0) : strncpy (n + 1) (c :: t) = c :: strncpy n t := by
  have h1 : (c :: t).takeWhile (· ≠ 0) = c :: t.takeWhile (· ≠ 0) := by simp [hc]
  unfold strncpy
  rw [h1, take_succ_cons]
  dsimp only
  rw [length_cons, Nat.add_sub_add_right]
  rfl

lemma strncpy_stop (ht : t.headD 0 = 0) : strncpy n t = replicate n 0 := by
  have h0 : t.takeWhile (· ≠ 0) = [] := by
    cases t with
    | nil => rfl
    | cons c =>
      have hc : c = 0 := ht
      simp [hc]
  unfold strncpy
  rw [h0, take_nil]
  rfl

lemma strncmp_strncpy (n : Nat) (s t : List UInt8) : strncmp n s (strncpy n t) = strncmp n s t := by
  induction n generalizing s t with
  | zero => rfl
  | succ n ih =>
    unfold strncmp
    by_cases ht : t.headD 0 = 0
    · rw [strncpy_stop ht, ht]
      rw [if_neg (fun h => h.1 h.2), if_neg (fun h => h.1 h.2)]
      rfl
    · cases t with
      | nil => exact absurd rfl ht
      | cons c t =>
        rw [strncpy_cons (show c ≠ 0 from ht)]
        show (if s.headD 0 ≠ 0 ∧ s.headD 0 = c then strncmp n s.tail (strncpy n t) else _) = _
        rw [ih]
        rfl

lemma namecmp_dirent (s name : List UInt8) (n : Nat) : namecmp s (deName (dirent n name)) = namecmp s name :=
  strncmp_strncpy DIRSIZ s name

lemma deInum_dirent (name : List UInt8) (hn : n < 2 ^ 16) : deInum (dirent n name) = n := by
  show (UInt8.ofNat n).toNat + 256 * (UInt8.ofNat (n / 256)).toNat = n
  rw [UInt8.toNat_ofNat', UInt8.toNat_ofNat']
  omega

/-- the test of `links`. -/
def names (n : Nat) (de : List UInt8) : Bool := decide (deInum de = n ∧ namecmp dot (deName de) ≠ 0)

lemma names_dirent {m : Nat} {name : List UInt8} (hm : m < 2 ^ 16) :
    names n (dirent m name) = decide (m = n ∧ namecmp dot name ≠ 0) := by
  unfold names
  rw [deInum_dirent name hm, namecmp_dirent]

/-- what the entry of an input adds to the links of its inode. -/
def Input.link (f : Input) : Nat := if namecmp dot (skipUnderscore f.name) ≠ 0 then 1 else 0

/-- an inode has at most one entry, that of its input. -/
theorem countP_entriesOf (files : List Input) : ∀ {m n : Nat}, m + files.length ≤ 2 ^ 16 →
    (entriesOf m files).countP (names n) = (if m ≤ n then files[n - m]? else none).elim 0 Input.link := by
  induction files with
  | nil =>
    intro m n _
    rw [getElem?_nil, ite_self]
    rfl
  | cons f files ih =>
    intro m n hm
    rw [length_cons] at hm
    have hstep : (entriesOf m (f :: files)).countP (names n) = (entriesOf (m + 1) files).countP (names n) +
        if names n (dirent m (skipUnderscore f.name)) = true then 1 else 0 := countP_cons
    rw [hstep, names_dirent (by omega), ih (by omega)]
    by_cases hmn : m = n
    · have h1 : ¬ m + 1 ≤ n := by omega
      have h2 : (if decide (m = n ∧ namecmp dot (skipUnderscore f.name) ≠ 0) = true then 1 else 0) = f.link := by
        simp only [decide_eq_true_eq, hmn, true_and]
        rfl
      rw [h2, if_neg h1, if_pos (Nat.le_of_eq hmn), hmn, Nat.sub_self]
      exact Nat.zero_add f.link
    · have h2 : (if decide (m = n ∧ namecmp dot (skipUnderscore f.name) ≠ 0) = true then 1 else 0) = 0 :=
        if_neg fun h => hmn (of_decide_eq_true h).1
      rw [h2, Nat.add_zero]
      by_cases hlt : m + 1 ≤ n
      · obtain ⟨j, hj⟩ : ∃ j, n - m = j + 1 := ⟨n - m - 1, by omega⟩
        have hj' : n - (m + 1) = j := by omega
        have hle : m ≤ n := by omega
        rw [if_pos hlt, if_pos hle, hj, hj', getElem?_cons_succ]
      · have hle : ¬ m ≤ n := by omega
        rw [if_neg hlt, if_neg hle]

lemma flatten_getD (es : List (List UInt8)) : ∀ {t k : Nat}, (∀ de ∈ es, de.length = DESIZE) → k < DESIZE →
    es.flatten.getD (DESIZE * t + k) 0 = (es.getD t []).getD k 0 := by
  induction es with
  | nil =>
    intro t k _ _
    rfl
  | cons de es ih =>
    intro t k hes hk
    have hde := hes de mem_cons_self
    cases t with
    | zero =>
      rw [Nat.mul_zero, Nat.zero_add, flatten_cons, List.getD_append _ _ _ _ (by rw [hde]; exact hk)]
      rfl
    | succ t =>
      have hsub : DESIZE * (t + 1) + k - de.length = DESIZE * t + k := by
        rw [hde]
        show 16 * (t + 1) + k - 16 = 16 * t + k
        omega
      rw [flatten_cons, List.getD_append_right _ _ _ _ (by rw [hde]; show 16 ≤ 16 * (t + 1) + k; omega), hsub,
        ih (fun d hd => hes d (mem_cons_of_mem _ hd)) hk]
      rfl

/-! ## the finished image -/

lemma Good.live (hg : Good im fs) (ht : (im.dinode n).type ≠ 0) : ∃ t ty l, n = t + 1 ∧ fs[t]? = some (ty, l) := by
  have hn : ¬ (n = 0 ∨ fs.length < n) := by
    intro h
    rw [hg.free n h] at ht
    exact ht rfl
  have hlt : n - 1 < fs.length := by omega
  exact ⟨n - 1, _, _, by omega, List.getElem?_eq_getElem hlt⟩

lemma Good.byteAt_eq (hg : Good im fs) {t : Nat} {ty : Int} (ht : fs[t]? = some (ty, l)) (k : Nat) :
    (im.dinode (t + 1)).byteAt im.data k = l.getD k 0 := by
  obtain ⟨hfile, -, hfields, -⟩ := hg.inode ht
  by_cases hk : k < l.length
  · have h1 : (im.dinode (t + 1)).size = l.length := by rw [hfields]
    have h2 : ((im.dinode (t + 1)).node im.data).bytes k = (im.dinode (t + 1)).byteAt im.data k :=
      if_pos (by rw [h1]; exact hk)
    rw [← h2]
    exact hfile.bytes k hk
  · rw [hg.tail t ty l ht k (Nat.le_of_not_lt hk), getD_eq_default _ _ (Nat.le_of_not_lt hk)]

namespace Finished
variable {size n : Nat}

section
variable (h : Finished im im' size)
include h

lemma type : (im'.dinode n).type = (im.dinode n).type := by
  rw [h.dinode, update_apply]
  split
  · next e => rw [e]
  · rfl

lemma nlink : (im'.dinode n).nlink = (im.dinode n).nlink := by
  rw [h.dinode, update_apply]
  split
  · next e => rw [e]
  · rfl

lemma block (x : Spot) : (im'.dinode n).block im'.data x = (im.dinode n).block im.data x := by
  rw [h.data, h.dinode, update_apply]
  split
  · next e =>
    rw [e]
    generalize im.dinode ROOTINO = d
    cases x <;> rfl
  · rfl

lemma blockOf (bn : Nat) : (im'.dinode n).blockOf im'.data bn = (im.dinode n).blockOf im.data bn := by
  unfold Dinode.blockOf
  split
  · exact h.block _
  · rfl

lemma size_root : (im'.dinode ROOTINO).size = (size / BSIZE + 1) * BSIZE := by
  rw [h.dinode, update_self]

lemma size_file (hn : n ≠ ROOTINO) : (im'.dinode n).size = (im.dinode n).size := by
  rw [h.dinode, update_of_ne hn]

end

end Finished

section
variable {es : List (List UInt8)} {files : List Input}

/-- an entry that is not in use. -/
def noEntry : List UInt8 := replicate DESIZE 0

lemma length_flatten (hes : ∀ de ∈ es, de.length = DESIZE) : es.flatten.length = DESIZE * es.length := by
  induction es with
  | nil => rfl
  | cons de es ih =>
    rw [flatten_cons, length_append, hes de mem_cons_self, ih fun d hd => hes d (mem_cons_of_mem _ hd), length_cons]
    show 16 + 16 * es.length = 16 * (es.length + 1)
    omega

section
variable (hg : Good im ((T_DIR, es.flatten) :: fs)) (hes : ∀ de ∈ es, de.length = DESIZE)
  (h : Finished im im' es.flatten.length)
include hg hes h

/-- the kernel finds the entries that were appended, and free ones up to the end of the block. -/
theorem Finished.entries_eq : im'.entries = es ++ replicate ((es.length / 32 + 1) * 32 - es.length) noEntry := by
  have hlen := length_flatten hes
  have hroot : (im'.dinode ROOTINO).size = (es.length / 32 + 1) * 512 := by
    rw [h.size_root, hlen]
    show (16 * es.length / 512 + 1) * 512 = _
    omega
  have hbytes : ∀ j, j < (es.length / 32 + 1) * 512 →
      ((im'.dinode ROOTINO).node im'.data).bytes j = es.flatten.getD j 0 := by
    intro j hj
    have h1 : ((im'.dinode ROOTINO).node im'.data).bytes j = (im'.dinode ROOTINO).byteAt im'.data j :=
      if_pos (by rw [hroot]; exact hj)
    have h2 := hg.byteAt_eq (t := 0) rfl j
    rw [h1, ← h2]
    exact byteAt_congr (h.blockOf _) fun _ => by rw [h.data]
  unfold Image.entries offsets
  rw [hroot, map_map]
  have hcount : ((es.length / 32 + 1) * 512 - 0 + (DESIZE - 1)) / DESIZE = (es.length / 32 + 1) * 32 := by
    show ((es.length / 32 + 1) * 512 - 0 + 15) / 16 = _
    omega
  rw [hcount]
  refine ext_getElem ?_ fun t ht _ => ?_
  · rw [length_map, length_range, length_append, length_replicate]
    omega
  rw [length_map, length_range] at ht
  have hentry : ((range DESIZE).map fun k =>
      ((im'.dinode ROOTINO).node im'.data).bytes (0 + DESIZE * t + k)) =
        (range DESIZE).map fun k => (es.getD t []).getD k 0 := by
    refine map_congr_left fun k hk => ?_
    have hk : k < 16 := mem_range.mp hk
    rw [Nat.zero_add, hbytes _ (show 16 * t + k < _ by omega), flatten_getD es hes hk]
  rw [getElem_map, getElem_range]
  show ((range DESIZE).map fun k => ((im'.dinode ROOTINO).node im'.data).bytes (0 + DESIZE * t + k)) = _
  rw [hentry]
  by_cases hte : t < es.length
  · rw [getElem_append_left hte, getD_eq_getElem _ _ hte]
    have hl := hes _ (getElem_mem hte)
    refine ext_getElem (by rw [length_map, length_range, hl]) fun k hk hk' => ?_
    rw [getElem_map, getElem_range, getD_eq_getElem _ _ hk']
  · rw [getElem_append_right (Nat.le_of_not_lt hte), getElem_replicate,
      getD_eq_default _ _ (Nat.le_of_not_lt hte)]
    rfl

lemma Finished.links_eq {n : Nat} (hn : 0 < n) : im'.links n = es.countP (names n) := by
  have hno : names n noEntry = false := decide_eq_false fun hc => Nat.ne_of_gt hn hc.1.symm
  unfold Image.links
  rw [h.entries_eq hg hes]
  show (es ++ replicate _ noEntry).countP (names n) = _
  rw [countP_append, countP_replicate, hno]
  rfl

end

lemma Good.places (hg : Good im fs) {n : Nat} {x : Spot} (ht : (im.dinode n).type ≠ 0)
    (hb : (im.dinode n).block im.data x ≠ 0) :
    own layout im.dinode im.data (.inode n x) = some ((im.dinode n).block im.data x) ∧
      nmeta ≤ (im.dinode n).block im.data x ∧ (im.dinode n).block im.data x < im.freeblock := by
  obtain ⟨t, ty, l, rfl, hf⟩ := hg.live ht
  obtain ⟨-, hn, -, -⟩ := hg.inode hf
  have hown : own layout im.dinode im.data (.inode (t + 1) x) = some ((im.dinode (t + 1)).block im.data x) := by
    rw [own_live hn ht]
    exact nz_eq_some.mpr ⟨rfl, hb⟩
  have hinv : Sound layout im.view.dinode im.view := hg.inv
  exact ⟨hown, (hinv.inside hown).1, of_decide_eq_true (hinv.owns.used_of hown)⟩

/-- the root directory has a hole exactly if its entries fill whole blocks. -/
theorem Finished.full_iff (hg : Good im ((T_DIR, es.flatten) :: fs)) (hes : ∀ de ∈ es, de.length = DESIZE)
    (h : Finished im im' es.flatten.length) :
    (∀ n bn, (im'.dinode n).type ≠ 0 → bn * BSIZE < (im'.dinode n).size → (im'.dinode n).blockOf im'.data bn ≠ 0) ↔
      es.length % 32 ≠ 0 := by
  have hlen : es.flatten.length = 16 * es.length := length_flatten hes
  obtain ⟨hroot, -, hfields, -⟩ := hg.inode (t := 0) rfl
  have htype : (im.dinode ROOTINO).type ≠ 0 := by
    have h1 : (im.dinode ROOTINO).type = T_DIR := by rw [hfields]
    rw [h1]
    decide
  constructor
  · intro hfull h0
    -- the block behind the last one
    have hne := hfull ROOTINO (es.length / 32) (by rw [h.type]; exact htype) (by
      rw [h.size_root, hlen]
      show es.length / 32 * 512 < (16 * es.length / 512 + 1) * 512
      omega)
    rw [h.blockOf] at hne
    have hlt := lt_of_blockOf hne
    rw [blockOf_lt hlt] at hne
    have hspot := (hroot.spots ⟨es.length / 32, hlt⟩).mp hne
    rw [hlen] at hspot
    have hspot : es.length / 32 * 512 < 16 * es.length := hspot
    omega
  · intro hmod n bn ht hs
    rw [h.type] at ht
    obtain ⟨t, ty, l, rfl, hf⟩ := hg.live ht
    obtain ⟨hfile, -, hfields', -⟩ := hg.inode hf
    have hbn : bn * BSIZE < l.length := by
      show bn * 512 < l.length
      cases t with
      | zero =>
        cases hf
        rw [h.size_root, hlen] at hs
        have hs : bn * 512 < (16 * es.length / 512 + 1) * 512 := hs
        rw [hlen]
        omega
      | succ t =>
        rw [h.size_file (show t + 1 + 1 ≠ 1 by omega), hfields'] at hs
        exact hs
    have hsmall : l.length ≤ 140 * 512 := hfile.small
    have hlt : bn < MAXFILE := by
      have hbn : bn * 512 < l.length := hbn
      show bn < 140
      omega
    rw [h.blockOf, blockOf_lt hlt]
    exact (hfile.spots ⟨bn, hlt⟩).mpr hbn

section
variable (hg : Good im ((T_DIR, (rootEntries files).flatten) :: files.map Input.file))
include hg

section
variable (hn : files.length + 1 < NINODES) (h : Finished im im' (rootEntries files).flatten.length)
include hn h

/-- the link counts are right exactly if no input is called `.`. -/
theorem Finished.nlink_iff : (∀ n, (im'.dinode n).type ≠ 0 → (im'.dinode n).nlink = im'.links n) ↔
      ∀ f ∈ files, namecmp dot (skipUnderscore f.name) ≠ 0 := by
  have hn : files.length + 1 < 200 := hn
  have hcount : ∀ n, (rootEntries files).countP (names n) =
      (if n = 1 then 1 else 0) + (if 2 ≤ n then files[n - 2]? else none).elim 0 Input.link := by
    intro n
    have h1 : names n (dirent ROOTINO dot) = false := by
      rw [names_dirent (by decide)]
      exact decide_eq_false fun hc => hc.2 (by decide)
    have h2 : names n (dirent ROOTINO dotdot) = decide (n = 1) := by
      rw [names_dirent (by decide), decide_eq_decide]
      exact ⟨fun hc => hc.1.symm, fun hc => ⟨hc.symm, by decide⟩⟩
    unfold rootEntries
    rw [countP_cons, countP_cons, countP_entriesOf files (by omega), h1, h2]
    simp only [decide_eq_true_eq, Bool.false_eq_true, if_false, Nat.add_zero]
    exact Nat.add_comm _ _
  have hlink : ∀ n, (im'.dinode n).type ≠ 0 → (im'.dinode n).nlink = 1 ∧
      im'.links n = (rootEntries files).countP (names n) := by
    intro n ht
    rw [h.type] at ht
    obtain ⟨t, ty, l, rfl, hf⟩ := hg.live ht
    obtain ⟨-, -, hfields, -⟩ := hg.inode hf
    exact ⟨by rw [h.nlink, hfields], h.links_eq hg (fun _ => mem_rootEntries) (Nat.succ_pos t)⟩
  constructor
  · intro hall f hf
    obtain ⟨j, hj, rfl⟩ := getElem_of_mem hf
    -- the inode of this input
    have hfile : ((T_DIR, (rootEntries files).flatten) :: files.map Input.file)[j + 1]? = some (files[j]).file := by
      rw [getElem?_cons_succ, getElem?_map, getElem?_eq_getElem hj]
      rfl
    obtain ⟨-, -, hfields, -⟩ := hg.inode hfile
    have ht : (im'.dinode (j + 1 + 1)).type ≠ 0 := by
      rw [h.type, hfields]
      show T_FILE ≠ 0
      decide
    obtain ⟨h1, h2⟩ := hlink _ ht
    have h3 := hall _ ht
    rw [h1, h2, hcount, if_neg (show j + 1 + 1 ≠ 1 by omega), if_pos (show 2 ≤ j + 1 + 1 by omega),
      show j + 1 + 1 - 2 = j by omega, getElem?_eq_getElem hj, Nat.zero_add] at h3
    have h3 : (1 : Int) = ((files[j]).link : Nat) := h3
    intro hdot
    rw [Input.link, if_neg (not_not_intro hdot)] at h3
    cases h3
  · intro hall n ht
    obtain ⟨h1, h2⟩ := hlink n ht
    rw [h1, h2, hcount]
    rw [h.type] at ht
    obtain ⟨t, ty, l, rfl, hf⟩ := hg.live ht
    cases t with
    | zero => rfl
    | succ t =>
      rw [getElem?_cons_succ, getElem?_map] at hf
      obtain ⟨f, hf', -⟩ := Option.map_eq_some_iff.mp hf
      rw [if_neg (show t + 1 + 1 ≠ 1 by omega), if_pos (show 2 ≤ t + 1 + 1 by omega),
        show t + 1 + 1 - 2 = t by omega, hf', Nat.zero_add]
      show (1 : Int) = (f.link : Nat)
      rw [Input.link, if_pos (hall f (mem_of_getElem? hf'))]
      rfl

lemma Finished.wellFormed_iff :
    WellFormed im' ↔ (files.length + 2) % 32 ≠ 0 ∧ ∀ f ∈ files, namecmp dot (skipUnderscore f.name) ≠ 0 := by
  have hlen : (rootEntries files).length = files.length + 2 := by
    unfold rootEntries
    rw [length_cons, length_cons, length_entriesOf]
  have hfull := h.full_iff hg fun _ => mem_rootEntries
  rw [hlen] at hfull
  constructor
  · intro hw
    exact ⟨hfull.mp hw.full, (h.nlink_iff hg hn).mp hw.nlink⟩
  · intro ⟨h1, h2⟩
    refine ⟨hfull.mpr h1, fun n x ht hb => ?_, fun n x m y ht ht' hb he => ?_, fun b hb => ?_,
      (h.nlink_iff hg hn).mpr h2⟩
    · rw [h.type] at ht
      rw [h.block] at hb ⊢
      rw [h.freeblock]
      exact (hg.places ht hb).2
    · rw [h.type] at ht ht'
      rw [h.block] at hb
      rw [h.block, h.block] at he
      have h1 := (hg.places ht hb).1
      have h2 := (hg.places ht' (by rw [← he]; exact hb)).1
      rw [← he] at h2
      have hinv : Sound layout im.view.dinode im.view := hg.inv
      have hp := hinv.owns.one _ _ _ h1 h2
      exact ⟨(Place.inode.inj hp).1, (Place.inode.inj hp).2⟩
    · rw [h.used b hb, h.freeblock, decide_eq_true_iff]

end

end

end

/-! ## all of `main` -/

section
variable (hok : ∀ f ∈ files, f.Ok) (hn : files.length + 1 < NINODES)
  (hroom : nmeta + need (DESIZE * (files.length + 2)) + needs (files.map Input.file) ≤ FSSIZE)
include hok hn hroom

lemma wp_main :
    wp E (main files) (fun _ im' => ∃ im, Good im ((T_DIR, (rootEntries files).flatten) :: files.map Input.file) ∧
      Finished im im' (rootEntries files).flatten.length) Image.start := by
  have hlen : (dirent ROOTINO dot ++ dirent ROOTINO dotdot).length = 2 * DESIZE := by decide
  have hadd : 2 * DESIZE + DESIZE * files.length = DESIZE * (files.length + 2) := by
    show 2 * 16 + 16 * files.length = 16 * (files.length + 2)
    omega
  unfold main
  apply wp_seq (wp_format rfl)
  rintro _ im1 hg1
  apply wp_seq (wp_makeRoot hg1)
  rintro _ im2 ⟨rfl, hg2⟩
  refine wp_seq (wp_files files hg2 hok ?_ ?_ ?_) ?_
  · show 0 + 1 + files.length < NINODES
    omega
  · rw [hlen, hadd]
    have hn : files.length + 1 < 200 := hn
    show 16 * (files.length + 2) ≤ 140 * 512
    omega
  · have hcount : im2.freeblock = nmeta + (need (dirent ROOTINO dot ++ dirent ROOTINO dotdot).length + 0) := hg2.count
    rw [hcount, hlen, hadd]
    omega
  rintro _ im3 hg3
  have hflat : dirent ROOTINO dot ++ dirent ROOTINO dotdot ++ (entriesOf 2 files).flatten =
      (rootEntries files).flatten := by
    unfold rootEntries
    rw [flatten_cons, flatten_cons, append_assoc]
  have hg3 : Good im3 ((T_DIR, dirent ROOTINO dot ++ dirent ROOTINO dotdot ++ (entriesOf 2 files).flatten) ::
      files.map Input.file) := hg3
  rw [hflat] at hg3
  exact wp_mono (wp_finish hg3) fun _ im' hf => ⟨im3, hg3, hf⟩

lemma main_ok : ∃ im im', main files Image.start = .ok ((), im') ∧
      Good im ((T_DIR, (rootEntries files).flatten) :: files.map Input.file) ∧
      Finished im im' (rootEntries files).flatten.length := by
  have hw := @wp_main (fun _ => False) files hok hn hroom
  cases hr : main files Image.start with
  | error x => exact (hw.elim.2 x hr).elim
  | ok r =>
    obtain ⟨⟨⟩, im'⟩ := r
    obtain ⟨im, hg, hf⟩ := hw.elim.1 () im' hr
    exact ⟨im, im', rfl, hg, hf⟩

end

/-- **`main` writes an image for all inputs that fit, and it is well formed exactly if the entries of the root directory
do not fill whole blocks and no input is called `.`.** -/
theorem mkfs_well_formed_iff {files : List Input} (hok : ∀ f ∈ files, f.Ok) (hn : files.length + 1 < NINODES)
    (hroom : nmeta + need (DESIZE * (files.length + 2)) + needs (files.map Input.file) ≤ FSSIZE) :
    ∃ im, main files Image.start = .ok ((), im) ∧
      (WellFormed im ↔ (files.length + 2) % 32 ≠ 0 ∧ ∀ f ∈ files, namecmp dot (skipUnderscore f.name) ≠ 0) := by
  obtain ⟨im, im', hr, hg, hf⟩ := main_ok hok hn hroom
  exact ⟨im', hr, hf.wellFormed_iff hg hn⟩

/-- one file, `cat`, with a few bytes. -/
def oneFile : List Input := [⟨[95, 99, 97, 116], [[1, 2, 3]]⟩]

theorem mkfs_well_formed_cat : ∃ im, main oneFile Image.start = .ok ((), im) ∧ WellFormed im := by
  have hok : ∀ f ∈ oneFile, f.Ok := by
    intro f hf
    obtain rfl := mem_singleton.mp hf
    exact ⟨by decide, by decide⟩
  obtain ⟨im, hr, hw⟩ := mkfs_well_formed_iff hok (by decide) (by decide)
  exact ⟨im, hr, hw.mpr ⟨by decide, by decide⟩⟩

/-- thirty empty files with names of one letter. -/
def thirtyFiles : List Input := (range 30).map fun i => ⟨[UInt8.ofNat (97 + i)], []⟩

/-- Thirty files, `.` and `..` are 32 entries, one block: the root directory gets the size of two. -/
theorem thirty_files_leave_hole : (∀ f ∈ thirtyFiles, f.Ok) ∧ thirtyFiles.length + 1 < NINODES ∧
    nmeta + need (DESIZE * (thirtyFiles.length + 2)) + needs (thirtyFiles.map Input.file) ≤ FSSIZE ∧
    ∃ im, main thirtyFiles Image.start = .ok ((), im) ∧ (im.dinode ROOTINO).size = 2 * BSIZE ∧ ¬ WellFormed im := by
  have hok : ∀ f ∈ thirtyFiles, f.Ok := by
    intro f hf
    obtain ⟨i, hi, rfl⟩ := mem_map.mp hf
    have hall : ∀ i ∈ range 30, slash ∉ [UInt8.ofNat (97 + i)] := by decide
    exact ⟨hall i hi, Nat.zero_le _⟩
  have hn : thirtyFiles.length + 1 < NINODES := by decide
  have hroom : nmeta + need (DESIZE * (thirtyFiles.length + 2)) + needs (thirtyFiles.map Input.file) ≤ FSSIZE := by
    decide
  refine ⟨hok, hn, hroom, ?_⟩
  obtain ⟨im, im', hr, hg, hf⟩ := main_ok hok hn hroom
  refine ⟨im', hr, ?_, fun hw => ((hf.wellFormed_iff hg hn).mp hw).1 (by decide)⟩
  have hlen : (rootEntries thirtyFiles).flatten.length = _ := length_flatten fun _ => mem_rootEntries
  rw [hf.size_root, hlen]
  rfl

end Xv6.Mkfs
