import Pintos.Filesys.Contents
import Pintos.Filesys.Directory
import Pintos.Machinery.Runs

/-!
# Filesys/Openers — who has an inode open, and who denies writes to it

Two counts of an inode are kept by hand: `open_cnt` and `deny_write_cnt`. A reference that
`inode_open` has returned and that nobody keeps yet is *pending*; with those, the counts are right
all the time.

    inode_open --▸ pending --file_open--▸ struct file --file_close--▸ pending --▸ inode_close
-/

namespace Pintos

open Machinery Function EStateM Heap

namespace Fs

/-! ## The counts -/

/-- The open files and directories on the inode at `a`… -/
def openers (s : Fs) (a : ℕ) : ℕ :=
  (s.files.count fun f => f.inode = a) + s.dirs.count fun d => d.inode = a

/-- …and the files among them that deny writes. -/
def deniers (s : Fs) (a : ℕ) : ℕ := s.files.count fun f => f.inode = a && f.denyWrite

/-- What there is of an inode with `refs` references, `denials` of which deny writes. -/
def Shown (o : Option Inode) (refs denials : ℕ) : Prop :=
  o.elim (refs = 0) fun i => i.openCnt = refs ∧ refs ≠ 0 ∧ i.denyWriteCnt = denials

/-- One inode per sector, and all counts are right, with `pend` references pending. -/
structure Counted (pend : ℕ → ℕ) (s : Fs) : Prop where
  single : ∀ a b i j, s.inodes.get? a = some i → s.inodes.get? b = some j → i.sector = j.sector → a = b
  shown : ∀ a, Shown (s.inodes.get? a) (s.openers a + pend a) (s.deniers a)

/-- No reference is pending… -/
def nothing : ℕ → ℕ := fun _ => 0

/-- …one more is… -/
def more (pend : ℕ → ℕ) (a : ℕ) : ℕ → ℕ := update pend a (pend a + 1)

/-- …or one less. -/
def less (pend : ℕ → ℕ) (a : ℕ) : ℕ → ℕ := update pend a (pend a - 1)

@[simp] lemma less_more (pend : ℕ → ℕ) (a : ℕ) : less (more pend a) a = pend := by
  funext b
  by_cases h : b = a
  · simp [less, more, h]
  · simp [less, more, h]

@[simp] lemma more_self (pend : ℕ → ℕ) (a : ℕ) : more pend a a = pend a + 1 :=
  update_self ..

variable {pend : ℕ → ℕ}

lemma more_ne {a b : ℕ} (h : b ≠ a) : more pend a b = pend b :=
  update_of_ne h ..

@[simp] lemma less_self (pend : ℕ → ℕ) (a : ℕ) : less pend a a = pend a - 1 :=
  update_self ..

lemma less_ne {a b : ℕ} (h : b ≠ a) : less pend a b = pend b :=
  update_of_ne h ..

lemma more_eq (pend : ℕ → ℕ) (a b : ℕ) :
    more pend a b = pend b + (decide (a = b)).toNat := by
  obtain rfl | hb := eq_or_ne b a
  · simp
  · rw [more_ne hb, decide_eq_false (Ne.symm hb)]
    rfl

lemma less_add {a : ℕ} (ha : pend a ≠ 0) (b : ℕ) :
    (decide (a = b)).toNat + less pend a b = pend b := by
  obtain rfl | hb := eq_or_ne b a
  · rw [less_self, decide_eq_true rfl]
    show 1 + (pend b - 1) = pend b
    omega
  · rw [less_ne hb, decide_eq_false (Ne.symm hb)]
    exact Nat.zero_add _

/-! ## What happens to the inodes -/

/-- Somebody more has the inode at `a` open. -/
def reopened (s : Fs) (a : ℕ) : Fs :=
  s.setInodes (s.inodes.modify a fun i => { i with openCnt := i.openCnt + 1 })

/-- The inode in sector `x`, as `inode_open` makes it… -/
def newInode (s : Fs) (x : ℕ) : Inode := ⟨x, 1, false, 0, .ofSector (s.disk.sector x)⟩

/-- …and puts it on the list. -/
def loaded (s : Fs) (x : ℕ) : Fs := s.setInodes (s.inodes.alloc (newInode s x))

/-- Somebody less has the inode `i` at `a` open, which goes with the last. -/
def dropRef (s : Fs) (a : ℕ) (i : Inode) : Fs :=
  s.setInodes (if i.openCnt = 1 then s.inodes.free a
    else s.inodes.modify a fun i => { i with openCnt := i.openCnt - 1 })

/-- The file `x` at `f` denies writes from now on, or no more. -/
def setDeny (s : Fs) (f : ℕ) (x : File) (value : Bool) : Fs :=
  (s.setFiles (s.files.modify f fun y => { y with denyWrite := value })).setInodes
    (s.inodes.modify x.inode fun i =>
      { i with denyWriteCnt := i.denyWriteCnt + if value then 1 else -1 })

namespace Counted

variable {pend : ℕ → ℕ} {s s' : Fs} {a : ℕ} {i : Inode}

lemma counts (h : Counted pend s) (hi : s.inodes.get? a = some i) :
    i.openCnt = (s.openers a + pend a : ℕ) ∧ s.openers a + pend a ≠ 0 ∧
      i.denyWriteCnt = s.deniers a := by
  have hshown := h.shown a
  rw [hi] at hshown
  exact hshown

lemma exists_inode (h : Counted pend s) (ha : s.openers a + pend a ≠ 0) :
    ∃ i, s.inodes.get? a = some i := by
  refine Option.ne_none_iff_exists'.mp fun hnone => ?_
  have hshown := h.shown a
  rw [hnone] at hshown
  exact ha hshown

variable {x : File}

lemma inode_of_file {f : ℕ} (h : Counted pend s) (hx : s.files.get? f = some x) :
    ∃ i, s.inodes.get? x.inode = some i := by
  refine h.exists_inode ?_
  have hpos := count_pos (p := fun y => y.inode = x.inode) hx (by simp)
  rw [openers]
  omega

lemma inode_of_dir {d : ℕ} {x : Dir} (h : Counted pend s) (hx : s.dirs.get? d = some x) :
    ∃ i, s.inodes.get? x.inode = some i := by
  refine h.exists_inode ?_
  have hpos := count_pos (p := fun y => y.inode = x.inode) hx (by simp)
  rw [openers]
  omega

lemma inode_of_pending (h : Counted pend s) (ha : pend a ≠ 0) : ∃ i, s.inodes.get? a = some i :=
  h.exists_inode (by omega)

lemma deniers_le (s : Fs) (a : ℕ) : s.deniers a ≤ s.openers a := by
  have hle : s.deniers a ≤ s.files.count fun f => f.inode = a := by
    refine count_mono fun f x _ hx => ?_
    simp only [Bool.and_eq_true] at hx
    exact hx.1
  rw [openers]
  omega

lemma denyCnt_le (h : Counted pend s) (hi : s.inodes.get? a = some i) :
    i.denyWriteCnt ≤ i.openCnt := by
  have hle := deniers_le s a
  obtain ⟨hopen, -, hdeny⟩ := h.counts hi
  omega

/-! ## One change at a time

A change concerns one inode. Its counts have to be right again; the other inodes, and what is open
on them, are as before. -/

/-- Away from `a`, nothing that is counted has changed. -/
structure Elsewhere (pend : ℕ → ℕ) (s : Fs) (pend' : ℕ → ℕ) (s' : Fs) (b : ℕ) : Prop where
  inode : s'.inodes.get? b = s.inodes.get? b
  openers : s'.openers b = s.openers b
  deniers : s'.deniers b = s.deniers b
  pend : pend' b = pend b

variable {pend' : ℕ → ℕ}

variable (h : Counted pend s)

include h

lemma change {o : Option Inode} (hother : ∀ b, b ≠ a → Elsewhere pend s pend' s' b)
    (hself : s'.inodes.get? a = o) (hshown : Shown o (s'.openers a + pend' a) (s'.deniers a))
    (hsector : o.elim True fun i => ∀ b j, b ≠ a → s.inodes.get? b = some j → i.sector ≠ j.sector) :
    Counted pend' s' := by
  have hne {i : Inode} (hi : s'.inodes.get? a = some i) {b : ℕ} {j : Inode} (hb : b ≠ a)
      (hj : s.inodes.get? b = some j) : i.sector ≠ j.sector := by
    rw [← hself, hi] at hsector
    exact hsector b j hb hj
  refine ⟨fun b c i j hb hc hij => ?_, fun b => ?_⟩
  · by_cases hba : b = a
    · by_cases hca : c = a
      · rw [hba, hca]
      · rw [(hother c hca).inode] at hc
        exact absurd hij (hne (hba ▸ hb) hca hc)
    · rw [(hother b hba).inode] at hb
      by_cases hca : c = a
      · exact absurd hij.symm (hne (hca ▸ hc) hba hb)
      · rw [(hother c hca).inode] at hc
        exact h.single b c i j hb hc hij
  · by_cases hba : b = a
    · rw [hba, hself]
      exact hshown
    · obtain ⟨hinode, hopeners, hdeniers, hpend⟩ := hother b hba
      rw [hinode, hopeners, hdeniers, hpend]
      exact h.shown b

lemma sector_ne (hi : s.inodes.get? a = some i) (b : ℕ) (j : Inode) (hb : b ≠ a)
    (hj : s.inodes.get? b = some j) : i.sector ≠ j.sector :=
  fun hij => hb (h.single a b i j hi hj hij).symm

/-- The inodes stay, and so do the references to each, pending or kept. -/
lemma recount (hi : s'.inodes = s.inodes)
    (hrefs : ∀ b, s'.openers b + pend' b = s.openers b + pend b)
    (hdeniers : ∀ b, s'.deniers b = s.deniers b) : Counted pend' s' := by
  refine ⟨hi ▸ h.single, fun b => ?_⟩
  rw [hi, hrefs, hdeniers]
  exact h.shown b

/-! ### References -/

lemma reopened (hi : s.inodes.get? a = some i) : Counted (more pend a) (s.reopened a) := by
  obtain ⟨hopen, hpos, hdeny⟩ := h.counts hi
  have hsector := h.sector_ne hi
  refine h.change (fun b hb => ?_) (get?_modify_self hi _) ⟨?_, ?_, hdeny⟩ hsector
  · exact ⟨get?_modify_of_ne hb _, rfl, rfl, more_ne hb⟩
  · show i.openCnt + 1 = ((s.openers a + more pend a a : ℕ) : ℤ)
    rw [more_self]
    omega
  · rw [more_self]
    omega

lemma loaded {x : ℕ} (hx : ∀ b j, s.inodes.get? b = some j → j.sector ≠ x) :
    Counted (more pend s.inodes.next) (s.loaded x) := by
  have hnone := h.shown s.inodes.next
  rw [s.inodes.get?_next] at hnone
  have hrefs : s.openers s.inodes.next + more pend s.inodes.next s.inodes.next = 1 := by
    rw [more_self, ← Nat.add_assoc, hnone]
  refine h.change (fun b hb => ?_) (get?_alloc_self ..) ⟨?_, ?_, ?_⟩
    fun b j _ hj => (hx b j hj).symm
  · exact ⟨get?_alloc_of_ne hb _, rfl, rfl, more_ne hb⟩
  · exact congrArg Nat.cast hrefs.symm
  · exact hrefs.symm ▸ Nat.one_ne_zero
  · have hle := deniers_le s s.inodes.next
    have hzero : s.deniers s.inodes.next = 0 := by
      change _ + _ = 0 at hnone
      omega
    exact congrArg Nat.cast hzero.symm

lemma dropRef (hi : s.inodes.get? a = some i) (ha : pend a ≠ 0) :
    Counted (less pend a) (s.dropRef a i) := by
  obtain ⟨hopen, -, hdeny⟩ := h.counts hi
  have hless := less_self pend a
  have hsector := h.sector_ne hi
  rw [Fs.dropRef]
  split_ifs with hlast
  · refine h.change (fun b hb => ?_) (get?_free_self ..) ?_ trivial
    · exact ⟨get?_free_of_ne hb, rfl, rfl, less_ne hb⟩
    · show s.openers a + less pend a a = 0
      omega
  · refine h.change (fun b hb => ?_) (get?_modify_self hi _) ⟨?_, ?_, hdeny⟩ hsector
    · exact ⟨get?_modify_of_ne hb _, rfl, rfl, less_ne hb⟩
    · show i.openCnt - 1 = ((s.openers a + less pend a a : ℕ) : ℤ)
      omega
    · show s.openers a + less pend a a ≠ 0
      omega

/-! ### Files and directories -/

lemma allocFile (ha : pend a ≠ 0) (pos : ℕ) :
    Counted (less pend a) (s.setFiles (s.files.alloc ⟨a, pos, false⟩)) := by
  refine h.recount rfl (fun b => ?_) fun b => ?_
  · have hless := less_add ha b
    show (s.files.alloc ⟨a, pos, false⟩).count _ + s.dirs.count _ + _ = _
    rw [count_alloc, openers]
    dsimp only
    omega
  · show (s.files.alloc ⟨a, pos, false⟩).count _ = _
    rw [count_alloc, Bool.and_false]
    rfl

lemma freeFile {f : ℕ} (hx : s.files.get? f = some x) (hdeny : x.denyWrite = false) :
    Counted (more pend x.inode) (s.setFiles (s.files.free f)) := by
  refine h.recount rfl (fun b => ?_) fun b => ?_
  · have hmore := more_eq pend x.inode b
    have hcount := count_free hx fun y => y.inode = b
    show (s.files.free f).count _ + s.dirs.count _ + _ = _
    rw [openers]
    omega
  · have hcount := count_free hx fun y => y.inode = b && y.denyWrite
    rwa [hdeny, Bool.and_false] at hcount

lemma allocDir (ha : pend a ≠ 0) (pos : ℕ) :
    Counted (less pend a) (s.setDirs (s.dirs.alloc ⟨a, pos⟩)) := by
  refine h.recount rfl (fun b => ?_) fun b => rfl
  have hless := less_add ha b
  show s.files.count _ + (s.dirs.alloc ⟨a, pos⟩).count _ + _ = _
  rw [count_alloc, openers]
  dsimp only
  omega

lemma freeDir {d : ℕ} {x : Dir} (hx : s.dirs.get? d = some x) :
    Counted (more pend x.inode) (s.setDirs (s.dirs.free d)) := by
  refine h.recount rfl (fun b => ?_) fun b => rfl
  have hmore := more_eq pend x.inode b
  have hcount := count_free hx fun y => y.inode = b
  show s.files.count _ + (s.dirs.free d).count _ + _ = _
  rw [openers]
  omega

lemma moveFile {f n : ℕ} (hx : s.files.get? f = some x) :
    Counted pend (s.setFiles (s.files.modify f fun y => { y with pos := y.pos + n })) := by
  have hcount (p : File → Bool) (hp : p { x with pos := x.pos + n } = p x) :
      (s.files.modify f fun y => { y with pos := y.pos + n }).count p = s.files.count p := by
    have := count_modify hx (fun y => { y with pos := y.pos + n }) p
    rw [hp] at this
    omega
  refine h.recount rfl (fun b => ?_) fun b => hcount _ rfl
  show (modify ..).count _ + s.dirs.count _ + _ = _
  rw [hcount _ rfl]
  rfl

lemma setDeny {f : ℕ} {value : Bool} (hx : s.files.get? f = some x) (hdeny : x.denyWrite = !value) :
    Counted pend (s.setDeny f x value) := by
  obtain ⟨i, hi⟩ := h.inode_of_file hx
  have hopeners (b : ℕ) : (s.setDeny f x value).openers b = s.openers b := by
    have hcount := count_modify hx (fun y => { y with denyWrite := value }) fun y => y.inode = b
    show (modify ..).count _ + s.dirs.count _ = _
    dsimp only at hcount
    rw [openers]
    omega
  have hdeniers (b : ℕ) : (s.setDeny f x value).deniers b + (decide (x.inode = b) && !value).toNat =
      s.deniers b + (decide (x.inode = b) && value).toNat := by
    rw [← hdeny]
    exact count_modify hx _ fun y => y.inode = b && y.denyWrite
  have hsector := h.sector_ne hi
  obtain ⟨hopen, hpos, hcnt⟩ := h.counts hi
  rw [← hopeners] at hopen hpos
  refine h.change (fun b hb => ⟨get?_modify_of_ne hb _, hopeners b, ?_, rfl⟩)
    (get?_modify_self hi _) ⟨hopen, hpos, ?_⟩ hsector
  · have hother := hdeniers b
    rwa [decide_eq_false hb.symm] at hother
  · have hself := hdeniers x.inode
    rw [decide_eq_true rfl, Bool.true_and, Bool.true_and] at hself
    show i.denyWriteCnt + (if value then 1 else -1) = (((s.setDeny f x value).deniers x.inode : ℕ) : ℤ)
    cases value with
    | true =>
      simp only [Bool.not_true, Bool.toNat_false, Bool.toNat_true, if_true] at hself ⊢
      omega
    | false =>
      simp only [Bool.not_false, Bool.toNat_false, Bool.toNat_true, Bool.false_eq_true,
        if_false] at hself ⊢
      omega

end Counted

/-! ## What the calls do

Reading and writing, the disk and the free map, are no matter for the counts. -/

/-- What is counted, and what counts. -/
def heaps (s : Fs) : Heap Inode × Heap File × Heap Dir := (s.inodes, s.files, s.dirs)

section Calls

variable {pend : ℕ → ℕ} {s s' : Fs} {a f : ℕ} {i : Inode} {x : File} {m : Mem}

section

variable (h : s'.heaps = s.heaps)

include h

lemma inodes_of_heaps : s'.inodes = s.inodes := (Prod.mk.inj h).1

lemma files_of_heaps : s'.files = s.files := (Prod.mk.inj (Prod.mk.inj h).2).1

lemma dirs_of_heaps : s'.dirs = s.dirs := (Prod.mk.inj (Prod.mk.inj h).2).2

end

lemma Counted.of_heaps_eq (h : Counted pend s) (heq : s'.heaps = s.heaps) : Counted pend s' := by
  refine h.recount (inodes_of_heaps heq) (fun b => ?_) fun b => ?_
  · rw [openers, openers, files_of_heaps heq, dirs_of_heaps heq]
  · rw [deniers, deniers, files_of_heaps heq]

/-- A computation that leaves the open inodes, files and directories. -/
def Still {α : Type} (x : FsM α) : Prop := ∀ s, Gives x s fun _ s' => s'.heaps = s.heaps

lemma Still.bind {α β : Type} {x : FsM α} {f : α → FsM β} (hx : Still x)
    (hf : ∀ a, Still (f a)) : Still (x >>= f) := by
  intro s
  rw [gives_bind]
  refine (hx s).mono fun a s' hs' => ?_
  exact (hf a s').mono fun _ s'' hs'' => hs''.trans hs'

lemma still_blockRead (n : ℕ) : Still (blockRead n) := by
  intro s
  simp [blockRead]

lemma still_blockWrite (n : ℕ) (data : Sector) : Still (blockWrite n data) := by
  intro s
  simp only [blockWrite, gives_bind, gives_get, gives_orThrow, gives_set]
  intro d _
  rfl

lemma still_pure {α : Type} (a : α) : Still (pure a) := fun _ => (gives_pure a).mpr rfl

lemma still_writeChunk (bounce : Bool) (n o chunk : ℕ) (bytes : ℕ → UInt8) :
    Still (writeChunk bounce n o chunk bytes) := by
  have hwrite (data : Sector) : Still (do blockWrite n data; return true) :=
    (still_blockWrite n data).bind fun _ => still_pure true
  rw [writeChunk]
  split_ifs with hwhole hbounce
  · exact hwrite _
  · exact (still_blockRead n).bind fun b => hwrite _
  · exact (still_pure _).bind fun b => hwrite _
  · exact still_pure false

lemma still_writeLoop (bounce : Bool) (d : InodeDisk) (turns : ℕ) (bytes : ℕ → UInt8) (size : ℤ)
    (offset : ℕ) : Still (writeLoop bounce d turns bytes size offset) := by
  induction turns generalizing bytes size offset with
  | zero => exact still_pure 0
  | succ turns ih =>
    rw [writeLoop]
    split_ifs
    · exact still_pure 0
    · refine Still.bind (still_writeChunk _ _ _ _ _) fun written => ?_
      split_ifs
      · exact Still.bind (ih _ _ _) fun rest => still_pure _
      · exact still_pure 0

lemma still_inodeWriteAt (a : ℕ) (bytes : ℕ → UInt8) (size : ℤ) (offset : ℕ) :
    Still (inodeWriteAt m a bytes size offset) := by
  intro s
  simp only [inodeWriteAt, gives_bind, gives_get, gives_orThrow]
  intro i _
  split_ifs
  · exact still_pure 0 s
  · exact still_writeLoop _ _ _ _ _ _ s

lemma still_fileWriteAt (f : ℕ) (bytes : ℕ → UInt8) (size : ℤ) (offset : ℕ) :
    Still (fileWriteAt m f bytes size offset) := by
  intro s
  simp only [fileWriteAt, gives_bind, gives_get, gives_orThrow]
  intro x _
  exact still_inodeWriteAt _ _ _ _ s

lemma still_freeMapRelease (sector cnt : ℕ) : Still (freeMapRelease m sector cnt) := by
  intro s
  simp only [freeMapRelease, gives_bind, gives_get, gives_orThrow, gives_require,
    gives_set, bitmapWrite, gives_pure]
  intro all _ _ map _ file _
  exact still_fileWriteAt _ _ _ _ (s.setFreeMap map)

lemma still_releaseInode (i : Inode) : Still (releaseInode m i) :=
  Still.bind (still_freeMapRelease _ _) fun _ => still_freeMapRelease _ _

/-! ### Opening and closing -/

/-- The inode in sector `x` is open once more: it was there, at `a`, or it is new. -/
inductive Opened (s : Fs) (x : ℕ) : ℕ → Fs → Prop
  | reopened {a : ℕ} {i : Inode} : s.inodes.get? a = some i → i.sector = x → Opened s x a (s.reopened a)
  | loaded : (∀ b j, s.inodes.get? b = some j → j.sector ≠ x) → Opened s x s.inodes.next (s.loaded x)

lemma Counted.opened {n : ℕ} (h : Counted pend s) (ho : Opened s n a s') :
    Counted (more pend a) s' := by
  cases ho with
  | reopened hi _ => exact h.reopened hi
  | loaded hn => exact h.loaded hn

lemma gives_inodeOpen (m : Mem) (n : ℕ) : Gives (inodeOpen m n) s fun r s' =>
    (r = none ∧ s' = s ∧ m.answer = false) ∨ ∃ a, r = some a ∧ Opened s n a s' := by
  simp only [inodeOpen, gives_bind, gives_get]
  split
  · next a i hsearch =>
    obtain ⟨hi, hn⟩ := search_eq_some hsearch
    simp only [inodeReopen, gives_bind, gives_get, gives_orThrow, gives_set, gives_pure]
    intro _ _
    exact .inr ⟨a, rfl, .reopened hi (of_decide_eq_true hn)⟩
  · next hsearch =>
    have hnew (b : ℕ) (j : Inode) (hj : s.inodes.get? b = some j) : j.sector ≠ n := by
      simpa using search_eq_none hsearch hj
    split_ifs with hm
    · simp only [blockRead, gives_bind, gives_get, gives_orThrow, gives_set, gives_pure]
      intro data hdata
      obtain rfl : s.disk.sector n = data := by
        rw [Block.read] at hdata
        split_ifs at hdata
        exact Option.some.inj hdata
      exact .inr ⟨_, rfl, .loaded hnew⟩
    · exact (gives_pure _).mpr (.inl ⟨rfl, rfl, by simpa using hm⟩)

lemma does_inodeOpen (m : Mem) {n : ℕ} (hn : n < s.disk.size) : Does (inodeOpen m n) s fun r s' =>
    (r = none ∧ s' = s ∧ m.answer = false) ∨ ∃ a, r = some a ∧ Opened s n a s' := by
  refine (gives_inodeOpen m n).does ?_
  simp only [inodeOpen, does_bind, does_get]
  split
  · next a i hsearch =>
    simp only [inodeReopen, does_bind, does_get, does_orThrow, does_set, does_pure, and_true]
    exact ⟨i, (search_eq_some hsearch).1⟩
  · simp only [does_ite, does_bind, does_set, does_pure, implies_true, and_true]
    exact fun _ => does_of_run (blockRead_run hn) trivial

lemma inodeClose_run (m : Mem) (hi : s.inodes.get? a = some i) : (inodeClose m a).run s =
    (if i.openCnt = 1 ∧ i.removed = true then releaseInode m i else pure ()).run (s.dropRef a i) := by
  simp only [inodeClose, run_bind, run_get, hi, orThrow, run_pure, dropRef]
  obtain hlast | hlast := eq_or_ne i.openCnt 1
  · have hzero : i.openCnt - 1 = 0 := by omega
    rw [if_pos hzero, if_pos hlast, run_bind, run_set]
    simp only [hlast, true_and]
  · have hzero : ¬ i.openCnt - 1 = 0 := by omega
    rw [if_neg hzero, if_neg hlast, if_neg fun h => hlast h.1]
    rfl

lemma inodeClose_kept (m : Mem) (hi : s.inodes.get? a = some i) (hkept : i.removed = false) :
    (inodeClose m a).run s = .ok () (s.dropRef a i) := by
  rw [inodeClose_run m hi, hkept, if_neg fun hboth => Bool.false_ne_true hboth.2]
  rfl

lemma gives_inodeClose (m : Mem) (hi : s.inodes.get? a = some i) :
    Gives (inodeClose m a) s fun _ s' => s'.heaps = (s.dropRef a i).heaps := by
  intro r s' hrun
  rw [inodeClose_run m hi] at hrun
  split_ifs at hrun
  · exact still_releaseInode i _ r s' hrun
  · exact still_pure () _ r s' hrun

lemma gives_fileOpen (m : Mem) (hi : s.inodes.get? a = some i) :
    Gives (fileOpen m (some a)) s fun r s' =>
      (r = some s.files.next ∧ s' = s.setFiles (s.files.alloc ⟨a, 0, false⟩)) ∨
        r = none ∧ s'.heaps = (s.dropRef a i).heaps := by
  rw [fileOpen]
  split_ifs
  · simp only [gives_bind, gives_get, gives_set, gives_pure]
    exact .inl ⟨trivial, trivial⟩
  · simp only [gives_bind, gives_pure]
    exact (gives_inodeClose _ hi).mono fun _ _ hs' => .inr ⟨trivial, hs'⟩

lemma gives_dirOpen (m : Mem) (hi : s.inodes.get? a = some i) :
    Gives (dirOpen m (some a)) s fun r s' =>
      (r = some s.dirs.next ∧ s' = s.setDirs (s.dirs.alloc ⟨a, 0⟩)) ∨
        r = none ∧ s'.heaps = (s.dropRef a i).heaps := by
  rw [dirOpen]
  split_ifs
  · simp only [gives_bind, gives_get, gives_set, gives_pure]
    exact .inl ⟨trivial, trivial⟩
  · simp only [gives_bind, gives_pure]
    exact (gives_inodeClose _ hi).mono fun _ _ hs' => .inr ⟨trivial, hs'⟩

/-! ### Denying writes -/

/-- The file `x` at `f` denies writes, or allows them. -/
def withDeny (s : Fs) (f : ℕ) (x : File) (value : Bool) : Fs :=
  if x.denyWrite = value then s else s.setDeny f x value

/-- The same files are open, on the same inodes. -/
structure SameFiles (s s' : Fs) : Prop where
  next : s'.files.next = s.files.next
  addresses : s'.files.addresses = s.files.addresses
  inode : ∀ g, (s'.files.get? g).map File.inode = (s.files.get? g).map File.inode

lemma SameFiles.later (h : SameFiles s s') : s.files.Later s'.files := by
  refine ⟨h.next.ge, fun g _ hnone => ?_⟩
  have hinode := h.inode g
  rwa [hnone, Option.map_none, Option.map_eq_none_iff] at hinode

lemma sameFiles_withDeny (s : Fs) (f : ℕ) (x : File) (value : Bool) :
    SameFiles s (s.withDeny f x value) := by
  rw [withDeny]
  split_ifs
  · exact ⟨rfl, rfl, fun _ => rfl⟩
  refine ⟨rfl, addresses_modify .., fun g => ?_⟩
  show ((s.files.modify f _).get? g).map File.inode = _
  rw [get?_modify, Option.map_map]
  refine congrArg (fun φ => (s.files.get? g).map φ) (funext fun y => ?_)
  show File.inode (if g = f then { y with denyWrite := value } else y) = y.inode
  split_ifs <;> rfl

section

variable (h : Counted pend s)

include h

section

variable (hx : s.files.get? f = some x)

include hx

lemma Counted.withDeny (value : Bool) : Counted pend (s.withDeny f x value) := by
  rw [Fs.withDeny]
  split_ifs with hdeny
  · exact h
  · exact h.setDeny hx (Bool.eq_not_of_ne hdeny)

lemma fileDenyWrite_run : (fileDenyWrite f).run s = .ok () (s.withDeny f x true) := by
  obtain ⟨i, hi⟩ := h.inode_of_file hx
  simp only [fileDenyWrite, run_bind, run_get, hx, orThrow, run_pure, withDeny]
  split_ifs with hdeny
  · rfl
  · -- the count after the change is at most the number of openers
    have hdenied : Counted pend (s.setDeny f x true) := h.setDeny hx (by simpa using hdeny)
    have hle : i.denyWriteCnt + 1 ≤ i.openCnt := hdenied.denyCnt_le (get?_modify_self hi _)
    have hget : (s.setFiles (s.files.modify f fun y => { y with denyWrite := true })).inodes.get?
        x.inode = some i := hi
    simp only [setDenyWrite, inodeDenyWrite, run_bind, run_modify, run_get,
      run_set, hget, orThrow, run_pure, require, if_pos hle]
    rfl

lemma fileAllowWrite_run : (fileAllowWrite f).run s = .ok () (s.withDeny f x false) := by
  obtain ⟨i, hi⟩ := h.inode_of_file hx
  simp only [fileAllowWrite, run_bind, run_get, hx, orThrow, run_pure, withDeny]
  cases hdeny : x.denyWrite with
  | true =>
    have hpos : 0 < i.denyWriteCnt := by
      rw [(h.counts hi).2.2]
      exact Int.natCast_pos.mpr (count_pos hx (by simp [hdeny]))
    have hget : (s.setFiles (s.files.modify f fun y => { y with denyWrite := false })).inodes.get?
        x.inode = some i := hi
    simp only [setDenyWrite, inodeAllowWrite, run_bind, run_modify, run_get, if_true,
      run_set, hget, orThrow, run_pure, require, if_pos hpos, if_pos (h.denyCnt_le hi)]
    rfl
  | false => rfl

end

lemma gives_fileDenyWrite :
    Gives (fileDenyWrite f) s fun _ s' => Counted pend s' ∧ SameFiles s s' := by
  cases hx : s.files.get? f with
  | none => simp [fileDenyWrite, hx]
  | some x =>
    exact (gives_iff_of_run (fileDenyWrite_run h hx)).mpr
      ⟨h.withDeny hx true, sameFiles_withDeny s f x true⟩

lemma gives_fileAllowWrite :
    Gives (fileAllowWrite f) s fun _ s' => Counted pend s' ∧ SameFiles s s' := by
  cases hx : s.files.get? f with
  | none => simp [fileAllowWrite, hx]
  | some x =>
    exact (gives_iff_of_run (fileAllowWrite_run h hx)).mpr
      ⟨h.withDeny hx false, sameFiles_withDeny s f x false⟩

end

lemma file_withDeny (hx : s.files.get? f = some x) (value : Bool) :
    (s.withDeny f x value).files.get? f = some { x with denyWrite := value } := by
  rw [Fs.withDeny]
  split_ifs with hdeny
  · rw [hx, ← hdeny]
  · exact get?_modify_self hx _

lemma inode_withDeny (hi : s.inodes.get? x.inode = some i) (value : Bool) :
    ∃ n, (s.withDeny f x value).inodes.get? x.inode = some { i with denyWriteCnt := n } := by
  rw [Fs.withDeny]
  split_ifs
  · exact ⟨_, hi⟩
  · exact ⟨_, get?_modify_self hi _⟩

lemma fileClose_run (m : Mem) (h : Counted pend s) (hx : s.files.get? f = some x) :
    (fileClose m f).run s = (do
      inodeClose m x.inode
      modify fun s => s.setFiles (s.files.free f) : FsM Unit).run (s.withDeny f x false) := by
  simp only [fileClose, run_bind, run_get, hx, orThrow, run_pure,
    fileAllowWrite_run h hx]

lemma exists_fileClose_run (m : Mem) (h : Counted pend s) (hx : s.files.get? f = some x)
    (hi : s.inodes.get? x.inode = some i) (hkept : i.removed = false) :
    ∃ s', (fileClose m f).run s = .ok () s' := by
  obtain ⟨n, hn⟩ := inode_withDeny (f := f) hi false
  rw [fileClose_run m h hx, run_bind, inodeClose_kept m hn hkept]
  exact ⟨_, rfl⟩

lemma gives_fileClose (m : Mem) (h : Counted pend s) : Gives (fileClose m f) s fun _ s' =>
    Counted pend s' ∧ ∃ t, SameFiles s t ∧ s'.files = t.files.free f := by
  simp only [fileClose, gives_bind, gives_get, gives_orThrow, gives_modify]
  intro x hx
  have hfile := file_withDeny hx false
  obtain ⟨i, hi⟩ := (h.withDeny hx false).inode_of_file hfile
  refine (does_of_run (fileAllowWrite_run h hx) ?_).gives
  refine (gives_inodeClose m hi).mono fun _ s' hs' => ?_
  have hfree := ((h.withDeny hx false).freeFile hfile rfl).dropRef hi (by simp)
  rw [less_more] at hfree
  -- the file goes last; it could as well go first
  refine ⟨hfree.of_heaps_eq ?_, _, sameFiles_withDeny s f x false, ?_⟩
  · show (s'.inodes, s'.files.free f, s'.dirs) = _
    rw [inodes_of_heaps hs', files_of_heaps hs', dirs_of_heaps hs']
    rfl
  · show s'.files.free f = _
    rw [files_of_heaps hs']
    rfl

lemma gives_dirClose (m : Mem) {d : ℕ} (h : Counted pend s) :
    Gives (dirClose m d) s fun _ s' => Counted pend s' ∧ s'.files = s.files := by
  simp only [dirClose, gives_bind, gives_get, gives_orThrow, gives_modify]
  intro x hx
  obtain ⟨i, hi⟩ := h.inode_of_dir hx
  refine (gives_inodeClose m hi).mono fun _ s' hs' => ?_
  have hfree := (h.freeDir hx).dropRef hi (by simp)
  rw [less_more] at hfree
  refine ⟨hfree.of_heaps_eq ?_, (files_of_heaps hs').trans rfl⟩
  show (s'.inodes, s'.files, s'.dirs.free d) = _
  rw [inodes_of_heaps hs', files_of_heaps hs', dirs_of_heaps hs']
  rfl

end Calls

/-! ## Runs -/

/-- Nothing is open. -/
structure Closed (s : Fs) : Prop where
  inodes : ∀ a, s.inodes.get? a = none
  files : ∀ f, s.files.get? f = none
  dirs : ∀ d, s.dirs.get? d = none

/-- The calls that open and close, deny and allow; and those that write to a file or remove an
inode. -/
inductive OpenerCall where
  | openFile (m : Mem) (sector : ℕ)
  | reopenFile (m : Mem) (file : ℕ)
  | closeFile (m : Mem) (file : ℕ)
  | openDir (m : Mem) (sector : ℕ)
  | reopenDir (m : Mem) (dir : ℕ)
  | closeDir (m : Mem) (dir : ℕ)
  | denyWrite (file : ℕ)
  | allowWrite (file : ℕ)
  | write (m : Mem) (file : ℕ) (bytes : ℕ → UInt8) (size : ℤ)
  | remove (inode : ℕ)

/-- What a call does; the handle it returns is found in the state. -/
def OpenerCall.run : OpenerCall → FsM Unit
  | openFile m sector => do
    let inode ← inodeOpen (m.sub 0) sector
    let _ ← fileOpen (m.sub 1) inode
  | reopenFile m file => do let _ ← fileReopen m file
  | closeFile m file => fileClose m file
  | openDir m sector => do
    let inode ← inodeOpen (m.sub 0) sector
    let _ ← dirOpen (m.sub 1) inode
  | reopenDir m dir => do let _ ← dirReopen m dir
  | closeDir m dir => dirClose m dir
  | denyWrite file => fileDenyWrite file
  | allowWrite file => fileAllowWrite file
  | write m file bytes size => do let _ ← fileWrite m file bytes size
  | remove inode => inodeRemove inode

/-- The system of the openers: nothing is open at first, whatever the disk holds. -/
def openerSystem : System Fs OpenerCall where
  init := Closed
  step s c s' := c.run.run s = .ok () s'

section Steps

variable {pend : ℕ → ℕ} {s s' : Fs} {a : ℕ} {m : Mem}

/-- What opening a file does to the files that are open. -/
def FileOpened (s s' : Fs) (r : Option ℕ) : Prop :=
  r = none ∧ s'.files = s.files ∨
    ∃ a, r = some s.files.next ∧ s'.files = s.files.alloc ⟨a, 0, false⟩

lemma later_of_eq (h : s'.files = s.files) : s.files.Later s'.files := h ▸ .refl _

lemma FileOpened.later {r : Option ℕ} (h : FileOpened s s' r) : s.files.Later s'.files := by
  obtain ⟨-, hfiles⟩ | ⟨a, -, hfiles⟩ := h
  · exact later_of_eq hfiles
  · exact hfiles ▸ later_alloc _ _

lemma FileOpened.of_files {t : Fs} {r : Option ℕ} (h : FileOpened s s' r) (hfiles : s.files = t.files) :
    FileOpened t s' r := by
  rwa [FileOpened, hfiles] at h

lemma gives_fileOpen_pending (m : Mem) {o : Option ℕ} (h : Counted (o.elim pend (more pend)) s) :
    Gives (fileOpen m o) s fun r s' => Counted pend s' ∧ FileOpened s s' r := by
  cases o with
  | none => exact (gives_pure none).mpr ⟨h, .inl ⟨rfl, rfl⟩⟩
  | some a =>
    obtain ⟨i, hi⟩ := h.inode_of_pending (a := a) (by simp)
    refine (gives_fileOpen m hi).mono ?_
    rw [← less_more pend a]
    rintro r s' (⟨hr, rfl⟩ | ⟨hr, hheaps⟩)
    · exact ⟨h.allocFile (by simp) 0, .inr ⟨a, hr, rfl⟩⟩
    · exact ⟨(h.dropRef hi (by simp)).of_heaps_eq hheaps,
        .inl ⟨hr, (files_of_heaps hheaps).trans rfl⟩⟩

lemma gives_dirOpen_pending (m : Mem) {o : Option ℕ} (h : Counted (o.elim pend (more pend)) s) :
    Gives (dirOpen m o) s fun _ s' => Counted pend s' ∧ s'.files = s.files := by
  cases o with
  | none => exact (gives_pure none).mpr ⟨h, rfl⟩
  | some a =>
    obtain ⟨i, hi⟩ := h.inode_of_pending (a := a) (by simp)
    refine (gives_dirOpen m hi).mono ?_
    rw [← less_more pend a]
    rintro r s' (⟨-, rfl⟩ | ⟨-, hheaps⟩)
    · exact ⟨h.allocDir (by simp) 0, rfl⟩
    · exact ⟨(h.dropRef hi (by simp)).of_heaps_eq hheaps, (files_of_heaps hheaps).trans rfl⟩

lemma Opened.files {n : ℕ} (h : Opened s n a s') : s'.files = s.files := by
  cases h <;> rfl

/-- The inode that is returned, if any, is pending. -/
lemma gives_inodeOpen_pending (m : Mem) (n : ℕ) (h : Counted pend s) :
    Gives (inodeOpen m n) s fun r s' =>
      Counted (r.elim pend (more pend)) s' ∧ s'.files = s.files := by
  refine (gives_inodeOpen m n).mono ?_
  rintro r s' (⟨rfl, rfl, -⟩ | ⟨a, rfl, hopened⟩)
  · exact ⟨h, rfl⟩
  · exact ⟨h.opened hopened, hopened.files⟩

lemma gives_inodeReopen_pending (h : Counted pend s) :
    Gives (inodeReopen a) s fun b s' => Counted (more pend b) s' ∧ s'.files = s.files := by
  simp only [inodeReopen, gives_bind, gives_get, gives_orThrow, gives_set, gives_pure]
  exact fun i hi => ⟨h.reopened hi, rfl⟩

lemma Counted.removed {i : Inode} (h : Counted pend s) (hi : s.inodes.get? a = some i) :
    Counted pend (s.setInodes (s.inodes.modify a fun i => { i with removed := true })) := by
  have hsector := h.sector_ne hi
  have hcounts := h.counts hi
  refine h.change (fun b hb => ?_) (get?_modify_self hi _) hcounts hsector
  exact ⟨get?_modify_of_ne hb _, rfl, rfl, rfl⟩

/-- A call leaves the counts right, and no file that was closed is open afterwards. -/
lemma Counted.call (h : Counted pend s) (c : OpenerCall) :
    Gives c.run s fun _ s' => Counted pend s' ∧ s.files.Later s'.files := by
  cases c with
  | openFile m n =>
    refine gives_bind.mpr ((gives_inodeOpen_pending _ n h).mono fun o s₁ h₁ => ?_)
    refine gives_discard.mpr ((gives_fileOpen_pending _ h₁.1).mono fun _ _ h₂ => ?_)
    exact ⟨h₂.1, (h₂.2.of_files h₁.2).later⟩
  | reopenFile m f =>
    refine gives_discard.mpr ?_
    simp only [fileReopen, gives_bind, gives_get, gives_orThrow]
    refine fun x _ => (gives_inodeReopen_pending h).mono fun b s₁ h₁ => ?_
    refine (gives_fileOpen_pending m (o := some b) h₁.1).mono fun _ _ h₂ => ?_
    exact ⟨h₂.1, (h₂.2.of_files h₁.2).later⟩
  | closeFile m f =>
    refine (gives_fileClose m h).mono ?_
    rintro _ s' ⟨hc, t, hsame, hfiles⟩
    exact ⟨hc, hfiles ▸ hsame.later.trans (later_free _ f)⟩
  | openDir m n =>
    refine gives_bind.mpr ((gives_inodeOpen_pending _ n h).mono fun o s₁ h₁ => ?_)
    refine gives_discard.mpr ((gives_dirOpen_pending _ h₁.1).mono fun _ _ h₂ => ?_)
    exact ⟨h₂.1, later_of_eq (h₂.2.trans h₁.2)⟩
  | reopenDir m d =>
    refine gives_discard.mpr ?_
    simp only [dirReopen, gives_bind, gives_get, gives_orThrow]
    refine fun x _ => (gives_inodeReopen_pending h).mono fun b s₁ h₁ => ?_
    refine (gives_dirOpen_pending m (o := some b) h₁.1).mono fun _ _ h₂ => ?_
    exact ⟨h₂.1, later_of_eq (h₂.2.trans h₁.2)⟩
  | closeDir m d => exact (gives_dirClose m h).mono fun _ _ hs' => ⟨hs'.1, later_of_eq hs'.2⟩
  | denyWrite f => exact (gives_fileDenyWrite h).mono fun _ _ hs' => ⟨hs'.1, hs'.2.later⟩
  | allowWrite f => exact (gives_fileAllowWrite h).mono fun _ _ hs' => ⟨hs'.1, hs'.2.later⟩
  | write m f bytes size =>
    refine gives_discard.mpr ?_
    simp only [fileWrite, advance, gives_bind, gives_get, gives_orThrow, gives_modify, gives_pure]
    intro x hx
    refine (still_inodeWriteAt _ _ _ _ s).mono fun n s' hs' => ?_
    have hfiles := files_of_heaps hs'
    exact ⟨(h.of_heaps_eq hs').moveFile (hfiles ▸ hx), hfiles ▸ later_modify _ f _⟩
  | remove a =>
    simp only [OpenerCall.run, inodeRemove, gives_bind, gives_get, gives_orThrow, gives_set]
    exact fun i hi => ⟨h.removed hi, .refl _⟩

lemma Closed.counted (h : s.Closed) : Counted nothing s := by
  have hopeners (a : ℕ) : s.openers a = 0 := by
    have hfiles : (s.files.count fun f => f.inode = a) = 0 := by
      refine Nat.eq_zero_of_not_pos fun hpos => ?_
      obtain ⟨f, x, hx, -⟩ := exists_of_count_pos hpos
      rw [h.files] at hx
      cases hx
    have hdirs : (s.dirs.count fun d => d.inode = a) = 0 := by
      refine Nat.eq_zero_of_not_pos fun hpos => ?_
      obtain ⟨d, x, hx, -⟩ := exists_of_count_pos hpos
      rw [h.dirs] at hx
      cases hx
    rw [openers, hfiles, hdirs]
  refine ⟨fun a b i j ha => ?_, fun a => ?_⟩
  · rw [h.inodes] at ha
    cases ha
  · rw [h.inodes]
    exact hopeners a

lemma counted_of_reachable (hs : openerSystem.Reachable s) : Counted nothing s := by
  refine hs.invariant (I := Counted nothing) (fun _ h0 => Closed.counted h0) fun s c s' h _ hstep => ?_
  exact (h.call c () s' hstep).1

end Steps

/-- **Open-inode bookkeeping.** A sector has at most one inode in memory, which counts who has it
open and who denies writes to it; no assertion fails; and while one file denies writes, nobody
writes. -/
theorem openers_counted {s : Fs} (hs : openerSystem.Reachable s) :
    (∀ a b i j, s.inodes.get? a = some i → s.inodes.get? b = some j → i.sector = j.sector → a = b) ∧
    (∀ a i, s.inodes.get? a = some i → i.openCnt = s.openers a ∧ i.denyWriteCnt = s.deniers a ∧
      i.denyWriteCnt ≤ i.openCnt) ∧
    (∀ f x, s.files.get? f = some x → ∃ i, s.inodes.get? x.inode = some i ∧
      (∃ s', (fileDenyWrite f).run s = .ok () s') ∧ (∃ s', (fileAllowWrite f).run s = .ok () s') ∧
      ∀ m, i.removed = false → ∃ s', (fileClose m f).run s = .ok () s') ∧
    (∀ f x, s.files.get? f = some x → x.denyWrite = true → ∀ m bytes size offset,
      (inodeWriteAt m x.inode bytes size offset).run s = .ok 0 s) := by
  have h := counted_of_reachable hs
  refine ⟨h.single, fun a i hi => ?_, fun f x hx => ?_, fun f x hx hdeny m bytes size offset => ?_⟩
  · obtain ⟨hopen, -, hcnt⟩ := h.counts hi
    exact ⟨hopen, hcnt, h.denyCnt_le hi⟩
  · obtain ⟨i, hi⟩ := h.inode_of_file hx
    exact ⟨i, hi, ⟨_, fileDenyWrite_run h hx⟩, ⟨_, fileAllowWrite_run h hx⟩,
      fun m hkept => exists_fileClose_run m h hx hi hkept⟩
  · obtain ⟨i, hi⟩ := h.inode_of_file hx
    refine inodeWriteAt_denied m size offset bytes hi ?_
    have hpos := Heap.count_pos (p := fun y => y.inode = x.inode && y.denyWrite) hx (by simp [hdeny])
    have hcnt := (h.counts hi).2.2
    rw [deniers] at hcnt
    omega

/-- A device of four sectors, with nothing open. -/
def nothingOpen : Fs where
  disk := ⟨4, fun _ _ => 0, by decide⟩
  inodes := .empty
  files := .empty
  dirs := .empty
  freeMap := ⟨4, fun _ => 0⟩
  freeMapFile := none

/-- The executable is opened, writes are denied, and it is opened again, to be written. -/
theorem openers_counted_executable : ∃ s : Fs, openerSystem.Reachable s ∧
    (∃ i, s.inodes.get? 0 = some i ∧ i.openCnt = 2 ∧ i.denyWriteCnt = 1) ∧
    ∀ m bytes size offset, (inodeWriteAt m 0 bytes size offset).run s = .ok 0 s := by
  have hstep {s s' : Fs} (c : OpenerCall) (hs : openerSystem.Reachable s)
      (hrun : c.run.run s = .ok () s') : openerSystem.Reachable s' := .next hs trivial hrun
  have hclosed : nothingOpen.Closed := ⟨fun _ => rfl, fun _ => rfl, fun _ => rfl⟩
  have hs := hstep (.openFile .plenty 3)
    (hstep (.denyWrite 0) (hstep (.openFile .plenty 3) (.start hclosed) rfl) rfl) rfl
  obtain ⟨-, -, -, hdenied⟩ := openers_counted hs
  exact ⟨_, hs, ⟨_, rfl, rfl, rfl⟩, hdenied 0 ⟨0, 0, true⟩ rfl rfl⟩

end Fs

end Pintos
