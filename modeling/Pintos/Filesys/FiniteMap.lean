import Pintos.Filesys.Creation
import Pintos.Filesys.Mirror

/-!
# Filesys/FiniteMap — a directory is a finite map

A directory is used by any sequence of `dir_add`, `dir_remove` and `dir_lookup`, with memory enough.
Next to it runs the map that the successful calls describe; the records in use represent it at
every moment, and the calls answer as the map says. At any time what a lookup has opened may be
closed, and a new directory made and used from then on.
-/

namespace Pintos

open Machinery Finset

namespace Fs

/-! ## The system -/

/-- As in `filesys_create`: a sector for what `create` makes, given back if that fails. -/
def inNewSector (m : Mem) (create : ℕ → FsM Bool) : FsM (Option ℕ) := do
  let sector ← freeMapAllocate (m.sub 1) 1
  match sector with
  | none => return none
  | some sector =>
    let created ← create sector
    if !created && sector ≠ 0 then freeMapRelease (m.sub 4) sector 1 else pure ()
    return if created then some sector else none

def newDir (m : Mem) (entryCnt : ℕ) : FsM (Option (ℕ × ℕ)) := do
  let sector ← inNewSector (m.sub 0) fun sector => dirCreate (m.sub 1) sector entryCnt
  match sector with
  | none => return none
  | some sector =>
    let dir ← (do let inode ← inodeOpen (m.sub 2) sector; dirOpen (m.sub 3) inode)
    return dir.map fun dir => (sector, dir)

/-- The calls of `dir_readdir` until one finds nothing, as in `fsutil_ls`. -/
def readdirs (m : Mem) (dir : ℕ) : ℕ → FsM (List (List UInt8))
  | 0 => return []
  | turns + 1 => do
    let name ← dirReaddir (m.sub turns) dir
    match name with
    | none => return []
    | some name =>
      let names ← readdirs m dir turns
      return name :: names

/-- A directory, the map it should be, the files not yet linked, and how often each inode has been
looked up and not closed. -/
structure DirState where
  fs : Fs
  dir : ℕ
  sector : ℕ
  capacity : ℕ
  map : Finset (List UInt8 × ℕ)
  made : Finset ℕ
  held : ℕ → ℕ

/-- What is done with a directory. -/
inductive DirCall where
  | make (length : ℤ)
  | newDir (entryCnt : ℕ)
  | add (junk : Fin 15 → UInt8) (name : CString) (sector : ℕ)
  | remove (name : CString)
  | lookup (name : CString)
  | close (inode : ℕ)

/-- One call, with memory enough. A file is linked once; an `off_t` can count a directory's bytes.
-/
def dirStep (w : DirState) : DirCall → DirState → Prop
  | .make length, w' => 0 ≤ length ∧ length < 2 ^ 31 ∧ ∃ r s',
      (inNewSector .plenty fun sector => inodeCreate .plenty sector length).run w.fs = .ok r s' ∧
        w' = { w with fs := s', made := r.elim w.made fun x => insert x w.made }
  | .newDir entryCnt, w' => entryCnt * entrySize < 2 ^ 31 ∧ ∃ sector dir s',
      (newDir .plenty entryCnt).run w.fs = .ok (some (sector, dir)) s' ∧
        w' = { w with fs := s', dir, sector, capacity := entryCnt, map := ∅ }
  | .add junk name sector, w' => sector ∈ w.made ∧ ∃ r s',
      (dirAdd .plenty junk w.dir name sector).run w.fs = .ok r s' ∧
        w' = if r then { w with
            fs := s', map := insert (name.bytes, sector) w.map, made := w.made.erase sector }
          else { w with fs := s' }
  | .remove name, w' => ∃ r s', (dirRemove .plenty w.dir name).run w.fs = .ok r s' ∧
      w' = if r then { w with fs := s', map := w.map.filter fun p => p.1 ≠ name.bytes }
        else { w with fs := s' }
  | .lookup name, w' => ∃ r s', (dirLookup .plenty w.dir name).run w.fs = .ok r s' ∧
      w' = { w with fs := s', held := r.elim w.held (more w.held) }
  | .close inode, w' => w.held inode ≠ 0 ∧ ∃ s', (inodeClose .plenty inode).run w.fs = .ok () s' ∧
      w' = { w with fs := s', held := less w.held inode }

/-- The system of a directory, first the root of a freshly formatted file system. -/
def dirSystem : System DirState DirCall where
  init w := ∃ s₀ m junk s₁ dir s₂, s₀.Booting ∧ (filesysInit m junk true).run s₀ = .ok () s₁ ∧
    (dirOpenRoot .plenty).run s₁ = .ok (some dir) s₂ ∧
    w = ⟨s₂, dir, rootDirSector, 16, ∅, ∅, nothing⟩
  step := dirStep

/-! ## Files and directories are made -/

section

variable {K K' : ℕ → Prop} {pend : ℕ → ℕ} {f₀ D n x : ℕ} {length : ℤ} {s s' : Fs}

/-- A new file is fresh, and its data are zeroes. -/
lemma Volume.inNewSector (h : Volume K pend f₀ D n s) (m m' : Mem) (h0 : 0 ≤ length)
    (h1 : length < 2 ^ 31) :
    Does (Fs.inNewSector m fun sector => inodeCreate m' sector length) s fun r s' =>
      (r = none ∧ After (Others K) K s s' ∧ Volume K pend f₀ D n s') ∨
      ∃ x, r = some x ∧ ¬ K x ∧ After (Others K) (Also K x) s s' ∧
        Volume (Also K x) pend f₀ D n s' ∧ Fresh (Also K x) D n s' x ∧
        (s'.disk.inodeAt x).length = length ∧
        ∀ j, (s'.disk.inodeAt x).Data j → s'.disk.sector j = fun _ => 0 := by
  rw [Fs.inNewSector, does_bind]
  refine (h.allocate (m.sub 1) 1).mono ?_
  rintro _ s₁ ⟨hafter, hvolume, ⟨rfl, -⟩ | ⟨x, rfl, ht, -⟩⟩
  · exact (does_pure none).mpr (.inl ⟨rfl, hafter, hvolume⟩)
  rw [does_bind]
  refine (hvolume.create m' ht h0 h1).mono ?_
  rintro _ s₂ (⟨rfl, hafter₂, hvolume₂, ht₂, -⟩ | ⟨rfl, hafter₂, hvolume₂, hfresh, k, hcreated⟩)
  · simp only [Bool.not_false, Bool.true_and, decide_eq_true (ht.ne_zero h.mem_map), if_true,
      does_bind, does_pure]
    refine (hvolume₂.release (m.sub 4) ht₂).mono fun _ s₃ hs₃ => .inl ⟨rfl, ?_, hs₃.2.1⟩
    exact (hafter.trans hafter₂).trans hs₃.1
  · simp only [Bool.not_true, Bool.false_and, Bool.false_eq_true, if_false, if_true, does_pure]
    have hinode : s₂.disk.inodeAt x = ⟨k, length, inodeMagic⟩ := hcreated.inode
    refine .inr ⟨x, rfl, ht.not_mem, hafter.trans hafter₂, hvolume₂, hfresh, ?_, fun j hj => ?_⟩
    · rw [hinode]
    · rw [hinode] at hj
      exact hcreated.zero j hj

/-- A fresh file of free records is a directory from now on. -/
lemma Volume.relocate {c : ℕ} (h : Volume K pend f₀ D n s) (hx : Fresh K D n s x)
    (hc : (s.disk.inodeAt x).length = (entrySize * c : ℕ)) (hfree : ∀ k < c, s.slot x k = none) :
    Volume K pend f₀ x c s := by
  have hslot (k : ℕ) (hk : k < c) (p : List UInt8 × ℕ) : s.slot x k ≠ some p := by
    rw [hfree k hk]
    exact nofun
  exact ⟨h.sound, h.counted, h.file, h.allowed, hx.mem, hx.ne.1, hc,
    fun k hk p hp => absurd hp (hslot k hk p), fun j hj k _ p _ hp => absurd hp (hslot j hj p),
    fun a i hi hr => ⟨hx.kept a i hi hr, fun k hk p hp => absurd hp (hslot k hk p)⟩⟩

end

/-! ## The directory follows the map -/

/-- A file that is not the free map, nor waiting to be linked. -/
def Settled (made : Finset ℕ) (x : ℕ) : Prop := x ≠ freeMapSector ∧ x ∉ made

/-- The directory is a volume's, and its records represent the map. -/
structure Tracks (K : ℕ → Prop) (f₀ : ℕ) (w : DirState) : Prop where
  volume : Volume K w.held f₀ w.sector w.capacity w.fs
  opened : w.fs.OpenDir w.dir w.sector
  unread : ∃ a, w.fs.dirs.get? w.dir = some ⟨a, 0⟩
  fresh : ∀ x ∈ w.made, Fresh K w.sector w.capacity w.fs x
  held : ∀ a i, w.held a ≠ 0 → w.fs.inodes.get? a = some i → Settled w.made i.sector
  represents : Represents w.capacity (w.fs.slot w.sector) w.map

section

variable {K K' : ℕ → Prop} {pend pend' : ℕ → ℕ} {f₀ D n a x dir : ℕ} {s s' : Fs} {w w' : DirState}

lemma Ages.held {P : ℕ → Prop} (hages : Ages s s') (hc : Counted pend s)
    (hP : ∀ a i, pend a ≠ 0 → s.inodes.get? a = some i → P i.sector) (ha : pend a ≠ 0) {i' : Inode}
    (hi' : s'.inodes.get? a = some i') : P i'.sector := by
  obtain ⟨i, hi⟩ := hc.inode_of_pending ha
  obtain ⟨j, hj, hsector⟩ := hages.sector a i' hi' (Heap.lt_next hi)
  exact hsector ▸ hP a j ha hj

namespace Tracks

section

variable (h : Tracks K f₀ w)

include h

section

variable (ha : After (Others K) K' w.fs s')

include ha

lemma slot_after : ∀ k < w.capacity, s'.slot w.sector k = w.fs.slot w.sector k := fun _ hk =>
  slot_of_spares ha.spares h.volume.others h.volume.linked.capacity hk

lemma fresh_after (hK : ∀ y, K y → K' y) (hx : x ∈ w.made) : Fresh K' w.sector w.capacity s' x := by
  refine (h.fresh x hx).mono (hK x (h.fresh x hx).mem) (fun k hk p hp => .inl ?_) fun b j hj _ _ => ?_
  · rwa [← h.slot_after ha k hk]
  · rw [inodes_of_heaps ha.heaps] at hj
    exact ⟨j, hj, rfl, rfl⟩

lemma after (hK : ∀ y, K y → K' y) (hv : Volume K' w.held f₀ w.sector w.capacity s') :
    Tracks K' f₀ { w with fs := s' } where
  volume := hv
  opened := h.opened.ages ha.calm.ages (dirs_of_heaps ha.heaps) hv.counted
  unread := dirs_of_heaps ha.heaps ▸ h.unread
  fresh _ hx := h.fresh_after ha hK hx
  held a i ha' hi := h.held a i ha' (by rwa [← inodes_of_heaps ha.heaps])
  represents := h.represents.congr (h.slot_after ha)

end

lemma made (hfresh : Fresh K w.sector w.capacity w.fs x)
    (hopen : ∀ a i, w.fs.inodes.get? a = some i → i.sector ≠ x) :
    Tracks K f₀ { w with made := insert x w.made } where
  volume := h.volume
  opened := h.opened
  unread := h.unread
  fresh y hy := by
    obtain rfl | hy := mem_insert.mp hy
    · exact hfresh
    · exact h.fresh y hy
  held a i ha hi := by
    obtain ⟨hmap, hmade⟩ := h.held a i ha hi
    exact ⟨hmap, fun hmem => (mem_insert.mp hmem).elim (hopen a i hi) hmade⟩
  represents := h.represents

/-! ### The calls -/

lemma make {length : ℤ} (hstep : dirStep w (.make length) w') : ∃ K', Tracks K' f₀ w' := by
  obtain ⟨h0, h1, r, s', hrun, rfl⟩ := hstep
  obtain ⟨rfl, ha, hv⟩ | ⟨x, rfl, hx, ha, hv, hfresh, -⟩ :=
    (h.volume.inNewSector .plenty .plenty h0 h1).of_run hrun
  · exact ⟨K, h.after ha (fun _ => id) hv⟩
  · refine ⟨Also K x, (h.after ha (fun _ => .inl) hv).made hfresh ?_⟩
    rintro a i hi rfl
    rw [inodes_of_heaps ha.heaps] at hi
    exact hx (h.volume.sound.known a i hi).1

lemma newDir {c : ℕ} (hstep : dirStep w (.newDir c) w') : ∃ K', Tracks K' f₀ w' := by
  obtain ⟨hc, sector, dir, s', hrun, rfl⟩ := hstep
  have hc : c * 20 < 2 ^ 31 := hc
  have hlength : toInt32 ((c * 20 : ℕ) : ℤ) = (20 * c : ℕ) := by
    rw [toInt32]
    split_ifs <;> omega
  refine Does.of_run (Q := fun r s' => ∀ sector dir, r = some (sector, dir) → ∃ K', Tracks K' f₀
    { w with fs := s', dir, sector, capacity := c, map := ∅ }) ?_ hrun sector dir rfl
  rw [Fs.newDir, does_bind]
  have h0 : 0 ≤ toInt32 ((c * 20 : ℕ) : ℤ) := by omega
  refine (h.volume.inNewSector (Mem.plenty.sub 0) (Mem.plenty.sub 1) h0 (toInt32_lt _)).mono ?_
  intro r s₁ hs₁
  obtain ⟨rfl, -⟩ | ⟨x, rfl, hx, ha, hv, hfresh, hlen, hzero⟩ := hs₁
  · refine (does_pure none).mpr fun sector dir hr => ?_
    cases hr
  have hcap := hlen.trans hlength
  have hempty (k : ℕ) (hk : k < c) : s₁.slot x k = none := slot_of_zero hcap hzero hk
  rw [does_bind]
  refine ((hv.relocate hfresh hcap hempty).openDir (Mem.plenty.sub 2) (Mem.plenty.sub 3)).mono ?_
  rintro r s₂ ⟨hv₂, hages, hkeeps, hdisk, -, -, hhandle⟩
  rw [does_pure]
  rintro sector dir hr
  obtain ⟨rfl, -⟩ | ⟨a, rfl, hdirs, hopened⟩ := hhandle
  · cases hr
  obtain ⟨rfl, rfl⟩ := Prod.mk.inj (Option.some.inj hr)
  have hempty₂ (k : ℕ) (hk : k < c) : s₂.slot x k = none := by
    rw [slot_of_disk hdisk]
    exact hempty k hk
  refine ⟨Also K x, hv₂, hopened, ⟨a, ?_⟩, fun y hy => ?_, fun b j hb hj => ?_, .of_free hempty₂⟩
  · rw [hdirs]
    exact Heap.get?_alloc_self ..
  · have hyK := (h.fresh y hy).mem
    have hy₁ := h.fresh_after ha (fun _ => .inl) hy
    refine ⟨.inl hyK, ⟨hy₁.ne.1, fun hyx : y = x => hx (hyx ▸ hyK)⟩,
      fun k hk p hp => ?_, fun b j hj hr => ?_⟩
    · rw [hempty₂ k hk] at hp
      cases hp
    · obtain ⟨j', hj', hr', hsector⟩ := hkeeps b j hj hr
      exact hsector ▸ hy₁.kept b j' hj' (hr'.trans hr)
  · exact (ha.calm.ages.trans hages).held h.volume.counted h.held hb hj

end

variable {name : CString}

variable (h : Tracks K f₀ w)

include h

lemma add {junk : Fin 15 → UInt8} (hstep : dirStep w (.add junk name x) w') : Tracks K f₀ w' := by
  obtain ⟨hmade, r, s', hrun, rfl⟩ := hstep
  obtain ⟨rfl, rfl, -⟩ | ⟨rfl, hgood, k, hk, rfl, hplenty⟩ :=
    (h.volume.dirAdd h.opened .plenty junk name x).of_run hrun
  · exact h
  obtain ⟨hfree, hnew⟩ := hplenty rfl
  have hfresh := h.fresh x hmade
  have hx : x < 2 ^ 32 :=
    (h.volume.sound.laid.sector_lt x hfresh.mem).trans w.fs.disk.size_lt
  have hheld : (DirEntry.mk x (strlcpy junk name) true).held = some (name.bytes, x) := by
    rw [DirEntry.held_eq_some, str_strlcpy hgood.2]
    exact ⟨rfl, rfl⟩
  have hslot (j : ℕ) : (w.fs.setEntry w.sector k ⟨x, strlcpy junk name, true⟩).slot w.sector j =
      if j = k then some (name.bytes, x) else w.fs.slot w.sector j := by
    rw [h.volume.slot_setEntry hk hx, hheld]
  refine ⟨h.volume.setEntry hk hx fun p hp => ?_, h.opened, h.unread, fun y hy => ?_,
    fun a i ha hi => ?_, ?_⟩
  · cases hheld.symm.trans hp
    exact hfresh.linkable k
  · obtain ⟨hyx, hy⟩ := mem_erase.mp hy
    refine (h.fresh y hy).mono (h.fresh y hy).mem (fun j hj p hp => ?_) fun b j hj _ _ => ⟨j, hj, rfl, rfl⟩
    have hp := (hslot j).symm.trans hp
    split_ifs at hp
    · cases hp
      exact .inr hyx.symm
    · exact .inl hp
  · obtain ⟨hmap, hmade⟩ := h.held a i ha hi
    exact ⟨hmap, fun hmem => hmade (mem_of_mem_erase hmem)⟩
  · refine h.represents.insert hk hfree (fun y hy => ?_) fun j _ => hslot j
    obtain ⟨j, hj, hp⟩ := h.represents.mem_iff.mp hy
    exact hnew j hj y hp

lemma closing (hc : Closing K K' w.sector x w.fs s') (hx : x ∉ w.made)
    (hv : Volume K' pend f₀ w.sector w.capacity s') (hpend : ∀ a, pend a ≠ 0 → w.held a ≠ 0)
    {map : Finset (List UInt8 × ℕ)} (hmap : Represents w.capacity (s'.slot w.sector) map)
    (hslot : ∀ k < w.capacity, ∀ p, s'.slot w.sector k = some p → w.fs.slot w.sector k = some p) :
    Tracks K' f₀ { w with fs := s', map := map, held := pend } where
  volume := hv
  opened := h.opened.ages hc.calm.ages hc.dirs hv.counted
  unread := hc.dirs ▸ h.unread
  fresh y hy := by
    have hyx : y ≠ x := fun hyx => hx (hyx ▸ hy)
    refine (h.fresh y hy).mono (hc.rest y (h.fresh y hy).mem hyx) (fun k hk p hp => .inl ?_) ?_
    · exact hslot k hk p hp
    · rintro b j hj hr rfl
      exact hc.removed b j hj hr hyx
  held _ _ ha hi :=
    hc.calm.ages.held h.volume.counted h.held (hpend _ ha) hi
  represents := hmap

lemma remove (hstep : dirStep w (.remove name) w') : ∃ K', Tracks K' f₀ w' := by
  obtain ⟨r, s', hrun, rfl⟩ := hstep
  obtain ⟨rfl, rfl, -⟩ | ⟨k, x, K', hk, hslot, hv, hc, hslots, hplenty⟩ :=
    (h.volume.dirRemove h.opened .plenty name).of_run hrun
  · exact ⟨K, h⟩
  obtain rfl := hplenty rfl
  simp only [true_and] at hslots
  refine ⟨K', h.closing hc (fun hx => ?_) hv (fun _ => id) (h.represents.erase hk hslot hslots) ?_⟩
  · exact (h.fresh x hx).unlinked k hk _ hslot rfl
  · intro j hj p hp
    rw [hslots j hj] at hp
    split_ifs at hp
    exact hp

lemma close (hstep : dirStep w (.close a) w') : ∃ K', Tracks K' f₀ w' := by
  obtain ⟨ha, s', hrun, rfl⟩ := hstep
  obtain ⟨i, hi⟩ := h.volume.counted.inode_of_pending ha
  obtain ⟨hmap, hmade⟩ := h.held a i ha hi
  obtain ⟨hv, hc, hslots⟩ := (h.volume.closing .plenty hi ha hmap).of_run hrun
  refine ⟨_, h.closing hc hmade hv (fun b hb hzero => hb ?_) (h.represents.congr hslots) ?_⟩
  · rw [less, Function.update_apply]
    split_ifs with hba
    · rw [hba] at hzero
      exact absurd hzero ha
    · exact hzero
  · intro k hk p hp
    rwa [← hslots k hk]

lemma lookup (hstep : dirStep w (.lookup name) w') : Tracks K f₀ w' := by
  obtain ⟨r, s', hrun, rfl⟩ := hstep
  obtain ⟨rfl, rfl, -⟩ | ⟨a, k, x, rfl, hk, ⟨hslot, -⟩, ho⟩ :=
    (h.volume.dirLookup h.opened .plenty name).of_run hrun
  · exact h
  obtain ⟨hK, hne⟩ := h.volume.linked.target k hk _ hslot
  have hv := h.volume.opened hK ho
  have hslots (j : ℕ) : s'.slot w.sector j = w.fs.slot w.sector j := slot_of_disk ho.disk _ _
  refine ⟨hv, h.opened.ages ho.ages ho.dirs hv.counted, ho.dirs ▸ h.unread, fun y hy => ?_,
    fun b j hb hj => ?_, h.represents.congr fun j _ => hslots j⟩
  · refine (h.fresh y hy).mono (h.fresh y hy).mem (fun j _ p hp => .inl ?_) fun b j hj hr _ => ?_
    · exact (hslots j).symm.trans hp
    · exact ho.keeps b j hj hr
  · obtain rfl | hba := eq_or_ne b a
    · obtain ⟨i, hi, hsector⟩ := ho.inode
      cases hi.symm.trans hj
      rw [hsector]
      exact ⟨hne.1, fun hx => (h.fresh x hx).unlinked k hk _ hslot rfl⟩
    · refine ho.ages.held h.volume.counted h.held ?_ hj
      exact fun hzero => hb ((more_ne hba).trans hzero)

end Tracks

end

/-! ## Scans -/

/-- `dir_readdir` lists the records in use from `k` on, in order. -/
lemma does_readdirs {m : Mem} {n a dir turns k : ℕ} {i : Inode} {s : Fs}
    (hi : s.inodes.get? a = some i) (hd : i.data.Fits s.disk)
    (hm : ∀ l j, ((m.sub l).sub j).answer = true) (hn : i.data.length = (entrySize * n : ℕ))
    (hk : k ≤ n) (hdir : s.dirs.get? dir = some ⟨a, entrySize * k⟩) (hturns : n < k + turns) :
    Does (readdirs m dir turns) s fun names _ =>
      names = (entriesFrom k n fun j => (entryAt s.disk i.data j).held).map Prod.fst := by
  induction turns generalizing k s with
  | zero => omega
  | succ turns ih =>
    rw [readdirs, does_bind]
    refine (does_dirReaddir hi hd (m.sub turns) (hm turns) hn hk hdir).mono ?_
    rintro r s' ⟨j, pos, hkj, hfree, rfl, ⟨rfl, rfl⟩ | ⟨hj, rfl, p, hp, rfl⟩⟩
    · rw [does_pure, entriesFrom_skip hkj le_rfl hfree, entriesFrom_self]
      rfl
    · rw [does_bind]
      have hrest := ih (s := s.setDirs (s.dirs.modify dir fun d =>
        { d with pos := entrySize * (j + 1) })) hi hd (by omega)
        (Heap.get?_modify_self hdir _) (by omega)
      refine hrest.mono fun names _ hnames => ?_
      rw [does_pure, entriesFrom_skip hkj hj.le hfree, entriesFrom_of_lt hj, hp, hnames]
      rfl

/-! ## Every run -/

lemma tracks_of_reachable {w : DirState} (hw : dirSystem.Reachable w) :
    ∃ K f₀, Tracks K f₀ w := by
  refine hw.invariant (I := fun w => ∃ K f₀, Tracks K f₀ w) ?_ ?_
  · rintro w ⟨s₀, m, junk, s₁, dir, s₂, hboot, hinit, hopen, rfl⟩
    have hformat := gives_filesysInit m junk hboot _ _ hinit
    obtain ⟨f₀, hv⟩ := hformat.volume
    obtain ⟨hv₂, -, -, hdisk, -, -, hhandle⟩ :=
      (hv.openDir (Mem.plenty.sub 0) (Mem.plenty.sub 1)).of_run hopen
    obtain ⟨hnone, -⟩ | ⟨a, hdir, hdirs, hopened⟩ := hhandle
    · cases hnone
    cases hdir
    refine ⟨System0, f₀, hv₂, hopened, ⟨a, ?_⟩, nofun, fun a _ ha => absurd rfl ha, .of_free ?_⟩
    · rw [hdirs]
      exact Heap.get?_alloc_self ..
    · intro k hk
      rw [slot_of_disk hdisk]
      exact hformat.slot hk
  · rintro w c w' ⟨K, f₀, h⟩ - hstep
    match c with
    | .make length =>
      obtain ⟨K', h'⟩ := h.make hstep
      exact ⟨K', f₀, h'⟩
    | .newDir c =>
      obtain ⟨K', h'⟩ := h.newDir hstep
      exact ⟨K', f₀, h'⟩
    | .add junk name x => exact ⟨K, f₀, h.add hstep⟩
    | .remove name =>
      obtain ⟨K', h'⟩ := h.remove hstep
      exact ⟨K', f₀, h'⟩
    | .lookup name => exact ⟨K, f₀, h.lookup hstep⟩
    | .close a =>
      obtain ⟨K', h'⟩ := h.close hstep
      exact ⟨K', f₀, h'⟩

section

variable {K : ℕ → Prop} {f₀ : ℕ} {w : DirState}

namespace Tracks

section

variable (h : Tracks K f₀ w)

include h

lemma present_iff {nm : List UInt8} : nm ∈ w.map.image Prod.fst ↔
    ∃ k < w.capacity, ∃ x, w.fs.slot w.sector k = some (nm, x) := by
  rw [mem_image]
  constructor
  · rintro ⟨p, hp, rfl⟩
    obtain ⟨k, hk, hslot⟩ := h.represents.mem_iff.mp hp
    exact ⟨k, hk, p.2, hslot⟩
  · rintro ⟨k, hk, x, hslot⟩
    exact ⟨_, h.represents.mem_iff.mpr ⟨k, hk, hslot⟩, rfl⟩

lemma absent_iff {nm : List UInt8} : nm ∉ w.map.image Prod.fst ↔
    ∀ k < w.capacity, ∀ x, w.fs.slot w.sector k ≠ some (nm, x) := by
  rw [h.present_iff]
  push Not
  rfl

lemma dirAdd (junk : Fin 15 → UInt8) (name : CString) (x : ℕ) :
    Does (Fs.dirAdd .plenty junk w.dir name x) w.fs fun r s' =>
      (r = true ↔ (1 ≤ name.bytes.length ∧ name.bytes.length ≤ nameMax) ∧
        name.bytes ∉ w.map.image Prod.fst ∧ w.map.card < w.capacity) ∧ (r = false → s' = w.fs) := by
  have hgood : GoodName name ↔ 1 ≤ name.bytes.length ∧ name.bytes.length ≤ nameMax := by
    rw [GoodName, Nat.one_le_iff_ne_zero, Ne, Ne, List.length_eq_zero_iff]
  rw [← hgood, h.absent_iff, ← h.represents.exists_free_iff]
  refine (h.volume.dirAdd h.opened .plenty junk name x).mono ?_
  rintro r s' (⟨rfl, rfl, hfail⟩ | ⟨rfl, hname, k, hk, -, hplenty⟩)
  · refine ⟨iff_of_false nofun ?_, fun _ => rfl⟩
    rintro ⟨hname, habsent, k, hk, hfree⟩
    exact hfail rfl hname habsent k hk hfree
  · obtain ⟨hfree, habsent⟩ := hplenty rfl
    exact ⟨iff_of_true rfl ⟨hname, habsent, k, hk, hfree⟩, nofun⟩

lemma dirRemove (name : CString) : Does (Fs.dirRemove .plenty w.dir name) w.fs fun r s' =>
      (r = true ↔ name.bytes ∈ w.map.image Prod.fst) ∧ (r = false → s' = w.fs) := by
  refine (h.volume.dirRemove h.opened .plenty name).mono ?_
  rintro r s' (⟨rfl, rfl, habsent⟩ | ⟨k, x, -, hk, hslot, -, -, -, hplenty⟩)
  · exact ⟨iff_of_false nofun (h.absent_iff.mpr (habsent rfl)), fun _ => rfl⟩
  · obtain rfl := hplenty rfl
    exact ⟨iff_of_true rfl (h.present_iff.mpr ⟨k, hk, x, hslot⟩), nofun⟩

lemma dirLookup (name : CString) : Does (Fs.dirLookup .plenty w.dir name) w.fs fun r s' =>
      (∀ a, r = some a → ∃ i, s'.inodes.get? a = some i ∧ (name.bytes, i.sector) ∈ w.map) ∧
      (r = none → name.bytes ∉ w.map.image Prod.fst ∧ s' = w.fs) := by
  refine (h.volume.dirLookup h.opened .plenty name).mono ?_
  rintro r s' (⟨rfl, rfl, habsent⟩ | ⟨a, k, x, rfl, hk, ⟨hslot, -⟩, hopened⟩)
  · exact ⟨nofun, fun _ => ⟨h.absent_iff.mpr (habsent rfl), rfl⟩⟩
  · refine ⟨?_, nofun⟩
    rintro _ ⟨⟩
    obtain ⟨i, hi, rfl⟩ := hopened.inode
    exact ⟨i, hi, h.represents.mem_iff.mpr ⟨k, hk, hslot⟩⟩

lemma readdirs {turns : ℕ} (hturns : w.capacity < turns) :
    Does (Fs.readdirs .plenty w.dir turns) w.fs fun names _ =>
      names = (entries w.capacity (w.fs.slot w.sector)).map Prod.fst := by
  obtain ⟨x, i, hx, hi, hD⟩ := h.opened
  obtain ⟨a, hdir⟩ := h.unread
  cases hx.symm.trans hdir
  have hlength := h.volume.data hi hD ▸ h.volume.linked.capacity
  refine (does_readdirs hi (h.volume.fits hi) (fun _ _ => rfl) hlength (Nat.zero_le _) hdir
    (by omega)).mono fun names _ hnames => ?_
  rw [hnames, entriesFrom_zero]
  exact congrArg _ (entries_congr fun k _ => h.volume.slot_eq hi hD k)

end

end Tracks

end

/-- **A directory is a finite map.** With memory enough, the records in use are always the map of
the successful calls; `dir_add` succeeds exactly with a new name of 1 to 14 characters and a record
to spare, `dir_remove` exactly with a name that is there; and `dir_readdir` lists each name once. -/
theorem directory_finite_map {w : DirState} (hw : dirSystem.Reachable w) :
    ((entries w.capacity (w.fs.slot w.sector)).map Prod.fst).Nodup ∧
    (entries w.capacity (w.fs.slot w.sector)).toFinset = w.map ∧
    (∀ junk name, ∀ x ∈ w.made, Does (dirAdd .plenty junk w.dir name x) w.fs fun r s' =>
      (r = true ↔ (1 ≤ name.bytes.length ∧ name.bytes.length ≤ nameMax) ∧
        name.bytes ∉ w.map.image Prod.fst ∧ w.map.card < w.capacity) ∧ (r = false → s' = w.fs)) ∧
    (∀ name, Does (dirRemove .plenty w.dir name) w.fs fun r s' =>
      (r = true ↔ name.bytes ∈ w.map.image Prod.fst) ∧ (r = false → s' = w.fs)) ∧
    (∀ name, Does (dirLookup .plenty w.dir name) w.fs fun r s' =>
      (∀ a, r = some a → ∃ i, s'.inodes.get? a = some i ∧ (name.bytes, i.sector) ∈ w.map) ∧
      (r = none → name.bytes ∉ w.map.image Prod.fst ∧ s' = w.fs)) ∧
    (∃ a, w.fs.dirs.get? w.dir = some ⟨a, 0⟩) ∧
    ∀ turns > w.capacity, Does (readdirs .plenty w.dir turns) w.fs fun names _ =>
      names = (entries w.capacity (w.fs.slot w.sector)).map Prod.fst := by
  obtain ⟨K, f₀, h⟩ := tracks_of_reachable hw
  exact ⟨h.represents.keys, h.represents.pairs, fun junk name x _ => h.dirAdd junk name x,
    h.dirRemove, h.dirLookup, h.unread, fun _ => h.readdirs⟩

def nameA : CString := ⟨[97], by decide⟩

/-- A file is made on a device of six sectors, and linked under a name. -/
theorem directory_finite_map_linked : ∃ w : DirState, dirSystem.Reachable w ∧
    w.map = {(nameA.bytes, 4)} ∧ ((entries w.capacity (w.fs.slot w.sector)).toFinset = w.map) ∧
    Does (dirRemove .plenty w.dir nameA) w.fs fun r _ => r = true := by
  have hrun : endsWith (fun _ s₁ => endsWith (fun dir s₂ => dir = some 0 ∧
      endsWith (fun x s₃ => x = some 4 ∧
        endsWith (fun added _ => added) ((dirAdd .plenty (fun _ => 7) 0 nameA 4).run s₃) = true)
      ((inNewSector .plenty fun sector => inodeCreate .plenty sector 5).run s₂) = true)
      ((dirOpenRoot .plenty).run s₁))
      ((filesysInit .plenty (fun _ => 0xffffffff#32) true).run sixSectors) = true := by decide +kernel
  simp only [endsWith_iff, decide_eq_true_eq] at hrun
  obtain ⟨_, s₁, hinit, _, s₂, hopen, rfl, _, s₃, hmake, rfl, _, s₄, hadd, rfl⟩ := hrun
  have hboot : sixSectors.Booting := ⟨fun _ => rfl, fun _ => rfl, rfl⟩
  have hopened : dirSystem.Reachable ⟨s₂, 0, rootDirSector, 16, ∅, ∅, nothing⟩ :=
    .start ⟨sixSectors, _, _, s₁, 0, s₂, hboot, hinit, hopen, rfl⟩
  have hmade : dirSystem.Reachable ⟨s₃, 0, rootDirSector, 16, ∅, {4}, nothing⟩ :=
    hopened.next (a := .make 5) trivial ⟨by decide, by decide, some 4, s₃, hmake, rfl⟩
  have hlinked : dirSystem.Reachable ⟨s₄, 0, rootDirSector, 16, {(nameA.bytes, 4)}, ∅, nothing⟩ :=
    hmade.next (a := .add (fun _ => 7) nameA 4) trivial
      ⟨Finset.mem_singleton_self 4, true, s₄, hadd, rfl⟩
  obtain ⟨-, hmap, -, hremove, -⟩ := directory_finite_map hlinked
  refine ⟨_, hlinked, rfl, hmap, (hremove nameA).mono fun r _ hr => hr.1.mpr ?_⟩
  exact Finset.mem_image.mpr ⟨_, Finset.mem_singleton_self _, rfl⟩

end Fs

end Pintos
