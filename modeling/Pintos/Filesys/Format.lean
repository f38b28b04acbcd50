import Pintos.Filesys.Layout

/-!
# Filesys/Format — a freshly formatted file system

`filesys_init (true)` brings the free map up before there is a file for it. What comes out is the
state every run of the file system starts from: the free map's file in sector 0, the root directory's
in sector 1, the directory empty and the map on the disk.
-/

namespace Pintos

open Machinery Bitmap Heap Nat

namespace Fs

/-- A machine that has just started: no file and no directory is open. -/
structure Booting (s : Fs) : Prop where
  files : ∀ f, s.files.get? f = none
  dirs : ∀ d, s.dirs.get? d = none
  noMap : s.freeMapFile = none

/-- The two files of a formatted file system. -/
def System0 (x : ℕ) : Prop := x = freeMapSector ∨ x = rootDirSector

/-- The files of a file system that is being formatted: the free map's only. -/
def MapOnly (x : ℕ) : Prop := x = freeMapSector

/-- A freshly formatted file system. -/
structure Formatted (s : Fs) : Prop where
  sound : Sound System0 s
  counted : Counted nothing s
  map : ∃ f, s.freeMapFile = some f ∧ ∀ g x, s.files.get? g = some x → g = f ∧ x.denyWrite = false
  dirs : ∀ d, s.dirs.get? d = none
  only : ∀ a i, s.inodes.get? a = some i → i.sector = freeMapSector
  root : (s.disk.inodeAt rootDirSector).length = 320
  empty : ∀ n, (s.disk.inodeAt rootDirSector).Data n → s.disk.sector n = fun _ => 0
  room : s.HasRoom
  small : s.freeMap.bitCnt + 31 < 2 ^ 32
  clean : s.freeMap.Clean
  mirror : ∀ f i, s.freeMapFile = some f → s.fileInode f = some i →
    ∀ b : Bitmap, b.bitCnt = s.freeMap.bitCnt → ∀ k < Bitmap.elemCnt s.freeMap.bitCnt,
      (b.load (s.disk.slice i.data.base (Bitmap.byteCnt s.freeMap.bitCnt))).bits k =
        s.freeMap.bits k

section

variable {K : ℕ → Prop} {s s' : Fs}

/-! ## The free map's file is opened -/

/-- The state with the file in sector 0 opened as the free map's. -/
def withMap (s : Fs) : Fs :=
  { (s.loaded freeMapSector).setFiles (s.files.alloc ⟨s.inodes.next, 0, false⟩) with
    freeMapFile := some s.files.next }

/-- Nothing is open but the free map's file, the inode `i` at `a`. -/
structure SoleMap (s : Fs) (f a : ℕ) (i : Inode) : Prop where
  file : s.freeMapFile = some f
  files : ∀ g x, s.files.get? g = some x ↔ g = f ∧ x = ⟨a, 0, false⟩
  inodes : ∀ b j, s.inodes.get? b = some j ↔ b = a ∧ j = i
  dirs : ∀ d, s.dirs.get? d = none
  sector : i.sector = freeMapSector
  openCnt : i.openCnt = 1
  kept : i.removed = false
  allowed : i.denyWriteCnt = 0

lemma get?_alloc_iff {α : Type} {h : Heap α} (hnone : ∀ a, h.get? a = none) (x : α) (a : ℕ) (y : α) :
    (h.alloc x).get? a = some y ↔ a = h.next ∧ y = x := by
  obtain rfl | ha := eq_or_ne a h.next
  · simp [eq_comm]
  · rw [get?_alloc_of_ne ha, hnone]
    simp [ha]

lemma Closed.soleMap (h : s.Closed) :
    s.withMap.SoleMap s.files.next s.inodes.next (newInode s freeMapSector) :=
  ⟨rfl, get?_alloc_iff h.files _, get?_alloc_iff h.inodes _, h.dirs, rfl, rfl, rfl, rfl⟩

lemma Closed.counted_withMap (h : s.Closed) : Counted nothing s.withMap := by
  have hloaded := h.counted.loaded (x := freeMapSector) fun b j hj => by
    rw [h.inodes] at hj
    cases hj
  have hfile := hloaded.allocFile (a := s.inodes.next) (by simp) 0
  rw [less_more] at hfile
  exact hfile.of_heaps_eq rfl

lemma gives_openFreeMapFile (m : Mem) (h : s.Closed) :
    Gives (openFreeMapFile m) s fun f s' => f = s.files.next ∧ s' = s.withMap := by
  simp only [openFreeMapFile, gives_bind, gives_modify, gives_orThrow]
  refine (gives_inodeOpen _ _).mono ?_
  rintro r s₁ (⟨rfl, rfl, -⟩ | ⟨a, rfl, hopened⟩)
  · refine (gives_pure none).mpr fun f hf => ?_
    cases hf
  · cases hopened with
    | reopened hi =>
      rw [h.inodes] at hi
      cases hi
    | loaded =>
      have hi : (s.loaded freeMapSector).inodes.get? s.inodes.next =
        some (newInode s freeMapSector) := get?_alloc_self ..
      refine (gives_fileOpen _ hi).mono fun r s₂ hs₂ f hf => ?_
      obtain ⟨rfl, rfl⟩ | ⟨rfl, -⟩ := hs₂
      · exact ⟨(Option.some.inj hf).symm, rfl⟩
      · cases hf

namespace SoleMap

variable {f a : ℕ} {i : Inode}

variable (h : s.SoleMap f a i)

include h

lemma fileInode : s.fileInode f = some i :=
  fileInode_eq_some.mpr ⟨_, (h.files f _).mpr ⟨rfl, rfl⟩, (h.inodes a i).mpr ⟨rfl, rfl⟩⟩

lemma of_heaps (hheaps : s'.heaps = s.heaps) (hfile : s'.freeMapFile = s.freeMapFile) :
    s'.SoleMap f a i :=
  ⟨hfile.trans h.file, files_of_heaps hheaps ▸ h.files, inodes_of_heaps hheaps ▸ h.inodes,
    dirs_of_heaps hheaps ▸ h.dirs, h.sector, h.openCnt, h.kept, h.allowed⟩

lemma sound (hlaid : Laid K s.disk s.freeMap) (h0 : K freeMapSector)
    (hdata : i.data = s.disk.inodeAt freeMapSector) : Sound K s := by
  refine ⟨hlaid, fun b j hj => ?_, fun g hg => ?_⟩
  · obtain ⟨-, rfl⟩ := (h.inodes b j).mp hj
    rw [h.sector]
    exact ⟨h0, hdata⟩
  · cases h.file.symm.trans hg
    exact ⟨i, h.fileInode, h.sector, h.kept, h.allowed⟩

end SoleMap

/-! ## Stage by stage -/

/-- A map of all sectors, with those of the two inodes marked. -/
structure Blank (b : Bitmap) (size : ℕ) : Prop where
  bitCnt : b.bitCnt = size
  small : b.bitCnt + 31 < 2 ^ 32
  pos : 0 < b.bitCnt
  marked : ∀ x, System0 x → b.get x = true

lemma gives_freeMapInit (m : Mem) (junk : ℕ → BitVec 32) :
    Gives (freeMapInit m junk) s fun _ s' =>
      ∃ b, Blank b s.disk.size ∧ b.Vacant 2 ∧ s' = s.setFreeMap b := by
  simp only [freeMapInit, gives_bind, gives_get, gives_ite, gives_throw, gives_orThrow, gives_set,
    implies_true, true_and, and_true]
  intro _ b hb hne
  obtain ⟨hcnt, hsmall, hclear⟩ := bitCnt_create s.disk.size_lt hb
  refine ⟨(b.mark freeMapSector).mark rootDirSector, ⟨hcnt, ?_, Nat.pos_of_ne_zero hne, ?_⟩,
    fun n hn hlt => ?_, rfl⟩
  · show b.bitCnt + 31 < 2 ^ 32
    rw [hcnt]
    exact hsmall (hcnt ▸ hne)
  · rintro x (rfl | rfl)
    · simp [get_mark]
    · simp [get_mark]
  · have h0 : n ≠ freeMapSector := by show n ≠ 0; omega
    have h1 : n ≠ rootDirSector := by show n ≠ 1; omega
    rw [get_mark, get_mark, decide_eq_false h1, decide_eq_false h0]
    exact hclear n (Nat.lt_of_lt_of_eq hlt hcnt)

lemma toInt32_byteCnt (n : ℕ) : toInt32 (Bitmap.byteCnt n) = Bitmap.byteCnt n := by
  have hlt : byteCnt n < 2 ^ 31 := by
    show 4 * ((n + 32 - 1) % 2 ^ 32 / 32) % 2 ^ 32 < 2 ^ 31
    omega
  rw [toInt32]
  split_ifs <;> omega

lemma byteCnt_eq (n : ℕ) : Bitmap.byteCnt n = 4 * Bitmap.elemCnt n := by
  show 4 * ((n + 32 - 1) % 2 ^ 32 / 32) % 2 ^ 32 = 4 * ((n + 32 - 1) % 2 ^ 32 / 32)
  omega

/-- The free map's file is there, and open; the root directory's sector is taken. -/
structure MapMade (s : Fs) (f a : ℕ) (i : Inode) : Prop where
  sole : s.SoleMap f a i
  sound : Sound MapOnly s
  counted : Counted nothing s
  length : i.data.length = Bitmap.byteCnt s.freeMap.bitCnt
  small : s.freeMap.bitCnt + 31 < 2 ^ 32
  rootTaken : Taken MapOnly s rootDirSector 1

lemma sound_noSector (h : s.Closed) (hmap : s.freeMapFile = none)
    (hcnt : s.freeMap.bitCnt = s.disk.size) : Sound NoSector s := by
  refine ⟨⟨hcnt, nofun, nofun, nofun, nofun, nofun, nofun⟩, fun a i hi => ?_, fun f hf => ?_⟩
  · rw [h.inodes] at hi
    cases hi
  · rw [hmap] at hf
    cases hf

lemma two_lt_of_created {k : ℕ} (hb : Blank s.freeMap s.disk.size)
    (hc : s.Created freeMapSector (Bitmap.byteCnt s.freeMap.bitCnt) k s') : 2 ≤ k ∧ k < s.disk.size := by
  have hcnt : 0 < bytesToSectors (byteCnt s.freeMap.bitCnt) := by
    have hpos := hb.pos
    have hsmall := hb.small
    have hbytes : byteCnt s.freeMap.bitCnt =
      4 * ((s.freeMap.bitCnt + 32 - 1) % 2 ^ 32 / 32) % 2 ^ 32 := rfl
    have hle := InodeDisk.sectors_le (d := ⟨k, byteCnt s.freeMap.bitCnt, 0⟩)
      (Int.natCast_nonneg _) (by show ((byteCnt s.freeMap.bitCnt : ℕ) : ℤ) < 2 ^ 31; omega)
    have hsectors : InodeDisk.sectors ⟨k, byteCnt s.freeMap.bitCnt, 0⟩ =
      ((byteCnt s.freeMap.bitCnt : ℤ).toNat + 511) / 512 := rfl
    dsimp only at hle
    omega
  have hextent := hc.takes.gap.1
  have hne (x : ℕ) (hx : System0 x) : k ≠ x := by
    rintro rfl
    exact hc.takes.not_extent (hb.marked k hx) ⟨le_rfl, by omega⟩
  have h0 : k ≠ 0 := hne 0 (.inl rfl)
  have h1 : k ≠ 1 := hne 1 (.inr rfl)
  have hsize := hb.bitCnt
  exact ⟨by omega, by omega⟩

lemma gives_freeMapCreate (m : Mem) (h : s.Closed) (hmap : s.freeMapFile = none)
    (hb : Blank s.freeMap s.disk.size) (hvacant : s.freeMap.Vacant 2) :
    Gives (freeMapCreate m) s fun _ s' => (∃ f a i, s'.MapMade f a i) ∧
      s'.freeMap.Vacant (2 + bytesToSectors (Bitmap.byteCnt s'.freeMap.bitCnt)) := by
  have hsound := sound_noSector h hmap hb.bitCnt
  have htaken : Taken NoSector s freeMapSector 1 := by
    have hpos := hb.pos
    have hcnt := hb.bitCnt
    refine ⟨show 0 + 1 ≤ s.disk.size by omega, fun n hn => ?_, fun _ _ _ => nofun⟩
    rw [extent_one.mp hn]
    exact hb.marked _ (.inl rfl)
  have hbytes : ((byteCnt s.freeMap.bitCnt : ℕ) : ℤ) < 2 ^ 31 := by
    rw [← toInt32_byteCnt]
    exact toInt32_lt _
  simp only [freeMapCreate, gives_bind, gives_get, gives_require, toInt32_byteCnt]
  refine (hsound.create _ htaken (Int.natCast_nonneg _) hbytes).gives.mono fun r s₁ hs₁ hr => ?_
  obtain ⟨rfl, -⟩ | ⟨-, hafter, k, hc⟩ := hs₁
  · cases hr
  have hcnt : s₁.freeMap.bitCnt = s.freeMap.bitCnt := hc.takes.bits.bitCnt
  have hclosed : s₁.Closed := ⟨inodes_of_heaps hafter.heaps ▸ h.inodes,
    files_of_heaps hafter.heaps ▸ h.files, dirs_of_heaps hafter.heaps ▸ h.dirs⟩
  refine (gives_openFreeMapFile _ hclosed).mono ?_
  rintro f s₂ ⟨rfl, rfl⟩
  have hsole := hclosed.soleMap
  have hlaid : Laid MapOnly s₁.disk s₁.freeMap :=
    hafter.sound.laid.setTo (setTo_nothing (fun _ => id) true)
      (fun _ => .inr) (.inl rfl)
  have hsound₂ : Sound MapOnly s₁.withMap := hsole.sound hlaid rfl rfl
  obtain ⟨i, hi⟩ := hsound₂.mapReady _ hsole.file
  obtain ⟨w, hw, -, hrun⟩ := bitmapWrite_run (m.sub 2) hi
  refine (does_of_run hrun fun _ => ?_).gives
  have hremap : s₁.withMap.Remap NoSector true (s₁.withMap.setDisk
      (s₁.withMap.disk.put (i.data.base + 0) w s₁.withMap.freeMap.byte)) :=
    ⟨rfl, changedIn_bitmapWrite hi hsole.file hw _, setTo_nothing (fun _ => id) true⟩
  have hroot : Taken MapOnly s₁.withMap rootDirSector 1 := by
    obtain ⟨hk, hlt⟩ := two_lt_of_created hb hc
    refine ⟨?_, fun n hn => ?_, fun n hn y hy howns => ?_⟩
    · show 1 + 1 ≤ s₁.disk.size
      rw [hc.disk.size]
      omega
    all_goals
      obtain rfl := extent_one.mp hn
    · exact (hc.takes.bits.notMem _ fun hextent => absurd hextent.1 (by show ¬ k ≤ 1; omega)).trans
        (hb.marked _ (.inr rfl))
    · obtain rfl : y = freeMapSector := hy
      obtain hroot | hdata := howns
      · cases hroot
      · have hinode : s₁.disk.inodeAt freeMapSector = ⟨k, _, inodeMagic⟩ := hc.inode
        have hdata : (s₁.disk.inodeAt freeMapSector).Data rootDirSector := hdata
        rw [hinode] at hdata
        exact absurd hdata.1 (by show ¬ k ≤ 1; omega)
  refine ⟨⟨_, _, _, hsole.of_heaps rfl rfl, (hsound₂.remap_same hremap).sound,
    hclosed.counted_withMap.of_heaps_eq rfl, ?_, ?_, hsound₂.taken_remap hremap hroot (.inl rfl)⟩, ?_⟩
  · have hinode : (newInode s₁ freeMapSector).data = ⟨k, _, inodeMagic⟩ := hc.inode
    rw [hinode]
    show ((byteCnt s.freeMap.bitCnt : ℕ) : ℤ) = (byteCnt s₁.freeMap.bitCnt : ℕ)
    rw [hcnt]
  · show s₁.freeMap.bitCnt + 31 < 2 ^ 32
    rw [hcnt]
    exact hb.small
  · show s₁.freeMap.Vacant (2 + bytesToSectors (byteCnt s₁.freeMap.bitCnt))
    rw [hcnt]
    exact hvacant.takes hc.takes

/-- The root directory is there too, and the map is on the disk. -/
structure RootMade (s : Fs) (f a : ℕ) (i : Inode) : Prop where
  sole : s.SoleMap f a i
  sound : Sound System0 s
  counted : Counted nothing s
  length : i.data.length = Bitmap.byteCnt s.freeMap.bitCnt
  small : s.freeMap.bitCnt + 31 < 2 ^ 32
  onDisk : s.OnDisk
  root : (s.disk.inodeAt rootDirSector).length = 320
  empty : ∀ n, (s.disk.inodeAt rootDirSector).Data n → s.disk.sector n = fun _ => 0

variable {f a : ℕ} {i : Inode}

lemma MapMade.gives_dirCreate {p : ℕ} (h : s.MapMade f a i) (hvacant : s.freeMap.Vacant p)
    (m : Mem) : Gives (dirCreate m rootDirSector 16) s fun r s' => r = true →
      s'.RootMade f a i ∧ s'.freeMap.bitCnt = s.freeMap.bitCnt ∧ s'.freeMap.Vacant (p + 1) := by
  have hlength : toInt32 (((16 : ℕ) : ℤ) * (entrySize : ℕ)) = 320 := by decide
  refine (h.sound.create m h.rootTaken (by decide) (by decide)).gives.mono fun r s' hs' hr => ?_
  obtain ⟨rfl, -⟩ | ⟨-, hafter, k, hc⟩ := hs'
  · cases hr
  have hinode : s'.disk.inodeAt rootDirSector = ⟨k, 320, inodeMagic⟩ := hc.inode
  have hcnt : s'.freeMap.bitCnt = s.freeMap.bitCnt := hc.takes.bits.bitCnt
  refine ⟨⟨h.sole.of_heaps hafter.heaps hafter.file, hafter.sound,
    h.counted.of_heaps_eq hafter.heaps, hcnt ▸ h.length, hcnt ▸ h.small, hc.onDisk fun n hn => ?_, ?_,
    ?_⟩, hcnt, hvacant.takes hc.takes⟩
  · obtain ⟨h0, hdata⟩ := h.sound.mapData hn
    refine ⟨?_, h.sound.laid.marked _ n h0 (.inr hdata)⟩
    rintro rfl
    exact h.rootTaken.unowned _ (extent_one.mpr rfl) _ h0 (.inr hdata)
  · rw [hinode]
  · rw [hinode]
    exact hc.zero

lemma SoleMap.freeMapClose_run (h : s.SoleMap f a i) (hcounted : Counted nothing s) (m : Mem) :
    (freeMapClose m).run s = .ok () ((s.dropRef a i).setFiles (s.files.free f)) := by
  have hx := (h.files f _).mpr ⟨rfl, rfl⟩
  have hi := (h.inodes a i).mpr ⟨rfl, rfl⟩
  have hclose := inodeClose_kept m hi h.kept
  simp only [freeMapClose, EStateM.run_bind, EStateM.run_get, h.file, fileClose_run m hcounted hx,
    withDeny, if_true, hclose]
  rfl

lemma SoleMap.closed (h : s.SoleMap f a i) :
    ((s.dropRef a i).setFiles (s.files.free f)).Closed := by
  have hinodes : (s.dropRef a i).inodes = s.inodes.free a := if_pos h.openCnt
  refine ⟨fun b => ?_, fun g => ?_, h.dirs⟩
  · show (s.dropRef a i).inodes.get? b = none
    rw [hinodes]
    obtain rfl | hb := eq_or_ne b a
    · exact get?_free_self ..
    · rw [get?_free_of_ne hb]
      exact Option.eq_none_iff_forall_ne_some.mpr fun j hj => hb ((h.inodes b j).mp hj).1
  · obtain rfl | hg := eq_or_ne g f
    · exact get?_free_self ..
    · refine (get?_free_of_ne hg).trans ?_
      exact Option.eq_none_iff_forall_ne_some.mpr fun x hx => hg ((h.files g x).mp hx).1

lemma gives_bitmapRead (m : Mem) (hi : s.Writable f i) (hpos : 0 < s.freeMap.bitCnt) :
    Gives (bitmapRead m s.freeMap f) s fun r s' => s' = s ∧ (r.1 = true →
      r.2 = s.freeMap.load (s.disk.slice i.data.base (Bitmap.byteCnt s.freeMap.bitCnt))) := by
  obtain ⟨x, hx, hi'⟩ := fileInode_eq_some.mp hi.inode
  obtain ⟨k, -, -, hrun⟩ := inodeReadAt_run m (byteCnt s.freeMap.bitCnt) 0 hi' hi.fits
  rw [bitmapRead, if_pos hpos]
  simp only [fileReadAt, gives_bind, gives_get, gives_orThrow, gives_pure]
  intro y hy
  cases hx.symm.trans hy
  refine (does_of_run hrun ⟨rfl, fun hfull => ?_⟩).gives
  obtain rfl : k = byteCnt s.freeMap.bitCnt := by simpa using hfull
  rfl

lemma gives_freeMapOpen (m : Mem) (h : s.Closed) (hlaid : Laid System0 s.disk s.freeMap)
    (hlength : s.Roomy) (hsmall : s.freeMap.bitCnt + 31 < 2 ^ 32) (hon : s.MapWritten)
    (hroot : (s.disk.inodeAt rootDirSector).length = 320)
    (hempty : ∀ n, (s.disk.inodeAt rootDirSector).Data n → s.disk.sector n = fun _ => 0) :
    Gives (freeMapOpen m) s fun _ s' => s'.Formatted ∧ s'.freeMap.bitCnt = s.freeMap.bitCnt ∧
      ∀ n < s.freeMap.bitCnt, s'.freeMap.get n = s.freeMap.get n := by
  simp only [freeMapOpen, gives_bind, gives_get, gives_modify, gives_require]
  refine (gives_openFreeMapFile _ h).mono ?_
  rintro f s₁ ⟨rfl, rfl⟩
  have hsole := h.soleMap
  have hsound : Sound System0 s.withMap := hsole.sound hlaid (.inl rfl) rfl
  obtain ⟨i, hi⟩ := hsound.mapReady _ hsole.file
  cases hsole.fileInode.symm.trans hi.inode
  have hpos : 0 < s.freeMap.bitCnt := hlaid.bitCnt ▸ zero_lt_of_lt (hlaid.sector_lt _ (.inl rfl))
  refine (gives_bitmapRead _ hi hpos).mono fun r s₂ hs₂ hr => ?_
  obtain ⟨rfl, hread⟩ := hs₂
  rw [hread hr]
  have hbytes : byteCnt s.freeMap.bitCnt = 4 * elemCnt s.freeMap.bitCnt :=
    byteCnt_eq _
  have hslice (n : ℕ) (hn : n < 4 * elemCnt s.freeMap.bitCnt) :
      (s.disk.slice (s.disk.inodeAt freeMapSector).base (byteCnt s.freeMap.bitCnt))[n]? =
        some (s.freeMap.byte n) := by
    rw [Block.getElem?_slice (by omega), hon n (by omega)]
  have hinode (f : ℕ) (i : Inode) (hf : s.withMap.freeMapFile = some f)
      (hi : s.withMap.fileInode f = some i) : i = newInode s freeMapSector := by
    cases hsole.file.symm.trans hf
    exact Option.some.inj (hi.symm.trans hsole.fileInode)
  have hbits (n : ℕ) (hn : n < s.freeMap.bitCnt) : (s.freeMap.load (s.disk.slice
      (s.disk.inodeAt freeMapSector).base (byteCnt s.freeMap.bitCnt))).get n =
        s.freeMap.get n := get_load rfl hslice hsmall hn
  refine ⟨⟨?_, h.counted_withMap.of_heaps_eq rfl, ⟨_, rfl, fun g x hx => ?_⟩, h.dirs, fun a i hi => ?_,
    hroot, hempty, fun f i hf hi => ?_, hsmall, clean_load _ _, fun f i hf hi b hb k hk => ?_⟩,
    rfl, hbits⟩
  · have hsole' (b : Bitmap) : (s.withMap.setFreeMap b).SoleMap s.files.next s.inodes.next
        (newInode s freeMapSector) := hsole.of_heaps rfl rfl
    refine (hsole' _).sound ?_ (.inl rfl) rfl
    refine hlaid.of_bits rfl fun n hn => hbits n ?_
    rw [hlaid.bitCnt]
    exact hn
  · obtain ⟨hg, rfl⟩ := (hsole.files g x).mp hx
    exact ⟨hg, rfl⟩
  · obtain ⟨-, rfl⟩ := (hsole.inodes a i).mp hi
    rfl
  · rw [hinode f i hf hi]
    exact hlength
  · rw [hinode f i hf hi]
    refine bits_load_congr (b := s.freeMap) hb ?_ hk
    rw [Block.length_slice]
    exact le_of_eq hbytes.symm

lemma gives_filesysInit_vacant (m : Mem) (junk : ℕ → BitVec 32) (h : s.Booting) :
    Gives (filesysInit m junk true) s fun _ s' => s'.Formatted ∧
      s'.freeMap.Vacant (2 + bytesToSectors (Bitmap.byteCnt s'.freeMap.bitCnt) + 1) := by
  simp only [filesysInit, doFormat, if_true, gives_bind, gives_modify, gives_require]
  refine (gives_freeMapInit _ junk).mono ?_
  rintro _ s₁ ⟨b, hb, hvacant, rfl⟩
  have hclosed : ({ s with inodes := empty }.setFreeMap b).Closed :=
    ⟨fun _ => rfl, h.files, h.dirs⟩
  refine (gives_freeMapCreate _ hclosed h.noMap hb hvacant).mono ?_
  rintro _ s₂ ⟨⟨f, a, i, hmade⟩, hvacant₂⟩
  refine (hmade.gives_dirCreate hvacant₂ _).mono fun r s₃ hs₃ hr => ?_
  obtain ⟨hroot, hcnt₃, hvacant₃⟩ := hs₃ hr
  refine (does_of_run (hroot.sole.freeMapClose_run hroot.counted _) ?_).gives
  obtain ⟨j, hj, -, -, hdata⟩ := hroot.sound.map_known hroot.sole.file
  cases hroot.sole.fileInode.symm.trans hj
  have hroomy : s₃.Roomy := (congrArg InodeDisk.length hdata).symm.trans hroot.length
  refine (gives_freeMapOpen _ hroot.sole.closed hroot.sound.laid hroomy hroot.small
    (hroot.sound.mapWritten hroot.sole.file hroot.onDisk) hroot.root hroot.empty).mono ?_
  rintro _ s₄ ⟨hformatted, hcnt₄, hbits⟩
  refine ⟨hformatted, fun n hn hlt => ?_⟩
  rw [hcnt₄] at hn hlt
  rw [hbits n hlt]
  exact hvacant₃ n (by rw [← hcnt₃]; exact hn) hlt

lemma gives_filesysInit (m : Mem) (junk : ℕ → BitVec 32) (h : s.Booting) :
    Gives (filesysInit m junk true) s fun _ s' => s'.Formatted :=
  (gives_filesysInit_vacant m junk h).mono fun _ _ => And.left

end

end Fs

end Pintos
