import Pintos.Filesys.Format

/-!
# Filesys/Mirror — the free map on the disk is the free map in memory

The file holds the elements of the map, whose spare bits may be anything; `bitmap_read` clears them.
So what is compared is what `bitmap_read` *makes* of the file: it is the map in memory, element by
element, after formatting and after every change.
-/

namespace Pintos

open Machinery Bitmap

namespace Fs

/-- What the free map's file `f` reads as is the free map, whatever it is read into. -/
structure Mirror (s : Fs) (f : ℕ) (i : Inode) : Prop where
  file : s.freeMapFile = some f
  writable : s.Writable f i
  length : i.data.length = Bitmap.byteCnt s.freeMap.bitCnt
  small : s.freeMap.bitCnt + 31 < 2 ^ 32
  pos : 0 < s.freeMap.bitCnt
  clean : s.freeMap.Clean
  read : ∀ b : Bitmap, b.bitCnt = s.freeMap.bitCnt → ∀ k < Bitmap.elemCnt s.freeMap.bitCnt,
    (b.load (s.disk.slice i.data.base (Bitmap.byteCnt s.freeMap.bitCnt))).bits k = s.freeMap.bits k

/-- The calls that change the free map. -/
inductive MapCall where
  | allocate (m : Mem) (cnt : ℕ)
  | release (m : Mem) (sector cnt : ℕ)

def MapCall.mem : MapCall → Mem
  | allocate m _ => m
  | release m _ _ => m

def MapCall.run : MapCall → FsM Unit
  | allocate m cnt => do let _ ← freeMapAllocate m cnt
  | release m sector cnt => freeMapRelease m sector cnt

/-- The system of the free map, from formatting on, with memory for bounce buffers. -/
def mapSystem : System Fs MapCall where
  init s := ∃ s₀ m junk, s₀.Booting ∧ (filesysInit m junk true).run s₀ = .ok () s
  step s c s' := c.mem.answer = true ∧ c.run.run s = .ok () s'

section

variable {s s' : Fs} {f : ℕ} {i : Inode} {b : Bitmap} {d : Block}

lemma Formatted.mirror_file (h : s.Formatted) : ∃ f i, s.Mirror f i := by
  obtain ⟨f, hf, -⟩ := h.map
  obtain ⟨i, hi⟩ := h.sound.mapReady f hf
  have hpos : 0 < s.freeMap.bitCnt := by
    rw [h.sound.laid.bitCnt]
    exact h.sound.laid.sector_lt freeMapSector (.inl rfl)
  exact ⟨f, i, hf, hi, h.room f i hf hi.inode, h.small, hpos, h.clean, h.mirror f i hf hi.inode⟩

namespace Mirror

variable (h : s.Mirror f i)

include h

lemma hasRoom : s.HasRoom := by
  intro g j hg hj
  cases h.file.symm.trans hg
  cases h.writable.inode.symm.trans hj
  exact h.length

/-- Another map, written to the file, is mirrored again. -/
lemma of_onDisk (hsize : d.size = s.disk.size) (hclean : b.Clean)
    (hcnt : b.bitCnt = s.freeMap.bitCnt) (hon : ((s.setFreeMap b).setDisk d).OnDisk) :
    ((s.setFreeMap b).setDisk d).Mirror f i := by
  have hsmall : b.bitCnt + 31 < 2 ^ 32 := hcnt ▸ h.small
  obtain ⟨-, hbytes⟩ := hon f i h.file h.writable.inode
  have hfits : i.data.Fits d := ⟨h.writable.fits.nonneg, hsize ▸ h.writable.fits.extent⟩
  refine ⟨h.file, ⟨h.writable.inode, h.writable.allowed, hfits, h.writable.length_lt⟩,
    hcnt ▸ h.length, hsmall, hcnt ▸ h.pos, hclean, fun b' hb' k hk => ?_⟩
  refine bits_load hclean hb' (fun n hn => ?_) hk
  have hn' : n < byteCnt b.bitCnt := byteCnt_eq b.bitCnt ▸ hn
  exact (Block.getElem?_slice hn').trans (congrArg some (hbytes n hn'))

lemma allocate {m : Mem} (hm : m.answer = true) (cnt : ℕ) :
    Gives (freeMapAllocate m cnt) s fun _ s' => s'.Mirror f i := by
  have hready : s.MapReady := by
    intro g hg
    cases h.file.symm.trans hg
    exact ⟨i, h.writable⟩
  have hlt : s.freeMap.bitCnt < 2 ^ 32 := by
    have := h.small
    omega
  refine (does_freeMapAllocate m cnt hlt hready).gives.mono ?_
  rintro r s' (⟨-, -, hsame⟩ | ⟨k, -, htakes, hremap, hon⟩)
  · rwa [(hsame hm h.hasRoom).1]
  · rw [hremap.eq] at hon ⊢
    refine h.of_onDisk hremap.disk.size ?_ hremap.bits.bitCnt hon
    exact h.clean.setTo h.small h.pos hremap.bits fun j hj => hj.2.trans_le htakes.gap.1

lemma release {m : Mem} (hm : m.answer = true) (sector cnt : ℕ) :
    Gives (freeMapRelease m sector cnt) s fun _ s' => s'.Mirror f i := by
  simp only [freeMapRelease, gives_bind, gives_get, gives_orThrow, gives_require, gives_set, gives_pure]
  intro _ _ _ b hb g hg
  cases h.file.symm.trans hg
  obtain ⟨hclean, hcnt⟩ := h.clean.setMultiple h.small hb
  have hwritable := h.writable.setFreeMap b
  obtain ⟨w, -, hfull, hrun⟩ := bitmapWrite_run m hwritable
  have hw : i.data.avail (byteCnt b.bitCnt) 0 = byteCnt b.bitCnt := by
    rw [InodeDisk.avail, h.length, hcnt]
    omega
  obtain rfl : w = byteCnt b.bitCnt := (hfull hm).trans hw
  refine (does_of_run hrun ?_).gives
  exact h.of_onDisk rfl hclean hcnt (onDisk_bitmapWrite hwritable h.file (Nat.le_of_eq hw.symm))

end Mirror

lemma mirror_of_reachable (hs : mapSystem.Reachable s) : ∃ f i, s.Mirror f i := by
  refine hs.invariant (I := fun s => ∃ f i, s.Mirror f i) ?_ ?_
  · rintro s ⟨s₀, m, junk, hboot, hrun⟩
    exact (gives_filesysInit m junk hboot _ _ hrun).mirror_file
  · rintro s c s' ⟨f, i, h⟩ - ⟨hm, hrun⟩
    refine ⟨f, i, ?_⟩
    cases c with
    | allocate m cnt =>
      have hgives := h.allocate hm cnt
      obtain ⟨r, t, hr, hrest⟩ := run_bind_ok.mp hrun
      cases hrest
      exact hgives r s' hr
    | release m sector cnt => exact h.release hm sector cnt () s' hrun

end

/-- **The free map on disk mirrors memory**: after any allocations and releases, `bitmap_read` of
its file into any bitmap of its size gives the free map. -/
theorem free_map_mirrored {s : Fs} (hs : mapSystem.Reachable s) : ∃ f, s.freeMapFile = some f ∧
    ∀ (m : Mem) (b : Bitmap), m.answer = true → b.bitCnt = s.freeMap.bitCnt →
      ∃ b' : Bitmap, (bitmapRead m b f).run s = .ok (true, b') s ∧ b'.bitCnt = s.freeMap.bitCnt ∧
        ∀ k < Bitmap.elemCnt s.freeMap.bitCnt, b'.bits k = s.freeMap.bits k := by
  obtain ⟨f, i, h⟩ := mirror_of_reachable hs
  refine ⟨f, h.file, fun m b hm hb => ?_⟩
  obtain ⟨x, hx, hi⟩ := fileInode_eq_some.mp h.writable.inode
  obtain ⟨k, -, hfull, hrun⟩ :=
    inodeReadAt_run m (Bitmap.byteCnt s.freeMap.bitCnt) 0 hi h.writable.fits
  -- the file is as long as the map, so that the read is whole
  obtain rfl : k = Bitmap.byteCnt s.freeMap.bitCnt := by
    rw [hfull hm, InodeDisk.avail, h.length]
    omega
  refine ⟨b.load (s.disk.slice i.data.base (Bitmap.byteCnt s.freeMap.bitCnt)), ?_, hb, h.read b hb⟩
  have hpos : 0 < b.bitCnt := hb ▸ h.pos
  rw [bitmapRead, if_pos hpos]
  simp only [fileReadAt, EStateM.run_bind, EStateM.run_get, hx, orThrow, EStateM.run_pure, hb, hrun,
    Block.length_slice, Nat.add_zero, decide_true]

/-- A device of six sectors in a machine that has just started. -/
def sixSectors : Fs where
  disk := ⟨6, fun _ _ => 0, by decide⟩
  inodes := .empty
  files := .empty
  dirs := .empty
  freeMap := ⟨0, fun _ => 0⟩
  freeMapFile := none

/-- With what `malloc` found in the spare bits, and a sector taken after the formatting. -/
theorem free_map_mirrored_sixSectors : ∃ s : Fs, mapSystem.Reachable s ∧ s.freeMap.bits 0 = 31#32 ∧
    ∃ f b, s.freeMapFile = some f ∧
      (bitmapRead .plenty ⟨6, fun _ => 5#32⟩ f).run s = .ok (true, b) s ∧ b.bits 0 = 31#32 := by
  have hrun : endsWith (fun _ s => endsWith (fun _ s' => s'.freeMap.bits 0 = 31#32 ∧
      s'.freeMap.bitCnt = 6) ((MapCall.allocate .plenty 1).run.run s))
      ((filesysInit .plenty (fun _ => 0xffffffff#32) true).run sixSectors) = true := by decide +kernel
  simp only [endsWith_iff, decide_eq_true_eq] at hrun
  obtain ⟨_, s₁, hinit, _, s₂, halloc, hbits, hcnt⟩ := hrun
  have hboot : sixSectors.Booting := ⟨fun _ => rfl, fun _ => rfl, rfl⟩
  have hs : mapSystem.Reachable s₂ :=
    .next (.start ⟨sixSectors, _, _, hboot, hinit⟩) trivial ⟨rfl, halloc⟩
  obtain ⟨f, hf, hread⟩ := free_map_mirrored hs
  obtain ⟨b, hb, -, hsame⟩ := hread .plenty ⟨6, fun _ => 5#32⟩ rfl hcnt.symm
  refine ⟨s₂, hs, hbits, f, b, hf, hb, (hsame 0 ?_).trans hbits⟩
  rw [hcnt]
  decide

end Fs

end Pintos
