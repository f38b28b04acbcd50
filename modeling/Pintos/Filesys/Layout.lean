import Pintos.Filesys.Allocation
import Pintos.Filesys.Openers

/-!
# Filesys/Layout — every file in sectors of its own

A file owns the sector of its inode and the sectors of its data. A set `K` of files is laid
out on the disk when what they own is there, is marked in the free map, and is owned once. A
change inside the data of one file leaves every other file alone.
-/

namespace Pintos

open Machinery Heap Block

lemma toInt32_lt (w : ℤ) : toInt32 w < 2 ^ 31 := by
  rw [toInt32]
  split_ifs <;> omega

variable {n : ℕ}

namespace Block

def inodeAt (d : Block) (x : ℕ) : InodeDisk := .ofSector (d.sector x)

/-- The file with its inode in `x` owns sector `n`. -/
def Owns (d : Block) (x n : ℕ) : Prop := n = x ∨ (d.inodeAt x).Data n

lemma length_inodeAt_lt (d : Block) (x : ℕ) : (d.inodeAt x).length < 2 ^ 31 := by
  simp only [inodeAt, InodeDisk.ofSector]
  exact toInt32_lt _

/-- `d'` has the same bytes as `d` in all that the files in `L` own. -/
def Spares (d : Block) (L : ℕ → Prop) (d' : Block) : Prop :=
  ∀ x n, L x → d.Owns x n → d'.sector n = d.sector n

section

variable {d d' d'' : Block} {L L' Z : ℕ → Prop} {x : ℕ}

lemma Spares.refl (d : Block) (L : ℕ → Prop) : d.Spares L d := fun _ _ _ _ => rfl

section

variable (h : d.Spares L d')

include h

lemma Spares.mono (hL : ∀ x, L' x → L x) : d.Spares L' d' :=
  fun x n hx => h x n (hL x hx)

lemma Spares.inodeAt (hx : L x) : d'.inodeAt x = d.inodeAt x :=
  congrArg _ (h x x hx (.inl rfl))

lemma Spares.owns (hx : L x) : d'.Owns x n ↔ d.Owns x n := by
  rw [Owns, Owns, h.inodeAt hx]

lemma Spares.trans (h' : d'.Spares L d'') : d.Spares L d'' := by
  intro x n hx hn
  rw [h' x n hx ((h.owns hx).mpr hn), h x n hx hn]

end

lemma ChangedIn.spares (h : d.ChangedIn Z d') (hZ : ∀ x n, L x → d.Owns x n → ¬ Z n) :
    d.Spares L d' := fun x n hx hn => h.sector n (hZ x n hx hn)

end

end Block

/-! ## Layouts -/

/-- The files in `K` are laid out: what they own is on the disk, marked, and owned once. -/
structure Laid (K : ℕ → Prop) (disk : Block) (map : Bitmap) : Prop where
  bitCnt : map.bitCnt = disk.size
  sector_lt : ∀ x, K x → x < disk.size
  nonneg : ∀ x, K x → 0 ≤ (disk.inodeAt x).length
  extent : ∀ x, K x →
    (disk.inodeAt x).start + Fs.bytesToSectors (disk.inodeAt x).length ≤ disk.size
  marked : ∀ x n, K x → disk.Owns x n → map.get n = true
  apart : ∀ x y n, K x → K y → disk.Owns x n → disk.Owns y n → x = y
  own : ∀ x, K x → ¬ (disk.inodeAt x).Data x

namespace Laid

variable {K K' P Z : ℕ → Prop} {disk disk' : Block} {map map' : Bitmap} {x : ℕ}

section

variable (h : Laid K disk map)

include h

lemma fits (hx : K x) : (disk.inodeAt x).Fits disk := by
  have hle := InodeDisk.sectors_le (h.nonneg x hx) (disk.length_inodeAt_lt x)
  have hext := h.extent x hx
  exact ⟨h.nonneg x hx, by omega⟩

lemma lt_two_pow (hx : K x) : x < 2 ^ 32 :=
  (h.sector_lt x hx).trans disk.size_lt

lemma bitCnt_lt : map.bitCnt < 2 ^ 32 := h.bitCnt ▸ disk.size_lt

lemma not_owns {y n : ℕ} (hx : K x) (hy : K y) (hxy : x ≠ y) (hn : disk.Owns x n) :
    ¬ disk.Owns y n := fun hn' => hxy (h.apart x y n hx hy hn hn')

lemma not_data {y : ℕ} (hx : K x) (hy : K y) : ¬ (disk.inodeAt x).Data y := by
  intro hdata
  obtain rfl := h.apart x y y hx hy (.inr hdata) (.inl rfl)
  exact h.own x hx hdata

lemma changedIn (hd : disk.ChangedIn Z disk') (hZ : ∀ x, K x → ¬ Z x) : Laid K disk' map := by
  have hinode (x : ℕ) (hx : K x) : disk'.inodeAt x = disk.inodeAt x :=
    congrArg _ (hd.sector x (hZ x hx))
  have howns (x n : ℕ) (hx : K x) : disk'.Owns x n ↔ disk.Owns x n := by
    rw [Block.Owns, Block.Owns, hinode x hx]
  refine ⟨h.bitCnt.trans hd.size.symm, fun x hx => ?_, fun x hx => ?_, fun x hx => ?_,
    fun x n hx hn => ?_, fun x y n hx hy hn hn' => ?_, fun x hx => ?_⟩
  · rw [hd.size]
    exact h.sector_lt x hx
  · rw [hinode x hx]
    exact h.nonneg x hx
  · rw [hinode x hx, hd.size]
    exact h.extent x hx
  · exact h.marked x n hx ((howns x n hx).mp hn)
  · exact h.apart x y n hx hy ((howns x n hx).mp hn) ((howns y n hy).mp hn')
  · rw [hinode x hx]
    exact h.own x hx

/-- Bits may be set, and cleared where no file of `K'` owns anything. -/
lemma setTo {value : Bool} (hset : map.SetTo P value map') (hK : ∀ x, K' x → K x)
    (hP : value = true ∨ ∀ x n, K' x → disk.Owns x n → ¬ P n) : Laid K' disk map' := by
  refine ⟨hset.bitCnt.trans h.bitCnt, fun x hx => h.sector_lt x (hK x hx),
    fun x hx => h.nonneg x (hK x hx), fun x hx => h.extent x (hK x hx), fun x n hx hn => ?_,
    fun x y n hx hy => h.apart x y n (hK x hx) (hK y hy), fun x hx => h.own x (hK x hx)⟩
  have hmarked := h.marked x n (hK x hx) hn
  by_cases hPn : P n
  · rw [hset.mem n hPn]
    exact hP.resolve_right fun hout => hout x n hx hn hPn
  · rw [hset.notMem n hPn, hmarked]

lemma lt_of_owns (hx : K x) (hn : disk.Owns x n) : n < disk.size := by
  obtain rfl | hdata := hn
  · exact h.sector_lt n hx
  · exact hdata.2.trans_le (h.extent x hx)

lemma of_bits (hcnt : map'.bitCnt = map.bitCnt)
    (hbits : ∀ n < disk.size, map'.get n = map.get n) : Laid K disk map' := by
  refine { h with bitCnt := hcnt.trans h.bitCnt, marked := fun x n hx hn => ?_ }
  rw [hbits n (h.lt_of_owns hx hn)]
  exact h.marked x n hx hn

end

/-- A new file, in a sector taken for it, with its data where nothing was. -/
lemma created {s s' : Fs} {length : ℤ} {k : ℕ} (h : Laid K s.disk s.freeMap)
    (hc : s.Created x length k s') (hx : x < s.disk.size) (hmark : s.freeMap.get x = true)
    (hnew : ∀ y, K y → ¬ s.disk.Owns y x) (hmap : ∀ y, K y → ¬ s.MapData y) (h0 : 0 ≤ length) :
    Laid (fun y => K y ∨ y = x) s'.disk s'.freeMap := by
  have hxk : ¬ Extent k (Fs.bytesToSectors length) x := hc.takes.not_extent hmark
  have hinode : s'.disk.inodeAt x = ⟨k, length, inodeMagic⟩ := hc.inode
  -- what there was before is where it was
  have hout (y : ℕ) (hy : K y) :
      ¬ (s.MapData y ∨ y = x ∨ Extent k (Fs.bytesToSectors length) y) := by
    rintro (hn | rfl | hn)
    · exact hmap y hy hn
    · exact hnew y hy (.inl rfl)
    · exact hc.takes.not_extent (h.marked y y hy (.inl rfl)) hn
  have hold : Laid K s'.disk s'.freeMap :=
    (h.changedIn hc.disk hout).setTo hc.takes.bits (fun _ => id) (.inl rfl)
  have howns (y n : ℕ) (hy : K y) (hn : s'.disk.Owns y n) : s.disk.Owns y n := by
    rwa [Block.Owns, inodeAt, hc.disk.sector y (hout y hy)] at hn
  have hx' (n : ℕ) : s'.disk.Owns x n ↔ n = x ∨ Extent k (Fs.bytesToSectors length) n := by
    rw [Block.Owns, hinode]
    rfl
  have hapart (y n : ℕ) (hy : K y) (hn : s'.disk.Owns y n) : ¬ s'.disk.Owns x n := by
    rw [hx']
    rintro (rfl | hn')
    · exact hnew y hy (howns y n hy hn)
    · exact hc.takes.not_extent (h.marked y n hy (howns y n hy hn)) hn'
  refine ⟨hold.bitCnt, ?_, ?_, ?_, ?_, ?_, ?_⟩
  · rintro y (hy | rfl)
    · exact hold.sector_lt y hy
    · rwa [hc.disk.size]
  · rintro y (hy | rfl)
    · exact hold.nonneg y hy
    · rwa [hinode]
  · rintro y (hy | rfl)
    · exact hold.extent y hy
    · rw [hinode, hc.disk.size, ← h.bitCnt]
      exact hc.takes.gap.1
  · rintro y n (hy | rfl) hn
    · exact hold.marked y n hy hn
    · obtain rfl | hn := (hx' n).mp hn
      · rw [hc.takes.bits.notMem n hxk, hmark]
      · exact hc.takes.bits.mem n hn
  · rintro y z n (hy | rfl) (hz | rfl) hn hn'
    · exact hold.apart y z n hy hz hn hn'
    · exact absurd hn' (hapart y n hy hn)
    · exact absurd hn (hapart z n hz hn')
    · rfl
  · rintro y (hy | rfl)
    · exact hold.own y hy
    · rwa [hinode]

end Laid

namespace Fs

/-! ## A sound file system

The inodes in memory are those of files in `K`, and say what is on the disk; and the free map's
file, once it is open, is the one in sector 0. -/

/-- The free map's file is that in sector 0, not removed, and writes to it are allowed. -/
def MapOpen (s : Fs) : Prop := ∀ f, s.freeMapFile = some f →
  ∃ i, s.fileInode f = some i ∧ i.sector = freeMapSector ∧ i.removed = false ∧ i.denyWriteCnt = 0

/-- The files in `K` are laid out, and known in memory as they are. -/
structure Sound (K : ℕ → Prop) (s : Fs) : Prop where
  laid : Laid K s.disk s.freeMap
  known : ∀ a i, s.inodes.get? a = some i → K i.sector ∧ i.data = s.disk.inodeAt i.sector
  map : s.MapOpen

/-- The free map's file is as long as the free map… -/
def Roomy (s : Fs) : Prop :=
  (s.disk.inodeAt freeMapSector).length = Bitmap.byteCnt s.freeMap.bitCnt

/-- …and holds it, byte by byte. -/
def MapWritten (s : Fs) : Prop := ∀ n < Bitmap.byteCnt s.freeMap.bitCnt,
  s.disk.byte ((s.disk.inodeAt freeMapSector).base + n) = s.freeMap.byte n

/-- The files in `K` but the free map's. -/
def Others (K : ℕ → Prop) (x : ℕ) : Prop := K x ∧ x ≠ freeMapSector

/-- The files of `K`, and the one in `x`. -/
def Also (K : ℕ → Prop) (x y : ℕ) : Prop := K y ∨ y = x

/-- `K` without a reference to the inode `i`: a removed file goes with its last. -/
def Surviving (K : ℕ → Prop) (i : Inode) (x : ℕ) : Prop :=
  K x ∧ ¬ (x = i.sector ∧ i.openCnt = 1 ∧ i.removed = true)

/-- What is left after a change of the disk and the free map: all that the files in `L` own. -/
structure After (L K : ℕ → Prop) (s s' : Fs) : Prop where
  sound : Sound K s'
  heaps : s'.heaps = s.heaps
  file : s'.freeMapFile = s.freeMapFile
  spares : s.disk.Spares L s'.disk
  size : s'.disk.size = s.disk.size

/-- The sectors of an extent are taken, and nobody's. -/
structure Taken (K : ℕ → Prop) (s : Fs) (k cnt : ℕ) : Prop where
  extent : k + cnt ≤ s.disk.size
  marked : ∀ n, Extent k cnt n → s.freeMap.get n = true
  unowned : ∀ n, Extent k cnt n → ∀ y, K y → ¬ s.disk.Owns y n

section

variable {K K' L P : ℕ → Prop} {s s' s'' : Fs} {value : Bool}

lemma fileInode_of_heaps (h : s'.heaps = s.heaps) (f : ℕ) : s'.fileInode f = s.fileInode f := by
  rw [fileInode, fileInode, inodes_of_heaps h, files_of_heaps h]

lemma mapData_of_heaps (h : s'.heaps = s.heaps) (hfile : s'.freeMapFile = s.freeMapFile) :
    s'.MapData n ↔ s.MapData n := by
  simp only [MapData, hfile, fileInode_of_heaps h]

/-- Where only the disk and the free map change, whatever is open stays. -/
lemma heaps_of_eq (h : s' = (s.setFreeMap s'.freeMap).setDisk s'.disk) :
    s'.heaps = s.heaps ∧ s'.freeMapFile = s.freeMapFile := by
  rw [h]
  exact ⟨rfl, rfl⟩

lemma After.trans (h : After L K s s') (h' : After L K' s' s'') : After L K' s s'' :=
  ⟨h'.sound, h'.heaps.trans h.heaps, h'.file.trans h.file, h.spares.trans h'.spares,
    h'.size.trans h.size⟩

lemma MapOpen.of_heaps (h : s.MapOpen) (hheaps : s'.heaps = s.heaps)
    (hfile : s'.freeMapFile = s.freeMapFile) : s'.MapOpen := by
  intro f hf
  rw [fileInode_of_heaps hheaps]
  exact h f (hfile ▸ hf)

namespace Sound

section

variable (h : Sound K s)

include h

/-- The free map's file is one of `K`, and the inode it is open on says what is on the disk. -/
lemma map_known {f : ℕ} (hf : s.freeMapFile = some f) : ∃ i, s.fileInode f = some i ∧
    i.denyWriteCnt = 0 ∧ K freeMapSector ∧ i.data = s.disk.inodeAt freeMapSector := by
  obtain ⟨i, hi, hsector, -, hallowed⟩ := h.map f hf
  obtain ⟨x, -, hx⟩ := fileInode_eq_some.mp hi
  exact ⟨i, hi, hallowed, hsector ▸ h.known _ i hx⟩

lemma mapData (hn : s.MapData n) : K freeMapSector ∧ (s.disk.inodeAt freeMapSector).Data n := by
  obtain ⟨f, i, hf, hi, hdata⟩ := hn
  obtain ⟨j, hj, -, hK, hknown⟩ := h.map_known hf
  cases hj.symm.trans hi
  exact ⟨hK, hknown ▸ hdata⟩

lemma hasRoom (hr : s.Roomy) : s.HasRoom := by
  intro f i hf hi
  obtain ⟨j, hj, -, -, hknown⟩ := h.map_known hf
  cases hj.symm.trans hi
  exact (congrArg InodeDisk.length hknown).trans hr

lemma mapWritten {f : ℕ} (hf : s.freeMapFile = some f) (hon : s.OnDisk) : s.MapWritten := by
  obtain ⟨i, hi, -, -, hknown⟩ := h.map_known hf
  rw [MapWritten, ← hknown]
  exact (hon f i hf hi).2

lemma not_mapData {x : ℕ} (hx : K x) : ¬ s.MapData x := by
  intro hn
  obtain ⟨h0, hdata⟩ := h.mapData hn
  exact h.laid.not_data h0 hx hdata

lemma not_mapData_of_owns {x n : ℕ} (hx : Others K x) (hn : s.disk.Owns x n) : ¬ s.MapData n := by
  intro hmap
  obtain ⟨h0, hdata⟩ := h.mapData hmap
  exact h.laid.not_owns hx.1 h0 hx.2 hn (.inr hdata)

lemma mapReady : s.MapReady := by
  intro f hf
  obtain ⟨i, hi, hallowed, hK, hknown⟩ := h.map_known hf
  refine ⟨i, hi, hallowed, ?_, ?_⟩
  · rw [hknown]
    exact h.laid.fits hK
  · rw [hknown]
    exact s.disk.length_inodeAt_lt _

/-- A change of the free map leaves a sound file system, if it clears only what is nobody's. -/
lemma remap (hr : s.Remap P value s') (hK : ∀ x, K' x → K x)
    (hopen : ∀ a i, s.inodes.get? a = some i → K' i.sector)
    (hP : value = true ∨ ∀ x n, K' x → s.disk.Owns x n → ¬ P n) : After (Others K) K' s s' := by
  obtain ⟨hheaps, hfile⟩ := heaps_of_eq hr.eq
  refine ⟨⟨?_, fun a i hi => ?_, h.map.of_heaps hheaps hfile⟩, hheaps, hfile,
    hr.disk.spares fun x n hx hn => h.not_mapData_of_owns hx hn, hr.disk.size⟩
  · refine (h.laid.setTo hr.bits hK hP).changedIn hr.disk fun x hx => ?_
    exact h.not_mapData (hK x hx)
  · rw [inodes_of_heaps hheaps] at hi
    obtain ⟨hKi, hknown⟩ := h.known a i hi
    refine ⟨hopen a i hi, ?_⟩
    rw [hknown, inodeAt, inodeAt, hr.disk.sector _ (h.not_mapData hKi)]

lemma owns_remap (hr : s.Remap P value s') {x n : ℕ} (hx : K x) :
    s'.disk.Owns x n ↔ s.disk.Owns x n := by
  rw [Block.Owns, Block.Owns, inodeAt, hr.disk.sector x (h.not_mapData hx), inodeAt]

lemma remap_same (hr : s.Remap P true s') : After (Others K) K s s' :=
  h.remap hr (fun _ => id) (fun a i hi => (h.known a i hi).1) (.inl rfl)

/-- Sectors are taken, and are nobody's yet. -/
lemma allocate (m : Mem) (cnt : ℕ) : Does (freeMapAllocate m cnt) s fun r s' =>
    After (Others K) K s s' ∧
      ((r = none ∧ (m.answer = true → s.Roomy → s' = s ∧ ∀ p, ¬ s.freeMap.Gap p cnt)) ∨
        ∃ k, r = some k ∧ Taken K s' k cnt ∧ s.freeMap.Takes k cnt s'.freeMap) := by
  refine (does_freeMapAllocate m cnt h.laid.bitCnt_lt h.mapReady).mono ?_
  rintro r s' (⟨rfl, hr, hnone⟩ | ⟨k, rfl, htakes, hr, -⟩)
  · exact ⟨h.remap_same hr, .inl ⟨rfl, fun hm hroomy => hnone hm (h.hasRoom hroomy)⟩⟩
  · refine ⟨h.remap_same hr, .inr ⟨k, rfl, ⟨?_, hr.bits.mem, fun n hn y hy howns => ?_⟩, htakes⟩⟩
    · rw [hr.disk.size, ← h.laid.bitCnt]
      exact htakes.gap.1
    · exact htakes.not_extent (h.laid.marked y n hy ((h.owns_remap hr hy).mp howns)) hn

lemma taken_remap {k cnt : ℕ} (hr : s.Remap P value s') (ht : Taken K s k cnt)
    (hP : value = true ∨ ∀ n, Extent k cnt n → ¬ P n) : Taken K s' k cnt := by
  refine ⟨?_, fun n hn => ?_, fun n hn y hy howns => ?_⟩
  · rw [hr.disk.size]
    exact ht.extent
  · by_cases hPn : P n
    · rw [hr.bits.mem n hPn]
      exact hP.resolve_right fun hout => hout n hn hPn
    · rw [hr.bits.notMem n hPn]
      exact ht.marked n hn
  · exact ht.unowned n hn y hy ((h.owns_remap hr hy).mp howns)

/-- Sectors that are taken may be given back. -/
lemma release {k cnt f : ℕ} (m : Mem) (hf : s.freeMapFile = some f) (ht : Taken K s k cnt) :
    Does (freeMapRelease m k cnt) s fun _ s' => After (Others K) K s s' ∧
      s.Remap (Extent k cnt) false s' ∧ (m.answer = true → s.Roomy → s'.MapWritten) := by
  obtain ⟨i, hi⟩ := h.mapReady f hf
  refine (does_freeMapRelease m h.laid.bitCnt_lt hf hi ?_ ht.marked).mono ?_
  · rw [h.laid.bitCnt]
    exact ht.extent
  · rintro _ s' ⟨hr, hon⟩
    have hafter := h.remap hr (fun _ => id) (fun a i hi => (h.known a i hi).1)
      (.inr fun x n hx hn hn' => ht.unowned n hn' x hx hn)
    exact ⟨hafter, hr, fun hm hroomy =>
      hafter.sound.mapWritten (hafter.file.trans hf) (hon hm (h.hasRoom hroomy))⟩

lemma create {x : ℕ} {length : ℤ} (m : Mem) (ht : Taken K s x 1) (h0 : 0 ≤ length)
    (h1 : length < 2 ^ 31) : Does (inodeCreate m x length) s fun r s' =>
      (r = false ∧ After (Others K) K s s' ∧ Taken K s' x 1 ∧ s'.freeMap = s.freeMap ∧
        (m = .plenty → s.Roomy → ∀ p, ¬ s.freeMap.Gap p (bytesToSectors length))) ∨
      (r = true ∧ After (Others K) (Also K x) s s' ∧ ∃ k, s.Created x length k s') := by
  have hself : Extent x 1 x := extent_one.mpr rfl
  have hx : x < s.disk.size := ht.extent
  have hnew (y : ℕ) (hy : K y) : ¬ s.disk.Owns y x := ht.unowned x hself y hy
  refine (does_inodeCreate m h.laid.bitCnt h.mapReady hx (ht.marked x hself) h0 h1).mono
    fun r s' hr => ?_
  obtain ⟨rfl, hr, hnone⟩ | ⟨rfl, k, hc⟩ := hr
  · exact .inl ⟨rfl, h.remap_same hr, h.taken_remap hr ht (.inl rfl), hr.freeMap,
      fun hm hroomy => hnone hm (h.hasRoom hroomy)⟩
  · obtain ⟨hheaps, hfile⟩ := heaps_of_eq hc.eq
    -- what was written is nobody's, or the free map's
    have hspares : s.disk.Spares (Others K) s'.disk := by
      refine hc.disk.spares fun y n hy hn => ?_
      rintro (hmap | rfl | hextent)
      · exact h.not_mapData_of_owns hy hn hmap
      · exact hnew y hy.1 hn
      · exact hc.takes.not_extent (h.laid.marked y n hy.1 hn) hextent
    have hlaid := h.laid.created hc hx (ht.marked x hself) hnew (fun y => h.not_mapData) h0
    refine .inr ⟨rfl, ⟨⟨hlaid, fun a i hi => ?_, h.map.of_heaps hheaps hfile⟩, hheaps, hfile, hspares,
      hc.disk.size⟩, k, hc⟩
    rw [inodes_of_heaps hheaps] at hi
    obtain ⟨hK, hknown⟩ := h.known a i hi
    refine ⟨.inl hK, ?_⟩
    have hsector : s'.disk.sector i.sector = s.disk.sector i.sector := by
      refine hc.disk.sector _ ?_
      rintro (hmap | hix | hextent)
      · exact h.not_mapData hK hmap
      · exact hnew _ hK (.inl hix.symm)
      · exact hc.takes.not_extent (h.laid.marked _ _ hK (.inl rfl)) hextent
    rw [hknown, inodeAt, inodeAt, hsector]

end

/-! ### Inodes in memory -/

section

variable (h : Sound K s)

include h

lemma mono (hK : ∀ x, K' x → K x) (hopen : ∀ a i, s.inodes.get? a = some i → K' i.sector) :
    Sound K' s :=
  ⟨h.laid.setTo (Bitmap.setTo_nothing (fun _ => id) true) hK (.inl rfl),
    fun a i hi => ⟨hopen a i hi, (h.known a i hi).2⟩, h.map⟩

lemma setInodes {inodes : Heap Inode}
    (hknown : ∀ a i, inodes.get? a = some i → K i.sector ∧ i.data = s.disk.inodeAt i.sector)
    (hmap : ∀ a i, s.inodes.get? a = some i → i.sector = freeMapSector → ∃ j, inodes.get? a = some j ∧ j.sector = i.sector ∧ j.removed = i.removed ∧ j.denyWriteCnt = i.denyWriteCnt) : Sound K (s.setInodes inodes) := by
  refine ⟨h.laid, hknown, fun f hf => ?_⟩
  obtain ⟨i, hi, hsector, hremoved, hdeny⟩ := h.map f hf
  obtain ⟨x, hx, hget⟩ := fileInode_eq_some.mp hi
  obtain ⟨j, hj, hjs, hjr, hjd⟩ := hmap _ i hget hsector
  exact ⟨j, fileInode_eq_some.mpr ⟨x, hx, hj⟩, hjs.trans hsector, hjr.trans hremoved, hjd.trans hdeny⟩

lemma modifyInode {a : ℕ} {g : Inode → Inode}
    (hg : ∀ i, (g i).sector = i.sector ∧ (g i).data = i.data)
    (hmap : ∀ i, s.inodes.get? a = some i → i.sector = freeMapSector → (g i).removed = i.removed ∧ (g i).denyWriteCnt = i.denyWriteCnt) :
    Sound K (s.setInodes (s.inodes.modify a g)) := by
  refine h.setInodes (fun b j hj => ?_) fun b i hi hsector => ?_
  · rw [get?_modify] at hj
    obtain ⟨i, hi, rfl⟩ := Option.map_eq_some_iff.mp hj
    split_ifs
    · rw [(hg i).1, (hg i).2]
      exact h.known b i hi
    · exact h.known b i hi
  · rw [get?_modify, hi]
    refine ⟨_, rfl, ?_⟩
    split_ifs with hb
    · exact ⟨(hg i).1, hmap i (hb ▸ hi) hsector⟩
    · exact ⟨rfl, rfl, rfl⟩

lemma setFiles {files : Heap File}
    (hfile : ∀ f x, s.freeMapFile = some f → s.files.get? f = some x → ∃ y, files.get? f = some y ∧ y.inode = x.inode) :
    Sound K (s.setFiles files) := by
  refine ⟨h.laid, h.known, fun f hf => ?_⟩
  obtain ⟨i, hi, hrest⟩ := h.map f hf
  obtain ⟨x, hx, hget⟩ := fileInode_eq_some.mp hi
  obtain ⟨y, hy, hinode⟩ := hfile f x hf hx
  exact ⟨i, fileInode_eq_some.mpr ⟨y, hy, hinode ▸ hget⟩, hrest⟩

end

lemma after_setFiles {files : Heap File} (h : After L K s s') (hfile : ∀ f x,
    s.freeMapFile = some f → s.files.get? f = some x → ∃ y, files.get? f = some y ∧ y.inode = x.inode) :
    After L K (s.setFiles files) (s'.setFiles files) := by
  refine ⟨h.sound.setFiles fun f x hf hx => ?_, ?_, h.file, h.spares, h.size⟩
  · rw [files_of_heaps h.heaps] at hx
    exact hfile f x (h.file ▸ hf) hx
  · show (s'.inodes, files, s'.dirs) = (s.inodes, files, s.dirs)
    rw [inodes_of_heaps h.heaps, dirs_of_heaps h.heaps]

lemma opened {n a : ℕ} (h : Sound K s) (hn : K n) (ho : Opened s n a s') : Sound K s' := by
  cases ho with
  | reopened => exact h.modifyInode (fun _ => ⟨rfl, rfl⟩) fun _ _ _ => ⟨rfl, rfl⟩
  | loaded =>
    refine h.setInodes (fun b j hj => ?_) fun b i hi _ => ⟨i, ?_, rfl, rfl, rfl⟩
    · obtain rfl | hb := eq_or_ne b s.inodes.next
      · rw [get?_alloc_self] at hj
        cases hj
        exact ⟨hn, rfl⟩
      · rw [get?_alloc_of_ne hb] at hj
        exact h.known b j hj
    · exact get?_alloc_of_some hi _

lemma dropRef {a : ℕ} {i : Inode} (h : Sound K s) (hi : s.inodes.get? a = some i)
    (hsector : i.sector ≠ freeMapSector) : Sound K (s.dropRef a i) := by
  rw [Fs.dropRef]
  split_ifs
  · refine h.setInodes (fun b j hj => ?_) fun b j hj hmap => ⟨j, ?_, rfl, rfl, rfl⟩
    · exact h.known b j (get?_free_eq_some.mp hj).2
    · rw [get?_free_of_ne, hj]
      rintro rfl
      cases hi.symm.trans hj
      exact hsector hmap
  · exact h.modifyInode (fun _ => ⟨rfl, rfl⟩) fun _ _ _ => ⟨rfl, rfl⟩

/-- The last close of a removed file gives back all that it owns, and any other close nothing.
-/
lemma closeInode {pend : ℕ → ℕ} {a f : ℕ} {i : Inode} (h : Sound K s) (hc : Counted pend s) (m : Mem)
    (hf : s.freeMapFile = some f) (hi : s.inodes.get? a = some i)
    (hsector : i.sector ≠ freeMapSector) : Does (inodeClose m a) s fun _ s' =>
      After (Others K) (Surviving K i) (s.dropRef a i) s' := by
  have hK (x : ℕ) (hx : Surviving K i x) : K x := hx.1
  have hdrop : Sound (Surviving K i) (s.dropRef a i) := by
    refine (h.dropRef hi hsector).mono hK fun b j hj => ?_
    refine ⟨((h.dropRef hi hsector).known b j hj).1, fun hgone => ?_⟩
    -- no other inode is of that sector
    have hfree : (s.inodes.free a).get? b = some j := by
      have hinodes : (s.dropRef a i).inodes = s.inodes.free a := if_pos hgone.2.1
      rw [← hinodes, hj]
    obtain ⟨hb, hget⟩ := get?_free_eq_some.mp hfree
    exact hb (hc.single b a j i hget hi hgone.1)
  rw [Does, inodeClose_run m hi]
  split_ifs with hgone
  · obtain ⟨hKi, hdata⟩ := h.known a i hi
    have hother (y n : ℕ) (hy : Surviving K i y) (hn : s.disk.Owns i.sector n) : ¬ s.disk.Owns y n :=
      h.laid.not_owns hKi hy.1 (fun hyi => hy.2 ⟨hyi.symm, hgone⟩) hn
    have hself : Taken (Surviving K i) (s.dropRef a i) i.sector 1 := by
      have hone (n : ℕ) (hn : Extent i.sector 1 n) : s.disk.Owns i.sector n := .inl (extent_one.mp hn)
      exact ⟨h.laid.sector_lt _ hKi, fun n hn => h.laid.marked _ n hKi (hone n hn),
        fun n hn y hy => hother y n hy (hone n hn)⟩
    have hextent : Taken (Surviving K i) (s.dropRef a i) i.data.start
        (bytesToSectors i.data.length) := by
      have hone (n : ℕ) (hn : Extent i.data.start (bytesToSectors i.data.length) n) :
          s.disk.Owns i.sector n := .inr (hdata ▸ hn)
      exact ⟨hdata ▸ h.laid.extent _ hKi, fun n hn => h.laid.marked _ n hKi (hone n hn),
        fun n hn y hy => hother y n hy (hone n hn)⟩
    show Does (releaseInode m i) (s.dropRef a i) _
    rw [releaseInode, does_bind]
    refine (hdrop.release _ hf hself).mono ?_
    rintro _ s₁ ⟨hafter, hr, -⟩
    have hextent₁ := hdrop.taken_remap hr hextent <| .inr fun n hn hn' => by
      obtain rfl := extent_one.mp hn'
      exact h.laid.own _ hKi (hdata ▸ hn)
    refine (hafter.sound.release _ (hafter.file.trans hf) hextent₁).mono ?_
    rintro _ s₂ ⟨hafter₂, hr₂, -⟩
    -- the map is written, and nothing else
    have hmap (n : ℕ) : s₁.MapData n ↔ (s.dropRef a i).MapData n := mapData_of_heaps hafter.heaps
      hafter.file
    refine { hafter.trans hafter₂ with
      spares := (hr.disk.trans (hr₂.disk.mono fun n => (hmap n).mp)).spares fun x n hx hn => ?_ }
    exact (or_self_iff).not.mpr ((h.dropRef hi hsector).not_mapData_of_owns hx hn)
  · exact ⟨(), _, rfl, hdrop, rfl, rfl, .refl _ _, rfl⟩

end Sound

end

end Fs

end Pintos
