import Pintos.Filesys.Contents
import Pintos.Filesys.FreeMap

/-!
# Filesys/Allocation — what taking and giving back sectors changes

`free_map_allocate` and `free_map_release` change the bits of an extent, and the disk nowhere but
in the free map's file; `inode_create` also writes the sectors it has taken, and the inode's.
-/

namespace Pintos

open Machinery Function EStateM Bitmap InodeDisk

/-- The `cnt` sectors from `k` on. -/
def Extent (k cnt n : ℕ) : Prop := k ≤ n ∧ n < k + cnt

def NoSector (_ : ℕ) : Prop := False

lemma extent_one {x n : ℕ} : Extent x 1 n ↔ n = x := by
  rw [Extent]
  omega

namespace Block

/-- `d'` is `d` but for the sectors in `Z`. -/
structure ChangedIn (d : Block) (Z : ℕ → Prop) (d' : Block) : Prop where
  size : d'.size = d.size
  sector : ∀ n, ¬ Z n → d'.sector n = d.sector n

namespace ChangedIn

variable {d d' d'' : Block} {Z Z' : ℕ → Prop}

lemma refl (d : Block) (Z : ℕ → Prop) : d.ChangedIn Z d := ⟨rfl, fun _ _ => rfl⟩

lemma mono (h : d.ChangedIn Z d') (hZ : ∀ n, Z n → Z' n) : d.ChangedIn Z' d' :=
  ⟨h.size, fun n hn => h.sector n (mt (hZ n) hn)⟩

lemma trans (h : d.ChangedIn Z d') (h' : d'.ChangedIn Z' d'') :
    d.ChangedIn (fun n => Z n ∨ Z' n) d'' := by
  refine ⟨h'.size.trans h.size, fun n hn => ?_⟩
  rw [h'.sector n fun hZ => hn (.inr hZ), h.sector n fun hZ => hn (.inl hZ)]

end ChangedIn

end Block

namespace Bitmap

/-- The first `cnt` bits in a row that were clear are set, from `k` on. -/
structure Takes (b : Bitmap) (k cnt : ℕ) (b' : Bitmap) : Prop where
  gap : b.Gap k cnt
  first : ∀ p, b.Gap p cnt → k ≤ p
  bits : b.SetTo (Extent k cnt) true b'

/-- The bits from `p` on are clear. -/
def Vacant (b : Bitmap) (p : ℕ) : Prop := ∀ n, p ≤ n → n < b.bitCnt → b.get n = false

section

variable {b b' : Bitmap} {p k cnt n : ℕ}

lemma Takes.free (h : b.Takes k cnt b') (hn : Extent k cnt n) : b.get n = false :=
  h.gap.2 n hn.1 hn.2

lemma Takes.not_extent (h : b.Takes k cnt b') (hn : b.get n = true) : ¬ Extent k cnt n :=
  fun hextent => Bool.false_ne_true ((h.free hextent).symm.trans hn)

lemma Vacant.gap (h : b.Vacant p) (hp : p + cnt ≤ b.bitCnt) : b.Gap p cnt :=
  ⟨hp, fun j hj hj' => h j hj (by omega)⟩

/-- Whoever takes the first gap leaves what is behind it. -/
lemma Vacant.takes (h : b.Vacant p) (ht : b.Takes k cnt b') : b'.Vacant (p + cnt) := by
  intro n hn hlt
  rw [ht.bits.bitCnt] at hlt
  have hk : k ≤ p := ht.first p (h.gap (by omega))
  rw [ht.bits.notMem n fun hextent => Nat.lt_irrefl n (Nat.lt_of_lt_of_le hextent.2 (by omega))]
  exact h n (by omega) hlt

end

end Bitmap

/-! ## The sectors of an inode -/

namespace InodeDisk

/-- The sectors that were taken for the data. -/
def Data (d : InodeDisk) : ℕ → Prop := Extent d.start (Fs.bytesToSectors d.length)

variable {d : InodeDisk}

lemma sectors_le (h0 : 0 ≤ d.length) (h1 : d.length < 2 ^ 31) :
    d.sectors ≤ Fs.bytesToSectors d.length := by
  show (d.length.toNat + 511) / 512 ≤ ((toInt32 (d.length + 512 - 1)).tdiv 512 % 2 ^ 32).toNat
  have hwrap : toInt32 (d.length + 512 - 1) = d.length + 512 - 1 ∨
      toInt32 (d.length + 512 - 1) = -(2 ^ 32 - (d.length + 512 - 1)) ∧ 2 ^ 31 ≤ d.length + 511 := by
    rw [toInt32]
    split_ifs <;> omega
  obtain hsum | ⟨hsum, hlarge⟩ := hwrap
  · rw [Int.tdiv_eq_ediv_of_nonneg (by omega)]
    omega
  · -- the sum wraps, and the quotient is a huge `size_t`
    rw [hsum, Int.neg_tdiv, Int.tdiv_eq_ediv_of_nonneg (by omega)]
    omega

lemma data_of_lt {o : ℕ} (h : o < d.length) (hlt : d.length < 2 ^ 31) :
    d.Data ((d.base + o) / blockSectorSize) := by
  have hsectors := sectors_le (by omega) hlt
  have hlen : d.sectors = (d.length.toNat + 511) / 512 := rfl
  show d.start ≤ (512 * d.start + o) / 512 ∧ (512 * d.start + o) / 512 < _
  omega

lemma changedIn_put (h0 : 0 ≤ d.length) (h1 : d.length < 2 ^ 31) {disk : Block} {size : ℤ}
    {offset k : ℕ} (hk : k ≤ d.avail size offset) (bytes : ℕ → UInt8) :
    disk.ChangedIn d.Data (disk.put (d.base + offset) k bytes) := by
  refine ⟨rfl, fun n hn => Fs.sector_put_of_notMem hk ?_ bytes⟩
  have hle := sectors_le h0 h1
  simp only [Data, Extent] at hn
  omega

/-- An inode is read as it was written. -/
lemma ofSector_toSector (hstart : d.start < 2 ^ 32) (h0 : 0 ≤ d.length) (h1 : d.length < 2 ^ 31)
    (hmagic : d.magic < 2 ^ 32) : ofSector d.toSector = d := by
  have hplace (k j : ℕ) (hk : k < 3) (hj : j < 4) :
      (Block.inSector (4 * k + j)).val / 4 = k ∧ (Block.inSector (4 * k + j)).val % 4 = j := by
    show (4 * k + j) % 512 / 4 = k ∧ (4 * k + j) % 512 % 4 = j
    omega
  have hstart' : word d.toSector 0 = d.start := by
    refine (leWord_congr fun j hj => ?_).trans (leWord_leByte hstart)
    obtain ⟨hdiv, hmod⟩ := hplace 0 j (by decide) hj
    simp only [toSector, hdiv, hmod]
  have hlength : word d.toSector 1 = (d.length % 2 ^ 32).toNat := by
    refine (leWord_congr fun j hj => ?_).trans (leWord_leByte (by omega))
    obtain ⟨hdiv, hmod⟩ := hplace 1 j (by decide) hj
    simp only [toSector, hdiv, hmod]
  have hmagic' : word d.toSector 2 = d.magic := by
    refine (leWord_congr fun j hj => ?_).trans (leWord_leByte hmagic)
    obtain ⟨hdiv, hmod⟩ := hplace 2 j (by decide) hj
    simp only [toSector, hdiv, hmod]
  have hback : toInt32 (d.length % 2 ^ 32).toNat = d.length := by
    rw [toInt32]
    split_ifs <;> omega
  rw [ofSector, hstart', hlength, hmagic', hback]

end InodeDisk

namespace Fs

/-! ## The file of the free map -/

def fileInode (s : Fs) (f : ℕ) : Option Inode := (s.files.get? f).bind fun x => s.inodes.get? x.inode

/-- The file at `f` can be written: it is on the inode `i`, which fits the disk. -/
structure Writable (s : Fs) (f : ℕ) (i : Inode) : Prop where
  inode : s.fileInode f = some i
  allowed : i.denyWriteCnt = 0
  fits : i.data.Fits s.disk
  length_lt : i.data.length < 2 ^ 31

/-- The sectors that hold the free map's file, if it is open. -/
def MapData (s : Fs) (n : ℕ) : Prop :=
  ∃ f i, s.freeMapFile = some f ∧ s.fileInode f = some i ∧ i.data.Data n

/-- The free map's file can be written, once it is there. -/
def MapReady (s : Fs) : Prop := ∀ f, s.freeMapFile = some f → ∃ i, s.Writable f i

/-- The free map's file holds the free map. -/
def OnDisk (s : Fs) : Prop := ∀ f i, s.freeMapFile = some f → s.fileInode f = some i →
  Bitmap.byteCnt s.freeMap.bitCnt ≤ i.data.length ∧
    ∀ n < Bitmap.byteCnt s.freeMap.bitCnt, s.disk.byte (i.data.base + n) = s.freeMap.byte n

def HasRoom (s : Fs) : Prop := ∀ f i, s.freeMapFile = some f → s.fileInode f = some i →
  i.data.length = Bitmap.byteCnt s.freeMap.bitCnt

/-- Other bits in the free map, for the sectors in `P`; on the disk, only its file has changed. -/
structure Remap (s : Fs) (P : ℕ → Prop) (value : Bool) (s' : Fs) : Prop where
  eq : s' = (s.setFreeMap s'.freeMap).setDisk s'.disk
  disk : s.disk.ChangedIn s.MapData s'.disk
  bits : s.freeMap.SetTo P value s'.freeMap

lemma Remap.freeMap {s s' : Fs} {value : Bool} (h : s.Remap NoSector value s') :
    s'.freeMap = s.freeMap := eq_of_get h.bits.bitCnt fun j => h.bits.notMem j id

section

variable {s s' : Fs} {f : ℕ} {i : Inode}

lemma fileInode_eq_some : s.fileInode f = some i ↔
    ∃ x, s.files.get? f = some x ∧ s.inodes.get? x.inode = some i := Option.bind_eq_some_iff

lemma bitmapWrite_run (m : Mem) (h : s.Writable f i) :
    ∃ k ≤ i.data.avail (Bitmap.byteCnt s.freeMap.bitCnt) 0,
      (m.answer = true → k = i.data.avail (Bitmap.byteCnt s.freeMap.bitCnt) 0) ∧
      (bitmapWrite m f).run s = .ok (decide (k = Bitmap.byteCnt s.freeMap.bitCnt))
        (s.setDisk (s.disk.put (i.data.base + 0) k s.freeMap.byte)) := by
  obtain ⟨x, hx, hi⟩ := fileInode_eq_some.mp h.inode
  obtain ⟨k, hk, hfull, hrun⟩ := inodeWriteAt_run m (byteCnt s.freeMap.bitCnt) 0
    s.freeMap.byte hi h.allowed h.fits
  refine ⟨k, hk, hfull, ?_⟩
  simp only [bitmapWrite, fileWriteAt, run_bind, run_get, hx, orThrow,
    run_pure, hrun]

lemma Writable.setFreeMap (h : s.Writable f i) (b : Bitmap) : (s.setFreeMap b).Writable f i :=
  ⟨h.inode, h.allowed, h.fits, h.length_lt⟩

lemma changedIn_bitmapWrite (h : s.Writable f i) (hmap : s.freeMapFile = some f) {size : ℤ} {k : ℕ}
    (hk : k ≤ i.data.avail size 0) (bytes : ℕ → UInt8) :
    s.disk.ChangedIn s.MapData (s.disk.put (i.data.base + 0) k bytes) :=
  (InodeDisk.changedIn_put h.fits.nonneg h.length_lt hk bytes).mono fun _ hn =>
    ⟨f, i, hmap, h.inode, hn⟩

lemma onDisk_bitmapWrite (h : s.Writable f i) (hmap : s.freeMapFile = some f)
    (hfull : Bitmap.byteCnt s.freeMap.bitCnt ≤ i.data.avail (Bitmap.byteCnt s.freeMap.bitCnt) 0) :
    (s.setDisk (s.disk.put (i.data.base + 0) (Bitmap.byteCnt s.freeMap.bitCnt) s.freeMap.byte)).OnDisk := by
  intro f' i' hf' hi'
  cases hmap.symm.trans hf'
  cases h.inode.symm.trans hi'
  have h0 := h.fits.nonneg
  rw [avail] at hfull
  refine ⟨?_, fun n hn => ?_⟩
  · show ((byteCnt s.freeMap.bitCnt : ℕ) : ℤ) ≤ _
    omega
  · have hn' : n < byteCnt s.freeMap.bitCnt := hn
    rw [disk_setDisk, Block.byte_put, overwrite_of_mem (by omega) (by omega)]
    show s.freeMap.byte (i.data.base + n - (i.data.base + 0)) = s.freeMap.byte n
    congr 1
    omega

lemma OnDisk.changedIn {Z : ℕ → Prop} {d : Block} (h : s.OnDisk)
    (hlength : ∀ f i, s.freeMapFile = some f → s.fileInode f = some i → i.data.length < 2 ^ 31)
    (hd : s.disk.ChangedIn Z d) (hZ : ∀ n, s.MapData n → ¬ Z n) : (s.setDisk d).OnDisk := by
  intro f i hf hi
  obtain ⟨hle, hbytes⟩ := h f i hf hi
  refine ⟨hle, fun n hn => ?_⟩
  have hn' : n < byteCnt s.freeMap.bitCnt := hn
  have hdata := data_of_lt (o := n) (by omega) (hlength f i hf hi)
  refine Eq.trans ?_ (hbytes n hn)
  show d.sector _ _ = s.disk.sector _ _
  rw [hd.sector _ (hZ _ ⟨f, i, hf, hi, hdata⟩)]

lemma setTo_back {b b' b'' : Bitmap} {k cnt : ℕ} (h : b.Takes k cnt b')
    (h' : b'.SetTo (Extent k cnt) false b'') : b.SetTo NoSector true b'' := by
  refine ⟨h'.bitCnt.trans h.bits.bitCnt, nofun, fun j _ => ?_⟩
  by_cases hj : Extent k cnt j
  · rw [h'.mem j hj, h.free hj]
  · rw [h'.notMem j hj, h.bits.notMem j hj]

lemma does_freeMapAllocate (m : Mem) (cnt : ℕ) (hsize : s.freeMap.bitCnt < 2 ^ 32)
    (hmap : s.MapReady) : Does (freeMapAllocate m cnt) s fun r s' =>
      (r = none ∧ s.Remap NoSector true s' ∧
        (m.answer = true → s.HasRoom → s' = s ∧ ∀ p, ¬ s.freeMap.Gap p cnt)) ∨
      ∃ k, r = some k ∧ s.freeMap.Takes k cnt s'.freeMap ∧ s.Remap (Extent k cnt) true s' ∧
        s'.OnDisk := by
  simp only [freeMapAllocate, does_bind, does_get, does_orThrow]
  obtain ⟨hscan, hnone⟩ | ⟨k, b, hscan, -, hgap, hfirst, hset⟩ :=
    scanAndFlip_run hsize (Nat.zero_le _) cnt false
  · refine ⟨_, hscan, ?_⟩
    simp only [does_set, does_pure]
    exact .inl ⟨trivial, ⟨rfl, .refl _ _, setTo_nothing (fun _ => id) true⟩,
      fun _ _ => ⟨rfl, fun p => hnone p (Nat.zero_le p)⟩⟩
  · refine ⟨_, hscan, ?_⟩
    have htakes : s.freeMap.Takes k cnt b := ⟨hgap, fun p => hfirst p (Nat.zero_le p), hset⟩
    simp only [does_set]
    cases hfile : s.freeMapFile with
    | none =>
      simp only [does_pure]
      refine .inr ⟨k, rfl, htakes, ⟨rfl, .refl _ _, hset⟩, fun f i hf => ?_⟩
      cases hfile.symm.trans hf
    | some f =>
      obtain ⟨i, hi⟩ := hmap f hfile
      obtain ⟨w, hw, hfull, hrun⟩ := bitmapWrite_run m (hi.setFreeMap b)
      have hdisk := changedIn_bitmapWrite hi hfile hw b.byte
      simp only [commit, does_bind]
      refine does_of_run hrun ?_
      split_ifs with hwritten
      · obtain rfl := of_decide_eq_true hwritten
        rw [does_pure]
        exact .inr ⟨k, rfl, htakes, ⟨rfl, hdisk, hset⟩,
          onDisk_bitmapWrite (hi.setFreeMap b) hfile hw⟩
      · have hk : k + cnt ≤ b.bitCnt := hset.bitCnt ▸ hgap.1
        obtain ⟨b', hb', hset'⟩ := setTo_setMultiple hk (hset.bitCnt ▸ hsize) false
        simp only [does_bind, does_get, does_orThrow, does_set, does_pure]
        refine ⟨b', hb', .inl ⟨trivial, ⟨rfl, hdisk, setTo_back htakes hset'⟩, fun hm hroom => ?_⟩⟩
        -- with memory, and room in the file, the map is written
        refine absurd (decide_eq_true ?_) hwritten
        have hlength := hroom f i hfile hi.inode
        rw [hfull hm, avail, hlength]
        show (max 0 (min ((byteCnt b.bitCnt : ℕ) : ℤ)
          ((byteCnt s.freeMap.bitCnt : ℕ) - (0 : ℕ)))).toNat = byteCnt b.bitCnt
        rw [hset.bitCnt]
        omega

lemma does_freeMapRelease (m : Mem) {k cnt : ℕ} (hsize : s.freeMap.bitCnt < 2 ^ 32)
    (hfile : s.freeMapFile = some f) (hi : s.Writable f i) (hk : k + cnt ≤ s.freeMap.bitCnt)
    (hset : ∀ j, Extent k cnt j → s.freeMap.get j = true) :
    Does (freeMapRelease m k cnt) s fun _ s' =>
      s.Remap (Extent k cnt) false s' ∧ (m.answer = true → s.HasRoom → s'.OnDisk) := by
  have hall : s.freeMap.all k cnt = some true :=
    all_eq_true hk hsize fun j h h' => hset j ⟨h, h'⟩
  obtain ⟨b, hb, hto⟩ := setTo_setMultiple hk hsize false
  obtain ⟨w, hw, hfull, hrun⟩ := bitmapWrite_run m (hi.setFreeMap b)
  simp only [freeMapRelease, does_bind, does_get, does_orThrow, does_require, does_set]
  refine ⟨true, hall, rfl, b, hb, f, hfile, does_of_run hrun ?_⟩
  rw [does_pure]
  refine ⟨⟨rfl, changedIn_bitmapWrite hi hfile hw b.byte, hto⟩, fun hm hroom => ?_⟩
  have hlength := hroom f i hfile hi.inode
  have hcnt : i.data.avail (byteCnt b.bitCnt) 0 = byteCnt b.bitCnt := by
    rw [avail, hto.bitCnt]
    omega
  have hw' : w = byteCnt b.bitCnt := (hfull hm).trans hcnt
  rw [hw']
  exact onDisk_bitmapWrite (hi.setFreeMap b) hfile (Nat.le_of_eq hcnt.symm)

/-! ## A new inode -/

lemma zeroSectors_run {start left j : ℕ} (h : start + j + left ≤ s.disk.size) : ∃ d : Block,
    (zeroSectors start left j).run s = .ok () (s.setDisk d) ∧
      s.disk.ChangedIn (Extent (start + j) left) d ∧
      ∀ n, Extent (start + j) left n → d.sector n = fun _ => 0 := by
  induction left generalizing s j with
  | zero =>
    refine ⟨s.disk, rfl, .refl _ _, fun n hn => ?_⟩
    simp only [Extent] at hn
    omega
  | succ left ih =>
    have hlt := s.disk.size_lt
    have hplace : (start + j) % 2 ^ 32 = start + j := Nat.mod_eq_of_lt (by omega)
    have hwrite := blockWrite_run (s := s) (n := start + j) (by omega) fun _ => 0
    obtain ⟨d, hrun, hchanged, hzero⟩ := ih (j := j + 1)
      (s := s.setDisk { s.disk with sector := update s.disk.sector (start + j) fun _ => 0 })
      (by simp only [disk_setDisk]; omega)
    refine ⟨d, ?_, ⟨hchanged.size, fun n hn => ?_⟩, fun n hn => ?_⟩
    · simp only [zeroSectors, run_bind, hplace, hwrite, hrun, setDisk_setDisk]
    · simp only [Extent] at hn
      rw [hchanged.sector n (by simp only [Extent]; omega)]
      exact update_of_ne (by omega) ..
    · obtain rfl | hne := eq_or_ne n (start + j)
      · rw [hchanged.sector _ (by simp only [Extent]; omega)]
        exact update_self ..
      · simp only [Extent] at hn
        exact hzero n ⟨by omega, by omega⟩

lemma writeInode_run {x k cnt : ℕ} (data : Sector) (hx : x < s.disk.size) (hk : k + cnt ≤ s.disk.size)
    (hxk : ¬ Extent k cnt x) : ∃ d : Block,
      (do blockWrite x data; zeroSectors k cnt 0 : FsM Unit).run s = .ok () (s.setDisk d) ∧
      s.disk.ChangedIn (fun n => n = x ∨ Extent k cnt n) d ∧ d.sector x = data ∧
      ∀ n, Extent k cnt n → d.sector n = fun _ => 0 := by
  let d₁ : Block := { s.disk with sector := update s.disk.sector x data }
  have hwrite := blockWrite_run hx data
  have hinode : d₁.sector x = data := update_self ..
  have hchanged₁ : s.disk.ChangedIn (· = x) d₁ := ⟨rfl, fun n hn => update_of_ne hn ..⟩
  obtain ⟨d, hrun, hchanged, hzero⟩ := zeroSectors_run (s := s.setDisk d₁) (j := 0) hk
  refine ⟨d, ?_, hchanged₁.trans hchanged, ?_, hzero⟩
  · rwa [run_bind, hwrite]
  · rwa [hchanged.sector x hxk]

/-- A new inode in sector `x`, with zeroes for its data from `k` on, and nothing else changed.
-/
structure Created (s : Fs) (x : ℕ) (length : ℤ) (k : ℕ) (s' : Fs) : Prop where
  eq : s' = (s.setFreeMap s'.freeMap).setDisk s'.disk
  takes : s.freeMap.Takes k (bytesToSectors length) s'.freeMap
  inode : InodeDisk.ofSector (s'.disk.sector x) = ⟨k, length, inodeMagic⟩
  zero : ∀ n, Extent k (bytesToSectors length) n → s'.disk.sector n = fun _ => 0
  disk : s.disk.ChangedIn
    (fun n => s.MapData n ∨ n = x ∨ Extent k (bytesToSectors length) n) s'.disk
  onDisk : (∀ n, s.MapData n → n ≠ x ∧ s.freeMap.get n = true) → s'.OnDisk

lemma does_inodeCreate (m : Mem) {x : ℕ} {length : ℤ} (hcnt : s.freeMap.bitCnt = s.disk.size)
    (hmap : s.MapReady) (hx : x < s.disk.size) (hmark : s.freeMap.get x = true) (h0 : 0 ≤ length)
    (h1 : length < 2 ^ 31) : Does (inodeCreate m x length) s fun r s' =>
      (r = false ∧ s.Remap NoSector true s' ∧
        (m = .plenty → s.HasRoom → ∀ p, ¬ s.freeMap.Gap p (bytesToSectors length))) ∨
      (r = true ∧ ∃ k, s.Created x length k s') := by
  have hlt := s.disk.size_lt
  have hsize : s.freeMap.bitCnt < 2 ^ 32 := hcnt ▸ hlt
  simp only [inodeCreate, does_bind, does_require, does_ite]
  refine ⟨h0, fun _ => ?_, fun hm => ?_⟩
  · refine (does_freeMapAllocate _ _ hsize hmap).mono ?_
    rintro r s₁ (⟨rfl, hremap, hnone⟩ | ⟨k, rfl, htakes, hremap, hon⟩)
    · simp only [does_pure]
      exact .inl ⟨trivial, hremap, fun hm hroom => (hnone (by rw [hm]; rfl) hroom).2⟩
    · have hk := htakes.gap.1
      have hsize₁ : s₁.disk.size = s.disk.size := hremap.disk.size
      have hxk : ¬ Extent k (bytesToSectors length) x := htakes.not_extent hmark
      obtain ⟨d, hrun, hchanged, hinode, hzero⟩ := writeInode_run
        (toSector ⟨k, length, inodeMagic⟩) (hsize₁ ▸ hx) (by omega) hxk
      show Does (do
        blockWrite x (toSector ⟨k, length, inodeMagic⟩)
        zeroSectors k (bytesToSectors length) 0
        return true) s₁ _
      rw [← bind_assoc, does_bind]
      refine does_of_run hrun ((does_pure true).mpr (.inr ⟨rfl, k, ?_⟩))
      have heq : s₁.setDisk d = (s.setFreeMap s₁.freeMap).setDisk d := by
        rw [hremap.eq]
        rfl
      refine ⟨heq, htakes, ?_, hzero, ?_, fun hapart => ?_⟩
      · show ofSector (d.sector x) = _
        rw [hinode]
        exact ofSector_toSector (show k < 2 ^ 32 by omega) h0 h1
          (show inodeMagic < 2 ^ 32 by decide)
      · exact hremap.disk.trans hchanged
      · rw [hremap.eq] at hon
        rw [heq]
        refine OnDisk.changedIn (s := (s.setFreeMap s₁.freeMap).setDisk s₁.disk) hon
          (fun f i hf hi => ?_) hchanged ?_
        · obtain ⟨j, hj⟩ := hmap f hf
          cases hj.inode.symm.trans hi
          exact hj.length_lt
        · rintro n hn (rfl | hextent)
          · exact (hapart n hn).1 rfl
          · exact htakes.not_extent (hapart n hn).2 hextent
  · rw [does_pure]
    refine .inl ⟨rfl, ⟨rfl, .refl _ _, setTo_nothing (fun _ => id) true⟩, fun hplenty => ?_⟩
    rw [hplenty] at hm
    exact absurd rfl hm

end

end Fs

end Pintos
