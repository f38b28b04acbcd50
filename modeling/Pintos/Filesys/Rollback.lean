import Pintos.Filesys.Room

/-!
# Filesys/Rollback — what a `filesys_create` that fails leaves behind

`filesys_create` takes a sector, has `inode_create` take the data, and has `dir_add` link the name.
Only the sector is given back when a step fails, so a name that cannot be linked costs the data that
were meant for it.
-/

namespace Pintos

open Machinery Bitmap Nat

namespace Fs

/-! ## The free map on the disk -/

/-- The free map's file, as `bitmap_read` loads it into `b`. -/
def mapFile (s : Fs) (b : Bitmap) : Bitmap :=
  b.load (s.disk.slice (s.disk.inodeAt freeMapSector).base (Bitmap.byteCnt b.bitCnt))

/-- The file reads as the free map. -/
def Mirrored (s : Fs) : Prop := ∀ b : Bitmap, b.bitCnt = s.freeMap.bitCnt →
  ∀ k < Bitmap.elemCnt s.freeMap.bitCnt, (s.mapFile b).bits k = s.freeMap.bits k

/-- A file system in order: a volume, and its free map is on the disk. -/
structure InOrder (K : ℕ → Prop) (f₀ : ℕ) (s : Fs) : Prop where
  volume : Volume K nothing f₀ rootDirSector 16 s
  users : Users f₀ s
  length : (s.disk.inodeAt freeMapSector).length = Bitmap.byteCnt s.freeMap.bitCnt
  small : s.freeMap.bitCnt + 31 < 2 ^ 32
  clean : s.freeMap.Clean
  mirrored : s.Mirrored

/-! ## What a call may leave -/

/-- Nothing is lost: the free map, in memory and on the disk, and the directory are as they
were. -/
structure Intact (s s' : Fs) : Prop where
  freeMap : s'.freeMap = s.freeMap
  mapFile : ∀ b : Bitmap, b.bitCnt = s.freeMap.bitCnt → ∀ k < Bitmap.elemCnt s.freeMap.bitCnt,
    (s'.mapFile b).bits k = (s.mapFile b).bits k
  directory : s.disk.Spares (· = rootDirSector) s'.disk

/-- What is left: `c` sectors from `k` on are taken. -/
structure Left (s : Fs) (k c : ℕ) (s' : Fs) : Prop where
  taken : s.freeMap.SetTo (Extent k c) true s'.freeMap
  mirrored : s'.Mirrored
  directory : s.disk.Spares (· = rootDirSector) s'.disk

section

variable {K : ℕ → Prop} {f₀ k c : ℕ} {size : ℤ} {s s' : Fs}

/-! ## The map is written -/

lemma MapWritten.mirrored (h : s.MapWritten) (hclean : s.freeMap.Clean) : s.Mirrored := by
  intro b hb k hk
  rw [mapFile, hb]
  refine bits_load hclean hb (fun n hn => ?_) hk
  have hn : n < byteCnt s.freeMap.bitCnt := byteCnt_eq s.freeMap.bitCnt ▸ hn
  exact (Block.getElem?_slice hn).trans (congrArg some (h n hn))

lemma Mirrored.of_disk (h : s.Mirrored) (hdisk : s'.disk = s.disk)
    (hmap : s'.freeMap = s.freeMap) : s'.Mirrored := by
  intro b hb
  rw [mapFile, hdisk, hmap]
  exact h b (hmap ▸ hb)

/-! ## The end of a call that fails -/

lemma Left.of_same (hdisk : s'.disk = s.disk) (hmap : s'.freeMap = s.freeMap) (hs : s.Mirrored) :
    s.Left 0 0 s' := by
  refine ⟨?_, hs.of_disk hdisk hmap, fun _ _ _ _ => by rw [hdisk]⟩
  rw [hmap]
  exact setTo_nothing (fun j hj => not_lt.mpr hj.1 hj.2) true

/-- Nothing is taken, and so nothing is lost. -/
lemma Left.intact (h : s.Left k 0 s') (hs : s.Mirrored) : s.Intact s' := by
  have hno (j : ℕ) : ¬ Extent k 0 j := fun hj => not_lt.mpr hj.1 hj.2
  have hmap : s'.freeMap = s.freeMap :=
    eq_of_get h.taken.bitCnt fun j => h.taken.notMem j (hno j)
  refine ⟨hmap, fun b hb k hk => ?_, h.directory⟩
  rw [hs b hb k hk, ← hmap]
  rw [← hmap] at hb hk
  exact h.mirrored b hb k hk

lemma Left.not_intact (h : s.Left k c s') (hgap : s.freeMap.Gap k c) (hc : 0 < c) :
    ¬ s.Intact s' := by
  intro hintact
  have htaken := h.taken.mem k ⟨le_rfl, Nat.lt_add_of_pos_right hc⟩
  rw [hintact.freeMap, hgap.2 k le_rfl (Nat.lt_add_of_pos_right hc)] at htaken
  cases htaken

/-! ## `filesys_create` -/

lemma bytesToSectors_pos (h0 : 0 < size) (h1 : size < 2 ^ 31) : 0 < bytesToSectors size := by
  have hlow : -2 ^ 31 ≤ toInt32 (size + blockSectorSize - 1) := by
    rw [toInt32]
    split_ifs <;> omega
  have hwrap : toInt32 (size + blockSectorSize - 1) ≤ -512 ∨
      512 ≤ toInt32 (size + blockSectorSize - 1) := by
    rw [toInt32, blockSectorSize]
    split_ifs <;> omega
  have hhigh := toInt32_lt (size + blockSectorSize - 1)
  rw [bytesToSectors]
  generalize toInt32 (size + blockSectorSize - 1) = w at *
  obtain hneg | hpos := hwrap
  · obtain ⟨v, rfl⟩ : ∃ v, w = -v := ⟨-w, (Int.neg_neg w).symm⟩
    rw [Int.neg_tdiv, Int.tdiv_eq_ediv_of_nonneg (by omega), blockSectorSize]
    omega
  · rw [Int.tdiv_eq_ediv_of_nonneg (by omega), blockSectorSize]
    omega

lemma InOrder.filesysCreate (h : InOrder K f₀ s) (junk : Fin 15 → UInt8) (name : CString)
    (h0 : 0 ≤ size) (h1 : size < 2 ^ 31) :
    Does (Fs.filesysCreate .plenty junk name size) s fun r s' =>
      (r = true ∧ s.CanLink name) ∨
      (r = false ∧ ∃ k c, s.Left k c s' ∧
        ((c = 0 ∧ ¬ s.CanHold (bytesToSectors size)) ∨
          (c = bytesToSectors size ∧ s.freeMap.Gap k c ∧ s.CanHold c ∧ ¬ s.CanLink name))) := by
  refine (h.volume.filesysCreate .plenty junk name h0 h1).mono ?_
  rintro r s' (⟨rfl, hrefused⟩ | ⟨rfl, x, hmade⟩)
  · obtain ⟨k, c, hset, hmap, hcost⟩ := hrefused.cost rfl h.length
    refine .inr ⟨rfl, k, c, ⟨hset, ?_, hrefused.kept.calm.spares.mono ?_⟩, hcost⟩
    · obtain ⟨hdisk, hmap⟩ | hwritten := hmap
      · exact h.mirrored.of_disk hdisk hmap
      refine hwritten.mirrored (h.clean.setTo h.small ?_ hset fun j hj => ?_)
      · rw [h.volume.sound.laid.bitCnt]
        exact h.volume.sound.laid.sector_lt _ h.volume.mem_map
      · obtain ⟨rfl, -⟩ | ⟨-, hgap, -⟩ := hcost
        · exact absurd hj.1 (not_le.mpr hj.2)
        · exact hj.2.trans_le hgap.1
    · rintro y rfl
      exact h.volume.others
  · obtain ⟨k, hk, -, hplenty⟩ := hmade.slot
    obtain ⟨hnone, hnew⟩ := hplenty rfl
    exact .inl ⟨rfl, hmade.good, hnew, k, hk, hnone⟩

/-- With a size below zero, a call that returns has not got beyond the sector for the inode. -/
lemma InOrder.filesysCreate_negative (h : InOrder K f₀ s) (junk : Fin 15 → UInt8) (name : CString)
    (hneg : size < 0) (hrun : (Fs.filesysCreate .plenty junk name size).run s = .ok false s') :
    s.Intact s' := by
  obtain ⟨t, ht, -, hsame⟩ | ⟨x, t, ht, -⟩ :=
    h.volume.filesysCreate_negative .plenty junk name hneg
  · cases ht.symm.trans hrun
    obtain ⟨hdisk, hmap⟩ := hsame rfl h.length
    exact (Left.of_same hdisk hmap h.mirrored).intact h.mirrored
  · cases ht.symm.trans hrun

/-! ## The first file system in order -/

lemma Formatted.inOrder (h : s.Formatted) : ∃ f₀, InOrder System0 f₀ s := by
  obtain ⟨f₀, hv⟩ := h.volume
  obtain ⟨i, hi, -, -, hdata⟩ := hv.sound.map_known hv.file
  refine ⟨f₀, hv, h.users hv.file, h.roomy, h.small, h.clean, fun b hb k hk => ?_⟩
  rw [mapFile, ← hdata, hb]
  exact h.mirror f₀ i hv.file hi b hb k hk

end

/-- **What a failed `filesys_create` costs**: nothing is lost, exactly if there are no data to take,
or the name can be linked, or there are no sectors for the inode and the data. -/
theorem failed_create_intact {K : ℕ → Prop} {f₀ : ℕ} {s : Fs} (h : InOrder K f₀ s)
    (junk : Fin 15 → UInt8) (name : CString) {size : ℤ} (h1 : size < 2 ^ 31) :
    (0 ≤ size → Does (filesysCreate .plenty junk name size) s fun _ _ => True) ∧
    ((∀ s', (filesysCreate .plenty junk name size).run s = .ok false s' → s.Intact s') ↔
      size ≤ 0 ∨ s.CanLink name ∨ ¬ s.CanHold (bytesToSectors size)) := by
  refine ⟨fun h0 => (h.filesysCreate junk name h0 h1).mono fun _ _ _ => trivial, ?_⟩
  constructor
  · intro hintact
    refine or_iff_not_imp_left.mpr fun hpos => or_iff_not_imp_left.mpr fun hlink hhold => ?_
    have hpos : 0 < size := Int.not_le.mp hpos
    obtain ⟨r, s', hrun, hr⟩ := h.filesysCreate junk name hpos.le h1
    obtain ⟨-, hcan⟩ | ⟨rfl, k, c, hleft, ⟨-, hno⟩ | ⟨rfl, hgap, -, -⟩⟩ := hr
    · exact hlink hcan
    · exact hno hhold
    · exact hleft.not_intact hgap (bytesToSectors_pos hpos h1) (hintact s' hrun)
  · intro hcond s' hrun
    obtain hneg | h0 := lt_or_ge size 0
    · exact h.filesysCreate_negative junk name hneg hrun
    obtain ⟨hr, -⟩ | ⟨-, k, c, hleft, hc⟩ := (h.filesysCreate junk name h0 h1).of_run hrun
    · cases hr
    obtain ⟨rfl, -⟩ | ⟨rfl, -, hhold, hlink⟩ := hc
    · exact hleft.intact h.mirrored
    -- the data were taken, and the name is not linked: there were none
    obtain hzero | hcan | hfull := hcond
    · obtain rfl : size = 0 := Int.le_antisymm hzero h0
      exact hleft.intact h.mirrored
    · exact absurd hcan hlink
    · exact absurd hhold hfull

lemma eight_lt : 8 < 2 ^ 32 := by decide

def eightSectors : Fs := { sixSectors with disk := ⟨8, fun _ _ => 0, eight_lt⟩ }

def longName : CString := ⟨List.replicate 15 97, by decide⟩

lemma exists_inOrder : ∃ f₀ s,
    (filesysInit .plenty (fun _ => 0) true).run eightSectors = .ok () s ∧ InOrder System0 f₀ s := by
  have hrun : endsWith (fun _ _ => true)
      ((filesysInit .plenty (fun _ => 0) true).run eightSectors) = true := by decide +kernel
  obtain ⟨_, s, hs, -⟩ := endsWith_iff.mp hrun
  have hboot : eightSectors.Booting := ⟨fun _ => rfl, fun _ => rfl, rfl⟩
  obtain ⟨f₀, horder⟩ := (gives_filesysInit .plenty (fun _ => 0) hboot () s hs).inOrder
  exact ⟨f₀, s, hs, horder⟩

/-- Without data the long name costs nothing. -/
theorem failed_create_intact_empty : ∃ f₀ s, InOrder System0 f₀ s ∧
    Does (filesysCreate .plenty (fun _ => 0) longName 0) s (fun _ _ => True) ∧
    ∀ s', (filesysCreate .plenty (fun _ => 0) longName 0).run s = .ok false s' → s.Intact s' := by
  obtain ⟨f₀, s, -, hs⟩ := exists_inOrder
  obtain ⟨hreturns, hintact⟩ :=
    failed_create_intact hs (fun _ => 0) longName (show (0 : ℤ) < 2 ^ 31 by decide)
  exact ⟨f₀, s, hs, hreturns (Int.le_refl 0), hintact.mpr (.inl (Int.le_refl 0))⟩

/-- A file of one byte under the long name is refused, and sector 5 stays taken. -/
theorem failed_create_leaks : ∃ f₀ s s', InOrder System0 f₀ s ∧
    (filesysCreate .plenty (fun _ => 0) longName 1).run s = .ok false s' ∧
    s.freeMap.get 5 = false ∧ s'.freeMap.get 5 = true ∧ ¬ s.Intact s' := by
  have hrun : endsWith (fun _ s => endsWith (fun r s' => r = false ∧ s.freeMap.get 5 = false ∧
      s'.freeMap.get 5 = true) ((filesysCreate .plenty (fun _ => 0) longName 1).run s))
      ((filesysInit .plenty (fun _ => 0) true).run eightSectors) = true := by decide +kernel
  simp only [endsWith_iff, decide_eq_true_eq] at hrun
  obtain ⟨_, s, hs, _, s', hs', rfl, hfree, htaken⟩ := hrun
  obtain ⟨f₀, t, ht, horder⟩ := exists_inOrder
  obtain rfl : t = s := by
    cases ht.symm.trans hs
    rfl
  refine ⟨f₀, t, s', horder, hs', hfree, htaken, fun hintact => ?_⟩
  rw [hintact.freeMap, hfree] at htaken
  cases htaken

end Fs

end Pintos
