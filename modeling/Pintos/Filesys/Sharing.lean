import Pintos.Filesys.Creation
import Pintos.Filesys.Mirror

/-!
# Filesys/Sharing — files never share sectors

Whatever `malloc` answers and in any order, each call leaves a volume, whose files are laid out apart
from one another; so no assertion of `free_map_release` fails, and what one file owns is written by
calls on that file only.
-/

namespace Pintos

open Machinery EStateM Heap

namespace Fs

/-- The files of `K` but the free map and the root directory. -/
def Ordinary (K : ℕ → Prop) (x : ℕ) : Prop := K x ∧ x ≠ freeMapSector ∧ x ≠ rootDirSector

lemma others_of_ordinary {K : ℕ → Prop} (x : ℕ) (h : Ordinary K x) : Others K x := ⟨h.1, h.2.1⟩

/-- No open file, but the free map's own, is on the free map or the root directory. -/
def Users (f₀ : ℕ) (s : Fs) : Prop := ∀ f x i, f ≠ f₀ → s.files.get? f = some x →
  s.inodes.get? x.inode = some i → i.sector ≠ freeMapSector ∧ i.sector ≠ rootDirSector

/-- A name that `dir_add` accepts. -/
def WellNamed (nm : List UInt8) : Prop := nm ≠ [] ∧ nm.length ≤ nameMax

/-- A record of the root in use was so before, or has a name that `dir_add` accepts. -/
def Named (s s' : Fs) : Prop := ∀ k < 16, ∀ p, s'.slot rootDirSector k = some p →
  s.slot rootDirSector k = some p ∨ WellNamed p.1

/-- A call is over: there is a volume again, and what the files in `L` own is as it was. -/
structure Settles (f₀ : ℕ) (L : ℕ → Prop) (s s' : Fs) : Prop where
  volume : ∃ K', Volume K' nothing f₀ rootDirSector 16 s'
  users : Users f₀ s'
  calm : Calm L s s'
  named : Named s s'

section

variable {K K' L L' : ℕ → Prop} {pend : ℕ → ℕ} {f₀ f a x dir : ℕ} {i : Inode} {s s₁ s' : Fs}

lemma Formatted.users (h : s.Formatted) (hf : s.freeMapFile = some f₀) : Users f₀ s := by
  intro g x _ hg hx
  obtain ⟨f, hf', honly⟩ := h.map
  cases hf.symm.trans hf'
  exact absurd (honly g x hx).1 hg

lemma Calm.of_disk (hages : Ages s s') (hdisk : s'.disk = s.disk) (L : ℕ → Prop) : Calm L s s' :=
  ⟨hages, hdisk ▸ .refl _ _⟩

lemma roomy_of_eq (hdisk : s'.disk = s.disk) (hmap : s'.freeMap = s.freeMap) (h : s.Roomy) :
    s'.Roomy := by
  rw [Roomy, hdisk, hmap]
  exact h

lemma calm_setFiles (L : ℕ → Prop) (s : Fs) (h : Heap File) : Calm L s (s.setFiles h) := by
  refine .of_disk (.of_inodes ?_) ?_ L
  · rfl
  · rfl

lemma Settles.mono (h : Settles f₀ L s s') (hL : ∀ x, L' x → L x) : Settles f₀ L' s s' :=
  ⟨h.volume, h.users, h.calm.mono hL, h.named⟩

section

variable (h : Users f₀ s) (hc : Counted pend s)

include h hc

lemma Users.ages (hages : Ages s s')
    (hfiles : ∀ f y, f ≠ f₀ → s'.files.get? f = some y → ∃ x, s.files.get? f = some x ∧ x.inode = y.inode) :
    Users f₀ s' := by
  intro f y i hf hy hi
  obtain ⟨x, hx, hinode⟩ := hfiles f y hf hy
  obtain ⟨j, hj⟩ := hc.inode_of_file hx
  rw [hinode] at hj
  obtain ⟨j', hj', hsector⟩ := hages.sector _ i hi (lt_next hj)
  rw [← hsector]
  exact h f x j' hf hx (hinode ▸ hj')

lemma Users.same (hages : Ages s s') (hfiles : s'.files = s.files) : Users f₀ s' :=
  h.ages hc hages fun _ y _ hy => ⟨y, hfiles ▸ hy, rfl⟩

lemma Users.moveFile (f w : ℕ) :
    Users f₀ (s.setFiles (s.files.modify f fun y => { y with pos := y.pos + w })) := by
  refine h.ages hc (.of_inodes rfl) fun g z _ hz => ?_
  obtain ⟨z', hz', rfl⟩ := Option.map_eq_some_iff.mp ((get?_modify ..).symm.trans hz)
  refine ⟨z', hz', ?_⟩
  split_ifs <;> rfl

end

lemma Named.of_slots (h : ∀ k < 16, s'.slot rootDirSector k = s.slot rootDirSector k) :
    Named s s' := fun k hk _ hp => .inl ((h k hk).symm.trans hp)

lemma Named.of_disk (h : s'.disk = s.disk) : Named s s' := .of_slots fun _ _ => slot_of_disk h _ _

lemma Named.trans (h : Named s s₁) (h' : Named s₁ s') : Named s s' := fun k hk p hp =>
  (h' k hk p hp).elim (h k hk p) .inr

section

variable (h : Volume K pend f₀ rootDirSector 16 s)

include h

lemma Volume.named (hd : s.disk.Spares L s'.disk) (hL : L rootDirSector) : Named s s' :=
  .of_slots fun _ hk => slot_of_spares hd hL h.linked.capacity hk

lemma Volume.named_setEntry {k : ℕ} {name : CString} (hk : k < 16) (hx : x < 2 ^ 32)
    (hgood : GoodName name) (junk : Fin 15 → UInt8) :
    Named s (s.setEntry rootDirSector k ⟨x, strlcpy junk name, true⟩) := by
  intro j hj p hp
  rw [h.slot_setEntry hk hx] at hp
  split_ifs at hp
  · obtain ⟨-, rfl⟩ := DirEntry.held_eq_some.mp hp
    rw [str_strlcpy hgood.2]
    exact .inr hgood
  · exact .inl hp

end

/-! ## The calls by name

They all open the root directory first and close it last. -/

/-- What a call has left so far: a volume, what the files in `L` own, and the open files. -/
structure Kept (K : ℕ → Prop) (pend : ℕ → ℕ) (f₀ : ℕ) (L : ℕ → Prop) (s s₁ : Fs) : Prop where
  volume : Volume K pend f₀ rootDirSector 16 s₁
  calm : Calm L s s₁
  files : s₁.files = s.files
  named : Named s s₁

/-- What comes between `dir_open_root` and `dir_close`. -/
structure Within (K : ℕ → Prop) (pend : ℕ → ℕ) (f₀ : ℕ) (L : ℕ → Prop) (dir : ℕ) (s s₁ : Fs) :
    Prop extends Kept K pend f₀ L s s₁ where
  opened : s₁.OpenDir dir rootDirSector

lemma Kept.settles (h : Kept K nothing f₀ L s s') (hu : Users f₀ s) (hc : Counted nothing s) :
    Settles f₀ L s s' := ⟨⟨K, h.volume⟩, hu.same hc h.calm.ages h.files, h.calm, h.named⟩

namespace Within

variable (h : Within K pend f₀ L dir s s₁)

include h

lemma change {pend' : ℕ → ℕ} (hc : Calm L s₁ s') (hv : Volume K' pend' f₀ rootDirSector 16 s')
    (hdirs : s'.dirs = s₁.dirs) (hfiles : s'.files = s₁.files) (hnamed : Named s₁ s') :
    Within K' pend' f₀ L dir s s' :=
  ⟨⟨hv, h.calm.trans hc, hfiles.trans h.files, h.named.trans hnamed⟩,
    h.opened.ages hc.ages hdirs hv.counted⟩

lemma after (ha : After (Others K) K' s₁ s') (hL : ∀ y, L y → Others K y)
    (hv : Volume K' pend f₀ rootDirSector 16 s') : Within K' pend f₀ L dir s s' :=
  h.change (ha.calm.mono hL) hv (dirs_of_heaps ha.heaps) (files_of_heaps ha.heaps)
    (h.volume.named ha.spares h.volume.others)

lemma dirClose (m : Mem) : Does (Fs.dirClose m dir) s₁ fun _ s' =>
    Kept K pend f₀ L s s' ∧ Ages s₁ s' ∧ s'.disk = s₁.disk ∧ s'.freeMap = s₁.freeMap := by
  refine (h.volume.dirClose h.opened m).mono ?_
  rintro _ s' ⟨hv, hages, hdisk, hfiles, hmap⟩
  exact ⟨⟨hv, h.calm.trans (.of_disk hages hdisk L), hfiles.trans h.files,
    h.named.trans (.of_disk hdisk)⟩, hages, hdisk, hmap⟩

lemma returns {α : Type} (m : Mem) (r : α) : Does (do Fs.dirClose m dir; return r) s₁ fun r' s' =>
    r' = r ∧ Kept K pend f₀ L s s' ∧ s'.disk = s₁.disk ∧ s'.freeMap = s₁.freeMap := by
  rw [does_bind]
  refine (h.dirClose m).mono ?_
  rintro _ s' ⟨hkept, -, hsame⟩
  exact (does_pure r).mpr ⟨rfl, hkept, hsame⟩

end Within

section

variable (h : Volume K nothing f₀ rootDirSector 16 s)

include h

lemma Volume.dirOpenRoot (m : Mem) (L : ℕ → Prop) : Does (Fs.dirOpenRoot m) s fun r s₁ =>
    s₁.disk = s.disk ∧ s₁.freeMap = s.freeMap ∧
      (r = none ∧ m ≠ .plenty ∧ Kept K nothing f₀ L s s₁ ∨
        ∃ dir, r = some dir ∧ Within K nothing f₀ L dir s s₁) := by
  refine (h.openDir (m.sub 0) (m.sub 1)).mono ?_
  rintro _ s₁ ⟨hv, hages, -, hdisk, hfiles, hmap, hr⟩
  have hkept : Kept K nothing f₀ L s s₁ := ⟨hv, .of_disk hages hdisk L, hfiles, .of_disk hdisk⟩
  refine ⟨hdisk, hmap, ?_⟩
  obtain ⟨rfl, -, hno⟩ | ⟨a, rfl, -, hopened⟩ := hr
  · refine .inl ⟨rfl, ?_, hkept⟩
    rintro rfl
    exact hno rfl rfl
  · exact .inr ⟨_, rfl, hkept, hopened⟩

lemma Volume.filesysRemove (hu : Users f₀ s) (m : Mem) (name : CString) :
    Does (Fs.filesysRemove m name) s fun _ s' => Settles f₀ (Ordinary K) s s' := by
  rw [Fs.filesysRemove, does_bind]
  refine (h.dirOpenRoot (m.sub 0) (Ordinary K)).mono ?_
  rintro _ s₁ ⟨-, -, ⟨rfl, -, hkept⟩ | ⟨dir, rfl, hw⟩⟩
  · exact (does_pure false).mpr (hkept.settles hu h.counted)
  rw [does_bind]
  refine (hw.volume.dirRemove hw.opened (m.sub 1) name).mono ?_
  rintro r s₂ (⟨-, rfl, -⟩ | ⟨k, x, K', hk, hslot, hv₂, hc, hslots, -⟩)
  · exact (hw.returns (m.sub 2) r).mono fun _ _ hs' => hs'.2.1.settles hu h.counted
  · have hnamed₂ : Named s₁ s₂ := by
      intro j hj p hp
      rw [hslots j hj] at hp
      split_ifs at hp
      exact .inl hp
    exact ((hw.change hc.calm hv₂ hc.dirs hc.files hnamed₂).returns (m.sub 2) r).mono
      fun _ _ hs' => hs'.2.1.settles hu h.counted

end

/-! ### `filesys_create` -/

/-- The name can be linked: it is one, it is new, and there is a record for it. -/
def CanLink (s : Fs) (name : CString) : Prop :=
  GoodName name ∧ (∀ k < 16, ∀ y, s.slot rootDirSector k ≠ some (name.bytes, y)) ∧
    ∃ k < 16, s.slot rootDirSector k = none

/-- There is a sector for an inode, and `cnt` in a row behind it for the data. -/
def CanHold (s : Fs) (cnt : ℕ) : Prop := ∃ x p, s.freeMap.Gap x 1 ∧ x < p ∧ s.freeMap.Gap p cnt

/-- The call has begun: the directory is open, and sector `x` is taken for the inode. -/
structure Begun (K : ℕ → Prop) (f₀ dir x : ℕ) (s s₂ : Fs) : Prop
    extends Within K nothing f₀ (Others K) dir s s₂ where
  taken : Taken K s₂ x 1
  takes : s.freeMap.Takes x 1 s₂.freeMap
  roomy : s.Roomy → s₂.Roomy

/-- The call has failed. The sector is given back, but not the data of a file not linked. -/
structure Refused (K : ℕ → Prop) (f₀ : ℕ) (m : Mem) (name : CString) (cnt : ℕ) (s s' : Fs) : Prop where
  kept : Kept K nothing f₀ (Others K) s s'
  cost : m = .plenty → s.Roomy → ∃ k c, s.freeMap.SetTo (Extent k c) true s'.freeMap ∧
    (s'.disk = s.disk ∧ s'.freeMap = s.freeMap ∨ s'.MapWritten) ∧
    ((c = 0 ∧ ¬ s.CanHold cnt) ∨
      (c = cnt ∧ s.freeMap.Gap k c ∧ s.CanHold c ∧ ¬ s.CanLink name))

/-- The call has made a file, with its inode in sector `x`. -/
structure Made (K : ℕ → Prop) (f₀ : ℕ) (m : Mem) (name : CString) (size : ℤ) (x : ℕ) (s s' : Fs) :
    Prop where
  kept : Kept (Also K x) nothing f₀ (Ordinary K) s s'
  new : ¬ K x
  good : GoodName name
  slot : ∃ k < 16, (∀ j < 16, s'.slot rootDirSector j =
      if j = k then some (name.bytes, x) else s.slot rootDirSector j) ∧
    (m = .plenty → s.slot rootDirSector k = none ∧
      ∀ j < 16, ∀ y, s.slot rootDirSector j ≠ some (name.bytes, y))
  length : (s'.disk.inodeAt x).length = size
  takes : ∃ b k, s.freeMap.Takes x 1 b ∧ b.Takes k (bytesToSectors size) s'.freeMap
  roomy : s.Roomy → s'.Roomy

lemma setTo_around {b₁ b₂ b₃ b₄ : Bitmap} {k c : ℕ} (h₁ : b₁.Takes x 1 b₂)
    (h₂ : b₂.SetTo (Extent k c) true b₃) (hx : ¬ Extent k c x)
    (h₃ : b₃.SetTo (Extent x 1) false b₄) : b₁.SetTo (Extent k c) true b₄ := by
  refine ⟨(h₃.bitCnt.trans h₂.bitCnt).trans h₁.bits.bitCnt, fun j hj => ?_, fun j hj => ?_⟩
  · rw [h₃.notMem j fun hj' => hx (extent_one.mp hj' ▸ hj), h₂.mem j hj]
  · by_cases hjx : Extent x 1 j
    · rw [h₃.mem j hjx, h₁.free hjx]
    · rw [h₃.notMem j hjx, h₂.notMem j hj, h₁.bits.notMem j hjx]

namespace Begun

variable {s₂ s₃ : Fs} {name : CString} {size : ℤ} {k c cnt : ℕ} (h : Begun K f₀ dir x s s₂)

include h

lemma free {j : ℕ} (hj : s₂.freeMap.get j = false) : s.freeMap.get j = false ∧ j ≠ x := by
  by_cases hjx : Extent x 1 j
  · cases (h.takes.bits.mem j hjx).symm.trans hj
  · exact ⟨(h.takes.bits.notMem j hjx).symm.trans hj, fun heq => hjx (extent_one.mpr heq)⟩

lemma canHold_iff : s.CanHold cnt ↔ ∃ p, s₂.freeMap.Gap p cnt := by
  constructor
  · rintro ⟨y, p, hy, hlt, hend, hp⟩
    have hxp : x < p := Nat.lt_of_le_of_lt (h.takes.first y hy) hlt
    refine ⟨p, h.takes.bits.bitCnt ▸ hend, fun j hj hj' => ?_⟩
    rw [h.takes.bits.notMem j fun hjx => Nat.not_lt.mpr (Nat.le_trans hxp hj) hjx.2]
    exact hp j hj hj'
  · rintro ⟨p, hend, hp⟩
    have hgap : s.freeMap.Gap p cnt :=
      ⟨h.takes.bits.bitCnt ▸ hend, fun j hj hj' => (h.free (hp j hj hj')).1⟩
    obtain rfl | hcnt := Nat.eq_zero_or_pos cnt
    · refine ⟨x, x + 1, h.takes.gap, Nat.lt_succ_self x, h.takes.gap.1, fun j hj hj' => ?_⟩
      exact absurd hj (Nat.not_le.mpr hj')
    have hpos : p < p + cnt := Nat.lt_add_of_pos_right hcnt
    have hle : x ≤ p := by
      refine h.takes.first p ⟨Nat.le_trans hpos hgap.1, fun j hj hj' => ?_⟩
      exact hgap.2 j hj (Nat.lt_of_lt_of_le hj' hpos)
    have hne : p ≠ x := (h.free (hp p (Nat.le_refl p) hpos)).2
    exact ⟨x, p, h.takes.gap, Nat.lt_of_le_of_ne hle hne.symm, hgap⟩

/-- The end of a call that fails: `c` sectors from `k` on stay taken. -/
lemma fails (hw : Within K nothing f₀ (Others K) dir s s₃) (ht : Taken K s₃ x 1)
    (hr : s₂.Roomy → s₃.Roomy) (hset : s₂.freeMap.SetTo (Extent k c) true s₃.freeMap)
    (hx : ¬ Extent k c x) (m m' : Mem) :
    Does (do
      if !false && x ≠ 0 then freeMapRelease m x 1 else pure ()
      Fs.dirClose m' dir
      return false) s₃ fun r s' => r = false ∧ Kept K nothing f₀ (Others K) s s' ∧
        s.freeMap.SetTo (Extent k c) true s'.freeMap ∧
        (m.answer = true → s.Roomy → s'.MapWritten) := by
  simp only [Bool.not_false, Bool.true_and, decide_eq_true (ht.ne_zero hw.volume.mem_map), if_true]
  rw [does_bind]
  refine (hw.volume.release m ht).mono ?_
  rintro _ s₄ ⟨ha, hv, hback, hwritten⟩
  refine ((hw.after ha (fun _ => id) hv).returns m' false).mono ?_
  rintro _ s' ⟨rfl, hkept, hdisk, hmap⟩
  refine ⟨rfl, hkept, hmap ▸ setTo_around h.takes hset hx hback, fun hm hroomy => ?_⟩
  rw [MapWritten, hdisk, hmap]
  exact hwritten hm (hr (h.roomy hroomy))

/-- The file is there, and its name is linked or not. -/
lemma links (ha : After (Others K) (Also K x) s₂ s₃) (hv : Volume (Also K x) nothing f₀ rootDirSector 16 s₃)
    (hfresh : Fresh (Also K x) rootDirSector 16 s₃ x) (hc : s₂.Created x size k s₃)
    (hs : (s.disk.inodeAt rootDirSector).length = (entrySize * 16 : ℕ)) (m : Mem)
    (junk : Fin 15 → UInt8) (name : CString) :
    Does (do
      let success ← Fs.dirAdd (m.sub 3) junk dir name x
      if !success && x ≠ 0 then freeMapRelease (m.sub 4) x 1 else pure ()
      Fs.dirClose (m.sub 5) dir
      return success) s₃ fun r s' =>
        (r = false ∧ Refused K f₀ m name (bytesToSectors size) s s') ∨
        (r = true ∧ Made K f₀ m name size x s s') := by
  have hw := h.after ha (fun _ => id) hv
  have hslot (k : ℕ) (hk : k < 16) : s₃.slot rootDirSector k = s.slot rootDirSector k :=
    slot_of_spares hw.calm.spares h.volume.others hs hk
  rw [does_bind]
  refine (hv.dirAdd hw.opened (m.sub 3) junk name x).mono ?_
  rintro _ s₄ (⟨rfl, rfl, hfull⟩ | ⟨rfl, hgood, j, hj, rfl, hplenty⟩)
  · -- the file is not linked, and its inode nobody's
    obtain ⟨hv₄, ht₄⟩ := hv.discard hfresh h.taken.not_mem fun a i hi => by
      rw [inodes_of_heaps ha.heaps] at hi
      exact (h.volume.sound.known a i hi).1
    have hfree (j : ℕ) (hj : Extent k (bytesToSectors size) j) := h.free (hc.takes.free hj)
    refine (h.fails ⟨{ hw with volume := hv₄ }, hw.opened⟩ ht₄ (h.volume.roomy_after ha)
      hc.takes.bits (fun hx => (hfree x hx).2 rfl) (m.sub 4) (m.sub 5)).mono ?_
    rintro _ s' ⟨rfl, hkept, hset, hwritten⟩
    refine .inl ⟨rfl, hkept, fun hm hroomy => ⟨k, _, hset, .inr (hwritten (hm ▸ rfl) hroomy),
      .inr ⟨rfl, ⟨h.takes.bits.bitCnt ▸ hc.takes.gap.1, fun j hj hj' => (hfree j ⟨hj, hj'⟩).1⟩,
        h.canHold_iff.mpr ⟨k, hc.takes.gap⟩, ?_⟩⟩⟩
    rintro ⟨hgood, hnew, j, hj, hnone⟩
    refine hfull (Mem.sub_of_plenty hm 3) hgood (fun k hk y => ?_) j hj ((hslot j hj).trans hnone)
    rw [hslot k hk]
    exact hnew k hk y
  · have hx := hv.sound.laid.lt_two_pow hfresh.mem
    have hspares := hv.spares_setEntry hj ⟨x, strlcpy junk name, true⟩
    have hheld : (DirEntry.mk x (strlcpy junk name) true).held = some (name.bytes, x) := by
      rw [DirEntry.held_eq_some, str_strlcpy hgood.2]
      exact ⟨rfl, rfl⟩
    simp only [Bool.not_true, Bool.false_and, Bool.false_eq_true, if_false]
    have hcalm : Calm (Ordinary K) s₃ (s₃.setEntry rootDirSector j ⟨x, strlcpy junk name, true⟩) :=
      ⟨.of_inodes rfl, hspares.mono fun y hy => ⟨.inl hy.1, hy.2.2⟩⟩
    refine ((Within.change { hw with calm := hw.calm.mono others_of_ordinary } hcalm (hv.link hfresh hj junk name) rfl rfl
      (hv.named_setEntry hj hx hgood junk)).returns (m.sub 5) true).mono ?_
    rintro _ s' ⟨rfl, hkept, hdisk, hmap⟩
    refine .inr ⟨rfl, hkept, h.taken.not_mem, hgood, ⟨j, hj, fun l hl => ?_, fun hm => ?_⟩, ?_,
      ⟨_, k, h.takes, hmap ▸ hc.takes⟩, fun hroomy => ?_⟩
    · rw [slot_of_disk hdisk, hv.slot_setEntry hj hx, hheld, hslot l hl]
    · obtain ⟨hnone, hnew⟩ := hplenty (Mem.sub_of_plenty hm 3)
      exact ⟨(hslot j hj).symm.trans hnone, fun l hl y => hslot l hl ▸ hnew l hl y⟩
    · have hinode : s₃.disk.inodeAt x = ⟨k, size, inodeMagic⟩ := hc.inode
      rw [hdisk, hspares.inodeAt ⟨.inr rfl, hfresh.ne.2⟩, hinode]
    · rw [Roomy, hdisk, hmap, hspares.inodeAt ⟨hv.mem_map, h.volume.others.2.symm⟩]
      exact h.volume.roomy_after ha (h.roomy hroomy)

end Begun

namespace Volume

variable (h : Volume K nothing f₀ rootDirSector 16 s)

include h

/-- **`filesys_create`** makes a file, or fails for want of memory, of sectors or of a record. -/
lemma filesysCreate (m : Mem) (junk : Fin 15 → UInt8) (name : CString) {size : ℤ} (h0 : 0 ≤ size)
    (h1 : size < 2 ^ 31) : Does (Fs.filesysCreate m junk name size) s fun r s' =>
      (r = false ∧ Refused K f₀ m name (bytesToSectors size) s s') ∨
      (r = true ∧ ∃ x, Made K f₀ m name size x s s') := by
  rw [Fs.filesysCreate, does_bind]
  refine (h.dirOpenRoot (m.sub 0) (Others K)).mono ?_
  rintro _ s₁ ⟨hdisk₁, hmap₁, ⟨rfl, hm, hkept⟩ | ⟨dir, rfl, hw⟩⟩
  · exact (does_pure false).mpr (.inl ⟨rfl, hkept, fun hplenty => absurd (Mem.sub_of_plenty hplenty 0) hm⟩)
  have hroomy₁ := roomy_of_eq hdisk₁ hmap₁
  rw [does_bind]
  refine (hw.volume.allocate (m.sub 1) 1).mono ?_
  rintro _ s₂ ⟨ha₂, hv₂, ⟨rfl, hnone⟩ | ⟨x, rfl, ht₂, htakes⟩⟩
  · -- no sector for the inode
    refine ((hw.after ha₂ (fun _ => id) hv₂).returns (m.sub 5) false).mono ?_
    rintro _ s' ⟨rfl, hkept', hdisk, hmap⟩
    refine .inl ⟨rfl, hkept', fun hm hroomy => ?_⟩
    obtain ⟨rfl, hno⟩ := hnone (hm ▸ rfl) (hroomy₁ hroomy)
    refine ⟨0, 0, ?_, .inl ⟨hdisk.trans hdisk₁, hmap.trans hmap₁⟩, .inl ⟨rfl, ?_⟩⟩
    · rw [hmap, hmap₁]
      exact Bitmap.setTo_nothing (fun j hj => Nat.not_lt.mpr hj.1 hj.2) true
    · rintro ⟨x, p, hx, -⟩
      exact hno x (hmap₁ ▸ hx)
  have hbegun : Begun K f₀ dir x s s₂ := ⟨hw.after ha₂ (fun _ => id) hv₂, ht₂, hmap₁ ▸ htakes,
    fun hroomy => hw.volume.roomy_after ha₂ (hroomy₁ hroomy)⟩
  rw [does_bind]
  refine (hv₂.create (m.sub 2) ht₂ h0 h1).mono ?_
  rintro _ s₃ (⟨rfl, ha₃, hv₃, ht₃, hmap₃, hnone⟩ | ⟨rfl, ha₃, hv₃, hfresh, k, hc⟩)
  · -- no sectors for the data
    have hno (j : ℕ) : ¬ Extent 0 0 j := fun hj => Nat.not_lt.mpr hj.1 hj.2
    rw [if_neg Bool.false_ne_true, does_bind, does_pure]
    refine (hbegun.fails (hbegun.after ha₃ (fun _ => id) hv₃) ht₃ (hv₂.roomy_after ha₃)
      (hmap₃ ▸ Bitmap.setTo_nothing hno true) (hno x) (m.sub 4) (m.sub 5)).mono ?_
    rintro _ s' ⟨rfl, hkept', hset, hwritten⟩
    refine .inl ⟨rfl, hkept', fun hm hroomy => ⟨0, 0, hset, .inr (hwritten (hm ▸ rfl) hroomy),
      .inl ⟨rfl, fun hhold => ?_⟩⟩⟩
    obtain ⟨p, hp⟩ := hbegun.canHold_iff.mp hhold
    exact hnone (Mem.sub_of_plenty hm 2) (hbegun.roomy hroomy) p hp
  · rw [if_pos rfl]
    refine (hbegun.links ha₃ hv₃ hfresh hc h.linked.capacity m junk name).mono ?_
    exact fun _ _ hs' => hs'.imp_right fun hmade => ⟨hmade.1, x, hmade.2⟩

/-- With a size below zero the call fails before `inode_create`, which stops. -/
lemma filesysCreate_negative (m : Mem) (junk : Fin 15 → UInt8) (name : CString) {size : ℤ}
    (hneg : size < 0) :
    (∃ s', (Fs.filesysCreate m junk name size).run s = .ok false s' ∧
      Kept K nothing f₀ (Others K) s s' ∧
      (m = .plenty → s.Roomy → s'.disk = s.disk ∧ s'.freeMap = s.freeMap)) ∨
    ∃ x s', (Fs.filesysCreate m junk name size).run s = .error .panic s' ∧
      (inodeCreate (m.sub 2) x size).run s' = .error .panic s' := by
  obtain ⟨_, s₁, hroot, hdisk₁, hmap₁, ⟨rfl, hm, hkept⟩ | ⟨dir, rfl, hw⟩⟩ :=
    h.dirOpenRoot (m.sub 0) (Others K)
  · refine .inl ⟨s₁, ?_, hkept, fun _ _ => ⟨hdisk₁, hmap₁⟩⟩
    simp only [Fs.filesysCreate, run_bind, hroot]
    rfl
  obtain ⟨_, s₂, halloc, ha₂, hv₂, ⟨rfl, hnone⟩ | ⟨x, rfl, -⟩⟩ := hw.volume.allocate (m.sub 1) 1
  · obtain ⟨_, s₃, hclose, hkept₃, -, hdisk, hmap⟩ :=
      (hw.after ha₂ (fun _ => id) hv₂).dirClose (m.sub 5)
    refine .inl ⟨s₃, ?_, hkept₃, fun hm hroomy => ?_⟩
    · simp only [Fs.filesysCreate, run_bind, hroot, halloc, hclose]
      rfl
    · obtain ⟨rfl, -⟩ := hnone (hm ▸ rfl) (roomy_of_eq hdisk₁ hmap₁ hroomy)
      exact ⟨hdisk.trans hdisk₁, hmap.trans hmap₁⟩
  · have hstop : (inodeCreate (m.sub 2) x size).run s₂ = .error .panic s₂ := by
      rw [inodeCreate, run_bind, Fs.assert, require, if_neg (Int.not_le.mpr hneg)]
      rfl
    refine .inr ⟨x, s₂, ?_, hstop⟩
    simp only [Fs.filesysCreate, run_bind, hroot, halloc, hstop]

end Volume

/-! ### `filesys_open` -/

/-- `f` is open on the file in sector `x`, at `pos`, and is not the free map's. -/
structure OpenFile (f₀ f x pos : ℕ) (s : Fs) : Prop where
  ne : f ≠ f₀
  inode : ∃ a i, s.files.get? f = some ⟨a, pos, false⟩ ∧ s.inodes.get? a = some i ∧ i.sector = x

namespace Volume

lemma fileOpen (h : Volume K (more nothing a) f₀ rootDirSector 16 s) (hu : Users f₀ s)
    (hi : s.inodes.get? a = some i)
    (hplain : i.sector ≠ freeMapSector ∧ i.sector ≠ rootDirSector) (m : Mem) :
    Does (Fs.fileOpen m (some a)) s fun r s' => Settles f₀ (Ordinary K) s s' ∧ (m.answer = true →
      ∃ f, r = some f ∧ OpenFile f₀ f i.sector 0 s' ∧ Volume K nothing f₀ rootDirSector 16 s' ∧
        s'.disk = s.disk ∧ s'.freeMap = s.freeMap) := by
  rw [Fs.fileOpen]
  split_ifs with hm
  · simp only [does_bind, does_get, does_set, does_pure]
    have hfile := h.allocFile (a := a) (by simp)
    rw [less_more] at hfile
    refine ⟨⟨⟨K, hfile⟩, fun f y j hf hy hj => ?_, calm_setFiles _ _ _, .of_disk rfl⟩,
      fun _ => ⟨_, rfl, ⟨?_, a, i, get?_alloc_self .., hi, rfl⟩, hfile, rfl, rfl⟩⟩
    · obtain rfl | hnew := eq_or_ne f s.files.next
      · cases (get?_alloc_self ..).symm.trans hy
        cases hi.symm.trans hj
        exact hplain
      · exact hu f y j hf ((get?_alloc_of_ne hnew _).symm.trans hy) hj
    · obtain ⟨j, hj, -⟩ := h.sound.map_known h.file
      obtain ⟨z, hz, -⟩ := fileInode_eq_some.mp hj
      exact (Heap.ne_next hz).symm
  · rw [does_bind]
    refine (h.close (m.sub 0) hi (by simp) hplain.1).mono ?_
    rintro _ s' ⟨hv, hheaps, hspares⟩
    rw [less_more] at hv
    have hcalm := calm_of_dropRef hheaps (hspares.mono others_of_ordinary)
    exact (does_pure none).mpr ⟨⟨⟨_, hv⟩, hu.same h.counted hcalm.ages ((files_of_heaps hheaps).trans rfl),
      hcalm, h.named hspares h.others⟩, fun hplenty => absurd hplenty hm⟩

/-- **`filesys_open`** opens the file of the first record with the name, with memory enough. -/
lemma filesysOpen (h : Volume K nothing f₀ rootDirSector 16 s) (hu : Users f₀ s) (m : Mem)
    (name : CString) : Does (Fs.filesysOpen m name) s fun r s' => Settles f₀ (Ordinary K) s s' ∧
      (m = .plenty → ∀ k < 16, ∀ x, FirstNamed s rootDirSector name.bytes k x →
        ∃ f, r = some f ∧ OpenFile f₀ f x 0 s' ∧ Volume K nothing f₀ rootDirSector 16 s' ∧
          s'.disk = s.disk ∧ s'.freeMap = s.freeMap) := by
  rw [Fs.filesysOpen, does_bind]
  refine (h.dirOpenRoot (m.sub 0) (Ordinary K)).mono ?_
  rintro _ s₁ ⟨hdisk₁, hmap₁, ⟨rfl, hm, hkept⟩ | ⟨dir, rfl, hw⟩⟩
  · exact (does_pure none).mpr ⟨hkept.settles hu h.counted,
      fun hplenty => absurd (Mem.sub_of_plenty hplenty 0) hm⟩
  rw [does_bind]
  refine (hw.volume.dirLookup hw.opened (m.sub 1) name).mono fun r s₂ hs₂ => ?_
  rw [does_bind]
  obtain ⟨rfl, rfl, hnone⟩ | ⟨a, k, x, rfl, hk, hfirst, ho⟩ := hs₂
  · refine (hw.dirClose (m.sub 2)).mono fun _ s₃ hs₃ => (does_pure none).mpr ?_
    refine ⟨hs₃.1.settles hu h.counted, fun hm k hk x hx => ?_⟩
    exact absurd (hx.of_disk hdisk₁).slot (hnone (Mem.sub_of_plenty hm 1) k hk x)
  · obtain ⟨hK, hplain⟩ := hw.volume.linked.target k hk _ hfirst.slot
    have hw₂ := hw.change (ho.calm _) (hw.volume.opened hK ho) ho.dirs ho.files (.of_disk ho.disk)
    refine (hw₂.dirClose (m.sub 2)).mono ?_
    rintro _ s₃ ⟨hkept₃, hages, hdisk₃, hmap₃⟩
    -- the inode that was looked up is still that of the file
    obtain ⟨i, hi⟩ := hkept₃.volume.counted.inode_of_pending (a := a) (by simp)
    obtain ⟨j, hj, hsector⟩ := ho.inode
    obtain ⟨j', hj', hsector'⟩ := hages.sector a i hi (lt_next hj)
    cases hj.symm.trans hj'
    obtain rfl : i.sector = x := hsector'.symm.trans hsector
    refine (hkept₃.volume.fileOpen (hu.same h.counted hkept₃.calm.ages hkept₃.files) hi hplain
      (m.sub 3)).mono ?_
    rintro _ s' ⟨hs', hopen⟩
    refine ⟨{ hs' with calm := hkept₃.calm.trans hs'.calm, named := hkept₃.named.trans hs'.named },
      fun hm l _ x hx => ?_⟩
    obtain ⟨f, rfl, hf, hv, hdisk, hmap⟩ := hopen (hm ▸ rfl)
    obtain rfl := hfirst.unique (hx.of_disk hdisk₁)
    exact ⟨f, rfl, hf, hv, hdisk.trans (hdisk₃.trans (ho.disk.trans hdisk₁)),
      hmap.trans (hmap₃.trans (ho.freeMap.trans hmap₁))⟩

/-! ## The calls on a file -/

variable (h : Volume K nothing f₀ rootDirSector 16 s) (hu : Users f₀ s)

include h hu in
lemma fileWrite {y : File} (hf : f ≠ f₀) (hy : s.files.get? f = some y)
    (hi : s.inodes.get? y.inode = some i) (m : Mem) (bytes : ℕ → UInt8) (size : ℤ) :
    Does (Fs.fileWrite m f bytes size) s fun w s' =>
      Settles f₀ (fun x => K x ∧ x ≠ i.sector) s s' ∧ Volume K nothing f₀ rootDirSector 16 s' ∧
      (m.answer = true → w = (s.disk.inodeAt i.sector).avail size y.pos) ∧
      s' = (s.setDisk (s.disk.put ((s.disk.inodeAt i.sector).base + y.pos) w bytes)).setFiles
        (s.files.modify f fun y => { y with pos := y.pos + w }) := by
  obtain ⟨hK, hdata⟩ := h.sound.known y.inode i hi
  obtain ⟨w, hw, hfull, hrun⟩ := inodeWriteAt_run m size y.pos bytes hi (h.denyCnt hi) (h.fits hi)
  simp only [Fs.fileWrite, does_bind, does_get, does_orThrow, advance, does_modify, does_pure]
  refine ⟨y, hy, does_of_run hrun ?_⟩
  have hplain := hu f y i hf hy hi
  have hlength : i.data.length < 2 ^ 31 := hdata ▸ s.disk.length_inodeAt_lt _
  have hchanged : s.disk.ChangedIn i.data.Data (s.disk.put (i.data.base + y.pos) w bytes) :=
    InodeDisk.changedIn_put (h.fits hi).nonneg hlength hw bytes
  rw [hdata] at hchanged hfull ⊢
  have hvolume := (h.write hK hplain.2.symm hchanged).moveFile hy w
  refine ⟨⟨⟨K, hvolume⟩, ?_, ?_, ?_⟩, hvolume, hfull, rfl⟩
  · exact hu.moveFile h.counted f w
  · exact ⟨.of_inodes rfl, h.spares_data hK hchanged⟩
  · exact h.named (h.spares_data hK hchanged) ⟨h.linked.mem, hplain.2.symm⟩

include h hu in
lemma fileClose {y : File} (hf : f ≠ f₀) (hy : s.files.get? f = some y) (m : Mem) :
    Does (Fs.fileClose m f) s fun _ s' => Settles f₀ (Ordinary K) s s' := by
  obtain ⟨i, hi⟩ := h.counted.inode_of_file hy
  have hmap := (hu f y i hf hy hi).1
  have hlast := (h.freeFile hy hf).dropRef hi (by simp) hmap
  have hallowed : s.withDeny f y false = s := by
    rw [withDeny, h.allowed f y hy]
    rfl
  rw [less_more] at hlast
  rw [Does, fileClose_run m h.counted hy, hallowed]
  show Does _ s _
  simp only [does_bind, does_modify]
  refine (h.sound.closeInode h.counted m h.file hi hmap).mono fun _ s₁ hs₁ => ?_
  have hfiles : s₁.files = s.files := (files_of_heaps hs₁.heaps).trans rfl
  rw [hfiles]
  -- the file goes last; it could as well go first
  have hafter : After (Others K) (Surviving K i) ((s.setFiles (s.files.free f)).dropRef y.inode i)
      (s₁.setFiles (s.files.free f)) := by
    refine Sound.after_setFiles hs₁ fun g z hg hz => ⟨z, ?_, rfl⟩
    cases h.file.symm.trans hg
    exact (get?_free_of_ne hf.symm).trans hz
  have hcalm : Calm (Ordinary K) s (s₁.setFiles (s.files.free f)) :=
    (calm_of_dropRef hs₁.heaps (hs₁.spares.mono others_of_ordinary)).trans
      (calm_setFiles _ _ _)
  refine ⟨⟨_, hlast.after hafter h.others (h.surviving hi) fun k hk p hp =>
    h.linked_surviving hi hk hp⟩, hu.ages h.counted hcalm.ages fun g z _ hz => ?_, hcalm,
    h.named hs₁.spares h.others⟩
  exact ⟨z, (get?_free_eq_some.mp hz).2, rfl⟩

end Volume

end

/-! ## Runs -/

/-- The calls. -/
inductive FileCall where
  | create (m : Mem) (junk : Fin 15 → UInt8) (name : CString) (initialSize : BitVec 32)
  | openFile (m : Mem) (name : CString)
  | write (m : Mem) (file : ℕ) (bytes : ℕ → UInt8) (size : ℤ)
  | remove (m : Mem) (name : CString)
  | close (m : Mem) (file : ℕ)

namespace FileCall

def run : FileCall → FsM Unit
  | create m junk name initialSize => do let _ ← filesysCreate m junk name initialSize.toInt
  | openFile m name => do let _ ← filesysOpen m name
  | write m file bytes size => do let _ ← fileWrite m file bytes size
  | remove m name => do let _ ← filesysRemove m name
  | close m file => fileClose m file

/-- A call on a file is on an open one, and not the kernel's own of the free map. -/
def OnOpen (s : Fs) : FileCall → Prop
  | write _ file _ _ | close _ file =>
    s.freeMapFile ≠ some file ∧ ∃ x, s.files.get? file = some x
  | _ => True

def Sized : FileCall → Prop
  | create _ _ _ initialSize => 0 ≤ initialSize.toInt
  | _ => True

/-- The file that a call writes to. -/
def written (s : Fs) : FileCall → Option ℕ
  | write _ file _ _ => (s.fileInode file).map Inode.sector
  | _ => none

end FileCall

/-- The system of the files: the disk has just been formatted. -/
def fileSystem : System Fs FileCall where
  init s := ∃ s₀ m junk, s₀.Booting ∧ (filesysInit m junk true).run s₀ = .ok () s
  step s c s' := c.OnOpen s ∧ c.run.run s = .ok () s'

/-- The files there are: the free map, the root directory, and whatever is linked there or
open. -/
def Live (s : Fs) (x : ℕ) : Prop :=
  x = freeMapSector ∨ x = rootDirSector ∨ (∃ k < 16, ∃ nm, s.slot rootDirSector k = some (nm, x)) ∨
    ∃ a i, s.inodes.get? a = some i ∧ i.sector = x

section

variable {K L L' : ℕ → Prop} {f₀ x : ℕ} {s s' : Fs}

section

variable (h : Volume K nothing f₀ rootDirSector 16 s)

include h

lemma Volume.mem_of_live (hx : s.Live x) : K x := by
  obtain rfl | rfl | ⟨k, hk, nm, hslot⟩ | ⟨a, i, hi, rfl⟩ := hx
  · exact h.mem_map
  · exact h.linked.mem
  · exact (h.linked.target k hk _ hslot).1
  · exact (h.sound.known a i hi).1

lemma Volume.ne_of_user {f : ℕ} (hf : s.freeMapFile ≠ some f) : f ≠ f₀ := by
  rintro rfl
  exact hf h.file

lemma Volume.call (hu : Users f₀ s) (c : FileCall) (hopen : c.OnOpen s) (hsize : c.Sized) :
    Does c.run s fun _ s' => Settles f₀ (fun x => Ordinary K x ∧ c.written s ≠ some x) s s' := by
  match c with
  | .create m junk name size =>
    refine does_discard.mpr ((h.filesysCreate m junk name hsize BitVec.toInt_lt).mono ?_)
    rintro _ s' (⟨-, hs'⟩ | ⟨-, x, hs'⟩)
    · exact (hs'.kept.settles hu h.counted).mono fun x hx => others_of_ordinary x hx.1
    · exact (hs'.kept.settles hu h.counted).mono fun x hx => hx.1
  | .openFile m name =>
    refine does_discard.mpr ((h.filesysOpen hu m name).mono fun _ s' hs' => ?_)
    exact hs'.1.mono fun x hx => hx.1
  | .remove m name =>
    refine does_discard.mpr ((h.filesysRemove hu m name).mono fun _ s' hs' => ?_)
    exact hs'.mono fun x hx => hx.1
  | .close m f =>
    obtain ⟨hf, y, hy⟩ := hopen
    refine (h.fileClose hu (h.ne_of_user hf) hy m).mono fun _ s' hs' => ?_
    exact hs'.mono fun x hx => hx.1
  | .write m f bytes size =>
    obtain ⟨hf, y, hy⟩ := hopen
    obtain ⟨i, hi⟩ := h.counted.inode_of_file hy
    have hwritten : FileCall.written s (.write m f bytes size) = some i.sector := by
      rw [FileCall.written, fileInode_eq_some.mpr ⟨y, hy, hi⟩]
      rfl
    refine does_discard.mpr ((h.fileWrite hu (h.ne_of_user hf) hy hi m bytes size).mono ?_)
    refine fun _ s' hs' => hs'.1.mono fun x hx => ⟨hx.1.1, fun heq => hx.2 ?_⟩
    rw [hwritten, heq]

lemma Volume.gives_call (hu : Users f₀ s) (c : FileCall) (hopen : c.OnOpen s) :
    Gives c.run s fun _ s' => Settles f₀ (fun x => Ordinary K x ∧ c.written s ≠ some x) s s' := by
  by_cases hsize : c.Sized
  · exact (h.call hu c hopen hsize).gives
  cases c with
  | create m junk name size =>
    refine gives_discard.mpr fun r t ht => ?_
    obtain ⟨s', hrun, hs', -⟩ | ⟨x, s', hrun, -⟩ :=
      h.filesysCreate_negative m junk name (Int.not_le.mp hsize)
    · cases hrun.symm.trans ht
      exact (hs'.settles hu h.counted).mono fun x hx => others_of_ordinary x hx.1
    · cases hrun.symm.trans ht
  | openFile | write | remove | close => exact absurd trivial hsize

end

lemma volume_of_reachable (hs : fileSystem.Reachable s) :
    ∃ K f₀, Volume K nothing f₀ rootDirSector 16 s ∧ Users f₀ s ∧
      ∀ k < 16, ∀ p, s.slot rootDirSector k = some p → WellNamed p.1 := by
  refine hs.invariant (I := fun s => ∃ K f₀, Volume K nothing f₀ rootDirSector 16 s ∧ Users f₀ s ∧
    ∀ k < 16, ∀ p, s.slot rootDirSector k = some p → WellNamed p.1) ?_ ?_
  · rintro s ⟨s₀, m, junk, hboot, hrun⟩
    have hformat := gives_filesysInit m junk hboot _ _ hrun
    obtain ⟨f₀, hv⟩ := hformat.volume
    refine ⟨System0, f₀, hv, hformat.users hv.file, fun k hk p hp => ?_⟩
    cases (hformat.slot hk).symm.trans hp
  · rintro s c s' ⟨K, f₀, hv, hu, hnames⟩ - ⟨hopen, hrun⟩
    have hs' := hv.gives_call hu c hopen () s' hrun
    obtain ⟨K', hv'⟩ := hs'.volume
    exact ⟨K', f₀, hv', hs'.users, fun k hk p hp => (hs'.named k hk p hp).elim (hnames k hk p) id⟩

end

/-- **Files never share sectors.** From formatting on, the sectors that files own are owned once, on
the disk and marked in the free map; no call is stopped, unless for a size below zero; and none
changes what a file owns, but a write to it. -/
theorem files_never_share {s : Fs} (hs : fileSystem.Reachable s) :
    (∀ x y n, s.Live x → s.Live y → s.disk.Owns x n → s.disk.Owns y n → x = y) ∧
    (∀ x, s.Live x → ¬ (s.disk.inodeAt x).Data x) ∧
    (∀ x n, s.Live x → s.disk.Owns x n → n < s.disk.size ∧ s.freeMap.get n = true) ∧
    (∀ c : FileCall, c.OnOpen s → c.Sized → Does c.run s fun _ _ => True) ∧
    (∀ m junk name (size : BitVec 32), size.toInt < 0 → ∀ e s',
      (filesysCreate m junk name size.toInt).run s = .error e s' →
        ∃ x, (inodeCreate (m.sub 2) x size.toInt).run s' = .error e s') ∧
    ∀ c s', fileSystem.step s c s' → ∀ x n, s.Live x → x ≠ freeMapSector → x ≠ rootDirSector →
      c.written s ≠ some x → s.disk.Owns x n → s'.disk.sector n = s.disk.sector n := by
  obtain ⟨K, f₀, hv, hu, -⟩ := volume_of_reachable hs
  have hlive (x : ℕ) (hx : s.Live x) : K x := hv.mem_of_live hx
  refine ⟨fun x y n hx hy => hv.sound.laid.apart x y n (hlive x hx) (hlive y hy),
    fun x hx => hv.sound.laid.own x (hlive x hx), fun x n hx hn => ?_, fun c hopen hsize => ?_,
    fun m junk name size hneg e s' hrun => ?_, ?_⟩
  · exact ⟨hv.sound.laid.lt_of_owns (hlive x hx) hn, hv.sound.laid.marked x n (hlive x hx) hn⟩
  · exact (hv.call hu c hopen hsize).mono fun _ _ _ => trivial
  · obtain ⟨t, ht, -⟩ | ⟨x, t, ht, hstop⟩ := hv.filesysCreate_negative m junk name hneg
    · cases hrun.symm.trans ht
    · cases hrun.symm.trans ht
      exact ⟨x, hstop⟩
  · rintro c s' ⟨hopen, hrun⟩ x n hx hmap hroot hwritten hn
    exact (hv.gives_call hu c hopen () s' hrun).calm.spares x n
      ⟨⟨hlive x hx, hmap, hroot⟩, hwritten⟩ hn

/-- A file is created, opened and removed, and stays apart from the one that is created next. -/
theorem files_never_share_removed : ∃ s : Fs, fileSystem.Reachable s ∧ s.Live 4 ∧ s.Live 6 ∧
    (∀ n, s.disk.Owns 4 n → ¬ s.disk.Owns 6 n) ∧ s.freeMap.get 4 = true := by
  let a : CString := ⟨[97], by decide⟩
  let b : CString := ⟨[98], by decide⟩
  have hrun : endsWith (fun _ s => endsWith (fun _ s => endsWith (fun _ s => endsWith (fun _ s =>
      endsWith (fun _ s => (s.inodes.search fun i => i.sector = 4).isSome ∧
        s.slot rootDirSector 0 = some ([98], 6))
      ((FileCall.create .plenty (fun _ => 7) b 5).run.run s))
      ((FileCall.remove .plenty a).run.run s))
      ((FileCall.openFile .plenty a).run.run s))
      ((FileCall.create .plenty (fun _ => 7) a 5).run.run s))
      ((filesysInit .plenty (fun _ => 0) true).run
        { sixSectors with disk := ⟨8, fun _ _ => 0, by decide⟩ }) = true := by decide +kernel
  simp only [endsWith_iff, decide_eq_true_eq] at hrun
  obtain ⟨_, s₀, h₀, _, s₁, h₁, _, s₂, h₂, _, s₃, h₃, _, s₄, h₄, hopen, hslot⟩ := hrun
  obtain ⟨⟨c, i⟩, hc⟩ := Option.isSome_iff_exists.mp hopen
  obtain ⟨hi, hsector⟩ := Heap.search_eq_some hc
  have hs : fileSystem.Reachable s₄ := by
    refine .next (.next (.next (.next (.start ⟨_, _, _, ⟨fun _ => rfl, fun _ => rfl, rfl⟩, h₀⟩)
      trivial ⟨?_, h₁⟩) trivial ⟨?_, h₂⟩) trivial ⟨?_, h₃⟩) trivial ⟨?_, h₄⟩
    all_goals trivial
  have h4 : s₄.Live 4 := .inr (.inr (.inr ⟨c, i, hi, of_decide_eq_true hsector⟩))
  have h6 : s₄.Live 6 := .inr (.inr (.inl ⟨0, by decide, [98], hslot⟩))
  obtain ⟨hshare, -, hmarked, -⟩ := files_never_share hs
  refine ⟨s₄, hs, h4, h6, fun n hn hn' => ?_, (hmarked 4 4 h4 (.inl rfl)).2⟩
  cases hshare 4 6 n h4 h6 hn hn'

end Fs

end Pintos
