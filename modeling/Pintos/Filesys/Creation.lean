import Pintos.Filesys.DirCalls
import Pintos.Filesys.Format

/-!
# Filesys/Creation — files come to a volume

In between the two steps that make a file its sector is taken and nobody's; afterwards the file
is fresh, one that no record links and nobody has removed.

    free  --free_map_allocate--▸  taken  --inode_create--▸  fresh  --dir_add--▸  linked
-/

namespace Pintos

open Machinery

namespace Fs

/-- A file that no record links, and that is not removed. -/
structure Fresh (K : ℕ → Prop) (D n : ℕ) (s : Fs) (x : ℕ) : Prop where
  mem : K x
  ne : x ≠ freeMapSector ∧ x ≠ D
  unlinked : ∀ k < n, ∀ p, s.slot D k = some p → p.2 ≠ x
  kept : ∀ a i, s.inodes.get? a = some i → i.removed = true → i.sector ≠ x

section

variable {K K' L : ℕ → Prop} {pend : ℕ → ℕ} {f₀ D n x k : ℕ} {length : ℤ} {s s' : Fs}

lemma Fresh.linkable (h : Fresh K D n s x) (k : ℕ) : Linkable K D n s k x :=
  ⟨h.mem, h.ne, fun j hj _ => h.unlinked j hj, h.kept⟩

lemma Fresh.mono (h : Fresh K D n s x) (hK : K' x)
    (hslot : ∀ k < n, ∀ p, s'.slot D k = some p → s.slot D k = some p ∨ p.2 ≠ x)
    (hold : ∀ b j, s'.inodes.get? b = some j → j.removed = true → j.sector = x → s.Old b j) :
    Fresh K' D n s' x := by
  refine ⟨hK, h.ne, fun k hk p hp => ?_, ?_⟩
  · obtain hp | hne := hslot k hk p hp
    · exact h.unlinked k hk p hp
    · exact hne
  · rintro b j hj hr rfl
    obtain ⟨i, hi, hremoved, hsector⟩ := hold b j hj hr rfl
    exact h.kept b i hi (hremoved.trans hr) hsector

lemma slot_of_zero (hn : (s.disk.inodeAt D).length = (entrySize * n : ℕ))
    (hzero : ∀ m, (s.disk.inodeAt D).Data m → s.disk.sector m = fun _ => 0) (hk : k < n) :
    s.slot D k = none := by
  have hn : (s.disk.inodeAt D).length = (20 * n : ℕ) := hn
  have hlt : ((20 * k + 19 : ℕ) : ℤ) < (s.disk.inodeAt D).length := by omega
  have hdata := InodeDisk.data_of_lt hlt (s.disk.length_inodeAt_lt D)
  have hbyte : s.disk.byte ((s.disk.inodeAt D).base + (20 * k + 19)) = 0 :=
    congrFun (hzero _ hdata) _
  rw [slot, DirEntry.held_eq_none, entryAt]
  refine decide_eq_false fun hne => hne ?_
  exact hbyte

lemma Taken.not_mem (h : Taken K s x 1) : ¬ K x :=
  fun hx => h.unowned x (extent_one.mpr rfl) x hx (.inl rfl)

lemma Taken.ne_zero (h : Taken K s x 1) (hmap : K freeMapSector) : x ≠ 0 := by
  rintro rfl
  exact h.not_mem hmap

namespace Volume

section

variable (h : Volume K pend f₀ D n s)

include h

lemma inodeAt_map (ha : After L K' s s') :
    s'.disk.inodeAt freeMapSector = s.disk.inodeAt freeMapSector := by
  obtain ⟨i, hi, -, -, hbefore⟩ := h.sound.map_known h.file
  obtain ⟨j, hj, -, -, hafter⟩ := ha.sound.map_known (ha.file.trans h.file)
  rw [fileInode_of_heaps ha.heaps] at hj
  cases hi.symm.trans hj
  exact hafter.symm.trans hbefore

lemma roomy_after (ha : After L K' s s') (hr : s.Roomy) : s'.Roomy := by
  rw [Roomy, h.inodeAt_map ha, ha.sound.laid.bitCnt, ha.size, ← h.sound.laid.bitCnt]
  exact hr

lemma allocate (m : Mem) (cnt : ℕ) :
    Does (freeMapAllocate m cnt) s fun r s' => After (Others K) K s s' ∧ Volume K pend f₀ D n s' ∧
      ((r = none ∧ (m.answer = true → s.Roomy → s' = s ∧ ∀ p, ¬ s.freeMap.Gap p cnt)) ∨
        ∃ x, r = some x ∧ Taken K s' x cnt ∧ s.freeMap.Takes x cnt s'.freeMap) :=
  (h.sound.allocate m cnt).mono fun _ _ hs' => ⟨hs'.1, h.after_same hs'.1, hs'.2⟩

lemma release (m : Mem) (ht : Taken K s x 1) :
    Does (freeMapRelease m x 1) s fun _ s' => After (Others K) K s s' ∧ Volume K pend f₀ D n s' ∧
      s.freeMap.SetTo (Extent x 1) false s'.freeMap ∧
        (m.answer = true → s.Roomy → s'.MapWritten) :=
  (h.sound.release m h.file ht).mono fun _ _ hs' =>
    ⟨hs'.1, h.after_same hs'.1, hs'.2.1.bits, hs'.2.2⟩

/-- `inode_create` makes a fresh file, or leaves the sector as it was. -/
lemma create (m : Mem) (ht : Taken K s x 1) (h0 : 0 ≤ length) (h1 : length < 2 ^ 31) :
    Does (inodeCreate m x length) s fun r s' =>
      (r = false ∧ After (Others K) K s s' ∧ Volume K pend f₀ D n s' ∧ Taken K s' x 1 ∧
        s'.freeMap = s.freeMap ∧
        (m = .plenty → s.Roomy → ∀ p, ¬ s.freeMap.Gap p (bytesToSectors length))) ∨
      (r = true ∧ After (Others K) (Also K x) s s' ∧ Volume (Also K x) pend f₀ D n s' ∧
        Fresh (Also K x) D n s' x ∧ ∃ k, s.Created x length k s') := by
  have hnew := ht.not_mem
  refine (h.sound.create m ht h0 h1).mono ?_
  rintro r s' (⟨rfl, hafter, hrest⟩ | ⟨rfl, hafter, k, hcreated⟩)
  · exact .inl ⟨rfl, hafter, h.after_same hafter, hrest⟩
  · refine .inr ⟨rfl, hafter, ?_, ⟨.inr rfl, ⟨?_, ?_⟩, fun k hk p hp hpx => ?_, ?_⟩,
      k, hcreated⟩
    · exact h.after hafter h.others (.inl h.linked.mem) fun k hk p hp => .inl (h.linked.target k hk p hp).1
    · rintro rfl
      exact hnew h.mem_map
    · rintro rfl
      exact hnew h.linked.mem
    · rw [slot_of_spares hafter.spares h.others h.linked.capacity hk] at hp
      exact hnew (hpx ▸ (h.linked.target k hk p hp).1)
    · rintro a i hi - rfl
      rw [inodes_of_heaps hafter.heaps] at hi
      exact hnew (h.sound.known a i hi).1

lemma link (hfresh : Fresh K D n s x) (hk : k < n) (junk : Fin 15 → UInt8) (name : CString) :
    Volume K pend f₀ D n (s.setEntry D k ⟨x, strlcpy junk name, true⟩) := by
  refine h.setEntry hk (h.sound.laid.lt_two_pow hfresh.mem) fun p hp => ?_
  obtain ⟨-, rfl⟩ := DirEntry.held_eq_some.mp hp
  exact hfresh.linkable k

end

/-- A fresh file may be given up, if nobody has it open. -/
lemma discard (h : Volume (Also K x) pend f₀ D n s) (hfresh : Fresh (Also K x) D n s x)
    (hx : ¬ K x) (hopen : ∀ a i, s.inodes.get? a = some i → K i.sector) :
    Volume K pend f₀ D n s ∧ Taken K s x 1 := by
  have hK (y : ℕ) (hy : K y) : Also K x y := .inl hy
  have hmem : Also K x x := .inr rfl
  have hone (m : ℕ) (hm : Extent x 1 m) : s.disk.Owns x m := .inl (extent_one.mp hm)
  refine ⟨⟨h.sound.mono hK hopen, h.counted, h.file, h.allowed, ?_, h.linked.ne,
    h.linked.capacity, fun k hk p hp => ?_, h.linked.distinct, h.linked.kept⟩, ?_⟩
  · exact h.linked.mem.resolve_right hfresh.ne.2.symm
  · obtain ⟨hp2, hne⟩ := h.linked.target k hk p hp
    exact ⟨hp2.resolve_right (hfresh.unlinked k hk p hp), hne⟩
  · refine ⟨h.sound.laid.sector_lt x hmem, fun m hm => h.sound.laid.marked x m hmem (hone m hm), ?_⟩
    intro m hm y hy howns
    obtain rfl := h.sound.laid.apart x y m hmem (hK y hy) (hone m hm) howns
    exact hx hy

end Volume

/-! ## The first volume -/

variable (h : s.Formatted)

include h

lemma Formatted.capacity : (s.disk.inodeAt rootDirSector).length = (entrySize * 16 : ℕ) := h.root

lemma Formatted.slot (hk : k < 16) : s.slot rootDirSector k = none :=
  slot_of_zero h.capacity h.empty hk

lemma Formatted.roomy : s.Roomy := by
  obtain ⟨f, hf, -⟩ := h.map
  obtain ⟨i, hi, -, -, hdata⟩ := h.sound.map_known hf
  exact (congrArg InodeDisk.length hdata).symm.trans (h.room f i hf hi)

/-- …and so a formatted file system is a volume. -/
lemma Formatted.volume : ∃ f₀, Volume System0 nothing f₀ rootDirSector 16 s := by
  obtain ⟨f₀, hf, honly⟩ := h.map
  have hslot (k : ℕ) (hk : k < 16) (p : List UInt8 × ℕ) : s.slot rootDirSector k ≠ some p := by
    rw [h.slot hk]
    exact nofun
  refine ⟨f₀, h.sound, h.counted, hf, fun f x hx => (honly f x hx).2, .inr rfl, by decide,
    h.capacity, fun k hk p hp => absurd hp (hslot k hk p),
    fun j hj k _ p _ hp => absurd hp (hslot j hj p), fun a i hi _ => ⟨?_, fun k hk p hp => ?_⟩⟩
  · rw [h.only a i hi]
    decide
  · exact absurd hp (hslot k hk p)

end

end Fs

end Pintos
