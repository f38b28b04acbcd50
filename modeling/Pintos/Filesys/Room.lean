import Pintos.Filesys.Sharing

/-!
# Filesys/Room — the calls succeed where there is room

With memory enough, and a file system that is spacious from sector `p` on, sectors are taken from
the front and the ones behind them stay free:

    taken │ p: free …      --▸      taken │ inode │ data │ p + 1 + n: free …
-/

namespace Pintos

open Machinery EStateM

namespace Fs

/-- There is room from sector `p` on, and in the free map's file. -/
structure Spacious (p : ℕ) (s : Fs) : Prop where
  roomy : s.Roomy
  vacant : s.freeMap.Vacant p

/-- Between two calls. -/
structure Mounted (K : ℕ → Prop) (f₀ : ℕ) (s : Fs) : Prop
    extends Volume K nothing f₀ rootDirSector 16 s where
  users : Users f₀ s

/-- A file more: it is called `nm`, its inode is in sector `x`, and it has `length` bytes. -/
structure NewFile (K : ℕ → Prop) (f₀ x : ℕ) (nm : List UInt8) (length : ℤ) (s s' : Fs) : Prop where
  volume : Volume (Also K x) nothing f₀ rootDirSector 16 s'
  users : Users f₀ s'
  new : ¬ K x
  calm : Calm (Ordinary K) s s'
  slot : ∃ k < 16, s.slot rootDirSector k = none ∧
    ∀ j < 16, s'.slot rootDirSector j = if j = k then some (nm, x) else s.slot rootDirSector j
  length : (s'.disk.inodeAt x).length = length
  size : s'.disk.size = s.disk.size

section

variable {K K' L : ℕ → Prop} {f₀ p cnt x f : ℕ} {length : ℤ} {s s' : Fs}

lemma Spacious.of_eq (h : Spacious p s) (hdisk : s'.disk = s.disk) (hmap : s'.freeMap = s.freeMap) :
    Spacious p s' := ⟨roomy_of_eq hdisk hmap h.roomy, hmap ▸ h.vacant⟩

lemma Spacious.spares {d : Block} (h : Spacious p s) (hd : s.disk.Spares L d)
    (hmap : L freeMapSector) : Spacious p (s.setDisk d) := by
  refine ⟨?_, h.vacant⟩
  rw [Roomy, disk_setDisk, hd.inodeAt hmap]
  exact h.roomy

lemma Spacious.canHold (h : Spacious p s) (hp : p + 1 + cnt ≤ s.freeMap.bitCnt) : s.CanHold cnt :=
  ⟨p, p + 1, h.vacant.gap (by omega), Nat.lt_succ_self p, hp, fun j hj _ =>
    h.vacant j (by omega) (by omega)⟩

/-! ## By name -/

lemma Mounted.filesysCreate_room (h : Mounted K f₀ s) (hs : Spacious p s) (junk : Fin 15 → UInt8)
    {name : CString} (hlink : s.CanLink name) (h0 : 0 ≤ length) (h1 : length < 2 ^ 31)
    (hp : p + 1 + bytesToSectors length ≤ s.disk.size) :
    Does (Fs.filesysCreate .plenty junk name length) s fun r s' => r = true ∧
      (∃ x, NewFile K f₀ x name.bytes length s s') ∧
        Spacious (p + 1 + bytesToSectors length) s' := by
  refine (h.filesysCreate .plenty junk name h0 h1).mono ?_
  rintro r s' (⟨-, hrefused⟩ | ⟨rfl, x, hmade⟩)
  · obtain ⟨k, c, -, -, ⟨-, hno⟩ | ⟨-, -, -, hno⟩⟩ := hrefused.cost rfl hs.roomy
    · exact absurd (hs.canHold (h.sound.laid.bitCnt ▸ hp)) hno
    · exact absurd hlink hno
  · obtain ⟨k, hk, hslots, hfree⟩ := hmade.slot
    obtain ⟨b, l, hinode, hdata⟩ := hmade.takes
    refine ⟨rfl, ⟨x, hmade.kept.volume, (hmade.kept.settles h.users h.counted).users, hmade.new,
      hmade.kept.calm, ⟨k, hk, (hfree rfl).1, hslots⟩, hmade.length, ?_⟩, hmade.roomy hs.roomy,
      (hs.vacant.takes hinode).takes hdata⟩
    rw [← hmade.kept.volume.sound.laid.bitCnt, hdata.bits.bitCnt, hinode.bits.bitCnt,
      h.sound.laid.bitCnt]

lemma Mounted.filesysOpen_found (h : Mounted K f₀ s) {name : CString} {k : ℕ} (hk : k < 16)
    (hfirst : FirstNamed s rootDirSector name.bytes k x) :
    Does (Fs.filesysOpen .plenty name) s fun r s' => ∃ f, r = some f ∧ OpenFile f₀ f x 0 s' ∧
      Mounted K f₀ s' ∧ s'.disk = s.disk ∧ s'.freeMap = s.freeMap := by
  refine (h.filesysOpen h.users .plenty name).mono ?_
  rintro r s' ⟨hsettles, hopen⟩
  obtain ⟨f, hr, hf, hv, hsame⟩ := hopen rfl k hk x hfirst
  exact ⟨f, hr, hf, ⟨hv, hsettles.users⟩, hsame⟩

/-! ## The calls on a file -/

namespace OpenFile

variable {f pos : ℕ} (h : Mounted K f₀ s) (hf : OpenFile f₀ f x pos s)

include h hf in
lemma known : ∃ a i, s.files.get? f = some ⟨a, pos, false⟩ ∧ s.inodes.get? a = some i ∧
    i.sector = x ∧ K x ∧ i.data = s.disk.inodeAt x := by
  obtain ⟨a, i, hfile, hi, rfl⟩ := hf.inode
  obtain ⟨hK, hdata⟩ := h.sound.known a i hi
  exact ⟨a, i, hfile, hi, rfl, hK, hdata⟩

include h hf in
lemma fileLength_run : (Fs.fileLength f).run s = .ok (s.disk.inodeAt x).length s := by
  obtain ⟨a, i, hfile, hi, -, -, hdata⟩ := hf.known h
  simp only [Fs.fileLength, inodeLength, run_bind, run_get, hfile, hi, orThrow,
    run_pure, hdata]

include h hf in
lemma fileRead (size : ℤ) : Does (Fs.fileRead .plenty f size) s fun bytes s' =>
    bytes = s.disk.slice ((s.disk.inodeAt x).base + pos) ((s.disk.inodeAt x).avail size pos) ∧
      OpenFile f₀ f x (pos + (s.disk.inodeAt x).avail size pos) s' ∧
      Mounted K f₀ s' ∧ s'.disk = s.disk := by
  obtain ⟨a, i, hfile, hi, hsector, -, hdata⟩ := hf.known h
  obtain ⟨k, -, hk, hrun⟩ := inodeReadAt_run .plenty size pos hi (h.fits hi)
  obtain rfl := hk rfl
  rw [hdata] at hrun
  simp only [Fs.fileRead, does_bind, does_get, does_orThrow, advance, does_modify, does_pure]
  refine ⟨_, hfile, does_of_run hrun ⟨rfl, ⟨hf.ne, a, i, ?_, hi, hsector⟩, ⟨h.moveFile hfile _,
    h.users.moveFile h.counted f _⟩, rfl⟩⟩
  rw [Block.length_slice]
  exact Heap.get?_modify_self hfile _

include h hf in
lemma fileWrite (bytes : ℕ → UInt8) (size : ℤ) :
    Does (Fs.fileWrite .plenty f bytes size) s fun k s' =>
      k = (s.disk.inodeAt x).avail size pos ∧ OpenFile f₀ f x (pos + k) s' ∧ Mounted K f₀ s' ∧
      s'.disk = s.disk.put ((s.disk.inodeAt x).base + pos) k bytes ∧
      s'.disk.inodeAt x = s.disk.inodeAt x ∧ s'.freeMap = s.freeMap := by
  obtain ⟨a, i, hfile, hi, rfl, -, hdata⟩ := hf.known h
  refine (h.fileWrite h.users hf.ne hfile hi .plenty bytes size).mono ?_
  rintro w _ ⟨hsettles, hv, hfull, rfl⟩
  exact ⟨hfull rfl, ⟨hf.ne, a, i, Heap.get?_modify_self hfile _, hi, rfl⟩, ⟨hv, hsettles.users⟩, rfl,
    (hv.sound.known a i hi).2.symm.trans hdata, rfl⟩

include h hf in
lemma fileClose {k : ℕ} {nm : List UInt8} (hk : k < 16)
    (hslot : s.slot rootDirSector k = some (nm, x)) : Does (Fs.fileClose .plenty f) s fun _ s' =>
      Mounted K f₀ s' ∧ s'.disk = s.disk ∧ s'.freeMap = s.freeMap := by
  obtain ⟨a, i, hfile, hi, rfl, -, -⟩ := hf.known h
  obtain ⟨r, s', hrun, hsettles⟩ := h.fileClose h.users hf.ne hfile .plenty
  refine does_of_run hrun ?_
  have hkept : i.removed = false :=
    Bool.eq_false_iff.mpr fun hr => (h.linked.kept a i hi hr).2 k hk _ hslot rfl
  have hclose : (Fs.fileClose .plenty f).run s =
      .ok () ((s.dropRef a i).setFiles (s.files.free f)) := by
    have hallowed : s.withDeny f ⟨a, pos, false⟩ false = s := rfl
    rw [fileClose_run .plenty h.counted hfile, hallowed, run_bind,
      inodeClose_kept .plenty hi hkept]
    rfl
  cases hrun.symm.trans hclose
  have hlast := (h.freeFile hfile hf.ne).dropRef hi (by simp) (h.users f _ i hf.ne hfile hi).1
  rw [less_more] at hlast
  exact ⟨⟨hlast, hsettles.users⟩, rfl, rfl⟩

end OpenFile

end

end Fs

end Pintos
