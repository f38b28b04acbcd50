import Pintos.Filesys.Contents
import Pintos.Userprog.Untouched

/-!
# Filesys/Agreement — the two models of the file system

`Filesys/Filesys` has files without a disk, for the loads and stores that a system call makes; `Fs`
has the disk, and no processes. On a file that both have they move as many bytes.
-/

namespace Pintos

open Machinery Traced Fs

/-- The kernel's inode `x` stands for the inode `i`, at `a`. -/
structure Shows (k : Kernel) (x : ℕ) (s : Fs) (a : ℕ) (i : Fs.Inode) : Prop where
  inode : s.inodes.get? a = some i
  fits : i.data.Fits s.disk
  length : (k.inode x).data.length = i.data.length.toNat
  denies : (k.inode x).denyWriteCnt = i.denyWriteCnt

lemma moved_eq_avail (d : InodeDisk) (size : ℤ) (offset : ℕ) :
    moved true d.length.toNat size.toNat offset = d.avail size offset := by
  simp only [moved, if_true, InodeDisk.avail]
  omega

namespace Shows

variable {e : Env} {k : Kernel} {s : Fs} {x a buffer offset : ℕ} {i : Fs.Inode} {m : Mem} {size : ℤ}
  (h : Shows k x s a i) (he : e.bounce = true) (hm : m.answer = true)

include h he hm

lemma inodeReadAt : Does (Fs.inodeReadAt m a size offset) s fun bytes _ =>
    Yields (· = bytes.length) (inodeReadAt e x buffer size.toNat offset) k := by
  obtain ⟨n, -, hfull, hrun⟩ := inodeReadAt_run m size offset h.inode h.fits
  refine does_of_run hrun ?_
  rw [Block.length_slice, hfull hm, ← moved_eq_avail, ← h.length, ← he]
  exact yields_transfer (Nat.le_refl _)

lemma inodeWriteAt (bytes : ℕ → UInt8) : Does (Fs.inodeWriteAt m a bytes size offset) s fun n _ =>
    Yields (· = n) (inodeWriteAt e x buffer size.toNat offset) k := by
  have hdenies := h.denies
  by_cases hdeny : i.denyWriteCnt = 0
  · obtain ⟨n, -, hfull, hrun⟩ := inodeWriteAt_run m size offset bytes h.inode hdeny h.fits
    refine does_of_run hrun (yields_read_bind ?_)
    rw [hfull hm, ← moved_eq_avail, ← h.length, ← he, if_neg (by omega)]
    exact yields_transfer (Nat.le_refl _)
  · refine does_of_run (inodeWriteAt_denied m size offset bytes h.inode hdeny) (yields_read_bind ?_)
    rw [if_pos (by omega)]
    exact yields_pure rfl

end Shows

end Pintos
