import Pintos.Machinery.Overwrite

/-!
# Devices/Block — a block device

A device is its sectors, and an access past the last one panics the kernel. Seen flat, byte `n` of
it is byte `n % 512` of sector `n / 512`.
-/

namespace Pintos

open Machinery Function

/-- `BLOCK_SECTOR_SIZE`. -/
def blockSectorSize : ℕ := 512

abbrev Sector := Fin blockSectorSize → UInt8

/-- `struct block`, with the sectors; their number is a `block_sector_t`. -/
@[ext] structure Block where
  size : ℕ
  sector : ℕ → Sector
  size_lt : size < 2 ^ 32

namespace Block

/-- `block_read`; `none` is the panic of `check_sector`. -/
def read (d : Block) (n : ℕ) : Option Sector := if n < d.size then some (d.sector n) else none

/-- `block_write`. -/
def write (d : Block) (n : ℕ) (data : Sector) : Option Block :=
  if n < d.size then some { d with sector := update d.sector n data } else none

/-! ## The bytes of a device -/

def inSector (n : ℕ) : Fin blockSectorSize := ⟨n % blockSectorSize, Nat.mod_lt _ (by decide)⟩

/-- Byte `n` of the device. -/
def byte (d : Block) (n : ℕ) : UInt8 := d.sector (n / blockSectorSize) (inSector n)

/-- The device with `k` bytes from `a` on taken from `b`. -/
def put (d : Block) (a k : ℕ) (b : ℕ → UInt8) : Block :=
  { d with sector := fun n i => overwrite d.byte a k b (blockSectorSize * n + i) }

section

variable {d d' : Block} {a k : ℕ} {b : ℕ → UInt8}

@[simp] lemma size_put : (d.put a k b).size = d.size := rfl

lemma byte_sector (d : Block) (n : ℕ) (i : Fin blockSectorSize) :
    d.byte (blockSectorSize * n + i) = d.sector n i := by
  have hi : (i : ℕ) < 512 := i.isLt
  have hdiv : (512 * n + (i : ℕ)) / 512 = n := by omega
  have hmod : (512 * n + (i : ℕ)) % 512 = i := by omega
  show d.sector ((512 * n + (i : ℕ)) / 512) ⟨(512 * n + (i : ℕ)) % 512, _⟩ = d.sector n i
  simp only [hdiv, hmod]

@[simp] lemma byte_put : (d.put a k b).byte = overwrite d.byte a k b := by
  funext n
  show overwrite d.byte a k b (blockSectorSize * (n / blockSectorSize) + n % blockSectorSize) = _
  rw [Nat.div_add_mod]

lemma ext_byte (hsize : d.size = d'.size) (h : d.byte = d'.byte) : d = d' := by
  refine Block.ext hsize ?_
  funext n i
  rw [← d.byte_sector, ← d'.byte_sector, h]

@[simp] lemma put_zero : d.put a 0 b = d := ext_byte rfl (by simp)

lemma put_append (m : ℕ) :
    (d.put a k b).put (a + k) m (fun i => b (k + i)) = d.put a (k + m) b :=
  ext_byte rfl (by simp only [byte_put, overwrite_append])

lemma put_congr {b' : ℕ → UInt8} (h : ∀ i < k, b i = b' i) : d.put a k b = d.put a k b' :=
  ext_byte rfl (by rw [byte_put, byte_put, overwrite_congr h])

/-- A sector with `k` of its bytes replaced, from place `o` on. -/
lemma update_sector (n : ℕ) {o : ℕ} (ho : o + k ≤ blockSectorSize) (data : Sector)
    (hdata : ∀ i, data i = overwrite d.byte (blockSectorSize * n + o) k b (blockSectorSize * n + i)) :
    { d with sector := update d.sector n data } = d.put (blockSectorSize * n + o) k b := by
  refine Block.ext rfl ?_
  funext m i
  have hi : (i : ℕ) < 512 := i.isLt
  have ho : o + k ≤ 512 := ho
  by_cases hm : m = n
  · rw [hm]
    exact (congrFun (update_self ..) i).trans (hdata i)
  · refine (congrFun (update_of_ne hm ..) i).trans ?_
    show _ = overwrite d.byte (512 * n + o) k b (512 * m + i)
    rw [overwrite_of_notMem (by omega)]
    exact (d.byte_sector m i).symm

lemma sector_put {n : ℕ}
    (h : blockSectorSize * (n + 1) ≤ a ∨ a + k ≤ blockSectorSize * n) :
    (d.put a k b).sector n = d.sector n := by
  funext i
  have hi : (i : ℕ) < 512 := i.isLt
  have h : 512 * (n + 1) ≤ a ∨ a + k ≤ 512 * n := h
  show overwrite d.byte a k b (512 * n + i) = _
  rw [overwrite_of_notMem (by omega)]
  exact d.byte_sector n i

end

end Block

end Pintos
