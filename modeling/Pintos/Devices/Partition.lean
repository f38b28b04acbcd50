import Pintos.Devices.Block
import Pintos.Machinery.LittleEndian
import Pintos.Machinery.Stopping

/-!
# Devices/Partition — scanning a device for partitions

A partition table has four entries. An entry is empty, or a partition, or it says where there is
another table, in an extended partition.

`read_partition_table` calls itself for an extended partition, but it reads sector 0 whatever the
sector, so that it finds the entries of sector 0 again, and may call itself without end. What
`found_partition` registers is within the device, and so is every access to it.
-/

namespace Pintos.Partition

open Machinery

/-! ## Tables -/

def byteAt (pt : Sector) (i : ℕ) : UInt8 := if h : i < blockSectorSize then pt ⟨i, h⟩ else 0

/-- `struct partition_table_entry`, without what is not used. -/
structure Entry where
  type : UInt8
  offset : ℕ
  size : ℕ
  deriving DecidableEq

/-- The `i`-th entry of a table, behind the 446 bytes of the loader. -/
def entry (pt : Sector) (i : ℕ) : Entry where
  type := byteAt pt (446 + 16 * i + 4)
  offset := leWord fun j => byteAt pt (446 + 16 * i + 8 + j)
  size := leWord fun j => byteAt pt (446 + 16 * i + 12 + j)

def partitions (pt : Sector) : List Entry := (List.range 4).map (entry pt)

def signature (pt : Sector) : ℕ := (byteAt pt 510).toNat + 2 ^ 8 * (byteAt pt 511).toNat

/-- `e->size == 0 || e->type == 0`. -/
def Entry.isEmpty (e : Entry) : Bool := e.size = 0 ∨ e.type = 0

def Entry.isExtended (e : Entry) : Bool := e.type = 0x05 ∨ e.type = 0x0f ∨ e.type = 0x85 ∨ e.type = 0xc5

/-- An entry that says where there is another table. -/
def Entry.leads (e : Entry) : Bool := !e.isEmpty && e.isExtended

/-! ## The scan -/

/-- What comes of a scan: messages, and calls of `found_partition`. -/
inductive Event
  | pastEnd (sector : ℕ)
  | invalidSignature
  | invalidExtended (sector : ℕ)
  | extended (sector : ℕ)
  | found (type : UInt8) (start size partNr : ℕ)
  deriving DecidableEq

/-- The events so far, and `*part_nr`. -/
structure Scan where
  events : List Event
  partNr : ℕ

/-- Why a scan does not end: a panic, or calls too deep. -/
inductive Stop
  | panic | deep
  deriving DecidableEq

abbrev ScanM := EStateM Stop Scan

def emit (e : Event) : ScanM Unit := modify fun s => { s with events := s.events ++ [e] }

/-- `block_read`. -/
def blockRead (d : Block) (sector : ℕ) : ScanM Sector :=
  match d.read sector with
  | some pt => pure pt
  | none => throw .panic

/-- The loop body for one entry of a table; `read` is for its calls. -/
def parseEntry (read : ℕ → ℕ → ScanM Unit) (sector primaryExtendedSector : ℕ) (e : Entry) :
    ScanM Unit := do
  if e.isEmpty then return
  if e.isExtended then
    emit (.extended sector)
    if sector = 0 then read e.offset e.offset
    else read ((e.offset + primaryExtendedSector) % 2 ^ 32) primaryExtendedSector
  else
    modify fun s => { s with partNr := s.partNr + 1 }
    emit (.found e.type ((e.offset + sector) % 2 ^ 32) e.size (← get).partNr)

/-- `read_partition_table`, to a depth of calls, with memory for the tables. -/
def readPartitionTable (d : Block) : ℕ → ℕ → ℕ → ScanM Unit
  | 0, _, _ => throw .deep
  | depth + 1, sector, primaryExtendedSector => do
    if sector ≥ d.size then emit (.pastEnd sector)
    else
      -- the source reads sector 0 here, not `sector`
      let pt ← blockRead d 0
      if signature pt ≠ 0xaa55 then
        if primaryExtendedSector = 0 then emit .invalidSignature else emit (.invalidExtended sector)
      else
        (partitions pt).forM (parseEntry (readPartitionTable d depth) sector primaryExtendedSector)

/-- `partition_scan`, at most `depth` tables deep. -/
def partitionScan (d : Block) (depth : ℕ) : ScanM Unit := readPartitionTable d depth 0 0

/-! ## Partitions -/

/-- `enum block_type`, of partitions. -/
inductive BlockType
  | kernel | filesys | scratch | swap | foreign
  deriving DecidableEq

/-- `struct partition`, with the type and the size of its block device. -/
structure Registered where
  type : BlockType
  start : ℕ
  size : ℕ
  deriving DecidableEq

/-- What becomes of a partition. -/
inductive Outcome
  | startsPastEnd (start : ℕ)
  | endsPastEnd (stop : ℕ)
  | registered (p : Registered)
  deriving DecidableEq

/-- `found_partition`. -/
def foundPartition (d : Block) (partType : UInt8) (start size : ℕ) : Outcome :=
  if start ≥ d.size then .startsPastEnd start
  else if (start + size) % 2 ^ 32 < start ∨ (start + size) % 2 ^ 32 > d.size then
    .endsPastEnd ((start + size) % 2 ^ 32)
  else
    .registered
      { type :=
          if partType = 0x20 then .kernel else if partType = 0x21 then .filesys
          else if partType = 0x22 then .scratch else if partType = 0x23 then .swap else .foreign
        start
        size }

/-- The check of `check_sector`, on the block device of a partition. -/
def Registered.checkSector (p : Registered) (sector : ℕ) : Bool := sector < p.size

/-- The sector that `partition_read` and `partition_write` access. -/
def Registered.sectorOf (p : Registered) (sector : ℕ) : ℕ := (p.start + sector) % 2 ^ 32

lemma le_of_registered {d : Block} {partType : UInt8} {start size : ℕ} (hsize : size < 2 ^ 32)
    {p : Registered} (hfound : foundPartition d partType start size = .registered p) :
    p.start + p.size ≤ d.size := by
  rw [foundPartition] at hfound
  split at hfound
  · cases hfound
  · split at hfound
    · cases hfound
    · next hstart hend =>
      cases hfound
      show start + size ≤ d.size
      omega

/-- **The sectors of a partition are sectors of the device.** -/
theorem partition_within {d : Block} {partType : UInt8} {offset size tableSector : ℕ}
    (hsize : size < 2 ^ 32) {p : Registered}
    (hfound : foundPartition d partType ((offset + tableSector) % 2 ^ 32) size = .registered p)
    {sector : ℕ} (hsector : p.checkSector sector = true) :
    p.sectorOf sector = p.start + sector ∧ p.sectorOf sector < d.size ∧
      d.read (p.sectorOf sector) = some (d.sector (p.start + sector)) ∧
      ∀ data, d.write (p.sectorOf sector) data ≠ none := by
  have hend := le_of_registered hsize hfound
  have hlt : sector < p.size := of_decide_eq_true hsector
  have hinside : p.start + sector < d.size := by omega
  have heq : p.sectorOf sector = p.start + sector := Nat.mod_eq_of_lt (Nat.lt_trans hinside d.size_lt)
  rw [heq]
  refine ⟨rfl, hinside, if_pos hinside, fun data => ?_⟩
  rw [Block.write, if_pos hinside]
  exact Option.some_ne_none _

/-- The last sector of a partition at the end of the largest device. -/
theorem partition_within_last :
    (Registered.mk .swap (2 ^ 32 - 5) 4).sectorOf 3 = 2 ^ 32 - 5 + 3 ∧
      (Registered.mk .swap (2 ^ 32 - 5) 4).sectorOf 3 < 2 ^ 32 - 1 := by
  have hfound : foundPartition ⟨2 ^ 32 - 1, fun _ _ => 0, by decide⟩ 0x23 ((2 ^ 32 - 6 + 1) % 2 ^ 32) 4 =
      .registered ⟨.swap, 2 ^ 32 - 5, 4⟩ := by decide
  have hsector : (Registered.mk .swap (2 ^ 32 - 5) 4).checkSector 3 = true := by decide
  have hwithin := partition_within (by decide) hfound hsector
  exact ⟨hwithin.1, hwithin.2.1⟩

end Pintos.Partition
