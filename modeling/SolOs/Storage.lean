import SolOs.Lib.Checked

/-!
# Block devices

`storage.rs`: the block-device trait and the RAM disk that the bootloader leaves in memory.

* `BlockDevice`           a number of sectors and a read function;
* `RamDiskBlockDevice`    a byte slice; that its length is a positive multiple of the sector size is
                          checked by `fromBootInfo` and kept as a field;
* `readSector_eq`         exactly the sectors below `sectorCount` can be read.
-/

namespace SolOs
namespace Storage
open Checked

def sectorSize : Nat := 512

inductive StorageError where
  | missingRamdisk
  | invalidRamdisk
  | sectorOutOfRange
  deriving DecidableEq, Repr

/-- `[u8; SECTOR_SIZE]` -/
def Sector : Type := { bytes : List UInt8 // bytes.length = sectorSize }

structure BlockDevice where
  sectorCount : Nat
  readSector : Nat → Run StorageError Sector

/-- the slice `bytes`: its length, and `byte i` for `bytes[i]` -/
structure RamDiskBlockDevice where
  length : Nat
  byte : Nat → UInt8
  length_pos : 0 < length
  length_mod : length % sectorSize = 0

/-- `memory` is the mapping that the bootloader hands over; on this machine `usize` is `u64` -/
def RamDiskBlockDevice.fromBootInfo (memory : Nat → UInt8) (address : Option Nat) (length : Nat) :
    Run StorageError RamDiskBlockDevice := do
  let address ← okOr address .missingRamdisk
  if h : length = 0 ∨ length % sectorSize ≠ 0 then raise .invalidRamdisk
  else pure ⟨length, fun i => memory (address + i), by omega, by omega⟩

/-- `bytes.get(start..end)` -/
def RamDiskBlockDevice.range (d : RamDiskBlockDevice) (start end_ : Nat) : Option (List UInt8) :=
  if start ≤ end_ ∧ end_ ≤ d.length then
    some ((List.range (end_ - start)).map (fun i => d.byte (start + i)))
  else none

/-- sector `lba`, when it lies inside the slice -/
def RamDiskBlockDevice.sector (d : RamDiskBlockDevice) (lba : Nat) : Sector :=
  ⟨(List.range sectorSize).map (fun i => d.byte (lba * sectorSize + i)), by simp⟩

/-- `output.copy_from_slice(source)` into a fresh sector panics when the lengths differ -/
def copyFromSlice (source : List UInt8) : Run StorageError Sector :=
  if h : source.length = sectorSize then .ok ⟨source, h⟩ else panic .assertion

def RamDiskBlockDevice.readSector (d : RamDiskBlockDevice) (lba : Nat) : Run StorageError Sector := do
  let start ← okOr (Word.checkedMul 64 lba sectorSize) .sectorOutOfRange
  let end_ ← okOr (Word.checkedAdd 64 start sectorSize) .sectorOutOfRange
  let source ← okOr (d.range start end_) .sectorOutOfRange
  copyFromSlice source

def RamDiskBlockDevice.device (d : RamDiskBlockDevice) : BlockDevice :=
  ⟨d.length / sectorSize, d.readSector⟩

/-- **exactly the sectors below `sectorCount` can be read**; a `u32` sector number never overflows
the byte offset -/
theorem RamDiskBlockDevice.readSector_eq (d : RamDiskBlockDevice) {lba : Nat} (h : lba < 2^32) :
    d.readSector lba =
      if lba < d.device.sectorCount then .ok (d.sector lba) else raise .sectorOutOfRange := by
  have h1 : lba * sectorSize < 2^64 := by unfold sectorSize; omega
  have h2 : lba * sectorSize + sectorSize < 2^64 := by unfold sectorSize; omega
  have hfit : (lba * sectorSize ≤ lba * sectorSize + sectorSize ∧
      lba * sectorSize + sectorSize ≤ d.length) ↔ lba < d.device.sectorCount := by
    show _ ↔ lba < d.length / sectorSize
    unfold sectorSize
    omega
  have e : lba * sectorSize + sectorSize - lba * sectorSize = sectorSize := by omega
  unfold RamDiskBlockDevice.readSector
  rw [Word.checkedMul_of_lt h1, okOr_some, bind_ok, Word.checkedAdd_of_lt h2, okOr_some, bind_ok]
  unfold RamDiskBlockDevice.range
  rw [e]
  by_cases hlt : lba < d.device.sectorCount
  · rw [if_pos (hfit.mpr hlt), if_pos hlt, okOr_some, bind_ok]
    exact dif_pos (by simp)
  · rw [if_neg (fun hc => hlt (hfit.mp hc)), if_neg hlt, okOr_none]
    rfl

end Storage
end SolOs
