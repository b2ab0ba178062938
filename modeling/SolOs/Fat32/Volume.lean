import SolOs.Storage
import SolOs.Lib.Text

/-!
# FAT32: mounting a volume, and cluster arithmetic

`fat32.rs`, everything that turns numbers of the boot sector and of the FAT into sector numbers.
Machine integers are natural numbers; an operation that the source leaves unchecked panics here when it
leaves its type (`add 32`, `sub`, `mul 64`), a `checked_` one becomes an error.

* `mount`             the boot sector and its checks;
* `clusterToSector`   sector of a data cluster;
* `fatSlot`           where the FAT entry of a cluster lies; `nextCluster` reads it;
* `followLink`        `next_cluster`, the end-of-chain test and `checked_next_cluster` in a row, as
                      both chain loops do it;
* `Fat32.Ok`          what a successful `mount` guarantees (`mount_ok`).
-/

set_option linter.unusedVariables false

namespace SolOs
namespace Fat
open Checked Storage

def fat32Eoc : Nat := 0x0ffffff8
def fat32BadCluster : Nat := 0x0ffffff7
def attrDirectory : UInt8 := 0x10
def attrVolumeId : UInt8 := 0x08
def attrLongFileName : UInt8 := 0x0f

inductive FsError where
  | device (e : StorageError)
  | invalidBootSector
  | unsupportedVolume
  | invalidCluster
  | corruptFat
  | directoryLoop
  | notFound
  | notDirectory
  | isDirectory
  | truncatedFile
  deriving DecidableEq, Repr

structure Fat32 where
  device : BlockDevice
  sectorsPerCluster : Nat
  fatStartSector : Nat
  sectorsPerFat : Nat
  firstDataSector : Nat
  rootCluster : Nat
  clusterCount : Nat

/-! ## little-endian fields -/

section
variable {ε : Type}

def leU16 (bytes : List UInt8) (offset : Nat) : Run ε Nat := do
  let b0 ← get bytes offset
  let b1 ← get bytes (offset + 1)
  pure (b0.toNat + 2^8 * b1.toNat)

def leU32 (bytes : List UInt8) (offset : Nat) : Run ε Nat := do
  let b0 ← get bytes offset
  let b1 ← get bytes (offset + 1)
  let b2 ← get bytes (offset + 2)
  let b3 ← get bytes (offset + 3)
  pure (b0.toNat + 2^8 * b1.toNat + 2^16 * b2.toNat + 2^24 * b3.toNat)

theorem leU16_ok {bytes : List UInt8} {offset : Nat} (h : offset + 1 < bytes.length) :
    ∃ v < 2^16, (leU16 bytes offset : Run ε Nat) = .ok v := by
  have h0 := bytes[offset].toNat_lt
  have h1 := bytes[offset + 1].toNat_lt
  refine ⟨bytes[offset].toNat + 2^8 * bytes[offset + 1].toNat, by omega, ?_⟩
  unfold leU16
  rw [get_of_lt (show offset < bytes.length by omega), bind_ok, get_of_lt h, bind_ok, pure_eq]

theorem leU32_ok {bytes : List UInt8} {offset : Nat} (h : offset + 3 < bytes.length) :
    ∃ v < 2^32, (leU32 bytes offset : Run ε Nat) = .ok v := by
  have h0 := bytes[offset].toNat_lt
  have h1 := bytes[offset + 1].toNat_lt
  have h2 := bytes[offset + 2].toNat_lt
  have h3 := bytes[offset + 3].toNat_lt
  refine ⟨bytes[offset].toNat + 2^8 * bytes[offset + 1].toNat + 2^16 * bytes[offset + 2].toNat
    + 2^24 * bytes[offset + 3].toNat, by omega, ?_⟩
  unfold leU32
  rw [get_of_lt (show offset < bytes.length by omega), bind_ok,
    get_of_lt (show offset + 1 < bytes.length by omega), bind_ok,
    get_of_lt (show offset + 2 < bytes.length by omega), bind_ok, get_of_lt h, bind_ok, pure_eq]

end

/-! ## mounting -/

/-- `device.read_sector(lba, &mut sector)?` -/
def readDevice (device : BlockDevice) (lba : Nat) : Run FsError Sector :=
  match device.readSector lba with
  | .ok sector => .ok sector
  | .error (.err e) => raise (.device e)
  | .error (.panic p) => panic p

def isPowerOfTwo (n : Nat) : Bool := n != 0 && (n &&& (n - 1)) == 0

/-- the fields of the boot sector that `mount` reads -/
structure BootSector where
  bytesPerSector : Nat
  sectorsPerCluster : Nat
  reservedSectors : Nat
  fatCount : Nat
  rootEntryCount : Nat
  totalSectors16 : Nat
  fatSize16 : Nat
  totalSectors32 : Nat
  sectorsPerFat : Nat
  rootCluster : Nat

def readBootSector (sector : List UInt8) : Run FsError BootSector := do
  let s0 ← get sector 510
  let s1 ← get sector 511
  rejectIf (s0 ≠ 0x55 ∨ s1 ≠ 0xaa) .invalidBootSector
  let bytesPerSector ← leU16 sector 11
  let sectorsPerCluster ← get sector 13
  let reservedSectors ← leU16 sector 14
  let fatCount ← get sector 16
  let rootEntryCount ← leU16 sector 17
  let totalSectors16 ← leU16 sector 19
  let fatSize16 ← leU16 sector 22
  let totalSectors32 ← leU32 sector 32
  let sectorsPerFat ← leU32 sector 36
  let rootCluster ← leU32 sector 44
  pure ⟨bytesPerSector, sectorsPerCluster.toNat, reservedSectors, fatCount.toNat, rootEntryCount,
    totalSectors16, fatSize16, totalSectors32, sectorsPerFat, rootCluster⟩

def BootSector.unsupported (b : BootSector) : Bool :=
  b.bytesPerSector ≠ sectorSize
    || b.sectorsPerCluster = 0
    || !isPowerOfTwo b.sectorsPerCluster
    || b.reservedSectors = 0
    || b.fatCount = 0
    || b.fatSize16 ≠ 0
    || b.sectorsPerFat = 0
    || b.rootEntryCount ≠ 0
    || b.rootCluster < 2

def BootSector.totalSectors (b : BootSector) : Nat :=
  if b.totalSectors16 ≠ 0 then b.totalSectors16 else b.totalSectors32

/-- `mount` after the fields are read -/
def mountFields (device : BlockDevice) (b : BootSector) : Run FsError Fat32 := do
  rejectIf (b.unsupported = true) .unsupportedVolume
  let fatSectors ← okOr (Word.checkedMul 32 b.fatCount b.sectorsPerFat) .invalidBootSector
  let firstDataSector ← okOr (Word.checkedAdd 32 b.reservedSectors fatSectors) .invalidBootSector
  rejectIf (b.totalSectors ≤ firstDataSector ∨ b.totalSectors > device.sectorCount)
    .invalidBootSector
  let dataSectors ← sub b.totalSectors firstDataSector
  let clusterCount ← div dataSectors b.sectorsPerCluster
  rejectIf (clusterCount < 65525) .unsupportedVolume
  let clusterEnd ← add 32 clusterCount 2
  rejectIf (b.rootCluster ≥ clusterEnd) .unsupportedVolume
  let fatBytes ← mul 64 b.sectorsPerFat sectorSize
  let fatEntries ← div fatBytes 4
  rejectIf (b.rootCluster ≥ fatEntries) .invalidBootSector
  pure ⟨device, b.sectorsPerCluster, b.reservedSectors, b.sectorsPerFat, firstDataSector,
    b.rootCluster, clusterCount⟩

def mount (device : BlockDevice) : Run FsError Fat32 := do
  let sector ← readDevice device 0
  let b ← readBootSector sector.val
  mountFields device b

/-! ## clusters -/

section
variable (fs : Fat32)

def isValidCluster (cluster : Nat) : Run FsError Bool :=
  if cluster < 2 then pure false
  else do
    let clusterEnd ← add 32 fs.clusterCount 2
    pure (decide (cluster < clusterEnd))

def clusterToSector (cluster sectorIndex : Nat) : Run FsError Nat := do
  let valid ← isValidCluster fs cluster
  rejectIf (valid = false ∨ sectorIndex ≥ fs.sectorsPerCluster) .invalidCluster
  let index ← sub cluster 2
  let offset ← okOr (Word.checkedMul 32 index fs.sectorsPerCluster) .invalidCluster
  let sector ← okOr (Word.checkedAdd 32 fs.firstDataSector offset) .invalidCluster
  okOr (Word.checkedAdd 32 sector sectorIndex) .invalidCluster

/-- the sector of the FAT that holds the entry of a cluster, and the offset in it -/
def fatSlot (cluster : Nat) : Run FsError (Nat × Nat) := do
  let valid ← isValidCluster fs cluster
  rejectIf (valid = false) .invalidCluster
  let fatOffset ← okOr (Word.checkedMul 64 cluster 4) .corruptFat
  let sectorOffset ← div fatOffset sectorSize
  rejectIf (sectorOffset ≥ fs.sectorsPerFat) .corruptFat
  let lba ← okOr (Word.checkedAdd 32 fs.fatStartSector (sectorOffset % 2^32)) .corruptFat
  pure (lba, fatOffset % sectorSize)

def nextCluster (cluster : Nat) : Run FsError Nat := do
  let (lba, entryOffset) ← fatSlot fs cluster
  let sector ← readDevice fs.device lba
  let entry ← leU32 sector.val entryOffset
  pure (entry &&& 0x0fffffff)

def checkedNextCluster (cluster : Nat) : Run FsError Nat :=
  if cluster = fat32BadCluster then raise .corruptFat
  else do
    let valid ← isValidCluster fs cluster
    rejectIf (valid = false) .corruptFat
    pure cluster

/-- the next cluster of a chain, `none` at its end -/
def followLink (cluster : Nat) : Run FsError (Option Nat) := do
  let next ← nextCluster fs cluster
  if next ≥ fat32Eoc then pure none
  else do
    let cluster ← checkedNextCluster fs next
    pure (some cluster)

/-- sector `sectorIndex` of a data cluster -/
def readClusterSector (cluster sectorIndex : Nat) : Run FsError Sector := do
  let lba ← clusterToSector fs cluster sectorIndex
  readDevice fs.device lba

end

/-! ## what a mounted volume guarantees -/

/-- the faults that reading from a mounted RAM disk never runs into -/
def Bad : Fault FsError → Prop
  | .panic _ => True
  | .err (.device _) => True
  | .err _ => False

structure BootSector.Wf (b : BootSector) : Prop where
  sectorsPerCluster : b.sectorsPerCluster < 2^8
  reservedSectors : b.reservedSectors < 2^16
  fatCount : b.fatCount < 2^8
  totalSectors16 : b.totalSectors16 < 2^16
  totalSectors32 : b.totalSectors32 < 2^32
  sectorsPerFat : b.sectorsPerFat < 2^32
  rootCluster : b.rootCluster < 2^32

theorem BootSector.Wf.totalSectors {b : BootSector} (h : b.Wf) : b.totalSectors < 2^32 := by
  unfold BootSector.totalSectors
  have h1 := h.totalSectors16
  have h2 := h.totalSectors32
  split <;> omega

/-- the boot sector is read without a panic, and its fields fit their types -/
theorem readBootSector_spec (sector : List UInt8) (h : sector.length = sectorSize) :
    readBootSector sector = raise .invalidBootSector ∨
      ∃ b, readBootSector sector = .ok b ∧ b.Wf := by
  have hl : sector.length = 512 := h
  unfold readBootSector
  rw [get_of_lt (show 510 < sector.length by omega), bind_ok,
    get_of_lt (show 511 < sector.length by omega), bind_ok]
  by_cases hsig : sector[510] ≠ 0x55 ∨ sector[511] ≠ 0xaa
  · left
    rw [rejectIf_of hsig]
    rfl
  · right
    obtain ⟨bps, h1, e1⟩ := leU16_ok (ε := FsError) (show 11 + 1 < sector.length by omega)
    obtain ⟨rsv, h2, e2⟩ := leU16_ok (ε := FsError) (show 14 + 1 < sector.length by omega)
    obtain ⟨rec, h3, e3⟩ := leU16_ok (ε := FsError) (show 17 + 1 < sector.length by omega)
    obtain ⟨ts16, h4, e4⟩ := leU16_ok (ε := FsError) (show 19 + 1 < sector.length by omega)
    obtain ⟨fs16, h5, e5⟩ := leU16_ok (ε := FsError) (show 22 + 1 < sector.length by omega)
    obtain ⟨ts32, h6, e6⟩ := leU32_ok (ε := FsError) (show 32 + 3 < sector.length by omega)
    obtain ⟨spf, h7, e7⟩ := leU32_ok (ε := FsError) (show 36 + 3 < sector.length by omega)
    obtain ⟨root, h8, e8⟩ := leU32_ok (ε := FsError) (show 44 + 3 < sector.length by omega)
    rw [rejectIf_of_not hsig, bind_ok, e1, bind_ok, get_of_lt (show 13 < sector.length by omega),
      bind_ok, e2, bind_ok, get_of_lt (show 16 < sector.length by omega), bind_ok, e3, bind_ok, e4,
      bind_ok, e5, bind_ok, e6, bind_ok, e7, bind_ok, e8, bind_ok, pure_eq]
    exact ⟨_, rfl, ⟨sector[13].toNat_lt, h2, sector[16].toNat_lt, h4, h6, h7, h8⟩⟩

/-- the guarantees of `mount` -/
structure Fat32.Ok (fs : Fat32) (totalSectors : Nat) : Prop where
  sectorsPerCluster_pos : 0 < fs.sectorsPerCluster
  fatStartSector_pos : 0 < fs.fatStartSector
  sectorsPerFat_pos : 0 < fs.sectorsPerFat
  fat_le : fs.fatStartSector + fs.sectorsPerFat ≤ fs.firstDataSector
  data_lt : fs.firstDataSector < totalSectors
  total_le : totalSectors ≤ fs.device.sectorCount
  total_lt : totalSectors < 2^32
  clusterCount_eq :
    fs.clusterCount = (totalSectors - fs.firstDataSector) / fs.sectorsPerCluster
  clusterCount_ge : 65525 ≤ fs.clusterCount
  root_ge : 2 ≤ fs.rootCluster
  root_lt : fs.rootCluster < fs.clusterCount + 2

theorem BootSector.supported {b : BootSector} (h : b.unsupported = false) :
    0 < b.sectorsPerCluster ∧ 0 < b.reservedSectors ∧ 0 < b.fatCount ∧ 0 < b.sectorsPerFat ∧
      2 ≤ b.rootCluster := by
  unfold BootSector.unsupported at h
  simp only [Bool.or_eq_false_iff, decide_eq_false_iff_not, not_not] at h
  omega

/-- a volume that is refused -/
theorem mount_refused {P : Fat32 → Prop} {e : FsError} (he : ¬ Bad (.err e)) :
    Avoids Bad (raise e : Run FsError Fat32) ∧ ∀ fs, (raise e : Run FsError Fat32) = .ok fs → P fs :=
  ⟨Avoids.raise he, fun fs h => nomatch h⟩

/-- **mounting does not overflow, and what it accepts is well formed** -/
theorem mountFields_spec (device : BlockDevice) {b : BootSector} (hb : b.Wf) :
    Avoids Bad (mountFields device b) ∧
      ∀ fs, mountFields device b = .ok fs → fs.device = device ∧ fs.Ok b.totalSectors := by
  have htot := hb.totalSectors
  have hspf := hb.sectorsPerFat
  unfold mountFields
  by_cases h1 : b.unsupported = true
  · rw [rejectIf_of h1]
    exact mount_refused (fun h => h)
  rw [rejectIf_of_not h1, bind_ok]
  obtain ⟨hspc, hrsv, hfc, hspf0, hroot⟩ := BootSector.supported (Bool.eq_false_iff.mpr h1)
  cases h2 : Word.checkedMul 32 b.fatCount b.sectorsPerFat with
  | none => exact mount_refused (fun h => h)
  | some fatSectors =>
  rw [okOr_some, bind_ok]
  obtain ⟨_, hfat⟩ := Word.checkedMul_eq_some.mp h2
  have hge : b.sectorsPerFat ≤ fatSectors := by
    rw [hfat]; exact Nat.le_mul_of_pos_left _ hfc
  cases h3 : Word.checkedAdd 32 b.reservedSectors fatSectors with
  | none => exact mount_refused (fun h => h)
  | some firstDataSector =>
  rw [okOr_some, bind_ok]
  obtain ⟨_, hfds⟩ := Word.checkedAdd_eq_some.mp h3
  by_cases h4 : b.totalSectors ≤ firstDataSector ∨ b.totalSectors > device.sectorCount
  · rw [rejectIf_of h4]
    exact mount_refused (fun h => h)
  rw [rejectIf_of_not h4, bind_ok, sub_of_le (by omega), bind_ok, div_of_pos hspc, bind_ok]
  have hcc := Nat.div_le_self (b.totalSectors - firstDataSector) b.sectorsPerCluster
  by_cases h5 : (b.totalSectors - firstDataSector) / b.sectorsPerCluster < 65525
  · rw [rejectIf_of h5]
    exact mount_refused (fun h => h)
  -- one sector per cluster on a volume of 2^32 - 1 sectors fits by exactly one
  rw [rejectIf_of_not h5, bind_ok, add_of_lt (by omega), bind_ok]
  by_cases h6 : b.rootCluster ≥ (b.totalSectors - firstDataSector) / b.sectorsPerCluster + 2
  · rw [rejectIf_of h6]
    exact mount_refused (fun h => h)
  rw [rejectIf_of_not h6, bind_ok, mul_of_lt (by unfold sectorSize; omega), bind_ok,
    div_of_pos (by norm_num), bind_ok]
  by_cases h7 : b.rootCluster ≥ b.sectorsPerFat * sectorSize / 4
  · rw [rejectIf_of h7]
    exact mount_refused (fun h => h)
  rw [rejectIf_of_not h7, bind_ok, pure_eq]
  refine ⟨Avoids.ok _, ?_⟩
  rintro fs ⟨⟩
  refine ⟨rfl, ⟨hspc, hrsv, hspf0, ?_, ?_, ?_, htot, rfl, ?_, hroot, ?_⟩⟩
  · show b.reservedSectors + b.sectorsPerFat ≤ firstDataSector
    omega
  · show firstDataSector < b.totalSectors
    omega
  · show b.totalSectors ≤ device.sectorCount
    omega
  · show 65525 ≤ (b.totalSectors - firstDataSector) / b.sectorsPerCluster
    omega
  · show b.rootCluster < (b.totalSectors - firstDataSector) / b.sectorsPerCluster + 2
    omega

theorem readDevice_of_lt (d : RamDiskBlockDevice) {lba : Nat} (h : lba < 2^32)
    (hlt : lba < d.device.sectorCount) : readDevice d.device lba = .ok (d.sector lba) := by
  have e : d.device.readSector lba = .ok (d.sector lba) :=
    (d.readSector_eq h).trans (if_pos hlt)
  unfold readDevice
  rw [e]

/-- a RAM disk has at least one sector -/
theorem sectorCount_pos (d : RamDiskBlockDevice) : 0 < d.device.sectorCount := by
  have h1 := d.length_pos
  have h2 := d.length_mod
  show 0 < d.length / sectorSize
  unfold sectorSize at h2 ⊢
  omega

theorem mount_avoids (d : RamDiskBlockDevice) : Avoids Bad (mount d.device) := by
  unfold mount
  rw [readDevice_of_lt d (by norm_num) (sectorCount_pos d), bind_ok]
  rcases readBootSector_spec (d.sector 0).val (d.sector 0).property with h | ⟨b, h, hb⟩
  · rw [h]
    exact Avoids.raise (fun h => h)
  · rw [h, bind_ok]
    exact (mountFields_spec d.device hb).1

/-- **what a successful `mount` guarantees** -/
theorem mount_ok {d : RamDiskBlockDevice} {fs : Fat32} (h : mount d.device = .ok fs) :
    ∃ b, readBootSector (d.sector 0).val = .ok b ∧ fs.device = d.device ∧ fs.Ok b.totalSectors := by
  unfold mount at h
  rw [readDevice_of_lt d (by norm_num) (sectorCount_pos d), bind_ok] at h
  rcases readBootSector_spec (d.sector 0).val (d.sector 0).property with hr | ⟨b, hr, hb⟩
  · rw [hr] at h
    exact nomatch h
  · rw [hr, bind_ok] at h
    obtain ⟨hdev, hok⟩ := (mountFields_spec d.device hb).2 fs h
    exact ⟨b, hr, hdev, hok⟩

/-! ## cluster arithmetic on a mounted volume -/

section
variable {fs : Fat32} {total : Nat}

theorem Fat32.Ok.clusterEnd_lt (h : fs.Ok total) : fs.clusterCount + 2 < 2^32 := by
  have h1 := h.clusterCount_eq
  have h2 := Nat.div_le_self (total - fs.firstDataSector) fs.sectorsPerCluster
  have h3 := h.fat_le
  have h4 := h.fatStartSector_pos
  have h5 := h.sectorsPerFat_pos
  have h6 := h.total_lt
  have h7 := h.data_lt
  omega

theorem Fat32.Ok.clusters_le (h : fs.Ok total) :
    fs.firstDataSector + fs.clusterCount * fs.sectorsPerCluster ≤ total := by
  have h1 := Nat.div_mul_le_self (total - fs.firstDataSector) fs.sectorsPerCluster
  rw [← h.clusterCount_eq] at h1
  have h2 := h.data_lt
  omega

theorem isValidCluster_eq (h : fs.Ok total) (cluster : Nat) :
    isValidCluster fs cluster = .ok (decide (2 ≤ cluster ∧ cluster < fs.clusterCount + 2)) := by
  unfold isValidCluster
  by_cases h2 : cluster < 2
  · rw [if_pos h2, decide_eq_false (by omega), pure_eq]
  · have e : (2 ≤ cluster ∧ cluster < fs.clusterCount + 2) ↔ cluster < fs.clusterCount + 2 := by
      omega
    rw [if_neg h2, add_of_lt h.clusterEnd_lt, bind_ok, pure_eq, decide_eq_decide.mpr e]

/-- sector `i` of cluster `c` lies before the end of the volume -/
theorem Fat32.Ok.sector_lt (h : fs.Ok total) {c i : Nat} (hc : 2 ≤ c) (hc' : c < fs.clusterCount + 2)
    (hi : i < fs.sectorsPerCluster) :
    fs.firstDataSector + (c - 2) * fs.sectorsPerCluster + i < total := by
  have h1 : (c - 2 + 1) * fs.sectorsPerCluster ≤ fs.clusterCount * fs.sectorsPerCluster :=
    Nat.mul_le_mul_right _ (by omega)
  rw [Nat.succ_mul] at h1
  have h2 := h.clusters_le
  omega

theorem clusterToSector_valid (h : fs.Ok total) {c i : Nat} (hc : 2 ≤ c)
    (hc' : c < fs.clusterCount + 2) (hi : i < fs.sectorsPerCluster) :
    clusterToSector fs c i = .ok (fs.firstDataSector + (c - 2) * fs.sectorsPerCluster + i) := by
  have hlt := h.sector_lt hc hc' hi
  have htot := h.total_lt
  unfold clusterToSector
  rw [isValidCluster_eq h, bind_ok, decide_eq_true ⟨hc, hc'⟩,
    rejectIf_of_not (by simp only [Bool.true_eq_false, false_or]; omega), bind_ok, sub_of_le hc,
    bind_ok, Word.checkedMul_of_lt (by omega), okOr_some, bind_ok,
    Word.checkedAdd_of_lt (by omega), okOr_some, bind_ok, Word.checkedAdd_of_lt (by omega), okOr_some]

/-- `cluster_to_sector` refuses everything else -/
theorem clusterToSector_invalid (h : fs.Ok total) {c i : Nat}
    (hc : ¬ (2 ≤ c ∧ c < fs.clusterCount + 2 ∧ i < fs.sectorsPerCluster)) :
    clusterToSector fs c i = raise .invalidCluster := by
  unfold clusterToSector
  rw [isValidCluster_eq h, bind_ok, rejectIf_of]
  · rfl
  · rw [decide_eq_false_iff_not]
    omega

theorem clusterToSector_inj (h : fs.Ok total) {c c' i i' : Nat} (hc : 2 ≤ c) (hc' : 2 ≤ c')
    (hi : i < fs.sectorsPerCluster) (hi' : i' < fs.sectorsPerCluster)
    (e : fs.firstDataSector + (c - 2) * fs.sectorsPerCluster + i
      = fs.firstDataSector + (c' - 2) * fs.sectorsPerCluster + i') : c = c' ∧ i = i' := by
  have hpos := h.sectorsPerCluster_pos
  have e1 : i + fs.sectorsPerCluster * (c - 2) = i' + fs.sectorsPerCluster * (c' - 2) := by
    rw [Nat.mul_comm _ (c - 2), Nat.mul_comm _ (c' - 2)]
    omega
  have hdiv := congrArg (· / fs.sectorsPerCluster) e1
  simp only [Nat.add_mul_div_left _ _ hpos, Nat.div_eq_of_lt hi, Nat.div_eq_of_lt hi'] at hdiv
  have hcc : c - 2 = c' - 2 := by omega
  rw [hcc] at e1
  omega

/-- the entry of every cluster that the FAT has room for lies inside the first FAT -/
theorem fatSlot_spec (h : fs.Ok total) (cluster : Nat) :
    Avoids Bad (fatSlot fs cluster) ∧ ∀ lba offset, fatSlot fs cluster = .ok (lba, offset) →
      fs.fatStartSector ≤ lba ∧ lba < fs.fatStartSector + fs.sectorsPerFat ∧
        offset + 3 < sectorSize := by
  have h1 := h.fat_le
  have h2 := h.data_lt
  have h3 := h.total_lt
  unfold fatSlot
  rw [isValidCluster_eq h, bind_ok]
  by_cases hv : decide (2 ≤ cluster ∧ cluster < fs.clusterCount + 2) = false
  · rw [rejectIf_of hv]
    exact ⟨Avoids.raise (fun h => h), fun lba offset h => nomatch h⟩
  rw [rejectIf_of_not hv, bind_ok]
  have hlt : cluster < fs.clusterCount + 2 := by
    rw [decide_eq_false_iff_not, not_not] at hv
    exact hv.2
  have hend := h.clusterEnd_lt
  rw [Word.checkedMul_of_lt (by omega), okOr_some, bind_ok, div_of_pos (by norm_num [sectorSize]),
    bind_ok]
  by_cases hs : cluster * 4 / sectorSize ≥ fs.sectorsPerFat
  · rw [rejectIf_of hs]
    exact ⟨Avoids.raise (fun h => h), fun lba offset h => nomatch h⟩
  rw [rejectIf_of_not hs, bind_ok, Nat.mod_eq_of_lt (by omega), Word.checkedAdd_of_lt (by omega),
    okOr_some, bind_ok, pure_eq]
  refine ⟨Avoids.ok _, ?_⟩
  rintro lba offset ⟨⟩
  refine ⟨Nat.le_add_right _ _, by omega, ?_⟩
  -- entries are four bytes wide, so none crosses the end of its sector
  unfold sectorSize
  omega

variable {d : RamDiskBlockDevice}

theorem readDevice_volume (h : fs.Ok total) (hd : fs.device = d.device) {lba : Nat}
    (hlt : lba < total) : readDevice fs.device lba = .ok (d.sector lba) := by
  have h1 := h.total_le
  have h2 := h.total_lt
  rw [hd] at h1 ⊢
  exact readDevice_of_lt d (by omega) (by omega)

theorem nextCluster_avoids (h : fs.Ok total) (hd : fs.device = d.device) (cluster : Nat) :
    Avoids Bad (nextCluster fs cluster) := by
  obtain ⟨havoid, hslot⟩ := fatSlot_spec h cluster
  apply Avoids.bind havoid
  rintro ⟨lba, offset⟩ hs
  obtain ⟨_, hlt, hoff⟩ := hslot lba offset hs
  have h1 := h.fat_le
  have h2 := h.data_lt
  have hlen : offset + 3 < (d.sector lba).val.length := by rw [(d.sector lba).property]; exact hoff
  obtain ⟨v, _, hv⟩ := leU32_ok (ε := FsError) hlen
  show Avoids Bad (readDevice fs.device lba >>= _)
  rw [readDevice_volume h hd (by omega), bind_ok, hv, bind_ok]
  exact Avoids.ok _

theorem followLink_avoids (h : fs.Ok total) (hd : fs.device = d.device) (cluster : Nat) :
    Avoids Bad (followLink fs cluster) := by
  apply Avoids.bind (nextCluster_avoids h hd cluster)
  intro next _
  by_cases he : next ≥ fat32Eoc
  · rw [if_pos he]
    exact Avoids.ok _
  rw [if_neg he]
  refine Avoids.bind ?_ (fun _ _ => Avoids.ok _)
  unfold checkedNextCluster
  by_cases hb : next = fat32BadCluster
  · rw [if_pos hb]
    exact Avoids.raise (fun h => h)
  · rw [if_neg hb, isValidCluster_eq h, bind_ok]
    exact Avoids.bind (Avoids.rejectIf (fun h => h)) (fun _ _ => Avoids.ok _)

theorem readClusterSector_avoids (h : fs.Ok total) (hd : fs.device = d.device) (c i : Nat) :
    Avoids Bad (readClusterSector fs c i) := by
  unfold readClusterSector
  by_cases hv : 2 ≤ c ∧ c < fs.clusterCount + 2 ∧ i < fs.sectorsPerCluster
  · obtain ⟨hc, hc', hi⟩ := hv
    rw [clusterToSector_valid h hc hc' hi, bind_ok, readDevice_volume h hd (h.sector_lt hc hc' hi)]
    exact Avoids.ok _
  · rw [clusterToSector_invalid h hv]
    exact Avoids.raise (fun h => h)

end

end Fat
end SolOs
