import SolOs.Lib.Chain
import SolOs.Fat32.Volume

/-!
# FAT32: the FAT as a graph

What the loops over a cluster chain see, in terms of the bytes of the disk.

* `Fat32.Valid`          the numbers of the data clusters;
* `fatEntry`, `link`     the FAT entry of a cluster, and where it leads;
* `clusterSectors`, `clusterBytes`   the contents of a cluster;
* `followLink_eq`, `readClusterSector_eq`   **the driver follows `link` and reads `clusterSector`**;
* `endless_iff_walk`     a chain of a volume never ends iff it goes on for `clusterCount` links.
-/

set_option linter.unusedVariables false

namespace SolOs
namespace Fat
open Checked Storage

/-! ## the graph -/

def Fat32.Valid (fs : Fat32) (cluster : Nat) : Prop := 2 ≤ cluster ∧ cluster < fs.clusterCount + 2

instance (fs : Fat32) (cluster : Nat) : Decidable (fs.Valid cluster) :=
  inferInstanceAs (Decidable (_ ∧ _))

/-- why a chain has no further cluster -/
inductive ChainEnd where
  | marker
  | corrupt
  deriving DecidableEq

section
variable (fs : Fat32) (d : RamDiskBlockDevice)

/-- a little-endian word of the disk -/
def diskU32 (offset : Nat) : Nat :=
  (d.byte offset).toNat + 2^8 * (d.byte (offset + 1)).toNat + 2^16 * (d.byte (offset + 2)).toNat
    + 2^24 * (d.byte (offset + 3)).toNat

/-- the lower 28 bits of the entry in the first FAT -/
def fatEntry (cluster : Nat) : Nat :=
  diskU32 d (fs.fatStartSector * sectorSize + 4 * cluster) &&& 0x0fffffff

/-- free, bad, reserved and out-of-range entries are corrupt, and so is an entry past the end of the
FAT -/
def link (cluster : Nat) : Except ChainEnd Nat :=
  if fs.sectorsPerFat * sectorSize ≤ 4 * cluster then .error .corrupt
  else if fat32Eoc ≤ fatEntry fs d cluster then .error .marker
  else if fatEntry fs d cluster = fat32BadCluster ∨ ¬ fs.Valid (fatEntry fs d cluster) then
    .error .corrupt
  else .ok (fatEntry fs d cluster)

/-- the sector at which a cluster starts -/
def clusterStart (cluster : Nat) : Nat := fs.firstDataSector + (cluster - 2) * fs.sectorsPerCluster

def clusterSector (cluster i : Nat) : List UInt8 := (d.sector (clusterStart fs cluster + i)).val

def clusterSectors (cluster : Nat) : List (List UInt8) :=
  (List.range fs.sectorsPerCluster).map (clusterSector fs d cluster)

def clusterBytes (cluster : Nat) : List UInt8 :=
  (List.range (sectorSize * fs.sectorsPerCluster)).map
    (fun i => d.byte (clusterStart fs cluster * sectorSize + i))

theorem clusterSector_length (cluster i : Nat) : (clusterSector fs d cluster i).length = sectorSize :=
  (d.sector _).property

theorem length_of_mem_clusterSectors {cluster : Nat} {sector : List UInt8}
    (h : sector ∈ clusterSectors fs d cluster) : sector.length = sectorSize := by
  obtain ⟨i, _, rfl⟩ := List.mem_map.mp h
  exact clusterSector_length fs d cluster i

theorem clusterSectors_length (cluster : Nat) :
    (clusterSectors fs d cluster).length = fs.sectorsPerCluster := by
  simp [clusterSectors]

theorem clusterBytes_length (cluster : Nat) :
    (clusterBytes fs d cluster).length = sectorSize * fs.sectorsPerCluster := by
  simp [clusterBytes]

/-- a block of bytes is its sectors one after the other -/
theorem flatten_sectors (byte : Nat → UInt8) (start k n : Nat) :
    ((List.range n).map fun i => (List.range k).map fun j => byte ((start + i) * k + j)).flatten
      = (List.range (k * n)).map fun i => byte (start * k + i) := by
  induction n with
  | zero => rfl
  | succ n ih =>
    rw [List.range_succ, List.map_append, List.flatten_append, ih, Nat.mul_succ, List.range_add,
      List.map_append, List.map_map]
    simp only [List.map_cons, List.map_nil, List.flatten_cons, List.flatten_nil, List.append_nil]
    congr 1
    apply List.map_congr_left
    intro j _
    show byte ((start + n) * k + j) = byte (start * k + (k * n + j))
    rw [Nat.add_mul, Nat.mul_comm k n, Nat.add_assoc]

theorem flatten_clusterSectors (cluster : Nat) :
    (clusterSectors fs d cluster).flatten = clusterBytes fs d cluster := by
  have hsector : clusterSector fs d cluster = fun i => (List.range sectorSize).map
      fun j => d.byte ((clusterStart fs cluster + i) * sectorSize + j) := by
    funext i
    simp only [clusterSector, RamDiskBlockDevice.sector]
  rw [clusterSectors, clusterBytes, hsector]
  exact flatten_sectors d.byte (clusterStart fs cluster) sectorSize fs.sectorsPerCluster

end

/-! ## the driver on the graph -/

section
variable {fs : Fat32} {d : RamDiskBlockDevice} {total : Nat}

theorem link_valid {cluster next : Nat} (h : link fs d cluster = .ok next) : fs.Valid next := by
  unfold link at h
  split_ifs at h with h1 h2 h3
  obtain rfl := Except.ok.inj h
  by_contra hv
  exact h3 (.inr hv)

theorem walk_valid {cluster : Nat} (hc : fs.Valid cluster) {k next : Nat}
    (h : Chain.walk (link fs d) k cluster = .ok next) : fs.Valid next := by
  induction k generalizing cluster with
  | zero =>
    obtain rfl := Except.ok.inj h
    exact hc
  | succ k ih =>
    cases hl : link fs d cluster with
    | error e =>
      rw [Chain.walk_succ_of_error hl] at h
      cases h
    | ok mid =>
      rw [Chain.walk_succ_of_ok hl] at h
      exact ih (link_valid hl) h

/-- the clusters of a volume -/
def Fat32.clusters (fs : Fat32) : Finset Nat := Finset.Ico 2 (fs.clusterCount + 2)

theorem Fat32.card_clusters : fs.clusters.card = fs.clusterCount := by
  simp [Fat32.clusters]

theorem mem_clusters {cluster : Nat} : cluster ∈ fs.clusters ↔ fs.Valid cluster := Finset.mem_Ico

theorem walk_mem_clusters {cluster : Nat} (hc : fs.Valid cluster) (k next : Nat)
    (h : Chain.walk (link fs d) k cluster = .ok next) : next ∈ fs.clusters :=
  mem_clusters.mpr (walk_valid hc h)

/-- a chain that goes on for as many links as there are clusters never ends -/
theorem endless_iff_walk {cluster n : Nat} (hc : fs.Valid cluster) (hn : fs.clusterCount ≤ n) :
    Chain.Endless (link fs d) cluster ↔ ∃ next, Chain.walk (link fs d) n cluster = .ok next :=
  Chain.endless_iff (walk_mem_clusters hc) (Fat32.card_clusters.trans_le hn)

/-- what the driver makes of a link -/
def linkResult : Except ChainEnd Nat → Run FsError (Option Nat)
  | .ok next => .ok (some next)
  | .error .marker => .ok none
  | .error .corrupt => raise .corruptFat

/-- one word of a sector -/
theorem leU32_sector (lba : Nat) {offset : Nat} (h : offset + 3 < sectorSize) :
    (leU32 (d.sector lba).val offset : Run FsError Nat) = .ok (diskU32 d (lba * sectorSize + offset)) := by
  have hget : ∀ k, k < sectorSize →
      (get (d.sector lba).val k : Run FsError UInt8) = .ok (d.byte (lba * sectorSize + k)) := by
    intro k hk
    apply get_of_getElem?
    simp [RamDiskBlockDevice.sector, hk]
  unfold leU32
  rw [hget offset (by omega), bind_ok, hget (offset + 1) (by omega), bind_ok,
    hget (offset + 2) (by omega), bind_ok, hget (offset + 3) h, bind_ok, pure_eq, diskU32]
  simp only [Nat.add_assoc]

variable (h : fs.Ok total)
include h

theorem isValidCluster_valid (cluster : Nat) :
    isValidCluster fs cluster = .ok (decide (fs.Valid cluster)) :=
  isValidCluster_eq h cluster

/-- the slot of a cluster that the FAT has room for -/
theorem fatSlot_eq {cluster : Nat} (hc : fs.Valid cluster) :
    fatSlot fs cluster = if fs.sectorsPerFat * sectorSize ≤ 4 * cluster then raise .corruptFat
      else .ok (fs.fatStartSector + 4 * cluster / sectorSize, 4 * cluster % sectorSize) := by
  have hend := h.clusterEnd_lt
  have hlt : cluster < fs.clusterCount + 2 := hc.2
  have hfat := h.fat_le
  have hdata := h.data_lt
  have htotal := h.total_lt
  have hroom : fs.sectorsPerFat * sectorSize ≤ 4 * cluster ↔ cluster * 4 / sectorSize ≥ fs.sectorsPerFat := by
    unfold sectorSize
    omega
  unfold fatSlot
  rw [isValidCluster_valid h, bind_ok, decide_eq_true hc, rejectIf_of_not (by decide), bind_ok,
    Word.checkedMul_of_lt (by omega), okOr_some, bind_ok, div_of_pos (by norm_num [sectorSize]), bind_ok]
  by_cases hr : fs.sectorsPerFat * sectorSize ≤ 4 * cluster
  · rw [if_pos hr, rejectIf_of (hroom.mp hr)]
    rfl
  · have hs : ¬ cluster * 4 / sectorSize ≥ fs.sectorsPerFat := fun hs => hr (hroom.mpr hs)
    rw [if_neg hr, rejectIf_of_not hs, bind_ok, Nat.mod_eq_of_lt (by omega),
      Word.checkedAdd_of_lt (by omega), okOr_some, bind_ok, pure_eq, Nat.mul_comm cluster 4]

variable (hd : fs.device = d.device)
include hd

theorem nextCluster_eq {cluster : Nat} (hc : fs.Valid cluster) :
    nextCluster fs cluster = if fs.sectorsPerFat * sectorSize ≤ 4 * cluster then raise .corruptFat
      else .ok (fatEntry fs d cluster) := by
  have hfat := h.fat_le
  have hdata := h.data_lt
  unfold nextCluster
  rw [fatSlot_eq h hc]
  by_cases hr : fs.sectorsPerFat * sectorSize ≤ 4 * cluster
  · rw [if_pos hr, if_pos hr]
    rfl
  · have hlba : fs.fatStartSector + 4 * cluster / sectorSize < total := by
      unfold sectorSize at hr ⊢
      omega
    have hoff : 4 * cluster % sectorSize + 3 < sectorSize := by
      unfold sectorSize
      omega
    have haddr : (fs.fatStartSector + 4 * cluster / sectorSize) * sectorSize + 4 * cluster % sectorSize
        = fs.fatStartSector * sectorSize + 4 * cluster := by
      unfold sectorSize
      omega
    rw [if_neg hr, if_neg hr, bind_ok]
    show (readDevice fs.device _ >>= _) = _
    rw [readDevice_volume h hd hlba, bind_ok, leU32_sector _ hoff, bind_ok, pure_eq, haddr]
    rfl

/-- **the driver follows the links of the FAT** -/
theorem followLink_eq {cluster : Nat} (hc : fs.Valid cluster) :
    followLink fs cluster = linkResult (link fs d cluster) := by
  unfold followLink link
  rw [nextCluster_eq h hd hc]
  by_cases hr : fs.sectorsPerFat * sectorSize ≤ 4 * cluster
  · rw [if_pos hr, if_pos hr]
    rfl
  rw [if_neg hr, if_neg hr, bind_ok]
  by_cases he : fat32Eoc ≤ fatEntry fs d cluster
  · rw [if_pos he, if_pos he]
    rfl
  rw [if_neg he, if_neg he]
  unfold checkedNextCluster
  by_cases hb : fatEntry fs d cluster = fat32BadCluster
  · rw [if_pos hb, if_pos (.inl hb)]
    rfl
  rw [if_neg hb, isValidCluster_valid h, bind_ok]
  by_cases hv : fs.Valid (fatEntry fs d cluster)
  · rw [if_neg (fun hc => hc.elim hb (fun hn => hn hv)), decide_eq_true hv, rejectIf_of_not (by decide),
      bind_ok]
    rfl
  · rw [if_pos (.inr hv), decide_eq_false hv, rejectIf_of rfl]
    rfl

/-- **the driver reads the sectors of a cluster** -/
theorem readClusterSector_eq {cluster i : Nat} (hc : fs.Valid cluster) (hi : i < fs.sectorsPerCluster) :
    ∃ sector, readClusterSector fs cluster i = .ok sector ∧ sector.val = clusterSector fs d cluster i := by
  refine ⟨d.sector (clusterStart fs cluster + i), ?_, rfl⟩
  unfold readClusterSector
  rw [clusterToSector_valid h hc.1 hc.2 hi, bind_ok, readDevice_volume h hd (h.sector_lt hc.1 hc.2 hi)]
  rfl

end

end Fat
end SolOs
