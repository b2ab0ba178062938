import SolOs.Fat32.Scan

/-!
# FAT32: files on cyclic chains

The loop guard of `read_file` counts rounds, but the loop is left as soon as the size of the file is
reached.  A corrupt chain that runs into itself is therefore noticed only when the size needs more
clusters than the guard has rounds.

* `chainClusters`            the different clusters of a chain;
* `clusterLbas_nodup`        the sectors of different clusters are different;
* `delivers_of_read`         what every visitor is passed, by the numbers of the sectors;
* `readFile_distinct_iff`    **when the clusters of a file that is read are distinct**;
* `loopDisk`                 a file that is read although its only cluster is delivered twice.
-/

set_option linter.unusedVariables false

namespace SolOs
namespace Fat
open Checked Storage Chain

section
variable (fs : Fat32) (d : RamDiskBlockDevice)

/-- the different clusters of a chain -/
def chainClusters (start : Nat) : Finset Nat := (trail (link fs d) (fs.clusterCount + 1) start).toFinset

/-- the sectors that are delivered for `n` bytes from `start` on -/
def deliveredLbas (n start : Nat) : List Nat :=
  (trailLbas d fs (fs.clustersFor n) start).take ((n + sectorSize - 1) / sectorSize)

/-- what stands in these sectors, the last one cut at `n` -/
def deliveredSlices (n start : Nat) : List (List UInt8) :=
  Pieces.shorten sectorSize n ((deliveredLbas fs d n start).map fun lba => (d.sector lba).val)

end

section
variable {fs : Fat32} {d : RamDiskBlockDevice} {total : Nat} {start : Nat}

theorem mem_chainClusters_of_endless (hc : fs.Valid start) (hend : Endless (link fs d) start) (c : Nat) :
    c ∈ chainClusters fs d start ↔ ∃ k, walk (link fs d) k start = .ok c := by
  unfold chainClusters
  rw [List.mem_toFinset]
  constructor
  · intro hmem
    obtain ⟨k, _, hk⟩ := mem_trail.mp hmem
    exact ⟨k, hk⟩
  · intro ⟨k, hk⟩
    exact mem_trail_of_endless hc hend hk

/-- the clusters of an endless chain are distinct for as long as there are new ones -/
theorem nodup_iff_of_endless (hc : fs.Valid start) (hend : Endless (link fs d) start) (n : Nat) :
    (trail (link fs d) n start).Nodup ↔ n ≤ (chainClusters fs d start).card :=
  nodup_trail_iff hend _ (mem_chainClusters_of_endless hc hend) n

theorem clusterLbas_nodup (c : Nat) : (clusterLbas fs c).Nodup := by
  apply List.Nodup.map_on _ List.nodup_range
  intro i _ j _ hij
  exact Nat.add_left_cancel hij

/-- the sectors of different clusters are different -/
theorem lbas_nodup (h : fs.Ok total) {clusters : List Nat} (hv : ∀ c ∈ clusters, fs.Valid c)
    (hnd : clusters.Nodup) : (clusters.flatMap (clusterLbas fs)).Nodup := by
  rw [List.nodup_flatMap]
  refine ⟨fun c _ => clusterLbas_nodup c, ?_⟩
  apply hnd.imp_of_mem
  intro c c' hc hc' hne lba hlba hlba'
  obtain ⟨i, hi, rfl⟩ := List.mem_map.mp hlba
  obtain ⟨i', hi', heq⟩ := List.mem_map.mp hlba'
  rw [List.mem_range] at hi hi'
  exact hne (clusterToSector_inj h (hv c hc).1 (hv c' hc').1 hi hi' heq.symm).1

/-- distinct clusters are at most all clusters -/
theorem length_le_of_nodup {clusters : List Nat} (hv : ∀ c ∈ clusters, fs.Valid c)
    (hnd : clusters.Nodup) : clusters.length ≤ fs.clusterCount := by
  have hsub : clusters.toFinset ⊆ fs.clusters := by
    intro c hc
    exact mem_clusters.mpr (hv c (List.mem_toFinset.mp hc))
  have hcard := Finset.card_le_card hsub
  rwa [List.toFinset_card_of_nodup hnd, Fat32.card_clusters] at hcard

theorem valid_of_mem_trail (hc : fs.Valid start) {n c : Nat} (hmem : c ∈ trail (link fs d) n start) :
    fs.Valid c := by
  obtain ⟨k, _, hk⟩ := mem_trail.mp hmem
  exact walk_valid hc hk

/-- what a file that is read delivers: sectors that are distinct when its clusters are -/
theorem distinct_of_nodup (h : fs.Ok total) (hc : fs.Valid start) {size : Nat} (hsize : 0 < size)
    (hlen : (trail (link fs d) (fs.clustersFor size) start).length = fs.clustersFor size)
    (hnd : (trail (link fs d) (fs.clustersFor size) start).Nodup) :
    (deliveredLbas fs d size start).Nodup ∧ size ≤ fs.clusterCount * fs.sectorsPerCluster * sectorSize := by
  have hv : ∀ c ∈ trail (link fs d) (fs.clustersFor size) start, fs.Valid c :=
    fun c hmem => valid_of_mem_trail hc hmem
  constructor
  · exact (List.take_sublist _ _).nodup (lbas_nodup h hv hnd)
  · have hroom := (clustersFor_bounds h hsize).2.1
    have hcount := length_le_of_nodup hv hnd
    rw [hlen] at hcount
    calc size ≤ fs.clusterSize * fs.clustersFor size := hroom
      _ ≤ fs.clusterSize * fs.clusterCount := Nat.mul_le_mul_left _ hcount
      _ = fs.clusterCount * fs.sectorsPerCluster * sectorSize := by
        rw [Fat32.clusterSize, Nat.mul_comm, Nat.mul_comm sectorSize, Nat.mul_assoc]

/-- the path leads to a file that is read: the sectors of its clusters, one after the other, are what every visitor
is passed -/
structure Delivers (fs : Fat32) (d : RamDiskBlockDevice) (path : Text.Str) (n start : Nat) : Prop where
  calls : ∀ (σ : Type) (visit : σ → List UInt8 → σ) (s : σ),
    readFile fs path visit s = (.ok n, (deliveredSlices fs d n start).foldl visit s)
  clusters : (trail (link fs d) (fs.clustersFor n) start).length = fs.clustersFor n
  sectors : (deliveredLbas fs d n start).length = (n + sectorSize - 1) / sectorSize

/-- the clusters of a file that is read and the sectors that are delivered are distinct, and fit the volume -/
def ReadsDistinct (fs : Fat32) (d : RamDiskBlockDevice) (path : Text.Str) : Prop :=
  ∀ (σ : Type) (visit : σ → List UInt8 → σ) (s : σ) (n : Nat) (entry : DirEntry),
    resolvePath fs path = .ok entry → (readFile fs path visit s).1 = .ok n →
    Delivers fs d path n entry.firstCluster ∧
      (trail (link fs d) (fs.clustersFor n) entry.firstCluster).Nodup ∧
      (deliveredLbas fs d n entry.firstCluster).Nodup ∧
      n ≤ fs.clusterCount * fs.sectorsPerCluster * sectorSize

theorem map_clusterLbas (c : Nat) :
    (clusterLbas fs c).map (fun lba => (d.sector lba).val) = clusterSectors fs d c := by
  unfold clusterLbas clusterSectors
  rw [List.map_map]
  rfl

theorem deliveredSlices_eq (n start : Nat) :
    deliveredSlices fs d n start
      = Pieces.shorten sectorSize n ((trail (link fs d) (fs.clustersFor n) start).flatMap (clusterSectors fs d)) := by
  unfold deliveredSlices deliveredLbas trailLbas
  rw [List.map_take, Pieces.shorten_take (by decide), List.map_flatMap]
  simp only [map_clusterLbas]

/-- an empty file needs no cluster -/
theorem delivers_of_empty (h : fs.Ok total) {path : Text.Str} {entry : DirEntry}
    (hp : resolvePath fs path = .ok entry) (hfile : entry.isDirectory = false) (hsize : entry.size = 0) (start : Nat) :
    Delivers fs d path 0 start where
  calls σ visit s := by
    rw [readFile_of_empty hp hfile hsize, deliveredSlices, Pieces.shorten_zero]
    rfl
  clusters := by
    rw [clustersFor_zero h]
    rfl
  sectors := by
    unfold deliveredLbas
    rw [show (0 + sectorSize - 1) / sectorSize = 0 from rfl, List.take_zero]
    rfl

/-- **a file that is read is delivered sector by sector** -/
theorem delivers_of_read (h : fs.Ok total) (hd : fs.device = d.device) {path : Text.Str} {entry : DirEntry}
    (hp : resolvePath fs path = .ok entry) (hfile : entry.isDirectory = false) (hsize : 0 < entry.size)
    (hc : fs.Valid entry.firstCluster) (hok : fileResult fs d entry = .ok entry.size) :
    Delivers fs d path entry.size entry.firstCluster := by
  obtain ⟨_, hn, c, hw⟩ := fileResult_eq_ok_iff.mp hok
  have hlen := length_trail_of_ok h hsize hw
  refine ⟨?_, hlen, ?_⟩
  · intro σ visit s
    rw [readFile_eq h hd hp hfile hsize hc, hok, deliveredSlices_eq, fileSlices, fileClusters_of_le hn]
  · -- the clusters have room for the size, so there are sectors enough
    have hroom := (clustersFor_bounds h hsize).2.1
    have hcount : (trailLbas d fs (fs.clustersFor entry.size) entry.firstCluster).length
        = fs.sectorsPerCluster * fs.clustersFor entry.size := by
      have hsectors : ((trail (link fs d) (fs.clustersFor entry.size) entry.firstCluster).flatMap
          (clusterSectors fs d)).length = fs.sectorsPerCluster * fs.clustersFor entry.size := by
        rw [length_flatMap_clusterSectors, hlen]
      rw [← hsectors, trailLbas, List.length_flatMap, List.length_flatMap]
      simp only [clusterLbas, clusterSectors, List.length_map]
    unfold deliveredLbas
    rw [List.length_take, hcount, min_eq_left]
    rw [Fat32.clusterSize, Nat.mul_assoc] at hroom
    generalize fs.sectorsPerCluster * fs.clustersFor entry.size = m at hroom ⊢
    unfold sectorSize at hroom ⊢
    omega

/-- nothing is there twice in an empty file -/
theorem distinct_of_empty (h : fs.Ok total) (start : Nat) :
    (trail (link fs d) (fs.clustersFor 0) start).Nodup ∧ (deliveredLbas fs d 0 start).Nodup ∧
      0 ≤ fs.clusterCount * fs.sectorsPerCluster * sectorSize := by
  unfold deliveredLbas trailLbas
  rw [clustersFor_zero h]
  exact ⟨List.nodup_nil, by simp [trail], Nat.zero_le _⟩

/-- the sizes for which a cyclic chain does no harm: they need no cluster twice, or so many that the
loop guard notices -/
def SizeFits (fs : Fat32) (d : RamDiskBlockDevice) (entry : DirEntry) : Prop :=
  Endless (link fs d) entry.firstCluster →
    fs.clustersFor entry.size ≤ (chainClusters fs d entry.firstCluster).card ∨
      fs.clusterCount + 1 < fs.clustersFor entry.size

theorem nodup_of_sizeFits (hc : fs.Valid start) {entry : DirEntry} (hstart : entry.firstCluster = start)
    (hfits : SizeFits fs d entry) (hn : fs.clustersFor entry.size ≤ fs.clusterCount + 1) :
    (trail (link fs d) (fs.clustersFor entry.size) start).Nodup := by
  subst hstart
  by_cases hend : Endless (link fs d) entry.firstCluster
  · rcases hfits hend with hle | hgt
    · exact (nodup_iff_of_endless hc hend _).mpr hle
    · omega
  · exact nodup_trail_of_acyclic (acyclic_of_not_endless hend) _

end

/-- **when the clusters of a file that is read are distinct**: exactly when the size of the file asks for
at most as many clusters as its chain has different ones, or for so many that the loop guard notices -/
theorem readFile_distinct_iff (d : RamDiskBlockDevice) (fs : Fat32) (hm : mount d.device = .ok fs)
    (path : Text.Str) :
    ReadsDistinct fs d path ↔
      ∀ entry, resolvePath fs path = .ok entry → entry.isDirectory = false →
        fs.Valid entry.firstCluster → SizeFits fs d entry := by
  obtain ⟨b, _, hd, h⟩ := mount_ok hm
  constructor
  · intro hdistinct entry hp hfile hc hend
    rcases Nat.eq_zero_or_pos entry.size with h0 | hsize
    · left
      rw [h0, clustersFor_zero h]
      exact Nat.zero_le _
    rcases Nat.lt_or_ge (fs.clusterCount + 1) (fs.clustersFor entry.size) with hgt | hle
    · exact .inr hgt
    · left
      have hok := fileResult_eq_ok_iff.mpr ⟨rfl, hle, hend (fs.clustersFor entry.size - 1)⟩
      have hread := readFile_eq h hd hp hfile hsize hc (fun _ _ => ()) ()
      rw [hok] at hread
      exact (nodup_iff_of_endless hc hend _).mp
        (hdistinct Unit (fun _ _ => ()) () entry.size entry hp (by rw [hread])).2.1
  · intro hfits σ visit s n entry hp hread
    obtain ⟨hfile, hvalid⟩ := readFile_of_ok h hp hread
    rcases Nat.eq_zero_or_pos entry.size with h0 | hsize
    · rw [readFile_of_empty hp hfile h0] at hread
      obtain rfl : 0 = n := Except.ok.inj hread
      exact ⟨delivers_of_empty h hp hfile h0 _, distinct_of_empty h _⟩
    · have hc := hvalid hsize.ne'
      rw [readFile_eq h hd hp hfile hsize hc] at hread
      obtain ⟨rfl, hn, c, hw⟩ := fileResult_eq_ok_iff.mp hread
      have hnodup := nodup_of_sizeFits hc rfl (hfits entry hp hfile hc) hn
      have hdelivers := delivers_of_read h hd hp hfile hsize hc hread
      exact ⟨hdelivers, hnodup, distinct_of_nodup h hc hsize hdelivers.clusters hnodup⟩

theorem readFile_distinct_iff_chainDisk : ReadsDistinct chainVolume chainDisk ['F'] := by
  apply (readFile_distinct_iff chainDisk chainVolume chainDisk_holds.mount_eq ['F']).mpr
  intro entry hp _ _ hend
  obtain ⟨e, hp', _, hfirst, _⟩ := chainDisk_holds.file
  obtain rfl : e = entry := Except.ok.inj (hp'.symm.trans hp)
  -- the chain of the file has two clusters
  have hlast : (link chainVolume chainDisk 4).toOption = none := by decide +kernel
  obtain ⟨c, hw⟩ := hend 2
  rw [hfirst, walk_succ_of_ok chainDisk_holds.link_eq] at hw
  cases hl : link chainVolume chainDisk 4 with
  | ok next =>
    rw [hl] at hlast
    cases hlast
  | error f =>
    rw [walk_succ_of_error hl] at hw
    cases hw

/-- a file of 1024 bytes on the cluster 3, whose FAT entry points to itself -/
def loopDisk : RamDiskBlockDevice := fileDisk 0x03 (0x00, 0x04) []

def loopVolume : Fat32 := ⟨loopDisk.device, 1, 1, 512, 513, 2, 65525⟩

theorem loopDisk_holds : HoldsFile loopDisk loopVolume 1024 3 :=
  holdsFile_of_fields rfl (by decide +kernel)

theorem loopDisk_trail : trail (link loopVolume loopDisk) (loopVolume.clustersFor 1024) 3 = [3, 3] := by
  rw [show loopVolume.clustersFor 1024 = 0 + 1 + 1 by decide, trail_succ_of_ok loopDisk_holds.link_eq,
    trail_succ_of_ok loopDisk_holds.link_eq]
  rfl

/-- the file is read, and its only sector, 514, is passed to the visitor twice -/
theorem loopVolume_reads_twice :
    mount loopDisk.device = .ok loopVolume ∧
      deliveredLbas loopVolume loopDisk 1024 3 = [514, 514] ∧
      readFile loopVolume ['F'] (fun calls slice => calls ++ [slice]) []
        = (.ok 1024, [(loopDisk.sector 514).val, (loopDisk.sector 514).val]) ∧
      ¬ ReadsDistinct loopVolume loopDisk ['F'] := by
  obtain ⟨e, hp, hsize, hfirst, hreads⟩ := loopDisk_holds.reads (by decide) (by decide)
  have hlbas : deliveredLbas loopVolume loopDisk 1024 3 = [514, 514] := by
    unfold deliveredLbas trailLbas
    rw [loopDisk_trail]
    rfl
  have hslices : fileSlices loopVolume loopDisk e = [(loopDisk.sector 514).val, (loopDisk.sector 514).val] := by
    have hle : loopVolume.clustersFor e.size ≤ loopVolume.clusterCount + 1 := by
      rw [hsize]
      decide
    have hlen := (loopDisk.sector 514).property
    rw [fileSlices, fileClusters_of_le hle, hsize, hfirst, ← deliveredSlices_eq, deliveredSlices, hlbas, List.map_cons,
      List.map_singleton, Pieces.shorten_cons (by norm_num), Pieces.shorten_cons (by decide),
      show min 1024 sectorSize = sectorSize from rfl, show min (1024 - sectorSize) sectorSize = sectorSize from rfl,
      List.take_of_length_le hlen.le]
    rfl
  have hread := hreads (fun calls slice => calls ++ [slice]) []
  rw [hslices] at hread
  refine ⟨loopDisk_holds.mount_eq, hlbas, hread, ?_⟩
  intro hdistinct
  have hnd := (hdistinct _ _ [] 1024 e hp (by rw [hread])).2.2.1
  rw [hfirst, hlbas] at hnd
  exact (List.nodup_cons.mp hnd).1 List.mem_cons_self

end Fat
end SolOs
