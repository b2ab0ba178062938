import SolOs.Lib.Pieces
import SolOs.Fat32.Chain
import SolOs.Fat32.Safe

/-!
# FAT32: what `read_file` delivers

The two loops of `read_file` on the graph of `Fat32/Chain`: how many clusters the size of a file needs,
which of them are reached, and what the visitor is passed.

* `Fat32.clustersFor`        the clusters that a size needs;
* `readSectors_eq`, `readClusters_eq`   the loops in closed form;
* `fileSlices`, `fileResult`, `readFile_eq`   the same for a whole file;
* `readFile_streams_chain`   **a file is its chain, cut at its size.**
-/

set_option linter.unusedVariables false

namespace SolOs
namespace Fat
open Checked Storage Chain Pieces

/-! ## clusters of a size -/

/-- bytes of a cluster -/
def Fat32.clusterSize (fs : Fat32) : Nat := sectorSize * fs.sectorsPerCluster

/-- `ceil(size / clusterSize)` -/
def Fat32.clustersFor (fs : Fat32) (size : Nat) : Nat := (size + fs.clusterSize - 1) / fs.clusterSize

section
variable {fs : Fat32} {d : RamDiskBlockDevice} {total : Nat}

theorem Fat32.Ok.clusterSize_pos (h : fs.Ok total) : 0 < fs.clusterSize :=
  Nat.mul_pos (by norm_num [sectorSize]) h.sectorsPerCluster_pos

theorem clustersFor_zero (h : fs.Ok total) : fs.clustersFor 0 = 0 := by
  have hpos := h.clusterSize_pos
  exact Nat.div_eq_of_lt (by omega)

theorem clustersFor_of_le (h : fs.Ok total) {r : Nat} (hr : 0 < r) (hle : r ≤ fs.clusterSize) :
    fs.clustersFor r = 1 := by
  have hpos := h.clusterSize_pos
  have hone : r + fs.clusterSize - 1 = (r - 1) + fs.clusterSize := by omega
  rw [Fat32.clustersFor, hone, Nat.add_div_right _ hpos, Nat.div_eq_of_lt (by omega)]

theorem clustersFor_of_gt (h : fs.Ok total) {r : Nat} (hgt : fs.clusterSize < r) :
    fs.clustersFor r = fs.clustersFor (r - fs.clusterSize) + 1 := by
  have hpos := h.clusterSize_pos
  have hmore : r + fs.clusterSize - 1 = (r - fs.clusterSize + fs.clusterSize - 1) + fs.clusterSize := by
    omega
  rw [Fat32.clustersFor, hmore, Nat.add_div_right _ hpos, Fat32.clustersFor]

/-- the clusters hold the bytes, and one cluster less does not -/
theorem clustersFor_bounds (h : fs.Ok total) {r : Nat} (hr : 0 < r) :
    0 < fs.clustersFor r ∧ r ≤ fs.clusterSize * fs.clustersFor r ∧
      ∀ m < fs.clustersFor r, fs.clusterSize * m < r := by
  have hpos := h.clusterSize_pos
  have hdiv := Nat.div_add_mod (r + fs.clusterSize - 1) fs.clusterSize
  have hmod := Nat.mod_lt (r + fs.clusterSize - 1) hpos
  unfold Fat32.clustersFor
  refine ⟨Nat.div_pos (by omega) hpos, by omega, ?_⟩
  intro m hm
  have hle : fs.clusterSize * (m + 1) ≤ fs.clusterSize * ((r + fs.clusterSize - 1) / fs.clusterSize) :=
    Nat.mul_le_mul_left _ hm
  rw [Nat.mul_succ] at hle
  omega

/-! ## the loop over the sectors of a cluster -/

variable {σ : Type} (visit : σ → List UInt8 → σ) (size : Nat)

/-- the slices of the sectors are passed on until nothing remains; the early return of the source and
the test after the loop then give the same result -/
theorem readSectors_eq (h : fs.Ok total) (hd : fs.device = d.device) {cluster : Nat}
    (hc : fs.Valid cluster) (indices : List Nat) (hi : ∀ i ∈ indices, i < fs.sectorsPerCluster)
    (r : Nat) (s : σ) :
    ∃ o, readSectors fs visit size cluster indices (r, s)
        = (o, (r - sectorSize * indices.length,
          (shorten sectorSize r (indices.map (clusterSector fs d cluster))).foldl visit s)) ∧
      ∀ result, o = some result → result = .ok size ∧ r ≤ sectorSize * indices.length := by
  induction indices generalizing r s with
  | nil => exact ⟨none, by simp [readSectors], fun _ hn => nomatch hn⟩
  | cons i rest ih =>
    unfold readSectors
    by_cases h0 : r = 0
    · subst h0
      refine ⟨some (.ok size), by simp, ?_⟩
      intro result hresult
      exact ⟨(Option.some.inj hresult).symm, Nat.zero_le _⟩
    obtain ⟨sector, hread, hval⟩ := readClusterSector_eq h hd hc (hi i List.mem_cons_self)
    have hlen : min r sectorSize ≤ sector.val.length := by
      rw [sector.property]
      exact min_le_right _ _
    obtain ⟨o, ho, hsome⟩ := ih (fun j hj => hi j (List.mem_cons_of_mem _ hj)) (r - min r sectorSize)
      (visit s (sector.val.take (min r sectorSize)))
    refine ⟨o, ?_, ?_⟩
    · have hleft : r - min r sectorSize - sectorSize * rest.length
          = r - (sectorSize * rest.length + sectorSize) := by omega
      simp only [if_neg h0, hread, slice_of_le (Nat.zero_le _) hlen,
        sub_of_le (min_le_left r sectorSize), List.drop_zero]
      rw [ho, List.map_cons, shorten_cons h0, List.foldl_cons, ← hval, List.length_cons, Nat.mul_succ,
        hleft]
    · intro result hresult
      obtain ⟨hok, hle⟩ := hsome result hresult
      rw [List.length_cons, Nat.mul_succ]
      exact ⟨hok, by omega⟩

/-! ## the loop over the clusters -/

/-- what `read_file` answers after it has followed the links that it needs -/
def verdict (size needed rounds : Nat) : Except ChainEnd Nat → Run FsError Nat
  | .ok _ => if needed ≤ rounds then .ok size else raise .directoryLoop
  | .error .marker => raise .truncatedFile
  | .error .corrupt => raise .corruptFat

/-- the last cluster that is needed -/
theorem readClusters_of_le (h : fs.Ok total) (hd : fs.device = d.device) {cluster : Nat}
    (hc : fs.Valid cluster) {r : Nat} (hle : r ≤ fs.clusterSize) (rounds : Nat) (s : σ) :
    readClusters fs visit size (rounds + 1) cluster (r, s)
      = (.ok size, (r - fs.clusterSize,
        (shorten sectorSize r (clusterSectors fs d cluster)).foldl visit s)) := by
  obtain ⟨o, ho, hsome⟩ := readSectors_eq visit size h hd hc (List.range fs.sectorsPerCluster)
    (fun i hi => List.mem_range.mp hi) r s
  rw [List.length_range] at ho
  unfold readClusters
  rw [ho]
  cases o with
  | none => exact if_pos (Nat.sub_eq_zero_of_le hle)
  | some result =>
    rw [(hsome result rfl).1]
    rfl

/-- a cluster that is not the last: the link decides -/
theorem readClusters_of_gt (h : fs.Ok total) (hd : fs.device = d.device) {cluster : Nat}
    (hc : fs.Valid cluster) {r : Nat} (hgt : fs.clusterSize < r) (rounds : Nat) (s : σ) :
    readClusters fs visit size (rounds + 1) cluster (r, s)
      = (fun s' => match linkResult (link fs d cluster) with
          | .error f => (.error f, (r - fs.clusterSize, s'))
          | .ok none => (raise .truncatedFile, (r - fs.clusterSize, s'))
          | .ok (some next) => readClusters fs visit size rounds next (r - fs.clusterSize, s'))
        ((shorten sectorSize r (clusterSectors fs d cluster)).foldl visit s) := by
  obtain ⟨o, ho, hsome⟩ := readSectors_eq visit size h hd hc (List.range fs.sectorsPerCluster)
    (fun i hi => List.mem_range.mp hi) r s
  rw [List.length_range] at ho hsome
  have hnone : o = none := by
    cases o with
    | none => rfl
    | some result => exact absurd (hsome result rfl).2 (Nat.not_le.mpr hgt)
  have hmore : ¬ r - sectorSize * fs.sectorsPerCluster = 0 := by
    unfold Fat32.clusterSize at hgt
    omega
  rw [readClusters, ho, hnone]
  show (if r - sectorSize * fs.sectorsPerCluster = 0 then _ else _) = _
  rw [if_neg hmore, followLink_eq h hd hc]
  rfl

/-- **the loop over the clusters in closed form** -/
theorem readClusters_eq (h : fs.Ok total) (hd : fs.device = d.device) (rounds : Nat) {cluster : Nat}
    (hc : fs.Valid cluster) {r : Nat} (hr : 0 < r) (s : σ) :
    (readClusters fs visit size rounds cluster (r, s)).1
        = verdict size (fs.clustersFor r) rounds
          (walk (link fs d) (min (fs.clustersFor r - 1) rounds) cluster) ∧
      (readClusters fs visit size rounds cluster (r, s)).2.2
        = (shorten sectorSize r ((trail (link fs d) (min (fs.clustersFor r) rounds) cluster).flatMap
          (clusterSectors fs d))).foldl visit s := by
  induction rounds generalizing cluster r s with
  | zero =>
    have hneed := (clustersFor_bounds h hr).1
    refine ⟨?_, by simp [trail, readClusters]⟩
    rw [Nat.min_zero, walk_zero, verdict, if_neg (by omega)]
    rfl
  | succ rounds ih =>
    rcases Nat.lt_or_ge fs.clusterSize r with hgt | hle
    · rw [readClusters_of_gt visit size h hd hc hgt]
      have hneed := clustersFor_of_gt h hgt
      have hpos := (clustersFor_bounds h (Nat.sub_pos_of_lt hgt)).1
      have hwalk : min (fs.clustersFor r - 1) (rounds + 1)
          = min (fs.clustersFor (r - fs.clusterSize) - 1) rounds + 1 := by omega
      have htrail : min (fs.clustersFor r) (rounds + 1)
          = min (fs.clustersFor (r - fs.clusterSize)) rounds + 1 := by omega
      rw [hwalk, htrail]
      cases hl : link fs d cluster with
      | error e =>
        rw [walk_succ_of_error hl, trail_succ_of_error hl, List.flatMap_singleton]
        cases e <;> exact ⟨rfl, rfl⟩
      | ok next =>
        obtain ⟨h1, h2⟩ := ih (link_valid hl) (Nat.sub_pos_of_lt hgt)
          ((shorten sectorSize r (clusterSectors fs d cluster)).foldl visit s)
        rw [walk_succ_of_ok hl, trail_succ_of_ok hl, List.flatMap_cons, shorten_append,
          List.foldl_append, clusterSectors_length]
        refine ⟨h1.trans ?_, h2⟩
        have hround : fs.clustersFor r ≤ rounds + 1 ↔ fs.clustersFor (r - fs.clusterSize) ≤ rounds := by
          omega
        cases walk (link fs d) (min (fs.clustersFor (r - fs.clusterSize) - 1) rounds) next with
        | ok _ => simp only [verdict, hround]
        | error e => cases e <;> rfl
    · rw [readClusters_of_le visit size h hd hc hle, clustersFor_of_le h hr hle]
      have hone : min 1 (rounds + 1) = 0 + 1 := by omega
      refine ⟨?_, ?_⟩
      · rw [Nat.sub_self, Nat.zero_min, walk_zero, verdict, if_pos (by omega)]
      · rw [hone, trail_succ]
        simp

end

/-! ## whole files -/

section
variable (fs : Fat32) (d : RamDiskBlockDevice) (entry : DirEntry)

/-- the clusters that are read for a file -/
def fileClusters : List Nat :=
  trail (link fs d) (min (fs.clustersFor entry.size) (fs.clusterCount + 1)) entry.firstCluster

/-- what the visitor is passed -/
def fileSlices : List (List UInt8) :=
  shorten sectorSize entry.size ((fileClusters fs d entry).flatMap (clusterSectors fs d))

def fileResult : Run FsError Nat :=
  verdict entry.size (fs.clustersFor entry.size) (fs.clusterCount + 1)
    (walk (link fs d) (min (fs.clustersFor entry.size - 1) (fs.clusterCount + 1)) entry.firstCluster)

/-- the bytes of the clusters that the size needs, as far as the chain has them -/
def chainBytes : List UInt8 :=
  (trail (link fs d) (fs.clustersFor entry.size) entry.firstCluster).flatMap (clusterBytes fs d)

end

section
variable {fs : Fat32} {d : RamDiskBlockDevice} {total : Nat} {entry : DirEntry}

theorem length_of_mem_sectors {clusters : List Nat} {sector : List UInt8}
    (hs : sector ∈ clusters.flatMap (clusterSectors fs d)) : sector.length = sectorSize := by
  obtain ⟨c, _, hc⟩ := List.mem_flatMap.mp hs
  exact length_of_mem_clusterSectors fs d hc

theorem flatten_sectors_of (clusters : List Nat) :
    (clusters.flatMap (clusterSectors fs d)).flatten = clusters.flatMap (clusterBytes fs d) := by
  induction clusters with
  | nil => rfl
  | cons c clusters ih =>
    rw [List.flatMap_cons, List.flatten_append, ih, flatten_clusterSectors, List.flatMap_cons]

theorem length_flatMap_clusterBytes (clusters : List Nat) :
    (clusters.flatMap (clusterBytes fs d)).length = fs.clusterSize * clusters.length := by
  induction clusters with
  | nil => rfl
  | cons c clusters ih =>
    rw [List.flatMap_cons, List.length_append, ih, clusterBytes_length, List.length_cons, Nat.mul_succ,
      Nat.add_comm]
    rfl

theorem length_flatMap_clusterSectors (clusters : List Nat) :
    (clusters.flatMap (clusterSectors fs d)).length = fs.sectorsPerCluster * clusters.length := by
  induction clusters with
  | nil => rfl
  | cons c clusters ih =>
    rw [List.flatMap_cons, List.length_append, ih, clusterSectors_length, List.length_cons, Nat.mul_succ,
      Nat.add_comm]

theorem flatten_fileSlices :
    (fileSlices fs d entry).flatten
      = ((fileClusters fs d entry).flatMap (clusterBytes fs d)).take entry.size := by
  unfold fileSlices
  rw [shorten_flatten (fun _ hs => length_of_mem_sectors hs), flatten_sectors_of]

/-- **`read_file` once the path is resolved** -/
theorem readEntry_eq (h : fs.Ok total) (hd : fs.device = d.device) (hfile : entry.isDirectory = false)
    (hsize : 0 < entry.size) (hc : fs.Valid entry.firstCluster) {σ : Type}
    (visit : σ → List UInt8 → σ) (s : σ) :
    readEntry fs entry visit s = (fileResult fs d entry, (fileSlices fs d entry).foldl visit s) := by
  have hloop := readClusters_eq visit entry.size h hd (fs.clusterCount + 1) hc hsize s
  unfold readEntry
  rw [if_neg (by rw [hfile]; exact Bool.false_ne_true), if_neg hsize.ne', isValidCluster_valid h,
    decide_eq_true hc]
  exact Prod.ext hloop.1 hloop.2

theorem readFile_of_path {path : Text.Str} (hp : resolvePath fs path = .ok entry) {σ : Type}
    (visit : σ → List UInt8 → σ) (s : σ) : readFile fs path visit s = readEntry fs entry visit s := by
  unfold readFile
  rw [hp]

theorem readFile_eq (h : fs.Ok total) (hd : fs.device = d.device) {path : Text.Str}
    (hp : resolvePath fs path = .ok entry) (hfile : entry.isDirectory = false)
    (hsize : 0 < entry.size) (hc : fs.Valid entry.firstCluster) {σ : Type}
    (visit : σ → List UInt8 → σ) (s : σ) :
    readFile fs path visit s = (fileResult fs d entry, (fileSlices fs d entry).foldl visit s) := by
  rw [readFile_of_path hp]
  exact readEntry_eq h hd hfile hsize hc visit s

/-- a file that is read is empty or has a first cluster -/
theorem readFile_of_ok (h : fs.Ok total) {path : Text.Str} (hp : resolvePath fs path = .ok entry) {σ : Type}
    {visit : σ → List UInt8 → σ} {s : σ} {k : Nat} (hread : (readFile fs path visit s).1 = .ok k) :
    entry.isDirectory = false ∧ (entry.size ≠ 0 → fs.Valid entry.firstCluster) := by
  rw [readFile_of_path hp] at hread
  unfold readEntry at hread
  cases hdir : entry.isDirectory with
  | true =>
    rw [if_pos hdir] at hread
    cases hread
  | false =>
    refine ⟨rfl, ?_⟩
    intro hsize
    by_contra hc
    rw [if_neg (by rw [hdir]; exact Bool.false_ne_true), if_neg hsize, isValidCluster_valid h,
      decide_eq_false hc] at hread
    cases hread

/-- nothing is read of an empty file -/
theorem readFile_of_empty {path : Text.Str} (hp : resolvePath fs path = .ok entry)
    (hfile : entry.isDirectory = false) (hsize : entry.size = 0) {σ : Type}
    (visit : σ → List UInt8 → σ) (s : σ) : readFile fs path visit s = (.ok 0, s) := by
  rw [readFile_of_path hp]
  unfold readEntry
  rw [if_neg (by rw [hfile]; exact Bool.false_ne_true), if_pos hsize]

/-! ### the result -/

/-- a file is read iff its chain has the clusters and there are rounds for them -/
theorem fileResult_eq_ok_iff {k : Nat} :
    fileResult fs d entry = .ok k ↔ k = entry.size ∧ fs.clustersFor entry.size ≤ fs.clusterCount + 1 ∧
      ∃ c, walk (link fs d) (fs.clustersFor entry.size - 1) entry.firstCluster = .ok c := by
  unfold fileResult
  constructor
  · intro hok
    cases hw : walk (link fs d) (min (fs.clustersFor entry.size - 1) (fs.clusterCount + 1))
        entry.firstCluster with
    | error e =>
      rw [hw] at hok
      cases e <;> cases hok
    | ok c =>
      rw [hw, verdict] at hok
      by_cases hn : fs.clustersFor entry.size ≤ fs.clusterCount + 1
      · rw [if_pos hn] at hok
        rw [min_eq_left (by omega)] at hw
        exact ⟨(Except.ok.inj hok).symm, hn, c, hw⟩
      · rw [if_neg hn] at hok
        cases hok
  · intro ⟨hk, hn, c, hw⟩
    rw [min_eq_left (by omega), hw, verdict, if_pos hn, hk]

theorem fileClusters_of_le (hn : fs.clustersFor entry.size ≤ fs.clusterCount + 1) :
    fileClusters fs d entry = trail (link fs d) (fs.clustersFor entry.size) entry.firstCluster := by
  unfold fileClusters
  rw [min_eq_left hn]

/-- all the clusters of a file that is read -/
theorem length_trail_of_ok (h : fs.Ok total) (hsize : 0 < entry.size) {c : Nat}
    (hw : walk (link fs d) (fs.clustersFor entry.size - 1) entry.firstCluster = .ok c) :
    (trail (link fs d) (fs.clustersFor entry.size) entry.firstCluster).length
      = fs.clustersFor entry.size := by
  have hpos := (clustersFor_bounds h hsize).1
  have hlen := trail_length_of_walk hw
  rwa [Nat.sub_add_cancel hpos] at hlen

/-- a chain that ends too early: its last link gives the error -/
theorem fileResult_of_link (h : fs.Ok total) (hc : fs.Valid entry.firstCluster) {j c : Nat} {e : ChainEnd}
    (hj : j + 1 < fs.clustersFor entry.size) (hw : walk (link fs d) j entry.firstCluster = .ok c)
    (hl : link fs d c = .error e) :
    fileResult fs d entry = verdict entry.size (fs.clustersFor entry.size) (fs.clusterCount + 1)
      (.error e) := by
  have hend : ¬ Endless (link fs d) entry.firstCluster := by
    intro hend
    obtain ⟨c', hc'⟩ := hend (j + 1)
    rw [walk_error_of_link hw hl (Nat.lt_succ_self j)] at hc'
    cases hc'
  -- the chain is shorter than the loop guard
  have hshort : j < fs.clusterCount := by
    by_contra hlong
    exact hend ((endless_iff_walk hc (Nat.not_lt.mp hlong)).mpr ⟨c, hw⟩)
  unfold fileResult
  rw [walk_error_of_link hw hl (by omega)]

/-- what has been delivered when an error is returned: whole clusters, and fewer bytes than the size -/
theorem fileSlices_of_error (h : fs.Ok total) (hsize : 0 < entry.size) {f : Fault FsError}
    (hf : fileResult fs d entry = .error f) :
    (fileSlices fs d entry).flatten = (fileClusters fs d entry).flatMap (clusterBytes fs d) ∧
      (fileSlices fs d entry).flatten.length < entry.size := by
  obtain ⟨hpos, _, hless⟩ := clustersFor_bounds h hsize
  have hfew : (fileClusters fs d entry).length < fs.clustersFor entry.size := by
    rcases Nat.lt_or_ge (fs.clusterCount + 1) (fs.clustersFor entry.size) with hlong | hshort
    · have hle := trail_length_le (link fs d)
        (min (fs.clustersFor entry.size) (fs.clusterCount + 1)) entry.firstCluster
      unfold fileClusters
      omega
    · rw [fileClusters_of_le hshort]
      cases hw : walk (link fs d) (fs.clustersFor entry.size - 1) entry.firstCluster with
      | ok c =>
        rw [fileResult_eq_ok_iff.mpr ⟨rfl, hshort, c, hw⟩] at hf
        cases hf
      | error e =>
        have hlen := trail_length_of_error hw
        rw [Nat.sub_add_cancel hpos] at hlen
        omega
  have hlen := hless _ hfew
  rw [← length_flatMap_clusterBytes (d := d)] at hlen
  rw [flatten_fileSlices, List.take_of_length_le hlen.le]
  exact ⟨rfl, hlen⟩

/-! ### two disks -/

variable {d' : RamDiskBlockDevice}

theorem link_congr {c : Nat} (he : fatEntry fs d' c = fatEntry fs d c) : link fs d' c = link fs d c := by
  unfold link
  rw [he]

theorem clusterSectors_eq_chunks (c : Nat) :
    clusterSectors fs d c
      = (List.range fs.sectorsPerCluster).map
        (fun i => ((clusterBytes fs d c).drop (sectorSize * i)).take sectorSize) := by
  apply List.map_congr_left
  intro i hi
  rw [List.mem_range] at hi
  apply List.ext_getElem?
  intro k
  rw [List.getElem?_take, List.getElem?_drop]
  by_cases hk : k < sectorSize
  · have hin : sectorSize * i + k < sectorSize * fs.sectorsPerCluster := by
      have := Nat.mul_le_mul_left sectorSize hi
      rw [Nat.mul_succ] at this
      omega
    have haddr : (clusterStart fs c + i) * sectorSize + k = clusterStart fs c * sectorSize + (sectorSize * i + k) := by
      rw [Nat.add_mul, Nat.mul_comm i, Nat.add_assoc]
    simp [clusterSector, clusterBytes, RamDiskBlockDevice.sector, hk, hin, haddr]
  · simp [clusterSector, RamDiskBlockDevice.sector, hk]

theorem clusterSectors_congr {c : Nat} (hb : clusterBytes fs d' c = clusterBytes fs d c) :
    clusterSectors fs d' c = clusterSectors fs d c := by
  rw [clusterSectors_eq_chunks, clusterSectors_eq_chunks, hb]

/-- the volume on another disk of the same length -/
def Fat32.on (fs : Fat32) (d : RamDiskBlockDevice) : Fat32 := { fs with device := d.device }

theorem Fat32.Ok.on (h : fs.Ok total) (hd : fs.device = d.device) (hlen : d'.length = d.length) :
    (fs.on d').Ok total := by
  have hcount : (fs.on d').device.sectorCount = fs.device.sectorCount := by
    rw [hd]
    show d'.length / sectorSize = d.length / sectorSize
    rw [hlen]
  exact ⟨h.sectorsPerCluster_pos, h.fatStartSector_pos, h.sectorsPerFat_pos, h.fat_le, h.data_lt,
    hcount.symm ▸ h.total_le, h.total_lt, h.clusterCount_eq, h.clusterCount_ge, h.root_ge, h.root_lt⟩

/-- the links between the clusters of a file and the contents of these clusters are all that matters -/
theorem file_congr (h : fs.Ok total) (hsize : 0 < entry.size)
    (hn : fs.clustersFor entry.size ≤ fs.clusterCount + 1)
    (hlinks : ∀ c ∈ trail (link fs d) (fs.clustersFor entry.size - 1) entry.firstCluster,
      fatEntry fs d' c = fatEntry fs d c)
    (hbytes : ∀ c ∈ trail (link fs d) (fs.clustersFor entry.size) entry.firstCluster,
      clusterBytes fs d' c = clusterBytes fs d c) :
    fileResult fs d' entry = fileResult fs d entry ∧ fileSlices fs d' entry = fileSlices fs d entry := by
  have hpos := (clustersFor_bounds h hsize).1
  have hlink : ∀ c ∈ trail (link fs d) (fs.clustersFor entry.size - 1) entry.firstCluster,
      link fs d' c = link fs d c := fun c hc => link_congr (hlinks c hc)
  have hwalk := walk_congr hlink _ le_rfl
  have htrail := trail_congr hlink
  rw [Nat.sub_add_cancel hpos] at htrail
  constructor
  · unfold fileResult
    rw [min_eq_left (by omega), hwalk]
  · unfold fileSlices
    rw [fileClusters_of_le hn, fileClusters_of_le hn, htrail,
      List.flatMap_congr (fun c hc => clusterSectors_congr (hbytes c hc))]

end

/-- **a file is its chain, cut at its size.**  On a mounted volume, for a path that leads to a file with
`n` clusters to read: when the file is read, its size is returned and the visitor is passed the first
`size` bytes of the clusters, sector by sector; it is read whenever the chain has the `n` clusters,
whatever the link of the last one is; a chain that ends earlier gives the error of its last link; and
in case of an error only a part of the bytes has been delivered. -/
theorem readFile_streams_chain (d : RamDiskBlockDevice) (fs : Fat32) (hm : mount d.device = .ok fs)
    (path : Text.Str) (entry : DirEntry) (hp : resolvePath fs path = .ok entry)
    (hfile : entry.isDirectory = false) (hsize : 0 < entry.size) (hc : fs.Valid entry.firstCluster) :
    ∃ (result : Run FsError Nat) (slices : List (List UInt8)),
      (∀ (σ : Type) (visit : σ → List UInt8 → σ) (s : σ),
        readFile fs path visit s = (result, slices.foldl visit s)) ∧
      (∀ k, result = .ok k →
        k = entry.size ∧
        (trail (link fs d) (fs.clustersFor entry.size) entry.firstCluster).length
          = fs.clustersFor entry.size ∧
        slices.flatten = (chainBytes fs d entry).take entry.size ∧
        slices.length = (entry.size + sectorSize - 1) / sectorSize ∧
        ∀ slice ∈ slices.dropLast, slice.length = sectorSize) ∧
      ((∃ c, walk (link fs d) (fs.clustersFor entry.size - 1) entry.firstCluster = .ok c) →
        fs.clustersFor entry.size ≤ fs.clusterCount + 1 →
        result = .ok entry.size ∧
        ∀ d' : RamDiskBlockDevice, d'.length = d.length →
          (∀ c ∈ trail (link fs d) (fs.clustersFor entry.size - 1) entry.firstCluster,
            fatEntry fs d' c = fatEntry fs d c) →
          (∀ c ∈ trail (link fs d) (fs.clustersFor entry.size) entry.firstCluster,
            clusterBytes fs d' c = clusterBytes fs d c) →
          ∀ (σ : Type) (visit : σ → List UInt8 → σ) (s : σ),
            readEntry (fs.on d') entry visit s = (.ok entry.size, slices.foldl visit s)) ∧
      (∀ j c, j + 1 < fs.clustersFor entry.size → walk (link fs d) j entry.firstCluster = .ok c →
        (link fs d c = .error .marker → result = raise .truncatedFile) ∧
        (link fs d c = .error .corrupt → result = raise .corruptFat)) ∧
      (∀ f, result = .error f →
        (∃ rest, chainBytes fs d entry = slices.flatten ++ rest) ∧
        slices.flatten.length < entry.size) := by
  obtain ⟨b, _, hd, h⟩ := mount_ok hm
  obtain ⟨hpos, hroom, _⟩ := clustersFor_bounds h hsize
  refine ⟨fileResult fs d entry, fileSlices fs d entry,
    fun σ visit s => readFile_eq h hd hp hfile hsize hc visit s, ?_, ?_, ?_, ?_⟩
  · intro k hk
    obtain ⟨hk, hn, c, hw⟩ := fileResult_eq_ok_iff.mp hk
    have hlen := length_trail_of_ok h hsize hw
    refine ⟨hk, hlen, ?_, ?_, ?_⟩
    · rw [flatten_fileSlices, fileClusters_of_le hn, chainBytes]
    · apply shorten_length (by norm_num [sectorSize])
      rw [length_flatMap_clusterSectors, fileClusters_of_le hn, hlen, ← Nat.mul_assoc]
      exact hroom
    · exact length_of_mem_dropLast_shorten (fun _ hs => length_of_mem_sectors hs)
  · intro hw hn
    have hok : fileResult fs d entry = .ok entry.size := fileResult_eq_ok_iff.mpr ⟨rfl, hn, hw⟩
    refine ⟨hok, ?_⟩
    intro d' hlen hlinks hbytes σ visit s
    obtain ⟨hresult, hslices⟩ := file_congr h hsize hn hlinks hbytes
    rw [← hok, ← hresult, ← hslices]
    exact readEntry_eq (h.on hd hlen) rfl hfile hsize hc visit s
  · intro j c hj hw
    constructor
    · intro hl
      exact fileResult_of_link h hc hj hw hl
    · intro hl
      exact fileResult_of_link h hc hj hw hl
  · intro f hf
    obtain ⟨hall, hlen⟩ := fileSlices_of_error h hsize hf
    refine ⟨?_, hlen⟩
    obtain ⟨rest, hrest⟩ := trail_initial (link fs d)
      (min_le_left (fs.clustersFor entry.size) (fs.clusterCount + 1)) entry.firstCluster
    refine ⟨rest.flatMap (clusterBytes fs d), ?_⟩
    rw [chainBytes, hrest, List.flatMap_append, hall]
    rfl

theorem fileDisk_sectors : 0 < 66038 := by norm_num

/-- a volume like `smallVolume`, whose root directory holds a file `F` that starts at cluster 3; `next`
is the FAT entry of that cluster -/
def fileDisk (next : UInt8) (size : UInt8 × UInt8) (content : List (Nat × UInt8)) : RamDiskBlockDevice :=
  sparseDisk 66038 fileDisk_sectors <|
    [(12, 0x02), (13, 0x01), (14, 0x01), (16, 0x01), (32, 0xf6), (33, 0x01), (34, 0x01), (37, 0x02),
      (44, 0x02), (510, 0x55), (511, 0xaa), (524, next)]
    ++ nameField (513 * 512) (0x46 :: List.replicate 10 0x20)
    ++ [(513 * 512 + 26, 0x03), (513 * 512 + 28, size.1), (513 * 512 + 29, size.2)]
    ++ content

/-- the volume `fs` on `d` has a file `F` of this size, which starts at cluster 3 -/
structure HoldsFile (d : RamDiskBlockDevice) (fs : Fat32) (size next : Nat) : Prop where
  mount_eq : mount d.device = .ok fs
  link_eq : link fs d 3 = .ok next
  file : ∃ e, resolvePath fs ['F'] = .ok e ∧ e.size = size ∧ e.firstCluster = 3 ∧ e.isDirectory = false

/-- the numbers to compute for it -/
theorem holdsFile_of_fields {d : RamDiskBlockDevice} {fs : Fat32} {size next : Nat}
    (hfs : fs = ⟨d.device, 1, 1, 512, 513, 2, 65525⟩)
    (hm : (mount d.device).toOption.map (fun fs => (fs.sectorsPerCluster, fs.fatStartSector,
        fs.sectorsPerFat, fs.firstDataSector, fs.rootCluster, fs.clusterCount))
        = some (1, 1, 512, 513, 2, 65525) ∧
      (link fs d 3).toOption = some next ∧
      (resolvePath fs ['F']).toOption.map (fun e => (e.size, e.firstCluster, e.isDirectory))
        = some (size, 3, false)) : HoldsFile d fs size next := by
  obtain ⟨hmount, hlink, hfile⟩ := hm
  refine ⟨hfs ▸ mount_of_fields hmount, eq_ok_of_toOption hlink, ?_⟩
  cases hp : resolvePath fs ['F'] with
  | error f =>
    rw [hp] at hfile
    cases hfile
  | ok e =>
    rw [hp] at hfile
    have heq : (e.size, e.firstCluster, e.isDirectory) = (size, 3, false) := Option.some.inj hfile
    exact ⟨e, rfl, congrArg (·.1) heq, congrArg (·.2.1) heq, congrArg (·.2.2) heq⟩

/-- a file of two clusters is read -/
theorem HoldsFile.reads {d : RamDiskBlockDevice} {fs : Fat32} {size next : Nat}
    (h : HoldsFile d fs size next) (hvalid : fs.Valid 3) (hneed : fs.clustersFor size = 2) :
    ∃ e, resolvePath fs ['F'] = .ok e ∧ e.size = size ∧ e.firstCluster = 3 ∧
      ∀ {σ : Type} (visit : σ → List UInt8 → σ) (s : σ),
        readFile fs ['F'] visit s = (.ok size, (fileSlices fs d e).foldl visit s) := by
  obtain ⟨_, _, hd, hok⟩ := mount_ok h.mount_eq
  obtain ⟨e, hp, hsize, hfirst, hfile⟩ := h.file
  have hpos : 0 < e.size := by
    rw [hsize, Nat.pos_iff_ne_zero]
    rintro rfl
    rw [clustersFor_zero hok] at hneed
    cases hneed
  have hwalk : walk (link fs d) 1 3 = .ok next := walk_succ_of_ok h.link_eq 0
  have hresult : fileResult fs d e = .ok size := by
    have hcount := hok.clusterCount_ge
    rw [fileResult_eq_ok_iff, hsize, hfirst, hneed]
    exact ⟨rfl, by omega, next, hwalk⟩
  refine ⟨e, hp, hsize, hfirst, ?_⟩
  intro σ visit s
  rw [readFile_eq hok hd hp hfile hpos (hfirst.symm ▸ hvalid), hresult]

/-- a file of 513 bytes in the clusters 3 and 4 -/
def chainDisk : RamDiskBlockDevice := fileDisk 0x04 (0x01, 0x02) []

def chainVolume : Fat32 := ⟨chainDisk.device, 1, 1, 512, 513, 2, 65525⟩

theorem chainDisk_holds : HoldsFile chainDisk chainVolume 513 4 :=
  holdsFile_of_fields rfl (by decide +kernel)

theorem readFile_streams_chain_chainDisk :
    ∃ slices : List (List UInt8), slices.length = 2 ∧
      ∀ (σ : Type) (visit : σ → List UInt8 → σ) (s : σ),
        readFile chainVolume ['F'] visit s = (.ok 513, slices.foldl visit s) := by
  obtain ⟨e, hp, hsize, hfirst, hfile⟩ := chainDisk_holds.file
  have hvalid : chainVolume.Valid 3 := by decide
  have hwalk : walk (link chainVolume chainDisk) 1 3 = .ok 4 := walk_succ_of_ok chainDisk_holds.link_eq 0
  have hneed : chainVolume.clustersFor 513 = 2 := by decide
  obtain ⟨result, slices, hread, hok, hdone, _⟩ := readFile_streams_chain chainDisk chainVolume
    chainDisk_holds.mount_eq ['F'] e hp hfile (by rw [hsize]; norm_num) (hfirst.symm ▸ hvalid)
  rw [hsize, hfirst, hneed] at hdone
  have hresult := (hdone ⟨4, hwalk⟩ (by decide)).1
  obtain ⟨_, _, _, hcount, _⟩ := hok 513 hresult
  rw [hsize] at hcount
  refine ⟨slices, hcount, ?_⟩
  intro σ visit s
  rw [hread, hresult]

end Fat
end SolOs
