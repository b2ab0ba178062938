import SolOs.Fat32.Tree

/-!
# FAT32: a mounted volume is safe to use

Whatever the bytes of the RAM disk are, `mount` ends without a panic, and on a volume that it accepts
no operation panics or reads past the end of the disk.

* `visitDirectory_avoids`, `resolvePath_avoids`, `listDir_avoids`, `readFile_avoids`
                          no panic and no device error, one lemma for each loop;
* `nextCluster_congr`     the FAT lookup reads the first FAT only;
* `mounted_volume_safe`   **the guarantees of a mounted volume.**
-/

set_option linter.unusedVariables false

namespace SolOs
namespace Fat
open Checked Storage

/-- the failure that the caller sees as an error of the disk -/
def DeviceFails {α : Type} (r : Run FsError α) : Prop := ∃ e, r = .error (.err (.device e))

theorem not_panics {α : Type} {r : Run FsError α} (h : Avoids Bad r) : ¬ Panics r := by
  rintro ⟨p, hp⟩
  exact h _ hp trivial

theorem not_deviceFails {α : Type} {r : Run FsError α} (h : Avoids Bad r) : ¬ DeviceFails r := by
  rintro ⟨e, he⟩
  exact h _ he trivial

/-! ## directories -/

section
variable {σ : Type} {fs : Fat32} {d : RamDiskBlockDevice} {total : Nat}

theorem visitRecords_avoids (visit : σ → DirEntry → Bool × σ) {raws : List (List UInt8)}
    (h : ∀ raw ∈ raws, raw.length = 32) (s : σ) :
    ∀ r, (visitRecords visit raws s).1 = some r → Avoids Bad r := by
  induction raws generalizing s with
  | nil => exact fun r hr => nomatch hr
  | cons raw raws ih =>
    have ih := ih (fun r hr => h r (List.mem_cons_of_mem _ hr))
    obtain ⟨rec, hrec, _⟩ := classify_spec (h raw List.mem_cons_self)
    unfold visitRecords
    rw [hrec]
    cases rec with
    | last =>
      rintro _ ⟨⟩
      exact Avoids.ok ()
    | skip => exact ih s
    | entry e =>
      dsimp only
      rcases visit s e with ⟨_ | _, s'⟩
      · rintro _ ⟨⟩
        exact Avoids.ok ()
      · exact ih s'

theorem visitSectors_avoids (h : fs.Ok total) (hd : fs.device = d.device)
    (visit : σ → DirEntry → Bool × σ) (cluster : Nat) (indices : List Nat) (s : σ) :
    ∀ r, (visitSectors fs visit cluster indices s).1 = some r → Avoids Bad r := by
  induction indices generalizing s with
  | nil => exact fun r hr => nomatch hr
  | cons i rest ih =>
    have havoid := readClusterSector_avoids h hd cluster i
    unfold visitSectors
    cases hr : readClusterSector fs cluster i with
    | error f =>
      rw [hr] at havoid
      rintro _ ⟨⟩
      exact havoid.error
    | ok sector =>
      refine Visit.andThen_fst (P := fun o => ∀ r, o = some r → Avoids Bad r) ?_ ih
      rintro r hr _ ⟨⟩
      exact visitRecords_avoids visit (fun raw h => Text.length_of_mem_chunksExact h) s r hr

theorem visitClusters_avoids (h : fs.Ok total) (hd : fs.device = d.device)
    (visit : σ → DirEntry → Bool × σ) (rounds cluster : Nat) (s : σ) :
    Avoids Bad (visitClusters fs visit rounds cluster s).1 := by
  induction rounds generalizing cluster s with
  | zero => exact Avoids.raise (fun h => h)
  | succ rounds ih =>
    have havoid := followLink_avoids h hd cluster
    unfold visitClusters
    apply Visit.andThen_fst (visitSectors_avoids h hd visit cluster _ s)
    intro s'
    rcases hl : followLink fs cluster with f | (_ | next)
    · rw [hl] at havoid
      exact havoid.error
    · exact Avoids.ok ()
    · exact ih next s'

theorem visitDirectory_avoids (h : fs.Ok total) (hd : fs.device = d.device)
    (visit : σ → DirEntry → Bool × σ) (cluster : Nat) (s : σ) :
    Avoids Bad (visitDirectory fs visit cluster s).1 := by
  unfold visitDirectory
  rw [isValidCluster_eq h]
  cases decide (2 ≤ cluster ∧ cluster < fs.clusterCount + 2) with
  | false => exact Avoids.raise (fun h => h)
  | true => exact visitClusters_avoids h hd visit _ _ s

/-! ## paths -/

theorem findInDirectory_avoids (h : fs.Ok total) (hd : fs.device = d.device) (cluster : Nat)
    (name : Text.Str) : Avoids Bad (findInDirectory fs cluster name) := by
  have havoid := visitDirectory_avoids h hd (Visit.finder (matchesName name)) cluster none
  unfold findInDirectory
  rcases hv : visitDirectory fs (Visit.finder (matchesName name)) cluster none with ⟨f | _, result⟩
  · rw [hv] at havoid
    exact havoid.error
  · exact Avoids.okOr (fun h => h)

theorem resolveFrom_avoids (h : fs.Ok total) (hd : fs.device = d.device) (directory : Nat)
    (component : Text.Str) (rest : List Text.Str) :
    Avoids Bad (resolveFrom fs directory component rest) := by
  induction rest generalizing directory component with
  | nil => exact findInDirectory_avoids h hd directory component
  | cons next rest ih =>
    apply Avoids.bind (findInDirectory_avoids h hd directory component)
    intro entry _
    apply Avoids.bind (Avoids.rejectIf (fun h => h))
    intro _ _
    exact Avoids.bind (Avoids.rejectIf (fun h => h)) (fun _ _ => ih entry.firstCluster next)

theorem resolvePath_avoids (h : fs.Ok total) (hd : fs.device = d.device) (path : Text.Str) :
    Avoids Bad (resolvePath fs path) := by
  unfold resolvePath
  cases Text.components path with
  | nil => exact Avoids.raise (fun h => h)
  | cons first rest =>
    exact Avoids.bind (Avoids.rejectIf (fun h => h))
      (fun _ _ => resolveFrom_avoids h hd fs.rootCluster first rest)

theorem directoryOf_avoids (h : fs.Ok total) (hd : fs.device = d.device) (path : Text.Str) :
    Avoids Bad (directoryOf fs path) := by
  unfold directoryOf
  by_cases hp : Text.trimMatches '/' path = []
  · rw [if_pos hp]
    exact Avoids.ok _
  · rw [if_neg hp]
    apply Avoids.bind (resolvePath_avoids h hd path)
    intro entry _
    exact Avoids.bind (Avoids.rejectIf (fun h => h)) (fun _ _ => Avoids.ok _)

theorem listDir_avoids (h : fs.Ok total) (hd : fs.device = d.device) (path : Text.Str)
    (visit : σ → DirEntry → Bool × σ) (s : σ) : Avoids Bad (listDir fs path visit s).1 := by
  have havoid := directoryOf_avoids h hd path
  unfold listDir
  cases hp : directoryOf fs path with
  | error f =>
    rw [hp] at havoid
    exact havoid.error
  | ok cluster => exact visitDirectory_avoids h hd visit cluster s

/-! ## files -/

theorem readSectors_avoids (h : fs.Ok total) (hd : fs.device = d.device)
    (visit : σ → List UInt8 → σ) (size cluster : Nat) (indices : List Nat) (s : Nat × σ) :
    ∀ r, (readSectors fs visit size cluster indices s).1 = some r → Avoids Bad r := by
  induction indices generalizing s with
  | nil => exact fun r hr => nomatch hr
  | cons i rest ih =>
    obtain ⟨remaining, s⟩ := s
    have havoid := readClusterSector_avoids h hd cluster i
    unfold readSectors
    by_cases h0 : remaining = 0
    · rw [if_pos h0]
      rintro _ ⟨⟩
      exact Avoids.ok _
    rw [if_neg h0]
    cases hr : readClusterSector fs cluster i with
    | error f =>
      rw [hr] at havoid
      rintro _ ⟨⟩
      exact havoid.error
    | ok sector =>
      have hlen : min remaining sectorSize ≤ sector.val.length := by
        rw [sector.property]
        exact min_le_right _ _
      simp only [slice_of_le (Nat.zero_le _) hlen, sub_of_le (min_le_left remaining sectorSize)]
      exact ih _

theorem readClusters_avoids (h : fs.Ok total) (hd : fs.device = d.device)
    (visit : σ → List UInt8 → σ) (size rounds cluster : Nat) (s : Nat × σ) :
    Avoids Bad (readClusters fs visit size rounds cluster s).1 := by
  induction rounds generalizing cluster s with
  | zero => exact Avoids.raise (fun h => h)
  | succ rounds ih =>
    have havoid := followLink_avoids h hd cluster
    unfold readClusters
    apply Visit.andThen_fst (readSectors_avoids h hd visit size cluster _ s)
    intro s'
    by_cases h0 : s'.1 = 0
    · rw [if_pos h0]
      exact Avoids.ok _
    rw [if_neg h0]
    rcases hl : followLink fs cluster with f | (_ | next)
    · rw [hl] at havoid
      exact havoid.error
    · exact Avoids.raise (fun h => h)
    · exact ih next s'

theorem readEntry_avoids (h : fs.Ok total) (hd : fs.device = d.device) (entry : DirEntry)
    (visit : σ → List UInt8 → σ) (s : σ) : Avoids Bad (readEntry fs entry visit s).1 := by
  unfold readEntry
  by_cases hdir : entry.isDirectory = true
  · rw [if_pos hdir]
    exact Avoids.raise (fun h => h)
  rw [if_neg hdir]
  by_cases h0 : entry.size = 0
  · rw [if_pos h0]
    exact Avoids.ok _
  rw [if_neg h0, isValidCluster_eq h]
  cases decide (2 ≤ entry.firstCluster ∧ entry.firstCluster < fs.clusterCount + 2) with
  | false => exact Avoids.raise (fun h => h)
  | true => exact readClusters_avoids h hd visit _ _ _ _

theorem readFile_avoids (h : fs.Ok total) (hd : fs.device = d.device) (path : Text.Str)
    (visit : σ → List UInt8 → σ) (s : σ) : Avoids Bad (readFile fs path visit s).1 := by
  have havoid := resolvePath_avoids h hd path
  unfold readFile
  cases hp : resolvePath fs path with
  | error f =>
    rw [hp] at havoid
    exact havoid.error
  | ok entry => exact readEntry_avoids h hd entry visit s

/-! ## the FAT -/

/-- `next_cluster` depends on the sectors of the first FAT only -/
theorem nextCluster_congr (h : fs.Ok total) (device : BlockDevice)
    (hdev : ∀ lba, fs.fatStartSector ≤ lba → lba < fs.fatStartSector + fs.sectorsPerFat →
      device.readSector lba = fs.device.readSector lba) (cluster : Nat) :
    nextCluster { fs with device := device } cluster = nextCluster fs cluster := by
  have hslot : fatSlot { fs with device := device } cluster = fatSlot fs cluster := rfl
  unfold nextCluster
  rw [hslot]
  cases hs : fatSlot fs cluster with
  | error f => rfl
  | ok slot =>
    obtain ⟨lba, offset⟩ := slot
    obtain ⟨h1, h2, _⟩ := (fatSlot_spec h cluster).2 lba offset hs
    have hread : readDevice device lba = readDevice fs.device lba := by
      unfold readDevice
      rw [hdev lba h1 h2]
    rw [bind_ok, bind_ok]
    show (readDevice device lba >>= _) = (readDevice fs.device lba >>= _)
    rw [hread]

end

/-! ## the guarantees -/

/-- no operation panics, whatever it is asked -/
structure Fat32.NoPanic (fs : Fat32) : Prop where
  clusterEnd : fs.clusterCount + 2 < 2^32
  isValidCluster : ∀ c, ¬ Panics (isValidCluster fs c)
  clusterToSector : ∀ c i, ¬ Panics (clusterToSector fs c i)
  nextCluster : ∀ c, ¬ Panics (nextCluster fs c)
  visitDirectory : ∀ (σ : Type) (visit : σ → DirEntry → Bool × σ) (c : Nat) (s : σ),
    ¬ Panics (visitDirectory fs visit c s).1
  listDir : ∀ (σ : Type) (path : Text.Str) (visit : σ → DirEntry → Bool × σ) (s : σ),
    ¬ Panics (listDir fs path visit s).1
  readFile : ∀ (σ : Type) (path : Text.Str) (visit : σ → List UInt8 → σ) (s : σ),
    ¬ Panics (readFile fs path visit s).1

/-- the data sectors of the clusters lie in the data area of the volume, and none is shared -/
structure Fat32.DataArea (fs : Fat32) (totalSectors : Nat) : Prop where
  total_le : totalSectors ≤ fs.device.sectorCount
  inside : ∀ c i, 2 ≤ c → c < fs.clusterCount + 2 → i < fs.sectorsPerCluster →
    ∃ lba, clusterToSector fs c i = .ok lba ∧ fs.firstDataSector ≤ lba ∧ lba < totalSectors
  distinct : ∀ c c' i i' lba, clusterToSector fs c i = .ok lba → clusterToSector fs c' i' = .ok lba →
    c = c' ∧ i = i'

/-- the FAT lookup reads inside the first FAT -/
structure Fat32.FatArea (fs : Fat32) : Prop where
  fat_le : fs.fatStartSector + fs.sectorsPerFat ≤ fs.firstDataSector
  inside : ∀ c lba offset, fatSlot fs c = .ok (lba, offset) →
    fs.fatStartSector ≤ lba ∧ lba < fs.fatStartSector + fs.sectorsPerFat
  only : ∀ device : BlockDevice,
    (∀ lba, fs.fatStartSector ≤ lba → lba < fs.fatStartSector + fs.sectorsPerFat →
      device.readSector lba = fs.device.readSector lba) →
    ∀ c, Fat.nextCluster { fs with device := device } c = Fat.nextCluster fs c

theorem Fat32.Ok.noPanic {fs : Fat32} {d : RamDiskBlockDevice} {total : Nat} (h : fs.Ok total)
    (hd : fs.device = d.device) : fs.NoPanic where
  clusterEnd := h.clusterEnd_lt
  isValidCluster c := by
    rw [isValidCluster_eq h]
    exact not_panics (Avoids.ok _)
  clusterToSector c i := by
    by_cases hv : 2 ≤ c ∧ c < fs.clusterCount + 2 ∧ i < fs.sectorsPerCluster
    · rw [clusterToSector_valid h hv.1 hv.2.1 hv.2.2]
      exact not_panics (Avoids.ok _)
    · rw [clusterToSector_invalid h hv]
      exact not_panics (Avoids.raise (fun h => h))
  nextCluster c := not_panics (nextCluster_avoids h hd c)
  visitDirectory σ visit c s := not_panics (visitDirectory_avoids h hd visit c s)
  listDir σ path visit s := not_panics (listDir_avoids h hd path visit s)
  readFile σ path visit s := not_panics (readFile_avoids h hd path visit s)

theorem Fat32.Ok.dataArea {fs : Fat32} {total : Nat} (h : fs.Ok total) : fs.DataArea total where
  total_le := h.total_le
  inside c i hc hc' hi := by
    refine ⟨_, clusterToSector_valid h hc hc' hi, ?_, h.sector_lt hc hc' hi⟩
    rw [Nat.add_assoc]
    exact Nat.le_add_right _ _
  distinct c c' i i' lba e e' := by
    by_cases hv : 2 ≤ c ∧ c < fs.clusterCount + 2 ∧ i < fs.sectorsPerCluster
    · by_cases hv' : 2 ≤ c' ∧ c' < fs.clusterCount + 2 ∧ i' < fs.sectorsPerCluster
      · rw [clusterToSector_valid h hv.1 hv.2.1 hv.2.2] at e
        rw [clusterToSector_valid h hv'.1 hv'.2.1 hv'.2.2, ← e] at e'
        exact clusterToSector_inj h hv.1 hv'.1 hv.2.2 hv'.2.2 (Except.ok.inj e').symm
      · rw [clusterToSector_invalid h hv'] at e'
        exact nomatch e'
    · rw [clusterToSector_invalid h hv] at e
      exact nomatch e

theorem Fat32.Ok.fatArea {fs : Fat32} {total : Nat} (h : fs.Ok total) : fs.FatArea where
  fat_le := h.fat_le
  inside c lba offset e := by
    obtain ⟨h1, h2, _⟩ := (fatSlot_spec h c).2 lba offset e
    exact ⟨h1, h2⟩
  only device hdev c := nextCluster_congr h device hdev c

/-- **the guarantees of a mounted volume**, for every content of the RAM disk -/
theorem mounted_volume_safe (d : RamDiskBlockDevice) :
    ¬ Panics (mount d.device) ∧
    ∀ fs, mount d.device = .ok fs →
      ∃ b, readBootSector (d.sector 0).val = .ok b ∧ fs.device = d.device ∧
        fs.NoPanic ∧ fs.DataArea b.totalSectors ∧ fs.FatArea ∧
        (∀ (σ : Type) (path : Text.Str) (visit : σ → DirEntry → Bool × σ) (s : σ),
          ¬ DeviceFails (listDir fs path visit s).1) ∧
        (∀ (σ : Type) (path : Text.Str) (visit : σ → List UInt8 → σ) (s : σ),
          ¬ DeviceFails (readFile fs path visit s).1) := by
  refine ⟨not_panics (mount_avoids d), fun fs hm => ?_⟩
  obtain ⟨b, hb, hd, h⟩ := mount_ok hm
  exact ⟨b, hb, hd, h.noPanic hd, h.dataArea, h.fatArea,
    fun σ path visit s => not_deviceFails (listDir_avoids h hd path visit s),
    fun σ path visit s => not_deviceFails (readFile_avoids h hd path visit s)⟩

/-- a disk that is all zeros but for `bytes` -/
def sparseDisk (sectors : Nat) (h : 0 < sectors) (bytes : List (Nat × UInt8)) :
    RamDiskBlockDevice where
  length := sectors * sectorSize
  byte i := (bytes.lookup i).getD 0
  length_pos := Nat.mul_pos h (by norm_num [sectorSize])
  length_mod := Nat.mul_mod_left _ _

/-- a short name as it stands on the disk, from the byte `offset` on -/
def nameField (offset : Nat) (name : List UInt8) : List (Nat × UInt8) :=
  name.zipIdx.map (fun c => (offset + c.2, c.1))

/-- the smallest FAT32 volume: 65525 clusters of one sector after one FAT of 512 sectors.  The root
directory holds the directory `D`, which holds the empty file `F.A`. -/
def smallDisk : RamDiskBlockDevice :=
  sparseDisk 66038 (by norm_num) <|
    [(12, 0x02), (13, 0x01), (14, 0x01), (16, 0x01), (32, 0xf6), (33, 0x01), (34, 0x01), (37, 0x02),
      (44, 0x02), (510, 0x55), (511, 0xaa)]
    ++ nameField (513 * 512) (0x44 :: List.replicate 10 0x20)
    ++ [(513 * 512 + 11, 0x10), (513 * 512 + 26, 0x03)]
    ++ nameField (514 * 512) (0x46 :: List.replicate 7 0x20 ++ [0x41, 0x20, 0x20])

def smallVolume : Fat32 := ⟨smallDisk.device, 1, 1, 512, 513, 2, 65525⟩

theorem smallDisk_fields :
    (mount smallDisk.device).toOption.map (fun fs => (fs.sectorsPerCluster, fs.fatStartSector,
      fs.sectorsPerFat, fs.firstDataSector, fs.rootCluster, fs.clusterCount))
      = some (1, 1, 512, 513, 2, 65525) ∧
    (readBootSector (smallDisk.sector 0).val).toOption.map BootSector.totalSectors = some 66038 := by
  decide +kernel

/-- a volume is its disk and its six numbers -/
theorem mount_of_fields {d : RamDiskBlockDevice} {spc fat spf data root count : Nat}
    (hm : (mount d.device).toOption.map (fun fs => (fs.sectorsPerCluster, fs.fatStartSector,
      fs.sectorsPerFat, fs.firstDataSector, fs.rootCluster, fs.clusterCount))
      = some (spc, fat, spf, data, root, count)) :
    mount d.device = .ok ⟨d.device, spc, fat, spf, data, root, count⟩ := by
  cases hfs : mount d.device with
  | error f =>
    rw [hfs] at hm
    exact nomatch hm
  | ok fs =>
    obtain ⟨_, _, hd, _⟩ := mount_ok hfs
    rw [hfs] at hm
    obtain ⟨device, spc', fat', spf', data', root', count'⟩ := fs
    obtain rfl : device = d.device := hd
    cases Option.some.inj hm
    rfl

theorem smallDisk_mount : mount smallDisk.device = .ok smallVolume := mount_of_fields smallDisk_fields.1

theorem mounted_volume_safe_smallDisk :
    mount smallDisk.device = .ok smallVolume ∧ smallVolume.DataArea 66038 ∧
      ¬ DeviceFails (listDir smallVolume ['/', 'D'] Visit.always ()).1 := by
  have ht := smallDisk_fields.2
  obtain ⟨b, hb, _, _, hdata, _, hlist, _⟩ :=
    (mounted_volume_safe smallDisk).2 smallVolume smallDisk_mount
  rw [hb] at ht
  have htotal : b.totalSectors = 66038 := Option.some.inj ht
  rw [htotal] at hdata
  exact ⟨smallDisk_mount, hdata, hlist Unit _ _ _⟩

end Fat
end SolOs
