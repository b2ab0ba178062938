import SolOs.Lib.Pieces
import SolOs.Lib.Visit
import SolOs.Storage

/-!
# The hand-off of the data partition

What the fork of the bootloader adds: `load_sol_data_partition` of `vendor/bootloader/uefi/src/main.rs`
finds the partition `sol-data` among the handles of the firmware and reads it through Block I/O.  A load
returns the bytes, or `none`, next to the reads that were made.

* `PartitionHandle`, `BlockIo`    what the firmware offers;
* `isSolDataPartitionEntry`       the test on a GPT entry (`isSolDataPartitionEntry_iff`: what it accepts);
* `readChunks`                    the loop over the chunks of the buffer;
* `loadSolDataPartitionFromDisk`  the search and the load;
* `readChunks_some`               what is read, and from where;
* `solData_handoff`               **the snapshot is the partition, in whatever order the handles come.**
-/

set_option linter.unusedVariables false

namespace SolOs
namespace Boot
open Storage

/-! ## the firmware -/

abbrev Guid := BitVec 128

/-- `partition_name: [Char16; 36]` -/
structure GptPartitionEntry where
  partitionTypeGuid : Guid
  partitionName : List UInt16
  partitionName_length : partitionName.length = 36

structure Media where
  mediaId : UInt32
  mediaPresent : Bool
  logicalPartition : Bool
  blockSize : UInt32
  ioAlign : UInt32
  lastBlock : UInt64

/-- a device by the contents of its blocks, and by the reads that it refuses -/
structure BlockIo where
  media : Media
  block : Nat → List UInt8
  block_length : ∀ lba, (block lba).length = media.blockSize.toNat
  fails : UInt32 → Nat → Nat → Bool

/-- the reads fail, or fill the buffer with consecutive blocks -/
def BlockIo.readBlocks (device : BlockIo) (mediaId : UInt32) (lba length : Nat) : Option (List UInt8) :=
  if device.fails mediaId lba length ∨ length % device.media.blockSize.toNat ≠ 0 then none
  else some ((List.range' lba (length / device.media.blockSize.toNat)).flatMap device.block)

/-- the protocols of a handle, as far as they can be opened -/
structure PartitionHandle where
  partitionInfo : Option (Option GptPartitionEntry)
  blockIo : Option BlockIo

def pageSize : Nat := 4096

/-- `pages count` is what stands in the pages that `allocate_pages` returns -/
structure BootServices where
  handles : Option (List PartitionHandle)
  pages : (count : Nat) → Option { memory : List UInt8 // memory.length = count * pageSize }

/-! ## the loader -/

def solDataPartitionType : Guid := 0xebd0a0a2b9e5443387c068b6b72699c7

/-- `b"sol-data"` -/
def solDataPartitionName : List UInt8 := [0x73, 0x6f, 0x6c, 0x2d, 0x64, 0x61, 0x74, 0x61]

def solDataBytes : Nat := 64 * 1024 * 1024
def blockIoChunkBytes : Nat := 64 * 1024

def isSolDataPartitionEntry (entry : GptPartitionEntry) : Bool :=
  if entry.partitionTypeGuid ≠ solDataPartitionType then false
  else if entry.partitionName.length ≤ solDataPartitionName.length then false
  else
    ((entry.partitionName.take solDataPartitionName.length).zip solDataPartitionName).all
        (fun c => c.1 = c.2.toUInt16)
      && entry.partitionName[solDataPartitionName.length]? = some 0

/-- one call of `read_blocks` -/
structure Read where
  lba : Nat
  length : Nat

abbrev Load := Option (List UInt8) × List Read

/-- `let a = o?;` and what follows it -/
def attempt {α : Type} (o : Option α) (k : α → Load) : Load :=
  match o with
  | none => (none, [])
  | some a => k a

/-- the loop over `data.chunks_mut(BLOCK_IO_CHUNK_BYTES).enumerate()` -/
def readChunks (device : BlockIo) (blockSize : Nat) : Nat → List (List UInt8) → Load
  | _, [] => (some [], [])
  | index, chunk :: rest =>
    attempt (Word.checkedMul 64 index (blockIoChunkBytes / blockSize)) fun lba =>
      match device.readBlocks device.media.mediaId lba chunk.length with
      | none => (none, [⟨lba, chunk.length⟩])
      | some bytes =>
        ((readChunks device blockSize (index + 1) rest).1.map (bytes ++ ·),
          ⟨lba, chunk.length⟩ :: (readChunks device blockSize (index + 1) rest).2)

/-- the body of the loop over the handles, for the partition that is looked for -/
def loadPartition (services : BootServices) (handle : PartitionHandle) : Load :=
  attempt handle.blockIo fun blockIo =>
  attempt (Word.checkedAdd 64 blockIo.media.lastBlock.toNat 1) fun blockCount =>
  attempt (Word.checkedMul 64 blockCount blockIo.media.blockSize.toNat) fun byteLen =>
  if blockIo.media.mediaPresent = false ∨ blockIo.media.logicalPartition = false
      ∨ blockIo.media.blockSize.toNat ≠ 512 ∨ blockIo.media.ioAlign.toNat > pageSize
      ∨ byteLen ≠ solDataBytes then (none, [])
  else
    -- `usize::try_from(byte_len)` cannot fail on this machine
    attempt (services.pages (byteLen / pageSize)) fun memory =>
      readChunks blockIo blockIo.media.blockSize.toNat 0 (Pieces.chunks blockIoChunkBytes memory.val)

def PartitionHandle.isSolData (handle : PartitionHandle) : Bool :=
  match handle.partitionInfo with
  | none => false
  | some entry => entry.any isSolDataPartitionEntry

def searchHandles (services : BootServices) : List PartitionHandle → Load
  | [] => (none, [])
  | handle :: rest =>
    if handle.isSolData then loadPartition services handle else searchHandles services rest

def loadSolDataPartitionFromDisk (services : BootServices) : Load :=
  attempt services.handles (searchHandles services)

inductive BootMode where
  | disk
  | tftp

def loadSolDataPartition (services : BootServices) : BootMode → Load
  | .disk => loadSolDataPartitionFromDisk services
  | .tftp => (none, [])

/-! ## the accepted entries -/

theorem all_zip_iff {name : List UInt16} {expected : List UInt8} (h : name.length = expected.length) :
    (name.zip expected).all (fun c => c.1 = c.2.toUInt16) = true ↔
      name = expected.map UInt8.toUInt16 := by
  induction expected generalizing name with
  | nil => simp [List.length_eq_zero_iff.mp h]
  | cons b expected ih =>
    cases name with
    | nil => simp at h
    | cons c name => simpa using fun _ => by simpa using ih (Nat.succ.inj h)

/-- accepted is the basic-data type with the name `sol-data`, up to the terminating zero -/
theorem isSolDataPartitionEntry_iff (entry : GptPartitionEntry) :
    isSolDataPartitionEntry entry = true ↔
      entry.partitionTypeGuid = solDataPartitionType ∧
        entry.partitionName.take 9 = solDataPartitionName.map UInt8.toUInt16 ++ [0] := by
  have hlen : (entry.partitionName.take solDataPartitionName.length).length
      = solDataPartitionName.length := by
    simp [entry.partitionName_length, solDataPartitionName]
  have hlong : ¬ entry.partitionName.length ≤ solDataPartitionName.length := by
    simp [entry.partitionName_length, solDataPartitionName]
  unfold isSolDataPartitionEntry
  by_cases htype : entry.partitionTypeGuid = solDataPartitionType
  · rw [if_neg (not_not.mpr htype), if_neg hlong, Bool.and_eq_true, all_zip_iff hlen,
      decide_eq_true_iff, show 9 = solDataPartitionName.length + 1 from rfl, List.take_add_one,
      List.append_eq_append_iff_of_size_eq_left (by rw [hlen, List.length_map])]
    have hlast : entry.partitionName[solDataPartitionName.length]?.toList = [0] ↔
        entry.partitionName[solDataPartitionName.length]? = some 0 := by
      cases entry.partitionName[solDataPartitionName.length]? <;> simp
    rw [hlast]
    simp [htype]
  · simp [htype]

/-! ## the loop over the chunks -/

/-- the blocks that a read asks for -/
def Read.blocks (device : BlockIo) (read : Read) : List Nat :=
  List.range' read.lba (read.length / device.media.blockSize.toNat)

section
variable {α : Type} {device : BlockIo} {data : List UInt8} {reads : List Read}

@[simp] theorem attempt_some (a : α) (k : α → Load) : attempt (some a) k = k a := rfl

theorem attempt_eq_some {o : Option α} {k : α → Load} (h : attempt o k = (some data, reads)) :
    ∃ a, o = some a ∧ k a = (some data, reads) := by
  cases o with
  | none => cases h
  | some a => exact ⟨a, rfl, h⟩

theorem readBlocks_eq_some {mediaId : UInt32} {lba length : Nat} {bytes : List UInt8}
    (h : device.readBlocks mediaId lba length = some bytes) :
    bytes = (Read.blocks device ⟨lba, length⟩).flatMap device.block := by
  unfold BlockIo.readBlocks at h
  split_ifs at h
  exact (Option.some.inj h).symm

/-- one turn of the loop -/
theorem readChunks_cons_eq_some {blockSize index : Nat} {chunk : List UInt8} {rest : List (List UInt8)}
    (h : readChunks device blockSize index (chunk :: rest) = (some data, reads)) :
    ∃ tail log, readChunks device blockSize (index + 1) rest = (some tail, log) ∧
      reads = ⟨index * (blockIoChunkBytes / blockSize), chunk.length⟩ :: log ∧
      data = (Read.blocks device ⟨index * (blockIoChunkBytes / blockSize), chunk.length⟩).flatMap
        device.block ++ tail := by
  obtain ⟨lba, hlba, h⟩ := attempt_eq_some h
  obtain ⟨-, rfl⟩ := Word.checkedMul_eq_some.mp hlba
  cases hr : device.readBlocks device.media.mediaId (index * (blockIoChunkBytes / blockSize))
      chunk.length with
  | none =>
    rw [hr] at h
    cases h
  | some bytes =>
    rw [hr] at h
    obtain ⟨hdata, hreads⟩ := Prod.mk.inj h
    obtain ⟨tail, htail, rfl⟩ := Option.map_eq_some_iff.mp hdata
    exact ⟨tail, _, Prod.ext htail rfl, hreads.symm, by rw [readBlocks_eq_some hr]⟩

theorem chunk_blocks : blockIoChunkBytes / 512 = 128 := rfl

/-- **what is read, and from where**: the chunks are filled from consecutive blocks, and each of these
blocks is asked for once -/
theorem readChunks_some (hsize : device.media.blockSize.toNat = 512) (index : Nat)
    {chunks : List (List UInt8)} (hc : ∀ chunk ∈ chunks, chunk.length = blockIoChunkBytes)
    (h : readChunks device 512 index chunks = (some data, reads)) :
    reads.flatMap (Read.blocks device) = List.range' (index * 128) (chunks.length * 128) ∧
      data = (List.range' (index * 128) (chunks.length * 128)).flatMap device.block := by
  induction chunks generalizing index data reads with
  | nil =>
    cases h
    exact ⟨rfl, rfl⟩
  | cons chunk rest ih =>
    obtain ⟨tail, log, hrest, rfl, rfl⟩ := readChunks_cons_eq_some h
    obtain ⟨hlog, rfl⟩ := ih (index + 1) (fun c hc' => hc c (List.mem_cons_of_mem _ hc')) hrest
    have hblocks : Read.blocks device ⟨index * (blockIoChunkBytes / 512), chunk.length⟩
        = List.range' (index * 128) 128 := by
      rw [Read.blocks, hsize, hc chunk List.mem_cons_self, chunk_blocks]
    have hjoin : List.range' (index * 128) 128 ++ List.range' ((index + 1) * 128) (rest.length * 128)
        = List.range' (index * 128) ((chunk :: rest).length * 128) := by
      rw [Nat.succ_mul, List.range'_append_1, List.length_cons, Nat.succ_mul, Nat.add_comm 128]
    rw [List.flatMap_cons, hblocks, hlog, ← List.flatMap_append, hjoin]
    exact ⟨rfl, rfl⟩

/-- a device that refuses no read is read to the end -/
theorem readChunks_of_readable (hsize : device.media.blockSize.toNat = 512)
    (hreads : ∀ mediaId lba length, device.fails mediaId lba length = false) (index : Nat)
    {chunks : List (List UInt8)} (hc : ∀ chunk ∈ chunks, chunk.length = blockIoChunkBytes)
    (hlast : (index + chunks.length) * 128 < 2^64) :
    (readChunks device 512 index chunks).1.isSome = true := by
  induction chunks generalizing index with
  | nil => rfl
  | cons chunk rest ih =>
    rw [List.length_cons] at hlast
    have hrest := ih (index + 1) (fun c hc' => hc c (List.mem_cons_of_mem _ hc')) (by omega)
    have hlba : Word.checkedMul 64 index (blockIoChunkBytes / 512) = some (index * 128) :=
      Word.checkedMul_of_lt (by rw [chunk_blocks]; omega)
    have hread : ∃ bytes, device.readBlocks device.media.mediaId (index * 128) chunk.length
        = some bytes := by
      refine ⟨_, if_neg ?_⟩
      simp [hreads, hsize, hc chunk List.mem_cons_self, blockIoChunkBytes]
    obtain ⟨bytes, hread⟩ := hread
    rw [readChunks, hlba, attempt_some, hread]
    simpa using hrest

end

/-! ## one partition -/

/-- the geometry that the loader takes: 64 MiB in blocks of 512 bytes -/
structure Media.Supported (media : Media) : Prop where
  present : media.mediaPresent = true
  logical : media.logicalPartition = true
  blockSize : media.blockSize.toNat = 512
  ioAlign : media.ioAlign.toNat ≤ pageSize
  lastBlock : (media.lastBlock.toNat + 1) * 512 = solDataBytes

theorem Media.Supported.block_count {media : Media} (h : media.Supported) :
    media.lastBlock.toNat + 1 = 1024 * 128 := by
  have hbytes := h.lastBlock
  unfold solDataBytes at hbytes
  omega

section
variable {services : BootServices} {handle : PartitionHandle} {device : BlockIo}
  {data : List UInt8} {reads : List Read}

/-- the partition that is loaded has the geometry, and every chunk of its memory is read -/
theorem loadPartition_eq_some (h : loadPartition services handle = (some data, reads)) :
    ∃ device memory, handle.blockIo = some device ∧ device.media.Supported ∧
      services.pages (solDataBytes / pageSize) = some memory ∧
      readChunks device 512 0 (Pieces.chunks blockIoChunkBytes memory.val) = (some data, reads) := by
  obtain ⟨device, hdevice, h⟩ := attempt_eq_some h
  obtain ⟨count, hcount, h⟩ := attempt_eq_some h
  obtain ⟨byteLen, hlen, h⟩ := attempt_eq_some h
  obtain ⟨-, rfl⟩ := Word.checkedAdd_eq_some.mp hcount
  obtain ⟨-, rfl⟩ := Word.checkedMul_eq_some.mp hlen
  split_ifs at h with hgeometry
  · cases h
  · simp only [not_or, Bool.not_eq_false, ne_eq, not_not, not_lt, gt_iff_lt] at hgeometry
    obtain ⟨hpresent, hlogical, hsize, halign, hbytes⟩ := hgeometry
    rw [hbytes, hsize] at h
    rw [hsize] at hbytes
    obtain ⟨memory, hmemory, h⟩ := attempt_eq_some h
    exact ⟨device, memory, hdevice, ⟨hpresent, hlogical, hsize, halign, hbytes⟩, hmemory, h⟩

theorem memory_length {memory : List UInt8} (h : memory.length = solDataBytes / pageSize * pageSize) :
    memory.length = 1024 * blockIoChunkBytes := h

theorem chunk_pos : 0 < blockIoChunkBytes := by decide

/-- **the snapshot is the partition** -/
theorem loadPartition_some (h : loadPartition services handle = (some data, reads)) :
    ∃ device, handle.blockIo = some device ∧ device.media.Supported ∧
      reads.flatMap (Read.blocks device) = List.range (device.media.lastBlock.toNat + 1) ∧
      data = (List.range (device.media.lastBlock.toNat + 1)).flatMap device.block := by
  obtain ⟨device, memory, hdevice, hmedia, -, hread⟩ := loadPartition_eq_some h
  have hmemory := memory_length memory.property
  have hchunks := Pieces.chunks_length chunk_pos hmemory
  have hsome := readChunks_some hmedia.blockSize 0 (Pieces.length_of_mem_chunks chunk_pos hmemory) hread
  rw [hchunks, ← hmedia.block_count, Nat.zero_mul, ← List.range_eq_range'] at hsome
  exact ⟨device, hdevice, hmedia, hsome.1, hsome.2⟩

/-- a partition with the geometry whose reads succeed is loaded, once there is memory for it -/
theorem loadPartition_of_readable (hdevice : handle.blockIo = some device) (hmedia : device.media.Supported)
    (hreads : ∀ mediaId lba length, device.fails mediaId lba length = false)
    (hpages : (services.pages (solDataBytes / pageSize)).isSome = true) :
    ∃ data reads, loadPartition services handle = (some data, reads) := by
  obtain ⟨memory, hpages⟩ := Option.isSome_iff_exists.mp hpages
  have hmemory := memory_length memory.property
  have hcount : Word.checkedAdd 64 device.media.lastBlock.toNat 1
      = some (device.media.lastBlock.toNat + 1) := Word.checkedAdd_of_lt (by
    rw [hmedia.block_count]
    norm_num)
  have hlen : Word.checkedMul 64 (device.media.lastBlock.toNat + 1) 512 = some solDataBytes := by
    rw [Word.checkedMul_of_lt (by rw [hmedia.block_count]; norm_num), hmedia.lastBlock]
  have hgeometry : ¬ (device.media.mediaPresent = false ∨ device.media.logicalPartition = false
      ∨ (512 : Nat) ≠ 512 ∨ device.media.ioAlign.toNat > pageSize ∨ solDataBytes ≠ solDataBytes) := by
    simp [hmedia.present, hmedia.logical, hmedia.ioAlign]
  unfold loadPartition
  rw [hdevice, attempt_some, hcount, attempt_some, hmedia.blockSize, hlen, attempt_some,
    if_neg hgeometry, hpages, attempt_some]
  have hread := readChunks_of_readable hmedia.blockSize hreads 0
    (Pieces.length_of_mem_chunks chunk_pos hmemory)
    (by rw [Pieces.chunks_length chunk_pos hmemory]; norm_num)
  obtain ⟨data, hdata⟩ := Option.isSome_iff_exists.mp hread
  exact ⟨data, _, Prod.ext hdata rfl⟩

end

/-! ## the search -/

/-- the loop loads the first partition that it accepts, and nothing else -/
theorem searchHandles_eq (services : BootServices) (handles : List PartitionHandle) :
    searchHandles services handles
      = attempt (handles.find? PartitionHandle.isSolData) (loadPartition services) := by
  induction handles with
  | nil => rfl
  | cons handle rest ih =>
    unfold searchHandles
    by_cases h : handle.isSolData = true
    · rw [if_pos h, List.find?_cons_of_pos h, attempt_some]
    · rw [if_neg h, ih, List.find?_cons_of_neg h]

/-- `data` is the contents of the device, in the order of the blocks -/
def IsSnapshot (device : BlockIo) (data : List UInt8) : Prop :=
  data.length = solDataBytes ∧
    ∀ i < data.length, data[i]? = (device.block (i / 512))[i % 512]?

theorem isSnapshot_of_blocks {device : BlockIo} (hmedia : device.media.Supported) :
    IsSnapshot device ((List.range (device.media.lastBlock.toNat + 1)).flatMap device.block) := by
  have hblock : ∀ lba, (device.block lba).length = 512 := by simp [device.block_length, hmedia.blockSize]
  have hlen : ((List.range (device.media.lastBlock.toNat + 1)).flatMap device.block).length
      = (device.media.lastBlock.toNat + 1) * 512 := by simp [List.length_flatMap, hblock]
  refine ⟨by rw [hlen, hmedia.lastBlock], ?_⟩
  intro i hi
  rw [hlen] at hi
  exact Pieces.getElem?_flatMap_range hblock _ i hi

/-- the partition that `services` let the loader find is `device`, and `reads` fetch each block of it
once, in their order -/
structure Fetched (services : BootServices) (device : BlockIo) (reads : List Read) : Prop where
  found : ∃ handles handle, services.handles = some handles ∧
    handles.find? PartitionHandle.isSolData = some handle ∧ handle.blockIo = some device
  supported : device.media.Supported
  blocks : reads.flatMap (Read.blocks device) = List.range (device.media.lastBlock.toNat + 1)

theorem loadSolDataPartitionFromDisk_some {services : BootServices} {data : List UInt8} {reads : List Read}
    (h : loadSolDataPartitionFromDisk services = (some data, reads)) :
    ∃ device, Fetched services device reads ∧ IsSnapshot device data := by
  obtain ⟨handles, hhandles, h⟩ := attempt_eq_some h
  rw [searchHandles_eq] at h
  obtain ⟨handle, hfind, h⟩ := attempt_eq_some h
  obtain ⟨device, hdevice, hmedia, hreads, rfl⟩ := loadPartition_some h
  exact ⟨device, ⟨⟨handles, handle, hhandles, hfind, hdevice⟩, hmedia, hreads⟩,
    isSnapshot_of_blocks hmedia⟩

/-- the firmware with another list of handles -/
def BootServices.offering (services : BootServices) (handles : List PartitionHandle) : BootServices :=
  { services with handles := some handles }

theorem loadSolDataPartitionFromDisk_offering (services : BootServices)
    (handles : List PartitionHandle) :
    loadSolDataPartitionFromDisk (services.offering handles)
      = attempt (handles.find? PartitionHandle.isSolData) (loadPartition services) :=
  searchHandles_eq (services.offering handles) handles

/-- **the hand-off of the data partition**: with at most one partition to accept, the order of the handles
makes no difference; and what is returned is the snapshot of the accepted partition, with every block of
it read exactly once and no other block read -/
theorem solData_handoff (services : BootServices) (handles : List PartitionHandle) :
    (handles.countP PartitionHandle.isSolData ≤ 1 → ∀ handles', handles.Perm handles' →
      loadSolDataPartitionFromDisk (services.offering handles')
        = loadSolDataPartitionFromDisk (services.offering handles)) ∧
    ∀ data reads, loadSolDataPartitionFromDisk (services.offering handles) = (some data, reads) →
      ∃ handle device, handles.find? PartitionHandle.isSolData = some handle ∧
        handle.blockIo = some device ∧ IsSnapshot device data ∧
        reads.flatMap (Read.blocks device) = List.range (device.media.lastBlock.toNat + 1) := by
  constructor
  · intro hone handles' hperm
    rw [loadSolDataPartitionFromDisk_offering, loadSolDataPartitionFromDisk_offering,
      Visit.find?_perm hperm hone]
  · intro data reads h
    obtain ⟨device, hfetched, hdata⟩ := loadSolDataPartitionFromDisk_some h
    obtain ⟨_, handle, hhandles, hfind, hdevice⟩ := hfetched.found
    cases hhandles
    exact ⟨handle, device, hfind, hdevice, hdata, hfetched.blocks⟩

/-! ### a firmware with two partitions -/

/-- block `lba` is filled with the low byte of its number -/
def numberedDevice : BlockIo where
  media := ⟨7, true, true, 512, 4096, 131071⟩
  block lba := List.replicate 512 (UInt8.ofNat lba)
  block_length lba := List.length_replicate
  fails _ _ _ := false

def solDataHandle : PartitionHandle where
  partitionInfo := some (some
    ⟨solDataPartitionType, solDataPartitionName.map UInt8.toUInt16 ++ List.replicate 28 0, by decide⟩)
  blockIo := some numberedDevice

/-- the partition that the firmware boots from: not a GPT partition at all -/
def mbrHandle : PartitionHandle := ⟨some none, some numberedDevice⟩

def zeroedPages : BootServices where
  handles := none
  pages count := some ⟨List.replicate (count * pageSize) 0, List.length_replicate⟩

theorem numberedDevice_supported : numberedDevice.media.Supported :=
  ⟨rfl, rfl, rfl, by decide, rfl⟩

theorem zeroedPages_load : ∃ data reads,
    loadSolDataPartitionFromDisk (zeroedPages.offering [mbrHandle, solDataHandle]) = (some data, reads) := by
  have hfind : [mbrHandle, solDataHandle].find? PartitionHandle.isSolData = some solDataHandle := rfl
  rw [loadSolDataPartitionFromDisk_offering, hfind, attempt_some]
  exact loadPartition_of_readable rfl numberedDevice_supported (fun _ _ _ => rfl) rfl

/-- the two handles are loaded in either order, and byte 1024 is the number of block 2 -/
theorem solData_handoff_numbered :
    ∃ data reads, loadSolDataPartitionFromDisk (zeroedPages.offering [solDataHandle, mbrHandle])
        = (some data, reads) ∧ data[1024]? = some 2 := by
  obtain ⟨hperm, hsnapshot⟩ := solData_handoff zeroedPages [mbrHandle, solDataHandle]
  obtain ⟨data, reads, hload⟩ := zeroedPages_load
  obtain ⟨handle, device, hfind, hdevice, ⟨hlen, hbyte⟩, -⟩ := hsnapshot data reads hload
  obtain rfl : solDataHandle = handle := Option.some.inj hfind
  obtain rfl : numberedDevice = device := Option.some.inj hdevice
  have horder := hperm (by decide) [solDataHandle, mbrHandle] (List.Perm.swap _ _ _)
  refine ⟨data, reads, horder.trans hload, ?_⟩
  rw [hbyte 1024 (by rw [hlen]; decide)]
  exact List.getElem?_replicate

/-! ## the kernel's side -/

/-- the block device that the boot information describes -/
theorem fromBootInfo_eq_ok {memory : Nat → UInt8} {address length : Nat} (hpos : 0 < length)
    (hmod : length % sectorSize = 0) :
    RamDiskBlockDevice.fromBootInfo memory (some address) length
      = .ok ⟨length, fun i => memory (address + i), hpos, hmod⟩ :=
  dif_neg (by simp [hpos.ne', hmod])

end Boot
end SolOs
