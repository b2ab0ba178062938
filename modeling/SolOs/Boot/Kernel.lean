import SolOs.Boot.SolData
import SolOs.Memory.Heap
import SolOs.Shell.Files

/-!
# From the boot medium to the shell

`kernel_main` of `main.rs`, from the boot information to the call of `shell::run`, with what it prints on the
console (the copy on the serial port is left out, and so are the three small allocations that try out the new
heap).  Every step is an `expect`: if it fails the kernel stops, and what was printed stays on the screen.

* `Phase`                    a step of the boot: its output, and its result or the panic;
* `kernelMain`               the sequence;
* `ramdiskFields`            what the loader writes into the boot information;
* `treeBoot`                 the same sequence on a tree of files;
* `boot_shows_tree`          **the kernel boots to a shell over the tree that is stored on the medium.**
-/

set_option linter.unusedVariables false

namespace SolOs
namespace Boot
open Checked Console Storage Fat Memory Shell

/-! ## steps of the boot -/

/-- a panic, by the text of its `expect` and the error that is printed after it -/
inductive Stop where
  | missing (message : Text.Str)
  | mapping (message : Text.Str) (e : MapToError)
  | storage (message : Text.Str) (e : StorageError)
  | fs (message : Text.Str) (e : FsError)
  | panicked (p : Panic)

structure Phase (α : Type) where
  ops : List ConsoleOp
  result : Except Stop α

namespace Phase
variable {α β ε : Type}

def bind (p : Phase α) (k : α → Phase β) : Phase β :=
  match p.result with
  | .error stop => ⟨p.ops, .error stop⟩
  | .ok a => ⟨p.ops ++ (k a).ops, (k a).result⟩

instance : Monad Phase where
  pure a := ⟨[], .ok a⟩
  bind := bind

def print (ops : List ConsoleOp) : Phase Unit := ⟨ops, .ok ()⟩

/-- `Option::expect` -/
def require (o : Option α) (message : Text.Str) : Phase α :=
  ⟨[], match o with
    | some a => .ok a
    | none => .error (.missing message)⟩

/-- `Result::expect`, after some output -/
def visit (stop : ε → Stop) (r : Run ε α × List ConsoleOp) : Phase α :=
  ⟨r.2, match r.1 with
    | .ok a => .ok a
    | .error (.err e) => .error (stop e)
    | .error (.panic p) => .error (.panicked p)⟩

def expect (stop : ε → Stop) (r : Run ε α) : Phase α := visit stop (r, [])

end Phase

/-! ## `kernel_main` -/

structure BootInfo where
  framebuffer : Bool
  memoryRegions : List MemoryRegion
  physicalMemoryOffset : Option Nat
  ramdiskAddr : Option Nat
  ramdiskLen : Nat

def greeting : List ConsoleOp :=
  [.clear, println "Hello from kernel".toList, println "Sol OS: x86_64 UEFI framebuffer online".toList,
    println "GDT/TSS/IDT initialized; breakpoint handler returned".toList]

def heapLine (capacity frames consumed : Nat) : ConsoleOp :=
  println ("Heap: ".toList ++ Text.decimal (capacity / 1024) ++ " KiB mapped, ".toList ++ Text.decimal frames ++
    " usable frames (".toList ++ Text.decimal consumed ++ " consumed); alloc online".toList)

def volumeLine (sectors rootCluster : Nat) : ConsoleOp :=
  println ("FAT32 data volume mounted: ".toList ++ Text.decimal sectors ++ " sectors, root cluster ".toList ++
    Text.decimal rootCluster)

/-- a line of the listing -/
def bootLine (isDirectory : Bool) (size : Nat) (name : Text.Str) : ConsoleOp :=
  println ([' ', ' '] ++ (if isDirectory then "<DIR>".toList else "     ".toList) ++ [' '] ++
    Text.padLeft ' ' 7 (Text.decimal size) ++ [' '] ++ name)

def bootEntry (ops : List ConsoleOp) (entry : DirEntry) : Bool × List ConsoleOp :=
  (true, ops ++ [bootLine entry.isDirectory entry.size entry.nameStr])

def helloPath : Text.Str := "HELLO.TXT".toList

def helloText (bytes : List UInt8) : ConsoleOp :=
  .print ((Text.fromUtf8 bytes).getD "<non-UTF-8 file data>".toList)

def helloChunk (ops : List ConsoleOp) (bytes : List UInt8) : List ConsoleOp := ops ++ [helloText bytes]

/-- `println!()` after the file, and the line after the interrupts are enabled -/
def readyLines : List ConsoleOp :=
  [println [], println "PIT and PS/2 IRQ1 enabled; keyboard input will echo below.".toList]

section
variable (memory : Nat → UInt8) {μ : Type} (mapTo : μ → Nat → Nat → FrameProg μ) (mapper : μ) (info : BootInfo)

/-- up to the heap: the frames that the memory map offers, and the heap -/
def bootMemory : Phase (List Nat × HeapMap μ) := do
  let _ ← Phase.require (if info.framebuffer then some () else none) "UEFI did not provide a framebuffer".toList
  Phase.print greeting
  let _ ← Phase.require info.physicalMemoryOffset "bootloader did not map physical memory".toList
  let out ← Phase.expect (Stop.mapping "heap mapping failed".toList)
    (initHeap mapTo mapper ⟨info.memoryRegions, 0⟩ .new)
  let frames ← Phase.expect Empty.elim out.frameAllocator.usableFrames
  Phase.print [heapLine out.allocator.capacity frames.length out.frameAllocator.next]
  pure (frames, out)

/-- the volume -/
def bootVolume : Phase Fat32 := do
  let disk ← Phase.expect (Stop.storage "bootloader did not provide the FAT32 ramdisk".toList)
    (RamDiskBlockDevice.fromBootInfo memory info.ramdiskAddr info.ramdiskLen)
  let fs ← Phase.expect (Stop.fs "FAT32 mount failed".toList) (mount disk.device)
  Phase.print [volumeLine disk.device.sectorCount fs.rootCluster]
  Phase.visit (Stop.fs "root directory read failed".toList) (listDir fs ['/'] bootEntry [])
  Phase.print [.print "HELLO.TXT: ".toList]
  let _ ← Phase.visit (Stop.fs "HELLO.TXT read failed".toList) (readFile fs helloPath helloChunk [])
  Phase.print readyLines
  pure fs

/-- the result are the arguments of `shell::run` -/
def kernelMain : Phase (Fat32 × SystemInfo) := do
  let (frames, out) ← bootMemory mapTo mapper info
  let fs ← bootVolume memory info
  pure (fs, ⟨frames.length, out.frameAllocator.next⟩)

end

/-! ## the loader's side -/

/-- `main_inner`: `ramdisk_addr` and `ramdisk_len` of the boot information; the buffer lies at `address` -/
def ramdiskFields (load : Load) (address : Nat) : Option Nat × Nat :=
  match load.1 with
  | some data => (some address, data.length)
  | none => (none, 0)

/-- the partition that the search finds -/
def BootServices.partition (services : BootServices) : Option BlockIo := do
  let handles ← services.handles
  let handle ← handles.find? PartitionHandle.isSolData
  handle.blockIo

/-! ## the boot on a tree -/

section
variable (root : Entries)

/-- `sectors` and `rootCluster` are printed; the result is that of the step before -/
def treeBoot (fs : Fat32) (sectors rootCluster : Nat) : Phase Fat32 := do
  Phase.print (volumeLine sectors rootCluster :: root.map fun x => bootLine (nodeIsDir x.2) (nodeSize x.2) x.1)
  Phase.print [.print "HELLO.TXT: ".toList]
  let _ ← Phase.visit (Stop.fs "HELLO.TXT read failed".toList) (readTree root helloPath helloChunk [])
  Phase.print readyLines
  pure fs

end

/-! ## equal disks -/

section
variable {d d' : RamDiskBlockDevice}

/-- a device shows only the bytes of its slice -/
theorem device_congr (hlen : d'.length = d.length) (hbyte : ∀ i < d.length, d'.byte i = d.byte i) :
    d'.device = d.device := by
  have hrange : d'.range = d.range := by
    funext start end_
    unfold RamDiskBlockDevice.range
    rw [hlen]
    by_cases h : start ≤ end_ ∧ end_ ≤ d.length
    · rw [if_pos h, if_pos h]
      congr 1
      apply List.map_congr_left
      intro i hi
      rw [List.mem_range] at hi
      exact hbyte _ (by omega)
    · rw [if_neg h, if_neg h]
  have hread : d'.readSector = d.readSector := by
    funext lba
    unfold RamDiskBlockDevice.readSector
    rw [hrange]
  unfold RamDiskBlockDevice.device
  rw [hlen, hread]

theorem sector_byte (lba : Nat) {j : Nat} (h : j < sectorSize) :
    (d.sector lba).val[j]? = some (d.byte (lba * sectorSize + j)) := by
  simp only [RamDiskBlockDevice.sector]
  rw [List.getElem?_map, List.getElem?_range h]
  rfl

/-- the snapshot of a partition whose blocks are the sectors of `d` -/
theorem snapshot_device {services : BootServices} {device : BlockIo} (hdevice : services.partition = some device)
    {data : List UInt8} {reads : List Read} (hload : loadSolDataPartition services .disk = (some data, reads))
    {memory : Nat → UInt8} {address : Nat} (hmemory : ∀ i < data.length, data[i]? = some (memory (address + i)))
    (hlen : d.length = solDataBytes)
    (hblocks : ∀ lba, (lba + 1) * sectorSize ≤ d.length → device.block lba = (d.sector lba).val) :
    ∃ disk, RamDiskBlockDevice.fromBootInfo memory (some address) data.length = .ok disk ∧
      disk.device = d.device := by
  obtain ⟨device', hfetched, hdata⟩ := loadSolDataPartitionFromDisk_some hload
  obtain rfl : device' = device := by
    obtain ⟨handles, handle, hhandles, hfind, hblock⟩ := hfetched.found
    rw [BootServices.partition, hhandles] at hdevice
    simp only [Option.bind_eq_bind, Option.bind_some, hfind, hblock] at hdevice
    exact Option.some.inj hdevice
  have hsize : data.length = d.length := hdata.1.trans hlen.symm
  have hpos : 0 < data.length := hsize ▸ d.length_pos
  have hmod : data.length % sectorSize = 0 := hsize ▸ d.length_mod
  refine ⟨_, fromBootInfo_eq_ok hpos hmod, device_congr hsize ?_⟩
  intro i hi
  -- byte `i` is in block `i / 512`, which is a sector of `d`
  have hin : (i / 512 + 1) * sectorSize ≤ d.length := by
    have hm := d.length_mod
    unfold sectorSize at hm ⊢
    omega
  have hlt : i % 512 < sectorSize := by
    unfold sectorSize
    omega
  have hindex : i / 512 * sectorSize + i % 512 = i := by
    unfold sectorSize
    omega
  have hbyte := hdata.2 i (hsize ▸ hi)
  rw [hmemory i (hsize ▸ hi), hblocks _ hin, sector_byte _ hlt, hindex] at hbyte
  exact Option.some.inj hbyte

end

/-! ## the phases -/

section
variable {μ : Type} {mapTo : μ → Nat → Nat → FrameProg μ} {mapper : μ} {info : BootInfo} {out : HeapMap μ}

theorem bootMemory_eq (hframebuffer : info.framebuffer = true) (hoffset : info.physicalMemoryOffset.isSome = true)
    (hmap : MapOk info.memoryRegions) (hheap : initHeap mapTo mapper ⟨info.memoryRegions, 0⟩ .new = .ok out) :
    bootMemory mapTo mapper info
      = ⟨greeting ++ [heapLine heapSize (offered info.memoryRegions).length out.frameAllocator.next],
          .ok (offered info.memoryRegions, out)⟩ := by
  obtain ⟨offset, hoffset⟩ := Option.isSome_iff_exists.mp hoffset
  obtain ⟨hheapAllocator, ⟨next, hallocator⟩, _⟩ := initHeap_frames hmap hheap
  have hcapacity : out.allocator.capacity = heapSize := by
    rw [hheapAllocator]
    exact Nat.add_sub_cancel_left _ _
  have hframes : (out.frameAllocator.usableFrames : Run Empty _) = .ok (offered info.memoryRegions) := by
    rw [hallocator]
    exact usableFrames_ok hmap next
  unfold bootMemory
  rw [hframebuffer, hoffset, hheap, ← hcapacity]
  show Phase.bind _ _ = _
  simp only [Phase.bind, Phase.require, Phase.print, Phase.expect, Phase.visit, bind, if_true, hframes]
  rfl

theorem bootVolume_eq {memory : Nat → UInt8} {disk d : RamDiskBlockDevice} {fs : Fat32} {root : Entries}
    (hdisk : RamDiskBlockDevice.fromBootInfo memory info.ramdiskAddr info.ramdiskLen = .ok disk)
    (hdevice : disk.device = d.device) (hm : mount d.device = .ok fs)
    (hs : StoresDir d fs fs.rootCluster root) :
    bootVolume memory info = treeBoot root fs d.device.sectorCount fs.rootCluster := by
  obtain ⟨_, _, hd, h⟩ := mount_ok hm
  have hlist : listDir fs ['/'] bootEntry []
      = (.ok (), root.map fun x => bootLine (nodeIsDir x.2) (nodeSize x.2) x.1) := by
    obtain ⟨xs, heach, hfeed⟩ := listDir_agrees h hd hs ['/']
    have hlines : ∀ ops e, bootEntry ops e = (true, ops ++ [bootLine e.isDirectory e.size e.nameStr]) :=
      fun _ _ => rfl
    rw [hfeed, feed_lines hlines heach]
    rfl
  unfold bootVolume treeBoot
  rw [hdisk]
  show Phase.bind _ _ = Phase.bind _ _
  simp only [Phase.bind, Phase.print, Phase.expect, Phase.visit, bind, hdevice, hm, hlist,
    readFile_agrees h hd hs helloPath helloChunk, List.nil_append]
  rfl

theorem treeBoot_result (root : Entries) (fs : Fat32) (sectors rootCluster : Nat) :
    (treeBoot root fs sectors rootCluster).result
      = (Phase.visit (Stop.fs "HELLO.TXT read failed".toList) (readTree root helloPath helloChunk [])).result.map
          fun _ => fs := by
  unfold treeBoot
  show (Phase.bind _ _).result = _
  simp only [Phase.bind, Phase.print, bind]
  cases (Phase.visit (Stop.fs "HELLO.TXT read failed".toList) (readTree root helloPath helloChunk [])).result with
  | error stop => rfl
  | ok n => rfl

/-- the boot goes through when there is a file to greet with -/
theorem treeBoot_ok_iff (root : Entries) (fs : Fat32) (sectors rootCluster : Nat) :
    (treeBoot root fs sectors rootCluster).result = .ok fs ↔
      ∃ content, descendTo root helloPath = .ok (.file content) := by
  rw [treeBoot_result]
  unfold readTree
  cases descendTo root helloPath with
  | error m => exact iff_of_false nofun fun h => nomatch h
  | ok n =>
    cases n with
    | dir entries => exact iff_of_false nofun fun h => nomatch h
    | file content => exact iff_of_true rfl ⟨content, rfl⟩

/-- without a snapshot the kernel does not get to the shell -/
theorem kernelMain_of_none {memory : Nat → UInt8} (h : info.ramdiskAddr = none) (x : Fat32 × SystemInfo) :
    (kernelMain memory mapTo mapper info).result ≠ .ok x := by
  have hvolume : (bootVolume memory info).result
      = .error (.storage "bootloader did not provide the FAT32 ramdisk".toList .missingRamdisk) := by
    unfold bootVolume
    rw [h]
    rfl
  unfold kernelMain
  show (Phase.bind _ _).result ≠ _
  unfold Phase.bind
  cases (bootMemory mapTo mapper info).result with
  | error stop => exact nofun
  | ok frames =>
    show (Phase.bind _ _).result ≠ _
    unfold Phase.bind
    rw [hvolume]
    exact nofun

end

/-- **the kernel boots to a shell over the tree on the medium.**  The loader finds a partition `sol-data`
that holds the disk `d`, on which the tree `root` is stored, and reads it; the boot information names the
buffer.  If the heap can be mapped, the kernel prints what it should print about the machine and about the
tree, and goes on to the shell exactly if the root directory has a file `HELLO.TXT`; the commands of this
shell show the tree.  When the kernel was loaded over the network there is no snapshot, and the shell is never
reached. -/
theorem boot_shows_tree (services : BootServices) (device : BlockIo) (hdevice : services.partition = some device)
    (data : List UInt8) (reads : List Read) (hload : loadSolDataPartition services .disk = (some data, reads))
    (memory : Nat → UInt8) (address : Nat) (hmemory : ∀ i < data.length, data[i]? = some (memory (address + i)))
    (d : RamDiskBlockDevice) (hlen : d.length = solDataBytes)
    (hblocks : ∀ lba, (lba + 1) * sectorSize ≤ d.length → device.block lba = (d.sector lba).val)
    (fs : Fat32) (hm : mount d.device = .ok fs) (root : Entries) (hs : StoresDir d fs fs.rootCluster root)
    (μ : Type) (mapTo : μ → Nat → Nat → FrameProg μ) (mapper : μ) (info : BootInfo)
    (hfields : (info.ramdiskAddr, info.ramdiskLen) = ramdiskFields (loadSolDataPartition services .disk) address)
    (hframebuffer : info.framebuffer = true) (hoffset : info.physicalMemoryOffset.isSome = true)
    (hmap : MapOk info.memoryRegions) (out : HeapMap μ)
    (hheap : initHeap mapTo mapper ⟨info.memoryRegions, 0⟩ .new = .ok out) :
    (kernelMain memory mapTo mapper info).ops
        = greeting ++ [heapLine heapSize (offered info.memoryRegions).length out.frameAllocator.next] ++
          (treeBoot root fs 131072 fs.rootCluster).ops ∧
      ((kernelMain memory mapTo mapper info).result
          = .ok (fs, ⟨(offered info.memoryRegions).length, out.frameAllocator.next⟩) ↔
        ∃ content, descendTo root helloPath = .ok (.file content)) ∧
      ls fs = treeLs root ∧ cat fs = treeCat root ∧
      ∀ info' : BootInfo, (info'.ramdiskAddr, info'.ramdiskLen)
          = ramdiskFields (loadSolDataPartition services .tftp) address →
        ∀ x, (kernelMain memory mapTo mapper info').result ≠ .ok x := by
  obtain ⟨disk, hdisk, hsame⟩ := snapshot_device hdevice hload hmemory hlen hblocks
  rw [hload] at hfields
  obtain ⟨haddr, hramlen⟩ := Prod.mk.injEq .. ▸ hfields
  rw [← haddr, ← hramlen] at hdisk
  have hcount : d.device.sectorCount = 131072 := by
    show d.length / sectorSize = _
    rw [hlen]
    rfl
  have hvolume := bootVolume_eq hdisk hsame hm hs
  rw [hcount] at hvolume
  have hmemory := bootMemory_eq hframebuffer hoffset hmap hheap
  obtain ⟨_, _, hd, h⟩ := mount_ok hm
  have hmain : kernelMain memory mapTo mapper info
      = ⟨greeting ++ [heapLine heapSize (offered info.memoryRegions).length out.frameAllocator.next] ++
          (treeBoot root fs 131072 fs.rootCluster).ops,
          (treeBoot root fs 131072 fs.rootCluster).result.map fun fs =>
            (fs, ⟨(offered info.memoryRegions).length, out.frameAllocator.next⟩)⟩ := by
    unfold kernelMain
    rw [hmemory, hvolume]
    show Phase.bind _ _ = _
    simp only [Phase.bind, bind]
    cases (treeBoot root fs 131072 fs.rootCluster).result with
    | error stop => rfl
    | ok fs' =>
      dsimp only [pure]
      rw [List.append_nil]
      rfl
  have htree := treeBoot_ok_iff root fs 131072 fs.rootCluster
  refine ⟨by rw [hmain], ?_, funext fun _ => ls_eq h hd hs _, funext fun _ => cat_eq h hd hs _, ?_⟩
  · rw [hmain, ← htree]
    cases (treeBoot root fs 131072 fs.rootCluster).result with
    | error stop => exact iff_of_false nofun nofun
    | ok fs' =>
      show Except.ok (fs', _) = Except.ok (fs, _) ↔ _
      simp
  · intro info' hfields' x
    exact kernelMain_of_none (congrArg Prod.fst hfields') x

/-- a medium with the disk of `Fat.helloDisk` -/
def helloDevice : BlockIo where
  media := ⟨7, true, true, 512, 4096, 131071⟩
  block lba := (helloDisk.sector lba).val
  block_length lba := (helloDisk.sector lba).property
  fails _ _ _ := false

theorem helloDevice_block (lba : Nat) : helloDevice.block lba = (helloDisk.sector lba).val := by
  simp only [helloDevice]

def helloHandle : PartitionHandle := { solDataHandle with blockIo := some helloDevice }

def helloServices : BootServices := zeroedPages.offering [helloHandle]

theorem helloServices_load : ∃ data reads, loadSolDataPartition helloServices .disk = (some data, reads) := by
  have hfind : [helloHandle].find? PartitionHandle.isSolData = some helloHandle := rfl
  have hsupported : helloDevice.media.Supported := ⟨rfl, rfl, rfl, by decide, rfl⟩
  show ∃ data reads, loadSolDataPartitionFromDisk (zeroedPages.offering [helloHandle]) = (some data, reads)
  rw [loadSolDataPartitionFromDisk_offering, hfind, attempt_some]
  exact loadPartition_of_readable rfl hsupported (fun _ _ _ => rfl) rfl

/-- where the loader has put the buffer: above the usable memory -/
def helloAddress : Nat := 0x8000000

/-- the buffer in the memory that the kernel sees -/
def helloMemory (a : Nat) : UInt8 := if helloAddress ≤ a then helloDisk.byte (a - helloAddress) else 0

def helloInfo : BootInfo := ⟨true, sixteenMegabytes, some 0x18000000000, some helloAddress, solDataBytes⟩

theorem boot_shows_tree_hello :
    ∃ out : HeapMap PageTable.Entry,
      initHeap offsetMapTo bootTable ⟨sixteenMegabytes, 0⟩ .new = .ok out ∧
      (kernelMain helloMemory offsetMapTo bootTable helloInfo).result
        = .ok (helloVolume, ⟨4096, out.frameAllocator.next⟩) := by
  obtain ⟨data, reads, hload⟩ := helloServices_load
  obtain ⟨device, hfetched, hdata⟩ := loadSolDataPartitionFromDisk_some hload
  obtain rfl : helloDevice = device := by
    obtain ⟨handles, handle, hhandles, hfind, hblock⟩ := hfetched.found
    obtain rfl := Option.some.inj hhandles
    obtain rfl : helloHandle = handle := Option.some.inj hfind
    exact Option.some.inj hblock
  obtain ⟨out, hheap⟩ := bootTable_initHeap
  have hmemory : ∀ i < data.length, data[i]? = some (helloMemory (helloAddress + i)) := by
    intro i hi
    have hlt : i % 512 < sectorSize := by
      unfold sectorSize
      omega
    have hindex : i / 512 * sectorSize + i % 512 = i := by
      unfold sectorSize
      omega
    rw [hdata.2 i hi, helloMemory, if_pos (Nat.le_add_right _ _), Nat.add_sub_cancel_left, helloDevice_block,
      sector_byte _ hlt, hindex]
  have hfields : (helloInfo.ramdiskAddr, helloInfo.ramdiskLen)
      = ramdiskFields (loadSolDataPartition helloServices .disk) helloAddress := by
    rw [hload]
    show (some helloAddress, solDataBytes) = (some helloAddress, data.length)
    rw [hdata.1]
  obtain ⟨_, hresult, _⟩ := boot_shows_tree helloServices helloDevice rfl data reads hload helloMemory helloAddress
    hmemory helloDisk rfl (fun lba _ => helloDevice_block lba) helloVolume helloDisk_mount helloTree helloDisk_stores
    PageTable.Entry offsetMapTo bootTable helloInfo hfields rfl rfl sixteenMegabytes_ok out hheap
  rw [show helloInfo.memoryRegions = sixteenMegabytes from rfl, sixteenMegabytes_length] at hresult
  exact ⟨out, hheap, hresult.mpr ⟨[0x68, 0x69, 0x21], rfl⟩⟩

end Boot
end SolOs
