import SolOs.Lib.Utf8
import SolOs.Fat32.Read
import SolOs.Shell.Execute

/-!
# What `cat` prints

`read_file` passes a file on sector by sector, and `print_file_chunk` looks at every slice on its own.  A
character that lies across a sector boundary is not recognised.

* `printed ops`             the text of a sequence of console operations;
* `printed_chunks_eq_iff`   slices of a text print that text iff each of them is a text;
* `readFile_collect`        the slices of a file;
* `cat_prints_content_iff`  **when `cat` prints the content of a file.**
-/

set_option linter.unusedVariables false

namespace SolOs
namespace Shell
open Checked Console Text

/-! ## printed text -/

def printed (ops : List ConsoleOp) : Str := ops.flatMap opText

@[simp] theorem printed_append (ops ops' : List ConsoleOp) :
    printed (ops ++ ops') = printed ops ++ printed ops' := List.flatMap_append

theorem printed_chunk_of_some {bytes : List UInt8} {text : Str} (h : fromUtf8 bytes = some text) :
    printed (printFileChunk bytes) = text := by
  unfold printFileChunk
  rw [h]
  exact List.append_nil text

/-- a byte has one or two hexadecimal digits -/
theorem toDigits_ascii {n : Nat} (h : n < 256) : ∀ c ∈ Nat.toDigits 16 n, c.toNat < 128 := by
  have hdigit : ∀ d < 16, (Nat.digitChar d).toNat < 128 := by decide
  have hhigh : n / 16 < 16 := by omega
  rw [Nat.toDigits_eq_if (by norm_num), Nat.toDigits_of_lt_base hhigh]
  intro c hc
  split at hc
  · next hlow =>
    rw [List.mem_singleton.mp hc]
    exact hdigit n hlow
  · rcases List.mem_append.mp hc with hc | hc
    · rw [List.mem_singleton.mp hc]
      exact hdigit _ hhigh
    · rw [List.mem_singleton.mp hc]
      exact hdigit _ (Nat.mod_lt n (by norm_num))

/-- the bytes of a slice that is not UTF-8 are printed in ASCII -/
theorem printFileByte_ascii (byte : UInt8) : ∀ c ∈ opText (printFileByte byte), c.toNat < 128 := by
  unfold printFileByte
  intro c hc
  split at hc
  · next hplain =>
    have hbyte : byte.toNat < 128 := by
      simp only [isAsciiGraphic, Bool.or_eq_true, Bool.and_eq_true, decide_eq_true_eq] at hplain
      rcases hplain with ((h | rfl) | rfl) | rfl
      · omega
      all_goals decide
    have hchar : c = Char.ofNat byte.toNat := List.mem_singleton.mp hc
    have hcode : (Char.ofNat byte.toNat).toNat = byte.toNat := by
      rw [Char.toNat_ofNat, if_pos (Or.inl (by omega))]
    rw [hchar, hcode]
    exact hbyte
  · rcases List.mem_append.mp hc with hc | hc
    · rcases List.mem_pair.mp hc with rfl | rfl <;> decide
    · rcases List.mem_append.mp hc with hc | hc
      · rw [List.eq_of_mem_replicate hc]
        decide
      · exact toDigits_ascii byte.toNat_lt c hc

theorem printed_chunk_of_none {bytes : List UInt8} (h : fromUtf8 bytes = none) :
    ∀ c ∈ printed (printFileChunk bytes), c.toNat < 128 := by
  unfold printFileChunk
  rw [h]
  intro c hc
  obtain ⟨op, hop, hc⟩ := List.mem_flatMap.mp hc
  obtain ⟨byte, _, rfl⟩ := List.mem_map.mp hop
  exact printFileByte_ascii byte c hc

/-- a slice loses the bytes that are not ASCII unless it is a text -/
theorem wide_chunk (bytes : List UInt8) :
    wide (utf8 (printed (printFileChunk bytes))) ≤ wide bytes ∧
      (wide (utf8 (printed (printFileChunk bytes))) = wide bytes → ∃ s, fromUtf8 bytes = some s) := by
  cases h : fromUtf8 bytes with
  | some text =>
    rw [printed_chunk_of_some h, ← fromUtf8_eq_some_iff.mp h]
    exact ⟨le_rfl, fun _ => ⟨text, rfl⟩⟩
  | none =>
    have hpos := wide_pos_of_fromUtf8 h
    rw [wide_utf8_of_ascii (printed_chunk_of_none h)]
    exact ⟨Nat.zero_le _, fun hzero => absurd hzero hpos.ne⟩

theorem wide_chunks (slices : List (List UInt8)) :
    wide (utf8 (printed (slices.flatMap printFileChunk))) ≤ wide slices.flatten ∧
      (wide (utf8 (printed (slices.flatMap printFileChunk))) = wide slices.flatten →
        ∀ slice ∈ slices, ∃ s, fromUtf8 slice = some s) := by
  induction slices with
  | nil => exact ⟨le_rfl, fun _ _ hs => absurd hs List.not_mem_nil⟩
  | cons slice slices ih =>
    obtain ⟨hle, heq⟩ := wide_chunk slice
    obtain ⟨hle', heq'⟩ := ih
    rw [List.flatMap_cons, printed_append, utf8_append, wide_append, List.flatten_cons, wide_append]
    refine ⟨Nat.add_le_add hle hle', ?_⟩
    intro hsum other hother
    rcases List.mem_cons.mp hother with rfl | hother
    · exact heq (by omega)
    · exact heq' (by omega) other hother

/-- slices that are texts are printed as they are -/
theorem fromUtf8_printed {slices : List (List UInt8)} (h : ∀ slice ∈ slices, ∃ s, fromUtf8 slice = some s) :
    fromUtf8 slices.flatten = some (printed (slices.flatMap printFileChunk)) := by
  induction slices with
  | nil => exact fromUtf8_eq_some_iff.mpr rfl
  | cons slice slices ih =>
    obtain ⟨s, hs⟩ := h slice List.mem_cons_self
    rw [List.flatten_cons, List.flatMap_cons, printed_append, printed_chunk_of_some hs]
    exact fromUtf8_append hs (ih (fun other ho => h other (List.mem_cons_of_mem _ ho)))

/-- **slices of a text print that text iff each of them is a text** -/
theorem printed_chunks_eq_iff {slices : List (List UInt8)} {text : Str}
    (h : fromUtf8 slices.flatten = some text) :
    printed (slices.flatMap printFileChunk) = text ↔ ∀ slice ∈ slices, ∃ s, fromUtf8 slice = some s := by
  constructor
  · intro hprinted
    apply (wide_chunks slices).2
    rw [hprinted, ← fromUtf8_eq_some_iff.mp h]
  · intro hall
    exact Option.some.inj ((fromUtf8_printed hall).symm.trans h)

/-! ## the slices of a file -/

/-- the bytes of a file: those of its chain, cut at its size -/
def fileContent (fs : Fat.Fat32) (d : Storage.RamDiskBlockDevice) (entry : Fat.DirEntry) : List UInt8 :=
  (Fat.chainBytes fs d entry).take entry.size

/-- the visitor that keeps the slices -/
def collect (slices : List (List UInt8)) (slice : List UInt8) : List (List UInt8) := slices ++ [slice]

theorem foldl_collect (slices kept : List (List UInt8)) : slices.foldl collect kept = kept ++ slices := by
  induction slices generalizing kept with
  | nil => exact (List.append_nil kept).symm
  | cons slice slices ih => rw [List.foldl_cons, ih, collect, List.append_assoc, List.singleton_append]

theorem foldl_printFileChunk (slices : List (List UInt8)) (ops : List ConsoleOp) :
    slices.foldl (fun ops bytes => ops ++ printFileChunk bytes) ops
      = ops ++ slices.flatMap printFileChunk := by
  induction slices generalizing ops with
  | nil => exact (List.append_nil ops).symm
  | cons slice slices ih => rw [List.foldl_cons, ih, List.flatMap_cons, List.append_assoc]

section
variable {fs : Fat.Fat32} {d : Storage.RamDiskBlockDevice} {total : Nat} {path : Str}
  {entry : Fat.DirEntry} {k : Nat} {slices : List (List UInt8)}

/-- the slices that a successful `read_file` passes on -/
structure Delivered (fs : Fat.Fat32) (d : Storage.RamDiskBlockDevice) (path : Str)
    (entry : Fat.DirEntry) (k : Nat) (slices : List (List UInt8)) : Prop where
  visits : ∀ {σ : Type} (visit : σ → List UInt8 → σ) (s : σ),
    Fat.readFile fs path visit s = (.ok k, slices.foldl visit s)
  content : slices.flatten = fileContent fs d entry
  size : ∀ slice ∈ slices, slice ≠ [] ∧ slice.length ≤ Storage.sectorSize
  full : ∀ slice ∈ slices.dropLast, slice.length = Storage.sectorSize

theorem readFile_collect (h : fs.Ok total) (hd : fs.device = d.device)
    (hp : Fat.resolvePath fs path = .ok entry)
    (hread : Fat.readFile fs path collect [] = (.ok k, slices)) : Delivered fs d path entry k slices := by
  obtain ⟨hfile, hvalid⟩ := Fat.readFile_of_ok h hp (congrArg Prod.fst hread)
  by_cases hsize : entry.size = 0
  · have hempty : ∀ {σ : Type} (visit : σ → List UInt8 → σ) (s : σ),
        Fat.readFile fs path visit s = (.ok 0, s) := Fat.readFile_of_empty hp hfile hsize
    obtain ⟨hk, rfl⟩ := Prod.mk.inj ((hempty collect []).symm.trans hread)
    refine ⟨fun visit s => (hempty visit s).trans (by rw [hk]; rfl), ?_, by simp, by simp⟩
    unfold fileContent
    rw [hsize]
    rfl
  · have hslices : ∀ {σ : Type} (visit : σ → List UInt8 → σ) (s : σ), Fat.readFile fs path visit s
        = (Fat.fileResult fs d entry, (Fat.fileSlices fs d entry).foldl visit s) :=
      Fat.readFile_eq h hd hp hfile (Nat.pos_of_ne_zero hsize) (hvalid hsize)
    obtain ⟨hk, hs⟩ := Prod.mk.inj ((hslices collect []).symm.trans hread)
    rw [foldl_collect, List.nil_append] at hs
    subst hs
    obtain ⟨_, hn, _⟩ := Fat.fileResult_eq_ok_iff.mp hk
    refine ⟨fun visit s => (hslices visit s).trans (by rw [hk]), ?_, ?_, ?_⟩
    · rw [Fat.flatten_fileSlices, Fat.fileClusters_of_le hn]
      rfl
    · exact Pieces.length_of_mem_shorten (by norm_num [Storage.sectorSize])
        (fun _ hs => Fat.length_of_mem_sectors hs)
    · exact Pieces.length_of_mem_dropLast_shorten (fun _ hs => Fat.length_of_mem_sectors hs)

/-- the slices of a text file print it iff every sector starts with a character -/
theorem Delivered.printed_eq_iff (h : Delivered fs d path entry k slices) {text : Str}
    (htext : fromUtf8 (fileContent fs d entry) = some text) :
    printed (slices.flatMap printFileChunk) = text ↔
      ∀ i b, 0 < i → (fileContent fs d entry)[Storage.sectorSize * i]? = some b → b.IsUTF8FirstByte := by
  rw [← h.content] at htext ⊢
  rw [printed_chunks_eq_iff htext, forall_fromUtf8_iff (fun slice hs => (h.size slice hs).1) htext]
  exact Pieces.heads_iff h.size h.full

theorem Delivered.cat_eq (h : Delivered fs d path entry k slices) :
    cat fs [path] = .done (slices.flatMap printFileChunk ++ [.print ['\n']]) := by
  show report ['c', 'a', 't'] [.print ['\n']] (Fat.readFile fs path _ []) = _
  rw [h.visits, foldl_printFileChunk, List.nil_append]
  rfl

end

/-- **when `cat` prints the content of a file.**  For a file that is read and whose content is UTF-8: the
texts that are printed for its slices are the content exactly if every sector after the first starts with
the first byte of a character. -/
theorem cat_prints_content_iff (d : Storage.RamDiskBlockDevice) (fs : Fat.Fat32)
    (hm : Fat.mount d.device = .ok fs) (path : Str) (entry : Fat.DirEntry)
    (hp : Fat.resolvePath fs path = .ok entry) (k : Nat) (slices : List (List UInt8))
    (hread : Fat.readFile fs path collect [] = (.ok k, slices)) (text : Str)
    (htext : fromUtf8 (fileContent fs d entry) = some text) :
    cat fs [path] = .done (slices.flatMap printFileChunk ++ [.print ['\n']]) ∧
      slices.flatten = fileContent fs d entry ∧
      (printed (slices.flatMap printFileChunk) = text ↔
        ∀ i b, 0 < i → (fileContent fs d entry)[Storage.sectorSize * i]? = some b →
          b.IsUTF8FirstByte) := by
  obtain ⟨_, _, hd, h⟩ := Fat.mount_ok hm
  have hslices := readFile_collect h hd hp hread
  exact ⟨hslices.cat_eq, hslices.content, hslices.printed_eq_iff htext⟩

/-- a file of two clusters, slice by slice -/
theorem collect_reads {d : Storage.RamDiskBlockDevice} {fs : Fat.Fat32} {size next : Nat}
    (h : Fat.HoldsFile d fs size next) (hvalid : fs.Valid 3) (hneed : fs.clustersFor size = 2) :
    ∃ e slices, Fat.resolvePath fs ['F'] = .ok e ∧ e.size = size ∧ e.firstCluster = 3 ∧
      Fat.readFile fs ['F'] collect [] = (.ok size, slices) := by
  obtain ⟨e, hp, hsize, hfirst, hreads⟩ := h.reads hvalid hneed
  exact ⟨e, _, hp, hsize, hfirst, hreads collect []⟩

/-- 513 zero bytes are printed as they are -/
theorem cat_prints_content_iff_chainDisk :
    ∃ slices, Fat.readFile Fat.chainVolume ['F'] collect [] = (.ok 513, slices) ∧
      printed (slices.flatMap printFileChunk) = List.replicate 513 '\x00' := by
  obtain ⟨e, slices, hp, hsize, hfirst, hread⟩ := collect_reads Fat.chainDisk_holds (by decide) (by decide)
  have hcontent : fileContent Fat.chainVolume Fat.chainDisk e = List.replicate 513 0 := by
    unfold fileContent Fat.chainBytes
    rw [hsize, hfirst]
    decide +kernel
  have htext : fromUtf8 (fileContent Fat.chainVolume Fat.chainDisk e)
      = some (List.replicate 513 '\x00') := by
    rw [hcontent, fromUtf8_eq_some_iff]
    decide +kernel
  refine ⟨slices, hread, ?_⟩
  apply (cat_prints_content_iff Fat.chainDisk Fat.chainVolume Fat.chainDisk_holds.mount_eq ['F'] e hp 513
    slices hread _ htext).2.2.mpr
  intro i b _ hb
  rw [hcontent] at hb
  rw [List.eq_of_mem_replicate (List.mem_of_getElem? hb)]
  decide

/-- the same file with a character of two bytes at its end, one in each sector -/
def accentDisk : Storage.RamDiskBlockDevice :=
  Fat.fileDisk 0x04 (0x01, 0x02) [(514 * 512 + 511, 0xc3), (515 * 512, 0xa9)]

def accentVolume : Fat.Fat32 := ⟨accentDisk.device, 1, 1, 512, 513, 2, 65525⟩

theorem accentDisk_escapes :
    ∃ e slices text, Fat.mount accentDisk.device = .ok accentVolume ∧
      Fat.resolvePath accentVolume ['F'] = .ok e ∧
      Fat.readFile accentVolume ['F'] collect [] = (.ok 513, slices) ∧
      fromUtf8 (fileContent accentVolume accentDisk e) = some text ∧
      text = List.replicate 511 '\x00' ++ ['é'] ∧
      printed (slices.flatMap printFileChunk) ≠ text := by
  have hholds : Fat.HoldsFile accentDisk accentVolume 513 4 :=
    Fat.holdsFile_of_fields rfl (by decide +kernel)
  obtain ⟨e, slices, hp, hsize, hfirst, hread⟩ := collect_reads hholds (by decide) (by decide)
  have hcontent : fileContent accentVolume accentDisk e = List.replicate 511 0 ++ [0xc3, 0xa9] := by
    unfold fileContent Fat.chainBytes
    rw [hsize, hfirst]
    decide +kernel
  have htext : fromUtf8 (fileContent accentVolume accentDisk e)
      = some (List.replicate 511 '\x00' ++ ['é']) := by
    rw [hcontent, fromUtf8_eq_some_iff]
    decide +kernel
  obtain ⟨_, _, hd, h⟩ := Fat.mount_ok hholds.mount_eq
  refine ⟨e, slices, _, hholds.mount_eq, hp, hread, htext, rfl, ?_⟩
  rw [ne_eq, (readFile_collect h hd hp hread).printed_eq_iff htext, hcontent]
  intro hall
  exact absurd (hall 1 0xa9 Nat.one_pos (by decide +kernel)) (by decide)

end Shell
end SolOs
