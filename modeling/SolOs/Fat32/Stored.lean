import SolOs.Lib.Hierarchy
import SolOs.Fat32.Paths

/-!
# FAT32: the tree of files on a volume

What the file system is for: a tree of directories and files, in which a path leads to a node.  A volume
stores a tree when the records of every directory are those of its entries and the chain of every file
holds its bytes.  Where the clusters lie, how large they are and what else is on the disk is not seen.

* `Stores`, `StoresDir`      a record and a cluster that hold a part of the tree;
* `pathWalk_agrees`          the walk over the records is the descent in the tree;
* `readEntry_of_stores`      a file of the tree is read as it is, sector by sector;
* `volume_refines_tree`      **`resolve_path`, `list_dir` and `read_file` are those of the tree.**
-/

set_option linter.unusedVariables false

namespace SolOs
namespace Fat
open Checked Storage Chain Hierarchy Pieces

abbrev Tree := Node Text.Str (List UInt8)

abbrev Entries := List (Text.Str × Tree)

/-- the error for a path that leads nowhere -/
def missError : Miss → FsError
  | .absent => .notFound
  | .notDir => .notDirectory

def descendTo (root : Entries) (path : Text.Str) : Except Miss Tree :=
  descend Text.eqIgnoreAsciiCase root (Text.components path)

/-- the directory that a path names; the path without components names the root -/
def directoryAt (root : Entries) (path : Text.Str) : Except Miss Entries :=
  if Text.components path = [] then .ok root
  else descendTo root path >>= fun n => enter (some n)

def nodeIsDir : Tree → Bool
  | .file _ => false
  | .dir _ => true

/-- the size that the record of a node shows -/
def nodeSize : Tree → Nat
  | .file content => content.length
  | .dir _ => 0

/-! ## what it means to store a tree -/

section
variable (d : RamDiskBlockDevice) (fs : Fat32)

/-- the chain of a directory can be scanned to its end, and `xs` are its live records -/
structure Lists (cluster : Nat) (xs : List DirEntry) : Prop where
  valid : fs.Valid cluster
  listing_eq : listing (directoryRecords d fs cluster) = xs
  ends : scanEnd (directoryRecords d fs cluster) (walk (link fs d) (fs.clusterCount + 1) cluster) = .ok ()

/-- the chain of a file has the clusters that its size needs, and they hold its content -/
structure HoldsContent (e : DirEntry) (content : List UInt8) : Prop where
  size_eq : e.size = content.length
  fits : fs.clustersFor e.size ≤ fs.clusterCount + 1
  reached : content ≠ [] →
    fs.Valid e.firstCluster ∧ ∃ c, walk (link fs d) (fs.clustersFor e.size - 1) e.firstCluster = .ok c
  bytes : (chainBytes fs d e).take e.size = content

inductive Stores : DirEntry → Tree → Prop
  | file {e : DirEntry} {content : List UInt8} (hkind : e.isDirectory = false)
      (hholds : HoldsContent d fs e content) : Stores e (.file content)
  | dir {e : DirEntry} {xs : List DirEntry} {entries : Entries} (hkind : e.isDirectory = true)
      (hsize : e.size = 0) (hlists : Lists d fs e.firstCluster xs)
      (hnames : xs.map DirEntry.nameStr = entries.map Prod.fst)
      (hnodes : ∀ (i : Nat) (x : DirEntry) (n : Text.Str × Tree), xs[i]? = some x → entries[i]? = some n →
        Stores x n.2) : Stores e (.dir entries)

/-- a record for each entry -/
def StoresEach (xs : List DirEntry) (entries : Entries) : Prop :=
  List.Forall₂ (fun x n => x.nameStr = n.1 ∧ Stores d fs x n.2) xs entries

def StoresDir (cluster : Nat) (entries : Entries) : Prop :=
  ∃ xs, Lists d fs cluster xs ∧ StoresEach d fs xs entries

/-- a lookup on the volume, and the same in the tree -/
def Agrees (r : Run FsError DirEntry) : Except Miss Tree → Prop
  | .error m => r = raise (missError m)
  | .ok n => ∃ e, r = .ok e ∧ Stores d fs e n

end

section
variable {d : RamDiskBlockDevice} {fs : Fat32} {total : Nat}

theorem storesEach_iff {xs : List DirEntry} {entries : Entries} :
    StoresEach d fs xs entries ↔ xs.map DirEntry.nameStr = entries.map Prod.fst ∧
      ∀ (i : Nat) (x : DirEntry) (n : Text.Str × Tree), xs[i]? = some x → entries[i]? = some n →
        Stores d fs x n.2 := by
  unfold StoresEach
  constructor
  · intro h
    refine ⟨?_, fun i x n hx hn => ?_⟩
    · rw [← List.forall₂_eq_eq_eq, List.forall₂_map_left_iff, List.forall₂_map_right_iff]
      exact h.imp fun x n hxn => hxn.1
    · obtain ⟨hi, rfl⟩ := List.getElem?_eq_some_iff.mp hx
      obtain ⟨hi', rfl⟩ := List.getElem?_eq_some_iff.mp hn
      exact ((List.forall₂_iff_get.mp h).2 i hi hi').2
  · rintro ⟨hnames, hnodes⟩
    have hlen : xs.length = entries.length := by
      simpa only [List.length_map] using congrArg List.length hnames
    refine List.forall₂_iff_get.mpr ⟨hlen, fun i hi hi' => ⟨?_, ?_⟩⟩
    · have hname := congrArg (fun l => l[i]?) hnames
      simpa [List.getElem?_eq_getElem hi, List.getElem?_eq_getElem hi'] using hname
    · exact hnodes i _ _ (List.getElem?_eq_getElem hi) (List.getElem?_eq_getElem hi')

theorem stores_dir_iff {e : DirEntry} {entries : Entries} :
    Stores d fs e (.dir entries)
      ↔ e.isDirectory = true ∧ e.size = 0 ∧ StoresDir d fs e.firstCluster entries := by
  constructor
  · intro h
    cases h with
    | dir hkind hsize hlists hnames hnodes =>
      exact ⟨hkind, hsize, _, hlists, storesEach_iff.mpr ⟨hnames, hnodes⟩⟩
  · rintro ⟨hkind, hsize, xs, hlists, heach⟩
    obtain ⟨hnames, hnodes⟩ := storesEach_iff.mp heach
    exact .dir hkind hsize hlists hnames hnodes

theorem stores_file_iff {e : DirEntry} {content : List UInt8} :
    Stores d fs e (.file content) ↔ e.isDirectory = false ∧ HoldsContent d fs e content := by
  constructor
  · intro h
    cases h with
    | file hkind hholds => exact ⟨hkind, hholds⟩
  · exact fun h => .file h.1 h.2

/-- what a listing shows of an entry -/
theorem Stores.shown {e : DirEntry} {n : Tree} (h : Stores d fs e n) :
    e.isDirectory = nodeIsDir n ∧ e.size = nodeSize n := by
  cases h with
  | file hkind hholds => exact ⟨hkind, hholds.size_eq⟩
  | dir hkind hsize => exact ⟨hkind, hsize⟩

/-! ## paths -/

/-- one component -/
theorem firstMatch_agrees {cluster : Nat} {entries : Entries} (hs : StoresDir d fs cluster entries)
    (component : Text.Str) :
    Agrees d fs (firstMatch d fs cluster component)
      ((child Text.eqIgnoreAsciiCase entries component).elim (.error .absent) .ok) := by
  obtain ⟨xs, hlists, heach⟩ := hs
  have hchild : Option.Rel (Stores d fs) (xs.find? (matchesName component))
      (child Text.eqIgnoreAsciiCase entries component) := child_of_forall₂ heach component
  unfold firstMatch
  rw [if_pos hlists.valid, hlists.listing_eq, hlists.ends]
  cases hdot : isDot component with
  | true =>
    -- the scan is left out, and it would have found nothing
    have hnone : xs.find? (matchesName component) = none := by
      rw [List.find?_eq_none]
      intro x hx
      rw [matchesName_of_dot _ hdot (hlists.listing_eq ▸ hx)]
      exact Bool.false_ne_true
    rw [hnone] at hchild
    cases hc : child Text.eqIgnoreAsciiCase entries component with
    | none => rfl
    | some n =>
      rw [hc] at hchild
      cases hchild
  | false =>
    rw [if_neg Bool.false_ne_true]
    generalize xs.find? (matchesName component) = found at hchild ⊢
    generalize child Text.eqIgnoreAsciiCase entries component = named at hchild ⊢
    cases hchild with
    | none => rfl
    | some hstored => exact ⟨_, rfl, hstored⟩

theorem pathWalk_agrees {cluster : Nat} {entries : Entries} (hs : StoresDir d fs cluster entries)
    (path : List Text.Str) :
    Agrees d fs (pathWalk d fs cluster path) (descend Text.eqIgnoreAsciiCase entries path) := by
  induction path generalizing cluster entries with
  | nil => rfl
  | cons component rest ih =>
    have hfirst := firstMatch_agrees hs component
    cases rest with
    | nil => exact hfirst
    | cons next rest =>
      unfold pathWalk descend
      cases hchild : child Text.eqIgnoreAsciiCase entries component with
      | none =>
        rw [hchild] at hfirst
        rw [show firstMatch d fs cluster component = raise .notFound from hfirst]
        rfl
      | some n =>
        rw [hchild] at hfirst
        obtain ⟨e, he, hstored⟩ := hfirst
        rw [he, bind_ok]
        cases n with
        | file content =>
          rw [if_neg (by simp [hstored.shown.1, nodeIsDir])]
          rfl
        | dir below =>
          obtain ⟨hkind, _, hbelow⟩ := stores_dir_iff.mp hstored
          rw [if_pos hkind]
          exact ih hbelow

/-! ## files -/

theorem readEntry_of_stores (h : fs.Ok total) (hd : fs.device = d.device) {e : DirEntry}
    {content : List UInt8} (hs : Stores d fs e (.file content)) {σ : Type} (visit : σ → List UInt8 → σ)
    (s : σ) :
    readEntry fs e visit s = (.ok content.length, (chunks sectorSize content).foldl visit s) := by
  obtain ⟨hfile, hholds⟩ := stores_file_iff.mp hs
  by_cases hempty : content = []
  · subst hempty
    rw [readEntry, if_neg (by simp [hfile]), if_pos (by simpa using hholds.size_eq), chunks_nil (by norm_num [sectorSize])]
    rfl
  · obtain ⟨hc, hw⟩ := hholds.reached hempty
    have hpos : 0 < e.size := by
      rw [hholds.size_eq]
      exact List.length_pos_iff.mpr hempty
    have hresult : fileResult fs d e = .ok e.size := fileResult_eq_ok_iff.mpr ⟨rfl, hholds.fits, hw⟩
    have hslices : fileSlices fs d e = chunks sectorSize content := by
      rw [fileSlices, shorten_eq_chunks (by norm_num [sectorSize]) (fun x hx => length_of_mem_sectors hx),
        flatten_sectors_of, fileClusters_of_le hholds.fits]
      exact congrArg (chunks sectorSize) hholds.bytes
    rw [readEntry_eq h hd hfile hpos hc, hresult, hslices, hholds.size_eq]

/-! ## the three operations -/

theorem resolvePath_agrees (h : fs.Ok total) (hd : fs.device = d.device) {root : Entries}
    (hs : StoresDir d fs fs.rootCluster root) (path : Text.Str) :
    Agrees d fs (resolvePath fs path) (descendTo root path) := by
  rw [resolvePath_eq h hd]
  exact pathWalk_agrees hs _

theorem visitDirectory_of_stores (h : fs.Ok total) (hd : fs.device = d.device) {cluster : Nat}
    {entries : Entries} (hs : StoresDir d fs cluster entries) :
    ∃ xs, StoresEach d fs xs entries ∧
      ∀ {σ : Type} (visit : σ → DirEntry → Bool × σ) (s : σ),
        visitDirectory fs visit cluster s = Visit.feed (.ok ()) visit xs (.ok ()) s := by
  obtain ⟨xs, hlists, heach⟩ := hs
  refine ⟨xs, heach, ?_⟩
  intro σ visit s
  have hscan := visitDirectory_eq visit h hd hlists.valid s
  rwa [show records d (chainLbas d fs cluster) = directoryRecords d fs cluster from rfl, hlists.listing_eq,
    hlists.ends] at hscan

/-- what a scan shows that never stops -/
theorem lists_of_visit (h : fs.Ok total) (hd : fs.device = d.device) {cluster : Nat} (hc : fs.Valid cluster)
    (hend : (visitDirectory fs Visit.always cluster ()).1.toOption = some ()) :
    Lists d fs cluster (visitDirectory fs (Visit.logged Visit.always) cluster ((), [])).2.2 := by
  rw [visitDirectory_eq _ h hd hc, Visit.feed_of_continues (fun _ _ => rfl)] at hend
  refine ⟨hc, ?_, ?_⟩
  · rw [visitDirectory_eq _ h hd hc, Visit.feed_always, List.nil_append]
    rfl
  · cases hscan : scanEnd (directoryRecords d fs cluster)
        (walk (link fs d) (fs.clusterCount + 1) cluster) with
    | ok u => rfl
    | error f =>
      rw [show scanEnd (records d (chainLbas d fs cluster)) _ = _ from hscan] at hend
      cases hend

/-- what `list_dir` does for a path, as the tree says -/
def ListsTree (d : RamDiskBlockDevice) (fs : Fat32) (path : Text.Str) : Except Miss Entries → Prop
  | .error m => ∀ {σ : Type} (visit : σ → DirEntry → Bool × σ) (s : σ),
      listDir fs path visit s = (raise (missError m), s)
  | .ok entries => ∃ xs, StoresEach d fs xs entries ∧
      ∀ {σ : Type} (visit : σ → DirEntry → Bool × σ) (s : σ),
        listDir fs path visit s = Visit.feed (.ok ()) visit xs (.ok ()) s

theorem listDir_agrees (h : fs.Ok total) (hd : fs.device = d.device) {root : Entries}
    (hs : StoresDir d fs fs.rootCluster root) (path : Text.Str) :
    ListsTree d fs path (directoryAt root path) := by
  have hlist : ∀ {σ : Type} (visit : σ → DirEntry → Bool × σ) (s : σ), listDir fs path visit s = _ :=
    fun visit s => listDir_eq h hd path visit s
  unfold directoryAt
  by_cases hroot : Text.components path = []
  · rw [if_pos hroot]
    obtain ⟨xs, heach, hvisit⟩ := visitDirectory_of_stores h hd hs
    refine ⟨xs, heach, fun visit s => ?_⟩
    rw [hlist, if_pos hroot, hvisit]
  · rw [if_neg hroot]
    have hwalk : Agrees d fs (pathWalk d fs fs.rootCluster (Text.components path)) (descendTo root path) :=
      pathWalk_agrees hs _
    cases hto : descendTo root path with
    | error m =>
      rw [hto] at hwalk
      intro σ visit s
      rw [hlist, if_neg hroot, hwalk]
      rfl
    | ok n =>
      rw [hto] at hwalk
      obtain ⟨e, he, hstored⟩ := hwalk
      cases n with
      | file content =>
        intro σ visit s
        rw [hlist, if_neg hroot, he]
        exact if_neg (by simp [hstored.shown.1, nodeIsDir])
      | dir entries =>
        obtain ⟨hkind, _, hbelow⟩ := stores_dir_iff.mp hstored
        obtain ⟨xs, heach, hvisit⟩ := visitDirectory_of_stores h hd hbelow
        refine ⟨xs, heach, fun visit s => ?_⟩
        rw [hlist, if_neg hroot, he, ← hvisit]
        exact if_pos hkind

/-- what `read_file` does, as the tree says -/
def readTree (root : Entries) (path : Text.Str) {σ : Type} (visit : σ → List UInt8 → σ) (s : σ) :
    Run FsError Nat × σ :=
  match descendTo root path with
  | .error m => (raise (missError m), s)
  | .ok (.dir _) => (raise .isDirectory, s)
  | .ok (.file content) => (.ok content.length, (chunks sectorSize content).foldl visit s)

theorem readFile_agrees (h : fs.Ok total) (hd : fs.device = d.device) {root : Entries}
    (hs : StoresDir d fs fs.rootCluster root) (path : Text.Str) {σ : Type} (visit : σ → List UInt8 → σ)
    (s : σ) : readFile fs path visit s = readTree root path visit s := by
  have hpath := resolvePath_agrees h hd hs path
  unfold readFile readTree
  cases hto : descendTo root path with
  | error m =>
    rw [hto] at hpath
    rw [hpath]
    rfl
  | ok n =>
    rw [hto] at hpath
    obtain ⟨e, he, hstored⟩ := hpath
    rw [he]
    cases n with
    | file content => exact readEntry_of_stores h hd hstored visit s
    | dir entries => exact if_pos (stores_dir_iff.mp hstored).1

end

/-- **a volume refines the tree that it stores.**  On a mounted volume whose root stores the tree `root`,
for every path: `resolve_path` leads to a record of the node to which the path leads in the tree, or fails
with `NotFound` or `NotDirectory` as the tree says; `list_dir` passes the records of the entries of the
directory to its visitor, in order and with nothing else, and runs to its end; and `read_file` passes on
exactly the content of the file, sector by sector. -/
theorem volume_refines_tree (d : RamDiskBlockDevice) (fs : Fat32) (hm : mount d.device = .ok fs)
    (root : Entries) (hs : StoresDir d fs fs.rootCluster root) (path : Text.Str) :
    Agrees d fs (resolvePath fs path) (descendTo root path) ∧
      ListsTree d fs path (directoryAt root path) ∧
      ∀ (σ : Type) (visit : σ → List UInt8 → σ) (s : σ),
        readFile fs path visit s = readTree root path visit s := by
  obtain ⟨_, _, hd, h⟩ := mount_ok hm
  exact ⟨resolvePath_agrees h hd hs path, listDir_agrees h hd hs path,
    fun σ visit s => readFile_agrees h hd hs path visit s⟩

theorem helloDisk_sectors : 0 < 131072 := by norm_num

/-- a volume on a disk of 64 MiB.  The root directory holds the file `HELLO.TXT` of three bytes and the
directory `D`, in which there is the empty file `F.A`. -/
def helloDisk : RamDiskBlockDevice :=
  sparseDisk 131072 helloDisk_sectors <|
    [(12, 0x02), (13, 0x01), (14, 0x01), (16, 0x01), (32, 0xf6), (33, 0x01), (34, 0x01), (37, 0x02),
      (44, 0x02), (510, 0x55), (511, 0xaa)]
    ++ ([2, 3, 4].flatMap fun c => nameField (512 + 4 * c) [0xff, 0xff, 0xff, 0x0f])
    ++ nameField (513 * 512) [0x48, 0x45, 0x4c, 0x4c, 0x4f, 0x20, 0x20, 0x20, 0x54, 0x58, 0x54]
    ++ [(513 * 512 + 26, 0x04), (513 * 512 + 28, 0x03)]
    ++ nameField (513 * 512 + 32) (0x44 :: List.replicate 10 0x20)
    ++ [(513 * 512 + 32 + 11, 0x10), (513 * 512 + 32 + 26, 0x03)]
    ++ nameField (514 * 512) (0x46 :: List.replicate 7 0x20 ++ [0x41, 0x20, 0x20])
    ++ nameField (515 * 512) [0x68, 0x69, 0x21]

def helloVolume : Fat32 := ⟨helloDisk.device, 1, 1, 512, 513, 2, 65525⟩

def helloTree : Entries :=
  [("HELLO.TXT".toList, .file [0x68, 0x69, 0x21]), (['D'], .dir [(['F', '.', 'A'], .file [])])]

/-- the directory at a cluster, as a scan shows it -/
def scanned (fs : Fat32) (cluster : Nat) : List DirEntry :=
  (visitDirectory fs (Visit.logged Visit.always) cluster ((), [])).2.2

/-- what the tree shows of a record -/
def recordFields (e : DirEntry) : Text.Str × Bool × Nat × Nat := (e.nameStr, e.isDirectory, e.firstCluster, e.size)

theorem helloDisk_fields :
    (mount helloDisk.device).toOption.map (fun fs => (fs.sectorsPerCluster, fs.fatStartSector,
      fs.sectorsPerFat, fs.firstDataSector, fs.rootCluster, fs.clusterCount))
      = some (1, 1, 512, 513, 2, 65525) ∧
    (visitDirectory helloVolume Visit.always 2 ()).1.toOption = some () ∧
    (visitDirectory helloVolume Visit.always 3 ()).1.toOption = some () := by
  decide +kernel

theorem helloDisk_records :
    (scanned helloVolume 2).map recordFields = [("HELLO.TXT".toList, false, 4, 3), (['D'], true, 3, 0)] ∧
    (scanned helloVolume 3).map recordFields = [(['F', '.', 'A'], false, 0, 0)] ∧
    ([4].flatMap (clusterBytes helloVolume helloDisk)).take 3 = [0x68, 0x69, 0x21] := by
  decide +kernel

theorem helloDisk_mount : mount helloDisk.device = .ok helloVolume := mount_of_fields helloDisk_fields.1

theorem holdsContent_nil {d : RamDiskBlockDevice} {fs : Fat32} {total : Nat} (h : fs.Ok total) {e : DirEntry}
    (hsize : e.size = 0) : HoldsContent d fs e [] where
  size_eq := hsize
  fits := by
    rw [hsize, clustersFor_zero h]
    exact Nat.zero_le _
  reached := fun hne => absurd rfl hne
  bytes := by rw [hsize, List.take_zero]

theorem helloDisk_stores : StoresDir helloDisk helloVolume helloVolume.rootCluster helloTree := by
  obtain ⟨_, hend, hend'⟩ := helloDisk_fields
  obtain ⟨hroot, hbelow, hbytes⟩ := helloDisk_records
  obtain ⟨_, _, hd, h⟩ := mount_ok helloDisk_mount
  have hvalid : helloVolume.Valid 2 ∧ helloVolume.Valid 3 := by decide
  have hlists := lists_of_visit h hd hvalid.1 hend
  have hlists' := lists_of_visit h hd hvalid.2 hend'
  obtain ⟨hello, rest, hxs, hhello, hrest⟩ := List.map_eq_cons_iff.mp hroot
  obtain ⟨dir, rest', rfl, hdir, hnil⟩ := List.map_eq_cons_iff.mp hrest
  obtain rfl := List.map_eq_nil_iff.mp hnil
  obtain ⟨inner, rest', hys, hinner, hnil'⟩ := List.map_eq_cons_iff.mp hbelow
  obtain rfl := List.map_eq_nil_iff.mp hnil'
  simp only [recordFields, Prod.mk.injEq] at hhello hdir hinner
  refine ⟨_, hlists, ?_⟩
  rw [show (visitDirectory helloVolume (Visit.logged Visit.always) 2 ((), [])).2.2 = _ from hxs]
  refine .cons ⟨hhello.1, .file hhello.2.1 ⟨hhello.2.2.2, ?_, ?_, ?_⟩⟩ (.cons ⟨hdir.1, ?_⟩ .nil)
  · rw [hhello.2.2.2]
    decide
  · intro _
    rw [hhello.2.2.1, hhello.2.2.2]
    exact ⟨by decide, 4, rfl⟩
  · rw [chainBytes, hhello.2.2.1, hhello.2.2.2]
    exact hbytes
  · refine stores_dir_iff.mpr ⟨hdir.2.1, hdir.2.2.2, ?_⟩
    rw [hdir.2.2.1]
    refine ⟨_, hlists', ?_⟩
    rw [show (visitDirectory helloVolume (Visit.logged Visit.always) 3 ((), [])).2.2 = _ from hys]
    exact .cons ⟨hinner.1, .file hinner.2.1 (holdsContent_nil h hinner.2.2.2)⟩ .nil

/-- a file below a directory that is not there, and the content of one that is -/
theorem volume_refines_tree_helloDisk :
    mount helloDisk.device = .ok helloVolume ∧
      StoresDir helloDisk helloVolume helloVolume.rootCluster helloTree ∧
      resolvePath helloVolume "hello.txt/f.a".toList = raise .notDirectory ∧
      ∀ (σ : Type) (visit : σ → List UInt8 → σ) (s : σ),
        readFile helloVolume "/hello.txt".toList visit s = (.ok 3, visit s [0x68, 0x69, 0x21]) := by
  have hread := (volume_refines_tree helloDisk helloVolume helloDisk_mount helloTree helloDisk_stores
    "/hello.txt".toList).2.2
  have hmiss := (volume_refines_tree helloDisk helloVolume helloDisk_mount helloTree helloDisk_stores
    "hello.txt/f.a".toList).1
  exact ⟨helloDisk_mount, helloDisk_stores, hmiss, hread⟩

end Fat
end SolOs
