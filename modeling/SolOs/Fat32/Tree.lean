import SolOs.Fat32.Entry
import SolOs.Lib.Visit

/-!
# FAT32: directories, paths and files

The traversal loops of `fat32.rs`.  A closure argument is a state-passing function, and a traversal
returns the final state of the closure next to its result, also when it fails.  An inner loop answers
`none` when it ran to its end and `some r` when it leaves the function with `r`.

* `visitDirectory`    the loops over clusters, sectors and records;
* `resolvePath`       the walk over the components of a path, `findInDirectory` at each step;
* `listDir`, `readFile`;
* `visitDirectory_feeds`    **the entries that a directory offers do not depend on the visitor**;
                      `Offers` names them.
-/

set_option linter.unusedVariables false

namespace SolOs
namespace Fat
open Checked Storage

section
variable {σ : Type} (fs : Fat32)

/-! ## directories -/

def visitRecords (visit : σ → DirEntry → Bool × σ) :
    List (List UInt8) → σ → Option (Run FsError Unit) × σ
  | [], s => (none, s)
  | raw :: rest, s =>
    match classify raw with
    | .error f => (some (.error f), s)
    | .ok .last => (some (.ok ()), s)
    | .ok .skip => visitRecords visit rest s
    | .ok (.entry e) =>
      match visit s e with
      | (true, s') => visitRecords visit rest s'
      | (false, s') => (some (.ok ()), s')

def visitSectors (visit : σ → DirEntry → Bool × σ) (cluster : Nat) :
    List Nat → σ → Option (Run FsError Unit) × σ
  | [], s => (none, s)
  | sectorIndex :: rest, s =>
    match readClusterSector fs cluster sectorIndex with
    | .error f => (some (.error f), s)
    | .ok sector =>
      Visit.andThen (visitRecords visit (Text.chunksExact 32 sector.val) s)
        (fun s' => visitSectors visit cluster rest s') some

/-- the loop over the chain; `DirectoryLoop` when the rounds are used up -/
def visitClusters (visit : σ → DirEntry → Bool × σ) : Nat → Nat → σ → Run FsError Unit × σ
  | 0, _, s => (raise .directoryLoop, s)
  | rounds + 1, cluster, s =>
    Visit.andThen (visitSectors fs visit cluster (List.range fs.sectorsPerCluster) s)
      (fun s' =>
        match followLink fs cluster with
        | .error f => (.error f, s')
        | .ok none => (.ok (), s')
        | .ok (some next) => visitClusters visit rounds next s')
      id

def visitDirectory (visit : σ → DirEntry → Bool × σ) (startCluster : Nat) (s : σ) :
    Run FsError Unit × σ :=
  match isValidCluster fs startCluster with
  | .error f => (.error f, s)
  | .ok false => (raise .invalidCluster, s)
  | .ok true => visitClusters fs visit (fs.clusterCount + 1) startCluster s

/-! ## paths -/

def matchesName (name : Text.Str) (e : DirEntry) : Bool := Text.eqIgnoreAsciiCase e.nameStr name

def findInDirectory (cluster : Nat) (name : Text.Str) : Run FsError DirEntry :=
  match visitDirectory fs (Visit.finder (matchesName name)) cluster none with
  | (.error f, _) => .error f
  | (.ok (), result) => okOr result .notFound

def isDot (component : Text.Str) : Bool := component = ['.'] || component = ['.', '.']

/-- the loop of `resolve_path`, with the components that are still to come -/
def resolveFrom (directory : Nat) (component : Text.Str) :
    List Text.Str → Run FsError DirEntry
  | [] => findInDirectory fs directory component
  | next :: rest => do
    let entry ← findInDirectory fs directory component
    rejectIf (entry.isDirectory = false) .notDirectory
    rejectIf (isDot next = true) .notFound
    resolveFrom entry.firstCluster next rest

def resolvePath (path : Text.Str) : Run FsError DirEntry :=
  match Text.components path with
  | [] => raise .notFound
  | first :: rest => do
    rejectIf (isDot first = true) .notFound
    resolveFrom fs fs.rootCluster first rest

/-- the cluster that `list_dir` lists -/
def directoryOf (path : Text.Str) : Run FsError Nat :=
  if Text.trimMatches '/' path = [] then pure fs.rootCluster
  else do
    let entry ← resolvePath fs path
    rejectIf (entry.isDirectory = false) .notDirectory
    pure entry.firstCluster

def listDir (path : Text.Str) (visit : σ → DirEntry → Bool × σ) (s : σ) : Run FsError Unit × σ :=
  match directoryOf fs path with
  | .error f => (.error f, s)
  | .ok cluster => visitDirectory fs visit cluster s

/-! ## files -/

/-- the sectors of one cluster; the numbers are the bytes that remain -/
def readSectors (visit : σ → List UInt8 → σ) (size cluster : Nat) :
    List Nat → Nat × σ → Option (Run FsError Nat) × (Nat × σ)
  | [], (remaining, s) => (none, (remaining, s))
  | sectorIndex :: rest, (remaining, s) =>
    if remaining = 0 then (some (.ok size), (remaining, s))
    else
      match readClusterSector fs cluster sectorIndex with
      | .error f => (some (.error f), (remaining, s))
      | .ok sector =>
        match slice sector.val 0 (min remaining sectorSize) with
        | .error f => (some (.error f), (remaining, s))
        | .ok bytes =>
          match sub remaining (min remaining sectorSize) with
          | .error f => (some (.error f), (remaining, visit s bytes))
          | .ok left => readSectors visit size cluster rest (left, visit s bytes)

def readClusters (visit : σ → List UInt8 → σ) (size : Nat) :
    Nat → Nat → Nat × σ → Run FsError Nat × (Nat × σ)
  | 0, _, s => (raise .directoryLoop, s)
  | rounds + 1, cluster, s =>
    Visit.andThen (readSectors fs visit size cluster (List.range fs.sectorsPerCluster) s)
      (fun s' =>
        if s'.1 = 0 then (.ok size, s')
        else
          match followLink fs cluster with
          | .error f => (.error f, s')
          | .ok none => (raise .truncatedFile, s')
          | .ok (some next) => readClusters visit size rounds next s')
      id

/-- `read_file` once the path is resolved -/
def readEntry (entry : DirEntry) (visit : σ → List UInt8 → σ) (s : σ) : Run FsError Nat × σ :=
  if entry.isDirectory then (raise .isDirectory, s)
  else if entry.size = 0 then (.ok 0, s)
  else
    match isValidCluster fs entry.firstCluster with
    | .error f => (.error f, s)
    | .ok false => (raise .invalidCluster, s)
    | .ok true =>
      let (result, (_, s')) :=
        readClusters fs visit entry.size (fs.clusterCount + 1) entry.firstCluster (entry.size, s)
      (result, s')

def readFile (path : Text.Str) (visit : σ → List UInt8 → σ) (s : σ) : Run FsError Nat × σ :=
  match resolvePath fs path with
  | .error f => (.error f, s)
  | .ok entry => readEntry fs entry visit s

end

/-! ## what a directory offers -/

/-- an entry that can be named in a path -/
def DirEntry.Named (e : DirEntry) : Prop := ∃ first rest, e.name.text = first :: rest ∧ first ≠ 0x2e

section
variable (fs : Fat32)

theorem visitRecords_feeds (raws : List (List UInt8)) (h : ∀ raw ∈ raws, raw.length = 32) :
    Visit.Feeds DirEntry.Named (some (.ok ())) (fun σ visit s => visitRecords visit raws s) := by
  induction raws with
  | nil => exact Visit.Feeds.const _ _
  | cons raw raws ih =>
    obtain ⟨xs, fin, hx, hf⟩ := ih (fun r hr => h r (List.mem_cons_of_mem _ hr))
    obtain ⟨r, hr, hnamed⟩ := classify_spec (h raw List.mem_cons_self)
    cases r with
    | last =>
      refine ⟨[], some (.ok ()), fun _ h => absurd h List.not_mem_nil, fun σ visit s => ?_⟩
      simp only [visitRecords, hr, Visit.feed_nil]
    | skip =>
      refine ⟨xs, fin, hx, fun σ visit s => ?_⟩
      rw [← hf σ visit s]
      simp only [visitRecords, hr]
    | entry e =>
      refine ⟨e :: xs, fin, List.forall_mem_cons.mpr ⟨hnamed e rfl, hx⟩, fun σ visit s => ?_⟩
      simp only [visitRecords, hr, Visit.feed]
      rcases visit s e with ⟨b, s'⟩
      cases b with
      | true => exact hf σ visit s'
      | false => rfl

theorem visitSectors_feeds (cluster : Nat) (indices : List Nat) :
    Visit.Feeds DirEntry.Named (some (.ok ()))
      (fun σ visit s => visitSectors fs visit cluster indices s) := by
  induction indices with
  | nil => exact Visit.Feeds.const _ _
  | cons i rest ih =>
    cases hr : readClusterSector fs cluster i with
    | error f =>
      simp only [visitSectors, hr]
      exact Visit.Feeds.const _ _
    | ok sector =>
      simp only [visitSectors, hr]
      exact (visitRecords_feeds _ (fun raw h => Text.length_of_mem_chunksExact h)).andThen ih

theorem visitClusters_feeds (rounds cluster : Nat) :
    Visit.Feeds DirEntry.Named (.ok ())
      (fun σ visit s => visitClusters fs visit rounds cluster s) := by
  induction rounds generalizing cluster with
  | zero => exact Visit.Feeds.const _ _
  | succ rounds ih =>
    simp only [visitClusters]
    apply Visit.Feeds.andThen (τ := Run FsError Unit) (visitSectors_feeds fs cluster _)
    cases followLink fs cluster with
    | error f => exact Visit.Feeds.const _ _
    | ok next =>
      cases next with
      | none => exact Visit.Feeds.const _ _
      | some next => exact ih next

/-- **the entries that a directory offers do not depend on the visitor** -/
theorem visitDirectory_feeds (startCluster : Nat) :
    Visit.Feeds DirEntry.Named (.ok ())
      (fun σ visit s => visitDirectory fs visit startCluster s) := by
  unfold visitDirectory
  cases isValidCluster fs startCluster with
  | error f => exact Visit.Feeds.const _ _
  | ok valid =>
    cases valid with
    | false => exact Visit.Feeds.const _ _
    | true => exact visitClusters_feeds fs _ _

/-- the directory at `cluster` has the entries `xs` to show, and ends with `fin` after the last one -/
def Offers (cluster : Nat) (xs : List DirEntry) (fin : Run FsError Unit) : Prop :=
  ∀ (σ : Type) (visit : σ → DirEntry → Bool × σ) (s : σ),
    visitDirectory fs visit cluster s = Visit.feed (.ok ()) visit xs fin s

theorem exists_offers (cluster : Nat) :
    ∃ xs fin, (∀ x ∈ xs, x.Named) ∧ Offers fs cluster xs fin :=
  visitDirectory_feeds fs cluster

end

end Fat
end SolOs
