import SolOs.Fat32.Scan
import SolOs.Fat32.Lookup

/-!
# FAT32: where a path leads

The lookup of a path as a walk over the records on the disk.  Only the components of the path matter,
and of these only what is left when the case of ASCII letters is ignored.

* `firstMatch`          the first live record of a directory with a given name;
* `pathWalk`            from record to record, through directories;
* `resolvePath_eq`      `resolve_path` is this walk;
* `listDir_eq`          `list_dir` lists the root for a path without components, and else what the walk
                        leads to;
* `path_lookup`         **both, and that the spelling of a path does not matter**;
* `aliasDisk`           a disk on which a record leads back to the root directory.
-/

set_option linter.unusedVariables false

namespace SolOs
namespace Fat
open Checked Storage Chain Visit

section
variable (d : RamDiskBlockDevice) (fs : Fat32)

/-- the records of the directory that starts at a cluster -/
def directoryRecords (cluster : Nat) : List (List UInt8) := records d (chainLbas d fs cluster)

/-- no record has the name of a dot component; without a match the directory is scanned to its end -/
def firstMatch (cluster : Nat) (component : Text.Str) : Run FsError DirEntry :=
  if isDot component then raise .notFound
  else if fs.Valid cluster then
    match (listing (directoryRecords d fs cluster)).find? (matchesName component) with
    | some e => .ok e
    | none => do
      scanEnd (directoryRecords d fs cluster) (walk (link fs d) (fs.clusterCount + 1) cluster)
      raise .notFound
  else raise .invalidCluster

def pathWalk : Nat → List Text.Str → Run FsError DirEntry
  | _, [] => raise .notFound
  | cluster, [component] => firstMatch d fs cluster component
  | cluster, component :: next :: rest => do
    let e ← firstMatch d fs cluster component
    if e.isDirectory then pathWalk e.firstCluster (next :: rest) else raise .notDirectory

end

section
variable {d : RamDiskBlockDevice} {fs : Fat32} {total : Nat}

/-! ## the walk -/

theorem findInDirectory_eq_firstMatch (h : fs.Ok total) (hd : fs.device = d.device) (cluster : Nat)
    {component : Text.Str} (hdot : isDot component = false) :
    findInDirectory fs cluster component = firstMatch d fs cluster component := by
  unfold firstMatch
  rw [if_neg (by simp [hdot])]
  by_cases hc : fs.Valid cluster
  · rw [if_pos hc]
    exact findInDirectory_eq fs (fun σ visit s => visitDirectory_eq visit h hd hc s) component
  · rw [if_neg hc]
    unfold findInDirectory visitDirectory
    rw [isValidCluster_valid h, decide_eq_false hc]
    rfl

theorem pathWalk_of_dot (cluster : Nat) {component : Text.Str} (hdot : isDot component = true)
    (rest : List Text.Str) : pathWalk d fs cluster (component :: rest) = raise .notFound := by
  have hfirst : firstMatch d fs cluster component = raise .notFound := if_pos hdot
  cases rest with
  | nil => exact hfirst
  | cons next rest =>
    unfold pathWalk
    rw [hfirst]
    rfl

theorem resolveFrom_eq (h : fs.Ok total) (hd : fs.device = d.device) (cluster : Nat)
    {component : Text.Str} (hdot : isDot component = false) (rest : List Text.Str) :
    resolveFrom fs cluster component rest = pathWalk d fs cluster (component :: rest) := by
  induction rest generalizing cluster component with
  | nil => exact findInDirectory_eq_firstMatch h hd cluster hdot
  | cons next rest ih =>
    unfold resolveFrom pathWalk
    rw [findInDirectory_eq_firstMatch h hd cluster hdot]
    congr 1
    funext e
    cases he : e.isDirectory with
    | false => rw [rejectIf_of rfl]; rfl
    | true =>
      rw [rejectIf_of_not (by decide), bind_ok]
      cases hn : isDot next with
      | true =>
        rw [rejectIf_of rfl, if_pos rfl, pathWalk_of_dot _ hn]
        rfl
      | false => rw [rejectIf_of_not (by decide), bind_ok, if_pos rfl, ih _ hn]

/-- **`resolve_path` is the walk from the root** -/
theorem resolvePath_eq (h : fs.Ok total) (hd : fs.device = d.device) (path : Text.Str) :
    resolvePath fs path = pathWalk d fs fs.rootCluster (Text.components path) := by
  unfold resolvePath
  cases hp : Text.components path with
  | nil => rfl
  | cons first rest =>
    show (rejectIf (isDot first = true) FsError.notFound >>= fun _ => _) = _
    cases hf : isDot first with
    | true =>
      rw [rejectIf_of rfl, pathWalk_of_dot _ hf]
      rfl
    | false => rw [rejectIf_of_not (by decide), bind_ok, resolveFrom_eq h hd _ hf]

/-- a walk that arrives has met no dot component -/
theorem isDot_of_pathWalk {cluster : Nat} {components : List Text.Str} {e : DirEntry}
    (hw : pathWalk d fs cluster components = .ok e) : ∀ c ∈ components, isDot c = false := by
  induction components generalizing cluster with
  | nil => exact fun c hc => absurd hc List.not_mem_nil
  | cons c rest ih =>
    cases hc : isDot c with
    | true =>
      rw [pathWalk_of_dot _ hc] at hw
      cases hw
    | false =>
      rw [List.forall_mem_cons]
      refine ⟨hc, ?_⟩
      cases rest with
      | nil => exact fun c hc => absurd hc List.not_mem_nil
      | cons next rest =>
        unfold pathWalk at hw
        obtain ⟨found, _, hw⟩ := bind_eq_ok.mp hw
        cases hdir : found.isDirectory with
        | true =>
          rw [hdir, if_pos rfl] at hw
          exact ih hw
        | false =>
          rw [hdir, if_neg Bool.false_ne_true] at hw
          cases hw

/-! ## spelling -/

section
variable {a b : Text.Str}

theorem matchesName_congr (h : Text.eqIgnoreAsciiCase a b = true) : matchesName a = matchesName b := by
  funext e
  simp only [matchesName, Text.eqIgnoreAsciiCase, Text.eqIgnoreAsciiCase_iff.mp h]

theorem isDot_iff_toLower : isDot a = true
    ↔ a.map Char.toLower = ['.'] ∨ a.map Char.toLower = ['.', '.'] := by
  have hdot : ∀ c : Char, c.toLower = '.' ↔ c = '.' := fun c => Text.toLower_eq_iff rfl
  simp [isDot, List.map_eq_cons_iff, hdot]

theorem isDot_congr (h : Text.eqIgnoreAsciiCase a b = true) : isDot a = isDot b := by
  rw [Bool.eq_iff_iff, isDot_iff_toLower, isDot_iff_toLower, Text.eqIgnoreAsciiCase_iff.mp h]

theorem firstMatch_congr (h : Text.eqIgnoreAsciiCase a b = true) (cluster : Nat) :
    firstMatch d fs cluster a = firstMatch d fs cluster b := by
  unfold firstMatch
  rw [isDot_congr h, matchesName_congr h]

end

theorem named_of_mem_listing {raws : List (List UInt8)} (h : ∀ raw ∈ raws, raw.length = 32) {e : DirEntry}
    (he : e ∈ listing raws) : e.Named := by
  obtain ⟨raw, hlive, hdecode⟩ := List.mem_filterMap.mp he
  obtain ⟨r, hr, hnamed⟩ := classify_spec (h raw ((List.takeWhile_sublist _).mem hlive))
  rw [decodeRecord, hr] at hdecode
  cases r with
  | last => cases hdecode
  | skip => cases hdecode
  | entry e' =>
    obtain rfl : e' = e := Option.some.inj hdecode
    exact hnamed e' rfl

/-- no live record has the name of a dot component -/
theorem matchesName_of_dot (cluster : Nat) {component : Text.Str} (hdot : isDot component = true)
    {e : DirEntry} (he : e ∈ listing (directoryRecords d fs cluster)) : matchesName component e = false := by
  have hnamed := named_of_mem_listing (fun raw hraw => length_of_mem_records d hraw) he
  by_contra hmatch
  have hsame := isDot_congr (eq_true_of_ne_false hmatch)
  rw [isDot_nameStr hnamed, hdot] at hsame
  exact Bool.false_ne_true hsame

/-- the walk does not see the case of letters -/
theorem pathWalk_congr {as bs : List Text.Str}
    (h : List.Forall₂ (fun a b => Text.eqIgnoreAsciiCase a b = true) as bs) (cluster : Nat) :
    pathWalk d fs cluster as = pathWalk d fs cluster bs := by
  induction h generalizing cluster with
  | nil => rfl
  | cons hab hrest ih =>
    cases hrest with
    | nil => exact firstMatch_congr hab cluster
    | cons hnext hrest =>
      unfold pathWalk
      rw [firstMatch_congr hab]
      congr 1
      funext e
      rw [ih]

/-! ## the callers -/

/-- **`list_dir` lists the root for a path without components**, and else what the walk leads to -/
theorem listDir_eq (h : fs.Ok total) (hd : fs.device = d.device) (path : Text.Str) {σ : Type}
    (visit : σ → DirEntry → Bool × σ) (s : σ) :
    listDir fs path visit s =
      if Text.components path = [] then visitDirectory fs visit fs.rootCluster s
      else
        match pathWalk d fs fs.rootCluster (Text.components path) with
        | .error f => (.error f, s)
        | .ok e =>
          if e.isDirectory then visitDirectory fs visit e.firstCluster s else (raise .notDirectory, s) := by
  unfold listDir directoryOf
  simp only [Text.trimMatches_slash_eq_nil, resolvePath_eq h hd]
  by_cases hp : Text.components path = []
  · rw [if_pos hp, if_pos hp]
    rfl
  · rw [if_neg hp, if_neg hp]
    cases pathWalk d fs fs.rootCluster (Text.components path) with
    | error f => rfl
    | ok e =>
      rw [bind_ok]
      cases he : e.isDirectory with
      | true => simp [rejectIf, he, pure_eq, bind_ok]
      | false => simp [rejectIf, he, raise]

theorem resolvePath_congr (h : fs.Ok total) (hd : fs.device = d.device) {p q : Text.Str}
    (hpq : Text.SameComponents p q) : resolvePath fs p = resolvePath fs q := by
  rw [resolvePath_eq h hd, resolvePath_eq h hd, pathWalk_congr hpq]

theorem listDir_congr (h : fs.Ok total) (hd : fs.device = d.device) {p q : Text.Str}
    (hpq : Text.SameComponents p q) {σ : Type} (visit : σ → DirEntry → Bool × σ) (s : σ) :
    listDir fs p visit s = listDir fs q visit s := by
  have hroot : Text.components p = [] ↔ Text.components q = [] := by
    rw [← List.length_eq_zero_iff, hpq.length_eq, List.length_eq_zero_iff]
  rw [listDir_eq h hd, listDir_eq h hd, pathWalk_congr hpq]
  simp only [hroot]

end

/-- **what a path leads to**: on a mounted volume `resolve_path` is the walk from the root that takes for
each component the first live record with that name, up to case, and goes on at its first cluster, when
it is a directory; no live record has the name of a dot component, and a path with one leads nowhere.
The lookup, `list_dir` and `read_file`, with every call of the visitor, depend on the components of the
path up to case only, and slashes and case do not change these.  For a path without components `list_dir` goes to
the root without a lookup, and for every other path it goes where the lookup leads (which a corrupt record can make
the root again). -/
theorem path_lookup (d : RamDiskBlockDevice) (fs : Fat32) (hm : mount d.device = .ok fs) :
    (∀ path, resolvePath fs path = pathWalk d fs fs.rootCluster (Text.components path)) ∧
    (∀ cluster component, isDot component = true →
      ∀ e ∈ listing (directoryRecords d fs cluster), matchesName component e = false) ∧
    (∀ path, (∃ c ∈ Text.components path, c = ['.'] ∨ c = ['.', '.']) → ∀ e, resolvePath fs path ≠ .ok e) ∧
    (∀ p q, Text.SameComponents p q →
      resolvePath fs p = resolvePath fs q ∧
      (∀ (σ : Type) (visit : σ → DirEntry → Bool × σ) (s : σ),
        listDir fs p visit s = listDir fs q visit s ∧ passed fs p visit s = passed fs q visit s) ∧
      (∀ (σ : Type) (visit : σ → List UInt8 → σ) (s : σ), readFile fs p visit s = readFile fs q visit s)) ∧
    (∀ p q, Relation.EqvGen Text.Respell p q → Text.SameComponents p q) ∧
    (∀ (path : Text.Str) (σ : Type) (visit : σ → DirEntry → Bool × σ) (s : σ),
      listDir fs path visit s =
        if Text.components path = [] then visitDirectory fs visit fs.rootCluster s
        else
          match pathWalk d fs fs.rootCluster (Text.components path) with
          | .error f => (.error f, s)
          | .ok e =>
            if e.isDirectory then visitDirectory fs visit e.firstCluster s
            else (raise .notDirectory, s)) := by
  obtain ⟨_, _, hd, h⟩ := mount_ok hm
  refine ⟨resolvePath_eq h hd, fun cluster component hdot e he => matchesName_of_dot cluster hdot he, ?_, ?_,
    fun p q hpq => Text.sameComponents_of_respelled hpq,
    fun path σ visit s => listDir_eq h hd path visit s⟩
  · intro path ⟨c, hc, hdot⟩ e he
    rw [resolvePath_eq h hd] at he
    have hno := isDot_of_pathWalk he c hc
    obtain rfl | rfl := hdot <;> exact absurd hno (by decide)
  · intro p q hpq
    refine ⟨resolvePath_congr h hd hpq, fun σ visit s => ⟨listDir_congr h hd hpq visit s, ?_⟩,
      fun σ visit s => ?_⟩
    · unfold passed
      rw [listDir_congr h hd hpq]
    · unfold readFile
      rw [resolvePath_congr h hd hpq]

theorem path_lookup_smallVolume :
    mount smallDisk.device = .ok smallVolume ∧
      resolvePath smallVolume ['/', 'D', '/', 'F', '.', 'A']
        = resolvePath smallVolume ['d', '/', '/', 'f', '.', 'a', '/'] := by
  have hsame : Text.SameComponents ['/', 'D', '/', 'F', '.', 'A'] ['d', '/', '/', 'f', '.', 'a', '/'] :=
    Text.sameComponents_iff.mpr (by decide)
  exact ⟨smallDisk_mount, ((path_lookup smallDisk smallVolume smallDisk_mount).2.2.2.1 _ _ hsame).1⟩

/-- a volume like `smallVolume`, with the root directory as the directory `D` -/
def aliasDisk : RamDiskBlockDevice :=
  sparseDisk 66038 fileDisk_sectors <|
    [(12, 0x02), (13, 0x01), (14, 0x01), (16, 0x01), (32, 0xf6), (33, 0x01), (34, 0x01), (37, 0x02),
      (44, 0x02), (510, 0x55), (511, 0xaa)]
    ++ nameField (513 * 512) (0x44 :: List.replicate 10 0x20)
    ++ [(513 * 512 + 11, 0x10), (513 * 512 + 26, 0x02)]

def aliasVolume : Fat32 := ⟨aliasDisk.device, 1, 1, 512, 513, 2, 65525⟩

theorem aliasDisk_fields :
    (mount aliasDisk.device).toOption.map (fun fs => (fs.sectorsPerCluster, fs.fatStartSector,
      fs.sectorsPerFat, fs.firstDataSector, fs.rootCluster, fs.clusterCount))
      = some (1, 1, 512, 513, 2, 65525) ∧
    (resolvePath aliasVolume ['/', 'D']).toOption.map (fun e => (e.isDirectory, e.firstCluster)) = some (true, 2) := by
  decide +kernel

/-- the root is listed for a path with a component -/
theorem aliasVolume_lists_root :
    mount aliasDisk.device = .ok aliasVolume ∧ Text.components ['/', 'D'] = [['D']] ∧
      (∀ (σ : Type) (visit : σ → DirEntry → Bool × σ) (s : σ),
        listDir aliasVolume ['/', 'D'] visit s = listDir aliasVolume [] visit s) ∧
      ∀ (σ : Type) (visit : σ → DirEntry → Bool × σ) (s : σ),
        listDir aliasVolume ['/', 'D'] visit s = visitDirectory aliasVolume visit aliasVolume.rootCluster s := by
  have hmount : mount aliasDisk.device = .ok aliasVolume := mount_of_fields aliasDisk_fields.1
  obtain ⟨_, _, hd, h⟩ := mount_ok hmount
  have hroot : ∀ (σ : Type) (visit : σ → DirEntry → Bool × σ) (s : σ),
      listDir aliasVolume ['/', 'D'] visit s = visitDirectory aliasVolume visit aliasVolume.rootCluster s := by
    intro σ visit s
    have hentry := aliasDisk_fields.2
    rw [resolvePath_eq h hd] at hentry
    rw [listDir_eq h hd, if_neg (by decide)]
    cases hwalk : pathWalk aliasDisk aliasVolume aliasVolume.rootCluster (Text.components ['/', 'D']) with
    | error f =>
      rw [hwalk] at hentry
      cases hentry
    | ok e =>
      rw [hwalk] at hentry
      obtain ⟨hdir, hfirst⟩ := Prod.mk.injEq .. ▸ Option.some.inj hentry
      dsimp only
      rw [if_pos hdir, hfirst]
      rfl
  refine ⟨hmount, by decide, fun σ visit s => ?_, hroot⟩
  rw [hroot, listDir_eq h hd, if_pos (by decide)]

end Fat
end SolOs
