import SolOs.Fat32.Read

/-!
# FAT32: what `visit_directory` scans

The three nested loops of `visit_directory` on the graph of `Fat32/Chain`.  The records of all clusters
of the chain form one list; the loops are one traversal of it.

* `chainLbas`, `records`     the data sectors of a chain, and the records in them;
* `listing`                  the entries of a list of records, up to the end mark;
* `visitRecords_eq`, `visitSectors_eq`, `visitClusters_eq`, `visitDirectory_eq`
                             the loops in closed form, one lemma for each;
* `visitDirectory_scans_chain`   **a directory is the list of the records of its chain**;
* `loop_guard_exact`         **the loop guard fires for endless chains only.**
-/

set_option linter.unusedVariables false

namespace SolOs
namespace Fat
open Checked Storage Chain Visit

/-! ## records -/

def Record.entry? : Record → Option DirEntry
  | .entry e => some e
  | .last | .skip => none

def decodeRecord (raw : List UInt8) : Option DirEntry := (classify raw).toOption.bind Record.entry?

/-- the records before the end mark -/
def live (raws : List (List UInt8)) : List (List UInt8) := raws.takeWhile fun raw => !isLast raw

def listing (raws : List (List UInt8)) : List DirEntry := (live raws).filterMap decodeRecord

section
variable {raw : List UInt8} {raws raws' : List (List UInt8)}

theorem decodeRecord_of_dropped (h : raw.length = 32) (hl : isLast raw = false)
    (hd : isDropped raw = true) : decodeRecord raw = none := by
  unfold decodeRecord
  rw [(classify_eq h hl).1 hd]
  rfl

theorem decodeRecord_of_kept (h : raw.length = 32) (hl : isLast raw = false)
    (hd : isDropped raw = false) : ∃ e, decodeRecord raw = some e ∧ Decodes raw e := by
  obtain ⟨e, he, hdec⟩ := (classify_eq h hl).2 hd
  refine ⟨e, ?_, hdec⟩
  unfold decodeRecord
  rw [he]
  rfl

theorem live_cons_last (hl : isLast raw = true) : live (raw :: raws) = [] :=
  List.takeWhile_cons_of_neg (by simp [hl])

theorem live_cons (hl : isLast raw = false) : live (raw :: raws) = raw :: live raws :=
  List.takeWhile_cons_of_pos (by simp [hl])

theorem listing_append (raws raws' : List (List UInt8)) :
    listing (raws ++ raws') = if raws.any isLast then listing raws else listing raws ++ listing raws' := by
  induction raws with
  | nil => rfl
  | cons raw raws ih =>
    unfold listing at ih ⊢
    cases hl : isLast raw with
    | true => simp [live_cons_last hl, hl]
    | false =>
      rw [List.cons_append, live_cons hl, live_cons hl, List.filterMap_cons, List.filterMap_cons,
        List.any_cons, hl, Bool.false_or, ih]
      cases decodeRecord raw <;> split_ifs <;> rfl

/-- **the kept records, decoded in order** -/
theorem listing_decodes (h : ∀ raw ∈ raws, raw.length = 32) :
    List.Forall₂ Decodes ((live raws).filter fun raw => !isDropped raw) (listing raws) := by
  induction raws with
  | nil => exact .nil
  | cons raw raws ih =>
    have hraw := h raw List.mem_cons_self
    have ih := ih (fun r hr => h r (List.mem_cons_of_mem _ hr))
    unfold listing at ih ⊢
    cases hl : isLast raw with
    | true =>
      rw [live_cons_last hl]
      exact .nil
    | false =>
      rw [live_cons hl]
      cases hd : isDropped raw with
      | true =>
        rw [List.filterMap_cons_none (decodeRecord_of_dropped hraw hl hd),
          List.filter_cons_of_neg (by simp [hd])]
        exact ih
      | false =>
        obtain ⟨e, he, hdec⟩ := decodeRecord_of_kept hraw hl hd
        rw [List.filterMap_cons_some he, List.filter_cons_of_pos (by simp [hd])]
        exact .cons hdec ih

/-- a name that `DirEntry::name` may show without a check -/
theorem name_of_mem_listing (h : ∀ raw ∈ raws, raw.length = 32) {e : DirEntry} (he : e ∈ listing raws) :
    1 ≤ e.name.text.length ∧ e.name.text.length ≤ 12 ∧ ∀ b ∈ e.name.text, b.toNat < 128 := by
  obtain ⟨raw, hlive, hdecode⟩ := List.mem_filterMap.mp he
  have hraw := h raw ((List.takeWhile_sublist _).mem hlive)
  have hl : isLast raw = false := by simpa using List.mem_takeWhile_imp hlive
  have hd : isDropped raw = false := by
    by_contra hd
    rw [decodeRecord_of_dropped hraw hl (by simpa using hd)] at hdecode
    cases hdecode
  obtain ⟨e', he', hdec⟩ := decodeRecord_of_kept hraw hl hd
  obtain rfl : e' = e := Option.some.inj (he'.symm.trans hdecode)
  obtain ⟨⟨first, rest, hname, _⟩, hascii⟩ := recordName_of_kept hraw hd
  refine ⟨?_, ?_, ?_⟩
  · rw [hdec.name, hname]
    exact Nat.succ_pos _
  · rw [NameBuffer.text_length]
    exact e'.name.len_le
  · intro b hb
    rw [hdec.name] at hb
    simpa [Text.isAscii] using hascii b hb

end

/-! ## the loops -/

section
variable {σ : Type} (visit : σ → DirEntry → Bool × σ)

theorem visitRecords_eq {raws : List (List UInt8)} (h : ∀ raw ∈ raws, raw.length = 32) (s : σ) :
    visitRecords visit raws s
      = feed (some (.ok ())) visit (listing raws) (if raws.any isLast then some (.ok ()) else none) s := by
  induction raws generalizing s with
  | nil => rfl
  | cons raw raws ih =>
    have hraw := h raw List.mem_cons_self
    have ih := fun s => ih (fun r hr => h r (List.mem_cons_of_mem _ hr)) s
    unfold listing at ih ⊢
    rw [List.any_cons]
    cases hl : isLast raw with
    | true =>
      simp only [visitRecords, classify_last hl, live_cons_last hl]
      rfl
    | false =>
      rw [live_cons hl, Bool.false_or]
      cases hd : isDropped raw with
      | true =>
        simp only [visitRecords, (classify_eq hraw hl).1 hd, ih,
          List.filterMap_cons_none (decodeRecord_of_dropped hraw hl hd)]
      | false =>
        obtain ⟨e, he, _⟩ := (classify_eq hraw hl).2 hd
        have hdecode : decodeRecord raw = some e := by
          unfold decodeRecord
          rw [he]
          rfl
        rw [List.filterMap_cons_some hdecode]
        rcases hv : visit s e with ⟨b, s'⟩
        cases b with
        | true =>
          rw [feed_go hv, ← ih]
          simp only [visitRecords, he, hv]
        | false =>
          rw [feed_halt hv]
          simp only [visitRecords, he, hv]

/-- a list of records and what is scanned after it -/
theorem scan_append {ρ τ : Type} {stop : ρ} {fin : τ} (leave : ρ → τ) {k : σ → τ × σ}
    {raws raws' : List (List UInt8)} (hk : ∀ s, k s = feed (leave stop) visit (listing raws') fin s) (s : σ) :
    andThen (feed (some stop) visit (listing raws) (if raws.any isLast then some stop else none) s) k leave
      = feed (leave stop) visit (listing (raws ++ raws'))
        (if raws.any isLast then leave stop else fin) s := by
  rw [listing_append]
  cases raws.any isLast with
  | true => exact feed_then
  | false => exact feed_append hk

variable (d : RamDiskBlockDevice)

def records (lbas : List Nat) : List (List UInt8) :=
  lbas.flatMap fun lba => Text.chunksExact 32 (d.sector lba).val

theorem length_of_mem_records {lbas : List Nat} {raw : List UInt8} (h : raw ∈ records d lbas) :
    raw.length = 32 := by
  obtain ⟨lba, _, hraw⟩ := List.mem_flatMap.mp h
  exact Text.length_of_mem_chunksExact hraw

theorem records_append (lbas lbas' : List Nat) :
    records d (lbas ++ lbas') = records d lbas ++ records d lbas' := List.flatMap_append

variable (fs : Fat32)

/-- the data sectors of a cluster -/
def clusterLbas (cluster : Nat) : List Nat :=
  (List.range fs.sectorsPerCluster).map (clusterStart fs cluster + ·)

/-- the data sectors of the first `n` clusters of a chain -/
def trailLbas (n start : Nat) : List Nat := (trail (link fs d) n start).flatMap (clusterLbas fs)

/-- the data sectors of a chain, as far as the loop guard lets it be followed -/
def chainLbas (start : Nat) : List Nat := trailLbas d fs (fs.clusterCount + 1) start

/-- what a scan without an end mark comes to -/
def scanEnd (raws : List (List UInt8)) : Except ChainEnd Nat → Run FsError Unit
  | .ok _ => if raws.any isLast then .ok () else raise .directoryLoop
  | .error .marker => .ok ()
  | .error .corrupt => if raws.any isLast then .ok () else raise .corruptFat

variable {d} {fs} {total : Nat}

theorem visitSectors_eq (h : fs.Ok total) (hd : fs.device = d.device) {cluster : Nat}
    (hc : fs.Valid cluster) (indices : List Nat) (hi : ∀ i ∈ indices, i < fs.sectorsPerCluster) (s : σ) :
    visitSectors fs visit cluster indices s
      = feed (some (.ok ())) visit (listing (records d (indices.map (clusterStart fs cluster + ·))))
        (if (records d (indices.map (clusterStart fs cluster + ·))).any isLast then some (.ok ()) else none)
        s := by
  induction indices generalizing s with
  | nil => rfl
  | cons i rest ih =>
    obtain ⟨sector, hread, hval⟩ := readClusterSector_eq h hd hc (hi i List.mem_cons_self)
    have hrecords : records d ((i :: rest).map (clusterStart fs cluster + ·))
        = Text.chunksExact 32 sector.val ++ records d (rest.map (clusterStart fs cluster + ·)) := by
      rw [hval]
      rfl
    have hlen : ∀ raw ∈ Text.chunksExact 32 sector.val, raw.length = 32 :=
      fun raw hraw => Text.length_of_mem_chunksExact hraw
    have ih := fun s => ih (fun j hj => hi j (List.mem_cons_of_mem _ hj)) s
    simp only [visitSectors, hread]
    rw [visitRecords_eq visit hlen, scan_append visit some ih, ← hrecords, hrecords, List.any_append]
    cases (Text.chunksExact 32 sector.val).any isLast <;> rfl

/-- what follows the last record of a cluster -/
theorem scanEnd_append (raws raws' : List (List UInt8)) (w : Except ChainEnd Nat) :
    (if raws.any isLast then .ok () else scanEnd raws' w) = scanEnd (raws ++ raws') w := by
  cases w with
  | ok c =>
    rw [scanEnd, scanEnd, List.any_append]
    cases raws.any isLast <;> rfl
  | error e =>
    cases e with
    | marker => exact ite_self _
    | corrupt =>
      rw [scanEnd, scanEnd, List.any_append]
      cases raws.any isLast <;> rfl

theorem trailLbas_of_ok {start next : Nat} (hl : link fs d start = .ok next) (n : Nat) :
    trailLbas d fs (n + 1) start = clusterLbas fs start ++ trailLbas d fs n next := by
  unfold trailLbas
  rw [trail_succ_of_ok hl, List.flatMap_cons]

theorem trailLbas_of_error {start : Nat} {e : ChainEnd} (hl : link fs d start = .error e) (n : Nat) :
    trailLbas d fs (n + 1) start = clusterLbas fs start := by
  unfold trailLbas
  rw [trail_succ_of_error hl, List.flatMap_singleton]

/-- **the loop over the clusters in closed form** -/
theorem visitClusters_eq (h : fs.Ok total) (hd : fs.device = d.device) (rounds : Nat) {start : Nat}
    (hc : fs.Valid start) (s : σ) :
    visitClusters fs visit rounds start s
      = feed (.ok ()) visit (listing (records d (trailLbas d fs rounds start)))
        (scanEnd (records d (trailLbas d fs rounds start)) (walk (link fs d) rounds start)) s := by
  induction rounds generalizing start s with
  | zero => rfl
  | succ rounds ih =>
    have hcluster := fun s => visitSectors_eq visit h hd hc
      (List.range fs.sectorsPerCluster) (fun i hi => List.mem_range.mp hi) s
    simp only [visitClusters, followLink_eq h hd hc]
    rw [hcluster]
    cases hl : link fs d start with
    | error e =>
      -- nothing is scanned after this cluster
      rw [walk_succ_of_error hl, trailLbas_of_error hl]
      have hend := scanEnd_append (records d (clusterLbas fs start)) [] (.error e)
      rw [List.append_nil] at hend
      rw [← hend]
      have hcut : listing (records d (clusterLbas fs start))
          = listing (records d (clusterLbas fs start) ++ []) := by rw [List.append_nil]
      rw [hcut]
      apply scan_append visit id
      intro s'
      cases e <;> rfl
    | ok next =>
      have hk := fun s' => ih (link_valid hl) s'
      rw [walk_succ_of_ok hl, trailLbas_of_ok hl, records_append, ← scanEnd_append]
      exact scan_append visit id hk s

theorem visitDirectory_eq (h : fs.Ok total) (hd : fs.device = d.device) {start : Nat}
    (hc : fs.Valid start) (s : σ) :
    visitDirectory fs visit start s
      = feed (.ok ()) visit (listing (records d (chainLbas d fs start)))
        (scanEnd (records d (chainLbas d fs start)) (walk (link fs d) (fs.clusterCount + 1) start)) s := by
  unfold visitDirectory
  rw [isValidCluster_valid h, decide_eq_true hc]
  exact visitClusters_eq visit h hd _ hc s

/-! ## where a scan stops -/

/-- the scan ends within these records: at an end mark, or because the visitor stops it -/
def Stops (raws : List (List UInt8)) (s : σ) : Prop :=
  (feed true visit (listing raws) (raws.any isLast) s).1 = true

theorem scanEnd_of_last {raws : List (List UInt8)} (hl : raws.any isLast = true) (w : Except ChainEnd Nat) :
    scanEnd raws w = .ok () := by
  cases w with
  | ok c => simp [scanEnd, hl]
  | error e => cases e <;> simp [scanEnd, hl]

/-- what comes after the sector in which the scan stops does not matter -/
theorem visitDirectory_of_stops (h : fs.Ok total) (hd : fs.device = d.device) {start : Nat}
    (hc : fs.Valid start) {m : Nat} {s : σ}
    (hstop : Stops visit (records d ((chainLbas d fs start).take m)) s) :
    visitDirectory fs visit start s
      = feed (.ok ()) visit (listing (records d ((chainLbas d fs start).take m))) (.ok ()) s := by
  have hsplit : records d (chainLbas d fs start)
      = records d ((chainLbas d fs start).take m) ++ records d ((chainLbas d fs start).drop m) := by
    rw [← records_append, List.take_append_drop]
  rw [visitDirectory_eq visit h hd hc, hsplit, listing_append]
  unfold Stops at hstop
  cases hl : (records d ((chainLbas d fs start).take m)).any isLast with
  | true =>
    rw [scanEnd_of_last (by rw [List.any_append, hl, Bool.true_or])]
    rfl
  | false =>
    rw [hl] at hstop
    exact feed_of_stopped hstop

/-- the first `q + 1` sectors of a chain depend on the links before them only -/
theorem take_chainLbas_congr (h : fs.Ok total) {d' : RamDiskBlockDevice} {start q : Nat}
    (hlinks : ∀ c ∈ trail (link fs d) (q / fs.sectorsPerCluster) start, fatEntry fs d' c = fatEntry fs d c) :
    (chainLbas d' fs start).take (q + 1) = (chainLbas d fs start).take (q + 1) := by
  have hlen : ∀ c, (clusterLbas fs c).length = fs.sectorsPerCluster := by
    intro c
    rw [clusterLbas, List.length_map, List.length_range]
  have hroom : q + 1 ≤ fs.sectorsPerCluster * (q / fs.sectorsPerCluster + 1) :=
    Nat.lt_mul_div_succ q h.sectorsPerCluster_pos
  have htrail := trail_congr (fun c hc => link_congr (hlinks c hc))
  unfold chainLbas trailLbas
  rw [Pieces.take_flatMap hlen _ hroom, Pieces.take_flatMap hlen (trail (link fs d) _ _) hroom,
    take_trail, take_trail, Nat.min_comm, ← take_trail, ← take_trail, htrail]

theorem records_congr {d' : RamDiskBlockDevice} {lbas : List Nat}
    (hs : ∀ lba ∈ lbas, d'.sector lba = d.sector lba) : records d' lbas = records d lbas := by
  apply List.flatMap_congr
  intro lba hlba
  rw [hs lba hlba]

end

/-- **a directory is the list of the records of its chain.**  On a mounted volume, for a valid start
cluster and any visitor: the records of all sectors of the chain that come before the first end mark and
are not dropped are decoded in order, and the visitor is passed them up to the first one on which it
stops; every name is short and ASCII; and once the scan stops in sector `q` of the chain, no later
sector, and no link behind the cluster of that sector, has an influence. -/
theorem visitDirectory_scans_chain (d : RamDiskBlockDevice) (fs : Fat32) (hm : mount d.device = .ok fs)
    (start : Nat) (hc : fs.Valid start) (σ : Type) (visit : σ → DirEntry → Bool × σ) (s : σ) :
    ∃ entries : List DirEntry,
      List.Forall₂ Decodes (((records d (chainLbas d fs start)).takeWhile fun raw => !isLast raw).filter
        fun raw => !isDropped raw) entries ∧
      (visitDirectory fs (logged visit) start (s, [])).2.2 = seen visit entries s ∧
      (visitDirectory fs (logged visit) start (s, [])).1 = (visitDirectory fs visit start s).1 ∧
      (∀ e ∈ entries, 1 ≤ e.name.text.length ∧ e.name.text.length ≤ 12 ∧
        ∀ b ∈ e.name.text, b.toNat < 128) ∧
      ∀ q, Stops visit (records d ((chainLbas d fs start).take (q + 1))) s →
        ∀ d' : RamDiskBlockDevice, d'.length = d.length →
          (∀ lba ∈ (chainLbas d fs start).take (q + 1), d'.sector lba = d.sector lba) →
          (∀ c ∈ trail (link fs d) (q / fs.sectorsPerCluster) start, fatEntry fs d' c = fatEntry fs d c) →
          visitDirectory (fs.on d') visit start s = visitDirectory fs visit start s := by
  obtain ⟨b, _, hd, h⟩ := mount_ok hm
  have hrecords : ∀ raw ∈ records d (chainLbas d fs start), raw.length = 32 :=
    fun raw hraw => length_of_mem_records d hraw
  refine ⟨listing (records d (chainLbas d fs start)), listing_decodes hrecords, ?_, ?_, ?_, ?_⟩
  · rw [visitDirectory_eq (logged visit) h hd hc, feed_seen, List.nil_append]
  · rw [visitDirectory_eq (logged visit) h hd hc, visitDirectory_eq visit h hd hc]
    exact (feed_logged_run _ _ visit _ [] s).1
  · exact fun e he => name_of_mem_listing hrecords he
  · intro q hstop d' hlen hsectors hlinks
    have hlbas := take_chainLbas_congr h hlinks
    have hrecs : records d' ((chainLbas d' (fs.on d') start).take (q + 1))
        = records d ((chainLbas d fs start).take (q + 1)) := by
      show records d' ((chainLbas d' fs start).take (q + 1)) = _
      rw [hlbas, records_congr hsectors]
    rw [visitDirectory_of_stops visit h hd hc hstop]
    rw [← hrecs] at hstop ⊢
    exact visitDirectory_of_stops visit (h.on hd hlen) rfl hc hstop

theorem smallVolume_scan :
    ((visitDirectory smallVolume (logged always) 2 ((), [])).2.2).map (fun e => e.name.text) = [[0x44]] ∧
      (visitDirectory smallVolume always 2 ()).1.toOption = some () := by
  decide +kernel

theorem visitDirectory_scans_chain_smallDisk :
    ∃ entries : List DirEntry, (entries.map fun e => e.name.text) = [[0x44]] ∧
      (visitDirectory smallVolume (logged always) 2 ((), [])).2.2 = seen always entries () ∧
      ∀ e ∈ entries, ∀ b ∈ e.name.text, b.toNat < 128 := by
  obtain ⟨entries, _, hseen, _, hnames, _⟩ := visitDirectory_scans_chain smallDisk smallVolume
    smallDisk_mount 2 (by decide) Unit always ()
  have hall : seen always entries () = entries := by
    have hlog := feed_always (.ok () : Run FsError Unit) (.ok ()) entries []
    have hfeed := feed_seen (.ok () : Run FsError Unit) (.ok ()) always entries [] ()
    rw [hlog] at hfeed
    exact hfeed.symm
  refine ⟨entries, ?_, hseen, fun e he => (hnames e he).2.2⟩
  rw [← smallVolume_scan.1, hseen, hall]

/-! ## the loop guard -/

section
variable {fs : Fat32} {d : RamDiskBlockDevice} {total : Nat} {start : Nat}

/-- no record of a cluster is an end mark -/
def Unmarked (d : RamDiskBlockDevice) (fs : Fat32) (cluster : Nat) : Prop :=
  ∀ raw ∈ records d (clusterLbas fs cluster), isLast raw = false

theorem any_isLast_eq_false_iff {clusters : List Nat} :
    (records d (clusters.flatMap (clusterLbas fs))).any isLast = false
      ↔ ∀ c ∈ clusters, Unmarked d fs c := by
  induction clusters with
  | nil => simp [records]
  | cons c clusters ih =>
    rw [List.flatMap_cons, records_append, List.any_append, Bool.or_eq_false_iff, ih, List.forall_mem_cons]
    exact and_congr_left' (by rw [List.any_eq_false]; simp [Unmarked])

/-- within the rounds of the guard an endless chain shows all its clusters -/
theorem mem_trail_of_endless (hc : fs.Valid start) {k c : Nat}
    (hend : Endless (link fs d) start) (hk : walk (link fs d) k start = .ok c) :
    c ∈ trail (link fs d) (fs.clusterCount + 1) start := by
  obtain ⟨b, hb⟩ := hend fs.clusterCount
  obtain ⟨i, j, c', hij, hj, hi, hj'⟩ := exists_repeat (walk_mem_clusters hc) Fat32.card_clusters.le hb
  obtain ⟨k', hk', hw⟩ := walk_before_repeat hij hi hj' hk
  exact mem_trail.mpr ⟨k', by omega, hw⟩

theorem scanEnd_eq_directoryLoop_iff (hc : fs.Valid start) :
    scanEnd (records d (chainLbas d fs start)) (walk (link fs d) (fs.clusterCount + 1) start)
        = raise .directoryLoop
      ↔ Endless (link fs d) start ∧
        ∀ k c, walk (link fs d) k start = .ok c → Unmarked d fs c := by
  have hmark : (records d (chainLbas d fs start)).any isLast = false
      ↔ ∀ c ∈ trail (link fs d) (fs.clusterCount + 1) start, Unmarked d fs c := any_isLast_eq_false_iff
  have hendless := endless_iff_walk (d := d) hc (Nat.le_succ fs.clusterCount)
  constructor
  · intro hloop
    cases hw : walk (link fs d) (fs.clusterCount + 1) start with
    | error e =>
      rw [hw] at hloop
      cases e with
      | marker => cases hloop
      | corrupt =>
        rw [scanEnd] at hloop
        split_ifs at hloop <;> cases hloop
    | ok c =>
      have hend := hendless.mpr ⟨c, hw⟩
      rw [hw, scanEnd] at hloop
      refine ⟨hend, ?_⟩
      intro k c' hk
      apply hmark.mp
      · by_contra hl
        rw [if_pos (by simpa using hl)] at hloop
        cases hloop
      · exact mem_trail_of_endless hc hend hk
  · intro ⟨hend, hunmarked⟩
    obtain ⟨c, hw⟩ := hend (fs.clusterCount + 1)
    have hl : (records d (chainLbas d fs start)).any isLast = false := by
      apply hmark.mpr
      intro c' hc'
      obtain ⟨k, _, hk⟩ := mem_trail.mp hc'
      exact hunmarked k c' hk
    rw [hw, scanEnd, if_neg (by rw [hl]; exact Bool.false_ne_true)]

/-- an acyclic chain has a last cluster, and the guard leaves room for all of it -/
theorem exists_last_of_acyclic (hc : fs.Valid start) (hacyc : Acyclic (link fs d) start) :
    ∃ j c e, walk (link fs d) j start = .ok c ∧ link fs d c = .error e ∧
      chainLbas d fs start = trailLbas d fs (j + 1) start ∧
      walk (link fs d) (fs.clusterCount + 1) start = .error e := by
  have hend := not_endless_of_acyclic (walk_mem_clusters hc) hacyc
  have hex : ∃ n e, walk (link fs d) n start = .error e := by
    simp only [Endless, not_forall, not_exists] at hend
    obtain ⟨n, hn⟩ := hend
    cases hw : walk (link fs d) n start with
    | ok c => exact absurd hw (hn c)
    | error e => exact ⟨n, e, hw⟩
  obtain ⟨j, c, e, hj, hl⟩ := exists_last hex
  have hroom : j < fs.clusterCount := by
    by_contra hlong
    exact hend ((endless_iff_walk hc (Nat.not_lt.mp hlong)).mpr ⟨c, hj⟩)
  refine ⟨j, c, e, hj, hl, ?_, walk_error_of_link hj hl (by omega)⟩
  unfold chainLbas trailLbas
  rw [trail_of_last hj hl (show j + 1 ≤ fs.clusterCount + 1 by omega)]

/-- `read_file` runs into the guard only when the chain goes on for all its rounds -/
theorem readEntry_ne_directoryLoop (h : fs.Ok total) (hd : fs.device = d.device) {entry : DirEntry}
    (hacyc : Acyclic (link fs d) entry.firstCluster) {σ : Type} (visit : σ → List UInt8 → σ) (s : σ) :
    (readEntry fs entry visit s).1 ≠ raise .directoryLoop := by
  cases hdir : entry.isDirectory with
  | true =>
    unfold readEntry
    rw [if_pos hdir]
    intro hloop
    cases hloop
  | false =>
    rcases Nat.eq_zero_or_pos entry.size with h0 | hsize
    · unfold readEntry
      rw [if_neg (by rw [hdir]; exact Bool.false_ne_true), if_pos h0]
      intro hloop
      cases hloop
    by_cases hc : fs.Valid entry.firstCluster
    · rw [readEntry_eq h hd hdir hsize hc]
      have hend := not_endless_of_acyclic (walk_mem_clusters hc) hacyc
      intro hloop
      unfold fileResult at hloop
      cases hw : walk (link fs d) (min (fs.clustersFor entry.size - 1) (fs.clusterCount + 1))
          entry.firstCluster with
      | error e =>
        rw [hw] at hloop
        cases e <;> cases hloop
      | ok c =>
        rw [hw, verdict] at hloop
        by_cases hn : fs.clustersFor entry.size ≤ fs.clusterCount + 1
        · rw [if_pos hn] at hloop
          cases hloop
        · rw [min_eq_right (by omega)] at hw
          exact hend ((endless_iff_walk hc (Nat.le_succ _)).mpr ⟨c, hw⟩)
    · unfold readEntry
      rw [if_neg (by rw [hdir]; exact Bool.false_ne_true), if_neg hsize.ne', isValidCluster_valid h,
        decide_eq_false hc]
      intro hloop
      cases hloop

end

/-- **the loop guard is exact.**  On a mounted volume, for a visitor that never stops the scan,
`DirectoryLoop` means that the chain never ends and that none of its clusters holds an end mark; an
acyclic chain is scanned up to its last cluster; and a file with an acyclic chain never gives
`DirectoryLoop`. -/
theorem loop_guard_exact (d : RamDiskBlockDevice) (fs : Fat32) (hm : mount d.device = .ok fs) :
    (∀ start, fs.Valid start → ∀ (σ : Type) (visit : σ → DirEntry → Bool × σ) (s : σ),
      (∀ t e, (visit t e).1 = true) →
      ((visitDirectory fs visit start s).1 = raise .directoryLoop ↔
        Endless (link fs d) start ∧ ∀ k c, walk (link fs d) k start = .ok c →
          ∀ raw ∈ records d (clusterLbas fs c), isLast raw = false)) ∧
    (∀ start, fs.Valid start → Acyclic (link fs d) start →
      ∃ j c e, walk (link fs d) j start = .ok c ∧ link fs d c = .error e ∧
        ∀ (σ : Type) (visit : σ → DirEntry → Bool × σ) (s : σ),
          visitDirectory fs visit start s
            = feed (.ok ()) visit (listing (records d (trailLbas d fs (j + 1) start)))
              (scanEnd (records d (trailLbas d fs (j + 1) start)) (.error e)) s) ∧
    (∀ path entry, resolvePath fs path = .ok entry → Acyclic (link fs d) entry.firstCluster →
      ∀ (σ : Type) (visit : σ → List UInt8 → σ) (s : σ),
        (readFile fs path visit s).1 ≠ raise .directoryLoop) := by
  obtain ⟨b, _, hd, h⟩ := mount_ok hm
  refine ⟨?_, ?_, ?_⟩
  · intro start hc σ visit s hcontinues
    rw [visitDirectory_eq visit h hd hc, feed_of_continues hcontinues]
    exact scanEnd_eq_directoryLoop_iff hc
  · intro start hc hacyc
    obtain ⟨j, c, e, hj, hl, hlbas, hw⟩ := exists_last_of_acyclic hc hacyc
    refine ⟨j, c, e, hj, hl, ?_⟩
    intro σ visit s
    rw [visitDirectory_eq visit h hd hc, hlbas, hw]
  · intro path entry hp hacyc σ visit s
    rw [readFile_of_path hp]
    exact readEntry_ne_directoryLoop h hd hacyc visit s

theorem loop_guard_exact_smallDisk :
    mount smallDisk.device = .ok smallVolume ∧
      ¬ (Endless (link smallVolume smallDisk) 2 ∧ ∀ k c, walk (link smallVolume smallDisk) k 2 = .ok c →
        ∀ raw ∈ records smallDisk (clusterLbas smallVolume c), isLast raw = false) := by
  refine ⟨smallDisk_mount, ?_⟩
  intro hloop
  have hresult := ((loop_guard_exact smallDisk smallVolume smallDisk_mount).1 2 (by decide) Unit always ()
    (fun _ _ => rfl)).mpr hloop
  have hlists := smallVolume_scan.2
  rw [hresult] at hlists
  cases hlists

end Fat
end SolOs
