import SolOs.Lib.Checked
import SolOs.Memory.Bump

/-!
# Physical frames and the heap mapping

`memory.rs`: the frame allocator over the boot memory map and `init_heap`.  A frame or a page is its
start address.

* `usableFrames`        all frames that the map offers, in the order in which they are handed out;
* `allocateFrame`       takes the `next`-th of them, recomputed from scratch;
* `FrameProg`           an arbitrary client of `allocate_frame`: the page mapper, which is not part of
                        this kernel, is one for every page (`mapTo`);
* `MapOk`               what the bootloader promises about the usable regions;
* `usableFrames_ok`     under it nothing panics and the frames are the list `offered`;
* `mem_offered`, `nodup_offered`   that list is exactly the set of whole pages inside usable regions.

The iterator chain of the source is lazy; here it is evaluated at once.  Under `MapOk` no element
panics, so there is no difference.
-/

set_option linter.unusedVariables false

namespace SolOs
namespace Memory
open Checked

def heapStart : Nat := 0x555500000000
def heapSize : Nat := 2 * 1024 * 1024

/-- `Size4KiB::SIZE` -/
def pageSize : Nat := 4096

inductive MemoryRegionKind where
  | usable
  | other
  deriving DecidableEq

structure MemoryRegion where
  start : Nat
  end_ : Nat
  kind : MemoryRegionKind

section
variable {ε : Type}

def alignUp (value alignment : Nat) : Run ε Nat := do
  let sum ← add 64 value alignment
  let sum ← sub sum 1
  let mask ← sub alignment 1
  pure (sum &&& Word.notMask 64 mask)

/-- `PhysAddr::new` panics unless bits 52 to 63 are zero -/
def physAddr (address : Nat) : Run ε Nat :=
  if address < 2^52 then .ok address else panic .assertion

/-- `PhysFrame::containing_address` -/
def containingAddress (address : Nat) : Nat := address / pageSize * pageSize

/-- `(start..end).step_by(step)` -/
def stepBy (start end_ step : Nat) : List Nat :=
  List.range' start ((end_ - start + (step - 1)) / step) step

def regionAddresses (region : MemoryRegion) : Run ε (List Nat) := do
  let start ← alignUp region.start pageSize
  let end_ := region.end_ &&& Word.notMask 64 (pageSize - 1)
  pure (stepBy start end_ pageSize)

def frameAt (address : Nat) : Run ε Nat := do
  let address ← physAddr address
  pure (containingAddress address)

structure BootInfoFrameAllocator where
  memoryRegions : List MemoryRegion
  next : Nat

def BootInfoFrameAllocator.usableFrames (a : BootInfoFrameAllocator) : Run ε (List Nat) := do
  let addresses ← (a.memoryRegions.filter (fun r => r.kind = .usable)).mapM regionAddresses
  addresses.flatten.mapM frameAt

def BootInfoFrameAllocator.allocateFrame (a : BootInfoFrameAllocator) :
    Run ε (Option Nat × BootInfoFrameAllocator) := do
  let frames ← a.usableFrames
  let next ← add 64 a.next 1
  pure (frames[a.next]?, { a with next := next })

/-- `n` calls of `allocate_frame`, with their results -/
def BootInfoFrameAllocator.allocateFrames (a : BootInfoFrameAllocator) :
    Nat → Run ε (List (Option Nat) × BootInfoFrameAllocator)
  | 0 => pure ([], a)
  | n + 1 => do
    let (frame, a) ← a.allocateFrame
    let (frames, a) ← a.allocateFrames n
    pure (frame :: frames, a)

end

/-! ## the heap mapping -/

inductive MapToError where
  | frameAllocationFailed
  | other
  deriving DecidableEq

/-- a client of `allocate_frame` that ends with a new mapper state and a result -/
inductive FrameProg (μ : Type) where
  | done (mapper : μ) (result : Except MapToError Unit)
  | allocate (k : Option Nat → FrameProg μ)

/-- run a client; the list collects the frames that it drew -/
def FrameProg.run {μ : Type} : FrameProg μ → BootInfoFrameAllocator →
    Run MapToError (μ × BootInfoFrameAllocator × List Nat)
  | .done mapper result, a =>
    match result with
    | .ok _ => pure (mapper, a, [])
    | .error e => raise e
  | .allocate k, a => do
    let (frame, a) ← a.allocateFrame
    let (mapper, a, drawn) ← (k frame).run a
    pure (mapper, a, frame.toList ++ drawn)

/-- what `init_heap` leaves behind: the mapping of the heap, the frames that the mapper drew for page
tables, the mapper, the frame allocator and the heap allocator -/
structure HeapMap (μ : Type) where
  mapped : List (Nat × Nat)
  tables : List Nat
  mapper : μ
  frameAllocator : BootInfoFrameAllocator
  allocator : BumpAllocator

section
variable {μ : Type} (mapTo : μ → Nat → Nat → FrameProg μ)

/-- the loop over the pages -/
def mapPages : List Nat → μ → BootInfoFrameAllocator → BumpAllocator → Run MapToError (HeapMap μ)
  | [], mapper, a, heap => pure ⟨[], [], mapper, a, heap⟩
  | page :: pages, mapper, a, heap => do
    let (frame, a) ← a.allocateFrame
    let frame ← okOr frame .frameAllocationFailed
    let (mapper, a, drawn) ← (mapTo mapper page frame).run a
    let rest ← mapPages pages mapper a heap
    pure { rest with mapped := (page, frame) :: rest.mapped, tables := drawn ++ rest.tables }

/-- `Page::range_inclusive(start_page, end_page)` -/
def heapPages : List Nat :=
  let startPage := containingAddress heapStart
  let endPage := containingAddress (heapStart + (heapSize - 1))
  stepBy startPage (endPage + 1) pageSize

def initHeap (mapper : μ) (a : BootInfoFrameAllocator) (heap : BumpAllocator) :
    Run MapToError (HeapMap μ) := do
  let out ← mapPages mapTo heapPages mapper a heap
  match out.allocator.init heapStart heapSize with
  | some heap => pure { out with allocator := heap }
  | none => panic .assertion

end

/-! ## the frames on offer -/

/-- the byte range of a region -/
def MemoryRegion.range (r : MemoryRegion) : Set Nat := Set.Ico r.start r.end_

/-- the promise of the bootloader about the usable regions -/
structure MapOk (regions : List MemoryRegion) : Prop where
  bounds : ∀ r ∈ regions, r.kind = .usable → r.start ≤ r.end_ ∧ r.end_ ≤ 2^52
  apart : (regions.filter (fun r => r.kind = .usable)).Pairwise (fun a b => Disjoint a.range b.range)

/-- the whole pages of a region -/
def MemoryRegion.pages (r : MemoryRegion) : List Nat :=
  stepBy (Word.roundUp r.start pageSize) (r.end_ / pageSize * pageSize) pageSize

def offered (regions : List MemoryRegion) : List Nat :=
  (regions.filter (fun r => r.kind = .usable)).flatMap MemoryRegion.pages

theorem alignUp_ok {ε : Type} {value : Nat} (h : value ≤ 2^52) :
    (alignUp value pageSize : Run ε Nat) = .ok (Word.roundUp value pageSize) := by
  have h1 : value + pageSize < 2^64 := by unfold pageSize; omega
  have e : value + pageSize - 1 = value + (2^12 - 1) := by unfold pageSize; omega
  unfold alignUp
  rw [add_of_lt h1, bind_ok, sub_of_le (by unfold pageSize; omega), bind_ok,
    sub_of_le (by unfold pageSize; omega), bind_ok, pure_eq, e]
  show Except.ok ((value + (2^12 - 1)) &&& Word.notMask 64 (2^12 - 1)) = _
  rw [Word.add_and_notMask (by norm_num) (by omega)]
  rfl

theorem regionAddresses_ok {ε : Type} {r : MemoryRegion} (h1 : r.start ≤ r.end_)
    (h2 : r.end_ ≤ 2^52) : (regionAddresses r : Run ε (List Nat)) = .ok r.pages := by
  have hm : r.end_ &&& Word.notMask 64 (pageSize - 1) = r.end_ / pageSize * pageSize := by
    show r.end_ &&& Word.notMask 64 (2^12 - 1) = _
    rw [Word.and_notMask (by norm_num) (by omega)]
    rfl
  unfold regionAddresses
  rw [alignUp_ok (by omega), bind_ok, pure_eq, hm]
  rfl

theorem mem_stepBy {start end_ step f : Nat} (hs : 0 < step) :
    f ∈ stepBy start end_ step ↔ ∃ i, f = start + step * i ∧ f < end_ := by
  unfold stepBy
  rw [List.mem_range']
  constructor
  · rintro ⟨i, hi, rfl⟩
    refine ⟨i, rfl, ?_⟩
    rw [Nat.lt_div_iff_mul_lt hs] at hi
    have : i * step = step * i := Nat.mul_comm i step
    omega
  · rintro ⟨i, rfl, hlt⟩
    refine ⟨i, ?_, rfl⟩
    rw [Nat.lt_div_iff_mul_lt hs]
    have : i * step = step * i := Nat.mul_comm i step
    omega

/-- a region offers exactly the pages that lie wholly inside it -/
theorem mem_pages {r : MemoryRegion} {f : Nat} :
    f ∈ r.pages ↔ f % pageSize = 0 ∧ r.start ≤ f ∧ f + pageSize ≤ r.end_ := by
  have hp : 0 < pageSize := by decide
  have hmod := Word.roundUp_mod r.start pageSize
  have hle := Word.le_roundUp r.start hp
  have hend := Nat.div_mul_le_self r.end_ pageSize
  unfold MemoryRegion.pages
  rw [mem_stepBy hp]
  constructor
  · rintro ⟨i, rfl, hlt⟩
    have hf : (Word.roundUp r.start pageSize + pageSize * i) % pageSize = 0 := by
      rw [Nat.add_mul_mod_self_left, hmod]
    refine ⟨hf, by omega, ?_⟩
    unfold pageSize at *
    omega
  · rintro ⟨hf, hlo, hhi⟩
    have hr := Word.roundUp_le hp hf hlo
    refine ⟨(f - Word.roundUp r.start pageSize) / pageSize, ?_, ?_⟩
    · unfold pageSize at *
      omega
    · unfold pageSize at *
      omega

theorem nodup_stepBy (start end_ : Nat) {step : Nat} (hs : 0 < step) :
    (stepBy start end_ step).Nodup := List.nodup_range' _ hs

section
variable {regions : List MemoryRegion}

/-- **the frames on offer are the whole pages inside usable regions** -/
theorem mem_offered {f : Nat} : f ∈ offered regions ↔
    f % pageSize = 0 ∧ ∃ r ∈ regions, r.kind = .usable ∧ r.start ≤ f ∧ f + pageSize ≤ r.end_ := by
  unfold offered
  simp only [List.mem_flatMap, List.mem_filter, decide_eq_true_eq, mem_pages]
  constructor
  · rintro ⟨r, ⟨hr, hk⟩, h0, h1, h2⟩
    exact ⟨h0, r, hr, hk, h1, h2⟩
  · rintro ⟨h0, r, hr, hk, h1, h2⟩
    exact ⟨r, ⟨hr, hk⟩, h0, h1, h2⟩

/-- no page is offered twice -/
theorem nodup_offered (hmap : MapOk regions) : (offered regions).Nodup := by
  unfold offered
  rw [List.nodup_flatMap]
  refine ⟨fun r _ => nodup_stepBy _ _ (by decide), hmap.apart.imp ?_⟩
  intro a b hab f hfa hfb
  obtain ⟨_, ha1, ha2⟩ := mem_pages.mp hfa
  obtain ⟨_, hb1, hb2⟩ := mem_pages.mp hfb
  have hp : 0 < pageSize := by decide
  have hin : f ∈ a.range := ⟨ha1, by omega⟩
  exact Set.disjoint_left.mp hab hin ⟨hb1, by omega⟩

theorem offered_lt (hmap : MapOk regions) {f : Nat} (hf : f ∈ offered regions) :
    f + pageSize ≤ 2^52 := by
  obtain ⟨_, r, hr, hk, _, h2⟩ := mem_offered.mp hf
  have := (hmap.bounds r hr hk).2
  omega

/-- there are at most `2^40` of them: the machine has no more page frames -/
theorem length_offered (hmap : MapOk regions) : (offered regions).length ≤ 2^40 := by
  have hinj : ((offered regions).map (fun f => f / pageSize)).Nodup := by
    refine List.Nodup.map_on ?_ (nodup_offered hmap)
    intro a ha b hb hab
    have h1 := (mem_offered.mp ha).1
    have h2 := (mem_offered.mp hb).1
    have h3 := Nat.div_add_mod a pageSize
    have h4 := Nat.div_add_mod b pageSize
    rw [h1] at h3
    rw [h2] at h4
    rw [← h3, ← h4, hab]
  have hsub : (offered regions).map (fun f => f / pageSize) ⊆ List.range (2^40) := by
    intro x hx
    obtain ⟨f, hf, rfl⟩ := List.mem_map.mp hx
    have hlt := offered_lt hmap hf
    rw [List.mem_range]
    unfold pageSize at *
    omega
  have h := (List.subperm_of_subset hinj hsub).length_le
  rwa [List.length_map, List.length_range] at h

theorem frameAt_ok {ε : Type} (hmap : MapOk regions) {f : Nat} (hf : f ∈ offered regions) :
    (frameAt f : Run ε Nat) = .ok f := by
  have hlt := offered_lt hmap hf
  have hp : 0 < pageSize := by decide
  have hmod := (mem_offered.mp hf).1
  unfold frameAt physAddr
  rw [if_pos (by omega), bind_ok, pure_eq]
  show Except.ok (f / pageSize * pageSize) = _
  rw [Nat.div_mul_cancel (Nat.dvd_of_mod_eq_zero hmod)]

theorem usableFrames_ok {ε : Type} (hmap : MapOk regions) (next : Nat) :
    (BootInfoFrameAllocator.usableFrames ⟨regions, next⟩ : Run ε (List Nat))
      = .ok (offered regions) := by
  unfold BootInfoFrameAllocator.usableFrames
  have h1 : (regions.filter (fun r => r.kind = .usable)).mapM
      (regionAddresses : MemoryRegion → Run ε (List Nat))
      = .ok ((regions.filter (fun r => r.kind = .usable)).map MemoryRegion.pages) := by
    apply mapM_ok _
    intro r hr
    obtain ⟨hr1, hr2⟩ := List.mem_filter.mp hr
    have hb := hmap.bounds r hr1 (by simpa using hr2)
    exact regionAddresses_ok hb.1 hb.2
  rw [h1, bind_ok]
  have h2 : ((regions.filter (fun r => r.kind = .usable)).map MemoryRegion.pages).flatten
      = offered regions := rfl
  have h3 : (offered regions).mapM (frameAt : Nat → Run ε Nat) = .ok ((offered regions).map id) :=
    mapM_ok _ (fun f hf => frameAt_ok hmap hf)
  rw [h2, h3, List.map_id]

theorem allocateFrame_ok {ε : Type} (hmap : MapOk regions) {next : Nat} (h : next + 1 < 2^64) :
    (BootInfoFrameAllocator.allocateFrame ⟨regions, next⟩ : Run ε _)
      = .ok ((offered regions)[next]?, ⟨regions, next + 1⟩) := by
  unfold BootInfoFrameAllocator.allocateFrame
  rw [usableFrames_ok hmap, bind_ok, add_of_lt h, bind_ok, pure_eq]

/-- a call that returned took the next frame -/
theorem allocateFrame_inv {ε : Type} (hmap : MapOk regions) {next : Nat} {f : Option Nat}
    {a : BootInfoFrameAllocator}
    (h : (BootInfoFrameAllocator.allocateFrame ⟨regions, next⟩ : Run ε _) = .ok (f, a)) :
    f = (offered regions)[next]? ∧ a = ⟨regions, next + 1⟩ := by
  by_cases hlt : next + 1 < 2^64
  · rw [allocateFrame_ok hmap hlt] at h
    cases h
    exact ⟨rfl, rfl⟩
  · unfold BootInfoFrameAllocator.allocateFrame at h
    have hno : (add 64 next 1 : Run ε Nat) = panic .overflow := if_neg hlt
    rw [usableFrames_ok hmap, bind_ok, hno] at h
    cases h

theorem allocateFrames_ok {ε : Type} (hmap : MapOk regions) (n : Nat) :
    ∀ next, next + n < 2^64 →
      (BootInfoFrameAllocator.allocateFrames ⟨regions, next⟩ n : Run ε _)
        = .ok ((List.range' next n).map (fun i => (offered regions)[i]?), ⟨regions, next + n⟩) := by
  induction n with
  | zero => intro next _; rfl
  | succ n ih =>
    intro next h
    unfold BootInfoFrameAllocator.allocateFrames
    rw [allocateFrame_ok hmap (by omega), bind_ok]
    show ((BootInfoFrameAllocator.allocateFrames ⟨regions, next + 1⟩ n : Run ε _) >>= _) = _
    rw [ih (next + 1) (by omega), bind_ok, List.range'_succ, List.map_cons]
    have e : next + 1 + n = next + (n + 1) := by omega
    rw [e]
    rfl

/-! ## frames drawn in a stretch of calls -/

/-- the frames `l` were handed out, each once, by calls number `m` to `n` -/
def Drawn (frames : List Nat) (m n : Nat) (l : List Nat) : Prop :=
  m ≤ n ∧ l.Nodup ∧ ∀ f ∈ l, ∃ i, m ≤ i ∧ i < n ∧ frames[i]? = some f

variable {frames : List Nat} {m n k : Nat} {l l' : List Nat}

theorem Drawn.nil (frames : List Nat) (m : Nat) : Drawn frames m m [] :=
  ⟨le_rfl, List.nodup_nil, fun f hf => absurd hf List.not_mem_nil⟩

theorem Drawn.one (frames : List Nat) (m : Nat) : Drawn frames m (m + 1) (frames[m]?).toList := by
  refine ⟨Nat.le_succ m, ?_, ?_⟩
  · cases frames[m]? <;> simp
  · intro f hf
    exact ⟨m, le_rfl, Nat.lt_succ_self m, by simpa using hf⟩

/-- different calls hand out different frames -/
theorem Drawn.append (hnd : frames.Nodup) (h : Drawn frames m n l) (h' : Drawn frames n k l') :
    Drawn frames m k (l ++ l') := by
  obtain ⟨hmn, hl, hfl⟩ := h
  obtain ⟨hnk, hl', hfl'⟩ := h'
  refine ⟨le_trans hmn hnk, List.nodup_append.mpr ⟨hl, hl', ?_⟩, ?_⟩
  · intro f hf g hg hfg
    obtain ⟨i, _, hi2, hi3⟩ := hfl f hf
    obtain ⟨j, hj1, _, hj3⟩ := hfl' g hg
    rw [← hfg] at hj3
    obtain ⟨hib, hi4⟩ := List.getElem?_eq_some_iff.mp hi3
    obtain ⟨hjb, hj4⟩ := List.getElem?_eq_some_iff.mp hj3
    have := (List.Nodup.getElem_inj_iff hnd).mp (hi4.trans hj4.symm)
    omega
  · intro f hf
    rcases List.mem_append.mp hf with h1 | h1
    · obtain ⟨i, hi1, hi2, hi3⟩ := hfl f h1
      exact ⟨i, hi1, by omega, hi3⟩
    · obtain ⟨i, hi1, hi2, hi3⟩ := hfl' f h1
      exact ⟨i, by omega, hi2, hi3⟩

theorem Drawn.perm (h : Drawn frames m n l) (hp : l.Perm l') : Drawn frames m n l' :=
  ⟨h.1, hp.nodup_iff.mp h.2.1, fun f hf => h.2.2 f (hp.mem_iff.mpr hf)⟩

/-- a client draws frames, whatever it does with them -/
theorem FrameProg.run_drawn {μ : Type} (hmap : MapOk regions) (prog : FrameProg μ) :
    ∀ (next : Nat) (mapper : μ) (a : BootInfoFrameAllocator) (drawn : List Nat),
      prog.run ⟨regions, next⟩ = .ok (mapper, a, drawn) →
      ∃ next', a = ⟨regions, next'⟩ ∧ Drawn (offered regions) next next' drawn := by
  induction prog with
  | done mapper0 result =>
    intro next mapper a drawn h
    unfold FrameProg.run at h
    cases result with
    | ok _ =>
      cases h
      exact ⟨next, rfl, Drawn.nil _ _⟩
    | error e => cases h
  | allocate k ih =>
    intro next mapper a drawn h
    unfold FrameProg.run at h
    obtain ⟨⟨f, a1⟩, h1, h2⟩ := bind_eq_ok.mp h
    obtain ⟨⟨mapper2, a2, drawn2⟩, h3, h4⟩ := bind_eq_ok.mp h2
    obtain ⟨rfl, rfl⟩ := allocateFrame_inv hmap h1
    obtain ⟨next', rfl, hd⟩ := ih _ _ _ _ _ h3
    cases h4
    exact ⟨next', rfl, (Drawn.one _ _).append (nodup_offered hmap) hd⟩

theorem mapPages_drawn {μ : Type} (mapTo : μ → Nat → Nat → FrameProg μ) (hmap : MapOk regions)
    (pages : List Nat) : ∀ (next : Nat) (mapper : μ) (heap : BumpAllocator) (out : HeapMap μ),
      mapPages mapTo pages mapper ⟨regions, next⟩ heap = .ok out →
      out.allocator = heap ∧ out.mapped.map Prod.fst = pages ∧
      ∃ next', out.frameAllocator = ⟨regions, next'⟩ ∧
        Drawn (offered regions) next next' (out.mapped.map Prod.snd ++ out.tables) := by
  induction pages with
  | nil =>
    intro next mapper heap out h
    cases h
    exact ⟨rfl, rfl, next, rfl, Drawn.nil _ _⟩
  | cons page pages ih =>
    intro next mapper heap out h
    unfold mapPages at h
    obtain ⟨⟨f, a1⟩, h1, h2⟩ := bind_eq_ok.mp h
    obtain ⟨frame, h3, h4⟩ := bind_eq_ok.mp h2
    obtain ⟨⟨mapper2, a2, drawn⟩, h5, h6⟩ := bind_eq_ok.mp h4
    obtain ⟨rest, h7, h8⟩ := bind_eq_ok.mp h6
    obtain ⟨rfl, rfl⟩ := allocateFrame_inv hmap h1
    have hf : (offered regions)[next]? = some frame := okOr_eq_ok.mp h3
    obtain ⟨next1, rfl, hd1⟩ := FrameProg.run_drawn hmap _ _ _ _ _ h5
    obtain ⟨hheap, hpages, next2, hfa, hd2⟩ := ih _ _ _ _ h7
    cases h8
    have hd0 := Drawn.one (offered regions) next
    rw [hf] at hd0
    have hd := (hd0.append (nodup_offered hmap) hd1).append (nodup_offered hmap) hd2
    refine ⟨hheap, by simp [hpages], next2, hfa, hd.perm ?_⟩
    simp only [Option.toList_some, List.map_cons, List.cons_append, List.nil_append]
    exact List.Perm.cons _ (List.perm_append_comm_assoc _ _ _)

end

theorem heapPages_eq : heapPages = List.range' heapStart 512 pageSize := by
  have h1 : containingAddress heapStart = heapStart := by decide
  have h2 : (containingAddress (heapStart + (heapSize - 1)) + 1 - heapStart + (pageSize - 1)) / pageSize
      = 512 := by decide
  unfold heapPages stepBy
  simp only [h1, h2]

/-- every byte of the heap lies in one of the pages -/
theorem heapPages_cover {a : Nat} (h1 : heapStart ≤ a) (h2 : a < heapStart + heapSize) :
    ∃ page ∈ heapPages, page ≤ a ∧ a < page + pageSize := by
  refine ⟨heapStart + pageSize * ((a - heapStart) / pageSize), ?_, ?_, ?_⟩
  · rw [heapPages_eq, List.mem_range']
    refine ⟨(a - heapStart) / pageSize, ?_, rfl⟩
    unfold heapSize pageSize at *
    omega
  · unfold pageSize
    omega
  · unfold pageSize
    omega

/-! ## enough frames are enough -/

/-- the first address of a page of the lower half -/
def IsPage (page : Nat) : Prop := page % pageSize = 0 ∧ page < 2^47

theorem heapPages_isPage {page : Nat} (h : page ∈ heapPages) : IsPage page := by
  rw [heapPages_eq, List.mem_range'] at h
  obtain ⟨i, hi, rfl⟩ := h
  unfold IsPage heapStart pageSize
  omega

theorem heapPages_nodup : heapPages.Nodup := by
  rw [heapPages_eq]
  exact List.nodup_range' pageSize (by decide)

section
variable {regions : List MemoryRegion} {μ : Type} {Q : μ → Prop}

/-- a client that asks for at most `n` frames, and when it gets them succeeds and leaves a state with `Q` -/
def FrameProg.Fits (Q : μ → Prop) : FrameProg μ → Nat → Prop
  | .done mapper result, _ => result = .ok () ∧ Q mapper
  | .allocate _, 0 => False
  | .allocate k, n + 1 => ∀ f, (k (some f)).Fits Q n

theorem FrameProg.Fits.mono {prog : FrameProg μ} {n m : Nat} (h : prog.Fits Q n) (hnm : n ≤ m) : prog.Fits Q m := by
  induction prog generalizing n m with
  | done mapper result =>
    unfold FrameProg.Fits at h ⊢
    exact h
  | allocate k ih =>
    cases n with
    | zero => exact h.elim
    | succ n =>
      obtain ⟨m, rfl⟩ : ∃ m', m = m' + 1 := ⟨m - 1, by omega⟩
      exact fun f => ih (some f) (h f) (by omega)

theorem FrameProg.run_ok (hmap : MapOk regions) (prog : FrameProg μ) :
    ∀ (n next : Nat), prog.Fits Q n → next + n ≤ (offered regions).length →
      ∃ mapper next' drawn, prog.run ⟨regions, next⟩ = .ok (mapper, ⟨regions, next'⟩, drawn) ∧
        next' ≤ next + n ∧ Q mapper := by
  induction prog with
  | done mapper result =>
    intro n next hfit _
    obtain ⟨rfl, hQ⟩ : result = .ok () ∧ Q mapper := by cases n <;> exact hfit
    exact ⟨mapper, next, [], rfl, Nat.le_add_right _ _, hQ⟩
  | allocate k ih =>
    intro n next hfit hlen
    cases n with
    | zero => exact hfit.elim
    | succ n =>
      have hbig := length_offered hmap
      have hget : (offered regions)[next]? = some (offered regions)[next] :=
        List.getElem?_eq_getElem (by omega)
      obtain ⟨mapper, next', drawn, hrun, hle, hQ⟩ := ih (some (offered regions)[next]) n (next + 1)
        (hfit _) (by omega)
      refine ⟨mapper, next', (offered regions)[next] :: drawn, ?_, by omega, hQ⟩
      unfold FrameProg.run
      rw [allocateFrame_ok hmap (by omega), bind_ok, hget]
      show ((k (some (offered regions)[next])).run ⟨regions, next + 1⟩ >>= _) = _
      rw [hrun, bind_ok]
      rfl

/-- **`init_heap` succeeds** on pages that are free, when the mapper asks for at most `n` frames a page and keeps
the other pages free, and there are `n + 1` frames for every page -/
theorem initHeap_ok (mapTo : μ → Nat → Nat → FrameProg μ) (n : Nat) (free : μ → Nat → Prop)
    (hfit : ∀ mapper page frame, IsPage page → free mapper page → (mapTo mapper page frame).Fits
      (fun mapper' => ∀ other, IsPage other → other ≠ page → free mapper other → free mapper' other) n)
    (hmap : MapOk regions) (hlen : 512 * (n + 1) ≤ (offered regions).length) (mapper : μ)
    (hfree : ∀ page ∈ heapPages, free mapper page) :
    ∃ out, initHeap mapTo mapper ⟨regions, 0⟩ .new = .ok out := by
  have hbig := length_offered hmap
  have loop : ∀ (pages : List Nat) (next : Nat) (mapper : μ), pages.Nodup → (∀ page ∈ pages, IsPage page) →
      (∀ page ∈ pages, free mapper page) → next + pages.length * (n + 1) ≤ (offered regions).length →
      ∃ out, mapPages mapTo pages mapper ⟨regions, next⟩ .new = .ok out := by
    intro pages
    induction pages with
    | nil => intro next mapper _ _ _ _; exact ⟨_, rfl⟩
    | cons page pages ih =>
      intro next mapper hnd hpages hfree hle
      obtain ⟨hnew, hnd⟩ := List.nodup_cons.mp hnd
      obtain ⟨hpage, hpages⟩ := List.forall_mem_cons.mp hpages
      obtain ⟨hfirst, hrest⟩ := List.forall_mem_cons.mp hfree
      have e : (page :: pages).length * (n + 1) = pages.length * (n + 1) + (n + 1) := by
        rw [List.length_cons, Nat.succ_mul]
      have hget : (offered regions)[next]? = some (offered regions)[next] :=
        List.getElem?_eq_getElem (by omega)
      obtain ⟨mapper', next', drawn, hrun, hle', hkeep⟩ := FrameProg.run_ok hmap
        (mapTo mapper page (offered regions)[next]) n (next + 1) (hfit _ _ _ hpage hfirst) (by omega)
      have hfree' : ∀ other ∈ pages, free mapper' other := by
        intro other hother
        exact hkeep other (hpages other hother) (fun he => hnew (he ▸ hother)) (hrest other hother)
      obtain ⟨rest, hrest⟩ := ih next' mapper' hnd hpages hfree' (by omega)
      unfold mapPages
      rw [allocateFrame_ok hmap (by omega), bind_ok, hget]
      show ∃ out, ((mapTo mapper page (offered regions)[next]).run ⟨regions, next + 1⟩ >>= _) = _
      rw [hrun, bind_ok]
      show ∃ out, (mapPages mapTo pages mapper' ⟨regions, next'⟩ .new >>= _) = _
      rw [hrest, bind_ok]
      exact ⟨_, rfl⟩
  have hpages : heapPages.length = 512 := by rw [heapPages_eq, List.length_range']
  obtain ⟨out, hout⟩ := loop heapPages 0 mapper heapPages_nodup (fun page h => heapPages_isPage h) hfree
    (by rw [hpages, Nat.zero_add]; exact hlen)
  obtain ⟨hheap, _⟩ := mapPages_drawn mapTo hmap heapPages 0 mapper .new out hout
  unfold initHeap
  rw [hout, bind_ok, hheap]
  exact ⟨_, rfl⟩

end

/-- **The frame allocator hands out every usable page exactly once.**  For every memory map of the
bootloader there is one list of frames, without repetitions, that consists of the whole pages inside
usable regions, and call number `i` of `allocate_frame` returns its `i`-th element, or `None` past its
end.  So whenever `init_heap` returns `Ok`, whatever frames the mapper draws in between, every byte of
the heap is mapped and all data and page-table frames differ. -/
theorem frame_allocator_enumerates (regions : List MemoryRegion) (hmap : MapOk regions) :
    ∃ frames : List Nat, frames.Nodup ∧
      (∀ f, f ∈ frames ↔ f % pageSize = 0 ∧
        ∃ r ∈ regions, r.kind = .usable ∧ r.start ≤ f ∧ f + pageSize ≤ r.end_) ∧
      frames.length < 2^64 ∧
      (∀ n < 2^64, (BootInfoFrameAllocator.allocateFrames ⟨regions, 0⟩ n : Run Empty _)
        = .ok ((List.range n).map (fun i => frames[i]?), ⟨regions, n⟩)) ∧
      ∀ (μ : Type) (mapTo : μ → Nat → Nat → FrameProg μ) (mapper : μ) (next : Nat)
        (heap : BumpAllocator) (out : HeapMap μ),
        initHeap mapTo mapper ⟨regions, next⟩ heap = .ok out →
        (∀ a, heapStart ≤ a → a < heapStart + heapSize →
          ∃ p ∈ out.mapped, p.1 ≤ a ∧ a < p.1 + pageSize) ∧
        (out.mapped.map Prod.fst).Nodup ∧
        (out.mapped.map Prod.snd ++ out.tables).Nodup ∧
        ∀ f ∈ out.mapped.map Prod.snd ++ out.tables, f ∈ frames := by
  have hlen := length_offered hmap
  refine ⟨offered regions, nodup_offered hmap, fun f => mem_offered, by omega, ?_, ?_⟩
  · intro n hn
    rw [allocateFrames_ok hmap n 0 (by omega), ← List.range_eq_range', Nat.zero_add]
  · intro μ mapTo mapper next heap out h
    unfold initHeap at h
    obtain ⟨out0, h1, h2⟩ := bind_eq_ok.mp h
    obtain ⟨_, hpages, next', _, _, hnd, hdrawn⟩ := mapPages_drawn mapTo hmap _ _ _ _ _ h1
    obtain ⟨hm, ht⟩ : out.mapped = out0.mapped ∧ out.tables = out0.tables := by
      cases hb : out0.allocator.init heapStart heapSize with
      | none => rw [hb] at h2; cases h2
      | some b => rw [hb] at h2; cases h2; exact ⟨rfl, rfl⟩
    rw [hm, ht]
    refine ⟨?_, ?_, hnd, ?_⟩
    · intro a ha1 ha2
      obtain ⟨page, hpage, hle, hlt⟩ := heapPages_cover ha1 ha2
      rw [← hpages] at hpage
      obtain ⟨p, hp, rfl⟩ := List.mem_map.mp hpage
      exact ⟨p, hp, hle, hlt⟩
    · rw [hpages]
      exact heapPages_nodup
    · intro f hf
      obtain ⟨i, _, _, hi⟩ := hdrawn f hf
      exact List.mem_of_getElem? hi

/-- an unaligned usable region, one that is not usable, and one that touches it -/
def smallMap : List MemoryRegion :=
  [⟨0x1001, 0x4fff, .usable⟩, ⟨0x5000, 0x6000, .other⟩, ⟨0x6000, 0x7000, .usable⟩]

theorem smallMap_ok : MapOk smallMap where
  bounds := by
    intro r hr _
    simp only [smallMap, List.mem_cons, List.not_mem_nil, or_false] at hr
    rcases hr with rfl | rfl | rfl <;> norm_num
  apart := by
    have e : smallMap.filter (fun r => r.kind = .usable)
        = [⟨0x1001, 0x4fff, .usable⟩, ⟨0x6000, 0x7000, .usable⟩] := rfl
    rw [e, List.pairwise_pair]
    show Disjoint (Set.Ico 0x1001 0x4fff) (Set.Ico 0x6000 0x7000)
    rw [Set.Ico_disjoint_Ico]
    norm_num

theorem frame_allocator_enumerates_smallMap :
    ∃ frames : List Nat, frames.Nodup ∧ 0x2000 ∈ frames ∧ 0x4000 ∉ frames ∧ 0x6000 ∈ frames := by
  obtain ⟨frames, hnd, hmem, _⟩ := frame_allocator_enumerates smallMap smallMap_ok
  refine ⟨frames, hnd, (hmem _).mpr ?_, fun h => ?_, (hmem _).mpr ?_⟩
  · simp [smallMap, pageSize]
  · have := (hmem _).mp h
    simp [smallMap, pageSize] at this
  · simp [smallMap, pageSize]

end Memory
end SolOs
