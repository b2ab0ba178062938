import SolOs.Lib.Paging
import SolOs.Memory.Mapper

/-!
# The heap as its clients see it

`init_heap` has mapped the pages of the heap and the bump allocator hands out ranges of them; here the bytes
come into it.  Loads and stores go through the mapping that the mapper has installed (`Installs`).  Threads call
`alloc` and `alloc_zeroed` and write into the blocks that they got, interleaved access by access and byte by byte.
`dealloc` does nothing.

* `Block`                  a finished call of `alloc`, with what was written into its block since;
* `Heap`, `Heap.step`      the allocator, the physical memory and the blocks.  `alloc_zeroed` fills a block
                           before it hands it out;
* `Block.expects`          what its owner expects to find in a block;
* `heap_blocks_private`    **every block is private memory**, in frames that are used for nothing else.
-/

set_option linter.unusedVariables false

namespace SolOs
namespace Memory
open Checked Paging

/-- `given` when the call has returned to the client -/
structure Block where
  zeroed : Bool
  given : Bool
  written : Nat → Option UInt8

def Block.expects (b : Block) (i : Nat) : Option UInt8 :=
  if b.given then (b.written i).or (if b.zeroed then some 0 else none) else none

def Block.write (b : Block) (i : Nat) (v : UInt8) : Block :=
  { b with written := Function.update b.written i (some v) }

def Block.give (b : Block) : Block := { b with given := true }

theorem Block.expects_write (b : Block) (hg : b.given = true) (i : Nat) (v : UInt8) :
    (b.write i v).expects i = some v := by
  show (if b.given then (Function.update b.written i (some v) i).or _ else none) = _
  rw [if_pos hg, Function.update_self, Option.some_or]

theorem Block.expects_write_of_ne (b : Block) {i j : Nat} (hne : j ≠ i) (v : UInt8) :
    (b.write i v).expects j = b.expects j := by
  show (if b.given then (Function.update b.written i (some v) j).or _ else none) = _
  rw [Function.update_of_ne hne]
  rfl

/-- in a new block there is nothing to expect: one from `alloc_zeroed` is filled first -/
theorem Block.expects_new (zeroed : Bool) (i : Nat) : (⟨zeroed, !zeroed, fun _ => none⟩ : Block).expects i = none := by
  cases zeroed <;> rfl

/-- `wants`: the call of the thread is an `alloc_zeroed`; `zeroing`: the block that it fills, and the next
byte -/
structure Heap where
  sys : Sys
  memory : Nat → UInt8
  wants : Nat → Bool
  zeroing : Nat → Option (Nat × Nat)
  blocks : List Block
  faulted : Bool

inductive HeapAct where
  | call (t : Nat) (l : Layout) (zeroed : Bool)
  | access (t : Nat) (spurious : Bool)
  | zero (t : Nat)
  | write (k i : Nat) (v : UInt8)
  | dealloc (k : Nat)

/-- after `init_heap` -/
def Heap.start (allocator : BumpAllocator) (memory : Nat → UInt8) : Heap :=
  ⟨⟨allocator, .done, fun _ => .idle, fun _ => false, []⟩, memory, fun _ => false, fun _ => none, [], false⟩

namespace Heap

/-- after an access of thread `t`: its `alloc` may have returned -/
def returned (h : Heap) (t : Nat) (sys : Sys) : Heap :=
  match sys.rets[h.sys.rets.length]? with
  | none => { h with sys := sys }
  | some r =>
    let fill := h.wants t && decide (r.ptr ≠ 0)
    { h with
      sys := sys
      zeroing := Function.update h.zeroing t (if fill then some (h.sys.rets.length, 0) else none)
      blocks := h.blocks ++ [⟨h.wants t, !fill, fun _ => none⟩] }

/-- a byte is written; a page fault is the end of everything -/
def put (h : Heap) (frames : Nat → Option Nat) (a : Nat) (v : UInt8) (rest : Heap → Heap) : Heap :=
  match store pageSize frames h.memory a v with
  | none => { h with faulted := true }
  | some memory => rest { h with memory := memory }

/-- one byte of `write_bytes(0, size)`, or the return of `alloc_zeroed` -/
def zero (h : Heap) (frames : Nat → Option Nat) (t k i : Nat) (r : Ret) : Heap :=
  if i < r.l.size then
    h.put frames (r.ptr + i) 0 fun h => { h with zeroing := Function.update h.zeroing t (some (k, i + 1)) }
  else { h with zeroing := Function.update h.zeroing t none, blocks := h.blocks.modify k Block.give }

/-- `frames`: the frame of each page -/
def step (frames : Nat → Option Nat) (h : Heap) : HeapAct → Option Heap
  | .call t l zeroed =>
    match h.zeroing t with
    | some _ => none
    | none =>
      (h.sys.step heapStart heapSize (.call t l)).map fun sys =>
        { h with sys := sys, wants := Function.update h.wants t zeroed }
  | .access t spurious => (h.sys.step heapStart heapSize (.access t spurious)).map (h.returned t)
  | .zero t => do
    let (k, i) ← h.zeroing t
    let r ← h.sys.rets[k]?
    some (h.zero frames t k i r)
  | .write k i v => do
    let r ← h.sys.rets[k]?
    let b ← h.blocks[k]?
    if b.given ∧ r.ptr ≠ 0 ∧ i < r.l.size then
      some (h.put frames (r.ptr + i) v fun h =>
        { h with blocks := h.blocks.modify k fun b => b.write i v })
    else none
  | .dealloc k => some h

/-! ## the invariant -/

/-- the addresses of the heap -/
def region : Set Nat := { a | heapStart ≤ a ∧ a < heapStart + heapSize }

section
variable (frames : Nat → Option Nat) (memory₀ : Nat → UInt8)

/-- block `k` with its call -/
def At (h : Heap) (k : Nat) (r : Ret) (b : Block) : Prop :=
  h.sys.rets[k]? = some r ∧ h.blocks[k]? = some b ∧ r.ptr ≠ 0

/-- no two threads fill the same block -/
def Alone (zeroing : Nat → Option (Nat × Nat)) : Prop :=
  ∀ t u k i j, zeroing t = some (k, i) → zeroing u = some (k, j) → t = u

structure Inv (h : Heap) : Prop where
  sys : h.sys.Inv heapStart heapSize
  done : h.sys.init = .done
  lengths : h.blocks.length = h.sys.rets.length
  faulted : h.faulted = false
  contents : ∀ k r b, h.At k r b → ∀ i < r.l.size, ∀ v, b.expects i = some v →
    load pageSize frames h.memory (r.ptr + i) = some v
  zeroing : ∀ t k i, h.zeroing t = some (k, i) → ∃ r b, h.At k r b ∧ i ≤ r.l.size ∧ b.given = false ∧
    b.written = (fun _ => none) ∧ ∀ j < i, load pageSize frames h.memory (r.ptr + j) = some 0
  alone : Alone h.zeroing
  outside : ∀ x, (∀ a ∈ region, translate pageSize frames a ≠ some x) → h.memory x = memory₀ x

end

section
variable {frames : Nat → Option Nat} {memory₀ : Nat → UInt8} {h h' : Heap} {k k' i i' : Nat} {r r' : Ret}
  {b b' : Block}

/-- the bytes of the blocks are in the heap -/
theorem Inv.in_heap (hi : h.Inv frames memory₀) (hk : h.At k r b) (hlt : i < r.l.size) :
    r.ptr + i ∈ region := by
  obtain ⟨_, _, hle, hend⟩ := (hi.sys.rets r (List.mem_of_getElem? hk.1)).2 hk.2.2
  obtain ⟨_, _, _, _, hnext⟩ := hi.sys.at_done hi.done
  constructor <;> omega

/-- different bytes of blocks have different addresses -/
theorem Inv.apart (hi : h.Inv frames memory₀) (hk : h.At k r b) (hk' : h.At k' r' b') (hlt : i < r.l.size)
    (hlt' : i' < r'.l.size) (he : r.ptr + i = r'.ptr + i') : k = k' ∧ i = i' := by
  have before : ∀ {m n : Nat} {a c : Ret}, h.sys.rets[m]? = some a → h.sys.rets[n]? = some c → m < n →
      a.ptr ≠ 0 → c.ptr ≠ 0 → a.ptr + a.l.size ≤ c.ptr := by
    intro m n a c hm hn hmn ha hc
    obtain ⟨hm', rfl⟩ := List.getElem?_eq_some_iff.mp hm
    obtain ⟨hn', rfl⟩ := List.getElem?_eq_some_iff.mp hn
    exact List.pairwise_iff_getElem.mp hi.sys.order m n hm' hn' hmn ha hc
  obtain hlt₁ | heq | hlt₁ := Nat.lt_trichotomy k k'
  · have := before hk.1 hk'.1 hlt₁ hk.2.2 hk'.2.2
    omega
  · subst heq
    obtain rfl : r = r' := Option.some.inj (hk.1.symm.trans hk'.1)
    exact ⟨rfl, by omega⟩
  · have := before hk'.1 hk.1 hlt₁ hk'.2.2 hk.2.2
    omega

/-- **one byte of a block is written**, and nothing else is seen to change -/
theorem Inv.put_eq (hm : Sound pageSize frames region) (hi : h.Inv frames memory₀) (hk : h.At k r b) (hlt : i < r.l.size)
    (v : UInt8) (rest : Heap → Heap) :
    ∃ memory, h.put frames (r.ptr + i) v rest = rest { h with memory := memory } ∧
      load pageSize frames memory (r.ptr + i) = some v ∧
      (∀ k' r' b', h.At k' r' b' → ∀ i' < r'.l.size, ¬(k' = k ∧ i' = i) →
        load pageSize frames memory (r'.ptr + i') = load pageSize frames h.memory (r'.ptr + i')) ∧
      ∀ x, (∀ a ∈ region, translate pageSize frames a ≠ some x) → memory x = h.memory x := by
  have hin := hi.in_heap hk hlt
  obtain ⟨frame, _, _, hx⟩ := hm.exists_translate hin
  have hstore : store pageSize frames h.memory (r.ptr + i) v
      = some (Function.update h.memory (frame + (r.ptr + i) % pageSize) v) := by
    rw [store, hx]
    rfl
  refine ⟨_, ?_, load_store hstore, ?_, ?_⟩
  · rw [put, hstore]
  · intro k' r' b' hk' i' hlt' hne
    apply load_store_of_ne hm (by decide) hin (hi.in_heap hk' hlt') hstore
    intro he
    exact hne (hi.apart hk' hk hlt' hlt he)
  · intro y hy
    exact store_outside hin hstore hy

/-! ## one step keeps it -/

/-- a change of one block -/
theorem at_modify {f : Block → Block} (hk : At { h with blocks := h.blocks.modify k f } k' r' b') :
    ∃ b, h.At k' r' b ∧ b' = if k = k' then f b else b := by
  obtain ⟨hr, hmodified, hp⟩ := hk
  change (h.blocks.modify k f)[k']? = some b' at hmodified
  rw [List.getElem?_modify] at hmodified
  obtain ⟨b, hb, he⟩ := Option.map_eq_some_iff.mp hmodified
  exact ⟨b, ⟨hr, hb, hp⟩, he.symm⟩

theorem modify_at (f : Block → Block) (hk : h.At k' r' b') :
    At { h with blocks := h.blocks.modify k f } k' r' (if k = k' then f b' else b') := by
  refine ⟨hk.1, ?_, hk.2.2⟩
  show (h.blocks.modify k f)[k']? = _
  rw [List.getElem?_modify, hk.2.1]
  rfl

theorem Inv.at_inj (hk : h.At k r b) (hk' : h.At k r' b') : r = r' ∧ b = b' :=
  ⟨Option.some.inj (hk.1.symm.trans hk'.1), Option.some.inj (hk.2.1.symm.trans hk'.2.1)⟩

/-- a step of the allocator that returns nothing -/
theorem Inv.withSys (hi : h.Inv frames memory₀) {sys : Sys} (hs : sys.Inv heapStart heapSize) (hd : sys.init = .done)
    (hr : sys.rets = h.sys.rets) (wants : Nat → Bool) :
    Inv frames memory₀ { h with sys := sys, wants := wants } := by
  have hat : ∀ {k r b}, At { h with sys := sys, wants := wants } k r b ↔ h.At k r b := by
    intro k r b
    unfold At
    rw [hr]
  refine { hi with sys := hs, done := hd, lengths := hi.lengths.trans (congrArg _ hr.symm), contents := ?_, zeroing := ?_ }
  · intro k r b hk
    exact hi.contents k r b (hat.mp hk)
  · intro t k i ht
    obtain ⟨r, b, hk, hrest⟩ := hi.zeroing t k i ht
    exact ⟨r, b, hat.mpr hk, hrest⟩

/-- one more block -/
theorem grown_at_iff (hlen : h.blocks.length = h.sys.rets.length) {sys : Sys} {r₀ : Ret}
    (hr : sys.rets = h.sys.rets ++ [r₀]) {zeroing : Nat → Option (Nat × Nat)} {new : Block} :
    At { h with sys := sys, zeroing := zeroing, blocks := h.blocks ++ [new] } k r b ↔
      h.At k r b ∨ k = h.sys.rets.length ∧ r = r₀ ∧ b = new ∧ r₀.ptr ≠ 0 := by
  show sys.rets[k]? = some r ∧ (h.blocks ++ [new])[k]? = some b ∧ r.ptr ≠ 0 ↔
    (h.sys.rets[k]? = some r ∧ h.blocks[k]? = some b ∧ r.ptr ≠ 0) ∨ _
  rw [hr, List.getElem?_append, List.getElem?_append, hlen]
  by_cases hlt : k < h.sys.rets.length
  · rw [if_pos hlt, if_pos hlt]
    exact (or_iff_left fun hk => hlt.ne hk.1).symm
  · rw [if_neg hlt, if_neg hlt, List.getElem?_eq_none (Nat.le_of_not_lt hlt), List.getElem?_singleton,
      List.getElem?_singleton]
    grind

/-- thread `t` has gone on to `o` -/
theorem update_eq_some {zeroing : Nat → Option (Nat × Nat)} {t u : Nat} {o : Option (Nat × Nat)} {x : Nat × Nat}
    (hu : Function.update zeroing t o u = some x) : u = t ∧ o = some x ∨ u ≠ t ∧ zeroing u = some x := by
  by_cases hut : u = t
  · rw [hut, Function.update_self] at hu
    exact .inl ⟨hut, hu⟩
  · rw [Function.update_of_ne hut] at hu
    exact .inr ⟨hut, hu⟩

theorem Alone.update {zeroing : Nat → Option (Nat × Nat)} (h : Alone zeroing) {t : Nat} {o : Option (Nat × Nat)}
    (ho : ∀ k i, o = some (k, i) → ∀ u j, zeroing u = some (k, j) → u = t) : Alone (Function.update zeroing t o) := by
  intro u w k m n hu hw
  obtain ⟨hut, ho'⟩ | ⟨_, hu⟩ := update_eq_some hu
  · obtain ⟨hwt, _⟩ | ⟨_, hw⟩ := update_eq_some hw
    · rw [hut, hwt]
    · rw [hut, ho k m ho' w n hw]
  · obtain ⟨hwt, ho'⟩ | ⟨_, hw⟩ := update_eq_some hw
    · rw [hwt, ho k n ho' u m hu]
    · exact h u w k m n hu hw

/-- a call returns to the thread, or to `alloc_zeroed` -/
theorem Inv.returns (hi : h.Inv frames memory₀) {sys : Sys} (hs : sys.Inv heapStart heapSize) (hd : sys.init = .done)
    (r₀ : Ret) (hr : sys.rets = h.sys.rets ++ [r₀]) (t : Nat) : (h.returned t sys).Inv frames memory₀ := by
  have hnew : sys.rets[h.sys.rets.length]? = some r₀ := by
    rw [hr]
    exact List.getElem?_concat_length
  rw [Heap.returned, hnew]
  dsimp only
  refine { hi with sys := hs, done := hd, lengths := ?_, contents := ?_, zeroing := ?_, alone := hi.alone.update ?_ }
  · show (h.blocks ++ [_]).length = sys.rets.length
    rw [hr, List.length_append, List.length_append, hi.lengths]
    rfl
  · intro k r b hk i hlt v hv
    obtain hk | ⟨_, _, rfl, hp⟩ := (grown_at_iff hi.lengths hr).mp hk
    · exact hi.contents k r b hk i hlt v hv
    · rw [decide_eq_true hp, Bool.and_true, Block.expects_new] at hv
      cases hv
  · intro u k i hu
    obtain ⟨_, hnext⟩ | ⟨_, hu⟩ := update_eq_some hu
    · obtain ⟨hfill, hblock⟩ := Option.ite_none_right_eq_some.mp hnext
      cases hblock
      have hp := of_decide_eq_true (Bool.and_eq_true_iff.mp hfill).2
      refine ⟨r₀, _, (grown_at_iff hi.lengths hr).mpr (.inr ⟨rfl, rfl, rfl, hp⟩), Nat.zero_le _, ?_, rfl, nofun⟩
      show (!(h.wants t && decide (r₀.ptr ≠ 0))) = false
      rw [hfill]
      rfl
    · obtain ⟨r, b, hk, hrest⟩ := hi.zeroing u k i hu
      exact ⟨r, b, (grown_at_iff hi.lengths hr).mpr (.inl hk), hrest⟩
  · -- nobody fills a block that does not exist yet
    intro k i hnext u j hu
    obtain ⟨_, hblock⟩ := Option.ite_none_right_eq_some.mp hnext
    cases hblock
    obtain ⟨r, b, hk, _⟩ := hi.zeroing u _ j hu
    exact absurd (List.getElem?_eq_some_iff.mp hk.1).1 (Nat.lt_irrefl _)

/-- the client writes into a block -/
theorem Inv.write (hm : Sound pageSize frames region) (hi : h.Inv frames memory₀) (hk : h.At k r b) (hg : b.given = true)
    (hlt : i < r.l.size) (v : UInt8) :
    (h.put frames (r.ptr + i) v fun h => { h with blocks := h.blocks.modify k fun b => b.write i v }).Inv
      frames memory₀ := by
  obtain ⟨memory, hput, hself, hkeep, houtside⟩ := hi.put_eq hm hk hlt v fun h =>
    { h with blocks := h.blocks.modify k fun b => b.write i v }
  rw [hput]
  refine { hi with lengths := ?_, contents := ?_, zeroing := ?_, outside := ?_ }
  · exact (List.length_modify _ _ _).trans hi.lengths
  · intro k' r' b' hk' i' hlt' w hw
    obtain ⟨b₀, hb₀, rfl⟩ := at_modify (h := { h with memory := memory }) hk'
    by_cases hbyte : k' = k ∧ i' = i
    · obtain ⟨rfl, rfl⟩ := hbyte
      obtain ⟨rfl, rfl⟩ := Inv.at_inj hk hb₀
      rw [if_pos rfl, Block.expects_write b hg] at hw
      exact hself.trans hw
    · refine (hkeep k' r' b₀ hb₀ i' hlt' hbyte).trans (hi.contents k' r' b₀ hb₀ i' hlt' w ?_)
      rw [← hw]
      by_cases hkk : k = k'
      · rw [if_pos hkk, Block.expects_write_of_ne _ fun he => hbyte ⟨hkk.symm, he⟩]
      · rw [if_neg hkk]
  · intro t k' j ht
    obtain ⟨r', b', hk', hj, hgiven, hwritten, hzeros⟩ := hi.zeroing t k' j ht
    have hne : k ≠ k' := by
      rintro rfl
      obtain ⟨rfl, rfl⟩ := Inv.at_inj hk hk'
      exact Bool.noConfusion (hg.symm.trans hgiven)
    have hat := modify_at (h := { h with memory := memory }) (k := k) (fun b => b.write i v) hk'
    rw [if_neg hne] at hat
    refine ⟨r', b', hat, hj, hgiven, hwritten, ?_⟩
    intro m hm'
    exact (hkeep k' r' b' hk' m (hm'.trans_le hj) fun he => hne he.1.symm).trans (hzeros m hm')
  · intro x hx
    exact (houtside x hx).trans (hi.outside x hx)

/-- `alloc_zeroed` writes one byte of a block that nobody else has -/
theorem Inv.fill (hm : Sound pageSize frames region) (hi : h.Inv frames memory₀) {t : Nat} (ht : h.zeroing t = some (k, i))
    (hr : h.sys.rets[k]? = some r) (hlt : i < r.l.size) :
    (h.put frames (r.ptr + i) 0 fun h => { h with zeroing := Function.update h.zeroing t (some (k, i + 1)) }).Inv
      frames memory₀ := by
  obtain ⟨r₁, b, hk, _, hgiven, hwritten, hzeros⟩ := hi.zeroing t k i ht
  obtain rfl : r₁ = r := Option.some.inj (hk.1.symm.trans hr)
  obtain ⟨memory, hput, hself, hkeep, houtside⟩ := hi.put_eq hm hk hlt 0 fun h =>
    { h with zeroing := Function.update h.zeroing t (some (k, i + 1)) }
  rw [hput]
  refine { hi with contents := ?_, zeroing := ?_, alone := hi.alone.update ?_, outside := ?_ }
  · intro k' r' b' hk' i' hlt' v hv
    have hne : k' ≠ k := by
      rintro rfl
      obtain ⟨_, rfl⟩ := Inv.at_inj hk hk'
      rw [Block.expects, hgiven] at hv
      cases hv
    exact (hkeep k' r' b' hk' i' hlt' fun he => hne he.1).trans (hi.contents k' r' b' hk' i' hlt' v hv)
  · intro u k' j hu
    obtain ⟨_, hblock⟩ | ⟨hut, hu⟩ := update_eq_some hu
    · cases hblock
      refine ⟨r₁, b, hk, hlt, hgiven, hwritten, ?_⟩
      intro j hj
      by_cases hji : j = i
      · rw [hji]
        exact hself
      · exact (hkeep _ r₁ b hk j (by omega) fun he => hji he.2).trans (hzeros j (by omega))
    · have hne : k' ≠ k := fun he => hut (hi.alone u t k j i (he ▸ hu) ht)
      obtain ⟨r', b', hk', hj, hg, hw, hz⟩ := hi.zeroing u k' j hu
      refine ⟨r', b', hk', hj, hg, hw, ?_⟩
      intro m hm'
      exact (hkeep k' r' b' hk' m (hm'.trans_le hj) fun he => hne he.1).trans (hz m hm')
  · intro k' j hblock u m hu
    cases hblock
    exact hi.alone u t k m i hu ht
  · intro x hx
    exact (houtside x hx).trans (hi.outside x hx)

/-- `alloc_zeroed` returns: the whole block is zero -/
theorem Inv.give (hi : h.Inv frames memory₀) {t : Nat} (ht : h.zeroing t = some (k, i))
    (hr : h.sys.rets[k]? = some r) (hend : ¬i < r.l.size) :
    Inv frames memory₀
      { h with zeroing := Function.update h.zeroing t none, blocks := h.blocks.modify k Block.give } := by
  obtain ⟨r₁, b, hk, _, hgiven, hwritten, hzeros⟩ := hi.zeroing t k i ht
  obtain rfl : r₁ = r := Option.some.inj (hk.1.symm.trans hr)
  refine { hi with lengths := ?_, contents := ?_, zeroing := ?_, alone := hi.alone.update nofun }
  · exact (List.length_modify _ _ _).trans hi.lengths
  · intro k' r' b' hk' i' hlt' v hv
    obtain ⟨b₀, hb₀, rfl⟩ := at_modify (h := { h with zeroing := Function.update h.zeroing t none }) hk'
    by_cases hne : k = k'
    · subst hne
      obtain ⟨rfl, rfl⟩ := Inv.at_inj hk hb₀
      rw [if_pos rfl] at hv
      have hzero : (if b.zeroed then some 0 else none) = some v := by
        change (b.written i').or (if b.zeroed then some 0 else none) = some v at hv
        rwa [hwritten] at hv
      rw [Option.ite_none_right_eq_some] at hzero
      obtain rfl := Option.some.inj hzero.2
      exact hzeros i' (by omega)
    · rw [if_neg hne] at hv
      exact hi.contents k' r' b₀ hb₀ i' hlt' v hv
  · intro u k' j hu
    obtain ⟨hut, hu'⟩ := (update_eq_some hu).resolve_left nofun
    have hne : k ≠ k' := fun he => hut (hi.alone u t k j i (he ▸ hu') ht)
    obtain ⟨r', b', hk', hrest⟩ := hi.zeroing u k' j hu'
    have hat := modify_at (h := { h with zeroing := Function.update h.zeroing t none }) (k := k) Block.give hk'
    rw [if_neg hne] at hat
    exact ⟨r', b', hat, hrest⟩

/-- an access of `alloc` returns at most one call -/
theorem rets_access {s s' : Sys} {t : Nat} {spurious : Bool} (hs : s.accessStep t spurious = some s') :
    s'.rets = s.rets ∨ ∃ r, s'.rets = s.rets ++ [r] := by
  obtain ⟨l, _, rfl⟩ | ⟨l, end_, _, _, rfl⟩ | ⟨l, end_, a, e, _, _, rfl⟩ | ⟨l, end_, c, a, e, _, rfl⟩ |
    ⟨l, end_, a, e, b, _, _, rfl⟩ := Sys.accessStep_cases hs
  · exact .inl rfl
  · exact .inr ⟨_, rfl⟩
  · exact .inl rfl
  · exact .inl rfl
  · exact .inr ⟨_, rfl⟩

theorem rets_call {s s' : Sys} {t : Nat} {l : Layout} (hs : s.step heapStart heapSize (.call t l) = some s') :
    s'.rets = s.rets := by
  unfold Sys.step at hs
  dsimp only at hs
  cases hpc : s.pc t with
  | idle =>
    rw [hpc] at hs
    obtain rfl := Option.some.inj hs
    rfl
  | loadEnd _ | loadNext _ _ | compareExchange _ _ _ _ _ =>
    rw [hpc] at hs
    cases hs

/-- the step lemma -/
theorem inv_step (hm : Sound pageSize frames region) (h : Heap) (a : HeapAct) (h' : Heap) (hi : h.Inv frames memory₀)
    (hs : h.step frames a = some h') : h'.Inv frames memory₀ := by
  cases a with
  | call t l zeroed =>
    unfold step at hs
    dsimp only at hs
    cases hz : h.zeroing t with
    | some x =>
      rw [hz] at hs
      cases hs
    | none =>
      rw [hz] at hs
      obtain ⟨sys, hsys, rfl⟩ := Option.map_eq_some_iff.mp hs
      exact hi.withSys (Sys.inv_step _ _ _ hi.sys hsys) (Sys.next_step _ _ _ hi.sys hi.done hsys).1
        (rets_call hsys) _
  | access t spurious =>
    obtain ⟨sys, hsys, rfl⟩ := Option.map_eq_some_iff.mp hs
    have hsys' := Sys.inv_step _ _ _ hi.sys hsys
    have hdone := (Sys.next_step _ _ _ hi.sys hi.done hsys).1
    obtain hr | ⟨r, hr⟩ := rets_access hsys
    · rw [Heap.returned, hr, List.getElem?_eq_none le_rfl]
      exact hi.withSys hsys' hdone hr h.wants
    · exact hi.returns hsys' hdone r hr t
  | zero t =>
    obtain ⟨⟨k, i⟩, ht, hs⟩ := Option.bind_eq_some_iff.mp hs
    obtain ⟨r, hr, hs⟩ := Option.bind_eq_some_iff.mp hs
    obtain rfl := Option.some.inj hs
    unfold Heap.zero
    by_cases hlt : i < r.l.size
    · rw [if_pos hlt]
      exact hi.fill hm ht hr hlt
    · rw [if_neg hlt]
      exact hi.give ht hr hlt
  | write k i v =>
    obtain ⟨r, hr, hs⟩ := Option.bind_eq_some_iff.mp hs
    obtain ⟨b, hb, hs⟩ := Option.bind_eq_some_iff.mp hs
    rw [Option.ite_none_right_eq_some] at hs
    obtain ⟨⟨hg, hp, hlt⟩, hs⟩ := hs
    obtain rfl := Option.some.inj hs
    exact hi.write hm ⟨hr, hb, hp⟩ hg hlt v
  | dealloc k =>
    obtain rfl := Option.some.inj hs
    exact hi

end

end Heap

/-! ## what `init_heap` provides -/

section
variable {μ : Type} {mapTo : μ → Nat → Nat → FrameProg μ} {regions : List MemoryRegion} {mapper : μ} {out : HeapMap μ}

/-- the frames of the heap and those of the page tables are whole usable pages, and all of them differ -/
theorem initHeap_frames (hmap : MapOk regions) (hout : initHeap mapTo mapper ⟨regions, 0⟩ .new = .ok out) :
    out.allocator = ⟨heapStart, heapStart + heapSize, heapStart⟩ ∧
      (∃ next, out.frameAllocator = ⟨regions, next⟩) ∧ out.mapped.map Prod.fst = heapPages ∧
      (out.mapped.map Prod.snd ++ out.tables).Nodup ∧
      ∀ f ∈ out.mapped.map Prod.snd ++ out.tables, f ∈ offered regions := by
  unfold initHeap at hout
  obtain ⟨out₀, h1, h2⟩ := bind_eq_ok.mp hout
  obtain ⟨hheap, hpages, next, hnext, _, hnd, hdrawn⟩ := mapPages_drawn mapTo hmap _ _ _ _ _ h1
  rw [hheap] at h2
  have hinit : BumpAllocator.new.init heapStart heapSize = some ⟨heapStart, heapStart + heapSize, heapStart⟩ := by
    decide
  rw [hinit] at h2
  obtain rfl := Except.ok.inj h2
  refine ⟨rfl, ⟨next, hnext⟩, hpages, hnd, ?_⟩
  intro f hf
  obtain ⟨i, _, _, hi⟩ := hdrawn f hf
  exact List.mem_of_getElem? hi

variable {frameOf : μ → Nat → Option Nat}

theorem Heap.inv_start (hmap : MapOk regions) (hout : initHeap mapTo mapper ⟨regions, 0⟩ .new = .ok out)
    (frames : Nat → Option Nat) (memory : Nat → UInt8) : (Heap.start out.allocator memory).Inv frames memory := by
  obtain ⟨hallocator, _⟩ := initHeap_frames hmap hout
  have hinit : (Heap.start out.allocator memory).sys.InitOk heapStart heapSize := by
    rw [hallocator]
    refine ⟨rfl, rfl, ?_, le_rfl, Nat.le_add_right _ _⟩
    show heapStart + heapSize < 2^64
    decide
  exact {
    sys := ⟨hinit, fun _ => trivial, fun _ => rfl, fun r hr => absurd hr List.not_mem_nil, .nil⟩
    done := rfl
    lengths := rfl
    faulted := rfl
    contents := fun k r b hk => absurd hk.1 nofun
    zeroing := nofun
    alone := nofun
    outside := fun _ _ => rfl }

end

/-- 4096 usable pages -/
def sixteenMegabytes : List MemoryRegion := [⟨0x100000, 0x1100000, .usable⟩]

theorem sixteenMegabytes_ok : MapOk sixteenMegabytes where
  bounds := by
    intro r hr _
    rw [sixteenMegabytes, List.mem_singleton] at hr
    subst hr
    norm_num
  apart := List.pairwise_singleton _ _

theorem sixteenMegabytes_length : (offered sixteenMegabytes).length = 4096 := by
  simp [offered, sixteenMegabytes, MemoryRegion.pages, stepBy, Word.roundUp, pageSize]

/-- a level 4 table at `0x1000` whose entries for the heap are unused; the last one leads to a block -/
def bootTable : PageTable.Entry :=
  .table 0x1000 fun i => if i = 511 then some (.block 0) else none

/-- with real tables `init_heap` succeeds -/
theorem bootTable_initHeap :
    ∃ out, initHeap offsetMapTo bootTable ⟨sixteenMegabytes, 0⟩ .new = .ok out := by
  refine initHeap_ok offsetMapTo 4 (fun root page => PageTable.Free (tableIndices page) (some root)) offsetMapTo_fits
    sixteenMegabytes_ok (by rw [sixteenMegabytes_length]; norm_num) bootTable ?_
  intro page hpage
  have hfirst : page / 2^39 % 512 ≠ 511 := by
    have hlt := (heapPages_isPage hpage).2
    omega
  show PageTable.Free _ (if page / 2^39 % 512 = 511 then some (.block 0) else none)
  rw [if_neg hfirst]
  exact PageTable.free_none _

end Memory
end SolOs
