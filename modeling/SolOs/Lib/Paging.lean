import Mathlib

/-!
# Memory behind a page mapping

A mapping gives the frame of a page, both by their first address.  Loads and stores go through it; an address
that is not mapped is a page fault.

* `translate`             the physical address of a virtual one;
* `Sound`                 a region is mapped, and no two of its pages to one frame;
* `Sound.inj`             different addresses of the region have different places;
* `load_store`, `load_store_of_ne`, `store_outside`   **a store changes one address of the region.**
-/

namespace Paging

section
variable (size : Nat)

def translate (frames : Nat → Option Nat) (a : Nat) : Option Nat :=
  (frames (a / size * size)).map (· + a % size)

variable {δ : Type}

def load (frames : Nat → Option Nat) (memory : Nat → δ) (a : Nat) : Option δ :=
  (translate size frames a).map memory

def store (frames : Nat → Option Nat) (memory : Nat → δ) (a : Nat) (v : δ) : Option (Nat → δ) :=
  (translate size frames a).map fun x => Function.update memory x v

structure Sound (frames : Nat → Option Nat) (region : Set Nat) : Prop where
  mapped : ∀ a ∈ region, ∃ frame, frames (a / size * size) = some frame ∧ size ∣ frame
  apart : ∀ a ∈ region, ∀ b ∈ region, ∀ frame, frames (a / size * size) = some frame →
    frames (b / size * size) = some frame → a / size = b / size

variable {size} {frames : Nat → Option Nat} {region : Set Nat} {a b x : Nat}

/-- an aligned frame is the quotient of each of its addresses -/
theorem frame_eq {frame r : Nat} (hd : size ∣ frame) (hr : r < size) :
    (frame + r) / size * size = frame ∧ (frame + r) % size = r := by
  obtain ⟨k, rfl⟩ := hd
  have hpos : 0 < size := by omega
  rw [Nat.mul_add_div hpos, Nat.div_eq_of_lt hr, Nat.mul_add_mod, Nat.mod_eq_of_lt hr, Nat.add_zero, Nat.mul_comm]
  exact ⟨rfl, rfl⟩

namespace Sound

theorem exists_translate (h : Sound size frames region) (ha : a ∈ region) :
    ∃ frame, frames (a / size * size) = some frame ∧ size ∣ frame ∧
      translate size frames a = some (frame + a % size) := by
  obtain ⟨frame, hframe, hd⟩ := h.mapped a ha
  refine ⟨frame, hframe, hd, ?_⟩
  rw [translate, hframe]
  rfl

theorem inj (h : Sound size frames region) (hpos : 0 < size) (ha : a ∈ region) (hb : b ∈ region)
    (hx : translate size frames a = some x) (hy : translate size frames b = some x) : a = b := by
  obtain ⟨f, hf, hfd, hfx⟩ := h.exists_translate ha
  obtain ⟨g, hg, hgd, hgx⟩ := h.exists_translate hb
  obtain rfl := Option.some.inj (hfx.symm.trans hx)
  have hplace := Option.some.inj (hgx.symm.trans hy)
  have hfa := frame_eq hfd (Nat.mod_lt a hpos)
  have hgb := frame_eq hgd (Nat.mod_lt b hpos)
  rw [hplace] at hgb
  -- the frame is the block of the physical address, and it belongs to one page only
  obtain rfl : f = g := hfa.1.symm.trans hgb.1
  rw [← Nat.div_add_mod a size, ← Nat.div_add_mod b size, h.apart a ha b hb f hf hg, hfa.2.symm.trans hgb.2]

end Sound

variable {memory memory' : Nat → δ} {v : δ}

theorem load_store (h : store size frames memory a v = some memory') :
    load size frames memory' a = some v := by
  obtain ⟨x, hx, rfl⟩ := Option.map_eq_some_iff.mp h
  rw [load, hx, Option.map_some, Function.update_self]

theorem load_store_of_ne (hs : Sound size frames region) (hpos : 0 < size) (ha : a ∈ region) (hb : b ∈ region)
    (h : store size frames memory a v = some memory') (hne : b ≠ a) :
    load size frames memory' b = load size frames memory b := by
  obtain ⟨x, hx, rfl⟩ := Option.map_eq_some_iff.mp h
  obtain ⟨f, _, _, hy⟩ := hs.exists_translate hb
  have hxy : f + b % size ≠ x := fun he => hne (hs.inj hpos hb ha hy (he ▸ hx))
  rw [load, load, hy, Option.map_some, Option.map_some, Function.update_of_ne hxy]

/-- a store stays where the region is mapped to -/
theorem store_outside (ha : a ∈ region) (h : store size frames memory a v = some memory')
    (hx : ∀ b ∈ region, translate size frames b ≠ some x) : memory' x = memory x := by
  obtain ⟨y, hy, rfl⟩ := Option.map_eq_some_iff.mp h
  apply Function.update_of_ne
  rintro rfl
  exact hx a ha hy

end

end Paging
