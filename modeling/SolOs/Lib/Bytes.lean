import SolOs.Lib.Checked

/-!
# A mutable byte slice

`Bytes` is a slice as large as an address space allows, given by its length and by the byte at every
index.  The operations that the language checks panic outside of the slice.

* `overlay lo ys`        the slice with `ys` written from index `lo` on; `write` is the checked form;
* `mapRange lo n f`   `f` applied to the `n` bytes from `lo` on; `update` is the checked form;
* `moveDown n`        all bytes moved to the front by `n`; `copyDown` is the checked form.
-/

set_option linter.unusedVariables false

open Checked

@[ext]
structure Bytes where
  length : Nat
  byte : Nat → UInt8
  length_lt : length < 2^64

namespace Bytes

def overlay (b : Bytes) (lo : Nat) (ys : List UInt8) : Bytes :=
  { b with byte := fun i => if lo ≤ i then ys[i - lo]?.getD (b.byte i) else b.byte i }

def mapRange (b : Bytes) (lo n : Nat) (f : UInt8 → UInt8) : Bytes :=
  { b with byte := fun i => if lo ≤ i ∧ i < lo + n then f (b.byte i) else b.byte i }

def moveDown (b : Bytes) (n : Nat) : Bytes :=
  { b with byte := fun i => if i + n < b.length then b.byte (i + n) else b.byte i }

section
variable {ε : Type} (b : Bytes)

/-- `b[lo..lo + ys.len()].copy_from_slice(ys)` -/
def write (lo : Nat) (ys : List UInt8) : Run ε Bytes :=
  if lo + ys.length ≤ b.length then .ok (b.overlay lo ys) else panic .bounds

/-- `for byte in &mut b[lo..lo + n] { *byte = f(*byte) }` -/
def update (lo n : Nat) (f : UInt8 → UInt8) : Run ε Bytes :=
  if lo + n ≤ b.length then .ok (b.mapRange lo n f) else panic .bounds

/-- `b.copy_within(n.., 0)` -/
def copyDown (n : Nat) : Run ε Bytes :=
  if n ≤ b.length then .ok (b.moveDown n) else panic .bounds

theorem write_of_le {b : Bytes} {lo : Nat} {ys : List UInt8} (h : lo + ys.length ≤ b.length) :
    (b.write lo ys : Run ε Bytes) = .ok (b.overlay lo ys) := if_pos h

theorem update_of_le {b : Bytes} {lo n : Nat} (h : lo + n ≤ b.length) (f : UInt8 → UInt8) :
    (b.update lo n f : Run ε Bytes) = .ok (b.mapRange lo n f) := if_pos h

theorem length_of_write {b c : Bytes} {lo : Nat} {ys : List UInt8}
    (h : (b.write lo ys : Run ε Bytes) = .ok c) : c.length = b.length := by
  unfold write at h
  split at h
  · cases h
    rfl
  · exact nomatch h

theorem length_of_copyDown {b c : Bytes} {n : Nat} (h : (b.copyDown n : Run ε Bytes) = .ok c) :
    c.length = b.length := by
  unfold copyDown at h
  split at h
  · cases h
    rfl
  · exact nomatch h

theorem copyDown_of_le {b : Bytes} {n : Nat} (h : n ≤ b.length) :
    (b.copyDown n : Run ε Bytes) = .ok (b.moveDown n) := if_pos h

end

section
variable (b : Bytes) (lo : Nat) (ys : List UInt8)

theorem overlay_length : (b.overlay lo ys).length = b.length := rfl

theorem overlay_byte_of_lt {i : Nat} (h : i < ys.length) : (b.overlay lo ys).byte (lo + i) = ys[i] := by
  show (if lo ≤ lo + i then ys[lo + i - lo]?.getD (b.byte (lo + i)) else _) = _
  rw [if_pos (Nat.le_add_right lo i), Nat.add_sub_cancel_left, List.getElem?_eq_getElem h]
  rfl

theorem overlay_byte_of_not {i : Nat} (h : i < lo ∨ lo + ys.length ≤ i) :
    (b.overlay lo ys).byte i = b.byte i := by
  show (if lo ≤ i then ys[i - lo]?.getD (b.byte i) else b.byte i) = _
  by_cases hlo : lo ≤ i
  · rw [if_pos hlo, List.getElem?_eq_none (by omega)]
    rfl
  · rw [if_neg hlo]

/-- two writes in a row -/
theorem overlay_overlay (zs : List UInt8) : (b.overlay lo ys).overlay (lo + ys.length) zs = b.overlay lo (ys ++ zs) := by
  refine Bytes.ext rfl (funext fun i => ?_)
  rcases Nat.lt_or_ge i lo with h | h
  · rw [overlay_byte_of_not _ _ _ (.inl (by omega)), overlay_byte_of_not _ _ _ (.inl h),
      overlay_byte_of_not _ _ _ (.inl h)]
  obtain ⟨k, rfl⟩ := Nat.exists_eq_add_of_le h
  rcases Nat.lt_or_ge k ys.length with hk | hk
  · rw [overlay_byte_of_not _ _ _ (.inl (by omega)), overlay_byte_of_lt _ _ _ hk,
      overlay_byte_of_lt _ _ _ (show k < (ys ++ zs).length by rw [List.length_append]; omega),
      List.getElem_append_left hk]
  obtain ⟨m, rfl⟩ := Nat.exists_eq_add_of_le hk
  rcases Nat.lt_or_ge m zs.length with hm | hm
  · rw [← Nat.add_assoc, overlay_byte_of_lt _ _ _ hm, Nat.add_assoc, overlay_byte_of_lt _ _ _
      (show ys.length + m < (ys ++ zs).length by rw [List.length_append]; omega),
      List.getElem_append_right (Nat.le_add_right _ _)]
    simp only [Nat.add_sub_cancel_left]
  · rw [overlay_byte_of_not _ _ _ (.inr (by omega)), overlay_byte_of_not _ _ _ (.inr (by omega)),
      overlay_byte_of_not _ _ _ (.inr (by rw [List.length_append]; omega))]

end

end Bytes
