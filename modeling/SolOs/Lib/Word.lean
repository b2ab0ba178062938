import Mathlib

/-!
# Machine words as natural numbers

A word of `w` bits is a `Nat` below `2^w`.

* `checkedAdd`, `checkedMul`   the checked operations: `none` on overflow;
* `notMask w m`                the complement `!m` of a mask in `w` bits;
* `and_notMask`                clearing the low `k` bits rounds down to a multiple of `2^k`;
* `roundUp x a`                the least multiple of `a` that is at least `x` (unbounded);
* `add_and_notMask`            the usual `(x + (a-1)) & !(a-1)` is `roundUp` for a power of two.
-/

namespace Word

def checkedAdd (w a b : Nat) : Option Nat := if a + b < 2^w then some (a + b) else none

def checkedMul (w a b : Nat) : Option Nat := if a * b < 2^w then some (a * b) else none

theorem checkedAdd_eq_some {w a b c : Nat} :
    checkedAdd w a b = some c ↔ a + b < 2^w ∧ c = a + b := by
  unfold checkedAdd
  by_cases h : a + b < 2^w
  · simp [h, eq_comm]
  · simp [h]

theorem checkedMul_eq_some {w a b c : Nat} :
    checkedMul w a b = some c ↔ a * b < 2^w ∧ c = a * b := by
  unfold checkedMul
  by_cases h : a * b < 2^w
  · simp [h, eq_comm]
  · simp [h]

theorem checkedAdd_of_lt {w a b : Nat} (h : a + b < 2^w) : checkedAdd w a b = some (a + b) :=
  if_pos h

theorem checkedMul_of_lt {w a b : Nat} (h : a * b < 2^w) : checkedMul w a b = some (a * b) :=
  if_pos h

/-! ## clearing the low bits -/

def notMask (w m : Nat) : Nat := 2^w - 1 - m

theorem notMask_testBit {w k : Nat} (hk : k ≤ w) (i : Nat) :
    (notMask w (2^k - 1)).testBit i = (decide (k ≤ i) && decide (i < w)) := by
  have e : notMask w (2^k - 1) = (2^(w - k) - 1) <<< k := by
    have h1 : 1 ≤ 2^k := Nat.one_le_two_pow
    have h2 : 2^w = 2^(w - k) * 2^k := by rw [← pow_add, Nat.sub_add_cancel hk]
    rw [Nat.shiftLeft_eq, Nat.sub_mul, Nat.one_mul, ← h2]
    unfold notMask
    omega
  rw [e, Nat.testBit_shiftLeft, Nat.testBit_two_pow_sub_one]
  by_cases h : k ≤ i
  · have : (i - k < w - k) ↔ (i < w) := by omega
    simp [h, this]
  · simp [h]

theorem and_notMask {w k x : Nat} (hk : k ≤ w) (hx : x < 2^w) :
    x &&& notMask w (2^k - 1) = x / 2^k * 2^k := by
  rw [← Nat.shiftRight_eq_div_pow, ← Nat.shiftLeft_eq]
  apply Nat.eq_of_testBit_eq
  intro i
  rw [Nat.testBit_and, notMask_testBit hk, Nat.testBit_shiftLeft, Nat.testBit_shiftRight]
  by_cases h : k ≤ i
  · have e : k + (i - k) = i := by omega
    by_cases hw : i < w
    · simp [h, hw, e]
    · have hb : x.testBit i = false :=
        Nat.testBit_lt_two_pow (lt_of_lt_of_le hx (Nat.pow_le_pow_right (by norm_num) (by omega)))
      simp [h, e, hb]
  · simp [h]

/-! ## rounding up -/

def roundUp (x a : Nat) : Nat := (x + (a - 1)) / a * a

theorem roundUp_mod (x a : Nat) : roundUp x a % a = 0 := Nat.mul_mod_left _ _

theorem le_roundUp (x : Nat) {a : Nat} (ha : 0 < a) : x ≤ roundUp x a := by
  unfold roundUp
  have h := Nat.div_add_mod (x + (a - 1)) a
  have hm := Nat.mod_lt (x + (a - 1)) ha
  rw [Nat.mul_comm] at h
  omega

theorem roundUp_le {x a m : Nat} (ha : 0 < a) (hm : m % a = 0) (hx : x ≤ m) : roundUp x a ≤ m := by
  obtain ⟨k, rfl⟩ := Nat.dvd_of_mod_eq_zero hm
  unfold roundUp
  have hlt : x + (a - 1) < a * k + a := by omega
  have hd : (x + (a - 1)) / a < k + 1 := by
    rw [Nat.div_lt_iff_lt_mul ha, Nat.mul_comm (k + 1) a, Nat.mul_succ]
    exact hlt
  calc (x + (a - 1)) / a * a ≤ k * a := Nat.mul_le_mul_right a (by omega)
    _ = a * k := Nat.mul_comm k a

theorem add_and_notMask {w k x : Nat} (hk : k ≤ w) (hx : x + (2^k - 1) < 2^w) :
    (x + (2^k - 1)) &&& notMask w (2^k - 1) = roundUp x (2^k) :=
  and_notMask hk hx

/-- a sum that overflows is rounded up to at least the first number that is no word -/
theorem roundUp_of_overflow {w k x : Nat} (hk : k ≤ w) (hx : 2^w ≤ x + (2^k - 1)) :
    2^w ≤ roundUp x (2^k) := by
  have hd : 2^(w - k) ≤ (x + (2^k - 1)) / 2^k := by
    rw [Nat.le_div_iff_mul_le (Nat.two_pow_pos k), ← pow_add, Nat.sub_add_cancel hk]
    exact hx
  calc 2^w = 2^(w - k) * 2^k := by rw [← pow_add, Nat.sub_add_cancel hk]
    _ ≤ (x + (2^k - 1)) / 2^k * 2^k := Nat.mul_le_mul_right _ hd

end Word
