import Mathlib

/-!
# Ring buffers

A ring of `cap` slots is filled in the order of a log: the `i`-th element ever written sits in
slot `i % cap` until element `i + cap` overwrites it.

* `Holds cap slot log lo`   the elements `lo, lo+1, …` of the log are still in their slots;
* `Holds.push`              writing the next element keeps them, as long as fewer than `cap` are held;
* `slot_ne`                 two held elements sit in different slots.
-/

namespace Ring

variable {α : Type*}

/-- two indices less than a full turn apart fall into different slots -/
theorem slot_ne {cap i j : Nat} (hij : i < j) (hj : j < i + cap) : i % cap ≠ j % cap := by
  intro h
  have hd : cap ∣ j - i := (Nat.modEq_iff_dvd' hij.le).mp h
  have := Nat.le_of_dvd (by omega) hd
  omega

/-- the head of the log is a full turn ahead of an index exactly when the slots coincide -/
theorem slot_eq_iff {cap i j : Nat} (hij : i < j) (hj : j ≤ i + cap) :
    j % cap = i % cap ↔ j = i + cap := by
  constructor
  · intro h
    by_contra hne
    exact slot_ne hij (by omega) h.symm
  · intro h
    rw [h, Nat.add_mod_right]

theorem next_slot (cap i : Nat) : (i % cap + 1) % cap = (i + 1) % cap := by
  rw [Nat.mod_add_mod]

def Holds (cap : Nat) (slot : Nat → Option α) (log : List α) (lo : Nat) : Prop :=
  ∀ i, lo ≤ i → i < log.length → slot (i % cap) = log[i]?

theorem Holds.mono {cap : Nat} {slot : Nat → Option α} {log : List α} {lo lo' : Nat}
    (h : Holds cap slot log lo) (hle : lo ≤ lo') : Holds cap slot log lo' :=
  fun i hi hlt => h i (le_trans hle hi) hlt

theorem Holds.all_read (cap : Nat) (slot : Nat → Option α) (log : List α) :
    Holds cap slot log log.length := by
  intro i h1 h2
  omega

/-- overwriting the slot of the next element leaves the held ones alone -/
theorem Holds.write {cap : Nat} {slot : Nat → Option α} {log : List α} {lo : Nat}
    (h : Holds cap slot log lo) (hlt : log.length < lo + cap) (x : Option α) :
    Holds cap (Function.update slot (log.length % cap) x) log lo := by
  intro i hi hil
  have hne : i % cap ≠ log.length % cap := slot_ne hil (by omega)
  rw [Function.update_of_ne hne]
  exact h i hi hil

/-- the element in the next slot joins the log -/
theorem Holds.append {cap : Nat} {slot : Nat → Option α} {log : List α} {lo : Nat}
    (h : Holds cap slot log lo) {x : α} (hx : slot (log.length % cap) = some x) :
    Holds cap slot (log ++ [x]) lo := by
  intro i hi hil
  rw [List.length_append, List.length_singleton] at hil
  by_cases he : i = log.length
  · rw [he, hx]
    simp
  · rw [List.getElem?_append_left (by omega)]
    exact h i hi (by omega)

theorem Holds.push {cap : Nat} {slot : Nat → Option α} {log : List α} {lo : Nat}
    (h : Holds cap slot log lo) (hlt : log.length < lo + cap) (x : α) :
    Holds cap (Function.update slot (log.length % cap) (some x)) (log ++ [x]) lo :=
  (h.write hlt (some x)).append (Function.update_self ..)

end Ring
