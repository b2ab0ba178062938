import Mathlib

/-!
# Devices that are polled

A device answers every question with the next value of a sequence `answers : ℕ → α`.  A driver asks a
bounded number of times, and acts on the device only when the last answer allows it.

* `after answers test n i`   at most `n` questions from answer `i` on, up to the first one that passes
                             the test;
* `Guarded free guards`      in a list of accesses, each one that is not free comes directly after one
                             that guards it.
-/

namespace Polling

section
variable {α : Type*} (answers : ℕ → α) (test : α → Bool)

/-- the number of the answer behind the first one that passes the test -/
def after : ℕ → ℕ → Option ℕ
  | 0, _ => none
  | n + 1, i => if test (answers i) then some (i + 1) else after n (i + 1)

@[simp] theorem after_zero (i : ℕ) : after answers test 0 i = none := rfl

variable {answers test}

theorem after_of_pass {n i : ℕ} (h : test (answers i) = true) :
    after answers test (n + 1) i = some (i + 1) := if_pos h

theorem after_of_fail {n i : ℕ} (h : test (answers i) = false) :
    after answers test (n + 1) i = after answers test n (i + 1) := if_neg (by simp [h])

/-- the device stays silent -/
theorem after_eq_none_iff {n i : ℕ} :
    after answers test n i = none ↔ ∀ k < n, test (answers (i + k)) = false := by
  induction n generalizing i with
  | zero => simp
  | succ n ih =>
    rw [Nat.forall_lt_succ_left', add_zero]
    cases h : test (answers i) with
    | true => simp [after_of_pass h]
    | false => simp [after_of_fail h, ih, Nat.add_assoc, Nat.add_comm 1]

end

section
variable {α : Type*} {free : α → Prop} {guards : α → α → Prop}

def Guarded (free : α → Prop) (guards : α → α → Prop) (trace : List α) : Prop :=
  ∀ pre a post, trace = pre ++ a :: post → free a ∨ ∃ g, pre.getLast? = some g ∧ guards g a

theorem Guarded.nil : Guarded free guards [] :=
  fun pre a post h => absurd h.symm (by simp)

/-- **one access more** -/
theorem Guarded.snoc {trace : List α} {a : α} (h : Guarded free guards trace)
    (ha : free a ∨ ∃ g, trace.getLast? = some g ∧ guards g a) : Guarded free guards (trace ++ [a]) := by
  intro pre b post e
  rcases List.eq_nil_or_concat post with rfl | ⟨post, c, rfl⟩
  · obtain ⟨rfl, hab⟩ := List.append_inj' e rfl
    obtain rfl := List.singleton_inj.mp hab
    exact ha
  · have e' : trace ++ [a] = (pre ++ b :: post) ++ [c] := by simpa using e
    exact h pre b post (List.append_inj' e' rfl).1

end

end Polling
