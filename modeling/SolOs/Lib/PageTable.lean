import Mathlib

/-!
# Page tables

A table has an entry for every index, and an entry may lead to a table of the next level, so that the indices of
a page are a path from the root to the entry of the page.  On the way a larger block may be mapped as a whole.

* `Entry`                 a used entry; an unused one is `none`;
* `lookup`                the frame at the end of a path;
* `Free`                  a page can be mapped at the end of a path;
* `Inserted`              a page was mapped there, and nothing else has changed;
* `Inserted.here`, `Inserted.below`, `Inserted.fresh`   in an unused entry, in a table, and in a new table.
-/

namespace PageTable

/-- `frame` is where the page, the block or the table lies -/
inductive Entry where
  | page (frame : Nat)
  | block (frame : Nat)
  | table (frame : Nat) (entries : Nat → Option Entry)

/-- the number of a page in a block -/
def number (path : List Nat) : Nat := path.foldl (fun n i => 512 * n + i) 0

def lookup : List Nat → Option Entry → Option Nat
  | path, some (.block frame) => some (frame + 4096 * number path)
  | [], some (.page frame) => some frame
  | i :: path, some (.table _ entries) => lookup path (entries i)
  | _, _ => none

def Free : List Nat → Option Entry → Prop
  | _, none => True
  | i :: path, some (.table _ entries) => Free path (entries i)
  | _, _ => False

/-- the paths are those of one level -/
structure Inserted (path : List Nat) (frame : Nat) (before after : Option Entry) : Prop where
  self : lookup path after = some frame
  others : ∀ other, other.length = path.length → other ≠ path → lookup other after = lookup other before
  free : ∀ other, other.length = path.length → other ≠ path → Free other before → Free other after

section
variable {path : List Nat} {frame i : Nat} {before after : Option Entry}

@[simp] theorem lookup_none (path : List Nat) : lookup path none = none := by
  cases path <;> rfl

theorem lookup_table (i : Nat) (path : List Nat) (f : Nat) (entries : Nat → Option Entry) :
    lookup (i :: path) (some (.table f entries)) = lookup path (entries i) := rfl

theorem free_none (path : List Nat) : Free path none := by
  cases path <;> trivial

theorem Inserted.here (frame : Nat) : Inserted [] frame none (some (.page frame)) where
  self := rfl
  others _ hlen hne := absurd (List.length_eq_zero_iff.mp hlen) hne
  free _ hlen hne := absurd (List.length_eq_zero_iff.mp hlen) hne

theorem exists_cons {other : List Nat} (h : other.length = (i :: path).length) :
    ∃ j rest, other = j :: rest ∧ rest.length = path.length := by
  obtain ⟨j, rest, rfl⟩ := List.exists_cons_of_length_eq_add_one h
  exact ⟨j, rest, rfl, Nat.succ.inj h⟩

/-- in the table that an entry leads to -/
theorem Inserted.below (f : Nat) (entries : Nat → Option Entry) (h : Inserted path frame (entries i) after) :
    Inserted (i :: path) frame (some (.table f entries)) (some (.table f (Function.update entries i after))) := by
  refine ⟨?_, ?_, ?_⟩
  · rw [lookup_table, Function.update_self]
    exact h.self
  · intro other hlen hne
    obtain ⟨j, rest, rfl, hrest⟩ := exists_cons hlen
    rw [lookup_table, lookup_table]
    by_cases hj : j = i
    · subst hj
      rw [Function.update_self]
      exact h.others rest hrest fun he => hne (by rw [he])
    · rw [Function.update_of_ne hj]
  · intro other hlen hne hfree
    obtain ⟨j, rest, rfl, hrest⟩ := exists_cons hlen
    show Free rest (Function.update entries i after j)
    by_cases hj : j = i
    · subst hj
      rw [Function.update_self]
      exact h.free rest hrest (fun he => hne (by rw [he])) hfree
    · rw [Function.update_of_ne hj]
      exact hfree

/-- in a table that was not there -/
theorem Inserted.fresh (i f : Nat) (h : Inserted path frame none after) :
    Inserted (i :: path) frame none (some (.table f (Function.update (fun _ => none) i after))) := by
  have hbelow := Inserted.below (i := i) f (fun _ => none) h
  refine ⟨hbelow.self, ?_, ?_⟩
  · intro other hlen hne
    obtain ⟨j, rest, rfl, _⟩ := exists_cons hlen
    rw [hbelow.others _ hlen hne, lookup_table, lookup_none, lookup_none]
  · intro other hlen hne _
    obtain ⟨j, rest, rfl, _⟩ := exists_cons hlen
    exact hbelow.free _ hlen hne (free_none rest)

end

end PageTable
