import Mathlib

/-!
# Trees of named entries

A node is a file with its content, or a directory with its named entries.  Names are compared by `same`,
which need not be equality.

* `child same entries name`    the first entry with a name;
* `descend same entries path`  the node at the end of a path, or why there is none;
* `child_of_forall₂`           a lookup in a list of concrete entries that correspond to the named ones.
-/

namespace Hierarchy

inductive Node (ν β : Type) where
  | file (content : β)
  | dir (entries : List (ν × Node ν β))

/-- why a path leads nowhere: a name is missing, or a file stands where a directory should -/
inductive Miss where
  | absent
  | notDir

section
variable {ν β : Type} (same : ν → ν → Bool)

def child (entries : List (ν × Node ν β)) (name : ν) : Option (Node ν β) :=
  (entries.find? fun x => same x.1 name).map Prod.snd

/-- one step of a path that goes on -/
def enter : Option (Node ν β) → Except Miss (List (ν × Node ν β))
  | none => .error .absent
  | some (.file _) => .error .notDir
  | some (.dir entries) => .ok entries

def descend : List (ν × Node ν β) → List ν → Except Miss (Node ν β)
  | _, [] => .error .absent
  | entries, [name] => (child same entries name).elim (.error .absent) .ok
  | entries, name :: next :: rest => do
    let below ← enter (child same entries name)
    descend below (next :: rest)

variable {same}

/-- a list of concrete entries that correspond, one by one, to the named ones -/
theorem child_of_forall₂ {δ : Type} {label : δ → ν} {R : δ → Node ν β → Prop} {xs : List δ}
    {entries : List (ν × Node ν β)}
    (h : List.Forall₂ (fun x n => label x = n.1 ∧ R x n.2) xs entries) (name : ν) :
    Option.Rel R (xs.find? fun x => same (label x) name) (child same entries name) := by
  induction h with
  | nil => exact .none
  | @cons x n xs entries hxn hrest ih =>
    obtain ⟨hlabel, hR⟩ := hxn
    unfold child at ih ⊢
    rw [List.find?_cons, List.find?_cons, hlabel]
    cases same n.1 name with
    | true => exact .some hR
    | false => exact ih

end

end Hierarchy
