import Mathlib

/-!
# Streams of items and visitors that may stop them

A visitor is a state-passing function `σ → α → Bool × σ`; the answer `false` stops the traversal.
`feed stop visit xs fin s` is the whole behaviour of a traversal that has the items `xs` to offer: the
result is `stop` when the visitor stopped it and `fin` when it ran to its end.

* `Feeds P stop run`    `run` offers fixed items, whatever its visitor does; `Feeds.andThen` is the rule
                        for a loop inside a loop;
* `logged`              the visitor that also writes down what it is passed (`feed_logged`: a part of
                        the items, from their start on);
* `finder`              the visitor that looks for an item (`feed_finder`: it finds the first one;
                        `find?_perm`: in any order, when there is only one).
-/

set_option linter.unusedVariables false

namespace Visit

section
variable {α ρ σ τ : Type}

def feed (stop : ρ) (visit : σ → α → Bool × σ) : List α → ρ → σ → ρ × σ
  | [], fin, s => (fin, s)
  | x :: xs, fin, s =>
    match visit s x with
    | (true, s') => feed stop visit xs fin s'
    | (false, s') => (stop, s')

theorem feed_nil (stop fin : ρ) (visit : σ → α → Bool × σ) (s : σ) :
    feed stop visit [] fin s = (fin, s) := rfl

theorem feed_go {stop fin : ρ} {visit : σ → α → Bool × σ} {x : α} {xs : List α} {s s' : σ}
    (h : visit s x = (true, s')) :
    feed stop visit (x :: xs) fin s = feed stop visit xs fin s' := by
  show (match visit s x with
    | (true, s') => feed stop visit xs fin s'
    | (false, s') => (stop, s')) = _
  rw [h]

theorem feed_halt {stop fin : ρ} {visit : σ → α → Bool × σ} {x : α} {xs : List α} {s s' : σ}
    (h : visit s x = (false, s')) : feed stop visit (x :: xs) fin s = (stop, s') := by
  show (match visit s x with
    | (true, s') => feed stop visit xs fin s'
    | (false, s') => (stop, s')) = _
  rw [h]

/-- what every visit preserves, the traversal preserves -/
theorem feed_inv {stop fin : ρ} {visit : σ → α → Bool × σ} {I : σ → Prop} {xs : List α}
    (hv : ∀ s x, I s → I (visit s x).2) {s : σ} (h : I s) : I (feed stop visit xs fin s).2 := by
  induction xs generalizing s with
  | nil => exact h
  | cons x xs ih =>
    have hx := hv s x h
    rcases hb : visit s x with ⟨b, s'⟩
    rw [hb] at hx
    cases b with
    | true => rw [feed_go hb]; exact ih hx
    | false => rw [feed_halt hb]; exact hx

/-! ## loops inside loops

An inner loop answers `none` when it ran to its end, and `some r` when it leaves the function with
the result `r`. -/

/-- what an outer loop does with the answer of an inner one -/
def andThen (step : Option ρ × σ) (k : σ → τ × σ) (leave : ρ → τ) : τ × σ :=
  match step with
  | (some r, s) => (leave r, s)
  | (none, s) => k s

/-- what holds of every way to leave the inner loop and of what follows it holds of both -/
theorem andThen_fst {step : Option ρ × σ} {k : σ → τ × σ} {leave : ρ → τ} {P : τ → Prop}
    (hs : ∀ r, step.1 = some r → P (leave r)) (hk : ∀ s, P (k s).1) :
    P (andThen step k leave).1 := by
  rcases step with ⟨_ | r, s⟩
  · exact hk s
  · exact hs r rfl

theorem feed_append {stop : ρ} {visit : σ → α → Bool × σ} {xs ys : List α} {fin : τ} {s : σ}
    {k : σ → τ × σ} {leave : ρ → τ} (hk : ∀ s, k s = feed (leave stop) visit ys fin s) :
    andThen (feed (some stop) visit xs none s) k leave
      = feed (leave stop) visit (xs ++ ys) fin s := by
  induction xs generalizing s with
  | nil => exact hk s
  | cons x xs ih =>
    rcases hv : visit s x with ⟨b, s'⟩
    cases b with
    | true => rw [feed_go hv, List.cons_append, feed_go hv, ih]
    | false => rw [feed_halt hv, List.cons_append, feed_halt hv, andThen]

theorem feed_then {stop : ρ} {visit : σ → α → Bool × σ} {xs : List α} {r : ρ} {s : σ}
    {k : σ → τ × σ} {leave : ρ → τ} :
    andThen (feed (some stop) visit xs (some r) s) k leave
      = feed (leave stop) visit xs (leave r) s := by
  induction xs generalizing s with
  | nil => rfl
  | cons x xs ih =>
    rcases hv : visit s x with ⟨b, s'⟩
    cases b with
    | true => rw [feed_go hv, feed_go hv, ih]
    | false => rw [feed_halt hv, feed_halt hv, andThen]

end

/-- a traversal whose items and whose end do not depend on the visitor; all items satisfy `P` -/
def Feeds {α ρ : Type} (P : α → Prop) (stop : ρ)
    (run : ∀ σ : Type, (σ → α → Bool × σ) → σ → ρ × σ) : Prop :=
  ∃ xs fin, (∀ x ∈ xs, P x) ∧ ∀ σ visit s, run σ visit s = feed stop visit xs fin s

section
variable {α ρ σ : Type} {P : α → Prop}

theorem Feeds.const (stop fin : ρ) : Feeds P stop (fun _ _ s => (fin, s)) :=
  ⟨[], fin, fun _ h => absurd h List.not_mem_nil, fun _ _ _ => rfl⟩

/-- an inner loop and what follows it -/
theorem Feeds.andThen {τ : Type} {stop : ρ} {leave : ρ → τ}
    {step : ∀ σ : Type, (σ → α → Bool × σ) → σ → Option ρ × σ}
    {k : ∀ σ : Type, (σ → α → Bool × σ) → σ → τ × σ}
    (hs : Feeds P (some stop) step) (hk : Feeds P (leave stop) k) :
    Feeds P (leave stop) (fun σ visit s => Visit.andThen (step σ visit s) (k σ visit) leave) := by
  obtain ⟨xs, fin, hx, hs⟩ := hs
  obtain ⟨ys, fin', hy, hk⟩ := hk
  cases fin with
  | none =>
    refine ⟨xs ++ ys, fin', fun x h => (List.mem_append.mp h).elim (hx x) (hy x),
      fun σ visit s => ?_⟩
    show Visit.andThen (step σ visit s) (k σ visit) leave = _
    rw [hs, feed_append (hk σ visit)]
  | some r =>
    refine ⟨xs, leave r, hx, fun σ visit s => ?_⟩
    show Visit.andThen (step σ visit s) (k σ visit) leave = _
    rw [hs, feed_then]

/-! ## particular visitors -/

/-- `visit`, and a record of the items that it is passed -/
def logged (visit : σ → α → Bool × σ) (s : σ × List α) (x : α) : Bool × (σ × List α) :=
  ((visit s.1 x).1, ((visit s.1 x).2, s.2 ++ [x]))

/-- the visitor that takes everything -/
def always (s : Unit) (x : α) : Bool × Unit := (true, s)

/-- what is passed to a visitor is a part of the items, from their start on -/
theorem feed_logged (stop fin : ρ) (visit : σ → α → Bool × σ) (xs pre : List α) (s : σ) :
    ∃ seen rest, xs = seen ++ rest ∧
      (feed stop (logged visit) xs fin (s, pre)).2.2 = pre ++ seen := by
  induction xs generalizing pre s with
  | nil => exact ⟨[], [], rfl, (List.append_nil pre).symm⟩
  | cons x xs ih =>
    rcases hv : visit s x with ⟨b, s'⟩
    have hl : logged visit (s, pre) x = (b, (s', pre ++ [x])) := by
      unfold logged
      rw [hv]
    cases b with
    | true =>
      obtain ⟨seen, rest, rfl, e⟩ := ih (pre ++ [x]) s'
      refine ⟨x :: seen, rest, rfl, ?_⟩
      rw [feed_go hl, e, List.append_assoc]
      rfl
    | false => exact ⟨[x], xs, rfl, by rw [feed_halt hl]⟩

/-- the record does not change the run -/
theorem feed_logged_run (stop fin : ρ) (visit : σ → α → Bool × σ) (xs pre : List α) (s : σ) :
    (feed stop (logged visit) xs fin (s, pre)).1 = (feed stop visit xs fin s).1 ∧
      (feed stop (logged visit) xs fin (s, pre)).2.1 = (feed stop visit xs fin s).2 := by
  induction xs generalizing pre s with
  | nil => exact ⟨rfl, rfl⟩
  | cons x xs ih =>
    rcases hv : visit s x with ⟨b, s'⟩
    have hl : logged visit (s, pre) x = (b, (s', pre ++ [x])) := by
      unfold logged
      rw [hv]
    cases b with
    | true =>
      rw [feed_go hl, feed_go hv]
      exact ih (pre ++ [x]) s'
    | false =>
      rw [feed_halt hl, feed_halt hv]
      exact ⟨rfl, rfl⟩

/-- the items that are passed to a visitor: up to the first one on which it stops -/
def seen (visit : σ → α → Bool × σ) : List α → σ → List α
  | [], _ => []
  | x :: xs, s => x :: if (visit s x).1 then seen visit xs (visit s x).2 else []

theorem feed_seen (stop fin : ρ) (visit : σ → α → Bool × σ) (xs pre : List α) (s : σ) :
    (feed stop (logged visit) xs fin (s, pre)).2.2 = pre ++ seen visit xs s := by
  induction xs generalizing pre s with
  | nil => exact (List.append_nil pre).symm
  | cons x xs ih =>
    rcases hv : visit s x with ⟨b, s'⟩
    have hl : logged visit (s, pre) x = (b, (s', pre ++ [x])) := by
      simp only [logged, hv]
    cases b with
    | true =>
      rw [feed_go hl, ih]
      simp [seen, hv]
    | false =>
      rw [feed_halt hl]
      simp [seen, hv]

/-- items after the one on which the visitor stops are not looked at -/
theorem feed_of_stopped {stop fin fin' : ρ} {visit : σ → α → Bool × σ} {xs ys : List α} {s : σ}
    (h : (feed true visit xs false s).1 = true) :
    feed stop visit (xs ++ ys) fin s = feed stop visit xs fin' s := by
  induction xs generalizing s with
  | nil => cases h
  | cons x xs ih =>
    rcases hv : visit s x with ⟨b, s'⟩
    cases b with
    | true =>
      rw [feed_go hv] at h
      rw [List.cons_append, feed_go hv, feed_go hv, ih h]
    | false => rw [List.cons_append, feed_halt hv, feed_halt hv]

/-- a visitor that never stops sees the end -/
theorem feed_of_continues {stop fin : ρ} {visit : σ → α → Bool × σ} (h : ∀ s x, (visit s x).1 = true)
    (xs : List α) (s : σ) : (feed stop visit xs fin s).1 = fin := by
  induction xs generalizing s with
  | nil => rfl
  | cons x xs ih =>
    have hv : visit s x = (true, (visit s x).2) := Prod.ext (h s x) rfl
    rw [feed_go hv, ih]

theorem feed_always (stop fin : ρ) (xs pre : List α) :
    feed stop (logged always) xs fin ((), pre) = (fin, ((), pre ++ xs)) := by
  induction xs generalizing pre with
  | nil => rw [feed_nil, List.append_nil]
  | cons x xs ih =>
    have hl : logged always ((), pre) x = (true, ((), pre ++ [x])) := rfl
    rw [feed_go hl, ih, List.append_assoc]
    rfl

/-- the visitor that keeps the item it looks for and then stops -/
def finder (p : α → Bool) (s : Option α) (x : α) : Bool × Option α :=
  if p x then (false, some x) else (true, s)

theorem feed_finder (stop fin : ρ) (p : α → Bool) (xs : List α) (s : Option α) :
    feed stop (finder p) xs fin s =
      match xs.find? p with
      | some x => (stop, some x)
      | none => (fin, s) := by
  induction xs with
  | nil => rfl
  | cons x xs ih =>
    cases hp : p x with
    | true =>
      have hv : finder p s x = (false, some x) := by unfold finder; rw [if_pos hp]
      rw [feed_halt hv, List.find?_cons_of_pos hp]
    | false =>
      have hn : ¬ p x = true := by rw [hp]; exact Bool.false_ne_true
      have hv : finder p s x = (true, s) := by unfold finder; rw [if_neg hn]
      rw [feed_go hv, ih, List.find?_cons_of_neg hn]

/-- what is looked for is found in every order of the items, when there is at most one of it -/
theorem find?_perm {p : α → Bool} {xs ys : List α} (hperm : xs.Perm ys) (hone : xs.countP p ≤ 1) :
    xs.find? p = ys.find? p := by
  have hfilter : xs.filter p = ys.filter p := by
    have hp := hperm.filter p
    rw [List.countP_eq_length_filter] at hone
    cases hx : xs.filter p with
    | nil =>
      rw [hx] at hp
      exact hp.nil_eq
    | cons x rest =>
      rw [hx, List.length_cons] at hone
      obtain rfl : rest = [] := List.length_eq_zero_iff.mp (by omega)
      rw [hx] at hp
      exact (List.perm_singleton.mp hp.symm).symm
  rw [← List.head?_filter, ← List.head?_filter, hfilter]

end

end Visit
