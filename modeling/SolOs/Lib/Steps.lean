import Mathlib

/-!
# Runs of a partial step function

`step s a` is the state after the action `a`, `none` when `a` is not enabled in `s`.

* `run step s as`   the state after the actions `as`, first action first;
* `run_inv`         an invariant of single steps holds at the end of every run;
* `run_rel`         a reflexive and transitive relation of single steps relates the two ends of
                    every run;
* `run_along`       the invariant rule at every point of one run, when the steps that this run makes
                    preserve the invariant;
* `run_simulate`    a relation that every step of one system can keep by a run of the other one;
* `emitted`         what the steps of a run put out, one after the other;
* `Within`          a goal that is reached in a bounded number of steps, whatever the actions bring.
-/

namespace Steps

section
variable {σ α : Type*}

def run (step : σ → α → Option σ) : σ → List α → Option σ
  | s, [] => some s
  | s, a :: as => (step s a).bind fun t => run step t as

variable (step : σ → α → Option σ)

theorem run_nil (s : σ) : run step s [] = some s := rfl

theorem run_cons_iff (s t : σ) (a : α) (as : List α) :
    run step s (a :: as) = some t ↔ ∃ m, step s a = some m ∧ run step m as = some t := by
  show (step s a).bind (fun m => run step m as) = some t ↔ _
  rw [Option.bind_eq_some_iff]

/-- **invariant rule** -/
theorem run_inv {P : σ → Prop} (hstep : ∀ s a t, P s → step s a = some t → P t) (as : List α) :
    ∀ s t, P s → run step s as = some t → P t := by
  induction as with
  | nil =>
    intro s t hs h
    rw [run_nil] at h
    exact Option.some.inj h ▸ hs
  | cons a as ih =>
    intro s t hs h
    obtain ⟨m, h1, h2⟩ := (run_cons_iff step s t a as).mp h
    exact ih m t (hstep s a m hs h1) h2

/-- **monotonicity rule**: relative to an invariant `P` -/
theorem run_rel {P : σ → Prop} {R : σ → σ → Prop} (hrefl : ∀ s, R s s)
    (htrans : ∀ a b c, R a b → R b c → R a c)
    (hP : ∀ s a t, P s → step s a = some t → P t)
    (hR : ∀ s a t, P s → step s a = some t → R s t) (as : List α) :
    ∀ s t, P s → run step s as = some t → R s t := by
  induction as with
  | nil =>
    intro s t _ h
    rw [run_nil] at h
    exact Option.some.inj h ▸ hrefl s
  | cons a as ih =>
    intro s t hs h
    obtain ⟨m, h1, h2⟩ := (run_cons_iff step s t a as).mp h
    exact htrans _ _ _ (hR s a m hs h1) (ih m t (hP s a m hs h1) h2)

theorem run_append (s : σ) (as bs : List α) :
    run step s (as ++ bs) = (run step s as).bind fun t => run step t bs := by
  induction as generalizing s with
  | nil => rfl
  | cons a as ih =>
    show (step s a).bind (fun t => run step t (as ++ bs)) = _
    rw [funext fun t => ih t]
    exact (Option.bind_assoc _ _ _).symm

theorem run_snoc_iff (s u : σ) (as : List α) (a : α) :
    run step s (as ++ [a]) = some u ↔ ∃ t, run step s as = some t ∧ step t a = some u := by
  rw [run_append, Option.bind_eq_some_iff]
  simp [run_cons_iff, run_nil]

/-- a run that goes through has a state before each of its actions -/
theorem exists_run_of_append {s u : σ} {as bs : List α} (h : run step s (as ++ bs) = some u) :
    ∃ t, run step s as = some t ∧ run step t bs = some u := by
  rw [run_append, Option.bind_eq_some_iff] at h
  exact h

/-- **invariant rule along one run**; the invariant may speak about the actions so far -/
theorem run_along {P : List α → σ → Prop} {s : σ} {as : List α} (h₀ : P [] s)
    (hstep : ∀ pre a post t u, as = pre ++ a :: post → run step s pre = some t → P pre t →
      step t a = some u → P (pre ++ [a]) u) :
    ∀ pre post t, as = pre ++ post → run step s pre = some t → P pre t := by
  intro pre
  induction pre using List.reverseRecOn with
  | nil =>
    intro post t _ h
    rw [run_nil] at h
    exact Option.some.inj h ▸ h₀
  | append_singleton pre a ih =>
    intro post u e h
    obtain ⟨t, ht, hu⟩ := (run_snoc_iff step s u pre a).mp h
    have e' : as = pre ++ a :: post := by simpa using e
    exact hstep pre a post t u e' ht (ih (a :: post) t e' ht) hu

/-- **simulation rule**: a step may be matched by several steps, or by none -/
theorem run_simulate {τ β : Type*} {step' : τ → β → Option τ} {R : σ → τ → Prop}
    (hstep : ∀ s a s' t, R s t → step s a = some s' → ∃ bs t', run step' t bs = some t' ∧ R s' t')
    (as : List α) : ∀ s s' t, R s t → run step s as = some s' → ∃ bs t', run step' t bs = some t' ∧ R s' t' := by
  induction as with
  | nil =>
    intro s s' t hR h
    rw [run_nil] at h
    exact ⟨[], t, rfl, Option.some.inj h ▸ hR⟩
  | cons a as ih =>
    intro s s' t hR h
    obtain ⟨m, hm, hrest⟩ := (run_cons_iff step s s' a as).mp h
    obtain ⟨bs, t₁, hbs, hR₁⟩ := hstep s a m t hR hm
    obtain ⟨cs, t', hcs, hR'⟩ := ih m s' t₁ hR₁ hrest
    refine ⟨bs ++ cs, t', ?_, hR'⟩
    rw [run_append, hbs]
    exact hcs

/-- what the steps of a run put out -/
def emitted {β : Type*} (emit : σ → α → List β) : σ → List α → List β
  | _, [] => []
  | s, a :: as => emit s a ++ (step s a).elim [] fun t => emitted emit t as

theorem emitted_snoc {β : Type*} {emit : σ → α → List β} {s t : σ} {as : List α} (a : α)
    (h : run step s as = some t) : emitted step emit s (as ++ [a]) = emitted step emit s as ++ emit t a := by
  induction as generalizing s with
  | nil =>
    obtain rfl := Option.some.inj h
    show emit s a ++ (step s a).elim [] (fun _ => []) = emit s a
    cases step s a <;> exact List.append_nil _
  | cons b as ih =>
    obtain ⟨u, hu, hrest⟩ := (run_cons_iff step s t b as).mp h
    rw [List.cons_append, emitted, emitted, hu]
    dsimp only [Option.elim]
    rw [ih hrest, List.append_assoc]

/-- the actions `act b` come one after the other; whatever they bring, the goal is reached after at most
`bound` of them -/
def Within {β : Type*} (act : β → α) (goal : σ → Prop) (bound : Nat) (s : σ) : Prop :=
  ∀ stream : Nat → β, ∃ n ≤ bound, ∃ t, run step s ((List.range n).map fun k => act (stream k)) = some t ∧ goal t

section
variable {β : Type*} {act : β → α} {goal : σ → Prop} {bound : Nat} {s : σ}

theorem within_of_goal (h : goal s) : Within step act goal bound s :=
  fun _ => ⟨0, Nat.zero_le _, s, rfl, h⟩

/-- **progress rule** -/
theorem within_succ (h : ∀ b, ∃ t, step s (act b) = some t ∧ Within step act goal bound t) :
    Within step act goal (bound + 1) s := by
  intro stream
  obtain ⟨m, hm, hrest⟩ := h (stream 0)
  obtain ⟨n, hn, t, hrun, ht⟩ := hrest fun k => stream (k + 1)
  refine ⟨n + 1, Nat.succ_le_succ hn, t, ?_, ht⟩
  rw [List.range_succ_eq_map, List.map_cons, List.map_map]
  exact (run_cons_iff step s t _ _).mpr ⟨m, hm, hrun⟩

end

end

end Steps
