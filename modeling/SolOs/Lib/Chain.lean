import Mathlib

/-!
# Chains

`link a` is the node after `a`, or the reason why the chain ends there.

* `walk link k a`       the node `k` links after `a`, or the reason why there is none;
* `trail link n a`      the first `n` nodes from `a` on, all of them when the chain is shorter;
* `Endless`, `Acyclic`  the chain never ends; no node occurs in it twice;
* `endless_iff`         over `N` possible nodes, `N` links decide whether a chain ends;
* `nodup_trail_iff`     how far an endless chain goes without repeating a node.
-/

namespace Chain

section
variable {ε α : Type} (link : α → Except ε α)

def walk : Nat → α → Except ε α
  | 0, a => .ok a
  | k + 1, a => link a >>= walk k

def trail (n : Nat) (a : α) : List α := (List.range n).filterMap fun k => (walk link k a).toOption

def Endless (a : α) : Prop := ∀ k, ∃ b, walk link k a = .ok b

def Acyclic (a : α) : Prop := ∀ i j b, walk link i a = .ok b → walk link j a = .ok b → i = j

variable {link} {a b : α} {e : ε}

/-! ## walks -/

@[simp] theorem walk_zero : walk link 0 a = .ok a := rfl

theorem walk_succ_of_ok (h : link a = .ok b) (k : Nat) : walk link (k + 1) a = walk link k b := by
  show (link a >>= walk link k) = _
  rw [h]
  rfl

theorem walk_succ_of_error (h : link a = .error e) (k : Nat) : walk link (k + 1) a = .error e := by
  show (link a >>= walk link k) = _
  rw [h]
  rfl

theorem walk_add (j k : Nat) (a : α) : walk link (j + k) a = walk link j a >>= walk link k := by
  induction j generalizing a with
  | zero =>
    rw [Nat.zero_add]
    rfl
  | succ j ih =>
    rw [Nat.succ_add]
    cases h : link a with
    | ok b => rw [walk_succ_of_ok h, walk_succ_of_ok h, ih]
    | error e =>
      rw [walk_succ_of_error h, walk_succ_of_error h]
      rfl

theorem walk_add_of_ok {j : Nat} (h : walk link j a = .ok b) (k : Nat) :
    walk link (j + k) a = walk link k b := by
  rw [walk_add, h]
  rfl

/-- a chain that has ended stays ended -/
theorem walk_error_of_le {j k : Nat} (h : walk link j a = .error e) (hjk : j ≤ k) :
    walk link k a = .error e := by
  obtain ⟨i, rfl⟩ := Nat.exists_eq_add_of_le hjk
  rw [walk_add, h]
  rfl

theorem walk_ok_of_le {j k : Nat} (h : walk link k a = .ok b) (hjk : j ≤ k) :
    ∃ c, walk link j a = .ok c := by
  cases hj : walk link j a with
  | ok c => exact ⟨c, rfl⟩
  | error e =>
    rw [walk_error_of_le hj hjk] at h
    cases h

/-- the link on which a chain ends -/
theorem walk_error_of_link {j k : Nat} (hj : walk link j a = .ok b) (h : link b = .error e)
    (hjk : j < k) : walk link k a = .error e := by
  refine walk_error_of_le (j := j + 1) ?_ hjk
  rw [walk_add_of_ok hj, walk_succ_of_error h]

/-! ## trails -/

theorem trail_succ (n : Nat) (a : α) :
    trail link (n + 1) a = a :: (List.range n).filterMap fun k => (walk link (k + 1) a).toOption := by
  unfold trail
  rw [List.range_succ_eq_map, List.filterMap_cons, List.filterMap_map]
  rfl

theorem trail_succ_of_ok (h : link a = .ok b) (n : Nat) :
    trail link (n + 1) a = a :: trail link n b := by
  rw [trail_succ]
  simp only [walk_succ_of_ok h, trail]

theorem trail_succ_of_error (h : link a = .error e) (n : Nat) : trail link (n + 1) a = [a] := by
  rw [trail_succ]
  simp [walk_succ_of_error h, Except.toOption]

theorem mem_trail {n : Nat} : b ∈ trail link n a ↔ ∃ k < n, walk link k a = .ok b := by
  unfold trail
  rw [List.mem_filterMap]
  constructor
  · intro ⟨k, hk, hb⟩
    refine ⟨k, List.mem_range.mp hk, ?_⟩
    cases hw : walk link k a with
    | ok c =>
      rw [hw] at hb
      exact congrArg Except.ok (Option.some.inj hb)
    | error e =>
      rw [hw] at hb
      cases hb
  · intro ⟨k, hk, hb⟩
    exact ⟨k, List.mem_range.mpr hk, by rw [hb]; rfl⟩

/-- a trail that reaches its last node is a map -/
theorem trail_eq_map {n : Nat} {node : Nat → α} (h : ∀ k < n, walk link k a = .ok (node k)) :
    trail link n a = (List.range n).map node := by
  unfold trail
  rw [← List.filterMap_eq_map]
  apply List.filterMap_congr
  intro k hk
  rw [h k (List.mem_range.mp hk)]
  rfl

variable (link) in
theorem trail_length_le (n : Nat) (a : α) : (trail link n a).length ≤ n := by
  have h := List.length_filterMap_le (fun k => (walk link k a).toOption) (List.range n)
  rwa [List.length_range] at h

theorem trail_length_of_walk {n : Nat} (h : walk link n a = .ok b) : (trail link (n + 1) a).length = n + 1 := by
  have hnode : ∀ k, ∃ c, k < n + 1 → walk link k a = .ok c := by
    intro k
    by_cases hk : k < n + 1
    · obtain ⟨c, hc⟩ := walk_ok_of_le h (Nat.le_of_lt_succ hk)
      exact ⟨c, fun _ => hc⟩
    · exact ⟨a, fun hlt => absurd hlt hk⟩
  choose node hnode using hnode
  rw [trail_eq_map hnode, List.length_map, List.length_range]

theorem trail_length_of_error {n : Nat} (h : walk link n a = .error e) :
    (trail link (n + 1) a).length ≤ n := by
  have hlast : trail link (n + 1) a = trail link n a := by
    unfold trail
    rw [List.range_succ, List.filterMap_append]
    simp [h, Except.toOption]
  rw [hlast]
  exact trail_length_le link n a

variable (link) in
theorem trail_initial {m n : Nat} (hmn : m ≤ n) (a : α) : ∃ rest, trail link n a = trail link m a ++ rest := by
  obtain ⟨k, rfl⟩ := Nat.exists_eq_add_of_le hmn
  unfold trail
  rw [List.range_add, List.filterMap_append]
  exact ⟨_, rfl⟩

theorem take_trail (m n : Nat) (a : α) : (trail link n a).take m = trail link (min m n) a := by
  induction m generalizing n a with
  | zero =>
    rw [Nat.zero_min, List.take_zero]
    rfl
  | succ m ih =>
    cases n with
    | zero => rfl
    | succ n =>
      rw [Nat.succ_min_succ]
      cases h : link a with
      | ok b => rw [trail_succ_of_ok h, trail_succ_of_ok h, List.take_succ_cons, ih]
      | error e => rw [trail_succ_of_error h, trail_succ_of_error h, List.take_succ_cons, List.take_nil]

/-- a chain that ends has a last node -/
theorem exists_last (h : ∃ n e, walk link n a = .error e) :
    ∃ j b e, walk link j a = .ok b ∧ link b = .error e := by
  obtain ⟨n, e, hn⟩ := h
  induction n generalizing a with
  | zero => cases hn
  | succ n ih =>
    cases hl : link a with
    | error e' => exact ⟨0, a, e', rfl, hl⟩
    | ok b =>
      rw [walk_succ_of_ok hl] at hn
      obtain ⟨j, c, e', hj, hc⟩ := ih hn
      exact ⟨j + 1, c, e', by rw [walk_succ_of_ok hl, hj], hc⟩

/-- and no trail goes beyond it -/
theorem trail_of_last {j n : Nat} (hj : walk link j a = .ok b) (hl : link b = .error e) (hn : j + 1 ≤ n) :
    trail link n a = trail link (j + 1) a := by
  induction j generalizing a n with
  | zero =>
    obtain rfl : a = b := Except.ok.inj hj
    obtain ⟨k, rfl⟩ := Nat.exists_eq_add_of_le' hn
    rw [trail_succ_of_error hl, trail_succ_of_error hl]
  | succ j ih =>
    cases n with
    | zero => omega
    | succ n =>
      cases ha : link a with
      | error e' =>
        rw [walk_succ_of_error ha] at hj
        cases hj
      | ok c =>
        rw [walk_succ_of_ok ha] at hj
        rw [trail_succ_of_ok ha, trail_succ_of_ok ha, ih hj (by omega)]

/-! ## agreement of two chains -/

variable {link' : α → Except ε α}

theorem walk_congr {n : Nat} (h : ∀ c ∈ trail link n a, link' c = link c) :
    ∀ k ≤ n, walk link' k a = walk link k a := by
  induction n generalizing a with
  | zero =>
    intro k hk
    obtain rfl : k = 0 := Nat.le_zero.mp hk
    rfl
  | succ n ih =>
    intro k hk
    cases k with
    | zero => rfl
    | succ k =>
      have ha : link' a = link a := h a (mem_trail.mpr ⟨0, Nat.succ_pos n, rfl⟩)
      cases hl : link a with
      | error e => rw [walk_succ_of_error hl, walk_succ_of_error (ha.trans hl)]
      | ok b =>
        rw [trail_succ_of_ok hl] at h
        rw [walk_succ_of_ok hl, walk_succ_of_ok (ha.trans hl)]
        exact ih (fun c hc => h c (List.mem_cons_of_mem _ hc)) k (Nat.le_of_succ_le_succ hk)

theorem trail_congr {n : Nat} (h : ∀ c ∈ trail link n a, link' c = link c) :
    trail link' (n + 1) a = trail link (n + 1) a := by
  apply List.filterMap_congr
  intro k hk
  rw [walk_congr h k (Nat.le_of_lt_succ (List.mem_range.mp hk))]

/-! ## chains that repeat a node -/

/-- from a repetition on the chain goes round -/
theorem walk_mul_of_loop {p : Nat} (h : walk link p b = .ok b) (m : Nat) :
    walk link (m * p) b = .ok b := by
  induction m with
  | zero => rw [Nat.zero_mul, walk_zero]
  | succ m ih => rw [Nat.succ_mul, walk_add_of_ok ih, h]

theorem walk_loop {i j : Nat} (hij : i < j) (hi : walk link i a = .ok b) (hj : walk link j a = .ok b) :
    walk link (j - i) b = .ok b := by
  rw [← walk_add_of_ok hi, Nat.add_sub_cancel' hij.le, hj]

theorem endless_of_repeat {i j : Nat} (hij : i < j) (hi : walk link i a = .ok b)
    (hj : walk link j a = .ok b) : Endless link a := by
  intro k
  have hround := walk_mul_of_loop (walk_loop hij hi hj) k
  have hfar : walk link (i + k * (j - i)) a = .ok b := by rw [walk_add_of_ok hi, hround]
  have hk : k ≤ k * (j - i) := Nat.le_mul_of_pos_right k (Nat.sub_pos_of_lt hij)
  exact walk_ok_of_le hfar (le_trans hk (Nat.le_add_left _ _))

/-- and every node of it occurs before the repetition -/
theorem walk_before_repeat {i j : Nat} (hij : i < j) (hi : walk link i a = .ok b)
    (hj : walk link j a = .ok b) {k : Nat} {c : α} (hk : walk link k a = .ok c) :
    ∃ k' < j, walk link k' a = .ok c := by
  induction k using Nat.strong_induction_on with
  | _ k ih =>
    rcases Nat.lt_or_ge k j with hlt | hge
    · exact ⟨k, hlt, hk⟩
    · -- one round earlier
      refine ih (i + (k - j)) (by omega) ?_
      rw [walk_add_of_ok hi, ← walk_add_of_ok hj, Nat.add_sub_cancel' hge, hk]

/-! ## finitely many nodes -/

section
variable {S : Finset α}

/-- more nodes than there are: one of them occurs twice -/
theorem exists_repeat (hS : ∀ k b, walk link k a = .ok b → b ∈ S) {n : Nat} (hn : S.card ≤ n)
    (h : walk link n a = .ok b) :
    ∃ i j c, i < j ∧ j ≤ n ∧ walk link i a = .ok c ∧ walk link j a = .ok c := by
  have hnode : ∀ k, ∃ c, k ≤ n → walk link k a = .ok c := by
    intro k
    by_cases hk : k ≤ n
    · obtain ⟨c, hc⟩ := walk_ok_of_le h hk
      exact ⟨c, fun _ => hc⟩
    · exact ⟨a, fun hle => absurd hle hk⟩
  choose node hnode using hnode
  have hmaps : ∀ k ∈ Finset.range (n + 1), node k ∈ S := by
    intro k hk
    exact hS k _ (hnode k (Nat.le_of_lt_succ (Finset.mem_range.mp hk)))
  have hcard : S.card < (Finset.range (n + 1)).card := by
    rw [Finset.card_range]
    exact Nat.lt_succ_of_le hn
  obtain ⟨i, hi, j, hj, hne, heq⟩ := Finset.exists_ne_map_eq_of_card_lt_of_maps_to hcard hmaps
  rw [Finset.mem_range, Nat.lt_succ_iff] at hi hj
  rcases Nat.lt_or_gt_of_ne hne with hlt | hlt
  · exact ⟨i, j, node i, hlt, hj, hnode i hi, heq ▸ hnode j hj⟩
  · exact ⟨j, i, node j, hlt, hi, hnode j hj, heq ▸ hnode i hi⟩

/-- **as many links as there are nodes decide whether a chain ends** -/
theorem endless_iff (hS : ∀ k b, walk link k a = .ok b → b ∈ S) {n : Nat} (hn : S.card ≤ n) :
    Endless link a ↔ ∃ b, walk link n a = .ok b := by
  constructor
  · exact fun h => h n
  · intro ⟨b, hb⟩
    obtain ⟨i, j, c, hij, _, hi, hj⟩ := exists_repeat hS hn hb
    exact endless_of_repeat hij hi hj

theorem not_endless_of_acyclic (hS : ∀ k b, walk link k a = .ok b → b ∈ S) (h : Acyclic link a) :
    ¬ Endless link a := by
  intro hend
  obtain ⟨b, hb⟩ := hend S.card
  obtain ⟨i, j, c, hij, _, hi, hj⟩ := exists_repeat hS le_rfl hb
  exact hij.ne (h i j c hi hj)

theorem acyclic_of_not_endless (h : ¬ Endless link a) : Acyclic link a := by
  intro i j b hi hj
  by_contra hne
  rcases Nat.lt_or_gt_of_ne hne with hlt | hlt
  · exact h (endless_of_repeat hlt hi hj)
  · exact h (endless_of_repeat hlt hj hi)

end

/-! ## distinct nodes -/

theorem nodup_trail_of_acyclic (h : Acyclic link a) (n : Nat) : (trail link n a).Nodup := by
  apply List.Nodup.filterMap _ List.nodup_range
  intro i j b hi hj
  refine h i j b ?_ ?_
  · cases hw : walk link i a with
    | ok c => rw [hw] at hi; exact congrArg Except.ok (Option.some.inj hi)
    | error e => rw [hw] at hi; cases hi
  · cases hw : walk link j a with
    | ok c => rw [hw] at hj; exact congrArg Except.ok (Option.some.inj hj)
    | error e => rw [hw] at hj; cases hj

variable [DecidableEq α]

/-- the first `n` nodes of an endless chain are distinct iff it has `n` different nodes -/
theorem nodup_trail_iff (hend : Endless link a) (S : Finset α)
    (hS : ∀ b, b ∈ S ↔ ∃ k, walk link k a = .ok b) (n : Nat) :
    (trail link n a).Nodup ↔ n ≤ S.card := by
  choose node hnode using hend
  have htrail : trail link n a = (List.range n).map node := trail_eq_map (fun k _ => hnode k)
  constructor
  · intro hnd
    have hsub : (trail link n a).toFinset ⊆ S := by
      intro b hb
      obtain ⟨k, _, hk⟩ := mem_trail.mp (List.mem_toFinset.mp hb)
      exact (hS b).mpr ⟨k, hk⟩
    have hcard := Finset.card_le_card hsub
    rwa [List.toFinset_card_of_nodup hnd, htrail, List.length_map, List.length_range] at hcard
  · intro hn
    rw [htrail]
    apply List.Nodup.map_on _ List.nodup_range
    intro i hi j hj heq
    rw [List.mem_range] at hi hj
    by_contra hne
    -- a repetition below `n` leaves room for fewer than `n` nodes
    have hfew : ∀ p q, p < q → q < n → node p = node q → False := by
      intro p q hpq hq hpq'
      have hsub : S ⊆ (trail link q a).toFinset := by
        intro b hb
        obtain ⟨k, hk⟩ := (hS b).mp hb
        have hback := walk_before_repeat hpq (hpq' ▸ hnode p) (hnode q) hk
        exact List.mem_toFinset.mpr (mem_trail.mpr hback)
      have h1 := Finset.card_le_card hsub
      have h2 := List.toFinset_card_le (trail link q a)
      have h3 := trail_length_le link q a
      omega
    rcases Nat.lt_or_gt_of_ne hne with hlt | hlt
    · exact hfew i j hlt hj heq
    · exact hfew j i hlt hi heq.symm

end

end Chain
