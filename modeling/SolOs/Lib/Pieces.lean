import Mathlib

/-!
# A stream cut into pieces

Pieces of `k` items come one after the other, and only the first `r` items of them are wanted.

* `shorten k r xs`     the pieces that are passed on, the last one cut short;
* `shorten_flatten`    together they are the first `r` items;
* `shorten_length`     their number;
* `length_of_mem_dropLast_shorten`   all but the last are whole;
* `heads_iff`          where the pieces begin in the stream;
* `take_flatMap`       the same for pieces that are made from a list;
* `getElem?_flatMap_range`   an item of a stream whose pieces are numbered;
* `chunks k xs`        the pieces of an array, the last one possibly short;
* `shorten_eq_chunks`  what is passed on are the chunks of what is wanted.
-/

namespace Pieces

section
variable {α : Type}

def shorten (k : Nat) : Nat → List (List α) → List (List α)
  | _, [] => []
  | r, x :: xs => if r = 0 then [] else x.take (min r k) :: shorten k (r - min r k) xs

variable {k : Nat}

@[simp] theorem shorten_nil (r : Nat) : shorten k r ([] : List (List α)) = [] := rfl

@[simp] theorem shorten_zero (xs : List (List α)) : shorten k 0 xs = [] := by
  cases xs with
  | nil => rfl
  | cons x xs => exact if_pos rfl

theorem shorten_cons {r : Nat} (hr : r ≠ 0) (x : List α) (xs : List (List α)) :
    shorten k r (x :: xs) = x.take (min r k) :: shorten k (r - min r k) xs := if_neg hr

theorem shorten_append (r : Nat) (xs ys : List (List α)) :
    shorten k r (xs ++ ys) = shorten k r xs ++ shorten k (r - k * xs.length) ys := by
  induction xs generalizing r with
  | nil => simp
  | cons x xs ih =>
    by_cases hr : r = 0
    · subst hr
      simp
    · have hrest : r - min r k - k * xs.length = r - k * (xs.length + 1) := by
        rw [Nat.mul_succ]
        omega
      rw [List.cons_append, shorten_cons hr, shorten_cons hr, ih, hrest, List.cons_append,
        List.length_cons]

theorem shorten_flatten {xs : List (List α)} (h : ∀ x ∈ xs, x.length = k) (r : Nat) :
    (shorten k r xs).flatten = xs.flatten.take r := by
  induction xs generalizing r with
  | nil => simp
  | cons x xs ih =>
    by_cases hr : r = 0
    · subst hr
      simp
    · have hx : x.length = k := h x List.mem_cons_self
      have htail : r - min r k = r - x.length := by omega
      have hhead : x.take (min r k) = x.take r := by
        rw [← hx, ← List.take_eq_take_min]
      rw [shorten_cons hr, List.flatten_cons, ih (fun y hy => h y (List.mem_cons_of_mem _ hy)),
        List.flatten_cons, List.take_append, htail, hhead]

theorem shorten_length (hk : 0 < k) {r : Nat} {xs : List (List α)} (h : r ≤ k * xs.length) :
    (shorten k r xs).length = (r + k - 1) / k := by
  induction xs generalizing r with
  | nil =>
    obtain rfl : r = 0 := by simpa using h
    rw [shorten_nil, List.length_nil, Nat.div_eq_of_lt (by omega)]
  | cons x xs ih =>
    rw [List.length_cons, Nat.mul_succ] at h
    by_cases hr : r = 0
    · subst hr
      rw [shorten_zero, List.length_nil, Nat.div_eq_of_lt (by omega)]
    rw [shorten_cons hr, List.length_cons, ih (by omega)]
    rcases Nat.le_total r k with hle | hge
    · rw [min_eq_left hle, Nat.sub_self, Nat.div_eq_of_lt (by omega)]
      have hone : r + k - 1 = (r - 1) + k := by omega
      rw [hone, Nat.add_div_right _ hk, Nat.div_eq_of_lt (by omega)]
    · have hmore : r + k - 1 = (r - k + k - 1) + k := by omega
      rw [min_eq_right hge, hmore, Nat.add_div_right _ hk]

/-- only as many pieces count as are passed on -/
theorem shorten_take (hk : 0 < k) (r : Nat) (xs : List (List α)) :
    shorten k r (xs.take ((r + k - 1) / k)) = shorten k r xs := by
  induction xs generalizing r with
  | nil => rw [List.take_nil]
  | cons x xs ih =>
    by_cases hr : r = 0
    · rw [hr, shorten_zero, shorten_zero]
    have hcount : (r + k - 1) / k = (r - min r k + k - 1) / k + 1 := by
      rw [← Nat.add_div_right _ hk]
      rcases Nat.le_total r k with hle | hge
      · rw [min_eq_left hle, Nat.div_eq_of_lt_le (k := 1) (by omega) (by omega),
          Nat.div_eq_of_lt_le (k := 1) (by omega) (by omega)]
      · rw [min_eq_right hge, show r - k + k - 1 + k = r + k - 1 by omega]
    rw [hcount, List.take_succ_cons, shorten_cons hr, shorten_cons hr, ih]

theorem length_of_mem_dropLast_shorten {xs : List (List α)} (h : ∀ x ∈ xs, x.length = k) {r : Nat} :
    ∀ y ∈ (shorten k r xs).dropLast, y.length = k := by
  induction xs generalizing r with
  | nil => simp
  | cons x xs ih =>
    by_cases hr : r = 0
    · subst hr
      simp
    have ih' := ih (r := r - min r k) (fun y hy => h y (List.mem_cons_of_mem _ hy))
    rw [shorten_cons hr]
    rcases Nat.le_total r k with hle | hge
    · -- nothing is wanted after this piece
      rw [min_eq_left hle, Nat.sub_self, shorten_zero]
      simp
    · rw [min_eq_right hge] at ih' ⊢
      intro y hy
      cases hrest : shorten k (r - k) xs with
      | nil =>
        rw [hrest] at hy
        simp at hy
      | cons z zs =>
        rw [hrest] at hy ih'
        rw [List.dropLast_cons_of_ne_nil (List.cons_ne_nil z zs), List.mem_cons] at hy
        rcases hy with rfl | hy
        · rw [List.take_of_length_le (h x List.mem_cons_self).le]
          exact h x List.mem_cons_self
        · exact ih' y hy

/-- no piece is empty, and none is too long -/
theorem length_of_mem_shorten (hk : 0 < k) {xs : List (List α)} (h : ∀ x ∈ xs, x.length = k) {r : Nat} :
    ∀ y ∈ shorten k r xs, y ≠ [] ∧ y.length ≤ k := by
  induction xs generalizing r with
  | nil => simp
  | cons x xs ih =>
    by_cases hr : r = 0
    · subst hr
      simp
    rw [shorten_cons hr]
    intro y hy
    rcases List.mem_cons.mp hy with rfl | hy
    · have hx : x.length = k := h x List.mem_cons_self
      rw [ne_eq, ← List.length_eq_zero_iff, List.length_take]
      omega
    · exact ih (fun z hz => h z (List.mem_cons_of_mem _ hz)) y hy

/-- piece `i` begins at item `k * i` of the stream -/
theorem getElem?_flatten_mul {ys : List (List α)} (hsize : ∀ y ∈ ys, y ≠ [] ∧ y.length ≤ k)
    (hfull : ∀ y ∈ ys.dropLast, y.length = k) (i : Nat) :
    ys.flatten[k * i]? = ys[i]?.bind List.head? := by
  induction ys generalizing i with
  | nil => rfl
  | cons x rest ih =>
    obtain ⟨hx, hle⟩ := hsize x List.mem_cons_self
    cases i with
    | zero =>
      rw [Nat.mul_zero, ← List.head?_eq_getElem?, List.flatten_cons, List.head?_append_of_ne_nil _ hx]
      rfl
    | succ i =>
      have hpast : k ≤ k * (i + 1) := Nat.le_mul_of_pos_right k (Nat.succ_pos i)
      rw [List.getElem?_cons_succ, List.flatten_cons,
        List.getElem?_append_right (le_trans hle hpast)]
      cases rest with
      | nil => rfl
      | cons y ys =>
        have hxk : x.length = k := hfull x (by simp)
        rw [hxk, Nat.mul_succ, Nat.add_sub_cancel]
        apply ih (fun z hz => hsize z (List.mem_cons_of_mem _ hz))
        intro z hz
        apply hfull z
        rw [List.dropLast_cons_of_ne_nil (List.cons_ne_nil y ys)]
        exact List.mem_cons_of_mem _ hz

/-- where the pieces after the first begin in the stream -/
theorem heads_iff {P : α → Prop} {ys : List (List α)} (hsize : ∀ y ∈ ys, y ≠ [] ∧ y.length ≤ k)
    (hfull : ∀ y ∈ ys.dropLast, y.length = k) :
    (∀ y ∈ ys.tail, ∀ b, y.head? = some b → P b) ↔
      ∀ i b, 0 < i → ys.flatten[k * i]? = some b → P b := by
  constructor
  · intro hheads i b hi hb
    rw [getElem?_flatten_mul hsize hfull] at hb
    obtain ⟨y, hy, hhead⟩ := Option.bind_eq_some_iff.mp hb
    obtain ⟨j, rfl⟩ := Nat.exists_eq_add_one_of_ne_zero hi.ne'
    rw [← List.getElem?_tail] at hy
    exact hheads y (List.mem_of_getElem? hy) b hhead
  · intro hitems y hy b hb
    obtain ⟨j, hj⟩ := List.mem_iff_getElem?.mp hy
    rw [List.getElem?_tail] at hj
    refine hitems (j + 1) b (Nat.succ_pos j) ?_
    rw [getElem?_flatten_mul hsize hfull, hj]
    exact hb

/-- a piece of `k` items for each element: the first `n` items come from the first elements -/
theorem take_flatMap {β : Type} {f : β → List α} (hf : ∀ b, (f b).length = k) (bs : List β) {n m : Nat}
    (h : n ≤ k * m) : (bs.flatMap f).take n = ((bs.take m).flatMap f).take n := by
  induction bs generalizing n m with
  | nil => rw [List.take_nil]
  | cons b bs ih =>
    cases m with
    | zero =>
      obtain rfl : n = 0 := by simpa using h
      rfl
    | succ m =>
      rw [Nat.mul_succ] at h
      rw [List.take_succ_cons, List.flatMap_cons, List.flatMap_cons, List.take_append, List.take_append,
        hf, ih (show n - k ≤ k * m by omega)]

/-- item `i` of a stream of numbered pieces -/
theorem getElem?_flatMap_range {f : Nat → List α} (hf : ∀ j, (f j).length = k) (n i : Nat)
    (h : i < n * k) : ((List.range n).flatMap f)[i]? = (f (i / k))[i % k]? := by
  induction n with
  | zero => omega
  | succ n ih =>
    have hlen : ((List.range n).flatMap f).length = n * k := by simp [List.length_flatMap, hf]
    rw [List.range_succ, List.flatMap_append, List.flatMap_singleton]
    by_cases hi : i < n * k
    · rw [List.getElem?_append_left (by omega), ih hi]
    · have hk : 0 < k := by
        by_contra hk
        simp [Nat.eq_zero_of_not_pos hk] at h
      rw [Nat.succ_mul] at h
      have hdiv : i / k = n := Nat.div_eq_of_lt_le (by omega) (by rw [Nat.succ_mul]; omega)
      have hmod : i % k = i - n * k := by
        have := Nat.div_add_mod i k
        rw [hdiv, Nat.mul_comm] at this
        omega
      rw [List.getElem?_append_right (by omega), hlen, hdiv, hmod]

def chunks (k : Nat) (xs : List α) : List (List α) :=
  (List.range ((xs.length + k - 1) / k)).map fun i => (xs.drop (i * k)).take k

theorem chunks_nil (hk : 0 < k) : chunks k ([] : List α) = [] := by
  rw [chunks, List.length_nil, Nat.zero_add, Nat.div_eq_of_lt (by omega)]
  rfl

theorem chunks_of_ne_nil (hk : 0 < k) {xs : List α} (h : xs ≠ []) :
    chunks k xs = xs.take k :: chunks k (xs.drop k) := by
  have hpos : 0 < xs.length := List.length_pos_iff.mpr h
  -- one piece more than the rest has, also when the rest is empty
  have hcount : (xs.length + k - 1) / k = ((xs.drop k).length + k - 1) / k + 1 := by
    rw [← Nat.add_div_right _ hk, List.length_drop]
    by_cases hle : xs.length ≤ k
    · rw [Nat.sub_eq_zero_of_le hle, Nat.zero_add, Nat.div_eq_of_lt_le (k := 1) (by omega) (by omega),
        Nat.div_eq_of_lt_le (k := 1) (by omega) (by omega)]
    · congr 1
      omega
  unfold chunks
  rw [hcount, List.range_succ_eq_map, List.map_cons, List.map_map, Nat.zero_mul, List.drop_zero]
  congr 1
  apply List.map_congr_left
  intro i hi
  rw [Function.comp_apply, List.drop_drop, Nat.succ_mul, Nat.add_comm (i * k) k]

theorem shorten_eq_chunks (hk : 0 < k) {xs : List (List α)} (h : ∀ x ∈ xs, x.length = k) (r : Nat) :
    shorten k r xs = chunks k (xs.flatten.take r) := by
  induction xs generalizing r with
  | nil => rw [shorten_nil, List.flatten_nil, List.take_nil, chunks_nil hk]
  | cons x xs ih =>
    obtain ⟨hx, hxs⟩ := List.forall_mem_cons.mp h
    by_cases hr : r = 0
    · subst hr
      rw [shorten_zero, List.take_zero, chunks_nil hk]
    · have hne : ((x :: xs).flatten.take r) ≠ [] := by
        rw [← List.length_pos_iff, List.length_take, List.flatten_cons, List.length_append, hx]
        omega
      rw [shorten_cons hr, chunks_of_ne_nil hk hne, ih hxs, List.take_take, List.drop_take,
        List.flatten_cons, List.take_append_of_le_length (by omega), Nat.min_comm, ← hx, List.drop_left]
      congr 3
      omega

theorem chunks_length {xs : List α} {n : Nat} (hk : 0 < k) (h : xs.length = n * k) :
    (chunks k xs).length = n := by
  have e : n * k + k - 1 = k - 1 + n * k := by omega
  rw [chunks, List.length_map, List.length_range, h, e, Nat.add_mul_div_right _ _ hk,
    Nat.div_eq_of_lt (by omega), Nat.zero_add]

theorem length_of_mem_chunks {xs : List α} {n : Nat} (hk : 0 < k) (h : xs.length = n * k) :
    ∀ c ∈ chunks k xs, c.length = k := by
  intro c hc
  obtain ⟨i, hi, rfl⟩ := List.mem_map.mp hc
  have hcount := chunks_length hk h
  rw [chunks, List.length_map, List.length_range] at hcount
  rw [hcount, List.mem_range] at hi
  have hroom : (i + 1) * k ≤ n * k := Nat.mul_le_mul_right k hi
  rw [Nat.succ_mul] at hroom
  rw [List.length_take, List.length_drop, h]
  omega

end

end Pieces
