import SolOs.Lib.Word

/-!
# Computations that can fail or panic

`Run ε α`: a value, an error `ε` that the caller sees, or a panic (an arithmetic overflow, an index
out of range, a failed assertion).  `Run Empty α` is code that has no error type.

* `add`, `sub`, `mul`              arithmetic of a build with overflow checks;
* `forEach`                        a `for` loop;
* `get`, `put`, `slice`, `splice`  `xs[i]`, `xs[i] = x`, `&xs[lo..hi]`, `xs[lo..].copy_from_slice(ys)`;
* `copyWithin`                     the overlapping move of a slice inside its array;
* `Avoids bad r`                   `r` does not end in a fault of the kind `bad`; `Avoids.bind` is its
                                   rule for sequencing.
-/

set_option linter.unusedVariables false

namespace Checked

inductive Panic where
  | overflow
  | bounds
  | assertion
  deriving DecidableEq, Repr

inductive Fault (ε : Type) where
  | panic (p : Panic)
  | err (e : ε)
  deriving DecidableEq, Repr

abbrev Run (ε α : Type) := Except (Fault ε) α

section
variable {ε α β : Type}

def panic (p : Panic) : Run ε α := .error (.panic p)
def raise (e : ε) : Run ε α := .error (.err e)

/-- `o.ok_or(e)?` -/
def okOr (o : Option α) (e : ε) : Run ε α :=
  match o with
  | some a => .ok a
  | none => raise e

/-- `if c { return Err(e); }` -/
def rejectIf (c : Prop) [Decidable c] (e : ε) : Run ε Unit := if c then raise e else .ok ()

theorem bind_ok (a : α) (f : α → Run ε β) : (Except.ok a >>= f) = f a := rfl
theorem bind_error (x : Fault ε) (f : α → Run ε β) : ((Except.error x : Run ε α) >>= f) = .error x := rfl
theorem pure_eq (a : α) : (pure a : Run ε α) = .ok a := rfl

/-- a sequence returns a value exactly when both parts do -/
theorem bind_eq_ok {x : Run ε α} {f : α → Run ε β} {b : β} :
    (x >>= f) = .ok b ↔ ∃ a, x = .ok a ∧ f a = .ok b := by
  cases x with
  | error e => simp [bind_error]
  | ok a => simp [bind_ok]

theorem eq_ok_of_toOption {κ : Type} {x : Except κ α} {a : α} (h : x.toOption = some a) : x = .ok a := by
  cases x with
  | error e => cases h
  | ok b => exact congrArg Except.ok (Option.some.inj h)

theorem okOr_some (a : α) (e : ε) : okOr (some a) e = .ok a := rfl
theorem okOr_none (e : ε) : (okOr none e : Run ε α) = raise e := rfl

theorem okOr_eq_ok {o : Option α} {e : ε} {a : α} : okOr o e = .ok a ↔ o = some a := by
  cases o with
  | none => simp [okOr, raise]
  | some b => simp [okOr]

theorem rejectIf_of_not {c : Prop} [Decidable c] (h : ¬ c) (e : ε) : rejectIf c e = .ok () := if_neg h
theorem rejectIf_of {c : Prop} [Decidable c] (h : c) (e : ε) : rejectIf c e = raise e := if_pos h

/-- a loop whose every round succeeds is a `map` -/
theorem mapM_ok {f : α → Run ε β} {g : α → β} (xs : List α) (h : ∀ x ∈ xs, f x = .ok (g x)) :
    xs.mapM f = .ok (xs.map g) := by
  induction xs with
  | nil => rfl
  | cons x xs ih =>
    rw [List.mapM_cons, h x List.mem_cons_self, bind_ok,
      ih (fun y hy => h y (List.mem_cons_of_mem _ hy)), bind_ok, pure_eq, List.map_cons]

/-- `for a in xs { s = body(a, s)? }` -/
def forEach {σ : Type} (xs : List α) (body : α → σ → Run ε σ) (s : σ) : Run ε σ :=
  xs.foldlM (fun s a => body a s) s

/-- a loop whose every round succeeds, as long as `I` holds, is a fold -/
theorem forEach_ok {σ : Type} {body : α → σ → Run ε σ} {g : α → σ → σ} {I : σ → Prop} (xs : List α)
    (h : ∀ a ∈ xs, ∀ s, I s → body a s = .ok (g a s) ∧ I (g a s)) {s : σ} (hs : I s) :
    forEach xs body s = .ok (xs.foldl (fun s a => g a s) s) := by
  induction xs generalizing s with
  | nil => rfl
  | cons a xs ih =>
    obtain ⟨hb, hi⟩ := h a List.mem_cons_self s hs
    show (xs.foldlM _ =<< body a s) = _
    show (body a s >>= fun s' => forEach xs body s') = _
    rw [hb, bind_ok, ih (fun b hb => h b (List.mem_cons_of_mem _ hb)) hi, List.foldl_cons]

theorem forEach_cons {σ : Type} (a : α) (xs : List α) (body : α → σ → Run ε σ) (s : σ) :
    forEach (a :: xs) body s = (body a s >>= fun s' => forEach xs body s') := rfl

theorem forEach_append {σ : Type} (xs ys : List α) (body : α → σ → Run ε σ) (s : σ) :
    forEach (xs ++ ys) body s = (forEach xs body s >>= fun s' => forEach ys body s') :=
  List.foldlM_append

theorem forEach_singleton {σ : Type} (a : α) (body : α → σ → Run ε σ) (s : σ) :
    forEach [a] body s = body a s :=
  bind_pure _

/-- a loop over steps that are loops themselves -/
theorem forEach_flatMap {σ : Type} (xs : List α) (f : α → List β) (body : β → σ → Run ε σ) (s : σ) :
    forEach (xs.flatMap f) body s = forEach xs (fun a s => forEach (f a) body s) s := by
  induction xs generalizing s with
  | nil => rfl
  | cons a xs ih =>
    rw [List.flatMap_cons, forEach_append, forEach_cons]
    exact congrArg _ (funext ih)

/-- what every round does to the state, the loop does -/
theorem forEach_rel {σ : Type} {R : σ → σ → Prop} (hrefl : ∀ s, R s s)
    (htrans : ∀ s t u, R s t → R t u → R s u) {body : α → σ → Run ε σ}
    (h : ∀ a s s', body a s = .ok s' → R s s') {xs : List α} {s s' : σ}
    (hs : forEach xs body s = .ok s') : R s s' := by
  induction xs generalizing s with
  | nil =>
    obtain rfl : s = s' := Except.ok.inj hs
    exact hrefl s
  | cons a xs ih =>
    obtain ⟨t, h1, h2⟩ := bind_eq_ok.mp (show (body a s >>= fun t => forEach xs body t) = .ok s' from hs)
    exact htrans s t s' (h a s t h1) (ih h2)

/-! ## arithmetic -/

def add (w a b : Nat) : Run ε Nat := if a + b < 2^w then .ok (a + b) else panic .overflow
def mul (w a b : Nat) : Run ε Nat := if a * b < 2^w then .ok (a * b) else panic .overflow
def sub (a b : Nat) : Run ε Nat := if b ≤ a then .ok (a - b) else panic .overflow
def div (a b : Nat) : Run ε Nat := if b = 0 then panic .overflow else .ok (a / b)

theorem add_of_lt {w a b : Nat} (h : a + b < 2^w) : (add w a b : Run ε Nat) = .ok (a + b) :=
  if_pos h
theorem mul_of_lt {w a b : Nat} (h : a * b < 2^w) : (mul w a b : Run ε Nat) = .ok (a * b) :=
  if_pos h
theorem sub_of_le {a b : Nat} (h : b ≤ a) : (sub a b : Run ε Nat) = .ok (a - b) := if_pos h
theorem div_of_pos {a b : Nat} (h : 0 < b) : (div a b : Run ε Nat) = .ok (a / b) := if_neg h.ne'

theorem lt_of_add {w a b c : Nat} (h : (add w a b : Run ε Nat) = .ok c) : a + b < 2^w := by
  by_contra hn
  rw [show (add w a b : Run ε Nat) = panic .overflow from if_neg hn] at h
  exact nomatch h

/-! ## slices -/

def get (xs : List α) (i : Nat) : Run ε α :=
  match xs[i]? with
  | some x => .ok x
  | none => panic .bounds

def put (xs : List α) (i : Nat) (x : α) : Run ε (List α) :=
  if i < xs.length then .ok (xs.set i x) else panic .bounds

def slice (xs : List α) (lo hi : Nat) : Run ε (List α) :=
  if lo ≤ hi ∧ hi ≤ xs.length then .ok ((xs.take hi).drop lo) else panic .bounds

def splice (xs : List α) (lo : Nat) (ys : List α) : Run ε (List α) :=
  if lo + ys.length ≤ xs.length then .ok (xs.take lo ++ ys ++ xs.drop (lo + ys.length))
  else panic .bounds

/-- `xs.copy_within(lo..hi, dst)` -/
def copyWithin (xs : List α) (lo hi dst : Nat) : Run ε (List α) := do
  let ys ← slice xs lo hi
  splice xs dst ys

theorem get_of_lt {xs : List α} {i : Nat} (h : i < xs.length) :
    (get xs i : Run ε α) = .ok xs[i] := by
  simp [get, h]

theorem get_of_getElem? {xs : List α} {i : Nat} {x : α} (h : xs[i]? = some x) :
    (get xs i : Run ε α) = .ok x := by
  simp [get, h]

theorem put_of_lt {xs : List α} {i : Nat} (h : i < xs.length) (x : α) :
    (put xs i x : Run ε (List α)) = .ok (xs.set i x) := if_pos h

theorem slice_of_le {xs : List α} {lo hi : Nat} (h : lo ≤ hi) (h' : hi ≤ xs.length) :
    (slice xs lo hi : Run ε (List α)) = .ok ((xs.take hi).drop lo) := if_pos ⟨h, h'⟩

theorem splice_of_le {xs ys : List α} {lo : Nat} (h : lo + ys.length ≤ xs.length) :
    (splice xs lo ys : Run ε (List α)) = .ok (xs.take lo ++ ys ++ xs.drop (lo + ys.length)) :=
  if_pos h

section
variable {xs ys zs : List α} {lo : Nat}

theorem splice_length (h : (splice xs lo ys : Run ε (List α)) = .ok zs) : zs.length = xs.length := by
  unfold splice at h
  split at h
  · next hle =>
    cases h
    simp only [List.length_append, List.length_take, List.length_drop]
    omega
  · exact nomatch h

/-- the part up to the end of what is written -/
theorem splice_take (h : (splice xs lo ys : Run ε (List α)) = .ok zs) :
    zs.take (lo + ys.length) = xs.take lo ++ ys := by
  unfold splice at h
  split at h
  · next hle =>
    cases h
    apply List.take_left'
    rw [List.length_append, List.length_take]
    omega
  · exact nomatch h

/-- the part behind it -/
theorem splice_drop (h : (splice xs lo ys : Run ε (List α)) = .ok zs) :
    zs.drop (lo + ys.length) = xs.drop (lo + ys.length) := by
  unfold splice at h
  split at h
  · next hle =>
    cases h
    apply List.drop_left'
    rw [List.length_append, List.length_take]
    omega
  · exact nomatch h

/-- `xs[..ys.len()].copy_from_slice(ys)` -/
theorem splice_front (h : ys.length ≤ xs.length) :
    ∃ zs, (splice xs 0 ys : Run ε (List α)) = .ok zs ∧ zs.length = xs.length ∧
      zs.take ys.length = ys ∧ zs.drop ys.length = xs.drop ys.length := by
  obtain ⟨zs, hzs⟩ : ∃ zs, (splice xs 0 ys : Run ε (List α)) = .ok zs :=
    ⟨_, splice_of_le (by omega)⟩
  have htake := splice_take hzs
  have hdrop := splice_drop hzs
  rw [Nat.zero_add] at htake hdrop
  rw [List.take_zero, List.nil_append] at htake
  exact ⟨zs, hzs, splice_length hzs, htake, hdrop⟩

theorem put_eq_splice {i : Nat} (x : α) : (put xs i x : Run ε (List α)) = splice xs i [x] := by
  unfold put splice
  by_cases h : i < xs.length
  · rw [if_pos h, if_pos (show i + [x].length ≤ xs.length from h), List.set_eq_take_append_cons_drop,
      if_pos h, List.append_assoc]
    rfl
  · rw [if_neg h, if_neg (show ¬ i + [x].length ≤ xs.length from h)]

/-- closing a gap: the elements from `lo` on move down to `dst` -/
theorem copyWithin_down {hi dst : Nat} (hdst : dst ≤ lo) (hlo : lo ≤ hi) (hhi : hi ≤ xs.length) :
    ∃ zs, (copyWithin xs lo hi dst : Run ε (List α)) = .ok zs ∧ zs.length = xs.length ∧
      zs.take (dst + (hi - lo)) = xs.take dst ++ (xs.take hi).drop lo := by
  have hlen : ((xs.take hi).drop lo).length = hi - lo := by
    rw [List.length_drop, List.length_take]
    omega
  have hs : (splice xs dst ((xs.take hi).drop lo) : Run ε (List α)) = .ok _ :=
    splice_of_le (by omega)
  refine ⟨_, ?_, splice_length hs, ?_⟩
  · unfold copyWithin
    rw [slice_of_le hlo hhi, bind_ok, hs]
  · rw [← hlen]
    exact splice_take hs

/-- opening a gap of the size of `ys` at `lo`, and filling it -/
theorem copyWithin_up {hi : Nat} (hlo : lo ≤ hi) (hhi : hi + ys.length ≤ xs.length) :
    ∃ zs, (do
        let xs ← copyWithin xs lo hi (lo + ys.length)
        splice xs lo ys : Run ε (List α)) = .ok zs ∧ zs.length = xs.length ∧
      zs.take (hi + ys.length) = xs.take lo ++ ys ++ (xs.take hi).drop lo := by
  have hlen : ((xs.take hi).drop lo).length = hi - lo := by
    rw [List.length_drop, List.length_take]
    omega
  obtain ⟨us, hus⟩ : ∃ us, (splice xs (lo + ys.length) ((xs.take hi).drop lo) : Run ε (List α)) = .ok us :=
    ⟨_, splice_of_le (by omega)⟩
  have hul := splice_length hus
  obtain ⟨zs, hzs⟩ : ∃ zs, (splice us lo ys : Run ε (List α)) = .ok zs :=
    ⟨_, splice_of_le (by omega)⟩
  have hut := splice_take hus
  refine ⟨zs, ?_, (splice_length hzs).trans hul, ?_⟩
  · unfold copyWithin
    rw [slice_of_le hlo (by omega), bind_ok, hus, bind_ok, hzs]
  · -- what is behind the gap was put there by the first move
    have hsplit : hi + ys.length = lo + ys.length + (hi - lo) := by omega
    rw [hlen] at hut
    have hfront : us.take lo = xs.take lo := by
      have := congrArg (List.take lo) hut
      rw [List.take_take, min_eq_left (by omega), List.take_append_of_le_length (by
        rw [List.length_take]; omega), List.take_take, min_eq_left (by omega)] at this
      exact this
    have hback : (us.drop (lo + ys.length)).take (hi - lo) = (xs.take hi).drop lo := by
      rw [List.take_drop, hut]
      apply List.drop_left'
      rw [List.length_take]
      omega
    rw [hsplit, List.take_add, splice_take hzs, splice_drop hzs, hfront, hback]

end

/-! ## faults that cannot happen -/

def Panics (r : Run ε α) : Prop := ∃ p, r = .error (.panic p)

def Avoids (bad : Fault ε → Prop) (r : Run ε α) : Prop := ∀ f, r = .error f → ¬ bad f

variable {bad : Fault ε → Prop}

theorem Avoids.ok (a : α) : Avoids bad (.ok a : Run ε α) := by
  intro f h
  cases h

theorem Avoids.raise {e : ε} (h : ¬ bad (.err e)) : Avoids bad (raise e : Run ε α) := by
  intro f hf
  cases hf
  exact h

/-- an error passed on to the caller -/
theorem Avoids.error {f : Fault ε} (h : Avoids bad (.error f : Run ε α)) :
    Avoids bad (.error f : Run ε β) := by
  rintro _ ⟨⟩
  exact h f rfl

theorem Avoids.bind {x : Run ε α} {f : α → Run ε β} (hx : Avoids bad x)
    (hf : ∀ a, x = .ok a → Avoids bad (f a)) : Avoids bad (x >>= f) := by
  cases x with
  | error e =>
    intro g hg
    cases hg
    exact hx e rfl
  | ok a => exact hf a rfl

theorem Avoids.okOr {o : Option α} {e : ε} (h : ¬ bad (.err e)) : Avoids bad (okOr o e) := by
  cases o with
  | none => exact Avoids.raise h
  | some a => exact Avoids.ok a

theorem Avoids.rejectIf {c : Prop} [Decidable c] {e : ε} (h : ¬ bad (.err e)) :
    Avoids bad (rejectIf c e) := by
  by_cases hc : c
  · rw [rejectIf_of hc]
    exact Avoids.raise h
  · rw [rejectIf_of_not hc]
    exact Avoids.ok ()

end

end Checked
