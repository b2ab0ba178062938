import Mathlib

/-!
# Straight-line code over spin locks

A context executes a list of instructions over locks `L` and actions `A`.  `lock` spins while its
lock is taken, `tryLock` jumps over a number of instructions instead.

* `Machine`, `step`         the taken locks, the code still to run, the actions performed;
* `Block`, `code`           the two ways in which code uses a lock: wait for it, or try it;
* `Completes`               the code runs to its end and never asks for a lock that was taken before;
* `Passes`, `code_passes`   what blocks perform when no lock they wait for is taken;
* `completes_iff`           a list of blocks completes iff each lock it waits for is free;
* `inside`, `taken_eq`      which lock an interrupted list of blocks holds.
-/

set_option linter.unusedSectionVars false

namespace Locks

inductive Instr (L A : Type*) where
  | lock (l : L)
  /-- jumps over `skip` instructions when the lock is taken -/
  | tryLock (l : L) (skip : Nat)
  | unlock (l : L)
  | act (a : A)

structure Machine (L A : Type*) where
  taken : L → Bool
  code : List (Instr L A)
  trace : List A

section
variable {L A : Type*} [DecidableEq L]

/-- a machine without code has reached its halt loop -/
def step (m : Machine L A) : Machine L A :=
  match m.code with
  | [] => m
  | .lock l :: code =>
    if m.taken l then m else { m with taken := Function.update m.taken l true, code := code }
  | .tryLock l skip :: code =>
    if m.taken l then { m with code := code.drop skip }
    else { m with taken := Function.update m.taken l true, code := code }
  | .unlock l :: code => { m with taken := Function.update m.taken l false, code := code }
  | .act a :: code => { m with code := code, trace := m.trace ++ [a] }

/-- the next instruction is a blocking request for `l` -/
def Requests (m : Machine L A) (l : L) : Prop := ∃ tail, m.code = .lock l :: tail

structure Completes (m : Machine L A) : Prop where
  halts : ∃ k, (step^[k] m).code = []
  never_requests : ∀ k l, m.taken l = true → ¬ Requests (step^[k] m) l

/-! ## blocks -/

inductive Block (L A : Type*) where
  | guarded (l : L) (body : List A)
  | attempt (l : L) (body : List A)

/-- a body under a lock that is already held -/
def release (l : L) (body : List A) : List (Instr L A) := body.map .act ++ [.unlock l]

def Block.code : Block L A → List (Instr L A)
  | .guarded l body => .lock l :: release l body
  | .attempt l body => .tryLock l (body.length + 1) :: release l body

def code (blocks : List (Block L A)) : List (Instr L A) := blocks.flatMap Block.code

/-- the locks that the blocks wait for -/
def Block.waits : Block L A → Option L
  | .guarded l _ => some l
  | .attempt _ _ => none

/-- what a block does when it does not wait -/
def Block.performs (taken : L → Bool) : Block L A → List A
  | .guarded _ body => body
  | .attempt l body => if taken l then [] else body

@[simp] theorem release_length (l : L) (body : List A) : (release l body).length = body.length + 1 := by
  simp [release]

@[simp] theorem code_cons (b : Block L A) (blocks : List (Block L A)) :
    code (b :: blocks) = b.code ++ code blocks := rfl

/-! ## single steps -/

variable {taken : L → Bool} {rest : List (Instr L A)} {trace : List A}

theorem step_lock_free {l : L} (h : taken l = false) :
    step ⟨taken, .lock l :: rest, trace⟩ = ⟨Function.update taken l true, rest, trace⟩ := by
  simp [step, h]

theorem step_lock_taken {l : L} (h : taken l = true) :
    step ⟨taken, .lock l :: rest, trace⟩ = ⟨taken, .lock l :: rest, trace⟩ := by
  simp [step, h]

theorem step_tryLock_free {l : L} {skip : Nat} (h : taken l = false) :
    step ⟨taken, .tryLock l skip :: rest, trace⟩ = ⟨Function.update taken l true, rest, trace⟩ := by
  simp [step, h]

theorem step_tryLock_taken {l : L} {skip : Nat} (h : taken l = true) :
    step ⟨taken, .tryLock l skip :: rest, trace⟩ = ⟨taken, rest.drop skip, trace⟩ := by
  simp [step, h]

/-- the first `k` actions of a body -/
theorem step_body (taken : L → Bool) (rest : List (Instr L A)) (body : List A) :
    ∀ (k : Nat) (trace : List A), k ≤ body.length →
      step^[k] ⟨taken, body.map .act ++ rest, trace⟩
        = ⟨taken, (body.drop k).map .act ++ rest, trace ++ body.take k⟩ := by
  induction body with
  | nil =>
    intro k trace hk
    obtain rfl : k = 0 := by simpa using hk
    simp
  | cons a body ih =>
    intro k trace hk
    cases k with
    | zero => simp
    | succ k =>
      rw [Function.iterate_succ_apply]
      show step^[k] ⟨taken, body.map .act ++ rest, trace ++ [a]⟩ = _
      rw [ih k _ (by simpa using hk)]
      simp

/-- the whole body and the release of its lock -/
theorem step_release (l : L) (body : List A) :
    step^[body.length + 1] ⟨taken, release l body ++ rest, trace⟩
      = ⟨Function.update taken l false, rest, trace ++ body⟩ := by
  have hbody := step_body taken (.unlock l :: rest) body body.length trace le_rfl
  rw [Function.iterate_succ_apply', release, List.append_assoc]
  show step (step^[body.length] ⟨taken, body.map .act ++ (.unlock l :: rest), trace⟩) = _
  rw [hbody]
  simp [step]

/-- while a body runs, its lock is held and no lock is requested -/
theorem step_release_lt (l : L) (body : List A) {k : Nat} (hk : k ≤ body.length) :
    (step^[k] ⟨taken, release l body ++ rest, trace⟩).taken = taken ∧
      ∀ l', ¬ Requests (step^[k] ⟨taken, release l body ++ rest, trace⟩) l' := by
  have hbody := step_body taken (.unlock l :: rest) body k trace hk
  rw [release, List.append_assoc]
  show (step^[k] ⟨taken, body.map .act ++ (.unlock l :: rest), trace⟩).taken = taken ∧
    ∀ l', ¬ Requests (step^[k] ⟨taken, body.map .act ++ (.unlock l :: rest), trace⟩) l'
  rw [hbody]
  refine ⟨rfl, ?_⟩
  intro l' ⟨tail, htail⟩
  rcases hd : body.drop k with _ | ⟨a, as⟩ <;> simp [hd] at htail

/-! ## whole blocks -/

theorem update_release {l : L} (h : taken l = false) :
    Function.update (Function.update taken l true) l false = taken := by
  rw [Function.update_idem, ← h, Function.update_eq_self]

/-- nothing taken before is requested on the way, and the locks end as they were -/
def Passes (taken : L → Bool) (code rest : List (Instr L A)) (out trace : List A) : Prop :=
  ∃ j, step^[j] ⟨taken, code, trace⟩ = ⟨taken, rest, trace ++ out⟩ ∧
    ∀ k < j, ∀ l, taken l = true → ¬ Requests (step^[k] ⟨taken, code, trace⟩) l

theorem Passes.trans {code mid rest : List (Instr L A)} {out out' : List A}
    (h : Passes taken code mid out trace) (h' : Passes taken mid rest out' (trace ++ out)) :
    Passes taken code rest (out ++ out') trace := by
  obtain ⟨j, hj, hquiet⟩ := h
  obtain ⟨j', hj', hquiet'⟩ := h'
  refine ⟨j' + j, ?_, ?_⟩
  · rw [Function.iterate_add_apply, hj, hj', List.append_assoc]
  · intro k hk l hl
    rcases Nat.lt_or_ge k j with hlt | hge
    · exact hquiet k hlt l hl
    · have hsplit := Function.iterate_add_apply (step (L := L) (A := A)) (k - j) j ⟨taken, code, trace⟩
      rw [Nat.sub_add_cancel hge, hj] at hsplit
      rw [hsplit]
      exact hquiet' (k - j) (by omega) l hl

/-- an instruction that takes its lock, the body and the release -/
theorem passes_of_take {l : L} (body : List A) {first : Instr L A} (hl : taken l = false)
    (hfirst : ∀ l', taken l' = true → first ≠ .lock l')
    (hstep : step ⟨taken, first :: (release l body ++ rest), trace⟩
      = ⟨Function.update taken l true, release l body ++ rest, trace⟩) :
    Passes taken (first :: (release l body ++ rest)) rest body trace := by
  refine ⟨body.length + 1 + 1, ?_, ?_⟩
  · rw [Function.iterate_succ_apply, hstep, step_release, update_release hl]
  · intro k hk l' hl'
    cases k with
    | zero =>
      intro ⟨tail, htail⟩
      exact hfirst l' hl' (List.cons.inj htail).1
    | succ k =>
      rw [Function.iterate_succ_apply, hstep]
      exact (step_release_lt l body (by omega)).2 l'

theorem block_passes (rest : List (Instr L A)) (trace : List A) {b : Block L A}
    (hb : ∀ l, b.waits = some l → taken l = false) :
    Passes taken (b.code ++ rest) rest (b.performs taken) trace := by
  cases b with
  | guarded l body =>
    have hl : taken l = false := hb l rfl
    apply passes_of_take body hl _ (step_lock_free hl)
    intro l' hl' heq
    cases heq
    exact Bool.noConfusion (hl'.symm.trans hl)
  | attempt l body =>
    cases hl : taken l with
    | false =>
      simp only [Block.performs, hl]
      apply passes_of_take body hl _ (step_tryLock_free hl)
      intro l' _ heq
      cases heq
    | true =>
      -- one step jumps over the block
      refine ⟨1, ?_, ?_⟩
      · show step ⟨taken, .tryLock l (body.length + 1) :: (release l body ++ rest), trace⟩ = _
        rw [step_tryLock_taken hl, ← release_length l body, List.drop_left]
        simp [Block.performs, hl]
      · intro k hk l' _ ⟨tail, htail⟩
        obtain rfl : k = 0 := by omega
        cases htail

theorem code_passes (blocks : List (Block L A)) :
    ∀ trace : List A, (∀ b ∈ blocks, ∀ l, b.waits = some l → taken l = false) →
      Passes taken (code blocks) [] (blocks.flatMap (Block.performs taken)) trace := by
  induction blocks with
  | nil =>
    intro trace _
    exact ⟨0, by simp [code], fun k hk => absurd hk (Nat.not_lt_zero k)⟩
  | cons b blocks ih =>
    intro trace h
    exact (block_passes _ _ (h b List.mem_cons_self)).trans
      (ih _ (fun c hc => h c (List.mem_cons_of_mem _ hc)))

theorem Passes.completes {code : List (Instr L A)} {out : List A} (h : Passes taken code [] out trace) :
    Completes ⟨taken, code, trace⟩ := by
  obtain ⟨j, hj, hquiet⟩ := h
  refine ⟨⟨j, by rw [hj]⟩, ?_⟩
  intro k l hl
  rcases Nat.lt_or_ge k j with hlt | hge
  · exact hquiet k hlt l hl
  · have hsplit := Function.iterate_add_apply (step (L := L) (A := A)) (k - j) j ⟨taken, code, trace⟩
    have hstay : step^[k - j] (⟨taken, [], trace ++ out⟩ : Machine L A) = ⟨taken, [], trace ++ out⟩ :=
      Function.iterate_fixed rfl _
    rw [Nat.sub_add_cancel hge, hj, hstay] at hsplit
    intro ⟨tail, htail⟩
    rw [hsplit] at htail
    cases htail

/-- the first block that waits for a taken lock asks for it -/
theorem requests_of_taken (taken : L → Bool) (blocks : List (Block L A)) :
    ∀ trace : List A, (∃ b ∈ blocks, ∃ l, b.waits = some l ∧ taken l = true) →
      ∃ k l, taken l = true ∧ Requests (step^[k] ⟨taken, code blocks, trace⟩) l := by
  induction blocks with
  | nil =>
    intro trace ⟨b, hb, _⟩
    exact absurd hb List.not_mem_nil
  | cons b blocks ih =>
    intro trace ⟨c, hc, l, hcl, hl⟩
    by_cases hb : ∀ l, b.waits = some l → taken l = false
    · -- this block passes, so the waiting one is behind it
      obtain ⟨j, hj, _⟩ := block_passes (code blocks) trace hb
      have hc' : c ∈ blocks := by
        rcases List.mem_cons.mp hc with rfl | hc'
        · exact Bool.noConfusion (hl.symm.trans (hb l hcl))
        · exact hc'
      obtain ⟨k, l', hl', hreq⟩ := ih _ ⟨c, hc', l, hcl, hl⟩
      refine ⟨k + j, l', hl', ?_⟩
      rw [code_cons, Function.iterate_add_apply, hj]
      exact hreq
    · simp only [not_forall, Bool.not_eq_false] at hb
      obtain ⟨l', hbl, hl'⟩ := hb
      cases b with
      | guarded l₀ body =>
        obtain rfl : l₀ = l' := Option.some.inj hbl
        exact ⟨0, l₀, hl', _, rfl⟩
      | attempt l₀ body => cases hbl

/-- **completion rule** -/
theorem completes_iff (taken : L → Bool) (blocks : List (Block L A)) (trace : List A) :
    Completes ⟨taken, code blocks, trace⟩
      ↔ ∀ b ∈ blocks, ∀ l, b.waits = some l → taken l = false := by
  constructor
  · intro h b hb l hbl
    by_contra hl
    obtain ⟨k, l', hl', hreq⟩ := requests_of_taken taken blocks trace
      ⟨b, hb, l, hbl, by simpa using hl⟩
    exact h.never_requests k l' hl' hreq
  · intro h
    exact (code_passes blocks trace h).completes

/-- a request for a taken lock is never served -/
theorem requests_forever {m : Machine L A} {l : L} (h : Requests m l) (hl : m.taken l = true) (k : Nat) :
    step^[k] m = m := by
  obtain ⟨tail, htail⟩ := h
  apply Function.iterate_fixed
  rcases m with ⟨taken, code', trace⟩
  subst htail
  exact step_lock_taken hl

/-! ## interrupted code -/

/-- the lock held after `n` steps of guarded blocks -/
def inside : List (L × List A) → Nat → Option L
  | [], _ => none
  | (l, body) :: blocks, n =>
    if n = 0 then none
    else if n ≤ body.length + 1 then some l
    else inside blocks (n - (body.length + 2))

/-- blocks that all wait for their lock -/
def guardedAll (blocks : List (L × List A)) : List (Block L A) :=
  blocks.map fun b => .guarded b.1 b.2

theorem taken_eq (blocks : List (L × List A)) :
    ∀ (n : Nat) (trace : List A) (l : L),
      (step^[n] ⟨fun _ => false, code (guardedAll blocks), trace⟩).taken l
        = decide (inside blocks n = some l) := by
  induction blocks with
  | nil =>
    intro n trace l
    have hstay : step^[n] (⟨fun _ => false, [], trace⟩ : Machine L A) = ⟨fun _ => false, [], trace⟩ :=
      Function.iterate_fixed rfl n
    show (step^[n] (⟨fun _ => false, [], trace⟩ : Machine L A)).taken l = _
    rw [hstay]
    rfl
  | cons b blocks ih =>
    obtain ⟨l₀, body⟩ := b
    intro n trace l
    show (step^[n] ⟨fun _ => false, .lock l₀ :: (release l₀ body ++ code (guardedAll blocks)),
      trace⟩).taken l = _
    cases n with
    | zero => simp [inside]
    | succ n =>
      rw [Function.iterate_succ_apply, step_lock_free rfl]
      rcases Nat.lt_or_ge body.length n with hn | hn
      · -- the block is behind us
        have hsplit : n = (n - (body.length + 1)) + (body.length + 1) := by omega
        rw [hsplit, Function.iterate_add_apply, step_release, update_release rfl, ih]
        have hin : inside ((l₀, body) :: blocks) (n - (body.length + 1) + (body.length + 1) + 1)
            = inside blocks (n - (body.length + 1)) := by
          rw [inside, if_neg (by omega), if_neg (by omega)]
          congr 1
          omega
        rw [hin]
      · rw [(step_release_lt l₀ body hn).1, inside, if_neg (by omega), if_pos (by omega)]
        by_cases hl : l = l₀
        · simp [hl]
        · simp [hl, Ne.symm hl]

end

end Locks
