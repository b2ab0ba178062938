import SolOs.Lib.Steps
import SolOs.Lib.Word

/-!
# The bump allocator

`BumpAllocator` of `allocator.rs`: one `init` and any number of threads of control that call
`alloc`, interleaved at their atomic accesses.

* `attempt`            the local arithmetic between the load of `next` and the compare-exchange;
* `access`             the next atomic access of an `alloc` in flight, with its effect;
* `Sys`, `Sys.step`    the allocator, the progress of `init`, the calls in flight and the history
                       `rets` of the finished calls, oldest first.  `touched` remembers whether the
                       call in flight has changed a field;
* `Sys.Inv`            the invariant; `Sys.inv_run`: it holds in every run;
* `solo_run`           a call that is not interfered with, whatever the weak compare-exchange does.
-/

set_option linter.unusedVariables false

namespace SolOs
namespace Memory

/-- `core::alloc::Layout`: a size and a power-of-two alignment, both of them `usize` -/
structure Layout where
  size : Nat
  align : Nat
  size_lt : size < 2^64
  align_pow : ∃ k < 64, align = 2^k

theorem Layout.align_pos (l : Layout) : 0 < l.align := by
  obtain ⟨k, _, hk⟩ := l.align_pow
  rw [hk]
  exact Nat.two_pow_pos k

structure BumpAllocator where
  start : Nat
  end_ : Nat
  next : Nat
  deriving DecidableEq

def BumpAllocator.new : BumpAllocator := ⟨0, 0, 0⟩

def BumpAllocator.capacity (m : BumpAllocator) : Nat := m.end_ - m.start
def BumpAllocator.used (m : BumpAllocator) : Nat := m.next - m.start

/-- the whole of `init`; `none` is a panic of its `expect` or `assert_eq!` -/
def BumpAllocator.init (m : BumpAllocator) (heapStart heapSize : Nat) : Option BumpAllocator :=
  match Word.checkedAdd 64 heapStart heapSize with
  | none => none
  | some heapEnd => if m.start = 0 then some ⟨heapStart, heapEnd, heapStart⟩ else none

/-- from the loaded `current` to the operands of the compare-exchange; `none`: return null -/
def attempt (l : Layout) (end_ current : Nat) : Option (Nat × Nat) := do
  let alignMask := l.align - 1
  let value ← Word.checkedAdd 64 current alignMask
  let aligned := value &&& Word.notMask 64 alignMask
  let allocationEnd ← Word.checkedAdd 64 aligned l.size
  if current = 0 ∨ allocationEnd > end_ then none else some (aligned, allocationEnd)

/-- the access of `alloc` that comes next -/
inductive AllocPc where
  | idle
  | loadEnd (l : Layout)
  | loadNext (l : Layout) (end_ : Nat)
  | compareExchange (l : Layout) (end_ current aligned allocationEnd : Nat)

/-- what an access leads to: the next access, or the pointer that the call returns -/
inductive Progress where
  | goto (pc : AllocPc)
  | ret (l : Layout) (ptr : Nat)

/-- one access; `spurious` makes a weak compare-exchange fail for no reason -/
def access (m : BumpAllocator) (spurious : Bool) : AllocPc → Option (BumpAllocator × Progress)
  | .idle => none
  | .loadEnd l => some (m, .goto (.loadNext l m.end_))
  | .loadNext l end_ =>
    match attempt l end_ m.next with
    | none => some (m, .ret l 0)
    | some (aligned, allocationEnd) =>
      some (m, .goto (.compareExchange l end_ m.next aligned allocationEnd))
  | .compareExchange l end_ current aligned allocationEnd =>
    if spurious = false ∧ m.next = current then some ({ m with next := allocationEnd }, .ret l aligned)
    else some (m, .goto (.loadNext l end_))

/-- the access of `init` that comes next -/
inductive InitPc where
  | loadStart
  | storeStart (heapEnd : Nat)
  | storeEnd (heapEnd : Nat)
  | storeNext (heapEnd : Nat)
  | done
  | panicked
  deriving DecidableEq

structure Ret where
  thread : Nat
  l : Layout
  ptr : Nat
  touched : Bool

structure Sys where
  mem : BumpAllocator
  init : InitPc
  pc : Nat → AllocPc
  touched : Nat → Bool
  rets : List Ret

def Sys.boot : Sys := ⟨.new, .loadStart, fun _ => .idle, fun _ => false, []⟩

inductive Act where
  | init
  | call (t : Nat) (l : Layout)
  | access (t : Nat) (spurious : Bool)

section
variable (heapStart heapSize : Nat)

/-- `init(heap_start, heap_size)`: the two panics are the `expect` and the `assert_eq!` -/
def Sys.initStep (s : Sys) : Option Sys :=
  match s.init with
  | .loadStart =>
    match Word.checkedAdd 64 heapStart heapSize with
    | none => some { s with init := .panicked }
    | some heapEnd =>
      if s.mem.start = 0 then some { s with init := .storeStart heapEnd }
      else some { s with init := .panicked }
  | .storeStart heapEnd =>
    some { s with mem := { s.mem with start := heapStart }, init := .storeEnd heapEnd }
  | .storeEnd heapEnd => some { s with mem := { s.mem with end_ := heapEnd }, init := .storeNext heapEnd }
  | .storeNext heapEnd => some { s with mem := { s.mem with next := heapStart }, init := .done }
  | .done => none
  | .panicked => none

def Sys.accessStep (s : Sys) (t : Nat) (spurious : Bool) : Option Sys :=
  match access s.mem spurious (s.pc t) with
  | none => none
  | some (mem, .goto pc) =>
    some { s with mem := mem, pc := Function.update s.pc t pc,
                  touched := Function.update s.touched t (s.touched t || decide (mem ≠ s.mem)) }
  | some (mem, .ret l ptr) =>
    some { s with mem := mem, pc := Function.update s.pc t .idle,
                  touched := Function.update s.touched t false,
                  rets := s.rets ++ [⟨t, l, ptr, s.touched t || decide (mem ≠ s.mem)⟩] }

def Sys.step (s : Sys) : Act → Option Sys
  | .init => s.initStep heapStart heapSize
  | .call t l =>
    match s.pc t with
    | .idle => some { s with pc := Function.update s.pc t (.loadEnd l) }
    | _ => none
  | .access t spurious => s.accessStep t spurious

end

/-- without interruption the four accesses of `init` are the function -/
theorem init_solo (heapStart heapSize : Nat) (s : Sys) (hpc : s.init = .loadStart) (m : BumpAllocator)
    (h : s.mem.init heapStart heapSize = some m) :
    Steps.run (Sys.step heapStart heapSize) s (List.replicate 4 .init)
      = some { s with mem := m, init := .done } := by
  unfold BumpAllocator.init at h
  cases ha : Word.checkedAdd 64 heapStart heapSize with
  | none => simp [ha] at h
  | some heapEnd =>
    by_cases h0 : s.mem.start = 0
    · simp only [ha, h0, if_true, Option.some.injEq] at h
      subst h
      simp [Steps.run, List.replicate, Sys.step, Sys.initStep, hpc, ha, h0]
    · simp [ha, h0] at h

/-! ## the arithmetic of one attempt -/

/-- **One attempt, in unbounded integers**: it gives up exactly when the rounded-up allocation does
not fit below `end_`, and otherwise proposes just that allocation. -/
theorem attempt_eq (l : Layout) (end_ current : Nat) (hend : end_ < 2^64) :
    attempt l end_ current =
      if current = 0 ∨ end_ < Word.roundUp current l.align + l.size then none
      else some (Word.roundUp current l.align, Word.roundUp current l.align + l.size) := by
  obtain ⟨k, hk, hal⟩ := l.align_pow
  unfold attempt
  simp only [hal, Option.bind_eq_bind, gt_iff_lt]
  by_cases h1 : current + (2^k - 1) < 2^64
  · rw [Word.checkedAdd_of_lt h1, Option.bind_some, Word.add_and_notMask hk.le h1]
    by_cases h2 : Word.roundUp current (2^k) + l.size < 2^64
    · rw [Word.checkedAdd_of_lt h2, Option.bind_some]
    · have hno : Word.checkedAdd 64 (Word.roundUp current (2^k)) l.size = none := if_neg h2
      rw [hno, Option.bind_none, if_pos (Or.inr (by omega))]
  · have hno : Word.checkedAdd 64 current (2^k - 1) = none := if_neg h1
    have hbig := Word.roundUp_of_overflow hk.le (not_lt.mp h1)
    rw [hno, Option.bind_none, if_pos (Or.inr (by omega))]

/-- what a proposed allocation satisfies -/
theorem attempt_some {l : Layout} {end_ current aligned allocationEnd : Nat} (hend : end_ < 2^64)
    (h : attempt l end_ current = some (aligned, allocationEnd)) :
    aligned % l.align = 0 ∧ 0 < current ∧ current ≤ aligned ∧ allocationEnd = aligned + l.size ∧
      allocationEnd ≤ end_ := by
  rw [attempt_eq l end_ current hend] at h
  by_cases hc : current = 0 ∨ end_ < Word.roundUp current l.align + l.size
  · rw [if_pos hc] at h
    cases h
  · rw [if_neg hc] at h
    cases h
    have hle := Word.le_roundUp current l.align_pos
    refine ⟨Word.roundUp_mod _ _, ?_, hle, rfl, ?_⟩
    · omega
    · omega

/-! ## what one access can do -/

/-- **Every access of an `alloc`**: it moves on without writing, or gives up without writing, or is
a successful compare-exchange, which returns at once. -/
theorem Sys.accessStep_cases {s s' : Sys} {t : Nat} {spurious : Bool}
    (h : s.accessStep t spurious = some s') :
    (∃ l, s.pc t = .loadEnd l ∧ s' = { s with
        pc := Function.update s.pc t (.loadNext l s.mem.end_),
        touched := Function.update s.touched t (s.touched t) }) ∨
    (∃ l end_, s.pc t = .loadNext l end_ ∧ attempt l end_ s.mem.next = none ∧ s' = { s with
        pc := Function.update s.pc t .idle, touched := Function.update s.touched t false,
        rets := s.rets ++ [⟨t, l, 0, s.touched t⟩] }) ∨
    (∃ l end_ aligned allocationEnd, s.pc t = .loadNext l end_ ∧
      attempt l end_ s.mem.next = some (aligned, allocationEnd) ∧ s' = { s with
        pc := Function.update s.pc t (.compareExchange l end_ s.mem.next aligned allocationEnd),
        touched := Function.update s.touched t (s.touched t) }) ∨
    (∃ l end_ current aligned allocationEnd,
      s.pc t = .compareExchange l end_ current aligned allocationEnd ∧ s' = { s with
        pc := Function.update s.pc t (.loadNext l end_),
        touched := Function.update s.touched t (s.touched t) }) ∨
    (∃ l end_ aligned allocationEnd b, spurious = false ∧
      s.pc t = .compareExchange l end_ s.mem.next aligned allocationEnd ∧ s' = { s with
        mem := { s.mem with next := allocationEnd }, pc := Function.update s.pc t .idle,
        touched := Function.update s.touched t false,
        rets := s.rets ++ [⟨t, l, aligned, b⟩] }) := by
  unfold Sys.accessStep at h
  cases hpc : s.pc t with
  | idle => simp [hpc, access] at h
  | loadEnd l =>
    left
    simp only [hpc, access, ne_eq, not_true_eq_false, decide_false, Bool.or_false,
      Option.some.injEq] at h
    exact ⟨l, rfl, h.symm⟩
  | loadNext l end_ =>
    cases ha : attempt l end_ s.mem.next with
    | none =>
      right; left
      simp only [hpc, access, ha, ne_eq, not_true_eq_false, decide_false, Bool.or_false,
        Option.some.injEq] at h
      exact ⟨l, end_, rfl, ha, h.symm⟩
    | some p =>
      obtain ⟨aligned, allocationEnd⟩ := p
      right; right; left
      simp only [hpc, access, ha, ne_eq, not_true_eq_false, decide_false, Bool.or_false,
        Option.some.injEq] at h
      exact ⟨l, end_, aligned, allocationEnd, rfl, ha, h.symm⟩
  | compareExchange l end_ current aligned allocationEnd =>
    right; right; right
    by_cases hc : spurious = false ∧ s.mem.next = current
    · right
      simp only [hpc, access, if_pos hc, Option.some.injEq] at h
      obtain ⟨hs, rfl⟩ := hc
      exact ⟨l, end_, aligned, allocationEnd, _, hs, rfl, h.symm⟩
    · left
      simp only [hpc, access, if_neg hc, ne_eq, not_true_eq_false, decide_false, Bool.or_false,
        Option.some.injEq] at h
      exact ⟨l, end_, current, aligned, allocationEnd, rfl, h.symm⟩

/-! ## the invariant -/

section
variable (heapStart heapSize : Nat)

/-- the fields while `init` makes its three stores, and after -/
def Sys.InitOk (s : Sys) : Prop :=
  match s.init with
  | .loadStart => s.mem = ⟨0, 0, 0⟩
  | .storeStart heapEnd => s.mem = ⟨0, 0, 0⟩ ∧ heapEnd = heapStart + heapSize ∧ heapEnd < 2^64
  | .storeEnd heapEnd =>
    s.mem = ⟨heapStart, 0, 0⟩ ∧ heapEnd = heapStart + heapSize ∧ heapEnd < 2^64
  | .storeNext heapEnd =>
    s.mem = ⟨heapStart, heapStart + heapSize, 0⟩ ∧ heapStart + heapSize < 2^64
  | .done => s.mem.start = heapStart ∧ s.mem.end_ = heapStart + heapSize ∧
      heapStart + heapSize < 2^64 ∧ heapStart ≤ s.mem.next ∧ s.mem.next ≤ heapStart + heapSize
  | .panicked => s.mem = ⟨0, 0, 0⟩

/-- what a call in flight knows: its `end` is the current one or the one from before `init`, and an
allocation is proposed only after `init` -/
def Sys.PcOk (s : Sys) : AllocPc → Prop
  | .idle => True
  | .loadEnd _ => True
  | .loadNext _ end_ => end_ = 0 ∨ end_ = s.mem.end_
  | .compareExchange l end_ current aligned allocationEnd =>
    s.init = .done ∧ end_ = s.mem.end_ ∧ attempt l end_ current = some (aligned, allocationEnd)

/-- a finished call: null and without effect, or a range between `heapStart` and `next` -/
def Sys.RetOk (s : Sys) (r : Ret) : Prop :=
  (r.ptr = 0 → r.touched = false) ∧
  (r.ptr ≠ 0 → s.init = .done ∧ r.ptr % r.l.align = 0 ∧ heapStart ≤ r.ptr ∧
    r.ptr + r.l.size ≤ s.mem.next)

/-- the range of the earlier call ends before the range of the later one starts -/
def Before (a b : Ret) : Prop := a.ptr ≠ 0 → b.ptr ≠ 0 → a.ptr + a.l.size ≤ b.ptr

structure Sys.Inv (s : Sys) : Prop where
  init : s.InitOk heapStart heapSize
  pc : ∀ t, s.PcOk (s.pc t)
  untouched : ∀ t, s.touched t = false
  rets : ∀ r ∈ s.rets, s.RetOk heapStart r
  order : s.rets.Pairwise Before

theorem Sys.inv_boot : Sys.boot.Inv heapStart heapSize where
  init := rfl
  pc := fun _ => trivial
  untouched := fun _ => rfl
  rets := fun r hr => absurd hr List.not_mem_nil
  order := List.Pairwise.nil

variable {heapStart heapSize} {s s' : Sys}

theorem Sys.Inv.end_lt (hi : s.Inv heapStart heapSize) : s.mem.end_ < 2^64 := by
  have h := hi.init
  unfold Sys.InitOk at h
  cases hin : s.init <;> simp only [hin] at h
  · rw [h]; norm_num
  · rw [h.1]; norm_num
  · rw [h.1]; norm_num
  · rw [h.1]; exact h.2
  · rw [h.2.1]; exact h.2.2.1
  · rw [h]; norm_num

/-- before the last store of `init`, `next` is zero -/
theorem Sys.Inv.next_zero (hi : s.Inv heapStart heapSize) (hnd : s.init ≠ .done) :
    s.mem.next = 0 := by
  have h := hi.init
  unfold Sys.InitOk at h
  cases hin : s.init <;> simp only [hin] at h
  · rw [h]
  · rw [h.1]
  · rw [h.1]
  · rw [h.1]
  · exact absurd hin hnd
  · rw [h]

theorem Sys.Inv.at_done (hi : s.Inv heapStart heapSize) (hd : s.init = .done) :
    s.mem.start = heapStart ∧ s.mem.end_ = heapStart + heapSize ∧ heapStart + heapSize < 2^64 ∧
      heapStart ≤ s.mem.next ∧ s.mem.next ≤ heapStart + heapSize := by
  have h := hi.init
  simp only [Sys.InitOk, hd] at h
  exact h

/-! ## one step keeps the invariant -/

/-- a store of `init` changes `end` only from zero, so stale copies of `end` stay harmless -/
theorem Sys.PcOk.store {pc : AllocPc} (hok : s.PcOk pc) (hnd : s.init ≠ .done) {m : BumpAllocator}
    {p : InitPc} (hend : s.mem.end_ = 0 ∨ s.mem.end_ = m.end_) :
    Sys.PcOk { s with mem := m, init := p } pc := by
  cases pc with
  | idle => trivial
  | loadEnd l => trivial
  | loadNext l end_ =>
    rcases hok with h0 | he
    · exact .inl h0
    · exact hend.imp he.trans he.trans
  | compareExchange _ _ _ _ _ => exact absurd hok.1 hnd

/-- before `init` is done no call has returned a pointer -/
theorem Sys.RetOk.store {r : Ret} (hok : s.RetOk heapStart r) (hnd : s.init ≠ .done) {m : BumpAllocator}
    {p : InitPc} : Sys.RetOk heapStart { s with mem := m, init := p } r :=
  ⟨hok.1, fun hne => absurd (hok.2 hne).1 hnd⟩

/-- one access of `init` -/
theorem Sys.Inv.store (hi : s.Inv heapStart heapSize) (hnd : s.init ≠ .done) (m : BumpAllocator)
    (p : InitPc) (hend : s.mem.end_ = 0 ∨ s.mem.end_ = m.end_)
    (hok : Sys.InitOk heapStart heapSize { s with mem := m, init := p }) :
    Sys.Inv heapStart heapSize { s with mem := m, init := p } where
  init := hok
  pc := fun t => (hi.pc t).store hnd hend
  untouched := hi.untouched
  rets := fun r hr => (hi.rets r hr).store hnd
  order := hi.order

theorem Sys.inv_init (hi : s.Inv heapStart heapSize)
    (h : s.initStep heapStart heapSize = some s') : s'.Inv heapStart heapSize := by
  have hin := hi.init
  unfold Sys.initStep at h
  unfold Sys.InitOk at hin
  cases hpc : s.init with
  | loadStart =>
    simp only [hpc] at h hin
    have hnd : s.init ≠ .done := by simp [hpc]
    cases ha : Word.checkedAdd 64 heapStart heapSize with
    | none =>
      simp only [ha, Option.some.injEq] at h
      subst h
      exact hi.store hnd s.mem .panicked (.inr rfl) hin
    | some heapEnd =>
      obtain ⟨hlt, he⟩ := Word.checkedAdd_eq_some.mp ha
      simp only [ha, hin, if_true, Option.some.injEq] at h
      subst h
      rw [← hin]
      exact hi.store hnd s.mem (.storeStart heapEnd) (.inr rfl) ⟨hin, he, he ▸ hlt⟩
  | storeStart heapEnd =>
    simp only [hpc, Option.some.injEq] at h hin
    subst h
    exact hi.store (by simp [hpc]) _ _ (.inr rfl) ⟨by simp [hin.1], hin.2⟩
  | storeEnd heapEnd =>
    simp only [hpc, Option.some.injEq] at h hin
    subst h
    obtain ⟨hm, he, hlt⟩ := hin
    exact hi.store (by simp [hpc]) _ _ (.inl (by rw [hm])) ⟨by simp [hm, he], he ▸ hlt⟩
  | storeNext heapEnd =>
    simp only [hpc, Option.some.injEq] at h hin
    subst h
    obtain ⟨hm, hlt⟩ := hin
    exact hi.store (by simp [hpc]) _ _ (.inr rfl)
      ⟨by simp [hm], by simp [hm], hlt, le_rfl, Nat.le_add_right _ _⟩
  | done => simp [hpc] at h
  | panicked => simp [hpc] at h

theorem Sys.Inv.update_pc (hi : s.Inv heapStart heapSize) (t : Nat) {pc : AllocPc} (hok : s.PcOk pc) :
    ∀ t', s.PcOk (Function.update s.pc t pc t') := by
  rw [Function.forall_update_iff s.pc (p := fun _ pc => s.PcOk pc)]
  exact ⟨hok, fun t' _ => hi.pc t'⟩

theorem Sys.Inv.update_touched (hi : s.Inv heapStart heapSize) (t : Nat) {b : Bool} (hb : b = false) :
    ∀ t', Function.update s.touched t b t' = false := by
  rw [Function.forall_update_iff s.touched (p := fun _ b => b = false)]
  exact ⟨hb, fun t' _ => hi.untouched t'⟩

/-- a call in flight moves on -/
theorem Sys.Inv.goto (hi : s.Inv heapStart heapSize) (t : Nat) {pc : AllocPc} (hok : s.PcOk pc) :
    Sys.Inv heapStart heapSize { s with
      pc := Function.update s.pc t pc, touched := Function.update s.touched t (s.touched t) } :=
  { hi with pc := hi.update_pc t hok, untouched := hi.update_touched t (hi.untouched t) }

/-- one more range, behind all the others -/
theorem Sys.Inv.order_snoc (hi : s.Inv heapStart heapSize) {r : Ret} (hb : ∀ a ∈ s.rets, Before a r) :
    (s.rets ++ [r]).Pairwise Before := by
  refine List.pairwise_append.mpr ⟨hi.order, List.pairwise_singleton _ _, ?_⟩
  intro a ha b hb'
  rw [List.mem_singleton.mp hb']
  exact hb a ha

theorem Sys.inv_call {t : Nat} {l : Layout} (hi : s.Inv heapStart heapSize)
    (h : s.step heapStart heapSize (.call t l) = some s') : s'.Inv heapStart heapSize := by
  cases hpc : s.pc t with
  | idle =>
    simp only [Sys.step, hpc, Option.some.injEq] at h
    subst h
    exact { hi with pc := hi.update_pc t trivial }
  | loadEnd _ => simp [Sys.step, hpc] at h
  | loadNext _ _ => simp [Sys.step, hpc] at h
  | compareExchange _ _ _ _ _ => simp [Sys.step, hpc] at h

/-- the compare-exchange can only be reached with the final `end` -/
theorem Sys.Inv.propose (hi : s.Inv heapStart heapSize) {l : Layout} {end_ aligned allocationEnd : Nat}
    (hend : end_ = 0 ∨ end_ = s.mem.end_)
    (ha : attempt l end_ s.mem.next = some (aligned, allocationEnd)) :
    s.init = .done ∧ end_ = s.mem.end_ := by
  have hlt : end_ < 2^64 := by
    rcases hend with h | h
    · omega
    · rw [h]; exact hi.end_lt
  obtain ⟨_, hpos, hle, hsum, hfit⟩ := attempt_some hlt ha
  refine ⟨?_, ?_⟩
  · by_contra hnd
    have := hi.next_zero hnd
    omega
  · rcases hend with h | h
    · omega
    · exact h

/-- a call gives up: it returns null and has changed nothing -/
theorem Sys.Inv.give_up (hi : s.Inv heapStart heapSize) (t : Nat) (l : Layout) :
    Sys.Inv heapStart heapSize { s with
      pc := Function.update s.pc t .idle, touched := Function.update s.touched t false,
      rets := s.rets ++ [⟨t, l, 0, s.touched t⟩] } where
  init := hi.init
  pc := hi.update_pc t trivial
  untouched := hi.update_touched t rfl
  rets := by
    simp only [List.forall_mem_append, List.forall_mem_singleton]
    exact ⟨hi.rets, fun _ => hi.untouched t, fun hne => absurd rfl hne⟩
  order := hi.order_snoc fun a _ _ hne => absurd rfl hne

/-- **a successful compare-exchange**: the range starts where `next` stood or later, and ends at the new
`next` -/
theorem Sys.Inv.exchange (hi : s.Inv heapStart heapSize) {t : Nat} {l : Layout}
    {end_ aligned allocationEnd : Nat} (hok : s.PcOk (.compareExchange l end_ s.mem.next aligned allocationEnd))
    (b : Bool) :
    Sys.Inv heapStart heapSize { s with
      mem := { s.mem with next := allocationEnd }, pc := Function.update s.pc t .idle,
      touched := Function.update s.touched t false, rets := s.rets ++ [⟨t, l, aligned, b⟩] } := by
  obtain ⟨hd, he, ha⟩ := hok
  obtain ⟨hst, hend, hlt, hlo, hhi⟩ := hi.at_done hd
  obtain ⟨hal, hpos, hle, hsum, hfit⟩ := attempt_some (he ▸ hi.end_lt) ha
  refine { init := ?_, pc := ?_, untouched := hi.update_touched t rfl, rets := ?_, order := ?_ }
  · simp only [Sys.InitOk, hd]
    exact ⟨hst, hend, hlt, by omega, by omega⟩
  · -- what a call in flight knows does not depend on `next`
    intro t'
    have hp := hi.update_pc t (show s.PcOk .idle from trivial) t'
    show Sys.PcOk _ (Function.update s.pc t .idle t')
    cases hq : Function.update s.pc t .idle t' with
    | idle => trivial
    | loadEnd _ => trivial
    | loadNext _ _ => rw [hq] at hp; exact hp
    | compareExchange _ _ _ _ _ => rw [hq] at hp; exact hp
  · simp only [List.forall_mem_append, List.forall_mem_singleton]
    refine ⟨fun r hr => ?_, fun h0 => absurd h0 (show aligned ≠ 0 by omega), fun _ => ⟨hd, hal, ?_, ?_⟩⟩
    · obtain ⟨h0, hne⟩ := hi.rets r hr
      refine ⟨h0, fun hp => ?_⟩
      obtain ⟨g1, g2, g3, g4⟩ := hne hp
      exact ⟨g1, g2, g3, show _ ≤ allocationEnd by omega⟩
    · show heapStart ≤ aligned
      omega
    · show aligned + l.size ≤ allocationEnd
      omega
  · refine hi.order_snoc fun a ha' hna _ => ?_
    have hr := ((hi.rets a ha').2 hna).2.2.2
    show _ ≤ aligned
    omega

theorem Sys.inv_access {t : Nat} {spurious : Bool} (hi : s.Inv heapStart heapSize)
    (h : s.accessStep t spurious = some s') : s'.Inv heapStart heapSize := by
  have hpct := hi.pc t
  rcases Sys.accessStep_cases h with ⟨l, hpc, rfl⟩ | ⟨l, end_, hpc, ha, rfl⟩ |
    ⟨l, end_, aligned, allocationEnd, hpc, ha, rfl⟩ |
    ⟨l, end_, current, aligned, allocationEnd, hpc, rfl⟩ |
    ⟨l, end_, aligned, allocationEnd, b, hsp, hpc, rfl⟩
  · exact hi.goto t (.inr rfl)
  · exact hi.give_up t l
  · rw [hpc] at hpct
    obtain ⟨hd, he⟩ := hi.propose hpct ha
    exact hi.goto t ⟨hd, he, ha⟩
  · rw [hpc] at hpct
    exact hi.goto t (.inr hpct.2.1)
  · rw [hpc] at hpct
    exact hi.exchange hpct b

theorem Sys.inv_step (s : Sys) (a : Act) (s' : Sys) (hi : s.Inv heapStart heapSize)
    (h : s.step heapStart heapSize a = some s') : s'.Inv heapStart heapSize := by
  cases a with
  | init => exact Sys.inv_init hi h
  | call t l => exact Sys.inv_call hi h
  | access t spurious => exact Sys.inv_access hi h

theorem Sys.inv_run (as : List Act)
    (h : Steps.run (Sys.step heapStart heapSize) Sys.boot as = some s) :
    s.Inv heapStart heapSize :=
  Steps.run_inv _ Sys.inv_step as _ s (Sys.inv_boot heapStart heapSize) h

/-! ## `next` never goes back -/

theorem Sys.next_step (s : Sys) (a : Act) (s' : Sys) (hi : s.Inv heapStart heapSize)
    (hd : s.init = .done) (h : s.step heapStart heapSize a = some s') :
    s'.init = .done ∧ s.mem.next ≤ s'.mem.next := by
  cases a with
  | init => simp [Sys.step, Sys.initStep, hd] at h
  | call t l =>
    cases hpc : s.pc t <;> simp only [Sys.step, hpc, Option.some.injEq, reduceCtorEq] at h
    subst h
    exact ⟨hd, le_rfl⟩
  | access t spurious =>
    have hpct := hi.pc t
    rcases Sys.accessStep_cases h with ⟨l, hpc, rfl⟩ | ⟨l, end_, hpc, ha, rfl⟩ |
      ⟨l, end_, aligned, allocationEnd, hpc, ha, rfl⟩ |
      ⟨l, end_, current, aligned, allocationEnd, hpc, rfl⟩ |
      ⟨l, end_, aligned, allocationEnd, b, hsp, hpc, rfl⟩
    · exact ⟨hd, le_rfl⟩
    · exact ⟨hd, le_rfl⟩
    · exact ⟨hd, le_rfl⟩
    · exact ⟨hd, le_rfl⟩
    · rw [hpc] at hpct
      obtain ⟨_, he, ha⟩ := hpct
      obtain ⟨_, _, hle, hsum, _⟩ := attempt_some (he ▸ hi.end_lt) ha
      exact ⟨hd, show s.mem.next ≤ allocationEnd by omega⟩

theorem Sys.done_run (as : List Act) (hi : s.Inv heapStart heapSize) (hd : s.init = .done)
    (h : Steps.run (Sys.step heapStart heapSize) s as = some s') :
    s'.Inv heapStart heapSize ∧ s'.init = .done := by
  refine Steps.run_inv (Sys.step heapStart heapSize)
    (P := fun s => s.Inv heapStart heapSize ∧ s.init = .done) ?_ as s s' ⟨hi, hd⟩ h
  rintro a act b ⟨h1, h2⟩ hs
  exact ⟨Sys.inv_step a act b h1 hs, (Sys.next_step a act b h1 h2 hs).1⟩

theorem Sys.next_run (as : List Act) (hi : s.Inv heapStart heapSize) (hd : s.init = .done)
    (h : Steps.run (Sys.step heapStart heapSize) s as = some s') : s.mem.next ≤ s'.mem.next := by
  refine Steps.run_rel (Sys.step heapStart heapSize)
    (P := fun s => s.Inv heapStart heapSize ∧ s.init = .done)
    (R := fun s s' => s.mem.next ≤ s'.mem.next) (fun _ => le_rfl) (fun _ _ _ => le_trans)
    ?_ ?_ as s s' ⟨hi, hd⟩ h
  · rintro a act b ⟨h1, h2⟩ hs
    exact ⟨Sys.inv_step a act b h1 hs, (Sys.next_step a act b h1 h2 hs).1⟩
  · rintro a act b ⟨h1, h2⟩ hs
    exact (Sys.next_step a act b h1 h2 hs).2

theorem Sys.Inv.used_le (hi : s.Inv heapStart heapSize) (hd : s.init = .done) :
    s.mem.used ≤ s.mem.capacity := by
  obtain ⟨_, hend, _, _, hhi⟩ := hi.at_done hd
  show s.mem.next - s.mem.start ≤ s.mem.end_ - s.mem.start
  omega

/-! ## a call without interference -/

/-- thread `t` is inside the call `alloc(l)` that it started in `s`, and nobody else has moved -/
structure Solo (s : Sys) (t : Nat) (l : Layout) (m : Sys) : Prop where
  mem : m.mem = s.mem
  rets : m.rets = s.rets
  pc : m.pc t = .loadEnd l ∨ m.pc t = .loadNext l s.mem.end_ ∨
    ∃ aligned allocationEnd, attempt l s.mem.end_ s.mem.next = some (aligned, allocationEnd) ∧
      m.pc t = .compareExchange l s.mem.end_ s.mem.next aligned allocationEnd

/-- one access of a lone call stays in the call, or returns what the attempt says -/
theorem Solo.step {t : Nat} {l : Layout} {m m' : Sys} {spurious : Bool} (hs : Solo s t l m)
    (h : m.accessStep t spurious = some m') :
    Solo s t l m' ∨ (m'.pc t = .idle ∧ ∃ r, m'.rets = s.rets ++ [r] ∧ r.l = l ∧
      ((r.ptr = 0 ∧ attempt l s.mem.end_ s.mem.next = none) ∨
        ∃ allocationEnd, attempt l s.mem.end_ s.mem.next = some (r.ptr, allocationEnd))) := by
  obtain ⟨hmem, hrets, hpc⟩ := hs
  rcases Sys.accessStep_cases h with ⟨l', hpc', rfl⟩ | ⟨l', end_, hpc', ha, rfl⟩ |
    ⟨l', end_, aligned, allocationEnd, hpc', ha, rfl⟩ |
    ⟨l', end_, current, aligned, allocationEnd, hpc', rfl⟩ |
    ⟨l', end_, aligned, allocationEnd, b, hsp, hpc', rfl⟩
  · simp only [hpc', AllocPc.loadEnd.injEq, reduceCtorEq, and_false, exists_false, or_false] at hpc
    subst hpc
    exact .inl ⟨hmem, hrets, .inr (.inl (by simp [hmem]))⟩
  · simp only [hpc', AllocPc.loadNext.injEq, reduceCtorEq, and_false, exists_false, or_false,
      false_or] at hpc
    obtain ⟨rfl, rfl⟩ := hpc
    rw [hmem] at ha
    exact .inr ⟨by simp, _, by rw [← hrets], rfl, .inl ⟨rfl, ha⟩⟩
  · simp only [hpc', AllocPc.loadNext.injEq, reduceCtorEq, and_false, exists_false, or_false,
      false_or] at hpc
    obtain ⟨rfl, rfl⟩ := hpc
    rw [hmem] at ha
    exact .inl ⟨hmem, hrets, .inr (.inr ⟨aligned, allocationEnd, ha, by simp [hmem]⟩)⟩
  · simp only [hpc', reduceCtorEq, AllocPc.compareExchange.injEq, false_or] at hpc
    obtain ⟨a, e, ha, rfl, rfl, rfl, rfl, rfl⟩ := hpc
    exact .inl ⟨hmem, hrets, .inr (.inl (by simp))⟩
  · simp only [hpc', reduceCtorEq, AllocPc.compareExchange.injEq, false_or] at hpc
    obtain ⟨a, e, ha, rfl, rfl, hnext, rfl, rfl⟩ := hpc
    exact .inr ⟨by simp, _, by rw [← hrets], rfl, .inr ⟨_, ha⟩⟩

theorem access_idle {m : Sys} {t : Nat} (hpc : m.pc t = .idle) (spurious : Bool) :
    m.accessStep t spurious = none := by
  simp [Sys.accessStep, hpc, access]

/-- **A lone call returns what its first attempt says**, whatever the weak compare-exchange does. -/
theorem solo_run {t : Nat} {l : Layout} (spurs : List Bool) : ∀ (m m' : Sys) (r : Ret),
    Solo s t l m →
    Steps.run (Sys.step heapStart heapSize) m (spurs.map (Act.access t)) = some m' →
    m'.rets = s.rets ++ [r] →
    r.l = l ∧ ((r.ptr = 0 ∧ attempt l s.mem.end_ s.mem.next = none) ∨
      ∃ allocationEnd, attempt l s.mem.end_ s.mem.next = some (r.ptr, allocationEnd)) := by
  induction spurs with
  | nil =>
    intro m m' r hs h hr
    obtain rfl := Option.some.inj h
    rw [hs.rets] at hr
    exact absurd (congrArg List.length hr) (by simp)
  | cons b spurs ih =>
    intro m m' r hs h hr
    obtain ⟨k, h1, h2⟩ := (Steps.run_cons_iff _ m m' _ _).mp h
    rcases hs.step h1 with hk | ⟨hidle, r', hr', hl, hres⟩
    · exact ih k m' r hk h2 hr
    · cases spurs with
      | nil =>
        obtain rfl := Option.some.inj h2
        obtain rfl : r' = r := by simpa using hr'.symm.trans hr
        exact ⟨hl, hres⟩
      | cons b' spurs =>
        obtain ⟨k', h3, _⟩ := (Steps.run_cons_iff _ k m' _ _).mp h2
        exact absurd ((access_idle hidle b').symm.trans h3) (by simp)

/-- a lone call whose compare-exchange is not failed spuriously returns after at most three
accesses -/
theorem solo_returns {t : Nat} (l : Layout) (hidle : s.pc t = .idle) :
    ∃ n ≤ 3, ∃ s' r, Steps.run (Sys.step heapStart heapSize) s
      (.call t l :: List.replicate n (.access t false)) = some s' ∧ s'.rets = s.rets ++ [r] := by
  cases ha : attempt l s.mem.end_ s.mem.next with
  | none =>
    refine ⟨2, by norm_num, ?_⟩
    simp [Steps.run, List.replicate, Sys.step, hidle, Sys.accessStep, access, ha]
  | some p =>
    obtain ⟨aligned, allocationEnd⟩ := p
    refine ⟨3, le_rfl, ?_⟩
    simp [Steps.run, List.replicate, Sys.step, hidle, Sys.accessStep, access, ha]

theorem solo_call {t : Nat} (l : Layout) (hidle : s.pc t = .idle) :
    ∃ m, Sys.step heapStart heapSize s (.call t l) = some m ∧ Solo s t l m := by
  refine ⟨{ s with pc := Function.update s.pc t (.loadEnd l) }, ?_, ⟨rfl, rfl, .inl (by simp)⟩⟩
  simp [Sys.step, hidle]

end

/-- **a call without interference returns null exactly when the allocation does not fit** -/
theorem Sys.Inv.solo_null_iff {heapStart heapSize : Nat} {s s' : Sys} (hi : s.Inv heapStart heapSize)
    (hd : s.init = .done) (hpos : 0 < heapStart) {t : Nat} {l : Layout} (hidle : s.pc t = .idle)
    {spurs : List Bool} {r : Ret}
    (hrun : Steps.run (Sys.step heapStart heapSize) s (.call t l :: spurs.map (Act.access t)) = some s')
    (hr : s'.rets = s.rets ++ [r]) :
    r.ptr = 0 ↔ heapStart + heapSize < Word.roundUp s.mem.next l.align + l.size := by
  obtain ⟨m, hcall, hsolo⟩ : ∃ m, Sys.step heapStart heapSize s (.call t l) = some m ∧
    Solo s t l m := solo_call l hidle
  obtain ⟨m', h1, h2⟩ := (Steps.run_cons_iff _ s s' _ _).mp hrun
  obtain rfl : m = m' := Option.some.inj (hcall.symm.trans h1)
  obtain ⟨_, hres⟩ := solo_run spurs m s' r hsolo h2 hr
  obtain ⟨_, hend, hlt, hlo, _⟩ := hi.at_done hd
  have hnext : s.mem.next ≠ 0 := by omega
  have hle := Word.le_roundUp s.mem.next l.align_pos
  rw [attempt_eq l s.mem.end_ s.mem.next hi.end_lt, hend] at hres
  simp only [hnext, false_or] at hres
  by_cases hfull : heapStart + heapSize < Word.roundUp s.mem.next l.align + l.size
  · rw [if_pos hfull] at hres
    rcases hres with ⟨h0, _⟩ | ⟨_, he⟩
    · exact iff_of_true h0 hfull
    · cases he
  · rw [if_neg hfull] at hres
    rcases hres with ⟨_, h0⟩ | ⟨_, he⟩
    · cases h0
    · obtain ⟨hp, _⟩ := Prod.mk.inj (Option.some.inj he)
      exact iff_of_false (by omega) hfull

/-- **The bump allocator is sound under every interleaving.**  In every run of one
`init(heapStart, heapSize)` and any number of `alloc` calls, interleaved at their atomic accesses:
every pointer handed out is aligned and its range lies in the heap; the ranges of two successful
calls are disjoint; a call that returned null changed no field; and after `init`, `next` never goes
back, `used() ≤ capacity()`, and a call that is not interfered with returns, and returns null exactly
when the rounded-up allocation does not fit. -/
theorem bump_allocator_sound (heapStart heapSize : Nat) (hpos : 0 < heapStart) (as : List Act)
    (s : Sys) (h : Steps.run (Sys.step heapStart heapSize) Sys.boot as = some s) :
    (∀ r ∈ s.rets, r.ptr ≠ 0 → r.ptr % r.l.align = 0 ∧ heapStart ≤ r.ptr ∧
      r.ptr + r.l.size ≤ heapStart + heapSize) ∧
    s.rets.Pairwise (fun a b => a.ptr ≠ 0 → b.ptr ≠ 0 →
      Disjoint (Set.Ico a.ptr (a.ptr + a.l.size)) (Set.Ico b.ptr (b.ptr + b.l.size))) ∧
    (∀ r ∈ s.rets, r.ptr = 0 → r.touched = false) ∧
    (s.init = .done → s.mem.used ≤ s.mem.capacity ∧
      (∀ bs s', Steps.run (Sys.step heapStart heapSize) s bs = some s' →
        s'.init = .done ∧ s.mem.next ≤ s'.mem.next ∧ s'.mem.used ≤ s'.mem.capacity) ∧
      ∀ t l, s.pc t = .idle →
        (∃ n ≤ 3, ∃ s' r, Steps.run (Sys.step heapStart heapSize) s
          (.call t l :: List.replicate n (.access t false)) = some s' ∧ s'.rets = s.rets ++ [r]) ∧
        ∀ (spurs : List Bool) s' r, Steps.run (Sys.step heapStart heapSize) s
            (.call t l :: spurs.map (Act.access t)) = some s' → s'.rets = s.rets ++ [r] →
          (r.ptr = 0 ↔ heapStart + heapSize < Word.roundUp s.mem.next l.align + l.size)) := by
  have hi := Sys.inv_run as h
  refine ⟨?_, ?_, fun r hr => (hi.rets r hr).1, fun hd => ⟨hi.used_le hd, ?_, ?_⟩⟩
  · intro r hr hne
    obtain ⟨hd, hal, hlo, hle⟩ := (hi.rets r hr).2 hne
    obtain ⟨_, _, _, _, hhi⟩ := hi.at_done hd
    exact ⟨hal, hlo, by omega⟩
  · apply hi.order.imp
    intro a b hab ha hb
    rw [Set.Ico_disjoint_Ico]
    exact le_trans (min_le_left _ _) (le_trans (hab ha hb) (le_max_right _ _))
  · intro bs s' hrun
    obtain ⟨hi', hd'⟩ := Sys.done_run bs hi hd hrun
    exact ⟨hd', Sys.next_run bs hi hd hrun, hi'.used_le hd'⟩
  · intro t l hidle
    refine ⟨solo_returns l hidle, ?_⟩
    exact fun spurs s' r hrun hr => hi.solo_null_iff hd hpos hidle hrun hr

/-- two interleaved calls, one of them started before `init`, on a heap of 64 bytes at 16 -/
def lateInit : List Act :=
  let word : Layout := ⟨8, 8, by norm_num, 3, by norm_num⟩
  [.call 1 word, .access 1 false, .init, .init, .init, .init, .access 1 false, .call 1 word,
    .call 2 word, .access 1 false, .access 2 false, .access 1 false, .access 2 false,
    .access 2 false, .access 1 false, .access 1 false, .access 1 true, .access 1 false,
    .access 1 false]

theorem bump_allocator_sound_late_init :
    ∃ s, Steps.run (Sys.step 16 64) Sys.boot lateInit = some s ∧
      s.rets.map (fun r => r.ptr) = [0, 16, 24] ∧ s.mem.used ≤ s.mem.capacity := by
  refine ⟨_, rfl, ?_⟩
  exact ⟨rfl, ((bump_allocator_sound 16 64 (by norm_num) lateInit _ rfl).2.2.2 rfl).1⟩

end Memory
end SolOs
