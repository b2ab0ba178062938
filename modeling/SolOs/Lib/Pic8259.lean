import Mathlib

/-!
# The 8259A interrupt controller

One chip as its two ports see it, and two chips of which the second one is wired to line 2 of the first.
Of the commands there are the initialization and the end of interrupt that names no line; the other ones
leave the registers as they are.  A request that is withdrawn is forgotten; if the processor has seen it already,
the chip answers as for line 7, and nothing comes into service.

* `Regs.command`, `Regs.data`      a byte at one of the ports;
* `Chip.pending`                   the line for which the chip interrupts: the highest one that requests, is not
                                   masked and has nothing of its own or a higher level in service;
* `Pair.requests`                  the processor is asked to interrupt;
* `Pair.acknowledge`               it does, and gets the vector;
* `Pair.acknowledge_of_masked`     the answer of the first chip alone, with the default of a withdrawn request;
* `only line`                      the lines in service, at most one;
* `Regs.command_eoi`               an end of interrupt finishes the only line in service.
-/

namespace Pic8259

/-- the lines have numerals -/
scoped instance eight_neZero : NeZero 8 := ⟨by decide⟩

/-- what the next byte at the data port is -/
inductive Expects where
  | mask
  | offset
  | wiring
  | mode
  deriving DecidableEq

structure Regs where
  offset : UInt8
  mask : UInt8
  service : Fin 8 → Bool
  expects : Expects
  single : Bool
  fourth : Bool
  wiring : UInt8
  mode : UInt8

namespace Regs
variable (r : Regs)

def highest : Option (Fin 8) := (List.finRange 8).find? r.service

/-- a set bit 4 starts the initialization -/
def command (v : UInt8) : Regs :=
  if v &&& 0x10 ≠ 0 then
    { r with mask := 0, service := fun _ => false, expects := .offset,
             single := decide (v &&& 0x02 ≠ 0), fourth := decide (v &&& 0x01 ≠ 0) }
  else if v &&& 0xf8 = 0x20 then
    { r with service := fun i => r.service i && decide (r.highest ≠ some i) }
  else r

/-- the words of the initialization come in turn; outside of it the byte is the mask -/
def data (v : UInt8) : Regs :=
  match r.expects with
  | .mask => { r with mask := v }
  | .offset =>
    { r with offset := v &&& 0xf8, expects := if r.single then (if r.fourth then .mode else .mask) else .wiring }
  | .wiring => { r with wiring := v, expects := if r.fourth then .mode else .mask }
  | .mode => { r with mode := v, expects := .mask }

def masked (i : Fin 8) : Bool := r.mask.toNat.testBit i

/-- the end of interrupt is automatic when bit 1 of the mode is set -/
def serve (i : Fin 8) : Regs :=
  if r.mode &&& 0x02 = 0 then { r with service := Function.update r.service i true } else r

end Regs

/-- `request` are the lines that wait for the processor -/
structure Chip where
  regs : Regs
  request : Fin 8 → Bool

namespace Chip
variable (c : Chip)

def blocked (i : Fin 8) : Bool := (List.finRange 8).any fun j => decide (j ≤ i) && c.regs.service j

def pending : Option (Fin 8) :=
  ((List.finRange 8).find? fun i => c.request i && !c.regs.masked i).filter fun i => !c.blocked i

def acknowledge (i : Fin 8) : Chip := ⟨c.regs.serve i, Function.update c.request i false⟩

/-- the initialization also forgets the requests -/
def command (v : UInt8) : Chip :=
  ⟨c.regs.command v, if v &&& 0x10 ≠ 0 then fun _ => false else c.request⟩

def data (v : UInt8) : Chip := { c with regs := c.regs.data v }

end Chip

/-- the ports of the two chips -/
inductive Port where
  | masterCommand
  | masterData
  | slaveCommand
  | slaveData

structure Pair where
  master : Chip
  slave : Chip

namespace Pair
variable (p : Pair)

def write (port : Port) (v : UInt8) : Pair :=
  match port with
  | .masterCommand => { p with master := p.master.command v }
  | .masterData => { p with master := p.master.data v }
  | .slaveCommand => { p with slave := p.slave.command v }
  | .slaveData => { p with slave := p.slave.data v }

/-- a device raises or lowers its line -/
def line (onSlave : Bool) (i : Fin 8) (level : Bool) : Pair :=
  if onSlave then { p with slave := { p.slave with request := Function.update p.slave.request i level } }
  else { p with master := { p.master with request := Function.update p.master.request i level } }

/-- the first chip with the second one at its line 2 -/
def wired : Chip := { p.master with request := Function.update p.master.request 2 p.slave.pending.isSome }

/-- the line from the first chip to the processor -/
def requests : Bool := p.wired.pending.isSome

/-- the line that a chip answers for; without a request it is the last one, and nothing comes into service -/
def acknowledge : UInt8 × Pair :=
  match p.wired.pending with
  | none => (p.master.regs.offset + 7, p)
  | some i =>
    if i = 2 then
      match p.slave.pending with
      | none => (p.slave.regs.offset + 7, { p with master := p.master.acknowledge 2 })
      | some j => (p.slave.regs.offset + UInt8.ofNat j, ⟨p.master.acknowledge 2, p.slave.acknowledge j⟩)
    else (p.master.regs.offset + UInt8.ofNat i, { p with master := p.master.acknowledge i })

end Pair

/-! ## one line in service -/

def only (line : Option (Fin 8)) : Fin 8 → Bool := fun i => decide (line = some i)

theorem update_only_none (i : Fin 8) : Function.update (only none) i true = only (some i) := by
  funext j
  rw [Function.update_apply]
  by_cases hj : j = i
  · rw [if_pos hj, hj]
    exact (decide_eq_true rfl).symm
  · rw [if_neg hj]
    exact (decide_eq_false fun he => hj (Option.some.inj he).symm).symm

theorem Regs.highest_only (r : Regs) (i : Fin 8) (h : r.service = only (some i)) : r.highest = some i := by
  rw [Regs.highest, h]
  clear h
  revert i
  decide

/-- **an end of interrupt finishes the only line in service** -/
theorem Regs.command_eoi (r : Regs) (i : Fin 8) (h : r.service = only (some i)) :
    r.command 0x20 = { r with service := only none } := by
  have hfinished : (fun j => r.service j && decide (r.highest ≠ some j)) = only none := by
    funext j
    rw [r.highest_only i h, h]
    by_cases hj : i = j
    · simp [only, hj]
    · simp [only, hj]
  show { r with service := fun j => r.service j && decide (r.highest ≠ some j) } = _
  rw [hfinished]

theorem Regs.serve_only (r : Regs) (i : Fin 8) (hmode : r.mode &&& 0x02 = 0) (h : r.service = only none) :
    r.serve i = { r with service := only (some i) } := by
  rw [Regs.serve, if_pos hmode, h, update_only_none]

/-! ## which line interrupts -/

section
variable {c : Chip} {i : Fin 8}

theorem Chip.request_of_pending (h : c.pending = some i) : c.request i = true ∧ c.regs.masked i = false := by
  obtain ⟨hfind, _⟩ := Option.filter_eq_some_iff.mp h
  have hi := List.find?_some hfind
  rw [Bool.and_eq_true, Bool.not_eq_true'] at hi
  exact hi

theorem Chip.blocked_of_none (h : c.regs.service = only none) (i : Fin 8) : c.blocked i = false := by
  simp [Chip.blocked, h, only]

theorem Chip.pending_isSome (h : c.regs.service = only none) :
    c.pending.isSome = true ↔ ∃ i, c.request i = true ∧ c.regs.masked i = false := by
  constructor
  · intro hsome
    obtain ⟨i, hi⟩ := Option.isSome_iff_exists.mp hsome
    exact ⟨i, Chip.request_of_pending hi⟩
  · rintro ⟨i, hi, hm⟩
    have hfind : ((List.finRange 8).find? fun i => c.request i && !c.regs.masked i).isSome = true := by
      rw [List.find?_isSome]
      exact ⟨i, List.mem_finRange i, by rw [hi, hm]; rfl⟩
    obtain ⟨j, hj⟩ := Option.isSome_iff_exists.mp hfind
    rw [Chip.pending, hj, Option.filter_some, Chip.blocked_of_none h]
    rfl

/-- the requests are served by priority -/
theorem Chip.pending_eq (h : c.regs.service = only none) (hi : c.request i = true)
    (hmask : c.regs.masked i = false) (hbefore : ∀ j < i, c.request j = false ∨ c.regs.masked j = true) :
    c.pending = some i := by
  have hfind : (List.finRange 8).find? (fun i => c.request i && !c.regs.masked i) = some i := by
    rw [List.find?_eq_some_iff_getElem]
    refine ⟨by rw [hi, hmask]; rfl, i, by simp, by simp, ?_⟩
    intro j hj
    obtain hj' | hj' := hbefore ⟨j, hj.trans i.isLt⟩ hj
    · simp [hj']
    · simp [hj']
  rw [Chip.pending, hfind, Option.filter_some, Chip.blocked_of_none h]
  rfl

end

section
variable {p : Pair}

/-- a masked second chip is not heard -/
theorem Pair.wired_request (hmask : p.master.regs.masked 2 = true) {i : Fin 8} (hi : p.master.regs.masked i = false) :
    p.wired.request i = p.master.request i := by
  have hne : i ≠ 2 := by
    rintro rfl
    exact Bool.noConfusion (hi.symm.trans hmask)
  exact Function.update_of_ne hne _ _

theorem Pair.requests_iff (hmask : p.master.regs.masked 2 = true) (h : p.master.regs.service = only none) :
    p.requests = true ↔ ∃ i, p.master.request i = true ∧ p.master.regs.masked i = false := by
  refine (Chip.pending_isSome (c := p.wired) h).trans ?_
  constructor
  · rintro ⟨i, hi, hm⟩
    exact ⟨i, (Pair.wired_request hmask hm).symm.trans hi, hm⟩
  · rintro ⟨i, hi, hm⟩
    exact ⟨i, (Pair.wired_request hmask hm).trans hi, hm⟩

/-- **the answer of the first chip**: a line that requests, or the default -/
theorem Pair.acknowledge_of_masked (hmask : p.master.regs.masked 2 = true) :
    p.requests = false ∧ p.acknowledge = (p.master.regs.offset + 7, p) ∨
      ∃ i, p.requests = true ∧ p.master.request i = true ∧ p.master.regs.masked i = false ∧
        p.acknowledge = (p.master.regs.offset + UInt8.ofNat i, { p with master := p.master.acknowledge i }) := by
  unfold Pair.acknowledge Pair.requests
  cases hi : p.wired.pending with
  | none => exact .inl ⟨rfl, rfl⟩
  | some i =>
    obtain ⟨hrequest, hunmasked⟩ := Chip.request_of_pending hi
    change p.master.regs.masked i = false at hunmasked
    have hne : i ≠ 2 := by
      rintro rfl
      exact Bool.noConfusion (hunmasked.symm.trans hmask)
    refine .inr ⟨i, rfl, (Pair.wired_request hmask hunmasked).symm.trans hrequest, hunmasked, ?_⟩
    dsimp only
    rw [if_neg hne]

/-- the highest line of all -/
theorem Pair.acknowledge_zero (h : p.master.regs.service = only none) (hrequest : p.master.request 0 = true)
    (hmask : p.master.regs.masked 0 = false) :
    p.requests = true ∧
      p.acknowledge = (p.master.regs.offset + 0, { p with master := p.master.acknowledge 0 }) := by
  have hpending : p.wired.pending = some 0 := by
    apply Chip.pending_eq (c := p.wired) h
    · rw [Pair.wired]
      dsimp only
      rw [Function.update_of_ne (by decide)]
      exact hrequest
    · exact hmask
    · intro j hj
      exact absurd hj (Fin.not_lt_zero j)
  rw [Pair.requests, Pair.acknowledge, hpending]
  exact ⟨rfl, rfl⟩

end

end Pic8259
