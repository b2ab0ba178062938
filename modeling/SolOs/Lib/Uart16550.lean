import Mathlib

/-!
# The transmitter of a 16550

The registers that a driver programs, and the bytes on their way out.  The receiver is left out.

* `Settings.write`, `Uart.write`    a byte at one of the registers; with the divisor latch open the first two
                         registers are the divisor;
* `Uart.shift`           the oldest byte goes over the line;
* `Uart.line`            everything that was accepted: what went over the line, and what is still to go;
* `Uart.status_empty`    the status bit of an empty transmitter;
* `Uart.write_empty`     a byte that is written into an empty transmitter is accepted.
-/

namespace Uart16550

inductive Register where
  | data
  | interruptEnable
  | fifoControl
  | lineControl
  | modemControl
  | lineStatus
  deriving DecidableEq

/-- the register behind a port -/
def Register.at : Nat → Option Register
  | 0 => some .data
  | 1 => some .interruptEnable
  | 2 => some .fifoControl
  | 3 => some .lineControl
  | 4 => some .modemControl
  | 5 => some .lineStatus
  | _ => none

structure Settings where
  divisorLow : UInt8
  divisorHigh : UInt8
  interruptEnable : UInt8
  fifoControl : UInt8
  lineControl : UInt8
  modemControl : UInt8
  deriving DecidableEq

namespace Settings
variable (s : Settings)

/-- the divisor latch is open -/
def latched : Bool := s.lineControl &&& 0x80 ≠ 0

/-- the bytes that the transmitter holds -/
def depth : Nat := if s.fifoControl &&& 0x01 ≠ 0 then 16 else 1

def write (v : UInt8) : Register → Settings
  | .data => if s.latched then { s with divisorLow := v } else s
  | .interruptEnable => if s.latched then { s with divisorHigh := v } else { s with interruptEnable := v &&& 0x0f }
  | .fifoControl => { s with fifoControl := v }
  | .lineControl => { s with lineControl := v }
  | .modemControl => { s with modemControl := v &&& 0x1f }
  | .lineStatus => s

theorem depth_pos : 0 < s.depth := by
  unfold depth
  split <;> decide

end Settings

structure Uart where
  settings : Settings
  queue : List UInt8
  sent : List UInt8

namespace Uart
variable (u : Uart)

/-- a byte for a full transmitter is lost; the first two bits of the FIFO control empty it -/
def write (v : UInt8) (register : Register) : Uart where
  settings := u.settings.write v register
  queue :=
    match register with
    | .data => if !u.settings.latched && u.queue.length < u.settings.depth then u.queue ++ [v] else u.queue
    | .fifoControl =>
      if v &&& 0x05 = 0x05 ∨ (v ^^^ u.settings.fifoControl) &&& 0x01 ≠ 0 then [] else u.queue
    | _ => u.queue
  sent := u.sent

def shift : Uart := { u with queue := u.queue.tail, sent := u.sent ++ u.queue.head?.toList }

def line : List UInt8 := u.sent ++ u.queue

/-- the line status; `other` are the bits that do not tell whether the transmitter is empty -/
def status (other : UInt8) : UInt8 := if u.queue = [] then other ||| 0x20 else other &&& 0xdf

theorem or_and_cancel (a b : UInt8) : (a ||| b) &&& b = b := by
  apply UInt8.toBitVec_inj.mp
  simp only [UInt8.toBitVec_and, UInt8.toBitVec_or]
  ext i hi
  simp only [BitVec.getElem_and, BitVec.getElem_or]
  cases b.toBitVec[i] <;> simp

theorem status_empty (other : UInt8) : u.status other &&& 0x20 ≠ 0 ↔ u.queue = [] := by
  unfold status
  by_cases h : u.queue = []
  · rw [if_pos h, or_and_cancel]
    exact iff_of_true (by decide) h
  · rw [if_neg h, UInt8.and_assoc]
    exact iff_of_false (fun hne => hne UInt8.and_zero) h

@[simp] theorem shift_settings : u.shift.settings = u.settings := rfl

theorem shift_line : u.shift.line = u.line := by
  unfold shift line
  cases u.queue with
  | nil => simp
  | cons b rest => simp

/-- any number of bytes -/
def shifts (n : Nat) : Uart := shift^[n] u

theorem shifts_settings (n : Nat) : (u.shifts n).settings = u.settings := by
  induction n generalizing u with
  | zero => rfl
  | succ n ih => exact (ih u.shift).trans u.shift_settings

theorem shifts_line (n : Nat) : (u.shifts n).line = u.line := by
  induction n generalizing u with
  | zero => rfl
  | succ n ih => exact (ih u.shift).trans u.shift_line

theorem shifts_queue (n : Nat) : (u.shifts n).queue = u.queue.drop n := by
  induction n generalizing u with
  | zero => rfl
  | succ n ih =>
    refine (ih u.shift).trans ?_
    show u.queue.tail.drop n = _
    rw [List.drop_tail]

/-- **a byte for an empty transmitter is accepted** -/
theorem write_empty (v : UInt8) (hlatch : u.settings.latched = false) (hqueue : u.queue = []) :
    u.write v .data = { u with queue := [v] } := by
  have hpos := u.settings.depth_pos
  simp [write, Settings.write, hlatch, hqueue, hpos]

end Uart

end Uart16550
