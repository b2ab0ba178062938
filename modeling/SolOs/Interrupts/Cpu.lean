import SolOs.Lib.Pic8259
import SolOs.Shell.Session

/-!
# Interrupts

`pic.rs`, `timer.rs`, the two handlers of `interrupts.rs` and the loop of the shell around them: the part of
the kernel from `initialize_hardware` on.  The processor takes one small step after the other, an access to a
port or to shared memory, and between any two of them a device may raise or lower its line and the processor
may take an interrupt, if the interrupt flag is set: it sees that the controllers request one, and then asks them
for the vector.  A device that lowers its line in between makes them answer with a vector that has no handler.

* `Hardware`, `Hardware.out`    the two interrupt controllers and the timer, as the ports see them;
* `Cpu`, `Cpu.step`             the processor, by accesses.  The frames are the handlers that were entered and have not
                                returned, the innermost first, each with the flag that it restores;
* `Mode`                        what the processor does, with the state of the controllers that goes with it;
* `Cpu.Inv`                     the invariant;
* `interrupt_discipline`        **only the two handlers run, one at a time, and each one exactly once**, unless a
                                request is withdrawn at the wrong moment, which stops the machine.
-/

set_option linter.unusedVariables false

namespace SolOs
namespace Interrupts
open Pic8259 Keyboard

/-! ## the ports -/

abbrev PortWrite := UInt16 × UInt8

def pic1Offset : UInt8 := 32
def pic2Offset : UInt8 := pic1Offset + 8
def timerInterruptId : UInt8 := pic1Offset
def keyboardInterruptId : UInt8 := pic1Offset + 1

/-- what the first controller answers when the request is gone -/
def defaultVector : UInt8 := pic1Offset + 7

def pic1Command : UInt16 := 0x20
def pic1Data : UInt16 := 0x21
def pic2Command : UInt16 := 0xa0
def pic2Data : UInt16 := 0xa1
def picEoi : UInt8 := 0x20

def ticksPerSecond : Nat := 100
def pitInputHz : Nat := 1193182
def pitCommand : UInt16 := 0x43
def pitChannel0 : UInt16 := 0x40

/-- `pic::initialize` -/
def picInitialize : List PortWrite :=
  [(pic1Command, 0x11), (pic2Command, 0x11), (pic1Data, pic1Offset), (pic2Data, pic2Offset),
    (pic1Data, 0x04), (pic2Data, 0x02), (pic1Data, 0x01), (pic2Data, 0x01),
    (pic1Data, 0xfc), (pic2Data, 0xff)]

def endOfInterrupt (interruptId : UInt8) : List PortWrite :=
  (if interruptId ≥ pic2Offset then [(pic2Command, picEoi)] else []) ++ [(pic1Command, picEoi)]

def divisor : UInt16 := UInt16.ofNat (pitInputHz / ticksPerSecond)

/-- `timer::initialize` -/
def timerInitialize : List PortWrite :=
  [(pitCommand, 0x36), (pitChannel0, (divisor &&& 0xff).toUInt8), (pitChannel0, (divisor >>> 8).toUInt8)]

/-! ## the devices -/

/-- channel 0 of the timer; `low` is the first byte of a divisor of which the second one has not come -/
structure Pit where
  control : UInt8
  low : Option UInt8
  reload : Nat

/-- commands for the other channels, and those that only latch the counter, change nothing here -/
def Pit.command (t : Pit) (v : UInt8) : Pit :=
  if v &&& 0xc0 ≠ 0 ∨ v &&& 0x30 = 0 then t else { t with control := v, low := none }

def Pit.data (t : Pit) (v : UInt8) : Pit :=
  if t.control &&& 0x30 = 0x30 then
    match t.low with
    | none => { t with low := some v }
    | some low => { t with low := none, reload := v.toNat * 256 + low.toNat }
  else if t.control &&& 0x30 = 0x10 then { t with reload := v.toNat }
  else { t with reload := v.toNat * 256 }

structure Hardware where
  pics : Pair
  pit : Pit

namespace Hardware
variable (h : Hardware)

def picPort (port : UInt16) : Option Port :=
  if port = pic1Command then some .masterCommand
  else if port = pic1Data then some .masterData
  else if port = pic2Command then some .slaveCommand
  else if port = pic2Data then some .slaveData
  else none

def out (w : PortWrite) : Hardware :=
  match picPort w.1 with
  | some port => { h with pics := h.pics.write port w.2 }
  | none =>
    if w.1 = pitCommand then { h with pit := h.pit.command w.2 }
    else if w.1 = pitChannel0 then { h with pit := h.pit.data w.2 }
    else h

/-- the registers, without the requests -/
def quiet : Hardware :=
  ⟨⟨⟨h.pics.master.regs, fun _ => false⟩, ⟨h.pics.slave.regs, fun _ => false⟩⟩, h.pit⟩

end Hardware

/-! ## the processor -/

/-- what comes next in a handler; `eoi` has the port writes that are left of `end_of_interrupt` -/
inductive Handler where
  | tick
  | read
  | decode (scancode : UInt8)
  | pushing
  | eoi (interruptId : UInt8) (rest : List PortWrite)

/-- the entries of the interrupt descriptor table from 32 on -/
def idt (vector : UInt8) : Option Handler :=
  if vector = timerInterruptId then some .tick
  else if vector = keyboardInterruptId then some .read
  else none

/-- what comes next outside of the handlers.  The shell takes events from the queue until `pop` returns
`None`; then it is about to park, with `enable_and_hlt`.  A vector without an entry in the table is a fault, for
which there is no entry either: the handler of the double fault prints and halts for good. -/
inductive Main where
  | hardware (rest : List PortWrite)
  | shell
  | parking
  | halted
  | off
  | fault

/-- `sampled`: the processor has seen a request and is about to ask for the vector.  `delivered`, `bytes` and
`looked` are histories: the vectors that the processor took, the bytes that the keyboard handler decoded, and how
many events the queue had accepted when `pop` returned `None` -/
structure Cpu where
  hardware : Hardware
  interruptFlag : Bool
  main : Main
  frames : List (Handler × Bool)
  ticks : UInt64
  shell : Shell.Machine
  delivered : List UInt8
  bytes : List UInt8
  looked : Nat
  sampled : Bool

/-- at the call of `initialize_hardware`, with the controllers as the firmware left them -/
def Cpu.start (h : Hardware) : Cpu :=
  ⟨h, false, .hardware (picInitialize ++ timerInitialize), [], 0, .init, [], [], 0, false⟩

/-- a device changes its line; the processor sees a request; it asks for the vector; or it goes on by one access of
the program, where the access that returns an event to the shell goes on to the end of the command.  `port60` is what
the data port of the keyboard controller returns if it is read. -/
inductive Event where
  | line (onSlave : Bool) (i : Fin 8) (level : Bool)
  | accept
  | acknowledge
  | proceed (now : Shell.Readings) (port60 : UInt8)

namespace Cpu

/-- a `hlt` ends with the interrupt -/
def wake : Main → Main
  | .halted => .shell
  | main => main

def accept (c : Cpu) : Option Cpu :=
  if c.interruptFlag = true ∧ c.sampled = false ∧ c.hardware.pics.requests = true then some { c with sampled := true }
  else none

def acknowledge (c : Cpu) : Option Cpu :=
  if c.sampled then
    let taken := c.hardware.pics.acknowledge
    let c' := { c with
      hardware := { c.hardware with pics := taken.2 }
      interruptFlag := false
      sampled := false
      delivered := c.delivered ++ [taken.1] }
    match idt taken.1 with
    | some handler => some { c' with main := wake c.main, frames := (handler, c.interruptFlag) :: c.frames }
    | none => some { c' with main := .fault }
  else none

/-- a step of the innermost handler; the outer ones are `frames` -/
def handlerStep (c : Cpu) (flag : Bool) (frames : List (Handler × Bool)) (port60 : UInt8) : Handler → Option Cpu
  | .tick =>
    some { c with ticks := c.ticks + 1, frames := (.eoi timerInterruptId (endOfInterrupt timerInterruptId), flag) :: frames }
  | .read => some { c with frames := (.decode port60, flag) :: frames }
  | .decode scancode =>
    (c.shell.scancode scancode).map fun shell =>
      { c with shell := shell, bytes := c.bytes ++ [scancode], frames := (.pushing, flag) :: frames }
  | .pushing =>
    match c.shell.queue.push with
    | .idle =>
      some { c with frames := (.eoi keyboardInterruptId (endOfInterrupt keyboardInterruptId), flag) :: frames }
    | _ => c.shell.queue.producer.map fun queue => { c with shell := { c.shell with queue := queue } }
  | .eoi id (w :: rest) => some { c with hardware := c.hardware.out w, frames := (.eoi id rest, flag) :: frames }
  | .eoi _ [] => some { c with interruptFlag := flag, frames := frames }

section
variable (fs : Fat.Fat32) (system : Shell.SystemInfo)

/-- the shell after an access to the queue: `pop` has returned `None`, or a command does not return, or it
goes on -/
def afterAccess (c : Cpu) (shell : Shell.Machine) : Cpu :=
  match c.shell.queue.pop, shell.queue.pop with
  | .loadHead _, .idle =>
    { c with shell := shell, main := .parking, looked := (accepted shell.queue.done).length }
  | _, _ =>
    match shell.shell with
    | .waiting _ => { c with shell := shell }
    -- `halt`, `reboot` and the panic handler clear the flag before they halt for good
    | _ => { c with shell := shell, main := .off, interruptFlag := false }

def mainStep (c : Cpu) (now : Shell.Readings) : Option Cpu :=
  match c.main with
  | .hardware (w :: rest) => some { c with hardware := c.hardware.out w, main := .hardware rest }
  | .hardware [] => some { c with interruptFlag := true, main := .shell }
  | .shell => (c.shell.consumer fs system now).map c.afterAccess
  | .parking => some { c with interruptFlag := true, main := .halted }
  | .halted | .off | .fault => none

def step (c : Cpu) : Event → Option Cpu
  | .line onSlave i level =>
    some { c with hardware := { c.hardware with pics := c.hardware.pics.line onSlave i level } }
  | .accept => c.accept
  | .acknowledge => c.acknowledge
  | .proceed now port60 =>
    if c.sampled then none
    else
      match c.frames with
      | (handler, flag) :: frames => c.handlerStep flag frames port60 handler
      | [] => c.mainStep fs system now

end

end Cpu

/-! ## the controllers after the initialization -/

/-- programmed, with at most one line in service -/
def ready (line : Option (Fin 8)) : Hardware where
  pics :=
    { master := ⟨⟨32, 0xfc, only line, .mask, false, true, 0x04, 0x01⟩, fun _ => false⟩
      slave := ⟨⟨40, 0xff, only none, .mask, false, true, 0x02, 0x01⟩, fun _ => false⟩ }
  pit := ⟨0x36, none, 11931⟩

theorem timerInitialize_eq :
    timerInitialize = [(pitCommand, 0x36), (pitChannel0, 0x9b), (pitChannel0, 0x2e)] := by
  decide

/-- the command also drops half a divisor -/
theorem Pit.reprogrammed (t : Pit) : ((t.command 0x36).data 0x9b).data 0x2e = ⟨0x36, none, 11931⟩ := by
  have hcommand : t.command 0x36 = ⟨0x36, none, t.reload⟩ := rfl
  have haccess : (0x36 : UInt8) &&& 0x30 = 0x30 := by decide
  rw [hcommand]
  simp [Pit.data, haccess]

/-- from any state of the devices -/
theorem programmed (h : Hardware) :
    ((picInitialize ++ timerInitialize).foldl Hardware.out h).quiet = ready none := by
  have hpics : (picInitialize.foldl Hardware.out h).quiet = { ready none with pit := h.pit } := rfl
  rw [timerInitialize_eq, List.foldl_append]
  generalize picInitialize.foldl Hardware.out h = g at hpics
  show { g.quiet with pit := ((g.pit.command 0x36).data 0x9b).data 0x2e } = ready none
  rw [Pit.reprogrammed, hpics]
  rfl

namespace Hardware
variable {h h' : Hardware}

theorem quiet_line (h : Hardware) (onSlave : Bool) (i : Fin 8) (level : Bool) :
    Hardware.quiet { h with pics := h.pics.line onSlave i level } = h.quiet := by
  cases onSlave <;> rfl

/-- what a port write does to the registers does not depend on the requests -/
theorem quiet_out (w : PortWrite) : (h.out w).quiet = (h.quiet.out w).quiet := by
  unfold Hardware.out
  cases picPort w.1 with
  | none =>
    dsimp only
    split_ifs <;> rfl
  | some port => cases port <;> rfl

theorem quiet_foldl (writes : List PortWrite) (hq : h.quiet = h'.quiet) :
    (writes.foldl Hardware.out h).quiet = (writes.foldl Hardware.out h').quiet := by
  induction writes generalizing h h' with
  | nil => exact hq
  | cons w writes ih =>
    apply ih
    rw [quiet_out, hq, ← quiet_out]

end Hardware

/-- the end of interrupt -/
theorem ready_eoi {h : Hardware} {i : Fin 8} (hq : h.quiet = ready (some i)) :
    (h.out (pic1Command, picEoi)).quiet = ready none := by
  rw [Hardware.quiet_out, hq]
  show Hardware.quiet ⟨⟨⟨(ready (some i)).pics.master.regs.command 0x20, _⟩, _⟩, _⟩ = _
  rw [Regs.command_eoi _ i rfl]
  rfl

theorem unmasked_iff : ∀ i : Fin 8, (ready none).pics.master.regs.masked i = false ↔ i = 0 ∨ i = 1 := by
  decide

section
variable {h : Hardware}

theorem ready_regs {line : Option (Fin 8)} (hq : h.quiet = ready line) :
    h.pics.master.regs = (ready line).pics.master.regs := by
  have hregs : h.quiet.pics.master.regs = (ready line).pics.master.regs := by rw [hq]
  exact hregs

theorem ready_masked (hq : h.quiet = ready none) : h.pics.master.regs.masked 2 = true := by
  rw [ready_regs hq]
  decide

/-- only the timer and the keyboard are heard -/
theorem ready_requests (hq : h.quiet = ready none) :
    h.pics.requests = true ↔ h.pics.master.request 0 = true ∨ h.pics.master.request 1 = true := by
  rw [Pair.requests_iff (ready_masked hq) (by rw [ready_regs hq]; rfl), ready_regs hq]
  constructor
  · rintro ⟨i, hi, hm⟩
    obtain rfl | rfl := (unmasked_iff i).mp hm
    · exact .inl hi
    · exact .inr hi
  · rintro (hi | hi)
    · exact ⟨0, hi, (unmasked_iff 0).mpr (.inl rfl)⟩
    · exact ⟨1, hi, (unmasked_iff 1).mpr (.inr rfl)⟩

/-- what the controllers answer -/
theorem ready_acknowledge (hq : h.quiet = ready none) :
    h.pics.requests = false ∧ h.pics.acknowledge = (defaultVector, h.pics) ∨
      ∃ (i : Fin 8) (pics : Pair), h.pics.requests = true ∧ (i = 0 ∨ i = 1) ∧
        h.pics.acknowledge = (pic1Offset + UInt8.ofNat i, pics) ∧
        Hardware.quiet { h with pics := pics } = ready (some i) := by
  have hregs := ready_regs hq
  obtain ⟨hnone, hack⟩ | ⟨i, hsome, _, hi, hack⟩ := Pair.acknowledge_of_masked (ready_masked hq)
  · left
    rw [hack, hregs]
    exact ⟨hnone, rfl⟩
  · right
    rw [hregs] at hi
    refine ⟨i, _, hsome, (unmasked_iff i).mp hi, by rw [hack, hregs]; rfl, ?_⟩
    have hserve := Regs.serve_only (ready none).pics.master.regs i rfl rfl
    show Hardware.quiet ⟨⟨⟨h.pics.master.regs.serve i, _⟩, h.quiet.pics.slave⟩, h.quiet.pit⟩ = _
    rw [hregs, hserve, hq]
    rfl

end

/-! ## the invariant -/

/-- the line that a handler serves, until its end of interrupt -/
def Handler.line : Handler → Option (Fin 8)
  | .tick => some 0
  | .read | .decode _ | .pushing => some 1
  | .eoi _ [] => none
  | .eoi id (_ :: _) => if id = timerInterruptId then some 0 else some 1

/-- one write is left of `end_of_interrupt`, or none -/
def Handler.Ok : Handler → Prop
  | .eoi _ rest => rest = [] ∨ rest = [(pic1Command, picEoi)]
  | _ => True

/-- what the processor does -/
inductive Mode : Main → List (Handler × Bool) → Bool → Hardware → Prop where
  | booting (rest : List PortWrite) (h : Hardware) (hrest : (rest.foldl Hardware.out h).quiet = ready none) :
      Mode (.hardware rest) [] false h
  | running (main : Main) (h : Hardware) (hmain : main = .shell ∨ main = .parking ∨ main = .halted)
      (hq : h.quiet = ready none) : Mode main [] true h
  | handling (main : Main) (handler : Handler) (h : Hardware) (hmain : main = .shell ∨ main = .parking)
      (hok : handler.Ok) (hq : h.quiet = ready handler.line) : Mode main [(handler, true)] false h
  | off (h : Hardware) (hq : h.quiet = ready none) : Mode .off [] false h
  | faulted (h : Hardware) (hq : h.quiet = ready none) : Mode .fault [] false h

/-- an interrupt has been taken, and its tick is still to come -/
def Handler.tickDue : Handler → Nat
  | .tick => 1
  | _ => 0

def Handler.byteDue : Handler → Nat
  | .read | .decode _ => 1
  | _ => 0

def due (f : Handler → Nat) (frames : List (Handler × Bool)) : Nat := (frames.map fun frame => f frame.1).sum

/-- the shell is about to halt, or has halted -/
def Main.Parked (main : Main) : Prop := main = .parking ∨ main = .halted

section
variable (fs : Fat.Fat32) (system : Shell.SystemInfo)

/-- the decoder, the queue and the shell after these bytes from the keyboard -/
def Reached (bytes : List UInt8) (m : Shell.Machine) : Prop :=
  ∃ inputs, Steps.run (Shell.Machine.step fs system) .init inputs = some m ∧ Shell.scancodes inputs = bytes

structure Cpu.Inv (c : Cpu) : Prop where
  mode : Mode c.main c.frames c.interruptFlag c.hardware
  sampled : c.sampled = true → c.interruptFlag = true
  vectors : ∀ v ∈ c.delivered, v = timerInterruptId ∨ v = keyboardInterruptId ∨ v = defaultVector
  fault : defaultVector ∈ c.delivered ↔ c.main = .fault
  ticks : c.ticks + UInt64.ofNat (due Handler.tickDue c.frames) = UInt64.ofNat (c.delivered.count timerInterruptId)
  bytes : c.bytes.length + due Handler.byteDue c.frames = c.delivered.count keyboardInterruptId
  reached : Reached fs system c.bytes c.shell
  pushing : c.shell.queue.push = .idle ∨ c.frames.map Prod.fst = [.pushing]
  waiting : c.main ≠ .off → ∃ s, c.shell.shell = .waiting s
  looked_le : c.looked ≤ (accepted c.shell.queue.done).length
  looked : c.main.Parked → c.shell.queue.pop = .idle ∧ c.looked = c.shell.queue.returned.length

end

section
variable {fs : Fat.Fat32} {system : Shell.SystemInfo} {c c' : Cpu}

theorem Cpu.inv_start (h : Hardware) : (Cpu.start h).Inv fs system where
  mode := .booting _ _ (programmed h)
  sampled := fun h => by cases h
  vectors := fun v hv => absurd hv List.not_mem_nil
  fault := iff_of_false List.not_mem_nil (by simp [Cpu.start])
  ticks := rfl
  bytes := rfl
  reached := ⟨[], rfl, rfl⟩
  pushing := .inl rfl
  waiting := fun _ => ⟨_, rfl⟩
  looked_le := Nat.zero_le _
  looked := fun h => by
    obtain h | h := h <;> cases h

theorem Reached.step {bytes : List UInt8} {m m' : Shell.Machine} (h : Reached fs system bytes m)
    (input : Shell.Input) (hm : m.step fs system input = some m') :
    Reached fs system (bytes ++ input.byte.toList) m' := by
  obtain ⟨inputs, hrun, rfl⟩ := h
  refine ⟨inputs ++ [input], ?_, Shell.scancodes_snoc inputs input⟩
  exact (Steps.run_snoc_iff _ _ _ _ _).mpr ⟨m, hrun, hm⟩

theorem Cpu.Inv.shell (h : c.Inv fs system) : c.shell.Inv := by
  obtain ⟨inputs, hrun, _⟩ := h.reached
  exact Steps.run_inv _ Shell.Machine.inv_step inputs _ _ Shell.Machine.inv_init hrun

/-! ## one step keeps it -/

theorem Cpu.Inv.line (h : c.Inv fs system) (onSlave : Bool) (i : Fin 8) (level : Bool) :
    Cpu.Inv fs system { c with hardware := { c.hardware with pics := c.hardware.pics.line onSlave i level } } := by
  have hq := c.hardware.quiet_line onSlave i level
  refine { h with mode := ?_ }
  obtain ⟨hardware, flag, main, frames, _⟩ := c
  cases h.mode with
  | booting rest _ hrest => exact .booting rest _ ((Hardware.quiet_foldl rest hq).trans hrest)
  | running _ _ hmain hready => exact .running main _ hmain (hq.trans hready)
  | handling _ handler _ hmain hok hready => exact .handling main handler _ hmain hok (hq.trans hready)
  | off _ hready => exact .off _ (hq.trans hready)
  | faulted _ hready => exact .faulted _ (hq.trans hready)

theorem Cpu.Inv.running (h : c.Inv fs system) (hflag : c.interruptFlag = true) :
    c.frames = [] ∧ (c.main = .shell ∨ c.main = .parking ∨ c.main = .halted) ∧ c.hardware.quiet = ready none := by
  obtain ⟨hardware, flag, main, frames, _⟩ := c
  cases h.mode with
  | running _ _ hmain hq => exact ⟨rfl, hmain, hq⟩
  | booting _ _ _ => cases hflag
  | handling _ _ _ _ _ _ => cases hflag
  | off _ _ => cases hflag
  | faulted _ _ => cases hflag

theorem Cpu.Inv.accept (h : c.Inv fs system) (hc : c.accept = some c') : c'.Inv fs system := by
  unfold Cpu.accept at hc
  rw [Option.ite_none_right_eq_some] at hc
  obtain ⟨⟨hflag, _, _⟩, hc⟩ := hc
  obtain rfl := Option.some.inj hc
  exact { h with sampled := fun _ => hflag }

/-- the processor after the acknowledge of a vector with this handler -/
def Cpu.entered (c : Cpu) (hardware : Hardware) (vector : UInt8) (handler : Handler) : Cpu :=
  { c with
    hardware := hardware
    interruptFlag := false
    sampled := false
    delivered := c.delivered ++ [vector]
    main := wake c.main
    frames := [(handler, true)] }

/-- the processor after the acknowledge of a request that is gone -/
def Cpu.misled (c : Cpu) : Cpu :=
  { c with interruptFlag := false, sampled := false, delivered := c.delivered ++ [defaultVector], main := .fault }

/-- an interrupt of the timer or of the keyboard, or a request that was withdrawn -/
theorem Cpu.acknowledge_eq (h : c.Inv fs system) (hc : c.acknowledge = some c') :
    (c.sampled = true ∧ c.interruptFlag = true) ∧
      (c.hardware.pics.requests = false ∧ c' = c.misled ∨
        c.hardware.pics.requests = true ∧ ∃ hardware handler vector,
          (vector = timerInterruptId ∧ handler = .tick ∨ vector = keyboardInterruptId ∧ handler = .read) ∧
          hardware.quiet = ready handler.line ∧ c' = c.entered hardware vector handler) := by
  unfold Cpu.acknowledge at hc
  rw [Option.ite_none_right_eq_some] at hc
  obtain ⟨hsampled, hc⟩ := hc
  have hflag := h.sampled hsampled
  refine ⟨⟨hsampled, hflag⟩, ?_⟩
  obtain ⟨hframes, _, hq⟩ := h.running hflag
  obtain ⟨hnone, hack⟩ | ⟨i, pics, hsome, hi, hack, hserve⟩ := ready_acknowledge hq
  · left
    rw [hack] at hc
    exact ⟨hnone, (Option.some.inj hc).symm⟩
  · right
    refine ⟨hsome, { c.hardware with pics := pics }, ?_⟩
    rw [hack, hflag, hframes] at hc
    obtain rfl | rfl := hi
    · exact ⟨.tick, _, .inl ⟨rfl, rfl⟩, hserve, (Option.some.inj hc).symm⟩
    · exact ⟨.read, _, .inr ⟨rfl, rfl⟩, hserve, (Option.some.inj hc).symm⟩

theorem wake_eq {main : Main} (h : main = .shell ∨ main = .parking ∨ main = .halted) :
    Cpu.wake main = .shell ∨ Cpu.wake main = .parking ∧ main = .parking := by
  obtain rfl | rfl | rfl := h
  · exact .inl rfl
  · exact .inr ⟨rfl, rfl⟩
  · exact .inl rfl

/-- while interrupts are enabled the machine is neither off nor faulted -/
theorem Cpu.Inv.alive (h : c.Inv fs system) (hflag : c.interruptFlag = true) :
    c.main ≠ .fault ∧ ∃ s, c.shell.shell = .waiting s := by
  obtain ⟨_, hmain, _⟩ := h.running hflag
  constructor
  · intro hfault
    rw [hfault] at hmain
    obtain hm | hm | hm := hmain <;> cases hm
  · apply h.waiting
    intro hoff
    rw [hoff] at hmain
    obtain hm | hm | hm := hmain <;> cases hm

/-- a step from one state without a fault to another -/
theorem Cpu.Inv.faultless (h : c.Inv fs system) (hmain : c.main ≠ .fault) {main : Main} (hne : main ≠ .fault) :
    defaultVector ∈ c.delivered ↔ main = .fault :=
  iff_of_false (fun hv => hmain (h.fault.mp hv)) hne

/-- a handler is entered -/
theorem Cpu.Inv.entered (h : c.Inv fs system) (hflag : c.interruptFlag = true) {hardware : Hardware}
    {handler : Handler} {vector : UInt8}
    (hvector : vector = timerInterruptId ∧ handler = .tick ∨ vector = keyboardInterruptId ∧ handler = .read)
    (hq : hardware.quiet = ready handler.line) : (c.entered hardware vector handler).Inv fs system := by
  obtain ⟨hframes, hmain, _⟩ := h.running hflag
  obtain ⟨hnofault, hwaiting⟩ := h.alive hflag
  have hticks := h.ticks
  have hbytes := h.bytes
  have hpushing := h.pushing
  rw [hframes] at hticks hbytes hpushing
  have hwake := wake_eq hmain
  refine
    { mode := ?_, sampled := fun hs => (Bool.false_ne_true hs).elim, vectors := ?_, fault := ?_, ticks := ?_,
      bytes := ?_, reached := h.reached, pushing := ?_, waiting := fun _ => hwaiting, looked_le := h.looked_le,
      looked := ?_ }
  · refine .handling _ handler hardware (hwake.imp_right And.left) ?_ hq
    obtain ⟨_, rfl⟩ | ⟨_, rfl⟩ := hvector <;> trivial
  · intro v hv
    obtain hv | hv := List.mem_append.mp hv
    · exact h.vectors v hv
    · rw [List.mem_singleton.mp hv]
      exact hvector.imp And.left fun hk => .inl hk.1
  · show defaultVector ∈ c.delivered ++ [vector] ↔ _
    have hne : defaultVector ≠ vector := by
      obtain ⟨rfl, _⟩ | ⟨rfl, _⟩ := hvector <;> decide
    rw [List.mem_append, List.mem_singleton, or_iff_left hne]
    refine h.faultless hnofault ?_
    intro hfault
    obtain hw | ⟨hw, _⟩ := hwake <;> cases hw.symm.trans hfault
  · obtain ⟨rfl, rfl⟩ | ⟨rfl, rfl⟩ := hvector
    · show c.ticks + UInt64.ofNat 1 = UInt64.ofNat (List.count _ (c.delivered ++ [timerInterruptId]))
      rw [List.count_append, UInt64.ofNat_add, ← hticks]
      simp [due]
    · show c.ticks + UInt64.ofNat 0 = UInt64.ofNat (List.count _ (c.delivered ++ [keyboardInterruptId]))
      rw [List.count_append]
      exact hticks
  · obtain ⟨rfl, rfl⟩ | ⟨rfl, rfl⟩ := hvector
    · show c.bytes.length + 0 = List.count _ (c.delivered ++ [timerInterruptId])
      rw [List.count_append, ← hbytes]
      rfl
    · show c.bytes.length + 1 = List.count _ (c.delivered ++ [keyboardInterruptId])
      rw [List.count_append, ← hbytes]
      rfl
  · exact hpushing.imp_right fun hp => absurd hp (by simp)
  · intro hparked
    obtain hw | ⟨_, hw⟩ := hwake
    · obtain hp | hp := hparked
      · cases hw.symm.trans hp
      · cases hw.symm.trans hp
    · exact h.looked (.inl hw)

/-- the request is gone: nothing comes into service, and no handler runs -/
theorem Cpu.Inv.misled (h : c.Inv fs system) (hflag : c.interruptFlag = true) : c.misled.Inv fs system := by
  obtain ⟨hframes, _, hq⟩ := h.running hflag
  obtain ⟨_, hwaiting⟩ := h.alive hflag
  have hcount : ∀ v, v ≠ defaultVector → (c.delivered ++ [defaultVector]).count v = c.delivered.count v := by
    intro v hv
    rw [List.count_append, List.count_singleton, if_neg (by simpa using hv.symm)]
    rfl
  refine { h with
    mode := ?_, sampled := fun hs => (Bool.false_ne_true hs).elim, vectors := ?_, fault := iff_of_true ?_ rfl,
    ticks := ?_, bytes := ?_, waiting := fun _ => hwaiting, looked := ?_ }
  · show Mode .fault c.frames false c.hardware
    rw [hframes]
    exact .faulted _ hq
  · intro v hv
    obtain hv | hv := List.mem_append.mp hv
    · exact h.vectors v hv
    · exact .inr (.inr (List.mem_singleton.mp hv))
  · exact List.mem_append_right _ (List.mem_singleton.mpr rfl)
  · show _ = UInt64.ofNat ((c.delivered ++ [defaultVector]).count timerInterruptId)
    rw [hcount _ (by decide)]
    exact h.ticks
  · show _ = (c.delivered ++ [defaultVector]).count keyboardInterruptId
    rw [hcount _ (by decide)]
    exact h.bytes
  · intro hparked
    obtain hp | hp := hparked <;> cases hp

theorem Cpu.Inv.acknowledge (h : c.Inv fs system) (hc : c.acknowledge = some c') : c'.Inv fs system := by
  obtain ⟨⟨_, hflag⟩, ⟨_, rfl⟩ | ⟨_, hardware, handler, vector, hvector, hq, rfl⟩⟩ := Cpu.acknowledge_eq h hc
  · exact h.misled hflag
  · exact h.entered hflag hvector hq

/-- a handler runs alone, with interrupts disabled -/
theorem Cpu.Inv.handling (h : c.Inv fs system) {handler : Handler} {flag : Bool} {frames : List (Handler × Bool)}
    (hc : c.frames = (handler, flag) :: frames) :
    frames = [] ∧ flag = true ∧ c.interruptFlag = false ∧ (c.main = .shell ∨ c.main = .parking) ∧ handler.Ok ∧
      c.hardware.quiet = ready handler.line := by
  obtain ⟨hardware, interruptFlag, main, frames', _⟩ := c
  subst hc
  cases h.mode with
  | handling _ _ _ hmain hok hq => exact ⟨rfl, rfl, rfl, hmain, hok, hq⟩

/-- the handler goes on; neither the controllers nor the queue have changed -/
theorem Cpu.Inv.goOn (h : c.Inv fs system) {before : Handler} (hc : c.frames = [(before, true)])
    (hidle : c.shell.queue.push = .idle) (after : Handler) (hok : after.Ok) (hline : after.line = before.line)
    (ticks : UInt64) (hticks : ticks + UInt64.ofNat after.tickDue = c.ticks + UInt64.ofNat before.tickDue)
    (hbytes : after.byteDue = before.byteDue) :
    Cpu.Inv fs system { c with ticks := ticks, frames := [(after, true)] } := by
  obtain ⟨_, _, hflag, hmain, _, hq⟩ := h.handling hc
  have hcount := h.ticks
  have hread := h.bytes
  rw [hc] at hcount hread
  refine { h with mode := ?_, ticks := hticks.trans hcount, bytes := ?_, pushing := .inl hidle }
  · show Mode c.main _ c.interruptFlag c.hardware
    rw [hflag]
    exact .handling _ after _ hmain hok (hline ▸ hq)
  · show c.bytes.length + after.byteDue = _
    rw [hbytes]
    exact hread

theorem Cpu.Inv.idle (h : c.Inv fs system) {handler : Handler} {flag : Bool} {frames : List (Handler × Bool)}
    (hc : c.frames = (handler, flag) :: frames) (hne : handler ≠ .pushing) : c.shell.queue.push = .idle := by
  refine h.pushing.resolve_right ?_
  intro hp
  rw [hc, List.map_cons, List.cons.injEq] at hp
  exact hne hp.1

/-- the handler has added to the queue -/
theorem Cpu.Inv.adds (h : c.Inv fs system) {handler : Handler} (hc : c.frames = [(handler, true)])
    (hline : handler.line = some 1) (htick : handler.tickDue = 0) {m : Shell.Machine} (hm : Shell.Adds c.shell m)
    {bytes : List UInt8} (hbytes : bytes.length = c.bytes.length + handler.byteDue)
    (hreached : Reached fs system bytes m) :
    Cpu.Inv fs system { c with shell := m, bytes := bytes, frames := [(.pushing, true)] } := by
  obtain ⟨_, _, hflag, hmain, _, hq⟩ := h.handling hc
  have hcount := h.ticks
  have hread := h.bytes
  rw [hc] at hcount hread
  refine
    { mode := ?_, sampled := h.sampled, vectors := h.vectors, fault := h.fault, ticks := ?_, bytes := ?_,
      reached := hreached, pushing := .inr rfl, waiting := ?_, looked_le := h.looked_le.trans hm.accepted, looked := ?_ }
  · show Mode c.main _ c.interruptFlag c.hardware
    rw [hflag]
    exact .handling _ .pushing _ hmain trivial (hq.trans (congrArg ready hline))
  · rw [← hcount]
    show _ = _ + UInt64.ofNat (handler.tickDue + 0)
    rw [htick]
    rfl
  · rw [← hread, hbytes]
    rfl
  · intro hoff
    rw [hm.shell]
    exact h.waiting hoff
  · intro hparked
    rw [hm.pop, hm.returned]
    exact h.looked hparked

theorem Cpu.Inv.pushing_step (h : c.Inv fs system) (hc : c.frames = [(.pushing, true)]) {port60 : UInt8}
    (hs : c.handlerStep true [] port60 .pushing = some c') : c'.Inv fs system := by
  have haccess : ∀ queue, c.shell.queue.producer = some queue →
      c' = { c with shell := { c.shell with queue := queue } } → c'.Inv fs system := by
    intro queue hqueue hc'
    have hstep : c.shell.step fs system .producer = some { c.shell with queue := queue } := by
      show c.shell.queue.producer.map _ = _
      rw [hqueue]
      rfl
    have hreached := h.reached.step .producer hstep
    rw [show Shell.Input.producer.byte.toList = [] from rfl, List.append_nil] at hreached
    have hadds := h.adds hc rfl rfl (Shell.producer_adds hqueue) rfl hreached
    rw [← hc] at hadds
    rw [hc']
    exact hadds
  unfold Cpu.handlerStep at hs
  cases hpush : c.shell.queue.push with
  | idle =>
    rw [hpush] at hs
    obtain rfl := Option.some.inj hs
    exact h.goOn hc hpush (.eoi keyboardInterruptId _) (.inr rfl) rfl c.ticks rfl rfl
  | loadTail _ _ | fetchAdd _ _ | writeSlot _ _ _ | storeHead _ _ | panicked =>
    rw [hpush] at hs
    obtain ⟨queue, hqueue, hc'⟩ := Option.map_eq_some_iff.mp hs
    exact haccess queue hqueue hc'.symm

theorem Cpu.Inv.handlerStep (h : c.Inv fs system) {handler : Handler} {flag : Bool}
    {frames : List (Handler × Bool)} (hc : c.frames = (handler, flag) :: frames) {port60 : UInt8}
    (hs : c.handlerStep flag frames port60 handler = some c') : c'.Inv fs system := by
  obtain ⟨rfl, rfl, hflag, hmain, hok, hq⟩ := h.handling hc
  cases handler with
  | tick =>
    obtain rfl := Option.some.inj hs
    refine h.goOn hc (h.idle hc nofun) (.eoi timerInterruptId _) (.inr rfl) rfl (c.ticks + 1) ?_ rfl
    exact UInt64.add_zero _
  | read =>
    obtain rfl := Option.some.inj hs
    exact h.goOn hc (h.idle hc nofun) (.decode port60) trivial rfl c.ticks rfl rfl
  | decode scancode =>
    obtain ⟨m, hm, rfl⟩ := Option.map_eq_some_iff.mp hs
    refine h.adds hc rfl rfl (Shell.scancode_adds hm) ?_ (h.reached.step (.scancode scancode) hm)
    rw [List.length_append]
    rfl
  | pushing => exact h.pushing_step hc hs
  | eoi id rest =>
    cases rest with
    | nil =>
      obtain rfl := Option.some.inj hs
      have hcount := h.ticks
      have hread := h.bytes
      rw [hc] at hcount hread
      refine { h with
        mode := ?_, sampled := fun _ => rfl, ticks := hcount, bytes := hread, pushing := .inl (h.idle hc nofun) }
      exact .running _ _ (hmain.imp_right .inl) hq
    | cons w rest =>
      obtain rfl := Option.some.inj hs
      have hcount := h.ticks
      have hread := h.bytes
      rw [hc] at hcount hread
      obtain ⟨rfl, rfl⟩ : w = (pic1Command, picEoi) ∧ rest = [] := by
        obtain hnil | hone := hok
        · cases hnil
        · exact List.cons.inj hone
      have hfinished : (c.hardware.out (pic1Command, picEoi)).quiet = ready none := by
        rw [Handler.line, ← apply_ite some] at hq
        exact ready_eoi hq
      refine { h with mode := ?_, ticks := hcount, bytes := hread, pushing := .inl (h.idle hc nofun) }
      show Mode c.main _ c.interruptFlag _
      rw [hflag]
      exact .handling _ _ _ hmain (.inl rfl) hfinished

/-- `pop` returns `None` when everything that was accepted has been returned -/
theorem looked_of_consumer {q q' : Keyboard.Sys} (hinv : q.Inv) {tail : Nat} (hpop : q.pop = .loadHead tail)
    (hq : q.consumer = some q') (hnone : q'.pop = .idle) :
    q'.returned = q.returned ∧ (accepted q.done).length = q.returned.length := by
  obtain ⟨q, pu, po, dn, re⟩ := q
  subst hpop
  obtain rfl : tail = q.tail := hinv.pop
  simp only [Keyboard.Sys.consumer] at hq
  split at hq
  · rename_i hempty
    obtain rfl := Option.some.inj hq
    exact ⟨rfl, (hinv.empty_iff.mp hempty).symm⟩
  · obtain rfl := Option.some.inj hq
    cases hnone

/-- only the access that returns an event can make the shell stop -/
theorem consumer_waiting {m m' : Shell.Machine} {now : Shell.Readings} (hm : m.consumer fs system now = some m')
    {tail : Nat} (hpop : m.queue.pop = .loadHead tail) : m'.shell = m.shell := by
  unfold Shell.Machine.consumer at hm
  cases hs : m.shell with
  | waiting s =>
    rw [hs, hpop] at hm
    obtain ⟨queue, _, rfl⟩ := Option.map_eq_some_iff.mp hm
    rfl
  | stopped | panicked =>
    rw [hs] at hm
    cases hm

/-- what an access of the shell leads to -/
theorem Cpu.afterAccess_cases (c : Cpu) (m : Shell.Machine) :
    (∃ tail, c.shell.queue.pop = .loadHead tail ∧ m.queue.pop = .idle ∧
      c.afterAccess m = { c with shell := m, main := .parking, looked := (accepted m.queue.done).length }) ∨
    (∃ s, m.shell = .waiting s ∧ c.afterAccess m = { c with shell := m }) ∨
    (∀ s, m.shell ≠ .waiting s) ∧
      c.afterAccess m = { c with shell := m, main := .off, interruptFlag := false } := by
  unfold Cpu.afterAccess
  split
  · rename_i tail hpop hnone
    exact .inl ⟨tail, hpop, hnone, rfl⟩
  · right
    cases hs : m.shell with
    | waiting s => exact .inl ⟨s, rfl, rfl⟩
    | stopped | panicked => exact .inr ⟨nofun, rfl⟩

theorem Cpu.Inv.access (h : c.Inv fs system) (hsampled : c.sampled = false) (hmain : c.main = .shell)
    (hframes : c.frames = []) {now : Shell.Readings} {m : Shell.Machine} (hm : c.shell.consumer fs system now = some m) :
    (c.afterAccess m).Inv fs system := by
  have hready : c.interruptFlag = true ∧ c.hardware.quiet = ready none := by
    have hmode := h.mode
    rw [hmain, hframes] at hmode
    generalize c.interruptFlag = flag at hmode
    cases hmode with
    | running _ _ _ hq => exact ⟨rfl, hq⟩
  have hqueue := (Shell.Machine.consumer_frame hm).1
  obtain ⟨hdone, hpush⟩ := Shell.consumer_frame hqueue
  have hreached := h.reached.step (.consumer now) hm
  rw [show (Shell.Input.consumer now).byte.toList = [] from rfl, List.append_nil] at hreached
  have hidle : m.queue.push = .idle := by
    rw [hpush]
    refine h.pushing.resolve_right ?_
    rw [hframes]
    exact nofun
  have hlooked : c.looked ≤ (accepted m.queue.done).length := hdone ▸ h.looked_le
  have hnofault : c.main ≠ .fault := by simp [hmain]
  obtain ⟨tail, hpop, hnone, he⟩ | ⟨s, hs, he⟩ | ⟨_, he⟩ := c.afterAccess_cases m
  · rw [he]
    obtain ⟨hreturned, hall⟩ := looked_of_consumer h.shell.queue hpop hqueue hnone
    refine { h with
      mode := ?_, fault := h.faultless hnofault (by simp), reached := hreached, pushing := .inl hidle, waiting := ?_,
      looked_le := le_rfl, looked := ?_ }
    · show Mode .parking c.frames c.interruptFlag c.hardware
      rw [hframes, hready.1]
      exact .running _ _ (.inr (.inl rfl)) hready.2
    · intro _
      rw [consumer_waiting hm hpop]
      exact h.waiting (by rw [hmain]; exact nofun)
    · intro _
      refine ⟨hnone, ?_⟩
      show (accepted m.queue.done).length = m.queue.returned.length
      rw [hdone, hreturned, hall]
  · rw [he]
    refine { h with
      reached := hreached, pushing := .inl hidle, waiting := fun _ => ⟨s, hs⟩, looked_le := hlooked, looked := ?_ }
    intro hparked
    obtain hp | hp := hparked
    · cases hmain.symm.trans hp
    · cases hmain.symm.trans hp
  · rw [he]
    refine { h with
      mode := ?_, sampled := fun hs => (Bool.false_ne_true (hsampled.symm.trans hs)).elim,
      fault := h.faultless hnofault (by simp), reached := hreached, pushing := .inl hidle,
      waiting := fun hne => absurd rfl hne, looked_le := hlooked, looked := ?_ }
    · show Mode .off c.frames false c.hardware
      rw [hframes]
      exact .off _ hready.2
    · intro hparked
      obtain hp | hp := hparked <;> cases hp

theorem Cpu.Inv.mainStep (h : c.Inv fs system) (hsampled : c.sampled = false) (hframes : c.frames = [])
    {now : Shell.Readings} (hs : c.mainStep fs system now = some c') : c'.Inv fs system := by
  have hmode := h.mode
  rw [hframes] at hmode
  unfold Cpu.mainStep at hs
  cases hmain : c.main with
  | hardware rest =>
    rw [hmain] at hs hmode
    generalize hflag : c.interruptFlag = flag at hmode
    have hwaiting := h.waiting (by rw [hmain]; exact nofun)
    have hnofault : c.main ≠ .fault := by simp [hmain]
    cases hmode with
    | running _ _ hm _ => obtain hm | hm | hm := hm <;> cases hm
    | booting _ _ hrest =>
      cases rest with
      | nil =>
        obtain rfl := Option.some.inj hs
        refine { h with
          mode := ?_, sampled := fun _ => rfl, fault := h.faultless hnofault (by simp), waiting := fun _ => hwaiting,
          looked := ?_ }
        · show Mode .shell c.frames true c.hardware
          rw [hframes]
          exact .running _ _ (.inl rfl) hrest
        · intro hparked
          obtain hp | hp := hparked <;> cases hp
      | cons w rest =>
        obtain rfl := Option.some.inj hs
        refine { h with
          mode := ?_, fault := h.faultless hnofault (by simp), waiting := fun _ => hwaiting, looked := ?_ }
        · show Mode (.hardware rest) c.frames c.interruptFlag _
          rw [hframes, hflag]
          exact .booting rest _ hrest
        · intro hparked
          obtain hp | hp := hparked <;> cases hp
  | shell =>
    rw [hmain] at hs
    obtain ⟨m, hm, rfl⟩ := Option.map_eq_some_iff.mp hs
    exact h.access hsampled hmain hframes hm
  | parking =>
    rw [hmain] at hs hmode
    obtain rfl := Option.some.inj hs
    have hwaiting := h.waiting (by rw [hmain]; exact nofun)
    generalize c.interruptFlag = flag at hmode
    refine { h with
      mode := ?_, sampled := fun _ => rfl, fault := h.faultless (by simp [hmain]) (by simp),
      waiting := fun _ => hwaiting, looked := fun _ => h.looked (.inl hmain) }
    show Mode .halted c.frames true c.hardware
    rw [hframes]
    cases hmode with
    | running _ _ _ hq => exact .running _ _ (.inr (.inr rfl)) hq
  | halted | off | fault =>
    rw [hmain] at hs
    cases hs

/-- the step lemma -/
theorem Cpu.inv_step (c : Cpu) (event : Event) (c' : Cpu) (h : c.Inv fs system)
    (hs : c.step fs system event = some c') : c'.Inv fs system := by
  cases event with
  | line onSlave i level =>
    obtain rfl := Option.some.inj hs
    exact h.line onSlave i level
  | accept => exact h.accept hs
  | acknowledge => exact h.acknowledge hs
  | proceed now port60 =>
    unfold Cpu.step at hs
    dsimp only at hs
    rw [Option.ite_none_left_eq_some, Bool.not_eq_true] at hs
    obtain ⟨hsampled, hs⟩ := hs
    cases hframes : c.frames with
    | nil =>
      rw [hframes] at hs
      exact h.mainStep hsampled hframes hs
    | cons frame frames =>
      rw [hframes] at hs
      exact h.handlerStep hframes hs

/-- the run lemma -/
theorem Cpu.inv_run {h : Hardware} {events : List Event}
    (hrun : Steps.run (Cpu.step fs system) (Cpu.start h) events = some c) : c.Inv fs system :=
  Steps.run_inv _ Cpu.inv_step events _ _ (Cpu.inv_start h) hrun

/-- between the interrupts nothing is in service -/
theorem Cpu.Inv.quiet (h : c.Inv fs system) (hframes : c.frames = []) (hmain : ∀ rest, c.main ≠ .hardware rest) :
    c.hardware.quiet = ready none := by
  obtain ⟨hardware, flag, main, frames, _⟩ := c
  cases h.mode with
  | booting rest _ _ => exact absurd rfl (hmain rest)
  | running _ _ _ hq => exact hq
  | handling _ _ _ _ _ _ => cases hframes
  | off _ hq => exact hq
  | faulted _ hq => exact hq

theorem Reached.edit_eq {bytes : List UInt8} {m : Shell.Machine} (h : Reached fs system bytes m) (hs : m.Settled) :
    (m.shell.edit, m.inputs) = Shell.edited fs system (feed .new bytes).2 := by
  obtain ⟨inputs, hrun, rfl⟩ := h
  rw [(Shell.handled_run hrun).edit_eq, (Shell.session_run hrun).returned_eq hs]

end

/-! ## withdrawn requests -/

section
variable {fs : Fat.Fat32} {system : Shell.SystemInfo} {h : Hardware} {c c' : Cpu} {events : List Event}

theorem Cpu.handlerStep_frame {flag : Bool} {frames : List (Handler × Bool)} {port60 : UInt8} {handler : Handler}
    (hs : c.handlerStep flag frames port60 handler = some c') :
    c'.sampled = c.sampled ∧ c'.delivered = c.delivered := by
  unfold Cpu.handlerStep at hs
  split at hs
  · cases hs
    exact ⟨rfl, rfl⟩
  · cases hs
    exact ⟨rfl, rfl⟩
  · obtain ⟨_, _, rfl⟩ := Option.map_eq_some_iff.mp hs
    exact ⟨rfl, rfl⟩
  · split at hs
    · cases hs
      exact ⟨rfl, rfl⟩
    · obtain ⟨_, _, rfl⟩ := Option.map_eq_some_iff.mp hs
      exact ⟨rfl, rfl⟩
  · cases hs
    exact ⟨rfl, rfl⟩
  · cases hs
    exact ⟨rfl, rfl⟩

theorem Cpu.mainStep_frame {now : Shell.Readings} (hs : c.mainStep fs system now = some c') :
    c'.sampled = c.sampled ∧ c'.delivered = c.delivered := by
  unfold Cpu.mainStep at hs
  split at hs
  · cases hs
    exact ⟨rfl, rfl⟩
  · cases hs
    exact ⟨rfl, rfl⟩
  · obtain ⟨m, _, rfl⟩ := Option.map_eq_some_iff.mp hs
    obtain ⟨_, _, _, he⟩ | ⟨_, _, he⟩ | ⟨_, he⟩ := c.afterAccess_cases m <;> rw [he] <;> exact ⟨rfl, rfl⟩
  · cases hs
    exact ⟨rfl, rfl⟩
  · cases hs
  · cases hs
  · cases hs

/-- the program neither takes vectors nor looks for requests -/
theorem Cpu.proceed_frame {now : Shell.Readings} {port60 : UInt8}
    (hs : c.step fs system (.proceed now port60) = some c') :
    c.sampled = false ∧ c'.sampled = false ∧ c'.delivered = c.delivered := by
  unfold Cpu.step at hs
  dsimp only at hs
  rw [Option.ite_none_left_eq_some, Bool.not_eq_true] at hs
  obtain ⟨hsampled, hs⟩ := hs
  refine ⟨hsampled, ?_⟩
  rw [← hsampled]
  split at hs
  · exact Cpu.handlerStep_frame hs
  · exact Cpu.mainStep_frame hs

/-- after a fault nothing moves any more but the lines of the devices -/
theorem Cpu.Inv.fault_stays {event : Event} (hinv : c.Inv fs system) (hfault : c.main = .fault)
    (hs : c.step fs system event = some c') : c'.main = .fault := by
  have hdead : c.frames = [] ∧ c.interruptFlag = false := by
    have hmode := hinv.mode
    rw [hfault] at hmode
    generalize c.frames = frames, c.interruptFlag = flag at hmode
    cases hmode with
    | running _ _ hm _ => obtain hm | hm | hm := hm <;> cases hm
    | handling _ _ _ hm _ _ => obtain hm | hm := hm <;> cases hm
    | faulted _ _ => exact ⟨rfl, rfl⟩
  cases event with
  | line onSlave i level =>
    obtain rfl := Option.some.inj hs
    exact hfault
  | accept => simp [Cpu.step, Cpu.accept, hdead.2] at hs
  | acknowledge =>
    obtain ⟨⟨_, hflag⟩, _⟩ := Cpu.acknowledge_eq hinv hs
    exact (Bool.false_ne_true (hdead.2.symm.trans hflag)).elim
  | proceed now port60 => simp [Cpu.step, Cpu.mainStep, hdead.1, hfault] at hs

/-- a fault comes from the question for the vector of a request that is gone -/
theorem Cpu.Inv.fault_of_step {event : Event} (hinv : c.Inv fs system) (hs : c.step fs system event = some c')
    (hfault : c'.main = .fault) : c.main = .fault ∨ event = .acknowledge ∧ c.hardware.pics.requests = false := by
  have hdelivered := (Cpu.inv_step c event c' hinv hs).fault.mpr hfault
  cases event with
  | line onSlave i level =>
    obtain rfl := Option.some.inj hs
    exact .inl hfault
  | accept =>
    obtain ⟨_, hc⟩ := Option.ite_none_right_eq_some.mp hs
    obtain rfl := Option.some.inj hc
    exact .inl hfault
  | acknowledge =>
    obtain ⟨_, ⟨hnone, _⟩ | ⟨_, _, _, vector, hvector, _, rfl⟩⟩ := Cpu.acknowledge_eq hinv hs
    · exact .inr ⟨rfl, hnone⟩
    · obtain hv | hv := List.mem_append.mp hdelivered
      · exact .inl (hinv.fault.mp hv)
      · obtain ⟨rfl, _⟩ | ⟨rfl, _⟩ := hvector <;> exact absurd (List.mem_singleton.mp hv) (by decide)
  | proceed now port60 =>
    rw [(Cpu.proceed_frame hs).2.2] at hdelivered
    exact .inl (hinv.fault.mp hdelivered)

/-- a line that is raised withdraws nothing -/
theorem Cpu.Inv.requests_raise (hinv : c.Inv fs system) (hsampled : c.sampled = true)
    (hrequests : c.hardware.pics.requests = true) (onSlave : Bool) (i : Fin 8) :
    (c.hardware.pics.line onSlave i true).requests = true := by
  obtain ⟨_, _, hq⟩ := hinv.running (hinv.sampled hsampled)
  have hq' := (c.hardware.quiet_line onSlave i true).trans hq
  have hkeeps : ∀ j, c.hardware.pics.master.request j = true →
      (c.hardware.pics.line onSlave i true).master.request j = true := by
    intro j hj
    cases onSlave with
    | true => exact hj
    | false =>
      show Function.update c.hardware.pics.master.request i true j = true
      rw [Function.update_apply]
      split_ifs
      · rfl
      · exact hj
  exact (ready_requests hq').mpr (((ready_requests hq).mp hrequests).imp (hkeeps 0) (hkeeps 1))

section
variable (fs : Fat.Fat32) (system : Shell.SystemInfo) (h : Hardware) (events : List Event)

/-- in this run the processor once asked for the vector of a request that was gone -/
def Withdrawn : Prop :=
  ∃ pre post b, events = pre ++ .acknowledge :: post ∧ Steps.run (Cpu.step fs system) (Cpu.start h) pre = some b ∧
    b.hardware.pics.requests = false

/-- in this run no device lowers its line after the processor has seen a request and before it asks for the
vector -/
def Held : Prop :=
  ∀ pre post onSlave i b, events = pre ++ .line onSlave i false :: post →
    Steps.run (Cpu.step fs system) (Cpu.start h) pre = some b → b.sampled = false

end

/-- a withdrawn request stops the machine for good, and nothing else does -/
theorem fault_iff_withdrawn (hrun : Steps.run (Cpu.step fs system) (Cpu.start h) events = some c) :
    c.main = .fault ↔ Withdrawn fs system h events := by
  constructor
  · refine Steps.run_along (Cpu.step fs system) (P := fun pre b => b.main = .fault → Withdrawn fs system h pre) ?_ ?_
      events [] c (List.append_nil events).symm hrun
    · exact fun hfault => by cases hfault
    · intro pre a post b b' _ hb ih hstep hfault
      obtain hfault | ⟨rfl, hnone⟩ := (Cpu.inv_run hb).fault_of_step hstep hfault
      · obtain ⟨pre', post', t, rfl, ht⟩ := ih hfault
        exact ⟨pre', post' ++ [a], t, List.append_assoc _ _ _, ht⟩
      · exact ⟨pre, [], b, rfl, hb, hnone⟩
  · rintro ⟨pre, post, b, rfl, hb, hnone⟩
    obtain ⟨_, hb', hpost⟩ := Steps.exists_run_of_append _ hrun
    obtain rfl := Option.some.inj (hb.symm.trans hb')
    obtain ⟨m, hstep, hm⟩ := (Steps.run_cons_iff _ _ _ _ _).mp hpost
    have hinv := Cpu.inv_run hb
    have hfault : m.main = .fault := by
      obtain ⟨_, ⟨_, rfl⟩ | ⟨hsome, _⟩⟩ := Cpu.acknowledge_eq hinv hstep
      · rfl
      · exact (Bool.false_ne_true (hnone.symm.trans hsome)).elim
    have hstays := Steps.run_inv (Cpu.step fs system) (P := fun c => c.Inv fs system ∧ c.main = .fault)
      (fun s a t hs ht => ⟨Cpu.inv_step s a t hs.1 ht, hs.1.fault_stays hs.2 ht⟩) post m c
      ⟨Cpu.inv_step b _ m hinv hstep, hfault⟩ hm
    exact hstays.2

/-- a request that is held until the processor asks for its vector is still there then -/
theorem requests_of_held (hheld : Held fs system h events)
    (hrun : Steps.run (Cpu.step fs system) (Cpu.start h) events = some c) :
    ¬ Withdrawn fs system h events := by
  have hseen : ∀ pre post b, events = pre ++ post →
      Steps.run (Cpu.step fs system) (Cpu.start h) pre = some b →
      b.sampled = true → b.hardware.pics.requests = true := by
    refine Steps.run_along (Cpu.step fs system) (fun hs => by cases hs) ?_
    intro pre a post b b' heq hb ih hstep hsampled
    cases a with
    | line onSlave i level =>
      obtain rfl := Option.some.inj hstep
      cases level with
      | true => exact (Cpu.inv_run hb).requests_raise hsampled (ih hsampled) onSlave i
      | false => exact (Bool.false_ne_true ((hheld pre post onSlave i b heq hb).symm.trans hsampled)).elim
    | accept =>
      obtain ⟨⟨_, _, hrequests⟩, hc⟩ := Option.ite_none_right_eq_some.mp hstep
      obtain rfl := Option.some.inj hc
      exact hrequests
    | acknowledge =>
      obtain ⟨_, ⟨_, rfl⟩ | ⟨_, _, _, _, _, _, rfl⟩⟩ := Cpu.acknowledge_eq (Cpu.inv_run hb) hstep <;> cases hsampled
    | proceed now port60 =>
      exact (Bool.false_ne_true ((Cpu.proceed_frame hstep).2.1.symm.trans hsampled)).elim
  rintro ⟨pre, post, b, rfl, hb, hnone⟩
  obtain ⟨_, hb', hpost⟩ := Steps.exists_run_of_append _ hrun
  obtain rfl := Option.some.inj (hb.symm.trans hb')
  obtain ⟨m, hstep, _⟩ := (Steps.run_cons_iff _ _ _ _ _).mp hpost
  obtain ⟨⟨hsampled, _⟩, _⟩ := Cpu.acknowledge_eq (Cpu.inv_run hb) hstep
  exact Bool.false_ne_true (hnone.symm.trans (hseen pre _ b rfl hb hsampled))

end

/-- **only the two handlers run, one at a time, and each interrupt is served once.**  Whatever state the
firmware left the controllers in, and whenever the devices raise and lower their lines: every vector that
the processor takes has a handler, unless a request is withdrawn after the processor has seen it and before it asks
for the vector; this, and only this, stops the machine, and it does not happen when the devices hold their lines in
between.  No handler is interrupted, and between the handlers the controllers are programmed as they should be, with
nothing in service; then the clock has counted the interrupts of the timer, and the keyboard handler has read one
byte for each interrupt of the keyboard and has put it away.  When these bytes are dealt with and nothing was
dropped, the shell has executed what they say. -/
theorem interrupt_discipline (fs : Fat.Fat32) (system : Shell.SystemInfo) (h : Hardware) (events : List Event)
    (c : Cpu) (hrun : Steps.run (Cpu.step fs system) (Cpu.start h) events = some c) :
    (∀ v ∈ c.delivered, v = timerInterruptId ∨ v = keyboardInterruptId ∨ v = defaultVector ∧ c.main = .fault) ∧
      (c.main = .fault ↔ Withdrawn fs system h events) ∧ (Held fs system h events → c.main ≠ .fault) ∧
      (c.frames ≠ [] → (∃ handler, c.frames = [(handler, true)]) ∧ c.interruptFlag = false) ∧
      (c.frames = [] → (∀ rest, c.main ≠ .hardware rest) → c.hardware.quiet = ready none) ∧
      (c.frames = [] → c.ticks = UInt64.ofNat (c.delivered.count timerInterruptId) ∧
        c.bytes.length = c.delivered.count keyboardInterruptId ∧ c.shell.queue.push = .idle) ∧
      (c.shell.Settled →
        (c.shell.shell.edit, c.shell.inputs) = Shell.edited fs system (feed .new c.bytes).2) := by
  have hinv := Cpu.inv_run hrun
  have hfault := fault_iff_withdrawn hrun
  refine ⟨?_, hfault, ?_, ?_, hinv.quiet, ?_, hinv.reached.edit_eq⟩
  · intro v hv
    obtain htimer | hkeyboard | rfl := hinv.vectors v hv
    · exact .inl htimer
    · exact .inr (.inl hkeyboard)
    · exact .inr (.inr ⟨rfl, hinv.fault.mp hv⟩)
  · intro hheld hmain
    exact requests_of_held hheld hrun (hfault.mp hmain)
  · intro hne
    obtain ⟨⟨handler, flag⟩, frames, hframes⟩ := List.exists_cons_of_ne_nil hne
    obtain ⟨rfl, rfl, hflag, _⟩ := hinv.handling hframes
    exact ⟨⟨handler, hframes⟩, hflag⟩
  · intro hframes
    have hticks := hinv.ticks
    have hbytes := hinv.bytes
    have hpushing := hinv.pushing
    rw [hframes] at hticks hbytes hpushing
    refine ⟨?_, hbytes, hpushing.resolve_right nofun⟩
    rw [← hticks]
    exact (UInt64.add_zero _).symm

/-- in the middle of an initialization, with every line in service -/
def leftOver : Hardware :=
  have regs : Regs := ⟨8, 0, fun _ => true, .wiring, false, false, 0, 0⟩
  ⟨⟨⟨regs, fun _ => true⟩, ⟨regs, fun _ => true⟩⟩, ⟨0, none, 0⟩⟩

def accesses (n : Nat) : List Event := List.replicate n (.proceed ⟨0, 0, 0, 0⟩ 0x1e)

/-- an interrupt of the timer and one of the keyboard, both before the shell has looked into the queue -/
def twoInterrupts : List Event :=
  accesses 14 ++ [.line false 0 true, .line false 1 true, .accept, .acknowledge] ++ accesses 3 ++
    [.accept, .acknowledge] ++ accesses 8

theorem interrupt_discipline_twoInterrupts :
    ∃ c, Steps.run (Cpu.step Shell.noVolume ⟨0, 0⟩) (Cpu.start leftOver) twoInterrupts = some c ∧
      c.frames = [] ∧ c.delivered = [32, 33] ∧ c.ticks = 1 ∧ c.bytes.length = 1 := by
  have hsome : (Steps.run (Cpu.step Shell.noVolume ⟨0, 0⟩) (Cpu.start leftOver) twoInterrupts).isSome = true := rfl
  obtain ⟨c, hc⟩ := Option.isSome_iff_exists.mp hsome
  obtain ⟨_, _, _, _, _, hdone, _⟩ := interrupt_discipline Shell.noVolume ⟨0, 0⟩ leftOver twoInterrupts c hc
  have hfacts : c.frames = [] ∧ c.delivered = [32, 33] := by
    obtain rfl := Option.some.inj hc
    exact ⟨rfl, rfl⟩
  obtain ⟨hticks, hbytes, _⟩ := hdone hfacts.1
  rw [hfacts.2] at hticks hbytes
  exact ⟨c, hc, hfacts.1, hfacts.2, hticks, hbytes⟩

-- the timer lowers its line between the two looks of the processor
example :
    ((Steps.run (Cpu.step Shell.noVolume ⟨0, 0⟩) (Cpu.start leftOver)
      (accesses 14 ++ [.line false 0 true, .accept, .line false 0 false, .acknowledge])).map Cpu.delivered)
      = some [39] := rfl

end Interrupts
end SolOs
