import SolOs.Lib.Uart16550
import SolOs.Lib.Utf8
import SolOs.Console.Display

/-!
# The serial copy of the console

`serial.rs`: the setup of the first serial port, and `print`, which sends each line feed as a carriage return
and a line feed and waits before each byte until the transmitter is empty, but not for ever.

* `World`                what the driver does not control: how fast the bytes leave, and the other status bits;
* `init`, `writeByte`, `writeStr`       the driver;
* `serialPrint`          the copies of console operations;
* `Sends s r bytes`      from `s` to `r` these bytes were sent, as far as the transmitter took them;
* `crlf`, `uncrlf`       the translation of line feeds, and back;
* `serial_keeps_order`   **what arrives is in order and nothing is mixed in, and if the transmitter keeps going
                         it is the text.**
-/

set_option linter.unusedVariables false

namespace SolOs
namespace Serial
open Uart16550 Console

/-- how many bytes leave the transmitter before the `k`-th access, and the other bits of the status then -/
structure World where
  shifts : Nat → Nat
  status : Nat → UInt8

/-- `accesses` counts the port accesses so far -/
structure Link where
  uart : Uart
  accesses : Nat

def com1 : UInt16 := 0x3f8

/-! ## the driver -/

section
variable (world : World)

/-- the transmitter at the next access -/
def Link.next (s : Link) : Uart := s.uart.shifts (world.shifts s.accesses)

def writePort (port : UInt16) (value : UInt8) : StateM Link Unit := fun s =>
  ((), ⟨(Register.at (port - com1).toNat).elim (s.next world) ((s.next world).write value), s.accesses + 1⟩)

/-- the driver reads nothing but the line status -/
def readPort (port : UInt16) : StateM Link UInt8 := fun s =>
  (if Register.at (port - com1).toNat = some .lineStatus then (s.next world).status (world.status s.accesses)
    else world.status s.accesses, ⟨s.next world, s.accesses + 1⟩)

def init : StateM Link Unit := do
  writePort world (com1 + 1) 0x00
  writePort world (com1 + 3) 0x80
  writePort world com1 0x01
  writePort world (com1 + 1) 0x00
  writePort world (com1 + 3) 0x03
  writePort world (com1 + 2) 0xc7
  writePort world (com1 + 4) 0x0b

/-- the loop of `write_byte` -/
def writeLoop (byte : UInt8) : Nat → StateM Link Unit
  | 0 => pure ()
  | n + 1 => do
    let status ← readPort world (com1 + 5)
    if status &&& 0x20 ≠ 0 then writePort world com1 byte else writeLoop byte n

def writeByte (byte : UInt8) : StateM Link Unit := writeLoop world byte 100000

def writeStr : List UInt8 → StateM Link Unit
  | [] => pure ()
  | byte :: rest => do
    if byte = 0x0a then writeByte world 0x0d
    writeByte world byte
    writeStr rest

/-- `console::print` goes to the serial port as well; the cursor and `clear` do not -/
def serialPrint : List ConsoleOp → StateM Link Unit
  | [] => pure ()
  | op :: rest => do
    writeStr world (Text.utf8 (opText op))
    serialPrint rest

end

section
variable {α β : Type} {s : Link}

@[simp] theorem link_bind (x : StateM Link α) (f : α → StateM Link β) : (x >>= f) s = f (x s).1 (x s).2 := rfl

@[simp] theorem link_pure (a : α) : (pure a : StateM Link α) s = (a, s) := rfl

end

/-! ## the setup -/

section
variable {world : World} {s : Link}

theorem next_settings : (s.next world).settings = s.uart.settings := s.uart.shifts_settings _

/-- a write at one of the registers -/
theorem writePort_eq {port : UInt16} (register : Register) (h : Register.at (port - com1).toNat = some register)
    (value : UInt8) : writePort world port value s = ((), ⟨(s.next world).write value register, s.accesses + 1⟩) := by
  unfold writePort
  rw [h]
  rfl

theorem writePort_settings {port : UInt16} (register : Register)
    (h : Register.at (port - com1).toNat = some register) (value : UInt8) :
    (writePort world port value s).2.uart.settings = s.uart.settings.write value register := by
  rw [writePort_eq register h]
  show (s.next world).settings.write value register = _
  rw [next_settings]

/-- what the setup programs; the interrupts stay as they were if the divisor latch was open -/
def programmed (before : Settings) : Settings where
  divisorLow := 0x01
  divisorHigh := 0x00
  interruptEnable := if before.latched then before.interruptEnable else 0x00
  fifoControl := 0xc7
  lineControl := 0x03
  modemControl := 0x0b

theorem init_settings : (init world s).2.uart.settings = programmed s.uart.settings := by
  unfold init
  simp only [link_bind]
  rw [writePort_settings .modemControl rfl, writePort_settings .fifoControl rfl,
    writePort_settings .lineControl rfl, writePort_settings .interruptEnable rfl, writePort_settings .data rfl,
    writePort_settings .lineControl rfl, writePort_settings .interruptEnable rfl]
  have hopen : ∀ a b c d e, (Settings.mk a b c d 0x80 e).latched = true := by
    intro a b c d e
    have hbit : (0x80 : UInt8) &&& 0x80 ≠ 0 := by decide
    exact decide_eq_true hbit
  cases hlatch : s.uart.settings.latched with
  | true =>
    simp only [Settings.write, hlatch, hopen, programmed, if_true]
    rfl
  | false =>
    simp only [Settings.write, hlatch, hopen, programmed, if_true, Bool.false_eq_true, if_false]
    rfl

theorem init_queue : (init world s).2.uart.queue = [] := by
  unfold init
  simp only [link_bind]
  rw [writePort_eq .modemControl rfl, writePort_eq .fifoControl rfl]
  show (Uart.shifts _ _).queue = []
  rw [Uart.shifts_queue]
  exact List.drop_nil

end

/-! ## one byte -/

section
variable (world : World)

/-- among any 100000 accesses there is one before which the transmitter gets on -/
def Lively : Prop := ∀ i, ∃ k < 100000, 0 < world.shifts (i + k)

/-- the divisor latch is closed, and at most one byte waits -/
structure Ready (s : Link) : Prop where
  closed : s.uart.settings.latched = false
  short : s.uart.queue.length ≤ 1

variable {world} {s : Link}

theorem next_line : (s.next world).line = s.uart.line := s.uart.shifts_line _

theorem next_queue : (s.next world).queue = s.uart.queue.drop (world.shifts s.accesses) := s.uart.shifts_queue _

theorem Ready.next (h : Ready s) : Ready ⟨s.next world, s.accesses + 1⟩ where
  closed := by
    show (s.next world).settings.latched = false
    rw [next_settings]
    exact h.closed
  short := by
    show (s.next world).queue.length ≤ 1
    rw [next_queue, List.length_drop]
    exact (Nat.sub_le _ _).trans h.short

/-- the answer to a poll -/
theorem readPort_eq : readPort world (com1 + 5) s
    = ((s.next world).status (world.status s.accesses), ⟨s.next world, s.accesses + 1⟩) := by
  unfold readPort
  rw [if_pos (show Register.at (com1 + 5 - com1).toNat = some .lineStatus from rfl)]

/-- a byte for the empty transmitter -/
theorem writePort_empty (h : Ready s) (hempty : s.uart.queue = []) (byte : UInt8) :
    writePort world com1 byte s = ((), ⟨{ s.next world with queue := [byte] }, s.accesses + 1⟩) := by
  have hqueue : (s.next world).queue = [] := by rw [next_queue, hempty, List.drop_nil]
  rw [writePort_eq .data rfl, Uart.write_empty _ byte (next_settings.symm ▸ h.closed) hqueue]

/-- from `s` to `r` the driver has tried to send these bytes -/
structure Sends (world : World) (s r : Link) (bytes : List UInt8) : Prop where
  ready : Ready r
  settings : r.uart.settings = s.uart.settings
  accesses : r.accesses ≤ s.accesses + 100001 * bytes.length
  line : ∃ heard, r.uart.line = s.uart.line ++ heard ∧ heard.Sublist bytes ∧ (Lively world → heard = bytes)

theorem writeLoop_spec (h : Ready s) (byte : UInt8) (n : Nat) :
    Ready (writeLoop world byte n s).2 ∧
      (writeLoop world byte n s).2.uart.settings = s.uart.settings ∧
      (writeLoop world byte n s).2.accesses ≤ s.accesses + (n + 1) ∧
      ((writeLoop world byte n s).2.uart.line = s.uart.line ++ [byte] ∨
        (writeLoop world byte n s).2.uart.line = s.uart.line ∧ ∀ k < n, world.shifts (s.accesses + k) = 0) := by
  induction n generalizing s with
  | zero => exact ⟨h, rfl, Nat.le_add_right _ _, .inr ⟨rfl, fun k hk => absurd hk (Nat.not_lt_zero k)⟩⟩
  | succ n ih =>
    have hnext : Ready ⟨s.next world, s.accesses + 1⟩ := h.next
    unfold writeLoop
    rw [link_bind, readPort_eq]
    by_cases hempty : (s.next world).queue = []
    · rw [if_pos ((Uart.status_empty _ _).mpr hempty), writePort_empty hnext hempty]
      have hsettings : (Link.next world ⟨s.next world, s.accesses + 1⟩).settings = s.uart.settings :=
        next_settings.trans next_settings
      refine ⟨⟨?_, le_refl 1⟩, hsettings, ?_, .inl ?_⟩
      · show (Link.next world ⟨s.next world, s.accesses + 1⟩).settings.latched = false
        rw [hsettings]
        exact h.closed
      · show s.accesses + 1 + 1 ≤ s.accesses + (n + 1 + 1)
        omega
      · have hline : (Link.next world ⟨s.next world, s.accesses + 1⟩).line = s.uart.line := next_line.trans next_line
        have hqueue : (Link.next world ⟨s.next world, s.accesses + 1⟩).queue = [] := by
          rw [next_queue, hempty, List.drop_nil]
        rw [← hline, Uart.line, Uart.line, hqueue, List.append_nil]
    · rw [if_neg (mt (Uart.status_empty _ _).mp hempty)]
      obtain ⟨hready, hsettings, haccesses, hline⟩ := ih hnext
      refine ⟨hready, hsettings.trans next_settings, ?_, ?_⟩
      · refine haccesses.trans ?_
        show s.accesses + 1 + (n + 1) ≤ s.accesses + (n + 1 + 1)
        omega
      · obtain hline | ⟨hline, hsilent⟩ := hline
        · exact .inl (hline.trans (congrArg (· ++ [byte]) next_line))
        · refine .inr ⟨hline.trans next_line, ?_⟩
          intro k hk
          cases k with
          | zero =>
            -- the only byte is still there
            by_contra hshift
            rw [next_queue] at hempty
            exact hempty (List.drop_eq_nil_of_le (h.short.trans (Nat.one_le_iff_ne_zero.mpr hshift)))
          | succ k =>
            rw [Nat.add_comm k 1, ← Nat.add_assoc]
            exact hsilent k (Nat.lt_of_succ_lt_succ hk)

/-- **one byte**: it is lost only when the transmitter stands still for 100000 polls -/
theorem writeByte_sends (h : Ready s) (byte : UInt8) : Sends world s (writeByte world byte s).2 [byte] := by
  obtain ⟨hready, hsettings, haccesses, hline⟩ := writeLoop_spec h byte 100000
  refine ⟨hready, hsettings, haccesses, ?_⟩
  obtain hline | ⟨hline, hsilent⟩ := hline
  · exact ⟨[byte], hline, List.Sublist.refl _, fun _ => rfl⟩
  · refine ⟨[], hline.trans (List.append_nil _).symm, List.nil_sublist _, ?_⟩
    intro hlively
    obtain ⟨k, hk, hshift⟩ := hlively s.accesses
    exact absurd (hsilent k hk) hshift.ne'

theorem Sends.refl (h : Ready s) : Sends world s s [] :=
  ⟨h, rfl, le_refl _, [], (List.append_nil _).symm, List.Sublist.refl _, fun _ => rfl⟩

theorem Sends.trans {t r : Link} {xs ys : List UInt8} (h : Sends world s t xs) (h' : Sends world t r ys) :
    Sends world s r (xs ++ ys) := by
  obtain ⟨heard, hline, hsub, hall⟩ := h.line
  obtain ⟨heard', hline', hsub', hall'⟩ := h'.line
  refine ⟨h'.ready, h'.settings.trans h.settings, ?_, heard ++ heard', ?_, hsub.append hsub', ?_⟩
  · have h1 := h.accesses
    have h2 := h'.accesses
    rw [List.length_append]
    omega
  · rw [hline', hline, List.append_assoc]
  · intro hlively
    rw [hall hlively, hall' hlively]

/-! ## text -/

/-- the bytes that `write_str` sends -/
def crlf (text : List UInt8) : List UInt8 := text.flatMap fun byte => if byte = 0x0a then [0x0d, byte] else [byte]

theorem crlf_append (xs ys : List UInt8) : crlf (xs ++ ys) = crlf xs ++ crlf ys := List.flatMap_append

theorem writeStr_sends (h : Ready s) (text : List UInt8) : Sends world s (writeStr world text s).2 (crlf text) := by
  induction text generalizing s with
  | nil => exact .refl h
  | cons byte rest ih =>
    unfold writeStr
    rw [crlf, List.flatMap_cons]
    by_cases hfeed : byte = 0x0a
    · rw [if_pos hfeed, if_pos hfeed]
      have hreturn : Sends world s _ [0x0d] := writeByte_sends h 0x0d
      have hbyte : Sends world _ _ [byte] := writeByte_sends hreturn.ready byte
      exact (hreturn.trans hbyte).trans (ih hbyte.ready)
    · rw [if_neg hfeed, if_neg hfeed]
      have hbyte : Sends world s _ [byte] := writeByte_sends h byte
      exact hbyte.trans (ih hbyte.ready)

theorem serialPrint_sends (h : Ready s) (ops : List ConsoleOp) :
    Sends world s (serialPrint world ops s).2 (crlf (Text.utf8 (ops.flatMap opText))) := by
  induction ops generalizing s with
  | nil => exact .refl h
  | cons op rest ih =>
    unfold serialPrint
    rw [List.flatMap_cons, Text.utf8_append, crlf_append]
    have htext : Sends world s _ (crlf (Text.utf8 (opText op))) := writeStr_sends h _
    exact htext.trans (ih htext.ready)

end

/-- a carriage return before a line feed is taken away -/
def uncrlf : List UInt8 → List UInt8
  | [] => []
  | [byte] => [byte]
  | first :: second :: rest =>
    if first = 0x0d ∧ second = 0x0a then uncrlf (second :: rest) else first :: uncrlf (second :: rest)

theorem uncrlf_cons {byte : UInt8} {rest : List UInt8} (h : ¬(byte = 0x0d ∧ rest.head? = some 0x0a)) :
    uncrlf (byte :: rest) = byte :: uncrlf rest := by
  cases rest with
  | nil => rfl
  | cons second rest =>
    rw [uncrlf, if_neg]
    intro hpair
    exact h ⟨hpair.1, congrArg some hpair.2⟩

theorem crlf_head (text : List UInt8) : (crlf text).head? ≠ some 0x0a := by
  cases text with
  | nil => simp [crlf]
  | cons byte rest =>
    rw [crlf, List.flatMap_cons]
    by_cases hfeed : byte = 0x0a
    · rw [if_pos hfeed]
      simp
    · rw [if_neg hfeed]
      simpa using hfeed

/-- **the translation can be undone** -/
theorem uncrlf_crlf (text : List UInt8) : uncrlf (crlf text) = text := by
  induction text with
  | nil => rfl
  | cons byte rest ih =>
    have hrest : uncrlf (byte :: crlf rest) = byte :: rest := by
      rw [uncrlf_cons (fun hpair => crlf_head rest hpair.2), ih]
    rw [crlf, List.flatMap_cons]
    by_cases hfeed : byte = 0x0a
    · rw [if_pos hfeed]
      show uncrlf (0x0d :: byte :: crlf rest) = _
      rw [uncrlf, if_pos ⟨rfl, hfeed⟩, hrest]
    · rw [if_neg hfeed]
      exact hrest

/-- **the serial copy is in order.**  Whatever state the firmware left the port in, and however fast the bytes
leave: the setup programs 8 data bits at the full rate and empties the transmitter; it disables the interrupts
of the port only if the divisor latch was closed.  After that nothing that is printed changes the settings, at
most one byte waits at a time, the accesses are at most 100001 for each byte in sum, and what goes over the line is
the text with its line feeds translated, in order, up to bytes that were dropped.  If the transmitter never stands still
for 100000 accesses, nothing is dropped and the text can be read off the line. -/
theorem serial_keeps_order (world : World) (s : Link) (ops : List ConsoleOp) :
    (init world s).2.uart.settings = programmed s.uart.settings ∧ (init world s).2.uart.queue = [] ∧
      ∃ heard, (serialPrint world ops (init world s).2).2.uart.line = (init world s).2.uart.sent ++ heard ∧
        heard.Sublist (crlf (Text.utf8 (ops.flatMap opText))) ∧
        (serialPrint world ops (init world s).2).2.uart.settings = programmed s.uart.settings ∧
        (serialPrint world ops (init world s).2).2.uart.queue.length ≤ 1 ∧
        (serialPrint world ops (init world s).2).2.accesses
          ≤ (init world s).2.accesses + 100001 * (crlf (Text.utf8 (ops.flatMap opText))).length ∧
        (Lively world → Text.fromUtf8 (uncrlf heard) = some (ops.flatMap opText)) := by
  have hsettings : (init world s).2.uart.settings = programmed s.uart.settings := init_settings
  have hqueue : (init world s).2.uart.queue = [] := init_queue
  have hready : Ready (init world s).2 := by
    refine ⟨?_, by rw [hqueue]; exact Nat.zero_le 1⟩
    have hbit : ¬((0x03 : UInt8) &&& 0x80 ≠ 0) := by decide
    rw [hsettings]
    exact decide_eq_false hbit
  obtain ⟨hready', hkept, haccesses, heard, hline, hsub, hall⟩ := (serialPrint_sends hready ops : Sends world _ _ _)
  refine ⟨hsettings, hqueue, heard, ?_, hsub, hkept.trans hsettings, hready'.short, haccesses, ?_⟩
  · rw [hline, Uart.line, hqueue, List.append_nil]
  · intro hlively
    rw [hall hlively, uncrlf_crlf]
    exact Text.fromUtf8_eq_some_iff.mpr rfl

end Serial
end SolOs
