import SolOs.Lib.Locks
import SolOs.Console.Writer

/-!
# Fault diagnostics and the console locks

`serial.rs`, `console.rs`, the lock discipline of `framebuffer.rs`, and the handlers of
`interrupts.rs` and `main.rs` that print a diagnostic and halt.  One processor runs the main context
until a trap takes it over for good: the locks it held stay taken.

* `Lock`, `Act`, `Op`       the two mutexes, the writes under them, the operations of the main context;
* `Op.sections`             an operation as critical sections, in the order of the code;
* `Trap`, `Trap.blocks`     the four handlers;
* `mainAt`, `enter`         the main context after any number of steps, and a trap at that point;
* `diagnostics_complete_iff`  when a handler reaches its halt loop.
-/

set_option linter.unusedVariables false

namespace SolOs
namespace Console
open Checked Text Locks

/-! ## the console under its locks -/

/-- `SERIAL_LOCK` and `WRITER` -/
inductive Lock where
  | serial
  | writer
  deriving DecidableEq

/-- one write under a lock -/
inductive Act where
  | writeByte (byte : UInt8)
  | hideCursor
  | writeChar (character : Char)
  | showCursor
  | clear
  deriving DecidableEq

/-- `SerialWriter::write_str` -/
def serialBytes (text : Str) : List UInt8 :=
  (text.flatMap String.utf8EncodeChar).flatMap fun byte => if byte = 10 then [13, byte] else [byte]

/-- what the main context asks of the console -/
inductive Op where
  | print (text : Str)
  | serialPrint (text : Str)
  | clear
  | showCursor

def Op.println (text : Str) : Op := .print (text ++ ['\n'])

def Op.serialPrintln (text : Str) : Op := .serialPrint (text ++ ['\n'])

/-- `serial::print` -/
def serialSection (text : Str) : Lock × List Act := (.serial, (serialBytes text).map .writeByte)

/-- `if let Some(writer) = WRITER.lock().as_mut()`; `ready` once `init` has stored a writer -/
def writerSection (ready : Bool) (body : List Act) : Lock × List Act :=
  (.writer, if ready then body else [])

/-- `hide_cursor` and `write_fmt` -/
def printActs (text : Str) : List Act := .hideCursor :: text.map .writeChar

def Op.sections (ready : Bool) : Op → List (Lock × List Act)
  | .print text => [serialSection text, writerSection ready (printActs text)]
  | .serialPrint text => [serialSection text]
  | .clear => [writerSection ready [.clear]]
  | .showCursor => [writerSection ready [.showCursor]]

def sections (ready : Bool) (ops : List Op) : List (Lock × List Act) :=
  ops.flatMap (Op.sections ready)

/-! ## the writes are those of the console model -/

def Act.perform (font : Font) (act : Act) (w : FramebufferWriter) : Run Empty FramebufferWriter :=
  match act with
  | .writeByte _ => pure w
  | .hideCursor => w.hideCursor
  | .writeChar character => w.writeChar font character
  | .showCursor => w.showCursor
  | .clear => w.clear

def Op.consoleOps : Op → List ConsoleOp
  | .print text => [.print text]
  | .serialPrint _ => []
  | .clear => [.clear]
  | .showCursor => [.showCursor]

section
variable {font : Font}

theorem perform_bytes (bytes : List UInt8) (acts : List Act) (w : FramebufferWriter) :
    forEach (bytes.map .writeByte ++ acts) (Act.perform font) w = forEach acts (Act.perform font) w := by
  induction bytes with
  | nil => rfl
  | cons byte bytes ih => exact ih

theorem perform_chars (text : Str) (w : FramebufferWriter) :
    forEach (text.map .writeChar) (Act.perform font) w = w.writeStr font text := by
  induction text generalizing w with
  | nil => rfl
  | cons c text ih =>
    show (w.writeChar font c >>= fun w => forEach (text.map .writeChar) (Act.perform font) w)
      = (w.writeChar font c >>= fun w => w.writeStr font text)
    exact congrArg _ (funext ih)

theorem perform_op (op : Op) (w : FramebufferWriter) :
    forEach ((op.sections true).flatMap Prod.snd) (Act.perform font) w = w.execAll font op.consoleOps := by
  cases op with
  | print text =>
    show forEach ((serialBytes text).map .writeByte ++ (printActs text ++ [])) (Act.perform font) w = _
    rw [perform_bytes, List.append_nil]
    show (w.hideCursor >>= fun w => forEach (text.map .writeChar) (Act.perform font) w)
      = (w.print font text >>= fun w => pure w)
    rw [show (fun w => forEach (text.map .writeChar) (Act.perform font) w)
      = (fun w => FramebufferWriter.writeStr font w text) from funext (perform_chars text)]
    exact (bind_pure _).symm
  | serialPrint text =>
    exact perform_bytes (serialBytes text) [] w
  | clear => rfl
  | showCursor => rfl

/-- the framebuffer after the operations is the one of the console model -/
theorem perform_ops (ops : List Op) :
    ∀ w : FramebufferWriter, forEach ((sections true ops).flatMap Prod.snd) (Act.perform font) w
      = w.execAll font (ops.flatMap Op.consoleOps) := by
  induction ops with
  | nil => exact fun w => rfl
  | cons op ops ih =>
    intro w
    show forEach ((Op.sections true op ++ sections true ops).flatMap Prod.snd) (Act.perform font) w
      = forEach (op.consoleOps ++ ops.flatMap Op.consoleOps) (FramebufferWriter.exec font) w
    rw [List.flatMap_append, forEach, List.foldlM_append, forEach, List.foldlM_append]
    show (forEach _ _ w >>= _) = _
    rw [perform_op]
    exact congrArg _ (funext ih)

end

/-! ## the handlers -/

/-- `{:#x}` -/
def hex (n : UInt64) : Str := ['0', 'x'] ++ Nat.toDigits 16 n.toNat

/-- the traps that end in `hlt_loop`, with what their diagnostics render; `frame`, `error` and `info`
are the texts that `core::fmt` makes of the stack frame, the error flags and the panic -/
inductive Trap where
  | generalProtectionFault (errorCode : UInt64) (frame : Str)
  | pageFault (address : UInt64) (error frame : Str)
  | doubleFault (errorCode : UInt64) (frame : Str)
  | panic (info : Str)

/-- `framebuffer::panic_print` -/
def panicPrint (ready : Bool) (text : Str) : Block Lock Act :=
  .attempt .writer (if ready then printActs text else [])

/-- a fault handler between `interrupts::disable` and `hlt_loop`: a mark for the serial log, then
lines for both devices -/
def report (ready : Bool) (event : String) (lines : List Str) : List (Block Lock Act) :=
  guardedAll (sections ready (.serialPrintln event.toList :: lines.map .println))

/-- the handlers -/
def Trap.blocks (ready : Bool) : Trap → List (Block Lock Act)
  | .generalProtectionFault errorCode frame =>
    report ready "EXCEPTION_GENERAL_PROTECTION_FAULT"
      ["\nGENERAL PROTECTION FAULT".toList, "error code: ".toList ++ hex errorCode, frame]
  | .pageFault address error frame =>
    report ready "EXCEPTION_PAGE_FAULT"
      ["\nPAGE FAULT".toList, "address: ".toList ++ hex address, "error: ".toList ++ error, frame]
  | .doubleFault errorCode frame =>
    report ready "EXCEPTION_DOUBLE_FAULT_IST_OK"
      ["\nDOUBLE FAULT (dedicated IST stack)".toList, "error code: ".toList ++ hex errorCode, frame]
  | .panic info =>
    guardedAll (sections ready [.serialPrintln ("KERNEL PANIC: ".toList ++ info)])
      ++ [panicPrint ready ("\nKERNEL PANIC: ".toList ++ info ++ ['\n'])]

def Trap.isPanic : Trap → Bool
  | .panic _ => true
  | _ => false

/-! ## the main context and its interruption -/

/-- the main context after `n` steps -/
def mainAt (ready : Bool) (ops : List Op) (n : Nat) : Machine Lock Act :=
  step^[n] ⟨fun _ => false, code (guardedAll (sections ready ops)), []⟩

/-- the handler takes over and never returns -/
def enter (ready : Bool) (trap : Trap) (m : Machine Lock Act) : Machine Lock Act :=
  { m with code := code (trap.blocks ready) }

/-- the critical section in which the main context stands after `n` steps -/
def sectionAt (ready : Bool) (ops : List Op) (n : Nat) : Option Lock := inside (sections ready ops) n

theorem mainAt_taken (ready : Bool) (ops : List Op) (n : Nat) (l : Lock) :
    (mainAt ready ops n).taken l = decide (sectionAt ready ops n = some l) :=
  taken_eq _ n [] l

/-- without a trap the main context runs through -/
theorem main_completes (ready : Bool) (ops : List Op) : Completes (mainAt ready ops 0) :=
  (completes_iff _ _ []).mpr fun _ _ _ _ => rfl

/-- the locks of an operation, in order -/
def Op.locks : Op → List Lock
  | .print _ => [.serial, .writer]
  | .serialPrint _ => [.serial]
  | .clear | .showCursor => [.writer]

theorem sections_locks (ready : Bool) (ops : List Op) :
    (sections ready ops).map Prod.fst = ops.flatMap Op.locks := by
  induction ops with
  | nil => rfl
  | cons op ops ih =>
    show (op.sections ready ++ sections ready ops).map Prod.fst = op.locks ++ ops.flatMap Op.locks
    rw [List.map_append, ih]
    cases op <;> rfl

theorem waits_sections {ready : Bool} {ops : List Op} {l : Lock} :
    (∃ b ∈ guardedAll (sections ready ops), b.waits = some l) ↔ l ∈ ops.flatMap Op.locks := by
  rw [← sections_locks ready ops, List.mem_map]
  simp [guardedAll, Block.waits]

/-- a report with a line waits for both devices -/
theorem waits_report (ready : Bool) (event : String) (line : Str) (lines : List Str) (l : Lock) :
    ∃ b ∈ report ready event (line :: lines), b.waits = some l := by
  apply waits_sections.mpr
  show l ∈ .serial :: .serial :: .writer :: (lines.map Op.println).flatMap Op.locks
  cases l <;> simp

/-- every handler waits for the serial port, and all but the panic handler for the framebuffer -/
theorem Trap.waits_iff (ready : Bool) (trap : Trap) (l : Lock) :
    (∃ b ∈ trap.blocks ready, b.waits = some l) ↔ (l = .writer → trap.isPanic = false) := by
  cases trap with
  | panic info =>
    generalize htext : "KERNEL PANIC: ".toList ++ info = text
    have hattempt : (∃ b ∈ [panicPrint ready ("\nKERNEL PANIC: ".toList ++ info ++ ['\n'])],
        b.waits = some l) ↔ False := by
      constructor
      · intro ⟨b, hb, hbl⟩
        rw [List.mem_singleton.mp hb] at hbl
        cases hbl
      · exact False.elim
    have hlocks : l ∈ [Op.serialPrintln text].flatMap Op.locks ↔ l = .serial := List.mem_singleton
    rw [Trap.blocks, htext]
    simp only [List.mem_append, or_and_right, exists_or, waits_sections, hattempt, hlocks, or_false]
    cases l <;> simp [isPanic]
  | _ => exact iff_of_true (waits_report _ _ _ _ l) (fun _ => rfl)

/-- a handler runs to its halt loop without asking for a lock of the interrupted context exactly when
the trap hits outside the serial critical sections and, unless it is a panic, outside those of the
framebuffer -/
theorem diagnostics_complete_iff (ready : Bool) (ops : List Op) (n : Nat) (trap : Trap) :
    Completes (enter ready trap (mainAt ready ops n))
      ↔ sectionAt ready ops n ≠ some .serial ∧
        (sectionAt ready ops n = some .writer → trap.isPanic = true) := by
  have hwaits := Trap.waits_iff ready trap
  have hfree : ∀ l, (mainAt ready ops n).taken l = false ↔ sectionAt ready ops n ≠ some l := by
    intro l
    rw [mainAt_taken, decide_eq_false_iff_not]
  show Completes ⟨_, code (trap.blocks ready), _⟩ ↔ _
  rw [completes_iff]
  constructor
  · intro h
    have hlock : ∀ l, (l = .writer → trap.isPanic = false) → sectionAt ready ops n ≠ some l := by
      intro l hl
      obtain ⟨b, hb, hbl⟩ := (hwaits l).mpr hl
      exact (hfree l).mp (h b hb l hbl)
    refine ⟨hlock .serial (by simp), ?_⟩
    intro hw
    by_contra hp
    exact hlock .writer (fun _ => by simpa using hp) hw
  · intro ⟨hserial, hwriter⟩ b hb l hbl
    have hl := (hwaits l).mp ⟨b, hb, hbl⟩
    apply (hfree l).mpr
    cases l with
    | serial => exact hserial
    | writer =>
      intro hw
      exact Bool.noConfusion ((hl rfl).symm.trans (hwriter hw))

/-- and then the whole diagnostic is written, after what the main context had written; the panic
handler leaves out the framebuffer when its lock is taken -/
theorem diagnostics_shown {ready : Bool} {trap : Trap} {m : Machine Lock Act}
    (h : Completes (enter ready trap m)) :
    ∃ k, step^[k] (enter ready trap m)
      = ⟨m.taken, [], m.trace ++ (trap.blocks ready).flatMap (Block.performs m.taken)⟩ := by
  have hfree := (completes_iff m.taken (trap.blocks ready) m.trace).mp h
  obtain ⟨k, hk, _⟩ := code_passes (trap.blocks ready) m.trace hfree
  exact ⟨k, hk⟩

/-- a page fault right after `print!` has locked the serial port: the handler spins forever -/
theorem page_fault_in_print_deadlocks :
    ¬ Completes (enter true (.pageFault 0 [] []) (mainAt true [.print ['a']] 1)) ∧
      ∀ k, (step^[k] (enter true (.pageFault 0 [] []) (mainAt true [.print ['a']] 1))).code ≠ [] := by
  have htaken : (enter true (.pageFault 0 [] []) (mainAt true [.print ['a']] 1)).taken .serial = true := by
    decide
  have hreq : Requests (enter true (.pageFault 0 [] []) (mainAt true [.print ['a']] 1)) .serial :=
    ⟨_, rfl⟩
  constructor
  · intro h
    exact h.never_requests 0 .serial htaken hreq
  · intro k
    rw [requests_forever hreq htaken k]
    obtain ⟨tail, htail⟩ := hreq
    rw [htail]
    exact List.cons_ne_nil _ _

end Console
end SolOs
