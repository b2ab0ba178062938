import SolOs.Lib.Polling

/-!
# The setup of the 8042 controller

`initialize_controller` of `keyboard.rs`, with its waits and the four functions that touch the ports.

* `Ports`                     what the two ports return, read after read;
* `Bus`                       the accesses that were made;
* `initializeController`      the setup;
* `Progress`                  what has been done, and that every access was allowed;
* `served`                    the status values for which no wait times out;
* `initializeController_handshake`   **the setup keeps to the handshake, whatever the ports return**;
* `initializeController_port_enabled_iff`   **when a failed setup leaves the first port enabled.**
-/

set_option linter.unusedVariables false

namespace SolOs
namespace Keyboard
open Polling

def controllerTimeout : Nat := 100000

/-- the answer to the `k`-th read of the status port, and of the data port -/
structure Ports where
  status : Nat → UInt8
  data : Nat → UInt8

inductive Access where
  | readStatus (value : UInt8)
  | readData (value : UInt8)
  | writeCommand (command : UInt8)
  | writeData (data : UInt8)
  deriving DecidableEq

/-- `trace` is a history -/
structure Bus where
  statusReads : Nat
  dataReads : Nat
  trace : List Access

def Bus.start : Bus := ⟨0, 0, []⟩

/-! ## the driver -/

section
variable (ports : Ports)

def readStatus : StateM Bus UInt8 := fun s =>
  (ports.status s.statusReads,
    { s with
      statusReads := s.statusReads + 1
      trace := s.trace ++ [.readStatus (ports.status s.statusReads)] })

def readData : StateM Bus UInt8 := fun s =>
  (ports.data s.dataReads,
    { s with
      dataReads := s.dataReads + 1
      trace := s.trace ++ [.readData (ports.data s.dataReads)] })

def writeCommand (command : UInt8) : StateM Bus Unit := fun s =>
  ((), { s with trace := s.trace ++ [.writeCommand command] })

def writeData (data : UInt8) : StateM Bus Unit := fun s =>
  ((), { s with trace := s.trace ++ [.writeData data] })

def inputEmpty (status : UInt8) : Bool := status &&& 0x02 = 0

def outputFull (status : UInt8) : Bool := status &&& 0x01 ≠ 0

/-- the loop of the two waits -/
def waitFor (test : UInt8 → Bool) : Nat → StateM Bus Bool
  | 0 => pure false
  | n + 1 => do
    let status ← readStatus ports
    if test status then pure true else waitFor test n

def waitForInputEmpty : StateM Bus Bool := waitFor ports inputEmpty controllerTimeout

def waitForOutputFull : StateM Bus Bool := waitFor ports outputFull controllerTimeout

def drainLoop : Nat → StateM Bus Unit
  | 0 => pure ()
  | n + 1 => do
    let status ← readStatus ports
    if outputFull status = false then pure ()
    else do
      let _ ← readData ports
      drainLoop n

def drainOutput : StateM Bus Unit := drainLoop ports 32

def initializeController : StateM Bus Bool := do
  if !(← waitForInputEmpty ports) then return false
  writeCommand 0xad
  drainOutput ports
  if !(← waitForInputEmpty ports) then return false
  writeCommand 0x20
  if !(← waitForOutputFull ports) then return false
  let commandByte ← readData ports
  let configured := (commandByte ||| 0x01 ||| 0x40) &&& ~~~0x10
  if !(← waitForInputEmpty ports) then return false
  writeCommand 0x60
  if !(← waitForInputEmpty ports) then return false
  writeData configured
  if !(← waitForInputEmpty ports) then return false
  writeCommand 0xae
  return true

end

section
variable {α β : Type} {s : Bus}

@[simp] theorem driver_bind (x : StateM Bus α) (f : α → StateM Bus β) :
    (x >>= f) s = f (x s).1 (x s).2 := rfl

@[simp] theorem driver_pure (a : α) : (pure a : StateM Bus α) s = (a, s) := rfl

/-- `if !wait() { return false; }` and what follows it -/
theorem driver_unless {Q : Bool × Bus → Prop} {wait k : StateM Bus Bool}
    (hfail : ∀ t, wait s = (false, t) → Q (false, t)) (hgo : ∀ t, wait s = (true, t) → Q (k t)) :
    Q ((do if !(← wait) then return false
           k) s) := by
  rcases hw : wait s with ⟨b, t⟩
  cases b with
  | false => simpa [hw] using hfail t hw
  | true => simpa [hw] using hgo t hw

end

/-! ## traces -/

def Access.isEffect : Access → Bool
  | .readStatus _ => false
  | _ => true

/-- the access may follow a read of this status -/
def Access.allowedBy (status : UInt8) : Access → Bool
  | .readStatus _ => true
  | .readData _ => outputFull status
  | .writeCommand _ | .writeData _ => inputEmpty status

/-- the last access was a status read that passes the test -/
def LastStatus (test : UInt8 → Bool) (trace : List Access) : Prop :=
  ∃ status, trace.getLast? = some (.readStatus status) ∧ test status = true

def Handshake (trace : List Access) : Prop :=
  Guarded (fun access => access.isEffect = false)
    (fun before access => ∃ status, before = .readStatus status ∧ access.allowedBy status = true) trace

/-- `done` is what the trace contains besides status reads -/
structure Progress (trace done : List Access) (budget : Nat) : Prop where
  effects : trace.filter Access.isEffect = done
  handshake : Handshake trace
  length : trace.length ≤ budget

section
variable {trace done : List Access} {n m : Nat}

theorem Progress.start : Progress Bus.start.trace [] 0 := ⟨rfl, .nil, le_refl _⟩

theorem Progress.mono (h : Progress trace done n) (hnm : n ≤ m) : Progress trace done m :=
  ⟨h.effects, h.handshake, h.length.trans hnm⟩

theorem Progress.poll (h : Progress trace done n) (status : UInt8) :
    Progress (trace ++ [.readStatus status]) done (n + 1) where
  effects := by simp [h.effects, Access.isEffect]
  handshake := h.handshake.snoc (.inl rfl)
  length := by simpa using h.length

theorem Progress.effect (h : Progress trace done n) {access : Access} (he : access.isEffect = true)
    (hl : LastStatus (access.allowedBy ·) trace) : Progress (trace ++ [access]) (done ++ [access]) (n + 1) where
  effects := by simp [h.effects, he]
  handshake := by
    obtain ⟨status, hlast, hallowed⟩ := hl
    exact h.handshake.snoc (.inr ⟨_, hlast, status, rfl, hallowed⟩)
  length := by simpa using h.length

theorem Handshake.before (h : Handshake trace) {pre post : List Access} {access : Access}
    (e : trace = pre ++ access :: post) (he : access.isEffect = true) :
    LastStatus (access.allowedBy ·) pre := by
  obtain hfree | ⟨_, hlast, status, rfl, hallowed⟩ := h pre access post e
  · exact absurd (hfree.symm.trans he) Bool.false_ne_true
  · exact ⟨status, hlast, hallowed⟩

theorem lastStatus_poll {test : UInt8 → Bool} {status : UInt8} (h : test status = true) :
    LastStatus test (trace ++ [.readStatus status]) :=
  ⟨status, List.getLast?_concat, h⟩

end

/-! ## the loops -/

section
variable (ports : Ports)

/-- what a wait of at most `n` polls does from `s` on -/
structure Waited (test : UInt8 → Bool) (n : Nat) (s : Bus) (r : Bool × Bus) : Prop where
  progress : ∀ done m, Progress s.trace done m → Progress r.2.trace done (m + n)
  last : r.1 = true → LastStatus test r.2.trace
  after : after ports.status test n s.statusReads = if r.1 then some r.2.statusReads else none

theorem waitFor_spec (test : UInt8 → Bool) (n : Nat) (s : Bus) :
    Waited ports test n s (waitFor ports test n s) := by
  induction n generalizing s with
  | zero => exact ⟨fun done m h => h, by simp [waitFor], by simp [waitFor]⟩
  | succ n ih =>
    cases ht : test (ports.status s.statusReads) with
    | true =>
      have hrun : waitFor ports test (n + 1) s = (true, (readStatus ports s).2) := by
        simp [waitFor, readStatus, ht]
      rw [hrun]
      refine ⟨fun done m h => ?_, fun _ => lastStatus_poll ht, after_of_pass ht⟩
      exact (h.poll _).mono (by omega)
    | false =>
      have hrun : waitFor ports test (n + 1) s = waitFor ports test n (readStatus ports s).2 := by
        simp [waitFor, readStatus, ht]
      obtain ⟨hprogress, hlast, hafter⟩ := ih (readStatus ports s).2
      rw [hrun]
      refine ⟨fun done m h => ?_, hlast, (after_of_fail ht).trans hafter⟩
      exact (hprogress done _ (h.poll _)).mono (by omega)

variable {ports} {test : UInt8 → Bool} {n : Nat} {s t : Bus}

theorem waited_of_eq {b : Bool} (h : waitFor ports test n s = (b, t)) : Waited ports test n s (b, t) :=
  h ▸ waitFor_spec ports test n s

/-- the number of the status read behind `drain_output` -/
def drainEnd (status : Nat → UInt8) : Nat → Nat → Nat
  | 0, i => i
  | n + 1, i => if outputFull (status i) then drainEnd status n (i + 1) else i + 1

variable (ports) in
theorem drainLoop_spec (n : Nat) {s : Bus} {done : List Access} {m : Nat} (h : Progress s.trace done m) :
    (drainLoop ports n s).2.statusReads = drainEnd ports.status n s.statusReads ∧
      ∃ bytes : List UInt8, bytes.length ≤ n ∧
        Progress (drainLoop ports n s).2.trace (done ++ bytes.map .readData) (m + 2 * n) := by
  induction n generalizing s done m with
  | zero => exact ⟨rfl, [], le_refl _, by simpa [drainLoop] using h⟩
  | succ n ih =>
    cases ht : outputFull (ports.status s.statusReads) with
    | false =>
      have hrun : drainLoop ports (n + 1) s = ((), (readStatus ports s).2) := by
        simp [drainLoop, readStatus, ht]
      rw [hrun, drainEnd, if_neg (by simp [ht])]
      refine ⟨rfl, [], Nat.zero_le _, ?_⟩
      rw [List.map_nil, List.append_nil]
      exact (h.poll _).mono (by omega)
    | true =>
      have hrun : drainLoop ports (n + 1) s
          = drainLoop ports n (readData ports (readStatus ports s).2).2 := by
        simp [drainLoop, readStatus, ht]
      have hread : Progress (readData ports (readStatus ports s).2).2.trace
          (done ++ [.readData (ports.data s.dataReads)]) (m + 2) :=
        (h.poll _).effect rfl (lastStatus_poll ht)
      obtain ⟨hreads, bytes, hlen, hprogress⟩ := ih hread
      rw [hrun, drainEnd, if_pos ht]
      refine ⟨hreads, ports.data s.dataReads :: bytes, by simpa using hlen, ?_⟩
      simpa using hprogress.mono (by omega)

end

/-! ## the whole setup -/

/-- what the setup does besides status reads, when it is not aborted: `bytes` are drained, and
`commandByte` is the answer to the command `0x20` -/
def script (bytes : List UInt8) (commandByte : UInt8) : List Access :=
  .writeCommand 0xad :: bytes.map .readData ++ [.writeCommand 0x20, .readData commandByte,
    .writeCommand 0x60, .writeData ((commandByte ||| 0x41) &&& ~~~0x10), .writeCommand 0xae]

/-- waits for these tests from status read `i` on; `none` when one of them times out -/
def servedFrom (status : Nat → UInt8) : List (UInt8 → Bool) → Nat → Option Nat
  | [], i => some i
  | test :: tests, i => (after status test controllerTimeout i).bind (servedFrom status tests)

/-- the waits of the setup -/
def served (status : Nat → UInt8) : Option Nat :=
  (after status inputEmpty controllerTimeout 0).bind fun i =>
    servedFrom status [inputEmpty, outputFull, inputEmpty, inputEmpty, inputEmpty]
      (drainEnd status 32 i)

/-- how the setup ends: after the part `done` of the script -/
structure Ending (ports : Ports) (r : Bool × Bus) (bytes : List UInt8) (commandByte : UInt8)
    (done rest : List Access) : Prop where
  bytes_length : bytes.length ≤ 32
  split : script bytes commandByte = done ++ rest
  progress : Progress r.2.trace done (6 * controllerTimeout + 70)
  finished : r.1 = true ↔ rest = []
  silent : done = [] ↔ after ports.status inputEmpty controllerTimeout 0 = none
  served : r.1 = (served ports.status).isSome

theorem configured_eq (b : UInt8) : (b ||| 0x01 ||| 0x40) &&& ~~~0x10 = (b ||| 0x41) &&& ~~~0x10 := by
  rw [UInt8.or_assoc]
  rfl

def Ends (ports : Ports) (r : Bool × Bus) : Prop :=
  ∃ bytes commandByte done rest, Ending ports r bytes commandByte done rest

/-- a point inside the setup: `done` is done, and `k` are the waits that are still to come -/
structure Reached (ports : Ports) (s : Bus) (done : List Access) (m : Nat) (k : Nat → Option Nat) : Prop where
  progress : Progress s.trace done m
  served : served ports.status = k s.statusReads

section
variable {ports : Ports} {s t t' : Bus} {test : UInt8 → Bool} {done : List Access} {m : Nat}
  {k : Nat → Option Nat}

/-- a wait that times out is the end of the setup -/
theorem Reached.timeout
    (r : Reached ports s done m (fun i => (after ports.status test controllerTimeout i).bind k))
    (h : waitFor ports test controllerTimeout s = (false, t)) :
    Progress t.trace done (m + controllerTimeout) ∧ SolOs.Keyboard.served ports.status = none := by
  have w := waited_of_eq h
  refine ⟨w.progress done m r.progress, ?_⟩
  rw [r.served, w.after]
  rfl

/-- a wait and the access for which it is made -/
theorem Reached.act
    (r : Reached ports s done m (fun i => (after ports.status test controllerTimeout i).bind k))
    (h : waitFor ports test controllerTimeout s = (true, t)) {access : Access}
    (he : access.isEffect = true) (ha : ∀ status, access.allowedBy status = test status)
    (htrace : t'.trace = t.trace ++ [access]) (hreads : t'.statusReads = t.statusReads) :
    Reached ports t' (done ++ [access]) (m + controllerTimeout + 1) k := by
  have w := waited_of_eq h
  obtain ⟨status, hlast, htest⟩ := w.last rfl
  constructor
  · rw [htrace]
    exact (w.progress done m r.progress).effect he ⟨status, hlast, (ha status).trans htest⟩
  · rw [r.served, w.after, hreads]
    rfl

/-- the end of the setup behind the first command -/
theorem Reached.abort
    (r : Reached ports s done m (fun i => (after ports.status test controllerTimeout i).bind k))
    (h : waitFor ports test controllerTimeout s = (false, t)) {i : Nat}
    (a₁ : after ports.status inputEmpty controllerTimeout 0 = some i) {bytes : List UInt8}
    (hlen : bytes.length ≤ 32) (hm : m ≤ 5 * controllerTimeout + 70) (commandByte : UInt8)
    (rest : List Access) (hsplit : script bytes commandByte = done ++ rest) (hdone : done ≠ [])
    (hrest : rest ≠ []) : Ends ports (false, t) := by
  obtain ⟨p, hs⟩ := r.timeout h
  exact ⟨bytes, commandByte, done, rest, hlen, hsplit, p.mono (by omega), by simp [hrest],
    by simp [hdone, a₁], by simp [hs]⟩

end

theorem initializeController_ends (ports : Ports) : Ends ports (initializeController ports .start) := by
  unfold initializeController
  have r₀ : Reached ports .start [] 0 (fun i => (after ports.status inputEmpty controllerTimeout i).bind _) :=
    ⟨.start, rfl⟩
  -- the six waits in order; each leaves the setup when it times out
  refine driver_unless (fun s₁ h₁ => ?_) (fun s₁ h₁ => ?_)
  · obtain ⟨p, hs⟩ := r₀.timeout h₁
    have a₁ : after ports.status inputEmpty controllerTimeout 0 = none := (waited_of_eq h₁).after
    exact ⟨[], 0, [], script [] 0, by simp, rfl, p.mono (by omega), by simp [script], by simp [a₁],
      by simp [hs]⟩
  have a₁ : after ports.status inputEmpty controllerTimeout 0 = some s₁.statusReads := (waited_of_eq h₁).after
  have r₁ : Reached ports (writeCommand 0xad s₁).2 [.writeCommand 0xad] _ _ :=
    r₀.act h₁ rfl (fun _ => rfl) rfl rfl
  obtain ⟨hdrain, bytes, hlen, p₂⟩ := drainLoop_spec ports 32 r₁.progress
  rw [driver_bind, driver_bind]
  have r₂ : Reached ports (drainOutput ports (writeCommand 0xad s₁).2).2 _ _ _ :=
    ⟨p₂, r₁.served.trans (by rw [drainOutput, hdrain])⟩
  refine driver_unless (fun s₂ h₂ => r₂.abort h₂ a₁ hlen (by omega) 0 _ rfl (by simp) (by simp))
    (fun s₂ h₂ => ?_)
  have r₃ : Reached ports (writeCommand 0x20 s₂).2 _ _ _ := r₂.act h₂ rfl (fun _ => rfl) rfl rfl
  rw [driver_bind]
  refine driver_unless
    (fun s₃ h₃ => r₃.abort h₃ a₁ hlen (by omega) 0 _ (by simp [script]; rfl) (by simp) (by simp))
    (fun s₃ h₃ => ?_)
  let b := ports.data s₃.dataReads
  have r₄ : Reached ports (readData ports s₃).2 _ _ _ := r₃.act h₃ rfl (fun _ => rfl) rfl rfl
  rw [driver_bind]
  refine driver_unless
    (fun s₄ h₄ => r₄.abort h₄ a₁ hlen (by omega) b _ (by simp [script, b]; rfl) (by simp) (by simp))
    (fun s₄ h₄ => ?_)
  have r₅ : Reached ports (writeCommand 0x60 s₄).2 _ _ _ := r₄.act h₄ rfl (fun _ => rfl) rfl rfl
  rw [driver_bind]
  refine driver_unless
    (fun s₅ h₅ => r₅.abort h₅ a₁ hlen (by omega) b _ (by simp [script, b]; rfl) (by simp) (by simp))
    (fun s₅ h₅ => ?_)
  have r₆ : Reached ports (writeData ((b ||| 0x41) &&& ~~~0x10) s₅).2 _ _ _ :=
    r₅.act h₅ rfl (fun _ => rfl) rfl rfl
  rw [driver_bind, configured_eq]
  refine driver_unless
    (fun s₆ h₆ => r₆.abort h₆ a₁ hlen (by omega) b _ (by simp [script, b]; rfl) (by simp) (by simp))
    (fun s₆ h₆ => ?_)
  have r₇ : Reached ports (writeCommand 0xae s₆).2 _ _ _ := r₆.act h₆ rfl (fun _ => rfl) rfl rfl
  exact ⟨bytes, b, _, [], hlen, by simp [script, b], r₇.progress.mono (by omega), by simp, by simp [a₁],
    by simp [r₇.served, servedFrom]⟩

/-! ## what the setup guarantees -/

/-- the accesses that the setup makes -/
def controllerTrace (ports : Ports) : List Access := (initializeController ports .start).2.trace

/-- what the setup returns -/
def controllerReady (ports : Ports) : Bool := (initializeController ports .start).1

def Access.command? : Access → Option UInt8
  | .writeCommand command => some command
  | _ => none

def Access.written? : Access → Option UInt8
  | .writeData data => some data
  | _ => none

def commands (trace : List Access) : List UInt8 := trace.filterMap Access.command?

def dataWrites (trace : List Access) : List UInt8 := trace.filterMap Access.written?

section
variable {trace : List Access}

/-- status reads write nothing -/
theorem filterMap_effects {f : Access → Option UInt8} (hf : ∀ status, f (.readStatus status) = none) :
    (trace.filter Access.isEffect).filterMap f = trace.filterMap f := by
  rw [List.filterMap_filter]
  congr 1
  funext access
  cases access <;> simp [Access.isEffect, hf]

theorem commands_effects : commands (trace.filter Access.isEffect) = commands trace :=
  filterMap_effects fun _ => rfl

theorem dataWrites_effects : dataWrites (trace.filter Access.isEffect) = dataWrites trace :=
  filterMap_effects fun _ => rfl

theorem commands_append (t u : List Access) : commands (t ++ u) = commands t ++ commands u :=
  List.filterMap_append

theorem commands_script (bytes : List UInt8) (b : UInt8) :
    commands (script bytes b) = [0xad, 0x20, 0x60, 0xae] := by
  simp [commands, script, List.filterMap_cons, Access.command?, List.filterMap_map, Function.comp_def]

theorem dataWrites_script (bytes : List UInt8) (b : UInt8) :
    dataWrites (script bytes b) = [(b ||| 0x41) &&& ~~~0x10] := by
  simp [dataWrites, script, List.filterMap_cons, Access.written?, List.filterMap_map, Function.comp_def]

/-- the last command is missing in every part of the script -/
theorem not_mem_commands {bytes : List UInt8} {b : UInt8} {done rest : List Access}
    (h : script bytes b = done ++ rest) (hrest : rest ≠ []) : 0xae ∉ commands done := by
  obtain rfl | ⟨front, access, rfl⟩ := List.eq_nil_or_concat rest
  · exact absurd rfl hrest
  have hlast : access = .writeCommand 0xae := by
    have hl := congrArg List.getLast? h
    simpa [script, List.getLast?_cons, List.getLast?_append] using hl.symm
  have hc : ([0xad, 0x20, 0x60] : List UInt8) ++ [0xae] = commands done ++ commands front ++ [0xae] := by
    have hsplit := congrArg commands h
    rw [hlast, commands_script, commands_append, List.concat_eq_append, commands_append,
      ← List.append_assoc] at hsplit
    exact hsplit
  have hinit := (List.append_inj' hc rfl).1
  intro hmem
  have : 0xae ∈ ([0xad, 0x20, 0x60] : List UInt8) := hinit ▸ List.mem_append_left _ hmem
  exact absurd this (by decide)

variable {ports : Ports} {r : Bool × Bus} {bytes : List UInt8} {b : UInt8} {done rest : List Access}

theorem Ending.commands_eq (o : Ending ports r bytes b done rest) :
    commands r.2.trace = commands done := by
  rw [← commands_effects, o.progress.effects]

/-- success is that all four commands were written -/
theorem Ending.ready_iff (o : Ending ports r bytes b done rest) :
    r.1 = true ↔ commands r.2.trace = [0xad, 0x20, 0x60, 0xae] := by
  rw [o.finished, o.commands_eq]
  constructor
  · intro hrest
    rw [← commands_script bytes b, o.split, hrest, List.append_nil]
  · intro hall
    by_contra hrest
    exact not_mem_commands o.split hrest (by simp [hall])

/-- a failed setup that took the first step leaves the port disabled -/
theorem Ending.left_disabled (o : Ending ports r bytes b done rest) (hr : r.1 = false)
    (hdone : done ≠ []) : ∃ post, commands r.2.trace = 0xad :: post ∧ 0xae ∉ post := by
  have hrest : rest ≠ [] := fun hnil => Bool.false_ne_true (hr.symm.trans (o.finished.mpr hnil))
  obtain ⟨access, front, rfl⟩ := List.exists_cons_of_ne_nil hdone
  obtain rfl : .writeCommand 0xad = access := List.head_eq_of_cons_eq o.split
  refine ⟨commands front, o.commands_eq, fun hmem => ?_⟩
  exact not_mem_commands o.split hrest (List.mem_cons_of_mem _ hmem)

end

/-- **the handshake, whatever the ports return**: every write comes directly after a status read with the
input buffer empty and every read of data directly after one with the output buffer full; besides status
reads the setup does the script, or the start of it when it fails, and the number of accesses is
bounded. -/
theorem initializeController_handshake (ports : Ports) :
    (∀ pre access post, controllerTrace ports = pre ++ access :: post →
      (∀ b, access = .writeCommand b ∨ access = .writeData b →
        ∃ status, pre.getLast? = some (.readStatus status) ∧ status &&& 0x02 = 0) ∧
      (∀ b, access = .readData b →
        ∃ status, pre.getLast? = some (.readStatus status) ∧ status &&& 0x01 ≠ 0)) ∧
    commands (controllerTrace ports) <+: [0xad, 0x20, 0x60, 0xae] ∧
    (dataWrites (controllerTrace ports)).length ≤ 1 ∧
    (∃ bytes b, bytes.length ≤ 32 ∧ (controllerTrace ports).filter Access.isEffect <+: script bytes b ∧
      (controllerReady ports = true ↔ (controllerTrace ports).filter Access.isEffect = script bytes b)) ∧
    (controllerReady ports = true ↔ commands (controllerTrace ports) = [0xad, 0x20, 0x60, 0xae]) ∧
    (controllerTrace ports).length ≤ 6 * controllerTimeout + 70 := by
  obtain ⟨bytes, b, done, rest, o⟩ := initializeController_ends ports
  have heffects : (controllerTrace ports).filter Access.isEffect = done := o.progress.effects
  have hpart : done <+: script bytes b := ⟨rest, o.split.symm⟩
  refine ⟨?_, ?_, ?_, ⟨bytes, b, o.bytes_length, ?_, ?_⟩, o.ready_iff, o.progress.length⟩
  · intro pre access post e
    have hbefore := fun he => o.progress.handshake.before e he
    constructor
    · intro c hc
      have hempty : LastStatus inputEmpty pre := by
        obtain rfl | rfl := hc <;> exact hbefore rfl
      obtain ⟨status, hlast, hs⟩ := hempty
      exact ⟨status, hlast, of_decide_eq_true hs⟩
    · intro c hc
      subst hc
      obtain ⟨status, hlast, hs⟩ := hbefore rfl
      exact ⟨status, hlast, of_decide_eq_true hs⟩
  · rw [← commands_effects, heffects, ← commands_script bytes b]
    exact hpart.filterMap _
  · rw [← dataWrites_effects, heffects]
    exact (hpart.filterMap Access.written?).length_le.trans_eq (by rw [← dataWrites, dataWrites_script]; rfl)
  · rw [heffects]
    exact hpart
  · rw [heffects, o.split, controllerReady, o.finished]
    simp

/-- the first command is taken, and a later wait times out -/
theorem left_disabled_of_timeout (ports : Ports) (h : inputEmpty (ports.status 0) = true)
    (hs : served ports.status = none) :
    controllerReady ports = false ∧
      ∃ post, commands (controllerTrace ports) = 0xad :: post ∧ 0xae ∉ post := by
  obtain ⟨bytes, b, done, rest, o⟩ := initializeController_ends ports
  have hr : controllerReady ports = false := o.served.trans (by rw [hs]; rfl)
  have hdone : done ≠ [] := by
    rw [Ne, o.silent, controllerTimeout, after_of_pass h]
    simp
  exact ⟨hr, o.left_disabled hr hdone⟩

/-- **when a failed setup leaves the first port enabled**: exactly when the controller never takes the
first command, or when no later wait times out, so that the setup does not fail -/
theorem initializeController_port_enabled_iff (ports : Ports) :
    (controllerReady ports = false → ∀ pre post,
      commands (controllerTrace ports) = pre ++ 0xad :: post → 0xae ∈ post) ↔
    (∀ k < controllerTimeout, inputEmpty (ports.status k) = false) ∨
      (served ports.status).isSome = true := by
  obtain ⟨bytes, b, done, rest, o⟩ := initializeController_ends ports
  have hsilent : done = [] ↔ ∀ k < controllerTimeout, inputEmpty (ports.status k) = false := by
    rw [o.silent, after_eq_none_iff]
    simp
  have hready : controllerReady ports = (served ports.status).isSome := o.served
  rw [← hsilent, ← hready]
  constructor
  · intro h
    by_contra hc
    rw [not_or, Bool.not_eq_true] at hc
    obtain ⟨hdone, hr⟩ := hc
    obtain ⟨post, hcommands, hmissing⟩ := o.left_disabled hr hdone
    exact hmissing (h hr [] post hcommands)
  · intro h hr pre post e
    obtain rfl | htrue := h
    · rw [controllerTrace, o.commands_eq] at e
      exact absurd e.symm (by simp [commands])
    · exact absurd (htrue.symm.trans hr) (by decide)

/-- a controller that takes every command and never answers -/
def mutePorts : Ports := ⟨fun _ => 0, fun _ => 0⟩

theorem mutePorts_served : served mutePorts.status = none := by
  have hfull : ∀ i, after mutePorts.status outputFull controllerTimeout i = none :=
    fun i => after_eq_none_iff.mpr (fun k _ => by simp [mutePorts, outputFull])
  simp [served, servedFrom, hfull]

theorem mutePorts_left_disabled :
    controllerReady mutePorts = false ∧
      ∃ post, commands (controllerTrace mutePorts) = 0xad :: post ∧ 0xae ∉ post :=
  left_disabled_of_timeout mutePorts rfl mutePorts_served

end Keyboard
end SolOs
