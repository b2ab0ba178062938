import SolOs.Shell.Refine
import SolOs.Shell.Execute

/-!
# From the keyboard to the shell

The decoder runs in the IRQ1 handler and pushes into the queue; the shell loop pops from it.  The two
sides are interleaved access by access, as in `Keyboard.Sys`.  The shell handles an event at the
moment at which its `pop` returns: in between it does not touch what the handler touches.

* `Machine`, `Machine.step`    decoder, queue and shell;
* `Edit.Typed`                 all bytes of the abstract editor are printable;
* `Machine.Inv`                the invariant of the whole;
* `typed_input_safe`           **it holds for every stream of scancodes and every interleaving.**
-/

set_option linter.unusedVariables false

namespace SolOs
namespace Shell
open Checked Keyboard

/-! ## the machine -/

inductive Status where
  | waiting (s : State)
  | stopped
  | panicked

/-- `inputs` is a history: the lines that were executed -/
structure Machine where
  decoder : Decoder
  queue : Keyboard.Sys
  shell : Status
  inputs : List (List UInt8)

def Machine.init : Machine := ⟨.new, .init, .waiting .new, []⟩

inductive Input where
  | scancode (byte : UInt8)
  | producer
  | consumer (now : Readings)

section
variable (fs : Fat.Fat32) (system : SystemInfo)

/-- IRQ1; the handler does not interrupt itself -/
def Machine.scancode (m : Machine) (byte : UInt8) : Option Machine :=
  match m.queue.push with
  | .idle =>
    match handleScancode m.decoder byte with
    | (decoder, none) => some { m with decoder := decoder }
    | (decoder, some event) =>
      (m.queue.step (.push event)).map fun queue => { m with decoder := decoder, queue := queue }
  | _ => none

/-- the shell gets an event -/
def Machine.handle (m : Machine) (s : State) (now : Readings) (event : KeyEvent) : Machine :=
  match step (execute fs system now) s event with
  | .error _ => { m with shell := .panicked }
  | .ok turn =>
    { m with
      shell := match turn.next with
        | some s' => .waiting s'
        | none => .stopped
      inputs := m.inputs ++ turn.input.toList }

/-- the next access of the shell to the queue -/
def Machine.consumer (m : Machine) (now : Readings) : Option Machine :=
  match m.shell with
  | .waiting s =>
    m.queue.consumer.map fun queue =>
      match m.queue.pop with
      | .storeTail _ event => Machine.handle fs system { m with queue := queue } s now event
      | _ => { m with queue := queue }
  | _ => none

def Machine.step (m : Machine) : Input → Option Machine
  | .scancode byte => m.scancode byte
  | .producer => m.queue.producer.map fun queue => { m with queue := queue }
  | .consumer now => m.consumer fs system now

end

/-! ## printable lines -/

def AllPrintable (bytes : List UInt8) : Prop := ∀ b ∈ bytes, Printable b

theorem allPrintable_append {xs ys : List UInt8} :
    AllPrintable (xs ++ ys) ↔ AllPrintable xs ∧ AllPrintable ys :=
  List.forall_mem_append

theorem allPrintable_nil : AllPrintable [] := fun b hb => absurd hb List.not_mem_nil

theorem AllPrintable.sublist {xs ys : List UInt8} (h : AllPrintable ys) (hs : xs.Sublist ys) :
    AllPrintable xs :=
  fun b hb => h b (hs.subset hb)

structure Edit.Typed (e : Edit) : Prop where
  before : AllPrintable e.before
  after : AllPrintable e.after
  hist : ∀ entry ∈ e.hist, AllPrintable entry
  draft : AllPrintable e.draft

section
variable {returns : List UInt8 → Bool} {e : Edit}

theorem Edit.new_typed : Edit.new.Typed :=
  ⟨allPrintable_nil, allPrintable_nil, fun entry h => absurd h List.not_mem_nil, allPrintable_nil⟩

theorem Edit.Typed.line (h : e.Typed) : AllPrintable e.line :=
  allPrintable_append.mpr ⟨h.before, h.after⟩

theorem Edit.Typed.insert (h : e.Typed) {text : List UInt8} (htext : AllPrintable text)
    (position : Option Nat) : ({ e with before := e.before ++ text, position := position } : Edit).Typed :=
  { h with before := allPrintable_append.mpr ⟨h.before, htext⟩ }

theorem Edit.Typed.select (h : e.Typed) (k : Nat) : (e.select k).Typed := by
  refine ⟨?_, allPrintable_nil, h.hist, h.draft⟩
  show AllPrintable ((e.hist[k]?).getD [])
  cases hk : e.hist[k]? with
  | none => exact allPrintable_nil
  | some entry => exact h.hist entry (List.mem_of_getElem? hk)

theorem record_printable {hist : List (List UInt8)} {line : List UInt8}
    (h : ∀ entry ∈ hist, AllPrintable entry) (hline : AllPrintable line) :
    ∀ entry ∈ CommandHistory.record hist line, AllPrintable entry := by
  intro entry hmem
  unfold CommandHistory.record at hmem
  split at hmem
  · exact h entry hmem
  split at hmem
  · exact h entry hmem
  · rcases List.mem_cons.mp (List.mem_of_mem_take hmem) with rfl | hmem
    · exact hline
    · exact h entry hmem

/-- an event that runs no command -/
theorem typed_of_step {e₁ : Edit} {event : KeyEvent}
    (hstep : Edit.step returns e event = (some e₁, none)) (h : e₁.Typed) :
    (∀ e', (Edit.step returns e event).1 = some e' → e'.Typed) ∧
      ∀ input, (Edit.step returns e event).2 = some input → AllPrintable input := by
  rw [hstep]
  constructor
  · intro e' he'
    cases he'
    exact h
  · intro input hinput
    cases hinput

/-- a typed byte is printable, and no other event brings in new bytes -/
theorem Edit.step_typed (h : e.Typed) {event : KeyEvent}
    (hevent : ∀ b, event = .character b → Printable b) :
    (∀ e', (Edit.step returns e event).1 = some e' → e'.Typed) ∧
      ∀ input, (Edit.step returns e event).2 = some input → AllPrintable input := by
  cases event with
  | character b =>
    apply typed_of_step rfl
    split
    · refine h.insert ?_ none
      intro c hc
      rw [List.mem_singleton.mp hc]
      exact hevent b rfl
    · exact h
  | tab =>
    apply typed_of_step rfl
    split
    · refine h.insert ?_ none
      intro c hc
      rw [List.eq_of_mem_replicate hc]
      decide
    · exact h
  | backspace =>
    apply typed_of_step rfl
    split
    · exact h
    · exact { h with before := h.before.sublist (List.dropLast_sublist _) }
  | delete =>
    apply typed_of_step rfl
    split
    · exact h
    · exact { h with after := h.after.sublist (List.tail_sublist _) }
  | left =>
    apply typed_of_step rfl
    refine { h with
      before := h.before.sublist (List.dropLast_sublist _)
      after := allPrintable_append.mpr ⟨?_, h.after⟩ }
    intro b hb
    exact h.before b (List.mem_of_mem_getLast? (Option.mem_toList.mp hb))
  | right =>
    apply typed_of_step rfl
    have hnext : AllPrintable e.after.head?.toList :=
      fun b hb => h.after b (List.mem_of_mem_head? (Option.mem_toList.mp hb))
    exact { h.insert hnext e.position with after := h.after.sublist (List.tail_sublist _) }
  | home =>
    apply typed_of_step rfl
    exact { h with before := allPrintable_nil, after := h.line }
  | end_ =>
    apply typed_of_step rfl
    exact { h with before := h.line, after := allPrintable_nil }
  | enter =>
    refine ⟨fun e' he' => ?_, ?_⟩
    · replace he' : (if returns e.line = true then
          some (⟨[], [], CommandHistory.record e.hist e.line, none, e.draft⟩ : Edit) else none) =
        some e' := he'
      split at he'
      · cases he'
        exact ⟨allPrintable_nil, allPrintable_nil, record_printable h.hist h.line, h.draft⟩
      · exact nomatch he'
    · rintro input ⟨⟩
      exact h.line
  | up =>
    apply typed_of_step rfl
    split
    · exact h
    split
    · exact h.select _
    · exact { h.select 0 with draft := h.line }
  | down =>
    apply typed_of_step rfl
    split
    · exact h.select _
    · exact { h with before := h.draft, after := allPrintable_nil }
    · exact h

end

/-- the same for the line editor, with an event from the decoder -/
theorem Follows.typed {returns : List UInt8 → Bool} {s : State} {event : KeyEvent} {turn : Turn}
    (hf : Follows returns s event turn) (h : (abs s).Typed) (hevent : Emitted event) :
    (∀ s', turn.next = some s' → (abs s').Typed) ∧
      ∀ input, turn.input = some input → AllPrintable input := by
  obtain ⟨hnext, hinput⟩ := Edit.step_typed h
    (fun b (hb : event = .character b) => Emitted.printable (hb ▸ hevent))
  rw [← hf.abs_eq] at hnext
  rw [← hf.input_eq] at hinput
  exact ⟨fun s' hs' => hnext _ (congrArg (Option.map abs) hs'), hinput⟩

/-! ## the invariant -/

def Status.Ok : Status → Prop
  | .waiting s => s.Ok ∧ (abs s).Typed
  | .stopped => True
  | .panicked => False

structure Machine.Inv (m : Machine) : Prop where
  queue : m.queue.Inv
  emitted : ∀ event ∈ m.queue.pushed, Emitted event
  shell : m.shell.Ok
  inputs : ∀ input ∈ m.inputs, AllPrintable input

theorem Machine.inv_init : Machine.init.Inv where
  queue := Sys.inv_init
  emitted := fun event h => absurd h List.not_mem_nil
  shell := ⟨State.new_ok, Edit.new_typed⟩
  inputs := fun input h => absurd h List.not_mem_nil

section
variable {fs : Fat.Fat32} {system : SystemInfo} {m : Machine}

/-- the queue moves on, and the rest of the machine does not -/
theorem Machine.Inv.withQueue (h : m.Inv) (act : Act) {queue : Keyboard.Sys}
    (hq : m.queue.step act = some queue) (hact : act.pushed = none) :
    Machine.Inv { m with queue := queue } := by
  refine { h with queue := Sys.inv_step _ _ _ h.queue hq, emitted := fun event hmem => ?_ }
  have hpushed := Sys.pushed_step _ _ _ h.queue hq
  rw [hact, Option.toList_none, List.append_nil] at hpushed
  exact h.emitted event (hpushed ▸ hmem)

theorem Machine.Inv.scancode (h : m.Inv) {byte : UInt8} {m' : Machine}
    (hm : m.scancode byte = some m') : m'.Inv := by
  unfold Machine.scancode at hm
  split at hm
  · split at hm
    · cases hm
      exact { h with }
    · next decoder event hd =>
      obtain ⟨queue, hq, rfl⟩ := Option.map_eq_some_iff.mp hm
      refine { h with queue := Sys.inv_step _ _ _ h.queue hq, emitted := fun e hmem => ?_ }
      have hmem : e ∈ queue.pushed := hmem
      rw [Sys.pushed_step _ _ _ h.queue hq] at hmem
      rcases List.mem_append.mp hmem with hmem | hmem
      · exact h.emitted e hmem
      · obtain rfl := List.mem_singleton.mp hmem
        exact ⟨m.decoder, byte, congrArg Prod.snd hd⟩
  · exact nomatch hm

/-- the event that `pop` is about to return came from the decoder -/
theorem Machine.Inv.popped (h : m.Inv) {tail : Nat} {event : KeyEvent}
    (hpop : m.queue.pop = .storeTail tail event) : Emitted event := by
  have hp := h.queue.pop
  unfold Sys.PopOk at hp
  rw [hpop] at hp
  have hmem := List.mem_of_getElem? hp.2
  obtain ⟨p, hp, he⟩ := List.mem_filterMap.mp hmem
  refine h.emitted event (List.mem_append_left _ (List.mem_map.mpr ⟨p, hp, ?_⟩))
  split at he
  · exact Option.some.inj he
  · exact nomatch he

/-- the shell handles what the decoder can emit -/
theorem Machine.Inv.handle (h : m.Inv) {s : State} (hs : s.Ok) (ht : (abs s).Typed) (now : Readings)
    {event : KeyEvent} (hevent : Emitted event) : (m.handle fs system s now event).Inv := by
  obtain ⟨turn, hturn, hf⟩ := step_follows (execute fs system now) hs event
  obtain ⟨hnext, hinput⟩ := hf.typed ht hevent
  unfold Machine.handle
  rw [hturn]
  refine { h with shell := ?_, inputs := fun input hmem => ?_ }
  · show Status.Ok (match turn.next with | some s' => .waiting s' | none => .stopped)
    cases hn : turn.next with
    | none => trivial
    | some s' => exact ⟨hf.ok s' hn, hnext s' hn⟩
  · rcases List.mem_append.mp hmem with hmem | hmem
    · exact h.inputs input hmem
    · exact hinput input (Option.mem_toList.mp hmem)

theorem Machine.Inv.consumer (h : m.Inv) {now : Readings} {m' : Machine}
    (hm : m.consumer fs system now = some m') : m'.Inv := by
  unfold Machine.consumer at hm
  split at hm
  · next s hs =>
    have hok := h.shell
    rw [hs] at hok
    obtain ⟨queue, hq, rfl⟩ := Option.map_eq_some_iff.mp hm
    have hinv : Machine.Inv { m with queue := queue } := h.withQueue .consumer hq rfl
    split
    · next hpop => exact hinv.handle hok.1 hok.2 now (h.popped hpop)
    · exact hinv
  · exact nomatch hm

/-- the step lemma -/
theorem Machine.inv_step (m : Machine) (input : Input) (m' : Machine) (h : m.Inv)
    (hm : m.step fs system input = some m') : m'.Inv := by
  cases input with
  | scancode byte => exact h.scancode hm
  | producer =>
    obtain ⟨queue, hq, rfl⟩ := Option.map_eq_some_iff.mp hm
    exact h.withQueue .producer hq rfl
  | consumer now => exact h.consumer hm

end

/-! ## what it means for the arrays -/

structure State.Safe (s : State) : Prop where
  cursor_le : s.cursor ≤ s.length
  length_le : s.length ≤ 80
  draftLength_le : s.draftLength ≤ 80
  lengths_le : ∀ length ∈ s.history.lengths, length ≤ 80
  count_le : s.history.count ≤ 16
  next_lt : s.history.next < 16
  position_lt : ∀ k, s.historyPosition = some k → k < s.history.count
  line : AllPrintable (s.line.take s.length)
  draft : AllPrintable (s.draft.take s.draftLength)
  stored : ∀ entry ∈ s.history.recents, AllPrintable entry

theorem State.Ok.safe {s : State} (h : s.Ok) (ht : (abs s).Typed) : s.Safe := by
  obtain ⟨log, hlog⟩ := h.history
  exact {
    cursor_le := h.cursor_le
    length_le := h.length_le
    draftLength_le := h.draftLength_le
    lengths_le := hlog.length_le
    count_le := hlog.count_le
    next_lt := hlog.next_lt
    position_lt := h.position_lt
    line := h.line_eq ▸ ht.line
    draft := ht.draft
    stored := ht.hist }

theorem fromUtf8_of_printable {bytes : List UInt8} (h : AllPrintable bytes) :
    ∃ text, Text.fromUtf8 bytes = some text :=
  ⟨_, Text.fromUtf8_ofAscii fun b hb => lt_of_le_of_lt (h b hb).2 (by norm_num)⟩

/-- **typed input is safe**: for every stream of scancodes, and however the handler and the shell loop
are interleaved, the shell does not panic, its state is in bounds and holds printable bytes only, and
every line that is executed is valid UTF-8 -/
theorem typed_input_safe (fs : Fat.Fat32) (system : SystemInfo) (inputs : List Input) (m : Machine)
    (h : Steps.run (Machine.step fs system) Machine.init inputs = some m) :
    m.shell ≠ .panicked ∧ (∀ s, m.shell = .waiting s → s.Safe) ∧
      ∀ input ∈ m.inputs, ∃ text, Text.fromUtf8 input = some text := by
  have hinv := Steps.run_inv (Machine.step fs system) Machine.inv_step inputs _ m Machine.inv_init h
  have hshell := hinv.shell
  refine ⟨fun hp => ?_, fun s hs => ?_, fun input hmem => fromUtf8_of_printable (hinv.inputs input hmem)⟩
  · rw [hp] at hshell
    exact hshell
  · rw [hs] at hshell
    exact hshell.1.safe hshell.2

/-- a volume without sectors -/
def noVolume : Fat.Fat32 := ⟨⟨0, fun _ => raise .sectorOutOfRange⟩, 1, 0, 0, 0, 2, 0⟩

/-- Shift down, `a`, and the shell takes it from the queue -/
def capitalA : List Input :=
  [.scancode 0x2a, .scancode 0x1e] ++ List.replicate 3 .producer ++
    List.replicate 4 (.consumer ⟨0, 0, 0, 0⟩)

theorem typed_input_safe_capitalA :
    ∃ m s, Steps.run (Machine.step noVolume ⟨0, 0⟩) Machine.init capitalA = some m ∧
      m.shell = .waiting s ∧ s.line.take s.length = [0x41] ∧ s.Safe := by
  have hrun : ∃ m s, Steps.run (Machine.step noVolume ⟨0, 0⟩) Machine.init capitalA = some m ∧
      m.shell = .waiting s ∧ s.line.take s.length = [0x41] := ⟨_, _, rfl, rfl, rfl⟩
  obtain ⟨m, s, hm, hs, hline⟩ := hrun
  exact ⟨m, s, hm, hs, hline, (typed_input_safe noVolume ⟨0, 0⟩ capitalA m hm).2.1 s hs⟩

end Shell
end SolOs
