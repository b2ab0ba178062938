import SolOs.Shell.History
import SolOs.Keyboard.Decode
import SolOs.Console.Writer

/-!
# The line editor of the shell

The event loop of `shell::run`.  `exec` stands for `execute`: what it prints, and whether it returns
(`reboot` and `halt` do not).  One event is one `step`; its console output is the list `ops`, and
`input` is the slice that is passed to `history.push` and `execute`.

* `State`, `step`, `runAll`    the local variables of `run`, one event, a sequence of events;
* `Edit`, `Edit.step`          the editor as two lists around a cursor;
* `abs`                        the abstraction.
-/

set_option linter.unusedVariables false

namespace SolOs
namespace Shell
open Checked Keyboard Console

/-- what a command did -/
structure Executed where
  ops : List ConsoleOp
  returns : Bool

structure State where
  line : List UInt8
  length : Nat
  cursor : Nat
  displayedLength : Nat
  history : CommandHistory
  historyPosition : Option Nat
  draft : List UInt8
  draftLength : Nat

def State.new : State :=
  ⟨List.replicate lineCapacity 0, 0, 0, 0, .new, none, List.replicate lineCapacity 0, 0⟩

/-- one round of the loop -/
structure Turn where
  next : Option State
  ops : List ConsoleOp
  input : Option (List UInt8)

/-! ## output -/

def promptText : Text.Str := ['s', 'o', 'l', '>', ' ']

def prompt : List ConsoleOp := [.print promptText, .showCursor]

/-- `print!("{}", byte as char)` -/
def printByte (byte : UInt8) : ConsoleOp := .print [Char.ofNat byte.toNat]

/-- the output of `redraw` -/
def redrawOps (text head : List UInt8) (displayed : Nat) : List ConsoleOp :=
  [.print ('\r' :: promptText)] ++ text.map printByte
    ++ List.replicate (displayed - text.length) (.print [' '])
    ++ [.print ('\r' :: promptText)] ++ head.map printByte ++ [.showCursor]

def redraw (s : State) : Run Empty Turn := do
  let text ← slice s.line 0 s.length
  let head ← slice s.line 0 s.cursor
  pure ⟨some { s with displayedLength := s.length }, redrawOps text head s.displayedLength, none⟩

/-- an event that does nothing -/
def stay (s : State) : Run Empty Turn := pure ⟨some s, [], none⟩

/-! ## the loop -/

section
variable (exec : List UInt8 → Executed) (s : State)

def enter : Run Empty Turn := do
  let input ← slice s.line 0 s.length
  let history ← s.history.push input
  let done := exec input
  if done.returns then
    pure ⟨some { s with
        length := 0, cursor := 0, displayedLength := 0, history := history, historyPosition := none },
      [.print ['\n']] ++ done.ops ++ prompt, some input⟩
  else pure ⟨none, [.print ['\n']] ++ done.ops, some input⟩

def backspace : Run Empty Turn :=
  if s.cursor > 0 then do
    let cursor ← sub s.cursor 1
    let line ← copyWithin s.line s.cursor s.length cursor
    let length ← sub s.length 1
    redraw { s with line := line, length := length, cursor := cursor, historyPosition := none }
  else stay s

def delete : Run Empty Turn :=
  if s.cursor < s.length then do
    let start ← add 64 s.cursor 1
    let line ← copyWithin s.line start s.length s.cursor
    let length ← sub s.length 1
    redraw { s with line := line, length := length, historyPosition := none }
  else stay s

def tab : Run Empty Turn := do
  let length ← add 64 s.length 4
  if length ≤ lineCapacity then do
    let cursor ← add 64 s.cursor 4
    let line ← copyWithin s.line s.cursor s.length cursor
    let line ← splice line s.cursor (List.replicate 4 0x20)
    redraw { s with line := line, length := length, cursor := cursor, historyPosition := none }
  else stay s

def character (byte : UInt8) : Run Empty Turn :=
  if s.length < lineCapacity then do
    let cursor ← add 64 s.cursor 1
    let line ← copyWithin s.line s.cursor s.length cursor
    let line ← put line s.cursor byte
    let length ← add 64 s.length 1
    redraw { s with line := line, length := length, cursor := cursor, historyPosition := none }
  else stay s

def left : Run Empty Turn :=
  if s.cursor > 0 then do
    let cursor ← sub s.cursor 1
    redraw { s with cursor := cursor }
  else stay s

def right : Run Empty Turn :=
  if s.cursor < s.length then do
    let cursor ← add 64 s.cursor 1
    redraw { s with cursor := cursor }
  else stay s

/-- the history entry at `position` becomes the line -/
def select (position : Nat) : Run Empty Turn := do
  let (length, line) ← s.history.copyInto position s.line
  redraw { s with
    line := line, length := length, cursor := length, historyPosition := some position }

def up : Run Empty Turn := do
  let (position, draft, draftLength) ←
    s.history.previous s.historyPosition s.line s.length s.draft s.draftLength
  let s := { s with draft := draft, draftLength := draftLength }
  match position with
  | none => stay s
  | some position => select s position

def down : Run Empty Turn :=
  match CommandHistory.next' s.historyPosition with
  | none => stay s
  | some (some position) => select s position
  | some none => do
    let saved ← slice s.draft 0 s.draftLength
    let line ← splice s.line 0 saved
    redraw { s with
      line := line, length := s.draftLength, cursor := s.draftLength, historyPosition := none }

def step : KeyEvent → Run Empty Turn
  | .enter => enter exec s
  | .backspace => backspace s
  | .delete => delete s
  | .tab => tab s
  | .character byte => character s byte
  | .left => left s
  | .right => right s
  | .home => redraw { s with cursor := 0 }
  | .end_ => redraw { s with cursor := s.length }
  | .up => up s
  | .down => down s

end

/-- a sequence of rounds: the final state (`none` when a command did not return), the console output
and the lines that were executed -/
structure Outcome where
  final : Option State
  ops : List ConsoleOp
  inputs : List (List UInt8)

/-- `exec` may depend on the world at the time of the event, a value of the type `ω` -/
def runAll {ω : Type} (exec : ω → List UInt8 → Executed) :
    State → List (ω × KeyEvent) → Run Empty Outcome
  | s, [] => pure ⟨some s, [], []⟩
  | s, (now, event) :: rest => do
    let turn ← step (exec now) s event
    match turn.next with
    | none => pure ⟨none, turn.ops, turn.input.toList⟩
    | some s' => do
      let out ← runAll exec s' rest
      pure ⟨out.final, turn.ops ++ out.ops, turn.input.toList ++ out.inputs⟩

/-! ## the abstract editor -/

/-- the line is `before ++ after`, with the cursor in between; `hist` is newest first -/
structure Edit where
  before : List UInt8
  after : List UInt8
  hist : List (List UInt8)
  position : Option Nat
  draft : List UInt8

namespace Edit

def new : Edit := ⟨[], [], [], none, []⟩

def line (e : Edit) : List UInt8 := e.before ++ e.after

/-- the line becomes a history entry -/
def select (e : Edit) (position : Nat) : Edit :=
  { e with before := (e.hist[position]?).getD [], after := [], position := some position }

/-- the next editor (`none` when the command does not return), and the line that is executed -/
def step (returns : List UInt8 → Bool) (e : Edit) : KeyEvent → Option Edit × Option (List UInt8)
  | .character byte =>
    (some (if e.line.length < 80 then { e with before := e.before ++ [byte], position := none }
      else e), none)
  | .tab =>
    (some (if e.line.length ≤ 76 then
        { e with before := e.before ++ List.replicate 4 0x20, position := none }
      else e), none)
  | .backspace =>
    (some (if e.before = [] then e
      else { e with before := e.before.dropLast, position := none }), none)
  | .delete =>
    (some (if e.after = [] then e else { e with after := e.after.tail, position := none }), none)
  | .left =>
    (some { e with before := e.before.dropLast, after := e.before.getLast?.toList ++ e.after }, none)
  | .right =>
    (some { e with before := e.before ++ e.after.head?.toList, after := e.after.tail }, none)
  | .home => (some { e with before := [], after := e.line }, none)
  | .end_ => (some { e with before := e.line, after := [] }, none)
  | .enter =>
    (if returns e.line then
        some ⟨[], [], CommandHistory.record e.hist e.line, none, e.draft⟩
      else none, some e.line)
  | .up =>
    (some (if e.hist = [] then e
      else match e.position with
        | some k => e.select (if k + 1 < e.hist.length then k + 1 else k)
        | none => { e.select 0 with draft := e.line }), none)
  | .down =>
    (some (match e.position with
      | some (k + 1) => e.select k
      | some 0 => { e with before := e.draft, after := [], position := none }
      | none => e), none)

/-- the editor after a sequence of events, and the lines that were executed -/
def runAll {ω : Type} (returns : ω → List UInt8 → Bool) :
    Edit → List (ω × KeyEvent) → Option Edit × List (List UInt8)
  | e, [] => (some e, [])
  | e, (now, event) :: rest =>
    match step (returns now) e event with
    | (none, input) => (none, input.toList)
    | (some e', input) =>
      let out := runAll returns e' rest
      (out.1, input.toList ++ out.2)

end Edit

def abs (s : State) : Edit :=
  ⟨s.line.take s.cursor, (s.line.take s.length).drop s.cursor, s.history.recents, s.historyPosition,
    s.draft.take s.draftLength⟩

end Shell
end SolOs
