import SolOs.Shell.Editor
import SolOs.Fat32.Tree

/-!
# The commands

`execute` of `shell.rs`, with the texts that it prints on the console (the copy on the serial port is
left out).  The timer and the heap are read when a command runs: `Readings` is what it finds there.

* `execute`                    one line of input;
* `FreshLine ops`              the output is empty, or ends with a line feed or with `clear`;
* `execute_freshLine`          **every command that returns leaves the console at the start of a line.**
-/

set_option linter.unusedVariables false

namespace SolOs
namespace Shell
open Checked Console

structure SystemInfo where
  usableFrames : Nat
  framesConsumedAtBoot : Nat

/-- `uptime_seconds` and `ticks` are two reads of the timer -/
structure Readings where
  uptimeTicks : Nat
  ticks : Nat
  heapUsed : Nat
  heapCapacity : Nat

def println (text : Text.Str) : ConsoleOp := .print (text ++ ['\n'])

/-! ## texts -/

/-- `{error:?}` -/
def debugStorageError : Storage.StorageError → Text.Str
  | .missingRamdisk => "MissingRamdisk".toList
  | .invalidRamdisk => "InvalidRamdisk".toList
  | .sectorOutOfRange => "SectorOutOfRange".toList

def debugFsError : Fat.FsError → Text.Str
  | .device e => "Device(".toList ++ debugStorageError e ++ ")".toList
  | .invalidBootSector => "InvalidBootSector".toList
  | .unsupportedVolume => "UnsupportedVolume".toList
  | .invalidCluster => "InvalidCluster".toList
  | .corruptFat => "CorruptFat".toList
  | .directoryLoop => "DirectoryLoop".toList
  | .notFound => "NotFound".toList
  | .notDirectory => "NotDirectory".toList
  | .isDirectory => "IsDirectory".toList
  | .truncatedFile => "TruncatedFile".toList

def argumentsAfterCommand (line : Text.Str) : Text.Str :=
  Text.trimStart (line.dropWhile (fun c => !Text.isWhitespace c))

def isAsciiGraphic (b : UInt8) : Bool := 0x21 ≤ b.toNat && b.toNat ≤ 0x7e

/-- a byte of a chunk that is not UTF-8 -/
def printFileByte (byte : UInt8) : ConsoleOp :=
  if isAsciiGraphic byte || byte = 0x20 || byte = 0x0a || byte = 0x0d then printByte byte
  else .print (['\\', 'x'] ++ Text.padLeft '0' 2 (Nat.toDigits 16 byte.toNat))

def printFileChunk (bytes : List UInt8) : List ConsoleOp :=
  match Text.fromUtf8 bytes with
  | some text => [.print text]
  | none => bytes.map printFileByte

/-! ## commands -/

def Executed.done (ops : List ConsoleOp) : Executed := ⟨ops, true⟩

def help : List ConsoleOp :=
  [println "commands:".toList,
    println "  help             show this text".toList,
    println "  echo <text>      print text".toList,
    println "  ls [path]        list a FAT32 directory".toList,
    println "  cat <file>       print a FAT32 file".toList,
    println "  clear            clear the framebuffer console".toList,
    println "  uptime           show PIT-based uptime".toList,
    println "  meminfo          show frame and heap statistics".toList,
    println "  reboot | halt    stop or reset the machine".toList]

/-- the visitor of `ls` -/
def listEntry (ops : List ConsoleOp) (entry : Fat.DirEntry) : Bool × List ConsoleOp :=
  (true, ops ++ [println ((if entry.isDirectory then "<DIR>".toList else "     ".toList) ++ [' '] ++
    Text.padLeft ' ' 7 (Text.decimal entry.size) ++ [' '] ++ entry.nameStr)])

/-- the result of a file system command: a panic does not return -/
def report {α : Type} (name : Text.Str) (last : List ConsoleOp) :
    Run Fat.FsError α × List ConsoleOp → Executed
  | (.ok _, ops) => .done (ops ++ last)
  | (.error (.err e), ops) => .done (ops ++ [println (name ++ [':', ' '] ++ debugFsError e)])
  | (.error (.panic _), ops) => ⟨ops, false⟩

section
variable (fs : Fat.Fat32)

def ls (arguments : List Text.Str) : Executed :=
  if arguments.length > 1 then .done [println "usage: ls [path]".toList]
  else
    report ['l', 's'] [] (Fat.listDir fs (arguments.head?.getD ['/']) listEntry [])

def cat (arguments : List Text.Str) : Executed :=
  match arguments with
  | [path] =>
    report ['c', 'a', 't'] [.print ['\n']]
      (Fat.readFile fs path (fun ops bytes => ops ++ printFileChunk bytes) [])
  | _ => .done [println "usage: cat <file>".toList]

def uptime (now : Readings) : Executed :=
  .done [println ("uptime: ".toList ++ Text.decimal (now.uptimeTicks / 100) ++ " s (".toList ++
    Text.decimal now.ticks ++ " timer ticks)".toList)]

def meminfo (system : SystemInfo) (now : Readings) : Executed :=
  .done [
    println ("usable physical memory: ".toList ++
      Text.decimal (min (system.usableFrames * 4) (2^64 - 1)) ++ " KiB".toList),
    println ("heap: ".toList ++ Text.decimal (now.heapUsed / 1024) ++ " / ".toList ++
      Text.decimal (now.heapCapacity / 1024) ++ " KiB used (bump allocator)".toList),
    println ("frames consumed during bring-up: ".toList ++
      Text.decimal system.framesConsumedAtBoot)]

def reboot : Executed := ⟨[println "rebooting through the PS/2 controller...".toList], false⟩

def halt : Executed := ⟨[println "CPU halted.".toList], false⟩

/-- a line that is not blank, with its words -/
def runCommand (system : SystemInfo) (now : Readings) (line command : Text.Str)
    (arguments : List Text.Str) : Executed :=
  if command = "help".toList then .done help
  else if command = "echo".toList then .done [println (argumentsAfterCommand line)]
  else if command = "ls".toList then ls fs arguments
  else if command = "cat".toList then cat fs arguments
  else if command = "clear".toList then .done [.clear]
  else if command = "uptime".toList then uptime now
  else if command = "meminfo".toList then meminfo system now
  else if command = "reboot".toList then reboot
  else if command = "halt".toList then halt
  else .done [println ("unknown command: ".toList ++ command ++ "; type 'help'".toList)]

def invalidInput : Executed := .done [println "input is not valid UTF-8".toList]

def execute (system : SystemInfo) (now : Readings) (input : List UInt8) : Executed :=
  match Text.fromUtf8 input with
  | none => invalidInput
  | some text =>
    let line := Text.trim text
    if line = [] then .done []
    else
      let words := Text.splitWhitespace line
      runCommand fs system now line (words.head?.getD []) words.tail

end

/-! ## where the output ends -/

def FreshLine (ops : List ConsoleOp) : Prop :=
  ops = [] ∨ ∃ before last, ops = before ++ [last] ∧ (last = .clear ∨ ∃ text, last = println text)

theorem freshLine_println (before : List ConsoleOp) (text : Text.Str) :
    FreshLine (before ++ [println text]) :=
  .inr ⟨before, _, rfl, .inr ⟨text, rfl⟩⟩

theorem freshLine_report {α : Type} {name : Text.Str} {last : List ConsoleOp}
    {r : Run Fat.FsError α × List ConsoleOp} (h : FreshLine (r.2 ++ last)) :
    FreshLine (report name last r).ops ∨ (report name last r).returns = false := by
  obtain ⟨_ | _, ops⟩ := r
  · rename_i f
    cases f with
    | err e => exact .inl (freshLine_println _ _)
    | panic p => exact .inr rfl
  · exact .inl h

/-- the listing itself is made of lines -/
theorem listDir_freshLine (fs : Fat.Fat32) (path : Text.Str) :
    FreshLine (Fat.listDir fs path listEntry []).2 := by
  unfold Fat.listDir
  cases Fat.directoryOf fs path with
  | error f => exact .inl rfl
  | ok cluster =>
    obtain ⟨xs, fin, _, hoffers⟩ := Fat.exists_offers fs cluster
    dsimp only
    rw [hoffers]
    exact Visit.feed_inv (fun ops entry _ => freshLine_println ops _) (.inl rfl)

/-- **a command that returns leaves the console at the start of a line** -/
theorem execute_freshLine (fs : Fat.Fat32) (system : SystemInfo) (now : Readings)
    (input : List UInt8) :
    FreshLine (execute fs system now input).ops ∨ (execute fs system now input).returns = false := by
  have hprint : ∀ text, FreshLine [println text] := fun text => freshLine_println [] text
  unfold execute
  split
  · exact .inl (hprint _)
  dsimp only
  split
  · exact .inl (.inl rfl)
  unfold runCommand
  split
  · exact .inl (freshLine_println (help.take 8) _)
  split
  · exact .inl (hprint _)
  split
  · unfold ls
    split
    · exact .inl (hprint _)
    · apply freshLine_report
      rw [List.append_nil]
      exact listDir_freshLine fs _
  split
  · unfold cat
    split
    · exact freshLine_report (freshLine_println _ [])
    · exact .inl (hprint _)
  split
  · exact .inl (.inr ⟨[], _, rfl, .inl rfl⟩)
  split
  · exact .inl (hprint _)
  split
  · exact .inl (freshLine_println [_, _] _)
  split
  · exact .inr rfl
  split
  · exact .inr rfl
  · exact .inl (hprint _)

end Shell
end SolOs
