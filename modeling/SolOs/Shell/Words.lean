import SolOs.Shell.Files
import SolOs.Shell.Input

/-!
# A command is its words

`execute` trims the line, splits it at white space and looks at the words.  Only `echo` sees more of the line.

* `execute_eq`           a line that is text, in terms of its words;
* `answer`               the output of a command line, from the tree of the volume;
* `execute_eq_answer`    the shell on a volume that stores the tree;
* `spelling_is_free`     **the same words are the same command.**
-/

set_option linter.unusedVariables false

namespace SolOs
namespace Shell
open Checked Console Fat

section
variable {fs : Fat32} {system : SystemInfo} {now : Readings} {input : List UInt8} {text : Text.Str}

theorem execute_eq (h : Text.fromUtf8 input = some text) :
    execute fs system now input
      = match Text.splitWhitespace text with
        | [] => .done []
        | command :: arguments => runCommand fs system now (Text.trim text) command arguments := by
  unfold execute
  rw [h]
  dsimp only
  rw [Text.splitWhitespace_trim]
  cases hwords : Text.splitWhitespace text with
  | nil => rw [if_pos ((Text.trim_eq_nil_iff text).mpr hwords)]
  | cons command arguments =>
    rw [if_neg (fun hnil => List.cons_ne_nil _ _ (hwords.symm.trans ((Text.trim_eq_nil_iff text).mp hnil)))]
    rfl

/-- only `echo` looks at the line -/
theorem runCommand_line {command : Text.Str} (hc : command ≠ "echo".toList) (line line' : Text.Str)
    (arguments : List Text.Str) :
    runCommand fs system now line command arguments = runCommand fs system now line' command arguments := by
  unfold runCommand
  rw [if_neg hc, if_neg hc]

/-- what `echo` prints: the other words, in the spelling of the line -/
theorem splitWhitespace_argumentsAfterCommand {command : Text.Str} {arguments : List Text.Str}
    (h : Text.splitWhitespace text = command :: arguments) :
    Text.splitWhitespace (argumentsAfterCommand (Text.trim text)) = arguments := by
  rw [← Text.splitWhitespace_trim] at h
  obtain hnil | ⟨c, t, hcons, hc⟩ := Text.trim_cases text
  · rw [hnil] at h
    cases h
  · rw [hcons, Text.splitWhitespace_word hc] at h
    unfold argumentsAfterCommand
    rw [Text.splitWhitespace_trimStart, hcons]
    exact List.tail_eq_of_cons_eq h

end

/-- **the same words are the same command.**  Two lines with the same words do the same, however they are spaced,
unless the command is `echo`; what this one prints may differ in its spaces, and has the words behind the first
one. -/
theorem spelling_is_free (fs : Fat32) (system : SystemInfo) (now : Readings) (input input' : List UInt8)
    (text text' : Text.Str) (h : Text.fromUtf8 input = some text) (h' : Text.fromUtf8 input' = some text')
    (hwords : Text.splitWhitespace text = Text.splitWhitespace text') :
    execute fs system now input = execute fs system now input' ∨
      ∃ arguments printed printed', Text.splitWhitespace text = "echo".toList :: arguments ∧
        execute fs system now input = .done [println printed] ∧
        execute fs system now input' = .done [println printed'] ∧
        Text.splitWhitespace printed = arguments ∧ Text.splitWhitespace printed' = arguments := by
  rw [execute_eq h, execute_eq h', ← hwords]
  cases hcase : Text.splitWhitespace text with
  | nil => exact .inl rfl
  | cons command arguments =>
    by_cases hecho : command = "echo".toList
    · subst hecho
      refine .inr ⟨arguments, _, _, rfl, rfl, rfl, splitWhitespace_argumentsAfterCommand hcase, ?_⟩
      exact splitWhitespace_argumentsAfterCommand (hwords.symm.trans hcase)
    · exact .inl (runCommand_line hecho _ _ arguments)

/-- `ls` with a blank on each side, and without -/
theorem spelling_is_free_ls :
    execute noVolume ⟨0, 0⟩ ⟨0, 0, 0, 0⟩ [0x20, 0x6c, 0x73, 0x20]
      = execute noVolume ⟨0, 0⟩ ⟨0, 0, 0, 0⟩ [0x6c, 0x73] := by
  have hwords : Text.splitWhitespace (Text.ofAscii [0x20, 0x6c, 0x73, 0x20]) = [['l', 's']] := by decide
  have hwords' : Text.splitWhitespace (Text.ofAscii [0x6c, 0x73]) = [['l', 's']] := by decide
  obtain h | ⟨arguments, _, _, hecho, _⟩ := spelling_is_free noVolume ⟨0, 0⟩ ⟨0, 0, 0, 0⟩
    [0x20, 0x6c, 0x73, 0x20] [0x6c, 0x73] _ _ (Text.fromUtf8_ofAscii (by simp)) (Text.fromUtf8_ofAscii (by simp))
    (hwords.trans hwords'.symm)
  · exact h
  · rw [hwords] at hecho
    cases hecho

/-! ## the answers of the tree -/

section
variable (root : Entries) (system : SystemInfo) (now : Readings)

/-- the output of a command line; only `ls` and `cat` look at the volume -/
def answer (line : List UInt8) : Executed :=
  match Text.splitWhitespace (Text.ofAscii line) with
  | [] => .done []
  | command :: arguments =>
    if command = "ls".toList then treeLs root arguments
    else if command = "cat".toList then treeCat root arguments
    else runCommand noVolume system now (Text.trim (Text.ofAscii line)) command arguments

end

/-- **the shell on a volume that stores the tree** -/
theorem execute_eq_answer {d : Storage.RamDiskBlockDevice} {fs : Fat32} (hm : mount d.device = .ok fs)
    {root : Entries} (hs : StoresDir d fs fs.rootCluster root) (system : SystemInfo) (now : Readings)
    {line : List UInt8} (hline : AllPrintable line) :
    execute fs system now line = answer root system now line := by
  obtain ⟨_, _, hd, h⟩ := mount_ok hm
  have htext : Text.fromUtf8 line = some (Text.ofAscii line) := by
    apply Text.fromUtf8_ofAscii
    intro b hb
    exact (hline b hb).2.trans_lt (by decide)
  rw [execute_eq htext, answer]
  cases Text.splitWhitespace (Text.ofAscii line) with
  | nil => rfl
  | cons command arguments =>
    dsimp only
    by_cases hls : command = "ls".toList
    · rw [if_pos hls, ← ls_eq h hd hs, hls]
      rfl
    · rw [if_neg hls]
      by_cases hcat : command = "cat".toList
      · rw [if_pos hcat, ← cat_eq h hd hs, hcat]
        rfl
      · rw [if_neg hcat]
        simp only [runCommand, if_neg hls, if_neg hcat]

end Shell
end SolOs
