import SolOs.Shell.Session
import SolOs.Shell.Transcript
import SolOs.Shell.Words

/-!
# From the keys to the pixels

The keyboard, its decoder, the queue, the shell, the file system and the console together: what is typed
appears on the screen with the answers of the tree on the disk below it, however the interrupt handler and
the shell are interleaved.

* `record`             command lines with their answers, from the tree alone;
* `transcript_lines`   the transcript of typed lines is their record;
* `keys_to_pixels`     **the screen shows the lines that were typed, and what the tree answers.**
-/

set_option linter.unusedVariables false

namespace SolOs
namespace Shell
open Checked Keyboard Console Fat

/-! ## the record of typed lines -/

section
variable {ω : Type}

/-- command lines with their answers, up to the first one that does not return, or to the last prompt -/
def record (exec : ω → List UInt8 → Executed) : List (ω × List UInt8) → List ConsoleOp
  | [] => [.print promptText]
  | (now, line) :: rest => entry (exec now) line ++ if (exec now line).returns then record exec rest else []

theorem record_congr {exec exec' : ω → List UInt8 → Executed} {entries : List (ω × List UInt8)}
    (h : ∀ e ∈ entries, exec e.1 e.2 = exec' e.1 e.2) : record exec entries = record exec' entries := by
  induction entries with
  | nil => rfl
  | cons first rest ih =>
    obtain ⟨hfirst, hrest⟩ := List.forall_mem_cons.mp h
    simp only [record, entry, hfirst, ih hrest]

variable (exec : ω → List UInt8 → Executed) (hist : List (List UInt8)) (draft : List UInt8)

/-- typed characters go into the line -/
theorem Edit.transcript_typed (line before : List UInt8) (hroom : before.length + line.length ≤ 80)
    {events : List (ω × KeyEvent)} {rest : List KeyEvent}
    (h : events.map Prod.snd = line.map .character ++ rest) :
    ∃ events', events'.map Prod.snd = rest ∧
      Edit.transcript exec ⟨before, [], hist, none, draft⟩ events
        = Edit.transcript exec ⟨before ++ line, [], hist, none, draft⟩ events' := by
  induction line generalizing before events with
  | nil => exact ⟨events, h, by rw [List.append_nil]⟩
  | cons byte line ih =>
    obtain ⟨⟨now, event⟩, events₁, rfl, hevent, h₁⟩ := List.map_eq_cons_iff.mp h
    obtain rfl : event = .character byte := hevent
    rw [List.length_cons] at hroom
    obtain ⟨events', hevents', heq⟩ := ih (before ++ [byte])
      (by rw [List.length_append, List.length_singleton]; omega) h₁
    refine ⟨events', hevents', ?_⟩
    rw [Edit.transcript, Edit.step_character _ byte (by omega)]
    show Edit.transcript exec _ events₁ = _
    rw [heq, List.append_assoc]
    rfl

/-- **the transcript of typed lines is their record** -/
theorem transcript_lines (lines : List (List UInt8)) (hroom : ∀ line ∈ lines, line.length ≤ 80)
    {events : List (ω × KeyEvent)} (h : events.map Prod.snd = lines.flatMap lineEvents) :
    ∃ times : List ω, times.length = lines.length ∧
      Edit.transcript exec ⟨[], [], hist, none, draft⟩ events = record exec (times.zip lines) := by
  induction lines generalizing hist events with
  | nil =>
    obtain rfl : events = [] := List.map_eq_nil_iff.mp h
    exact ⟨[], rfl, rfl⟩
  | cons line lines ih =>
    obtain ⟨hline, hlines⟩ := List.forall_mem_cons.mp hroom
    rw [List.flatMap_cons, lineEvents, List.append_assoc] at h
    obtain ⟨events', hevents', heq⟩ := Edit.transcript_typed exec hist draft line [] (by simpa using hline) h
    obtain ⟨⟨now, event⟩, rest, rfl, hevent, hrest⟩ := List.map_eq_cons_iff.mp hevents'
    obtain rfl : event = .enter := hevent
    obtain ⟨times, hlen, hrecord⟩ := ih (CommandHistory.record hist line) hlines hrest
    refine ⟨now :: times, congrArg Nat.succ hlen, ?_⟩
    rw [heq, List.nil_append, Edit.transcript, Edit.step_enter, returning, List.zip_cons_cons, record]
    cases (exec now line).returns with
    | false => exact (List.append_nil _).symm
    | true =>
      show entry (exec now) line ++ Edit.transcript exec _ rest = entry (exec now) line ++ record exec _
      rw [hrecord]

end

/-- **from the keys to the pixels.**  A volume that stores the tree `root` is mounted, and lines of at most 80
printable characters are typed one after the other, each with Enter at its end.  However the interrupt handler
and the shell are interleaved, when both have come to rest and no event was dropped, the screen without its
cursor has the pixels of these lines, the border included, each printed once behind a prompt and followed by what the
tree answers.  The screen and the font are as for `screen_is_transcript`. -/
theorem keys_to_pixels (d : Storage.RamDiskBlockDevice) (fs : Fat32) (hm : mount d.device = .ok fs) (root : Entries)
    (hs : StoresDir d fs fs.rootCluster root) (system : SystemInfo) (lines : List (List UInt8))
    (hprintable : ∀ line ∈ lines, AllPrintable line) (hroom : ∀ line ∈ lines, line.length ≤ 80)
    (inputs : List Input) (m : Machine) (hrun : Steps.run (Machine.step fs system) Machine.init inputs = some m)
    (hkeys : scancodes inputs = typing lines) (hsettled : m.Settled)
    (font : Font) (w : FramebufferWriter) (hg : Geometry font w) (hf : HasPrintable font)
    (hspace : BlankSpace font) (hwide : 16 + 85 * advance font ≤ w.info.width) (boot : List ConsoleOp) :
    ∃ (readings : List Readings) (w₁ w₂ : FramebufferWriter), readings.length = lines.length ∧
      screenAfter font w (.clear :: boot ++ greeting ++ outputOf fs system inputs) = .ok w₁ ∧
      screenAfter font w (.clear :: boot ++ banner :: record (answer root system) (readings.zip lines)) = .ok w₂ ∧
      SameScreen w.info w₁ w₂ := by
  have hsession := session_run hrun
  obtain ⟨events, out, hevents, hout, hops, _⟩ := handled_run hrun
  have hreturned : m.queue.returned = (feed .new (scancodes inputs)).2 := hsession.returned_eq hsettled
  have hlines : events.map Prod.snd = lines.flatMap lineEvents := by
    rw [hevents, hreturned, hkeys, feed_typing hprintable]
  have hemitted : ∀ e ∈ events, Emitted e.2 := by
    intro e he
    apply hsession.inv.emitted
    rw [hsession.pushed, ← hreturned, ← hevents]
    exact List.mem_map_of_mem he
  obtain ⟨readings, hlen, htranscript⟩ := transcript_lines (execute fs system) [] [] lines hroom hlines
  obtain ⟨out', hout', hsame⟩ := session_sameText hf (columnsOf_of_wide hwide) (rowsOf w.info) fs system boot hemitted
  obtain rfl : out = out' := Except.ok.inj (hout.symm.trans hout')
  have hrecord : Edit.transcript (execute fs system) .new events
      = record (answer root system) (readings.zip lines) := by
    refine htranscript.trans (record_congr ?_)
    intro e he
    exact execute_eq_answer hm hs system e.1 (hprintable e.2 (List.of_mem_zip he).2)
  rw [hops, hrecord] at hsame
  obtain ⟨w₁, w₂, hw₁, hw₂, hscreen⟩ := sameScreen_of_sameText hg hspace hsame
  exact ⟨readings, w₁, w₂, hlen, hw₁, hw₂, hscreen⟩

/-- `Hi` and Enter, on the disk with the file `HELLO.TXT` -/
theorem keys_to_pixels_typedHi :
    ∃ (m : Machine) (readings : List Readings) (w₁ w₂ : FramebufferWriter),
      Steps.run (Machine.step helloVolume ⟨0, 0⟩) Machine.init typedHi = some m ∧ readings.length = 1 ∧
      screenAfter spacedFont (barScreen 186 50 (by norm_num) (by norm_num))
        (.clear :: [] ++ greeting ++ outputOf helloVolume ⟨0, 0⟩ typedHi) = .ok w₁ ∧
      screenAfter spacedFont (barScreen 186 50 (by norm_num) (by norm_num))
        (.clear :: [] ++ banner :: record (answer helloTree ⟨0, 0⟩) (readings.zip [[0x48, 0x69]])) = .ok w₂ ∧
      SameScreen (barScreen 186 50 (by norm_num) (by norm_num)).info w₁ w₂ := by
  have hsome : (Steps.run (Machine.step helloVolume ⟨0, 0⟩) Machine.init typedHi).isSome = true := rfl
  obtain ⟨m, hm⟩ := Option.isSome_iff_exists.mp hsome
  have hsettled : m.Settled := by
    obtain rfl := Option.some.inj hm
    exact ⟨rfl, rfl, rfl⟩
  have hprintable : ∀ line ∈ [[(0x48 : UInt8), 0x69]], AllPrintable line := by
    intro line hline
    rw [List.mem_singleton.mp hline]
    simp [AllPrintable, Printable]
  obtain ⟨readings, w₁, w₂, hlen, hw₁, hw₂, hscreen⟩ := keys_to_pixels helloDisk helloVolume helloDisk_mount
    helloTree helloDisk_stores ⟨0, 0⟩ [[0x48, 0x69]] hprintable (by simp) typedHi m hm rfl hsettled spacedFont
    (barScreen 186 50 (by norm_num) (by norm_num)) spacedFont_geometry (fun _ _ => rfl) spacedFont_blankSpace
    (le_refl 186) []
  exact ⟨m, readings, w₁, w₂, hm, hlen, hw₁, hw₂, hscreen⟩

end Shell
end SolOs
