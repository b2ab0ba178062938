import SolOs.Shell.Input
import SolOs.Console.Display

/-!
# What stands on the screen is what Enter runs

The line editor and the console together: the output of the loop drives the console, and while the
loop waits the current row shows the line.

* `Shows g s`        the current row of the grid is the prompt, the line and blanks, and the position
                     is that of the cursor;
* `Screen`           a console that shows this, with its cursor drawn;
* `redraw_shows`     `redraw` types over the row, with as many spaces as the old line was longer;
* `step_screen`      one event; only Enter leaves the row;
* `screen_shows_line`    **every sequence of events.**
-/

set_option linter.unusedVariables false

namespace SolOs
namespace Shell
open Checked Keyboard Console

/-- the first line of the shell -/
def banner : ConsoleOp := println "\nSol OS shell — type 'help' for commands.".toList

/-- the output at the start of `run` -/
def greeting : List ConsoleOp := [banner] ++ prompt

/-! ## the current row -/

/-- the text on the screen -/
def lineText (s : State) : Text.Str := promptText ++ Text.ofAscii (s.line.take s.length)

def Blank (c : Option Char) : Prop := c = none ∨ c = some ' '

structure Shows (g : Grid) (s : State) : Prop where
  column_eq : g.column = 5 + s.cursor
  text : ∀ i c, (lineText s)[i]? = some c → g.cell i g.row = some c
  blank : ∀ i, 5 + s.length ≤ i → Blank (g.cell i g.row)

/-- the font has the printable characters -/
def HasPrintable (font : Font) : Prop :=
  ∀ c : Char, 0x20 ≤ c.toNat ∧ c.toNat ≤ 0x7e → (font.getRaster c).isSome

section
variable {font : Font} {g : Grid} {s s' : State}

theorem plain_prompt (hf : HasPrintable font) : ∀ c ∈ promptText, Grid.Plain font c := by
  intro c hc
  have hall : promptText.all (fun c => decide (0x20 ≤ c.toNat ∧ c.toNat ≤ 0x7e)) = true := rfl
  have hrange := of_decide_eq_true (List.all_eq_true.mp hall c hc)
  exact ⟨hrange, hf c hrange⟩

theorem plain_ofAscii (hf : HasPrintable font) {bytes : List UInt8} (h : AllPrintable bytes) :
    ∀ c ∈ Text.ofAscii bytes, Grid.Plain font c := by
  intro c hc
  obtain ⟨b, hb, rfl⟩ := List.mem_map.mp hc
  have hrange := h b hb
  have hnat : (Char.ofNat b.toNat).toNat = b.toNat := by
    have := b.toNat_lt
    rw [Char.toNat_ofNat]
    exact if_pos (Or.inl (by omega))
  have hplain : 0x20 ≤ (Char.ofNat b.toNat).toNat ∧ (Char.ofNat b.toNat).toNat ≤ 0x7e :=
    hnat.symm ▸ hrange
  exact ⟨hplain, hf _ hplain⟩

theorem plain_space (hf : HasPrintable font) : Grid.Plain font ' ' :=
  ⟨by decide, hf ' ' (by decide)⟩

theorem lineText_length (h : s.Sound) : (lineText s).length = 5 + s.length := by
  have h1 := h.line_length
  have h2 := h.length_le
  unfold lineText Text.ofAscii
  rw [List.length_append, List.length_map, List.length_take, min_eq_left (by omega)]
  rfl

theorem Shows.congr (h : Shows g s) (hline : s'.line = s.line) (hlength : s'.length = s.length)
    (hcursor : s'.cursor = s.cursor) : Shows g s' := by
  refine ⟨?_, ?_, ?_⟩
  · rw [hcursor]
    exact h.column_eq
  · unfold lineText
    rw [hline, hlength]
    exact h.text
  · rw [hlength]
    exact h.blank

/-- a row that was typed over with the line and some spaces, with blanks behind them -/
theorem shows_overwrite (h : s.Sound) (spaces : Nat)
    (hrest : ∀ i, 5 + s.length + spaces ≤ i → Blank (g.cell i g.row)) :
    Shows { g with
      cell := g.overwrite 0 (lineText s ++ List.replicate spaces ' '), column := 5 + s.cursor } s := by
  have hlen := lineText_length h
  have hrow : ∀ i, g.overwrite 0 (lineText s ++ List.replicate spaces ' ') i g.row =
      if i < 5 + s.length + spaces then (lineText s ++ List.replicate spaces ' ')[i]?
      else g.cell i g.row := by
    intro i
    unfold Grid.overwrite
    rw [List.length_append, hlen, List.length_replicate, Nat.sub_zero, Nat.zero_add]
    simp only [true_and, Nat.zero_le]
  refine ⟨rfl, fun i c hc => ?_, fun i hi => ?_⟩
  · have hlt : i < (lineText s).length := (List.getElem?_eq_some_iff.mp hc).1
    show g.overwrite 0 _ i g.row = _
    rw [hrow, if_pos (by omega), List.getElem?_append_left hlt, hc]
  · show Blank (g.overwrite 0 _ i g.row)
    rw [hrow]
    by_cases hlt : i < 5 + s.length + spaces
    · rw [if_pos hlt, List.getElem?_append_right (by omega), List.getElem?_replicate,
        if_pos (by omega)]
      exact .inr rfl
    · rw [if_neg hlt]
      exact hrest i (by omega)

/-! ## redraw -/

theorem redrawOps_text (text head : List UInt8) (displayed : Nat) :
    (redrawOps text head displayed).flatMap opText =
      '\r' :: (promptText ++ Text.ofAscii text ++ List.replicate (displayed - text.length) ' ') ++
        '\r' :: (promptText ++ Text.ofAscii head) := by
  have hbytes : ∀ bytes : List UInt8, (bytes.map printByte).flatMap opText = Text.ofAscii bytes := by
    intro bytes
    induction bytes with
    | nil => rfl
    | cons b bytes ih =>
      show [Char.ofNat b.toNat] ++ (bytes.map printByte).flatMap opText = _
      rw [ih]
      rfl
  have hspaces : ∀ n, (List.replicate n (ConsoleOp.print [' '])).flatMap opText =
      List.replicate n ' ' := by
    intro n
    induction n with
    | zero => rfl
    | succ n ih =>
      show [' '] ++ (List.replicate n (ConsoleOp.print [' '])).flatMap opText = _
      rw [ih]
      rfl
  unfold redrawOps
  simp only [List.flatMap_append, hbytes, hspaces, List.flatMap_cons, List.flatMap_nil, opText,
    List.append_nil, List.nil_append, List.append_assoc, List.cons_append]

theorem clear_not_mem_redrawOps (text head : List UInt8) (displayed : Nat) :
    ConsoleOp.clear ∉ redrawOps text head displayed := by
  simp [redrawOps, printByte, List.mem_replicate]

theorem redrawOps_showCursor (text head : List UInt8) (displayed : Nat) :
    ∃ ops, redrawOps text head displayed = ops ++ [.showCursor] := ⟨_, rfl⟩

/-- `redraw` types the line with some spaces, and then a part of it once more -/
theorem redraw_line (hf : HasPrintable font) (hs : s.Ok) (hs' : s'.Ok) (ht' : (abs s').Typed) :
    ∃ head, (redrawOps (s'.line.take s'.length) (s'.line.take s'.cursor) s.displayedLength).flatMap opText
        = '\r' :: (lineText s' ++ List.replicate (s.length - s'.length) ' ') ++ '\r' :: head ∧
      (∀ c ∈ lineText s' ++ List.replicate (s.length - s'.length) ' ', Grid.Plain font c) ∧
      (lineText s' ++ List.replicate (s.length - s'.length) ' ').length ≤ 85 ∧
      head <+: lineText s' ++ List.replicate (s.length - s'.length) ' ' ∧ head.length = 5 + s'.cursor := by
  have hl := hs.length_le
  have hl' := hs'.length_le
  have hc' := hs'.cursor_le
  have hn' := hs'.line_length
  have hline : AllPrintable (s'.line.take s'.length) := hs'.line_eq ▸ ht'.line
  have hlen : (s'.line.take s'.length).length = s'.length := by
    rw [List.length_take]
    omega
  refine ⟨promptText ++ Text.ofAscii (s'.line.take s'.cursor), ?_, ?_, ?_, ?_, ?_⟩
  · rw [redrawOps_text, hlen, hs.displayed]
    rfl
  · intro c hc
    rcases List.mem_append.mp hc with hc | hc
    · rcases List.mem_append.mp hc with hc | hc
      · exact plain_prompt hf c hc
      · exact plain_ofAscii hf hline c hc
    · rw [List.eq_of_mem_replicate hc]
      exact plain_space hf
  · rw [List.length_append, lineText_length hs'.toSound, List.length_replicate]
    omega
  · have htake : s'.line.take s'.cursor <+: s'.line.take s'.length :=
      List.take_prefix_take_left (by omega)
    exact ((List.prefix_append_right_inj _).mpr (htake.map _)).trans (List.prefix_append _ _)
  · unfold Text.ofAscii
    rw [List.length_append, List.length_map, List.length_take, min_eq_left (by omega)]
    rfl

/-- **`redraw` types over the row** -/
theorem redraw_shows (hf : HasPrintable font) (hwide : 85 ≤ g.columns) (hs : s.Ok) (hs' : s'.Ok)
    (ht' : (abs s').Typed) (hshows : Shows g s) :
    ∃ g', g.execAll font
        (redrawOps (s'.line.take s'.length) (s'.line.take s'.cursor) s.displayedLength) = g' ∧
      Shows g' s' ∧ g'.row = g.row ∧ ∀ i j, j ≠ g.row → g'.cell i j = g.cell i j := by
  obtain ⟨head, htext, hplain, hfit, hprefix, hhead⟩ := redraw_line hf hs hs' ht'
  refine ⟨_, ?_, shows_overwrite hs'.toSound (s.length - s'.length) ?_, rfl, ?_⟩
  · rw [Grid.execAll_eq_typeAll (clear_not_mem_redrawOps _ _ _), htext, ← hhead]
    exact Grid.typeAll_retype hplain hprefix (hfit.trans hwide)
  · intro i hi
    exact hshows.blank i (by omega)
  · intro i j hj
    exact if_neg (fun hc => hj hc.1)

/-- the prompt on an empty row -/
theorem prompt_shows (hf : HasPrintable font) (hwide : 85 ≤ g.columns) (hfresh : g.Fresh)
    (hs : s.Sound) (hlen : s.length = 0) : Shows (g.execAll font prompt) s := by
  have hc := hs.cursor_le
  have htype : g.execAll font prompt = { g with
      cell := g.overwrite 0 (lineText s ++ List.replicate 0 ' '), column := 5 + s.cursor } := by
    show g.typeAll font promptText = _
    rw [Grid.typeAll_plain (plain_prompt hf) (by rw [hfresh.1]; exact le_trans (by decide) hwide),
      hfresh.1, show s.cursor = 0 by omega]
    unfold lineText
    rw [hlen]
    rfl
  rw [htype]
  exact shows_overwrite hs 0 (fun i _ => .inl (hfresh.2 i))

/-! ## one event -/

/-- a console that shows the line, with the cursor drawn -/
structure Screen (font : Font) (g : Grid) (s : State) (w : FramebufferWriter) : Prop where
  displays : DisplaysCursor font g w
  tidy : g.Tidy
  wide : 85 ≤ g.columns
  shows : Shows g s

/-- nothing has moved but the current row -/
def SameRows (g g' : Grid) : Prop := g'.row = g.row ∧ ∀ i j, j ≠ g.row → g'.cell i j = g.cell i j

variable {w : FramebufferWriter}

/-- the output of a command ends on an empty row -/
theorem freshLine_fresh (h : g.Tidy) {ops : List ConsoleOp} (hops : FreshLine ops) :
    (g.execAll font ([.print ['\n']] ++ ops)).Fresh := by
  rcases hops with rfl | ⟨before, last, rfl, rfl | ⟨text, rfl⟩⟩
  · exact Grid.execAll_newLine_fresh h [] []
  · rw [← List.append_assoc]
    exact Grid.execAll_clear_fresh _
  · rw [← List.append_assoc]
    exact Grid.execAll_newLine_fresh h _ text

/-- the prompt after any output that ends on an empty row -/
theorem prompt_screen (hf : HasPrintable font) (hd : Displays font g w) (htidy : g.Tidy)
    (hwide : 85 ≤ g.columns) {ops : List ConsoleOp} (hfresh : (g.execAll font ops).Fresh)
    (hs : s.Sound) (hlen : s.length = 0) :
    ∃ g' w', w.execAll font (ops ++ prompt) = .ok w' ∧ Screen font g' s w' := by
  obtain ⟨w', hw', hd'⟩ := execAll_showCursor hd (ops ++ [.print promptText])
  rw [List.append_assoc] at hw' hd'
  refine ⟨_, w', hw', hd', Grid.execAll_tidy htidy _, ?_, ?_⟩
  · rw [Grid.execAll_columns]
    exact hwide
  · rw [Grid.execAll_append]
    exact prompt_shows hf (by rw [Grid.execAll_columns]; exact hwide) hfresh hs hlen

/-- an event that runs no command redraws the row, or leaves it alone -/
theorem drawn_screen (hf : HasPrintable font) (hs : s.Ok) (hs' : s'.Ok) (ht' : (abs s').Typed)
    (hw : Screen font g s w) {turn : Turn} (hdrawn : Drawn s turn) (hnext : turn.next = some s') :
    ∃ g' w', w.execAll font turn.ops = .ok w' ∧ Screen font g' s' w' ∧ SameRows g g' := by
  obtain ⟨s'', hs'', hcase⟩ := hdrawn
  obtain rfl : s'' = s' := Option.some.inj (hs''.symm.trans hnext)
  rcases hcase with ⟨hops, hline, hlength, hcursor⟩ | hops
  · rw [hops]
    exact ⟨g, w, rfl, { hw with shows := hw.shows.congr hline hlength hcursor }, rfl, fun _ _ _ => rfl⟩
  · obtain ⟨g', hg', hshows', hrow, hcells⟩ := redraw_shows hf hw.wide hs hs' ht' hw.shows
    obtain ⟨ops, hredraw⟩ := redrawOps_showCursor (s''.line.take s''.length)
      (s''.line.take s''.cursor) s.displayedLength
    obtain ⟨w', hw', hd'⟩ := execAll_showCursor hw.displays.displays ops
    rw [← hredraw] at hw' hd'
    rw [hops]
    refine ⟨g', w', hw', ⟨hg' ▸ hd', hg' ▸ Grid.execAll_tidy hw.tidy _, ?_, hshows'⟩, hrow, hcells⟩
    rw [← hg', Grid.execAll_columns]
    exact hw.wide

/-- the step lemma; a command may print anything, as long as its output ends a line -/
theorem step_screen {exec : List UInt8 → Executed}
    (hexec : ∀ input, FreshLine (exec input).ops ∨ (exec input).returns = false)
    (hf : HasPrintable font) (hs : s.Ok) (ht : (abs s).Typed) (hw : Screen font g s w)
    {event : KeyEvent} (hevent : Emitted event) :
    ∃ turn, step exec s event = .ok turn ∧ (event ≠ .enter → turn.next.isSome) ∧
      ∀ s', turn.next = some s' → s'.Ok ∧ (abs s').Typed ∧
        ∃ g' w', w.execAll font turn.ops = .ok w' ∧ Screen font g' s' w' ∧
          (event ≠ .enter → SameRows g g') := by
  obtain ⟨turn, hturn, hfollows⟩ := step_follows exec hs event
  refine ⟨turn, hturn, fun hne => ?_, fun s' hnext => ?_⟩
  · obtain ⟨s', hs', _⟩ := hfollows.drawn hne
    rw [hs']
    rfl
  have hs' := hfollows.ok s' hnext
  have ht' := (hfollows.typed ht hevent).1 s' hnext
  refine ⟨hs', ht', ?_⟩
  by_cases henter : event = .enter
  · subst henter
    obtain ⟨history, log, _, _, heq⟩ := enter_eq exec hs.toSound
    obtain rfl : turn = _ := Except.ok.inj (hturn.symm.trans heq)
    split at hnext
    · next hret =>
      rw [if_pos hret]
      cases hnext
      have hops := (hexec _).resolve_right (fun hstop => nomatch hret.symm.trans hstop)
      obtain ⟨g', w', hw', hscreen⟩ := prompt_screen hf hw.displays.displays hw.tidy hw.wide
        (freshLine_fresh hw.tidy hops) hs'.toSound rfl
      exact ⟨g', w', hw', hscreen, fun hne => absurd rfl hne⟩
    · exact nomatch hnext
  · obtain ⟨g', w', hw', hscreen, hsame⟩ :=
      drawn_screen hf hs hs' ht' hw (hfollows.drawn henter) hnext
    exact ⟨g', w', hw', hscreen, fun _ => hsame⟩

/-- the run lemma -/
theorem runAll_screen {ω : Type} {exec : ω → List UInt8 → Executed}
    (hexec : ∀ now input, FreshLine (exec now input).ops ∨ (exec now input).returns = false)
    (hf : HasPrintable font) (hs : s.Ok) (ht : (abs s).Typed) (hw : Screen font g s w)
    {events : List (ω × KeyEvent)} (hevents : ∀ e ∈ events, Emitted e.2) :
    ∃ out, runAll exec s events = .ok out ∧ ∀ s', out.final = some s' → s'.Ok ∧ (abs s').Typed ∧
      ∃ g' w', w.execAll font out.ops = .ok w' ∧ Screen font g' s' w' := by
  induction events generalizing s g w with
  | nil =>
    refine ⟨_, rfl, ?_⟩
    rintro s' ⟨⟩
    exact ⟨hs, ht, g, w, rfl, hw⟩
  | cons e rest ih =>
    obtain ⟨now, event⟩ := e
    obtain ⟨turn, hturn, _, hstep⟩ :=
      step_screen (hexec now) hf hs ht hw (hevents (now, event) List.mem_cons_self)
    unfold runAll
    rw [hturn, bind_ok]
    cases hnext : turn.next with
    | none =>
      refine ⟨_, rfl, ?_⟩
      intro s' hs'
      cases hs'
    | some s₁ =>
      obtain ⟨hs₁, ht₁, g₁, w₁, hw₁, hscreen₁, _⟩ := hstep s₁ hnext
      obtain ⟨out, hout, hfinal⟩ := ih hs₁ ht₁ hscreen₁ (fun e he => hevents e (List.mem_cons_of_mem _ he))
      dsimp only
      rw [hout, bind_ok]
      refine ⟨_, rfl, fun s' hs' => ?_⟩
      obtain ⟨hok, htyped, g', w', hw', hscreen⟩ := hfinal s' hs'
      refine ⟨hok, htyped, g', w', ?_, hscreen⟩
      rw [execAll_append, hw₁, bind_ok, hw']

theorem columnsOf_of_wide {info : FrameBufferInfo} (h : 16 + 85 * advance font ≤ info.width) :
    85 ≤ columnsOf font info :=
  (Nat.le_div_iff_mul_le (Nat.succ_pos _)).mpr (Nat.le_sub_of_add_le' h)

/-- the first prompt: the screen is cleared, the kernel prints what it likes, and the shell starts -/
theorem greeting_screen (hg : Geometry font w) (hf : HasPrintable font)
    (hwide : 16 + 85 * advance font ≤ w.info.width) (boot : List ConsoleOp) :
    ∃ g w', w.execAll font (.clear :: boot ++ greeting) = .ok w' ∧ Screen font g .new w' := by
  have htidy : (Grid.blank (columnsOf font w.info) (rowsOf w.info)).Tidy := fun _ _ _ => rfl
  obtain ⟨g, w', hw', hscreen⟩ := prompt_screen hf (cleared_displays hg) htidy (columnsOf_of_wide hwide)
    (Grid.execAll_newLine_fresh htidy boot _) State.new_ok.toSound rfl
  refine ⟨g, w', ?_, hscreen⟩
  rw [List.cons_append, execAll_clear hg, greeting, ← List.append_assoc]
  exact hw'

end

/-- **what stands on the screen is what Enter runs**: after the screen was cleared at boot and any
kernel output, for every sequence of events from the keyboard and whatever the commands print, the
current row is the prompt, the line and then blanks, the position is that of the cursor, which is
drawn there, `displayedLength` bounds what is not blank, and the next event other than Enter only
changes the current row: it neither wraps nor scrolls -/
theorem screen_shows_line (font : Font) (w : FramebufferWriter) (hg : Geometry font w)
    (hf : HasPrintable font) (hwide : 16 + 85 * advance font ≤ w.info.width) (fs : Fat.Fat32)
    (system : SystemInfo) (boot : List ConsoleOp) (events : List (Readings × KeyEvent))
    (hevents : ∀ e ∈ events, Emitted e.2) :
    ∃ out, runAll (execute fs system) .new events = .ok out ∧ ∀ s, out.final = some s →
      ∃ g w', w.execAll font (.clear :: boot ++ greeting ++ out.ops) = .ok w' ∧
        DisplaysCursor font g w' ∧ Shows g s ∧
        (∀ i, 5 + s.displayedLength ≤ i → Blank (g.cell i g.row)) ∧
        ∀ now event, Emitted event → event ≠ .enter →
          ∃ turn s' g' w'', step (execute fs system now) s event = .ok turn ∧ turn.next = some s' ∧
            w'.execAll font turn.ops = .ok w'' ∧ DisplaysCursor font g' w'' ∧ Shows g' s' ∧
            SameRows g g' := by
  obtain ⟨g₀, w₀, hw₀, hscreen₀⟩ := greeting_screen hg hf hwide boot
  obtain ⟨out, hout, hfinal⟩ := runAll_screen (execute_freshLine fs system) hf State.new_ok
    Edit.new_typed hscreen₀ hevents
  refine ⟨out, hout, fun s hs => ?_⟩
  obtain ⟨hok, htyped, g, w', hw', hscreen⟩ := hfinal s hs
  refine ⟨g, w', ?_, hscreen.displays, hscreen.shows, fun i hi => ?_, fun now event hevent hne => ?_⟩
  · rw [execAll_append, hw₀, bind_ok, hw']
  · exact hscreen.shows.blank i (hok.displayed ▸ hi)
  · obtain ⟨turn, hturn, hsome, hstep⟩ :=
      step_screen (execute_freshLine fs system now) hf hok htyped hscreen hevent
    obtain ⟨s', hs'⟩ := Option.isSome_iff_exists.mp (hsome hne)
    obtain ⟨_, _, g', w'', hw'', hscreen', hsame⟩ := hstep s' hs'
    exact ⟨turn, s', g', w'', hturn, hs', hw'', hscreen'.displays, hscreen'.shows, hsame hne⟩

/-- `h`, `i`, Left on a screen with room for exactly one row -/
theorem screen_shows_line_barScreen :
    ∃ out s g w', runAll (execute noVolume ⟨0, 0⟩) .new
        [(⟨0, 0, 0, 0⟩, .character 0x68), (⟨0, 0, 0, 0⟩, .character 0x69), (⟨0, 0, 0, 0⟩, .left)] =
        .ok out ∧ out.final = some s ∧
      (barScreen 186 32 (by norm_num) (by norm_num)).execAll barFont
        (.clear :: [] ++ greeting ++ out.ops) = .ok w' ∧
      DisplaysCursor barFont g w' ∧ g.column = 6 ∧ g.cell 5 g.row = some 'h' := by
  have hrun : ∃ out s, runAll (execute noVolume ⟨0, 0⟩) .new
        [(⟨0, 0, 0, 0⟩, .character 0x68), (⟨0, 0, 0, 0⟩, .character 0x69), (⟨0, 0, 0, 0⟩, .left)] =
        .ok out ∧ out.final = some s ∧ s.cursor = 1 ∧ (lineText s)[5]? = some 'h' :=
    ⟨_, _, rfl, rfl, rfl, rfl⟩
  obtain ⟨out, s, hout, hfinal, hcursor, htext⟩ := hrun
  have hemitted : ∀ e ∈ [((⟨0, 0, 0, 0⟩ : Readings), KeyEvent.character 0x68),
      (⟨0, 0, 0, 0⟩, .character 0x69), (⟨0, 0, 0, 0⟩, .left)], Emitted e.2 := by
    intro e he
    simp only [List.mem_cons, List.not_mem_nil, or_false] at he
    rcases he with rfl | rfl | rfl
    · exact ⟨.new, 0x23, rfl⟩
    · exact ⟨.new, 0x17, rfl⟩
    · exact ⟨⟨0, true⟩, 0x4b, rfl⟩
  obtain ⟨out', hout', h⟩ := screen_shows_line barFont (barScreen 186 32 (by norm_num) (by norm_num))
    (barScreen_geometry (by norm_num) (by norm_num) (by norm_num) (by norm_num))
    (fun _ _ => rfl) (le_refl 186) noVolume ⟨0, 0⟩ [] _ hemitted
  obtain rfl : out = out' := Except.ok.inj (hout.symm.trans hout')
  obtain ⟨g, w', hw', hd, hshows, _⟩ := h s hfinal
  refine ⟨out, s, g, w', hout, hfinal, hw', hd, ?_, hshows.text 5 'h' htext⟩
  rw [hshows.column_eq, hcursor]

end Shell
end SolOs
