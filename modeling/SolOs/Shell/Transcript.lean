import SolOs.Console.Look
import SolOs.Shell.Screen

/-!
# The screen is a transcript

With every key the line editor prints the prompt and the line again, goes back with carriage returns and
covers with spaces what was longer before.  Nothing of that is to be seen: the screen is the one on which
each command line was printed once, behind its prompt, with the output of the command below it.

* `Edit.transcript`         the record of a session, from the abstract editor;
* `Tracks q p s`            the screen `p` of the session and the screen `q` of the record, at a prompt;
* `Tracks.redraw`, `Tracks.command`      one event;
* `runAll_transcript`       every sequence of events;
* `screen_is_transcript`    **the pixels are those of the transcript.**
-/

set_option linter.unusedVariables false

namespace SolOs
namespace Shell
open Checked Keyboard Console

/-! ## the record -/

/-- the line behind its prompt -/
def promptLine (line : List UInt8) : Text.Str := promptText ++ Text.ofAscii line

/-- a command line and its output -/
def entry (exec : List UInt8 → Executed) (line : List UInt8) : List ConsoleOp :=
  .print (promptLine line ++ ['\n']) :: (exec line).ops

/-- the line that is not executed yet stands at the end -/
def Edit.transcript {ω : Type} (exec : ω → List UInt8 → Executed) : Edit → List (ω × KeyEvent) → List ConsoleOp
  | e, [] => [.print (promptLine e.line)]
  | e, (now, event) :: rest =>
    match Edit.step (returning exec now) e event with
    | (none, input) => input.elim [] (entry (exec now))
    | (some e', input) => input.elim [] (entry (exec now)) ++ transcript exec e' rest

/-! ## the two screens -/

/-- at a prompt: `q` is the screen of the record before the prompt is printed, and `p` that of the session -/
structure Tracks (q p : Paper) (s : State) : Prop where
  shows : Shows p.grid s
  tidy : p.grid.Tidy
  wide : 85 ≤ p.grid.columns
  clean : q.grid.Tidy
  fresh : q.grid.Fresh
  size_eq : p.grid.size = q.grid.size
  row_eq : p.grid.row = q.grid.row
  seen_eq : ∀ i j, j ≠ q.grid.row → seen (p.grid.cell i j) = seen (q.grid.cell i j)
  gone_eq : ∀ i, seen (p.gone i) = seen (q.gone i)

section
variable {font : Font} {p q : Paper} {s : State}

theorem seen_of_blank {c : Option Char} (hc : Blank c) : seen c = none := by
  obtain rfl | rfl := hc <;> rfl

theorem lineText_eq (hs : s.Sound) : lineText s = promptLine (abs s).line := by
  rw [lineText, promptLine, hs.line_eq]

theorem plain_lineText (hf : HasPrintable font) (hs : s.Sound) (ht : (abs s).Typed) :
    ∀ c ∈ lineText s, Grid.Plain font c := by
  intro c hc
  obtain hc | hc := List.mem_append.mp hc
  · exact plain_prompt hf c hc
  · exact plain_ofAscii hf (hs.line_eq ▸ ht.line) c hc

/-- the line is printed once behind the prompt, and the screens look the same -/
theorem Tracks.sameText (t : Tracks q p s) (hf : HasPrintable font) (hs : s.Sound) (ht : (abs s).Typed) :
    Paper.SameText p (q.typeAll font (lineText s)) := by
  have hlen := lineText_length hs
  have hle := hs.length_le
  have hcolumns : p.grid.columns = q.grid.columns := congrArg Prod.fst t.size_eq
  have hfit : q.grid.column + (lineText s).length ≤ q.grid.columns := by
    rw [t.fresh.1, hlen, ← hcolumns]
    have := t.wide
    omega
  have hplain := plain_lineText hf hs ht
  refine ⟨?_, ?_⟩
  · rw [Paper.typeAll_grid, Grid.typeAll_plain hplain hfit, t.fresh.1]
    refine ⟨hcolumns, congrArg Prod.snd t.size_eq, t.row_eq, ?_⟩
    intro i j
    show _ = seen (q.grid.overwrite 0 (lineText s) i j)
    unfold Grid.overwrite
    by_cases hj : j = q.grid.row
    · subst hj
      by_cases hi : i < 5 + s.length
      · rw [if_pos ⟨rfl, Nat.zero_le _, by omega⟩, Nat.sub_zero]
        have hc := List.getElem?_eq_getElem (hlen ▸ hi : i < (lineText s).length)
        rw [← t.row_eq, t.shows.text i _ hc, hc]
      · rw [if_neg (by omega), t.fresh.2, ← t.row_eq]
        exact seen_of_blank (t.shows.blank i (by omega))
    · rw [if_neg (fun hc => hj hc.1)]
      exact t.seen_eq i j hj
  · rw [Paper.typeAll_plain hplain hfit]
    exact t.gone_eq

/-- the prompt, on two screens that look the same -/
theorem tracks_prompt (hf : HasPrintable font) (hlook : Paper.Look p q) (htidy : p.grid.Tidy) (hclean : q.grid.Tidy)
    (hp : p.grid.Fresh) (hq : q.grid.Fresh) (hwide : 85 ≤ p.grid.columns) (hs : s.Sound) (hlen : s.length = 0) :
    Tracks q (p.execAll font prompt) s := by
  have hplain := plain_prompt hf
  have hfit : p.grid.column + promptText.length ≤ p.grid.columns := by
    rw [hp.1]
    exact le_trans (by decide) hwide
  have hgone : (p.execAll font prompt).gone = p.gone := Paper.typeAll_plain hplain hfit
  have htype : p.grid.execAll font prompt
      = { p.grid with cell := p.grid.overwrite 0 promptText, column := 0 + promptText.length } := by
    show p.grid.typeAll font promptText = _
    rw [Grid.typeAll_plain hplain hfit, hp.1]
  have hgrid : (p.execAll font prompt).grid = p.grid.execAll font prompt := p.execAll_grid prompt
  refine ⟨?_, ?_, ?_, hclean, hq, ?_, ?_, ?_, hgone ▸ hlook.gone_eq⟩
  · rw [hgrid]
    exact prompt_shows hf hwide hp hs hlen
  · rw [hgrid]
    exact Grid.execAll_tidy htidy _
  · rwa [hgrid, Grid.execAll_columns]
  · rw [hgrid, Grid.execAll_size]
    exact Prod.ext hlook.grid.columns_eq hlook.grid.rows_eq
  · rw [hgrid, htype]
    exact hlook.grid.row_eq
  · intro i j hj
    rw [hgrid, htype]
    show seen (p.grid.overwrite 0 promptText i j) = _
    unfold Grid.overwrite
    rw [if_neg (fun hc => hj (hc.1.trans hlook.grid.row_eq))]
    exact hlook.grid.seen_eq i j

/-- `redraw` does not scroll -/
theorem redraw_gone (hf : HasPrintable font) (hwide : 85 ≤ p.grid.columns) (hs : s.Ok) {s' : State} (hs' : s'.Ok)
    (ht' : (abs s').Typed) :
    (p.execAll font (redrawOps (s'.line.take s'.length) (s'.line.take s'.cursor) s.displayedLength)).gone = p.gone := by
  obtain ⟨head, htext, hplain, hfit, hprefix, _⟩ := redraw_line hf hs hs' ht'
  rw [Paper.execAll_eq_typeAll (clear_not_mem_redrawOps _ _ _), htext]
  exact Paper.typeAll_retype hplain hprefix (hfit.trans hwide)

/-- an event that runs no command only touches the current row -/
theorem Tracks.redraw (t : Tracks q p s) (hf : HasPrintable font) (hs : s.Ok) {turn : Turn} (hdrawn : Drawn s turn)
    {s' : State} (hnext : turn.next = some s') (hs' : s'.Ok) (ht' : (abs s').Typed) :
    Tracks q (p.execAll font turn.ops) s' := by
  obtain ⟨s'', hs'', hcase⟩ := hdrawn
  obtain rfl : s'' = s' := Option.some.inj (hs''.symm.trans hnext)
  obtain ⟨hops, hline, hlength, hcursor⟩ | hops := hcase
  · rw [hops]
    exact { t with shows := t.shows.congr hline hlength hcursor }
  · have hgrid : (p.execAll font turn.ops).grid = p.grid.execAll font turn.ops := p.execAll_grid turn.ops
    have htidy : (p.grid.execAll font turn.ops).Tidy := Grid.execAll_tidy t.tidy turn.ops
    have hsize : (p.grid.execAll font turn.ops).size = p.grid.size := p.grid.execAll_size turn.ops
    obtain ⟨g', hg', hshows', hrow, hcells⟩ := redraw_shows hf t.wide hs hs' ht' t.shows
    rw [← hops] at hg'
    rw [hg'] at hgrid htidy hsize
    refine ⟨?_, ?_, ?_, t.clean, t.fresh, ?_, ?_, ?_, ?_⟩
    · rw [hgrid]
      exact hshows'
    · rw [hgrid]
      exact htidy
    · rw [hgrid, show g'.columns = p.grid.columns from congrArg Prod.fst hsize]
      exact t.wide
    · rw [hgrid, hsize]
      exact t.size_eq
    · rw [hgrid]
      exact hrow.trans t.row_eq
    · intro i j hj
      rw [hgrid, hcells i j (t.row_eq ▸ hj)]
      exact t.seen_eq i j hj
    · rw [hops, redraw_gone hf t.wide hs hs' ht']
      exact t.gone_eq

/-- the command line of an entry, and then the line feed and the output as the session prints them -/
theorem execAll_entry (exec : List UInt8 → Executed) (line : List UInt8) :
    q.execAll font (entry exec line)
      = (q.typeAll font (promptLine line)).execAll font ([.print ['\n']] ++ (exec line).ops) := by
  show (q.typeAll font (promptLine line ++ ['\n'])).execAll font _ = _
  rw [Paper.typeAll_append]
  rfl

/-- Enter: the row stays as it is, and the output follows -/
theorem Tracks.output (t : Tracks q p s) (hf : HasPrintable font) (hs : s.Sound) (ht : (abs s).Typed)
    (exec : List UInt8 → Executed) :
    Paper.Look (p.execAll font ([.print ['\n']] ++ (exec (abs s).line).ops))
      (q.execAll font (entry exec (abs s).line)) := by
  rw [execAll_entry, ← lineText_eq hs]
  exact (t.sameText hf hs ht).newLine.execAll _

/-- a command that returns leads to the next prompt -/
theorem Tracks.command (t : Tracks q p s) (hf : HasPrintable font) (hs : s.Sound) (ht : (abs s).Typed)
    {exec : List UInt8 → Executed} (hops : FreshLine (exec (abs s).line).ops) {s' : State} (hs' : s'.Sound)
    (hlen : s'.length = 0) :
    Tracks (q.execAll font (entry exec (abs s).line))
      (p.execAll font ([.print ['\n']] ++ (exec (abs s).line).ops ++ prompt)) s' := by
  rw [Paper.execAll_append]
  apply tracks_prompt hf (t.output hf hs ht exec) _ _ _ _ _ hs' hlen
  · rw [Paper.execAll_grid]
    exact Grid.execAll_tidy t.tidy _
  · rw [Paper.execAll_grid]
    exact Grid.execAll_tidy t.clean _
  · rw [Paper.execAll_grid]
    exact freshLine_fresh t.tidy hops
  · rw [execAll_entry, Paper.execAll_grid, Paper.typeAll_grid]
    exact freshLine_fresh (Grid.typeAll_tidy t.clean _) hops
  · rw [Paper.execAll_grid, Grid.execAll_columns]
    exact t.wide

/-- without Enter nothing is executed -/
theorem Edit.step_input {returns : List UInt8 → Bool} {e : Edit} {event : KeyEvent} (he : event ≠ .enter) :
    (Edit.step returns e event).2 = none := by
  cases event with
  | enter => exact absurd rfl he
  | _ => rfl

/-- **the run lemma**: after any events the session looks like its record -/
theorem runAll_transcript {ω : Type} {exec : ω → List UInt8 → Executed}
    (hexec : ∀ now input, FreshLine (exec now input).ops ∨ (exec now input).returns = false)
    (hf : HasPrintable font) (t : Tracks q p s) (hs : s.Ok) (ht : (abs s).Typed) {events : List (ω × KeyEvent)}
    (hevents : ∀ e ∈ events, Emitted e.2) :
    ∃ out, runAll exec s events = .ok out ∧
      Paper.SameText (p.execAll font out.ops) (q.execAll font (Edit.transcript exec (abs s) events)) := by
  induction events generalizing s p q with
  | nil =>
    refine ⟨_, rfl, ?_⟩
    have hsame := t.sameText hf hs.toSound ht
    rw [lineText_eq hs.toSound] at hsame
    exact hsame
  | cons first rest ih =>
    obtain ⟨now, event⟩ := first
    obtain ⟨hevent, hrest⟩ := List.forall_mem_cons.mp hevents
    obtain ⟨turn, hturn, hfollows⟩ := step_follows (exec now) hs event
    unfold runAll Edit.transcript
    rw [hturn, bind_ok]
    by_cases henter : event = .enter
    · subst henter
      obtain ⟨history, log, _, _, heq⟩ := enter_eq (exec now) hs.toSound
      obtain rfl : turn = _ := Except.ok.inj (hturn.symm.trans heq)
      cases hret : (exec now (abs s).line).returns with
      | false =>
        rw [hret] at hfollows
        have hstep : Edit.step (returning exec now) (abs s) .enter = (none, some (abs s).line) :=
          Prod.ext hfollows.abs_eq.symm hfollows.input_eq.symm
        rw [hstep]
        exact ⟨_, rfl, (t.output hf hs.toSound ht (exec now)).sameText⟩
      | true =>
        rw [hret, if_pos rfl] at hfollows
        have hs' := hfollows.ok _ rfl
        have hstep : Edit.step (returning exec now) (abs s) .enter = (some (abs _), some (abs s).line) :=
          Prod.ext hfollows.abs_eq.symm hfollows.input_eq.symm
        have hops := (hexec now (abs s).line).resolve_right (by simp [hret])
        obtain ⟨out, hout, hsame⟩ := ih (t.command hf hs.toSound ht hops hs'.toSound rfl) hs'
          ((hfollows.typed ht hevent).1 _ rfl) hrest
        rw [hstep, if_pos rfl]
        dsimp only
        rw [hout, bind_ok]
        refine ⟨_, rfl, ?_⟩
        rw [Paper.execAll_append, Paper.execAll_append (p := q)]
        exact hsame
    · obtain ⟨s', hnext, hdrawn⟩ := hfollows.drawn henter
      have habs := hfollows.abs_eq
      rw [hnext] at habs
      have hstep : Edit.step (returning exec now) (abs s) event = (some (abs s'), none) :=
        Prod.ext habs.symm (Edit.step_input henter)
      have hs' := hfollows.ok s' hnext
      have ht' := (hfollows.typed ht hevent).1 s' hnext
      obtain ⟨out, hout, hsame⟩ := ih (t.redraw hf hs ⟨s', hnext, hdrawn⟩ hnext hs' ht') hs' ht' hrest
      rw [hnext, hstep]
      dsimp only
      rw [hout, bind_ok]
      refine ⟨_, rfl, ?_⟩
      rw [Paper.execAll_append]
      exact hsame

end

/-- the session on an empty screen -/
theorem session_sameText {font : Font} (hf : HasPrintable font) {columns : Nat} (hwide : 85 ≤ columns) (rows : Nat)
    (fs : Fat.Fat32) (system : SystemInfo) (boot : List ConsoleOp) {events : List (Readings × KeyEvent)}
    (hevents : ∀ e ∈ events, Emitted e.2) :
    ∃ out, runAll (execute fs system) .new events = .ok out ∧
      Paper.SameText ((Paper.blank columns rows).execAll font (boot ++ greeting ++ out.ops))
        ((Paper.blank columns rows).execAll font
          (boot ++ banner :: Edit.transcript (execute fs system) .new events)) := by
  have hblank : (Grid.blank columns rows).Tidy := fun _ _ _ => rfl
  have hgrid : ((Paper.blank columns rows).execAll font (boot ++ [banner])).grid
      = (Grid.blank columns rows).execAll font (boot ++ [banner]) := Paper.execAll_grid _ _
  have hfresh : ((Paper.blank columns rows).execAll font (boot ++ [banner])).grid.Fresh := by
    rw [hgrid]
    exact Grid.execAll_newLine_fresh hblank boot _
  have htidy : ((Paper.blank columns rows).execAll font (boot ++ [banner])).grid.Tidy := by
    rw [hgrid]
    exact Grid.execAll_tidy hblank _
  have htracks : Tracks _ _ State.new := tracks_prompt hf (Paper.Look.refl _) htidy htidy hfresh hfresh
    (by rw [hgrid, Grid.execAll_columns]; exact hwide) State.new_ok.toSound rfl
  obtain ⟨out, hout, hsame⟩ := runAll_transcript (execute_freshLine fs system) hf htracks State.new_ok
    Edit.new_typed hevents
  rw [← Paper.execAll_append, ← Paper.execAll_append, ← Paper.execAll_append, List.append_assoc boot] at hsame
  refine ⟨out, hout, ?_⟩
  rw [List.append_cons, List.append_assoc boot]
  exact hsame

/-- **the screen is a transcript.**  The font has the printable characters, all of one size and nothing for the
space, and the screen has room for 85 of them in a row.  It is cleared at boot and the kernel prints what it likes;
then any events come from the keyboard, with corrections, movements and old lines from the history.  Without its
cursor the screen has the same pixels, the border included, as if each line that was executed had been printed once,
behind its prompt and followed by the output of the command, and the unfinished line at the end. -/
theorem screen_is_transcript (font : Font) (w : FramebufferWriter) (hg : Geometry font w) (hf : HasPrintable font)
    (hspace : BlankSpace font) (hwide : 16 + 85 * advance font ≤ w.info.width) (fs : Fat.Fat32)
    (system : SystemInfo) (boot : List ConsoleOp) (events : List (Readings × KeyEvent))
    (hevents : ∀ e ∈ events, Emitted e.2) :
    ∃ out w₁ w₂, runAll (execute fs system) .new events = .ok out ∧
      screenAfter font w (.clear :: boot ++ greeting ++ out.ops) = .ok w₁ ∧
      screenAfter font w (.clear :: boot ++ banner :: Edit.transcript (execute fs system) .new events) = .ok w₂ ∧
      SameScreen w.info w₁ w₂ := by
  obtain ⟨out, hout, hsame⟩ := session_sameText hf (columnsOf_of_wide hwide) (rowsOf w.info) fs system boot hevents
  obtain ⟨w₁, w₂, hw₁, hw₂, hscreen⟩ := sameScreen_of_sameText hg hspace hsame
  exact ⟨out, w₁, w₂, hout, hw₁, hw₂, hscreen⟩

theorem bar_width_lt : 1 < 2^32 := by norm_num

theorem bar_height_lt (intensity : UInt8) : (List.replicate 16 [intensity]).length < 2^32 := by
  rw [List.length_replicate]
  norm_num

theorem bar_row_lt (intensity : UInt8) : ∀ row ∈ List.replicate 16 [intensity], row.length < 2^32 := by
  intro row hrow
  rw [List.eq_of_mem_replicate hrow]
  exact bar_width_lt

def bar (intensity : UInt8) : Raster :=
  ⟨1, List.replicate 16 [intensity], bar_width_lt, bar_height_lt intensity, bar_row_lt intensity⟩

/-- bars of one pixel, and nothing for the space -/
def spacedFont : Font where
  getRaster c := some (bar (if c = ' ' then 0 else 255))
  getRasterWidth := 1
  width_lt := bar_width_lt

theorem spacedFont_blankSpace : BlankSpace spacedFont := by
  intro dx dy
  show (((List.replicate 16 [(0 : UInt8)])[dy]?).bind fun row => row[dx]?).getD 0 = 0
  rw [List.getElem?_replicate]
  split
  · cases dx with
    | zero => rfl
    | succ dx => rfl
  · rfl

theorem spacedFont_geometry : Geometry spacedFont (barScreen 186 50 (by norm_num) (by norm_num)) where
  covered := barScreen_covered (by norm_num) (by norm_num) (by norm_num)
  fallback := rfl
  raster_width := by
    intro c raster hc
    obtain rfl := Option.some.inj hc
    rfl
  raster_height := by
    intro c raster hc
    obtain rfl := Option.some.inj hc
    exact List.length_replicate
  raster_row := by
    intro c raster hc row hrow
    obtain rfl := Option.some.inj hc
    rw [List.eq_of_mem_replicate hrow]
    rfl
  width_ge := by decide

/-- `a` and Backspace: the screen is the one with the prompt -/
theorem screen_is_transcript_erased :
    ∃ out w₁ w₂, runAll (execute noVolume ⟨0, 0⟩) .new
        [(⟨0, 0, 0, 0⟩, .character 0x61), (⟨0, 0, 0, 0⟩, .backspace)] = .ok out ∧
      screenAfter spacedFont (barScreen 186 50 (by norm_num) (by norm_num)) (.clear :: [] ++ greeting ++ out.ops)
        = .ok w₁ ∧
      screenAfter spacedFont (barScreen 186 50 (by norm_num) (by norm_num)) [.clear, banner, .print promptText]
        = .ok w₂ ∧
      SameScreen (barScreen 186 50 (by norm_num) (by norm_num)).info w₁ w₂ := by
  have hemitted : ∀ e ∈ [((⟨0, 0, 0, 0⟩ : Readings), KeyEvent.character 0x61), (⟨0, 0, 0, 0⟩, .backspace)],
      Emitted e.2 := by
    intro e he
    obtain rfl | he := List.mem_cons.mp he
    · exact ⟨.new, 0x1e, rfl⟩
    · rw [List.mem_singleton.mp he]
      exact ⟨.new, 0x0e, rfl⟩
  exact screen_is_transcript spacedFont (barScreen 186 50 (by norm_num) (by norm_num)) spacedFont_geometry
    (fun _ _ => rfl) spacedFont_blankSpace (le_refl 186) noVolume ⟨0, 0⟩ [] _ hemitted

end Shell
end SolOs
