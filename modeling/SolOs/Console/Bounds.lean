import SolOs.Console.Grid

/-!
# The position stays inside the screen

Whatever the kernel asks of the console, from the moment it is set up: the position stays far enough from
the edges for a whole glyph, so that no pixel of one is clipped, and nothing is out of bounds.

* `Call`             the operations, `hide_cursor` on its own included;
* `Action`           what they are made of: single characters and cursor operations;
* `exec_eq_actions`  a run of calls is the run of its actions;
* `Inside`           the bounds, `perform_within` the step;
* `console_stays_inside`   **after every action of every run.**
-/

set_option linter.unusedVariables false

namespace SolOs
namespace Console
open Checked

/-! ## calls and actions -/

inductive Call where
  | console (op : ConsoleOp)
  | hideCursor
  deriving DecidableEq

def Call.exec (font : Font) (call : Call) (w : FramebufferWriter) : Run Empty FramebufferWriter :=
  match call with
  | .console op => FramebufferWriter.exec font op w
  | .hideCursor => w.hideCursor

inductive Action where
  | put (character : Char)
  | carriageReturn
  | backspace
  | showCursor
  | hideCursor
  | clear
  deriving DecidableEq

def Action.perform (font : Font) (action : Action) (w : FramebufferWriter) :
    Run Empty FramebufferWriter :=
  match action with
  | .put character => FramebufferWriter.writeCharacter font w character
  | .carriageReturn => pure { w with column := border }
  | .backspace => w.backspace font
  | .showCursor => w.showCursor
  | .hideCursor => w.hideCursor
  | .clear => w.clear

/-- one character of `write_str`; a tab is four blanks -/
def charActions (character : Char) : List Action :=
  if character = '\r' then [.carriageReturn]
  else if character = '\x08' then [.backspace]
  else if character = '\t' then List.replicate 4 (.put ' ')
  else if character.toNat < 128 then [.put character]
  else [.put '?']

def Call.actions : Call → List Action
  | .console (.print text) => .hideCursor :: text.flatMap charActions
  | .console .showCursor => [.showCursor]
  | .console .clear => [.clear]
  | .hideCursor => [.hideCursor]

section
variable (font : Font) (w : FramebufferWriter)
open FramebufferWriter

theorem writeChar_eq_actions (character : Char) :
    writeChar font w character = forEach (charActions character) (Action.perform font) w := by
  unfold writeChar charActions
  by_cases hr : character = '\r'
  · rw [if_pos hr, if_pos hr, forEach_singleton]
    rfl
  rw [if_neg hr, if_neg hr]
  by_cases hb : character = '\x08'
  · rw [if_pos hb, if_pos hb, forEach_singleton]
    rfl
  rw [if_neg hb, if_neg hb]
  by_cases ht : character = '\t'
  · rw [if_pos ht, if_pos ht]
    rfl
  rw [if_neg ht, if_neg ht]
  by_cases ha : character.toNat < 128
  · rw [if_pos ha, if_pos ha, forEach_singleton]
    rfl
  · rw [if_neg ha, if_neg ha, forEach_singleton]
    rfl

theorem call_eq_actions (call : Call) :
    call.exec font w = forEach call.actions (Action.perform font) w := by
  cases call with
  | hideCursor => exact (forEach_singleton _ _ _).symm
  | console op =>
    cases op with
    | print text =>
      have htext : ∀ v, writeStr font v text
          = forEach (text.flatMap charActions) (Action.perform font) v := by
        intro v
        rw [forEach_flatMap]
        unfold writeStr
        congr 1
        funext c u
        exact writeChar_eq_actions font u c
      show (w.hideCursor >>= fun v => writeStr font v text) = _
      simp only [htext]
      rfl
    | showCursor => exact (forEach_singleton _ _ _).symm
    | clear => exact (forEach_singleton _ _ _).symm

theorem exec_eq_actions (calls : List Call) :
    forEach calls (Call.exec font) w
      = forEach (calls.flatMap Call.actions) (Action.perform font) w := by
  rw [forEach_flatMap]
  congr 1
  funext call v
  exact call_eq_actions font v call

end

/-! ## the bounds -/

namespace FramebufferWriter

structure Inside (w : FramebufferWriter) : Prop where
  column_ge : 8 ≤ w.column
  column_le : w.column ≤ w.info.width - 8
  row_ge : 8 ≤ w.row
  row_le : w.row ≤ w.info.height - 24

section
variable {font : Font} {w : FramebufferWriter}

theorem Inside.ready (h : w.Inside) (hg : Geometry font w) : w.Ready := by
  have h1 := h.column_le
  have h2 := h.row_le
  have h3 := w.info.width_lt
  have h4 := w.info.height_lt
  exact ⟨hg.covered, by omega, by omega⟩

theorem new_inside {buffer : Bytes} {info : FrameBufferInfo}
    (hg : Geometry font (.new buffer info)) : (new buffer info).Inside := by
  have h1 : 32 ≤ info.height := hg.covered.height_ge
  have h2 : 16 + advance font ≤ info.width := hg.width_ge
  refine ⟨le_refl 8, ?_, le_refl 8, ?_⟩
  · show 8 ≤ info.width - 8
    omega
  · show 8 ≤ info.height - 24
    omega

theorem nextLine_info (w : FramebufferWriter) : w.nextLine.info = w.info := by
  unfold nextLine
  split <;> rfl

/-- the test for scrolling keeps the row, whatever the height -/
theorem Inside.nextLine (h : w.Inside) : w.nextLine.Inside := by
  have h1 := h.column_ge
  have h2 := h.column_le
  unfold FramebufferWriter.nextLine
  by_cases hs : w.row + 42 > w.info.height
  · rw [if_pos hs]
    exact ⟨le_refl 8, le_trans h1 h2, h.row_ge, h.row_le⟩
  · rw [if_neg hs]
    refine ⟨le_refl 8, le_trans h1 h2, Nat.le_add_right_of_le h.row_ge, ?_⟩
    show w.row + 18 ≤ w.info.height - 24
    omega

theorem wrap_info (w : FramebufferWriter) (raster : Raster) : (w.wrap raster).info = w.info := by
  unfold wrap
  split
  · exact nextLine_info w
  · rfl

theorem Inside.wrap (h : w.Inside) (raster : Raster) : (w.wrap raster).Inside := by
  unfold FramebufferWriter.wrap
  split
  · exact h.nextLine
  · exact h

/-- after the test for wrapping there is room for the glyph -/
theorem wrap_room (hg : Geometry font w) {raster : Raster} (hwidth : raster.width = font.getRasterWidth) :
    (w.wrap raster).column + (raster.width + 1) + 8 ≤ w.info.width := by
  have h1 := hg.width_ge
  have hadv : advance font = font.getRasterWidth + 1 := rfl
  unfold FramebufferWriter.wrap
  split
  · rw [nextLine_column]
    omega
  · omega

theorem Inside.stamp (h : w.Inside) (hg : Geometry font w) {raster : Raster}
    (hwidth : raster.width = font.getRasterWidth) : (w.stamp raster).Inside := by
  have hw := h.wrap raster
  have hroom := wrap_room hg hwidth
  refine ⟨Nat.le_add_right_of_le hw.column_ge, ?_, hw.row_ge, hw.row_le⟩
  show (w.wrap raster).column + (raster.width + 1) ≤ (w.wrap raster).info.width - 8
  rw [wrap_info]
  omega

theorem Inside.erase (h : w.Inside) : (w.erase font).Inside := by
  have h1 := h.column_ge
  have h2 := h.column_le
  unfold FramebufferWriter.erase
  by_cases hc : w.column ≤ 8
  · rw [if_pos hc]
    exact h
  · rw [if_neg hc]
    refine ⟨le_max_right _ _, ?_, h.row_ge, h.row_le⟩
    show max (w.column - (font.getRasterWidth + 1)) 8 ≤ w.info.width - 8
    omega

/-- the raster that stands for a character has the size of the font -/
theorem rasterFor_size (hg : Geometry font w) {c : Char} {raster : Raster}
    (hc : rasterFor font c = some raster) : raster.width = font.getRasterWidth ∧
      raster.rows.length = 16 ∧ ∀ row ∈ raster.rows, row.length = font.getRasterWidth := by
  unfold rasterFor at hc
  rcases Option.or_eq_some_iff.mp hc with hraster | ⟨_, hraster⟩
  · exact ⟨hg.raster_width _ _ hraster, hg.raster_height _ _ hraster, hg.raster_row _ _ hraster⟩
  · exact ⟨hg.raster_width _ _ hraster, hg.raster_height _ _ hraster, hg.raster_row _ _ hraster⟩

theorem exists_rasterFor (hg : Geometry font w) (c : Char) : ∃ raster, rasterFor font c = some raster := by
  obtain ⟨fallback, hf⟩ := Option.isSome_iff_exists.mp hg.fallback
  unfold rasterFor
  rw [hf]
  cases font.getRaster c with
  | none => exact ⟨fallback, rfl⟩
  | some raster => exact ⟨raster, rfl⟩

theorem writeCharacter_stamp (h : w.Ready) (hg : Geometry font w) {c : Char} (hn : c ≠ '\n')
    {raster : Raster} (hc : rasterFor font c = some raster) :
    writeCharacter font w c = .ok (w.stamp raster) := by
  obtain ⟨fallback, hf⟩ := Option.isSome_iff_exists.mp hg.fallback
  have hraster : (font.getRaster c).getD fallback = raster := by
    unfold rasterFor at hc
    rw [hf] at hc
    cases hfont : font.getRaster c with
    | none =>
      rw [hfont] at hc
      exact Option.some.inj hc
    | some r =>
      rw [hfont] at hc
      exact Option.some.inj hc
  rw [writeCharacter_eq h hf]
  unfold put
  rw [if_neg hn, hraster]

/-- `write_character` draws its glyph after the test for wrapping -/
theorem writeCharacter_eq_draw (h : w.Ready) (hg : Geometry font w) {c : Char} (hn : c ≠ '\n')
    {raster : Raster} (hc : rasterFor font c = some raster) :
    writeCharacter font w c = ((w.wrap raster).drawGlyph raster >>= fun v =>
      .ok { v with column := v.column + (raster.width + 1) }) := by
  have hw := wrap_ready h raster
  rw [writeCharacter_stamp h hg hn hc, drawGlyph_eq hw.covered raster hw.column_lt hw.row_lt, bind_ok]
  rfl

/-! ## one action -/

/-- `w'` is a state of the same screen, inside the bounds -/
structure Within (font : Font) (w w' : FramebufferWriter) : Prop where
  inside : w'.Inside
  geometry : Geometry font w'
  info_eq : w'.info = w.info

theorem Keeps.within {w' : FramebufferWriter} (hk : Keeps w w') (hg : Geometry font w)
    (h' : w'.Inside) : Within font w w' :=
  ⟨h', hg.congr hk.info hk.length, hk.info⟩

theorem toggled_within (h : w.Inside) (hg : Geometry font w) (visible : Bool) :
    ∃ v, w.toggleCursor = .ok v ∧ Within font w { v with cursorVisible := visible } := by
  have hready := h.ready hg
  refine ⟨_, toggleCursor_of_togglable hready.covered hready.togglable, ?_, ?_, rfl⟩
  · exact ⟨h.column_ge, h.column_le, h.row_ge, h.row_le⟩
  · exact hg.congr rfl (w.info.flips_length _ _)

/-- **one action keeps the bounds** -/
theorem perform_within (h : w.Inside) (hg : Geometry font w) (action : Action) :
    ∃ w', action.perform font w = .ok w' ∧ Within font w w' := by
  have hready := h.ready hg
  have hstay : Within font w w := ⟨h, hg, rfl⟩
  cases action with
  | put c =>
    by_cases hn : c = '\n'
    · subst hn
      have hrun : writeCharacter font w '\n' = .ok w.nextLine := newLine_eq hready
      exact ⟨_, hrun, (writeCharacter_keeps hrun).within hg h.nextLine⟩
    · obtain ⟨raster, hc⟩ := exists_rasterFor hg c
      have hrun := writeCharacter_stamp hready hg hn hc
      have hstamp := h.stamp hg (rasterFor_size hg hc).1
      exact ⟨_, hrun, (writeCharacter_keeps hrun).within hg hstamp⟩
  | carriageReturn =>
    refine ⟨_, rfl, ⟨le_refl 8, ?_, h.row_ge, h.row_le⟩, hg.congr rfl rfl, rfl⟩
    exact le_trans h.column_ge h.column_le
  | backspace =>
    have hrun : w.backspace font = .ok (w.erase font) := backspace_eq hready
    exact ⟨_, hrun, (backspace_keeps hrun).within hg h.erase⟩
  | showCursor =>
    show ∃ w', w.showCursor = .ok w' ∧ _
    unfold FramebufferWriter.showCursor
    split
    · obtain ⟨v, hv, hwithin⟩ := toggled_within h hg true
      rw [hv, bind_ok]
      exact ⟨_, rfl, hwithin⟩
    · exact ⟨w, rfl, hstay⟩
  | hideCursor =>
    show ∃ w', w.hideCursor = .ok w' ∧ _
    unfold FramebufferWriter.hideCursor
    split
    · obtain ⟨v, hv, hwithin⟩ := toggled_within h hg false
      rw [hv, bind_ok]
      exact ⟨_, rfl, hwithin⟩
    · exact ⟨w, rfl, hstay⟩
  | clear =>
    have h1 := hg.covered.height_ge
    have h2 := hg.width_ge
    refine ⟨w.cleared, clear_eq hg.covered, ⟨le_refl 8, ?_, le_refl 8, ?_⟩, ?_, rfl⟩
    · show 8 ≤ w.info.width - 8
      omega
    · show 8 ≤ w.info.height - 24
      omega
    · exact hg.congr rfl (w.info.plots_length _ _)

/-- and so does every run -/
theorem run_within (h : w.Inside) (hg : Geometry font w) (actions : List Action) :
    ∃ w', forEach actions (Action.perform font) w = .ok w' ∧ Within font w w' := by
  induction actions generalizing w with
  | nil => exact ⟨w, rfl, h, hg, rfl⟩
  | cons action actions ih =>
    obtain ⟨v, hv, hstep⟩ := perform_within h hg action
    obtain ⟨w', hw', hrest⟩ := ih hstep.inside hstep.geometry
    refine ⟨w', ?_, hrest.inside, hrest.geometry, hrest.info_eq.trans hstep.info_eq⟩
    rw [forEach_cons, hv, bind_ok, hw']

/-- no pixel of the glyph lies outside the screen -/
theorem Inside.unclipped (h : w.Inside) (hg : Geometry font w) {c : Char} {raster : Raster}
    (hc : rasterFor font c = some raster) {dx dy : Nat} {bits : List UInt8}
    (hbits : raster.rows[dy]? = some bits) (hdx : dx < bits.length) :
    (w.wrap raster).column + dx < w.info.width ∧ (w.wrap raster).row + dy < w.info.height := by
  obtain ⟨hwidth, hheight, hrow⟩ := rasterFor_size hg hc
  have hroom := wrap_room hg hwidth
  have hlow := (h.wrap raster).row_le
  rw [wrap_info] at hlow
  have hlen := hrow bits (List.mem_of_getElem? hbits)
  have hdy := (List.getElem?_eq_some_iff.mp hbits).1
  have hmin := hg.covered.height_ge
  omega

end

/-- **the position stays inside the screen**: from the start, for every sequence of calls, nothing is out
of bounds and nothing overflows; after every action, and so after every character, the position is inside
the bounds, and the next glyph is drawn where no pixel of it is clipped. -/
theorem console_stays_inside (font : Font) (buffer : Bytes) (info : FrameBufferInfo)
    (hg : Geometry font (.new buffer info)) (calls : List Call) :
    (∃ w, forEach calls (Call.exec font) (.new buffer info) = .ok w ∧ w.Inside) ∧
    forEach calls (Call.exec font) (.new buffer info)
      = forEach (calls.flatMap Call.actions) (Action.perform font) (.new buffer info) ∧
    ∀ n, ∃ w, forEach ((calls.flatMap Call.actions).take n) (Action.perform font) (.new buffer info)
        = .ok w ∧ w.Inside ∧ w.info = info ∧
      ∀ c raster, c ≠ '\n' → rasterFor font c = some raster →
        writeCharacter font w c = ((w.wrap raster).drawGlyph raster >>= fun v =>
          .ok { v with column := v.column + (raster.width + 1) }) ∧
        ∀ dx dy bits, raster.rows[dy]? = some bits → dx < bits.length →
          (w.wrap raster).column + dx < info.width ∧ (w.wrap raster).row + dy < info.height := by
  have hstart := new_inside hg
  refine ⟨?_, exec_eq_actions font _ calls, ?_⟩
  · obtain ⟨w, hw, hwithin⟩ := run_within hstart hg (calls.flatMap Call.actions)
    exact ⟨w, (exec_eq_actions font _ calls).trans hw, hwithin.inside⟩
  · intro n
    obtain ⟨w, hw, hinside, hgeometry, hinfo⟩ :=
      run_within hstart hg ((calls.flatMap Call.actions).take n)
    have hinfo : w.info = info := hinfo
    refine ⟨w, hw, hinside, hinfo, ?_⟩
    intro c raster hn hc
    refine ⟨writeCharacter_eq_draw (hinside.ready hgeometry) hgeometry hn hc, ?_⟩
    intro dx dy bits hbits hdx
    rw [← hinfo]
    exact hinside.unclipped hgeometry hc hbits hdx

/-- a screen with room for one character: the second one wraps and scrolls -/
theorem console_stays_inside_barScreen :
    ∃ w, forEach [.console (.print ['a', 'b']), .console .showCursor, .hideCursor, .console .clear]
        (Call.exec barFont) (barScreen 18 32 (by norm_num) (by norm_num)) = .ok w ∧ w.Inside :=
  (console_stays_inside barFont _ _
    (barScreen_geometry (by norm_num) (by norm_num) (by norm_num) (by norm_num)) _).1

end FramebufferWriter

end Console
end SolOs
