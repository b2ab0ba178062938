import SolOs.Console.Writer

/-!
# What the console operations do

Each operation in closed form: as long as the buffer covers the screen (`Covered`) and the position is
not at the very end of the address range (`Placed`), nothing overflows and the result is a plain
function of the state.

* `scrolled`, `nextLine`, `stamp`, `erase`, `type`    the effect of `scroll`, `new_line`,
  `write_character`, `backspace` and of one character of `write_str`; the lemmas `newLine_eq`, … say so;
* `Ready`             the two conditions together; every operation keeps them;
* `writeStr_eq`       a string is its characters, one after the other.
-/

set_option linter.unusedVariables false

namespace SolOs
namespace Console
namespace FramebufferWriter
open Checked

/-- the condition that no operation leaves -/
structure Ready (w : FramebufferWriter) : Prop where
  covered : w.Covered
  row_lt : w.row < 2^63
  column_lt : w.column < 2^63

section
variable (font : Font) (w : FramebufferWriter)

/-- the buffer after `scroll` -/
def scrolled : Bytes :=
  w.info.plots (rect (span 0 w.info.width) (span (w.info.height - 18) w.info.height) background)
    (w.buffer.moveDown (18 * w.info.stride * w.info.bytesPerPixel))

def nextLine : FramebufferWriter :=
  if w.row + 42 > w.info.height then { w with buffer := w.scrolled, column := 8 }
  else { w with column := 8, row := w.row + 18 }

/-- the line is full before a raster of this width -/
def wrap (raster : Raster) : FramebufferWriter :=
  if w.column + (raster.width + 1) + 8 > w.info.width then w.nextLine else w

def stamp (raster : Raster) : FramebufferWriter :=
  let w := w.wrap raster
  { w with buffer := w.info.plots (glyph raster w.column w.row) w.buffer,
           column := w.column + (raster.width + 1) }

def eraseColumn : Nat := max (w.column - (font.getRasterWidth + 1)) 8

def erase : FramebufferWriter :=
  if w.column ≤ 8 then w
  else
    { w with
      buffer := w.info.plots (rect
        (span (w.eraseColumn font) (min (w.eraseColumn font + (font.getRasterWidth + 1)) w.info.width))
        (span w.row (min (w.row + 16) w.info.height)) background) w.buffer
      column := w.eraseColumn font }

/-- `write_character`, when the font has its fallback glyph -/
def put (fallback : Raster) (character : Char) : FramebufferWriter :=
  if character = '\n' then w.nextLine else w.stamp ((font.getRaster character).getD fallback)

def type (fallback : Raster) (character : Char) : FramebufferWriter :=
  if character = '\r' then { w with column := 8 }
  else if character = '\x08' then w.erase font
  else if character = '\t' then (span 0 4).foldl (fun w _ => w.put font fallback ' ') w
  else if character.toNat < 128 then w.put font fallback character
  else w.put font fallback '?'

def cleared : FramebufferWriter :=
  { w with
    buffer := w.info.plots (rect (span 0 w.info.width) (span 0 w.info.height) background) w.buffer
    column := 8
    row := 8
    cursorVisible := false }

end

/-! ## scrolling -/

section
variable {font : Font} {w : FramebufferWriter}

theorem Ready.withBuffer (h : w.Ready) {b : Bytes} (hb : b.length = w.buffer.length) {c r : Nat}
    (hc : c < 2^63) (hr : r < 2^63) :
    ({ w with buffer := b, column := c, row := r } : FramebufferWriter).Ready :=
  ⟨⟨h.covered.stride_le, h.covered.height_ge, hb ▸ h.covered.length_ge⟩, hr, hc⟩

theorem scrolled_length : w.scrolled.length = w.buffer.length :=
  w.info.plots_length _ _

/-- the text rows that scroll away fit the buffer -/
theorem Covered.shift_le (h : w.Covered) :
    18 * w.info.stride * w.info.bytesPerPixel ≤ w.buffer.length := by
  refine le_trans (Nat.mul_le_mul_right _ ?_) h.length_ge
  rw [Nat.mul_comm 18]
  exact Nat.mul_le_mul_left _ (by have := h.height_ge; omega)

theorem scroll_eq (h : w.Covered) :
    w.scroll = .ok { w with buffer := w.scrolled, row := w.row - 18 } := by
  have h1 := h.shift_le
  have h2 := w.buffer.length_lt
  have h3 := w.info.stride_lt
  have hmoved : ({ w with
      buffer := w.buffer.moveDown (18 * w.info.stride * w.info.bytesPerPixel) } :
      FramebufferWriter).Covered := h.with_buffer rfl
  unfold scroll fontHeight lineSpacing
  dsimp only
  rw [mul_of_lt (by omega), bind_ok, mul_of_lt (show 18 * w.info.stride * w.info.bytesPerPixel < 2^64
    by omega), bind_ok, Bytes.copyDown_of_le (by omega), bind_ok, fill_eq hmoved, bind_ok, pure_eq]
  rfl

theorem newLine_eq (h : w.Ready) : w.newLine = .ok w.nextLine := by
  have h1 := h.row_lt
  unfold newLine nextLine fontHeight lineSpacing border
  rw [add_of_lt (show w.row + (16 + 2) < 2^64 by omega), bind_ok]
  dsimp only
  rw [add_of_lt (by omega), bind_ok, add_of_lt (by omega), bind_ok]
  by_cases hs : w.row + 42 > w.info.height
  · have hcov : ({ w with column := 8, row := w.row + (16 + 2) } : FramebufferWriter).Covered :=
      ⟨h.covered.stride_le, h.covered.height_ge, h.covered.length_ge⟩
    rw [if_pos (by omega), if_pos hs, scroll_eq hcov]
    refine congrArg Except.ok (FramebufferWriter.ext rfl rfl rfl ?_ rfl)
    show w.row + (16 + 2) - 18 = w.row
    omega
  · rw [if_neg (by omega), if_neg hs, pure_eq]

theorem nextLine_ready (h : w.Ready) : w.nextLine.Ready := by
  have h1 := w.info.height_lt
  unfold nextLine
  by_cases hs : w.row + 42 > w.info.height
  · rw [if_pos hs]
    exact h.withBuffer scrolled_length (by norm_num) h.row_lt
  · rw [if_neg hs]
    exact h.withBuffer rfl (by norm_num) (by omega)

theorem nextLine_column : w.nextLine.column = 8 := by
  unfold nextLine
  split <;> rfl

/-! ## characters -/

theorem wrap_ready (h : w.Ready) (raster : Raster) : (w.wrap raster).Ready := by
  unfold wrap
  split
  · exact nextLine_ready h
  · exact h

/-- after the wrap the raster ends near the screen -/
theorem wrap_column (w : FramebufferWriter) (raster : Raster) :
    (w.wrap raster).column + (raster.width + 1) < 2^63 := by
  have h1 := raster.width_lt
  have h2 := w.info.width_lt
  unfold wrap
  split
  · rw [nextLine_column]
    omega
  · omega

theorem stamp_ready (h : w.Ready) (raster : Raster) : (w.stamp raster).Ready := by
  have hw := wrap_ready h raster
  exact hw.withBuffer ((w.wrap raster).info.plots_length _ _) (wrap_column w raster) hw.row_lt

theorem writeCharacter_eq (h : w.Ready) {fallback : Raster} (hf : font.getRaster '?' = some fallback)
    (character : Char) : writeCharacter font w character = .ok (w.put font fallback character) := by
  unfold writeCharacter put
  by_cases hn : character = '\n'
  · rw [if_pos hn, if_pos hn]
    exact newLine_eq h
  · have hraster : rasterFor font character = some ((font.getRaster character).getD fallback) := by
      unfold rasterFor
      rw [hf]
      cases font.getRaster character <;> rfl
    rw [if_neg hn, if_neg hn, hraster]
    generalize (font.getRaster character).getD fallback = raster
    have h1 := raster.width_lt
    have h2 := h.column_lt
    have hw := wrap_ready h raster
    have hcol := wrap_column w raster
    have hwrap : (if w.column + (raster.width + 1) + 8 > w.info.width then w.newLine else pure w)
        = .ok (w.wrap raster) := by
      unfold wrap
      split
      · exact newLine_eq h
      · rfl
    show (add 64 raster.width letterSpacing >>= _) = _
    unfold letterSpacing border
    rw [add_of_lt (by omega), bind_ok, add_of_lt (by omega), bind_ok, add_of_lt (by omega), bind_ok,
      hwrap, bind_ok, drawGlyph_eq hw.covered raster hw.column_lt hw.row_lt, bind_ok]
    dsimp only
    rw [add_of_lt (by omega), bind_ok, pure_eq]
    rfl

theorem put_ready (h : w.Ready) (fallback : Raster) (character : Char) :
    (w.put font fallback character).Ready := by
  unfold put
  split
  · exact nextLine_ready h
  · exact stamp_ready h _

theorem eraseColumn_lt (h : w.Ready) : w.eraseColumn font < 2^63 := by
  have h1 := h.column_lt
  unfold eraseColumn
  omega

theorem backspace_eq (h : w.Ready) : w.backspace font = .ok (w.erase font) := by
  have h1 := font.width_lt
  have h2 : w.eraseColumn font < 2^63 := eraseColumn_lt h
  have h3 := h.row_lt
  unfold backspace erase letterSpacing border fontHeight
  rw [add_of_lt (by omega), bind_ok]
  by_cases hc : w.column ≤ 8
  · rw [if_pos hc, if_pos hc, pure_eq]
  rw [if_neg hc, if_neg hc]
  dsimp only
  rw [add_of_lt (by omega), bind_ok]
  have hcov : ({ w with column := w.eraseColumn font } : FramebufferWriter).Covered :=
    ⟨h.covered.stride_le, h.covered.height_ge, h.covered.length_ge⟩
  show forEach _ _ { w with column := w.eraseColumn font } = _
  rw [forEach_buffer (w := { w with column := w.eraseColumn font })
    (f := fun y => w.info.plots ((span (w.eraseColumn font)
      (min (w.eraseColumn font + (font.getRasterWidth + 1)) w.info.width)).map
        (fun x => (x, y, background))))
    (fun y b => w.info.plots_length _ b)]
  · unfold rect FrameBufferInfo.plots
    rw [List.foldl_flatMap]
  · intro y _ b hb
    show (add 64 (w.eraseColumn font) (font.getRasterWidth + 1) >>= _) = _
    rw [add_of_lt (by omega), bind_ok]
    exact fillRow_eq (hcov.with_buffer hb) _ y

theorem erase_ready (h : w.Ready) : (w.erase font).Ready := by
  unfold erase
  split
  · exact h
  · exact h.withBuffer (w.info.plots_length _ _) (eraseColumn_lt h) h.row_lt

theorem writeChar_eq (h : w.Ready) {fallback : Raster} (hf : font.getRaster '?' = some fallback)
    (character : Char) : writeChar font w character = .ok (w.type font fallback character) := by
  unfold writeChar type
  by_cases hr : character = '\r'
  · rw [if_pos hr, if_pos hr]
    rfl
  rw [if_neg hr, if_neg hr]
  by_cases hb : character = '\x08'
  · rw [if_pos hb, if_pos hb]
    exact backspace_eq h
  rw [if_neg hb, if_neg hb]
  by_cases ht : character = '\t'
  · rw [if_pos ht, if_pos ht]
    exact forEach_ok (I := Ready) _
      (fun _ _ w hw => ⟨writeCharacter_eq hw hf ' ', put_ready hw fallback ' '⟩) h
  rw [if_neg ht, if_neg ht]
  split
  · exact writeCharacter_eq h hf character
  · exact writeCharacter_eq h hf '?'

theorem foldl_put_ready (h : w.Ready) (fallback : Raster) (rounds : List Nat) :
    (rounds.foldl (fun w _ => w.put font fallback ' ') w).Ready := by
  induction rounds generalizing w with
  | nil => exact h
  | cons _ rounds ih => exact ih (put_ready h fallback ' ')

theorem type_ready (h : w.Ready) (fallback : Raster) (character : Char) :
    (w.type font fallback character).Ready := by
  unfold type
  split
  · exact h.withBuffer rfl (by norm_num) h.row_lt
  split
  · exact erase_ready h
  split
  · exact foldl_put_ready h fallback _
  split
  · exact put_ready h fallback _
  · exact put_ready h fallback _

/-- **a string is its characters, one after the other** -/
theorem writeStr_eq (h : w.Ready) {fallback : Raster} (hf : font.getRaster '?' = some fallback)
    (text : Text.Str) :
    writeStr font w text = .ok (text.foldl (fun w c => w.type font fallback c) w) :=
  forEach_ok (I := Ready) _
    (fun c _ w hw => ⟨writeChar_eq hw hf c, type_ready hw fallback c⟩) h

theorem foldl_type_ready (h : w.Ready) (fallback : Raster) (text : Text.Str) :
    (text.foldl (fun w c => w.type font fallback c) w).Ready := by
  induction text generalizing w with
  | nil => exact h
  | cons c text ih => exact ih (type_ready h fallback c)

/-! ## clearing -/

theorem clear_eq (h : w.Covered) : w.clear = .ok w.cleared := by
  unfold clear
  rw [fill_eq h, bind_ok, pure_eq]
  rfl

theorem cleared_ready (h : w.Covered) : w.cleared.Ready :=
  ⟨⟨h.stride_le, h.height_ge, (w.info.plots_length _ _).symm ▸ h.length_ge⟩, by
    show (8 : Nat) < 2^63
    norm_num, by
    show (8 : Nat) < 2^63
    norm_num⟩

end

end FramebufferWriter
end Console
end SolOs
