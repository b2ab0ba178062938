import SolOs.Lib.Bytes
import SolOs.Lib.Text

/-!
# The framebuffer console

`framebuffer.rs`.  Sums and products that the source leaves unchecked are checked here, and so is
every slice of the pixel buffer; `FramebufferWriter` runs in `Run Empty`.  The font is a parameter.

* `writePixel`, `invertPixel`     one pixel, clipped to the screen;
* `writeCharacter`, `newLine`, `backspace`, `scroll`, `writeStr`, `clear`;
* `toggleCursor`, `showCursor`, `hideCursor`;
* `ConsoleOp`, `exec`, `execAll`  what the rest of the kernel asks of the console;
* `plot`, `flip`                  the two pixel operations as functions on the buffer, and
  `writePixel_eq`, `invertPixel_eq`, `fill_eq`, `toggleCursor_eq`, `drawGlyph_eq` the loops in terms
  of them.
-/

set_option linter.unusedVariables false

namespace SolOs
namespace Console
open Checked

/-! ## the font and the screen -/

/-- `RasterizedChar`; its sizes are far below the machine's -/
structure Raster where
  width : Nat
  rows : List (List UInt8)
  width_lt : width < 2^32
  height_lt : rows.length < 2^32
  row_lt : ∀ row ∈ rows, row.length < 2^32

/-- the part of the font crate that is used: one weight, one height -/
structure Font where
  getRaster : Char → Option Raster
  getRasterWidth : Nat
  width_lt : getRasterWidth < 2^32

def fontHeight : Nat := 16
def letterSpacing : Nat := 1
def lineSpacing : Nat := 2
def border : Nat := 8
def cursorWidth : Nat := 2

inductive PixelFormat where
  | rgb
  | bgr
  | u8
  | unknown
  deriving DecidableEq

/-- the firmware reports the mode in 32-bit numbers -/
structure FrameBufferInfo where
  width : Nat
  height : Nat
  stride : Nat
  bytesPerPixel : Nat
  pixelFormat : PixelFormat
  width_lt : width < 2^32
  height_lt : height < 2^32
  stride_lt : stride < 2^32

structure Rgb where
  r : UInt8
  g : UInt8
  b : UInt8
  deriving DecidableEq

def foreground : Rgb := ⟨0xe6, 0xed, 0xf3⟩
def background : Rgb := ⟨0x0a, 0x10, 0x20⟩

/-- one channel of `blend`; the sum is at most `255 * 255` -/
def mix (background foreground intensity : UInt8) : UInt8 :=
  let alpha := intensity.toNat
  let inverse := 255 - alpha
  UInt8.ofNat ((background.toNat * inverse + foreground.toNat * alpha) / 255)

def blend (background foreground : Rgb) (intensity : UInt8) : Rgb :=
  ⟨mix background.r foreground.r intensity, mix background.g foreground.g intensity,
    mix background.b foreground.b intensity⟩

def FrameBufferInfo.color (info : FrameBufferInfo) (rgb : Rgb) : List UInt8 :=
  match info.pixelFormat with
  | .rgb => [rgb.r, rgb.g, rgb.b]
  | .bgr => [rgb.b, rgb.g, rgb.r]
  | .u8 =>
    let gray := UInt8.ofNat ((rgb.r.toNat + rgb.g.toNat + rgb.b.toNat) / 3)
    [gray, gray, gray]
  | .unknown => [rgb.b, rgb.g, rgb.r]

@[ext]
structure FramebufferWriter where
  buffer : Bytes
  info : FrameBufferInfo
  column : Nat
  row : Nat
  cursorVisible : Bool

namespace FramebufferWriter

def new (buffer : Bytes) (info : FrameBufferInfo) : FramebufferWriter :=
  ⟨buffer, info, border, border, false⟩

/-- `(y * stride + x) * bytes_per_pixel` -/
def pixelOffset (w : FramebufferWriter) (x y : Nat) : Run Empty Nat := do
  let line ← mul 64 y w.info.stride
  let index ← add 64 line x
  mul 64 index w.info.bytesPerPixel

def writePixel (w : FramebufferWriter) (x y : Nat) (rgb : Rgb) : Run Empty FramebufferWriter :=
  if x ≥ w.info.width ∨ y ≥ w.info.height then pure w
  else do
    let offset ← w.pixelOffset x y
    let count := min w.info.bytesPerPixel 3
    let _ ← (add 64 offset count : Run Empty Nat)
    let buffer ← w.buffer.write offset ((w.info.color rgb).take count)
    if w.info.bytesPerPixel > 3 then do
      let alpha ← add 64 offset 3
      let buffer ← buffer.write alpha [0]
      pure { w with buffer := buffer }
    else pure { w with buffer := buffer }

def invertPixel (w : FramebufferWriter) (x y : Nat) : Run Empty FramebufferWriter :=
  if x ≥ w.info.width ∨ y ≥ w.info.height then pure w
  else do
    let offset ← w.pixelOffset x y
    let count := min w.info.bytesPerPixel 3
    let _ ← (add 64 offset count : Run Empty Nat)
    let buffer ← w.buffer.update offset count (~~~ ·)
    pure { w with buffer := buffer }

/-- `lo..hi` -/
def span (lo hi : Nat) : List Nat := List.range' lo (hi - lo)

/-- the loops that paint a rectangle in the background colour -/
def fill (w : FramebufferWriter) (xs ys : List Nat) : Run Empty FramebufferWriter :=
  forEach ys (fun y w => forEach xs (fun x w => w.writePixel x y background) w) w

def clear (w : FramebufferWriter) : Run Empty FramebufferWriter := do
  let w ← w.fill (span 0 w.info.width) (span 0 w.info.height)
  pure { w with column := border, row := border, cursorVisible := false }

def scroll (w : FramebufferWriter) : Run Empty FramebufferWriter := do
  let pixelRows := fontHeight + lineSpacing
  let pixels ← mul 64 pixelRows w.info.stride
  let byteRows ← mul 64 pixels w.info.bytesPerPixel
  let buffer ← w.buffer.copyDown byteRows
  let w := { w with buffer := buffer }
  let firstClearRow := w.info.height - pixelRows
  let w ← w.fill (span 0 w.info.width) (span firstClearRow w.info.height)
  pure { w with row := w.row - pixelRows }

def newLine (w : FramebufferWriter) : Run Empty FramebufferWriter := do
  let row ← add 64 w.row (fontHeight + lineSpacing)
  let w := { w with column := border, row := row }
  let bottom ← add 64 row fontHeight
  let bottom ← add 64 bottom border
  if bottom > w.info.height then w.scroll else pure w

/-- the two loops over the raster -/
def drawGlyph (w : FramebufferWriter) (raster : Raster) : Run Empty FramebufferWriter :=
  forEach raster.rows.zipIdx (fun line w =>
    forEach line.1.zipIdx (fun cell w => do
      let x ← add 64 w.column cell.2
      let y ← add 64 w.row line.2
      w.writePixel x y (blend background foreground cell.1)) w) w

/-- `option.expect(…)` -/
def expect {α : Type} (o : Option α) : Run Empty α :=
  match o with
  | some a => .ok a
  | none => panic .assertion

def rasterFor (font : Font) (character : Char) : Option Raster :=
  (font.getRaster character).or (font.getRaster '?')

def writeCharacter (font : Font) (w : FramebufferWriter) (character : Char) :
    Run Empty FramebufferWriter :=
  if character = '\n' then w.newLine
  else do
    let raster ← expect (rasterFor font character)
    let advance ← add 64 raster.width letterSpacing
    let right ← add 64 w.column advance
    let right ← add 64 right border
    let w ← (if right > w.info.width then w.newLine else pure w)
    let w ← w.drawGlyph raster
    let column ← add 64 w.column advance
    pure { w with column := column }

def backspace (font : Font) (w : FramebufferWriter) : Run Empty FramebufferWriter := do
  let advance ← add 64 font.getRasterWidth letterSpacing
  if w.column ≤ border then pure w
  else do
    let w := { w with column := max (w.column - advance) border }
    let bottom ← add 64 w.row fontHeight
    forEach (span w.row (min bottom w.info.height)) (fun y w => do
      let right ← add 64 w.column advance
      forEach (span w.column (min right w.info.width)) (fun x w => w.writePixel x y background) w) w

/-- one character of `write_str` -/
def writeChar (font : Font) (w : FramebufferWriter) (character : Char) : Run Empty FramebufferWriter :=
  if character = '\r' then pure { w with column := border }
  else if character = '\x08' then w.backspace font
  else if character = '\t' then
    forEach (span 0 4) (fun _ w => writeCharacter font w ' ') w
  else if character.toNat < 128 then writeCharacter font w character
  else writeCharacter font w '?'

def writeStr (font : Font) (w : FramebufferWriter) (text : Text.Str) : Run Empty FramebufferWriter :=
  forEach text (fun character w => writeChar font w character) w

def toggleCursor (w : FramebufferWriter) : Run Empty FramebufferWriter := do
  let bottom ← add 64 w.row fontHeight
  forEach (span w.row (min bottom w.info.height)) (fun y w => do
    let right ← add 64 w.column cursorWidth
    forEach (span w.column (min right w.info.width)) (fun x w => w.invertPixel x y) w) w

def showCursor (w : FramebufferWriter) : Run Empty FramebufferWriter :=
  if w.cursorVisible = false then do
    let w ← w.toggleCursor
    pure { w with cursorVisible := true }
  else pure w

def hideCursor (w : FramebufferWriter) : Run Empty FramebufferWriter :=
  if w.cursorVisible = true then do
    let w ← w.toggleCursor
    pure { w with cursorVisible := false }
  else pure w

/-- `framebuffer::print` -/
def print (font : Font) (w : FramebufferWriter) (text : Text.Str) : Run Empty FramebufferWriter := do
  let w ← w.hideCursor
  writeStr font w text

end FramebufferWriter

inductive ConsoleOp where
  | print (text : Text.Str)
  | showCursor
  | clear
  deriving DecidableEq

/-- the characters that an operation prints -/
def opText : ConsoleOp → Text.Str
  | .print text => text
  | _ => []

namespace FramebufferWriter

def exec (font : Font) (op : ConsoleOp) (w : FramebufferWriter) : Run Empty FramebufferWriter :=
  match op with
  | .print text => w.print font text
  | .showCursor => w.showCursor
  | .clear => w.clear

def execAll (font : Font) (w : FramebufferWriter) (ops : List ConsoleOp) :
    Run Empty FramebufferWriter :=
  forEach ops (exec font) w

end FramebufferWriter

/-! ## the pixel operations on the buffer -/

namespace FrameBufferInfo
section
variable (info : FrameBufferInfo)

def offset (x y : Nat) : Nat := (y * info.stride + x) * info.bytesPerPixel

/-- the bytes that `write_pixel` stores -/
def encode (rgb : Rgb) : List UInt8 :=
  (info.color rgb).take (min info.bytesPerPixel 3) ++ if info.bytesPerPixel > 3 then [0] else []

def plot (x y : Nat) (rgb : Rgb) (b : Bytes) : Bytes :=
  if x < info.width ∧ y < info.height then b.overlay (info.offset x y) (info.encode rgb) else b

def flip (x y : Nat) (b : Bytes) : Bytes :=
  if x < info.width ∧ y < info.height then
    b.mapRange (info.offset x y) (min info.bytesPerPixel 3) (~~~ ·)
  else b

/-- points plotted one after the other -/
def plots (points : List (Nat × Nat × Rgb)) (b : Bytes) : Bytes :=
  points.foldl (fun b p => info.plot p.1 p.2.1 p.2.2 b) b

def flips (points : List (Nat × Nat)) (b : Bytes) : Bytes :=
  points.foldl (fun b p => info.flip p.1 p.2 b) b

theorem color_length (rgb : Rgb) : (info.color rgb).length = 3 := by
  unfold color
  cases info.pixelFormat <;> rfl

theorem encode_length (rgb : Rgb) : (info.encode rgb).length = min info.bytesPerPixel 4 := by
  unfold encode
  rw [List.length_append, List.length_take, info.color_length]
  by_cases h : info.bytesPerPixel > 3
  · rw [if_pos h, List.length_singleton]
    omega
  · rw [if_neg h, List.length_nil]
    omega

theorem plot_length (x y : Nat) (rgb : Rgb) (b : Bytes) : (info.plot x y rgb b).length = b.length := by
  unfold plot
  split <;> rfl

theorem flip_length (x y : Nat) (b : Bytes) : (info.flip x y b).length = b.length := by
  unfold flip
  split <;> rfl

theorem plots_length (points : List (Nat × Nat × Rgb)) (b : Bytes) :
    (info.plots points b).length = b.length := by
  induction points generalizing b with
  | nil => rfl
  | cons p points ih => exact (ih _).trans (info.plot_length _ _ _ b)

theorem flips_length (points : List (Nat × Nat)) (b : Bytes) :
    (info.flips points b).length = b.length := by
  induction points generalizing b with
  | nil => rfl
  | cons p points ih => exact (ih _).trans (info.flip_length _ _ b)

/-- two pixels of the screen share no byte -/
theorem offset_disjoint (hs : info.width ≤ info.stride) {x y x' y' : Nat} (hx : x < info.width)
    (hx' : x' < info.width) (h : ¬ (x = x' ∧ y = y')) :
    info.offset x y + info.bytesPerPixel ≤ info.offset x' y' ∨
      info.offset x' y' + info.bytesPerPixel ≤ info.offset x y := by
  have hne : y * info.stride + x ≠ y' * info.stride + x' := by
    intro e
    rcases Nat.lt_trichotomy y y' with hy | hy | hy
    · have hm : (y + 1) * info.stride ≤ y' * info.stride := Nat.mul_le_mul_right _ hy
      rw [Nat.succ_mul] at hm
      omega
    · subst hy
      omega
    · have hm : (y' + 1) * info.stride ≤ y * info.stride := Nat.mul_le_mul_right _ hy
      rw [Nat.succ_mul] at hm
      omega
  unfold offset
  rw [← Nat.succ_mul, ← Nat.succ_mul]
  rcases Nat.lt_or_gt_of_ne hne with hlt | hlt
  · exact .inl (Nat.mul_le_mul_right _ hlt)
  · exact .inr (Nat.mul_le_mul_right _ hlt)

/-! ### pixels -/

/-- the stored bytes of a pixel -/
def pixel (b : Bytes) (x y : Nat) : List UInt8 :=
  (List.range (min info.bytesPerPixel 4)).map (fun k => b.byte (info.offset x y + k))

theorem pixel_plot_self {x y : Nat} (hx : x < info.width) (hy : y < info.height) (rgb : Rgb)
    (b : Bytes) : info.pixel (info.plot x y rgb b) x y = info.encode rgb := by
  unfold plot pixel
  rw [if_pos ⟨hx, hy⟩]
  apply List.ext_getElem (by simp [encode_length])
  intro k h1 h2
  rw [List.getElem_map, List.getElem_range, Bytes.overlay_byte_of_lt]

theorem pixel_plot_ne (hs : info.width ≤ info.stride) {x y x' y' : Nat} (hx' : x' < info.width)
    (h : ¬ (x = x' ∧ y = y')) (rgb : Rgb) (b : Bytes) :
    info.pixel (info.plot x y rgb b) x' y' = info.pixel b x' y' := by
  unfold plot
  by_cases hon : x < info.width ∧ y < info.height
  · rw [if_pos hon]
    apply List.map_congr_left
    intro k hk
    rw [List.mem_range] at hk
    have hd := info.offset_disjoint hs hon.1 hx' h
    apply Bytes.overlay_byte_of_not _ _ _
    rw [encode_length]
    omega
  · rw [if_neg hon]

theorem pixel_plots_of_not_mem (hs : info.width ≤ info.stride) {points : List (Nat × Nat × Rgb)}
    {x y : Nat} (hx : x < info.width) (h : ∀ p ∈ points, ¬ (p.1 = x ∧ p.2.1 = y)) (b : Bytes) :
    info.pixel (info.plots points b) x y = info.pixel b x y := by
  induction points generalizing b with
  | nil => rfl
  | cons p points ih =>
    show info.pixel (info.plots points (info.plot p.1 p.2.1 p.2.2 b)) x y = _
    rw [ih (fun q hq => h q (List.mem_cons_of_mem _ hq)),
      info.pixel_plot_ne hs hx (h p List.mem_cons_self)]

/-- all points at `(x, y)` have the same colour -/
theorem pixel_plots_of_mem (hs : info.width ≤ info.stride) {points : List (Nat × Nat × Rgb)}
    {x y : Nat} {rgb : Rgb} (hx : x < info.width) (hy : y < info.height) (hmem : (x, y, rgb) ∈ points)
    (h : ∀ p ∈ points, p.1 = x → p.2.1 = y → p.2.2 = rgb) (b : Bytes) :
    info.pixel (info.plots points b) x y = info.encode rgb := by
  induction points generalizing b with
  | nil => exact absurd hmem List.not_mem_nil
  | cons p points ih =>
    have hrest : ∀ q ∈ points, q.1 = x → q.2.1 = y → q.2.2 = rgb :=
      fun q hq => h q (List.mem_cons_of_mem _ hq)
    show info.pixel (info.plots points (info.plot p.1 p.2.1 p.2.2 b)) x y = _
    by_cases hlater : (x, y, rgb) ∈ points
    · exact ih hlater hrest _
    -- the last point at this place is the head of the list
    · obtain rfl : (x, y, rgb) = p := (List.mem_cons.mp hmem).resolve_right hlater
      rw [info.pixel_plots_of_not_mem hs hx, info.pixel_plot_self hx hy]
      rintro ⟨qx, qy, qc⟩ hq ⟨rfl, rfl⟩
      obtain rfl : qc = rgb := hrest _ hq rfl rfl
      exact hlater hq

end
end FrameBufferInfo

/-! ## the loops -/

namespace FramebufferWriter

/-- the buffer has room for the whole screen -/
structure Covered (w : FramebufferWriter) : Prop where
  stride_le : w.info.width ≤ w.info.stride
  height_ge : 32 ≤ w.info.height
  length_ge : w.info.stride * w.info.height * w.info.bytesPerPixel ≤ w.buffer.length

section
variable {w : FramebufferWriter}

theorem Covered.with_buffer (h : w.Covered) {b : Bytes} (hb : b.length = w.buffer.length) :
    ({ w with buffer := b } : FramebufferWriter).Covered :=
  ⟨h.stride_le, h.height_ge, hb ▸ h.length_ge⟩

theorem Covered.offset_le (h : w.Covered) {x y : Nat} (hx : x < w.info.width)
    (hy : y < w.info.height) : w.info.offset x y + w.info.bytesPerPixel ≤ w.buffer.length := by
  have h1 := h.stride_le
  have h2 : (y + 1) * w.info.stride ≤ w.info.height * w.info.stride := Nat.mul_le_mul_right _ hy
  rw [Nat.succ_mul, Nat.mul_comm w.info.height] at h2
  have h3 : (y * w.info.stride + x + 1) * w.info.bytesPerPixel
      ≤ w.info.stride * w.info.height * w.info.bytesPerPixel := Nat.mul_le_mul_right _ (by omega)
  rw [Nat.succ_mul] at h3
  exact le_trans h3 h.length_ge

theorem pixelOffset_eq (h : w.Covered) {x y : Nat} (hx : x < w.info.width) (hy : y < w.info.height) :
    w.pixelOffset x y = .ok (w.info.offset x y) := by
  have h1 := h.stride_le
  have h2 : (y + 1) * w.info.stride ≤ w.info.height * w.info.stride := Nat.mul_le_mul_right _ hy
  rw [Nat.succ_mul] at h2
  have h3 : w.info.height * w.info.stride < 2^32 * 2^32 :=
    Nat.mul_lt_mul'' w.info.height_lt w.info.stride_lt
  have h4 := h.offset_le hx hy
  have h5 := w.buffer.length_lt
  unfold pixelOffset
  rw [mul_of_lt (by omega), bind_ok, add_of_lt (by omega), bind_ok]
  exact mul_of_lt (show w.info.offset x y < 2^64 by omega)

theorem writePixel_eq (h : w.Covered) (x y : Nat) (rgb : Rgb) :
    w.writePixel x y rgb = .ok { w with buffer := w.info.plot x y rgb w.buffer } := by
  unfold writePixel FrameBufferInfo.plot
  by_cases hon : x < w.info.width ∧ y < w.info.height
  · have h4 := h.offset_le hon.1 hon.2
    have h5 := w.buffer.length_lt
    have hlen : ((w.info.color rgb).take (min w.info.bytesPerPixel 3)).length
        = min w.info.bytesPerPixel 3 := by
      rw [List.length_take, w.info.color_length]
      omega
    rw [if_neg (by omega), if_pos hon, pixelOffset_eq h hon.1 hon.2, bind_ok]
    dsimp only
    rw [add_of_lt (show w.info.offset x y + min w.info.bytesPerPixel 3 < 2^64 by omega), bind_ok,
      Bytes.write_of_le (by omega), bind_ok]
    unfold FrameBufferInfo.encode
    by_cases hb : w.info.bytesPerPixel > 3
    · have e3 : min w.info.bytesPerPixel 3 = 3 := by omega
      rw [e3] at hlen ⊢
      rw [if_pos hb, if_pos hb, add_of_lt (by omega), bind_ok,
        Bytes.write_of_le (by rw [Bytes.overlay_length, List.length_singleton]; omega), bind_ok, pure_eq,
        ← Bytes.overlay_overlay, hlen]
    · rw [if_neg hb, if_neg hb, List.append_nil, pure_eq]
  · rw [if_pos (by omega), if_neg hon]
    rfl

theorem invertPixel_eq (h : w.Covered) (x y : Nat) :
    w.invertPixel x y = .ok { w with buffer := w.info.flip x y w.buffer } := by
  unfold invertPixel FrameBufferInfo.flip
  by_cases hon : x < w.info.width ∧ y < w.info.height
  · have h4 := h.offset_le hon.1 hon.2
    have h5 := w.buffer.length_lt
    rw [if_neg (by omega), if_pos hon, pixelOffset_eq h hon.1 hon.2, bind_ok]
    dsimp only
    rw [add_of_lt (by omega), bind_ok, Bytes.update_of_le (by omega), bind_ok, pure_eq]
  · rw [if_pos (by omega), if_neg hon]
    rfl

/-- a loop that does nothing but change the buffer -/
theorem forEach_buffer {α : Type} {xs : List α}
    {body : α → FramebufferWriter → Run Empty FramebufferWriter} {f : α → Bytes → Bytes}
    (hlen : ∀ a b, (f a b).length = b.length)
    (h : ∀ a ∈ xs, ∀ b : Bytes, b.length = w.buffer.length →
      body a { w with buffer := b } = .ok { w with buffer := f a b }) :
    forEach xs body w = .ok { w with buffer := xs.foldl (fun b a => f a b) w.buffer } := by
  induction xs generalizing w with
  | nil => rfl
  | cons a xs ih =>
    have ha : body a w = .ok { w with buffer := f a w.buffer } :=
      h a List.mem_cons_self w.buffer rfl
    show (body a w >>= fun w' => forEach xs body w') = _
    rw [ha, bind_ok, ih (w := { w with buffer := f a w.buffer })
      (fun c hc b hb => h c (List.mem_cons_of_mem _ hc) b (hb.trans (hlen a w.buffer)))]
    rfl

/-- the points of a rectangle, row by row -/
def rect (xs ys : List Nat) (rgb : Rgb) : List (Nat × Nat × Rgb) :=
  ys.flatMap (fun y => xs.map (fun x => (x, y, rgb)))

theorem mem_rect {xs ys : List Nat} {rgb : Rgb} {p : Nat × Nat × Rgb} :
    p ∈ rect xs ys rgb ↔ p.1 ∈ xs ∧ p.2.1 ∈ ys ∧ p.2.2 = rgb := by
  obtain ⟨x, y, c⟩ := p
  simp only [rect, List.mem_flatMap, List.mem_map, Prod.mk.injEq]
  constructor
  · rintro ⟨y', hy, x', hx, rfl, rfl, rfl⟩
    exact ⟨hx, hy, rfl⟩
  · rintro ⟨hx, hy, rfl⟩
    exact ⟨y, hy, x, hx, rfl, rfl, rfl⟩

theorem mem_span {lo hi i : Nat} : i ∈ span lo hi ↔ lo ≤ i ∧ i < hi := by
  unfold span
  rw [List.mem_range'_1]
  omega

theorem fillRow_eq (h : w.Covered) (xs : List Nat) (y : Nat) :
    forEach xs (fun x w => w.writePixel x y background) w
      = .ok { w with buffer := w.info.plots (xs.map (fun x => (x, y, background))) w.buffer } := by
  rw [forEach_buffer (f := fun x => w.info.plot x y background)
    (fun x b => w.info.plot_length _ _ _ b)
    (fun x _ b hb => writePixel_eq (h.with_buffer hb) x y background)]
  unfold FrameBufferInfo.plots
  rw [List.foldl_map]

theorem fill_eq (h : w.Covered) (xs ys : List Nat) :
    w.fill xs ys = .ok { w with buffer := w.info.plots (rect xs ys background) w.buffer } := by
  unfold fill
  rw [forEach_buffer (f := fun y => w.info.plots (xs.map (fun x => (x, y, background))))
    (fun y b => w.info.plots_length _ b) (fun y _ b hb => fillRow_eq (h.with_buffer hb) xs y)]
  unfold rect FrameBufferInfo.plots
  rw [List.foldl_flatMap]

/-- the points of a raster placed at `(column, row)` -/
def glyph (raster : Raster) (column row : Nat) : List (Nat × Nat × Rgb) :=
  raster.rows.zipIdx.flatMap (fun line => line.1.zipIdx.map (fun cell =>
    (column + cell.2, row + line.2, blend background foreground cell.1)))

theorem drawGlyph_eq (h : w.Covered) (raster : Raster) (hc : w.column < 2^63) (hr : w.row < 2^63) :
    w.drawGlyph raster
      = .ok { w with buffer := w.info.plots (glyph raster w.column w.row) w.buffer } := by
  have hrow : ∀ line ∈ raster.rows.zipIdx, ∀ b : Bytes, b.length = w.buffer.length →
      forEach line.1.zipIdx (fun cell w => do
        let x ← add 64 w.column cell.2
        let y ← add 64 w.row line.2
        w.writePixel x y (blend background foreground cell.1)) { w with buffer := b }
      = .ok { w with buffer := w.info.plots (line.1.zipIdx.map (fun cell =>
          (w.column + cell.2, w.row + line.2, blend background foreground cell.1))) b } := by
    intro line hline b hb
    have hl := raster.height_lt
    have hl2 := raster.row_lt line.1 (List.fst_mem_of_mem_zipIdx hline)
    have hy := List.snd_lt_of_mem_zipIdx hline
    rw [forEach_buffer (w := { w with buffer := b }) (f := fun cell : UInt8 × Nat =>
      w.info.plot (w.column + cell.2) (w.row + line.2) (blend background foreground cell.1))
      (fun cell b => w.info.plot_length _ _ _ b)]
    · unfold FrameBufferInfo.plots
      rw [List.foldl_map]
    · intro cell hcell b' hb'
      have hx := List.snd_lt_of_mem_zipIdx hcell
      show (add 64 w.column cell.2 >>= _) = _
      rw [add_of_lt (by omega), bind_ok]
      show (add 64 w.row line.2 >>= _) = _
      rw [add_of_lt (by omega), bind_ok]
      exact writePixel_eq (h.with_buffer (hb'.trans hb)) _ _ _
  unfold drawGlyph
  rw [forEach_buffer (fun line b => w.info.plots_length _ b) hrow]
  unfold glyph FrameBufferInfo.plots
  rw [List.foldl_flatMap]

/-- the pixels of the cursor, clipped to the screen -/
def cursorRow (w : FramebufferWriter) (y : Nat) : List (Nat × Nat) :=
  (span w.column (min (w.column + cursorWidth) w.info.width)).map (fun x => (x, y))

def cursorCells (w : FramebufferWriter) : List (Nat × Nat) :=
  (span w.row (min (w.row + fontHeight) w.info.height)).flatMap w.cursorRow

theorem toggleCursor_eq (h : w.Covered) (hr : w.row + fontHeight < 2^64)
    (hc : w.column + cursorWidth < 2^64) :
    w.toggleCursor = .ok { w with buffer := w.info.flips w.cursorCells w.buffer } := by
  unfold toggleCursor
  rw [add_of_lt hr, bind_ok, forEach_buffer (f := fun y => w.info.flips (w.cursorRow y))
    (fun y b => w.info.flips_length _ b)]
  · unfold cursorCells FrameBufferInfo.flips
    rw [List.foldl_flatMap]
  · intro y _ b hb
    show (add 64 w.column cursorWidth >>= _) = _
    rw [add_of_lt hc, bind_ok]
    show forEach (span w.column (min (w.column + cursorWidth) w.info.width))
      (fun x w => w.invertPixel x y) { w with buffer := b } = _
    rw [forEach_buffer (w := { w with buffer := b })
      (f := fun x => w.info.flip x y) (fun x b => w.info.flip_length _ _ b)
      (fun x _ b' hb' => invertPixel_eq (h.with_buffer (hb'.trans hb)) x y)]
    unfold cursorRow FrameBufferInfo.flips
    rw [List.foldl_map]

end

end FramebufferWriter

end Console
end SolOs
