import SolOs.Console.Overlay

/-!
# The console as a grid of characters

What the pixels mean: a grid of character cells with a current position.

* `Grid`, `Grid.type`      the abstract console, one character at a time;
* `Grid.color`             its rendering, pixel by pixel;
* `Geometry`               the assumptions: a font of fixed size, and a screen with room for one cell;
* `Renders font g w`       the screen of `w` shows the grid `g`, and the positions agree;
* `Typing.type_related`, `Typing.type_rel`     what single steps keep, a character keeps;
* `newLine_renders`, `put_renders`, `backspace_renders`, `type_renders`     one step;
* `console_renders_grid`   **after `clear`, every sequence of strings.**
-/

set_option linter.unusedVariables false

namespace SolOs
namespace Console
open Checked

/-! ## the grid -/

structure Grid where
  columns : Nat
  rows : Nat
  cell : Nat → Nat → Option Char
  column : Nat
  row : Nat

namespace Grid

def blank (columns rows : Nat) : Grid := ⟨columns, rows, fun _ _ => none, 0, 0⟩

/-- a next row past the last drops the top row and appends a blank one -/
def newLine (g : Grid) : Grid :=
  if g.row + 1 < g.rows then { g with column := 0, row := g.row + 1 }
  else
    { g with cell := fun i j => if j + 1 < g.rows then g.cell i (j + 1) else none, column := 0 }

def set (g : Grid) (column row : Nat) (c : Option Char) : Nat → Nat → Option Char :=
  fun i j => if i = column ∧ j = row then c else g.cell i j

/-- move to a new row first when the current one is full -/
def wrap (g : Grid) : Grid := if g.column = g.columns then g.newLine else g

def put (g : Grid) (c : Char) : Grid :=
  let g := g.wrap
  { g with cell := g.set g.column g.row (some c), column := g.column + 1 }

def backspace (g : Grid) : Grid :=
  if g.column = 0 then g
  else { g with cell := g.set (g.column - 1) g.row none, column := g.column - 1 }

/-- the character that stands for `c`: itself when it is ASCII and has a raster -/
def shown (font : Font) (c : Char) : Char :=
  if c.toNat < 128 ∧ (font.getRaster c).isSome then c else '?'

def type (font : Font) (g : Grid) (c : Char) : Grid :=
  if c = '\r' then { g with column := 0 }
  else if c = '\x08' then g.backspace
  else if c = '\t' then (List.range 4).foldl (fun g _ => g.put (shown font ' ')) g
  else if c = '\n' then g.newLine
  else g.put (shown font c)

def typeAll (font : Font) (g : Grid) (text : Text.Str) : Grid := text.foldl (type font) g

theorem newLine_columns (g : Grid) : g.newLine.columns = g.columns := by
  unfold newLine
  split <;> rfl

theorem newLine_rows (g : Grid) : g.newLine.rows = g.rows := by
  unfold newLine
  split <;> rfl

theorem newLine_column (g : Grid) : g.newLine.column = 0 := by
  unfold newLine
  split <;> rfl

end Grid

/-- what single characters do to a display of cells -/
structure Typing (α : Type) where
  carriageReturn : α → α
  backspace : α → α
  newLine : α → α
  put : α → Char → α

def Typing.type {α : Type} (t : Typing α) (font : Font) (a : α) (c : Char) : α :=
  if c = '\r' then t.carriageReturn a
  else if c = '\x08' then t.backspace a
  else if c = '\t' then (List.range 4).foldl (fun a _ => t.put a (Grid.shown font ' ')) a
  else if c = '\n' then t.newLine a
  else t.put a (Grid.shown font c)

section
variable {α β : Type} {t : Typing α} {t' : Typing β} {font : Font}

/-- what the single steps of two typings keep between them, a character keeps -/
theorem Typing.type_related {R : α → β → Prop}
    (hcr : ∀ {a b}, R a b → R (t.carriageReturn a) (t'.carriageReturn b))
    (hbs : ∀ {a b}, R a b → R (t.backspace a) (t'.backspace b))
    (hnl : ∀ {a b}, R a b → R (t.newLine a) (t'.newLine b))
    (hput : ∀ {a b} c, R a b → R (t.put a c) (t'.put b c)) {a : α} {b : β} (h : R a b) (c : Char) :
    R (t.type font a c) (t'.type font b c) := by
  unfold Typing.type
  split
  · exact hcr h
  split
  · exact hbs h
  split
  · generalize List.range 4 = rounds
    induction rounds generalizing a b with
    | nil => exact h
    | cons _ rounds ih => exact ih (hput _ h)
  split
  · exact hnl h
  · exact hput _ h

/-- an invariant of one typing -/
theorem Typing.type_keeps {P : α → Prop} (hcr : ∀ {a}, P a → P (t.carriageReturn a))
    (hbs : ∀ {a}, P a → P (t.backspace a)) (hnl : ∀ {a}, P a → P (t.newLine a))
    (hput : ∀ {a} c, P a → P (t.put a c)) {a : α} (h : P a) (c : Char) : P (t.type font a c) :=
  @Typing.type_related α α t t font (fun a _ => P a) hcr hbs hnl hput a a h c

end

def Grid.typing : Typing Grid := ⟨fun g => { g with column := 0 }, Grid.backspace, Grid.newLine, Grid.put⟩

theorem Grid.type_eq (font : Font) (g : Grid) (c : Char) : g.type font c = Grid.typing.type font g c := rfl

/-! ## its rendering -/

def advance (font : Font) : Nat := font.getRasterWidth + 1

/-- the intensity of a character at a pixel of its cell -/
def intensity (font : Font) (c : Char) (dx dy : Nat) : UInt8 :=
  match font.getRaster c with
  | none => 0
  | some raster => ((raster.rows[dy]?).bind (fun row => row[dx]?)).getD 0

/-- the character whose glyph covers a pixel; cell `(i, j)` has its glyph at
`(8 + i * advance, 8 + 18 * j)` -/
def Grid.charAt (font : Font) (g : Grid) (x y : Nat) : Option Char :=
  if 8 ≤ x ∧ 8 ≤ y ∧ (x - 8) % advance font < font.getRasterWidth ∧ (y - 8) % 18 < 16
      ∧ (x - 8) / advance font < g.columns ∧ (y - 8) / 18 < g.rows then
    g.cell ((x - 8) / advance font) ((y - 8) / 18)
  else none

def Grid.color (font : Font) (g : Grid) (x y : Nat) : Rgb :=
  match g.charAt font x y with
  | some c =>
    blend background foreground (intensity font c ((x - 8) % advance font) ((y - 8) % 18))
  | none => background

/-- the assumptions on the font crate and on the screen -/
structure Geometry (font : Font) (w : FramebufferWriter) : Prop where
  covered : w.Covered
  fallback : (font.getRaster '?').isSome
  raster_width : ∀ c r, font.getRaster c = some r → r.width = font.getRasterWidth
  raster_height : ∀ c r, font.getRaster c = some r → r.rows.length = 16
  raster_row : ∀ c r, font.getRaster c = some r → ∀ row ∈ r.rows, row.length = font.getRasterWidth
  width_ge : 16 + advance font ≤ w.info.width

def columnsOf (font : Font) (info : FrameBufferInfo) : Nat := (info.width - 16) / advance font
def rowsOf (info : FrameBufferInfo) : Nat := (info.height - 32) / 18 + 1

/-- **the screen shows the grid** -/
structure Renders (font : Font) (g : Grid) (w : FramebufferWriter) : Prop where
  geometry : Geometry font w
  columns_eq : g.columns = columnsOf font w.info
  rows_eq : g.rows = rowsOf w.info
  column_le : g.column ≤ g.columns
  row_lt : g.row < g.rows
  column_eq : w.column = 8 + g.column * advance font
  row_eq : w.row = 8 + 18 * g.row
  pixel_eq : ∀ x y, x < w.info.width → 8 ≤ y → y < w.info.height →
    w.info.pixel w.buffer x y = w.info.encode (g.color font x y)

/-! ## geometry -/

section
variable {font : Font} {g : Grid} {w : FramebufferWriter}

theorem Geometry.congr {w' : FramebufferWriter} (h : Geometry font w) (hi : w'.info = w.info)
    (hl : w'.buffer.length = w.buffer.length) : Geometry font w' := by
  refine ⟨⟨?_, ?_, ?_⟩, h.fallback, h.raster_width, h.raster_height, h.raster_row, ?_⟩
  · rw [hi]; exact h.covered.stride_le
  · rw [hi]; exact h.covered.height_ge
  · rw [hi, hl]; exact h.covered.length_ge
  · rw [hi]; exact h.width_ge

theorem cell_wraps_iff (h : Geometry font w) {i : Nat} :
    8 + i * advance font + advance font + 8 > w.info.width ↔ columnsOf font w.info ≤ i := by
  have h2 := h.width_ge
  have hiff : i < columnsOf font w.info ↔ (i + 1) * advance font ≤ w.info.width - 16 :=
    Nat.le_div_iff_mul_le (Nat.succ_pos _)
  rw [Nat.succ_mul] at hiff
  omega

/-- the lower end of a cell -/
theorem cell_bottom_le (h : w.Covered) {j : Nat} (hj : j < rowsOf w.info) :
    8 + 18 * j + 24 ≤ w.info.height := by
  have h1 := h.height_ge
  unfold rowsOf at hj
  omega

theorem cell_scrolls_iff (h : w.Covered) {j : Nat} :
    8 + 18 * j + 42 > w.info.height ↔ ¬ j + 1 < rowsOf w.info := by
  have h1 := h.height_ge
  unfold rowsOf
  omega

theorem columnsOf_pos (h : Geometry font w) : 0 < columnsOf font w.info := by
  have h1 := h.width_ge
  exact Nat.div_pos (by omega) (Nat.succ_pos _)

theorem Renders.ready (hr : Renders font g w) : w.Ready := by
  have h := hr.geometry
  have h1 := w.info.width_lt
  have h2 := w.info.height_lt
  have h3 := font.width_lt
  have hrow := cell_bottom_le h.covered (hr.rows_eq ▸ hr.row_lt)
  have hcol : g.column * advance font ≤ w.info.width - 16 := by
    apply le_trans (Nat.mul_le_mul_right _ hr.column_le)
    rw [hr.columns_eq]
    exact Nat.div_mul_le_self _ _
  refine ⟨h.covered, ?_, ?_⟩
  · rw [hr.row_eq]
    omega
  · rw [hr.column_eq]
    omega

end

/-! ## the rendering of a changed cell -/

section
variable {font : Font} {g : Grid} {w : FramebufferWriter}

/-- the pixel belongs to the glyph of cell `(i, j)` -/
def InCell (font : Font) (i j x y : Nat) : Prop :=
  (8 + i * advance font ≤ x ∧ x < 8 + i * advance font + font.getRasterWidth) ∧
    8 + 18 * j ≤ y ∧ y < 8 + 18 * j + 16

instance (font : Font) (i j x y : Nat) : Decidable (InCell font i j x y) :=
  inferInstanceAs (Decidable ((_ ∧ _) ∧ _ ∧ _))

theorem inCell_iff {i j x y : Nat} : InCell font i j x y ↔
    (8 ≤ x ∧ (x - 8) / advance font = i ∧ (x - 8) % advance font < font.getRasterWidth) ∧
      8 ≤ y ∧ (y - 8) / 18 = j ∧ (y - 8) % 18 < 16 := by
  have hy : (8 + 18 * j ≤ y ∧ y < 8 + 18 * j + 16) ↔
      (8 ≤ y ∧ (y - 8) / 18 = j ∧ (y - 8) % 18 < 16) := by omega
  have hx : (8 + i * advance font ≤ x ∧ x < 8 + i * advance font + font.getRasterWidth) ↔
      (8 ≤ x ∧ (x - 8) / advance font = i ∧ (x - 8) % advance font < font.getRasterWidth) := by
    have hdm := Nat.div_add_mod (x - 8) (advance font)
    constructor
    · rintro ⟨hlo, hhi⟩
      have hdiv : (x - 8) / advance font = i := by
        apply Nat.div_eq_of_lt_le (by omega)
        rw [Nat.succ_mul]
        unfold advance at hhi ⊢
        omega
      rw [hdiv, Nat.mul_comm] at hdm
      exact ⟨by omega, hdiv, by omega⟩
    · rintro ⟨h8, rfl, hmod⟩
      rw [Nat.mul_comm] at hdm
      omega
  unfold InCell
  rw [hx, hy]

theorem mod_of_inCell {i j x y : Nat} (h : InCell font i j x y) :
    x = 8 + i * advance font + (x - 8) % advance font ∧ y = 8 + 18 * j + (y - 8) % 18 := by
  obtain ⟨⟨hx, rfl, _⟩, hy, rfl, _⟩ := inCell_iff.mp h
  have hdm := Nat.div_add_mod (x - 8) (advance font)
  rw [Nat.mul_comm] at hdm
  omega

theorem charAt_set {i j : Nat} (hi : i < g.columns) (hj : j < g.rows) (c : Option Char)
    (column x y : Nat) :
    ({ g with cell := g.set i j c, column := column } : Grid).charAt font x y
      = if InCell font i j x y then c else g.charAt font x y := by
  have hiff : InCell font i j x y ↔ _ := inCell_iff
  unfold Grid.charAt Grid.set
  dsimp only
  by_cases hin : InCell font i j x y
  · obtain ⟨⟨h1, h2, h3⟩, h4, h5, h6⟩ := hiff.mp hin
    rw [if_pos hin, if_pos ⟨h1, h4, h3, h6, h2 ▸ hi, h5 ▸ hj⟩, if_pos ⟨h2, h5⟩]
  · rw [if_neg hin]
    by_cases hcond : 8 ≤ x ∧ 8 ≤ y ∧ (x - 8) % advance font < font.getRasterWidth
        ∧ (y - 8) % 18 < 16 ∧ (x - 8) / advance font < g.columns ∧ (y - 8) / 18 < g.rows
    · rw [if_pos hcond, if_pos hcond, if_neg]
      rintro ⟨h2, h5⟩
      exact hin (hiff.mpr ⟨⟨hcond.1, h2, hcond.2.2.1⟩, hcond.2.1, h5, hcond.2.2.2.1⟩)
    · rw [if_neg hcond, if_neg hcond]

theorem charAt_newLine_scroll (h : ¬ g.row + 1 < g.rows) {x y : Nat} (hy : 8 ≤ y) :
    g.newLine.charAt font x y = g.charAt font x (y + 18) := by
  have e1 : (y + 18 - 8) / 18 = (y - 8) / 18 + 1 := by omega
  have e2 : (y + 18 - 8) % 18 = (y - 8) % 18 := by omega
  unfold Grid.newLine Grid.charAt
  rw [if_neg h, e1, e2]
  dsimp only
  by_cases hj : (y - 8) / 18 + 1 < g.rows
  · rw [if_pos hj]
    have hj' : (y - 8) / 18 < g.rows := by omega
    have h8 : 8 ≤ y + 18 := by omega
    simp only [hj, hj', hy, h8]
  · rw [if_neg hj, ite_self, if_neg]
    rintro ⟨_, _, _, _, _, hlt⟩
    exact hj hlt

theorem charAt_newLine_down (h : g.row + 1 < g.rows) (x y : Nat) :
    g.newLine.charAt font x y = g.charAt font x y := by
  unfold Grid.newLine
  rw [if_pos h]
  rfl

/-- below the last row there is no character -/
theorem charAt_bottom (hcov : w.Covered) (hrows : g.rows = rowsOf w.info) {x y : Nat}
    (hy : w.info.height ≤ y + 8) : g.charAt font x y = none := by
  unfold Grid.charAt
  apply if_neg
  rintro ⟨_, h8, _, hdy, _, hj⟩
  have := cell_bottom_le hcov (hrows ▸ hj)
  omega

theorem color_of_charAt_none {x y : Nat} (h : g.charAt font x y = none) :
    g.color font x y = background := by
  unfold Grid.color
  rw [h]

theorem color_congr {g' : Grid} {x y : Nat} (h : g.charAt font x y = g'.charAt font x y) :
    g.color font x y = g'.color font x y := by
  unfold Grid.color
  rw [h]

end

/-! ## one step -/

section
variable {font : Font} {g : Grid} {w : FramebufferWriter}
open FramebufferWriter

/-- scrolling moves the pixels up by one text row and clears the last one -/
theorem pixel_scrolled (h : w.Covered) {x y : Nat} (hx : x < w.info.width) (hy : y < w.info.height) :
    w.info.pixel w.scrolled x y =
      if w.info.height - 18 ≤ y then w.info.encode background
      else w.info.pixel w.buffer x (y + 18) := by
  unfold scrolled
  by_cases hclear : w.info.height - 18 ≤ y
  · rw [if_pos hclear, w.info.pixel_plots_of_mem h.stride_le hx hy
      (mem_rect.mpr ⟨mem_span.mpr ⟨Nat.zero_le _, hx⟩, mem_span.mpr ⟨hclear, hy⟩, rfl⟩)]
    intro p hp _ _
    exact (mem_rect.mp hp).2.2
  · rw [if_neg hclear, w.info.pixel_plots_of_not_mem h.stride_le hx]
    · apply List.map_congr_left
      intro k hk
      rw [List.mem_range] at hk
      have hoff : w.info.offset x y + 18 * w.info.stride * w.info.bytesPerPixel
          = w.info.offset x (y + 18) := by
        unfold FrameBufferInfo.offset
        ring
      have hle := h.offset_le hx (show y + 18 < w.info.height by omega)
      show (if _ then _ else _) = _
      rw [if_pos (by omega)]
      congr 1
      omega
    · rintro p hp ⟨_, rfl⟩
      have := mem_span.mp (mem_rect.mp hp).2.1
      omega

/-- the console scrolls exactly in the last row of the grid -/
theorem Renders.scrolls_iff (hr : Renders font g w) :
    w.row + 42 > w.info.height ↔ ¬ g.row + 1 < g.rows := by
  rw [hr.row_eq, hr.rows_eq]
  exact cell_scrolls_iff hr.geometry.covered

/-- what is known behind a line break, up to the row and the pixels -/
theorem Renders.newLine (hr : Renders font g w) {w' : FramebufferWriter} (hinfo : w'.info = w.info)
    (hlen : w'.buffer.length = w.buffer.length) (hcolumn : w'.column = 8) (hlt : g.newLine.row < g.rows)
    (hrow : w'.row = 8 + 18 * g.newLine.row)
    (hpixel : ∀ x y, x < w.info.width → 8 ≤ y → y < w.info.height →
      w.info.pixel w'.buffer x y = w.info.encode (g.newLine.color font x y)) :
    Renders font g.newLine w' where
  geometry := hr.geometry.congr hinfo hlen
  columns_eq := by rw [g.newLine_columns, hinfo, hr.columns_eq]
  rows_eq := by rw [g.newLine_rows, hinfo, hr.rows_eq]
  column_le := by
    rw [g.newLine_column]
    exact Nat.zero_le _
  row_lt := by
    rw [g.newLine_rows]
    exact hlt
  column_eq := by rw [hcolumn, g.newLine_column, Nat.zero_mul]
  row_eq := hrow
  pixel_eq := by
    rw [hinfo]
    exact hpixel

theorem newLine_renders (hr : Renders font g w) : Renders font g.newLine w.nextLine := by
  have hcov := hr.geometry.covered
  unfold nextLine
  by_cases hlast : g.row + 1 < g.rows
  · have hdown : g.newLine.row = g.row + 1 := by rw [Grid.newLine, if_pos hlast]
    rw [if_neg (mt hr.scrolls_iff.mp (not_not.mpr hlast))]
    refine hr.newLine rfl rfl rfl (by omega) ?_ ?_
    · show w.row + 18 = 8 + 18 * g.newLine.row
      rw [hr.row_eq, hdown]
      omega
    · intro x y hx h8 hy
      rw [color_congr (charAt_newLine_down hlast x y)]
      exact hr.pixel_eq x y hx h8 hy
  · have hsame : g.newLine.row = g.row := by rw [Grid.newLine, if_neg hlast]
    rw [if_pos (hr.scrolls_iff.mpr hlast)]
    refine hr.newLine rfl scrolled_length rfl (by rw [hsame]; exact hr.row_lt)
      (by rw [hsame]; exact hr.row_eq) ?_
    intro x y hx h8 hy
    have hchar : g.newLine.charAt font x y = _ := charAt_newLine_scroll hlast h8
    show w.info.pixel w.scrolled x y = _
    rw [pixel_scrolled hcov hx hy]
    by_cases hclear : w.info.height - 18 ≤ y
    · rw [if_pos hclear, color_of_charAt_none]
      rw [hchar]
      exact charAt_bottom hcov hr.rows_eq (by omega)
    · have e : (y + 18 - 8) % 18 = (y - 8) % 18 := by omega
      rw [if_neg hclear, hr.pixel_eq x (y + 18) hx (by omega) (by omega)]
      unfold Grid.color
      rw [hchar, e]

theorem mem_glyph {raster : Raster} {column row : Nat} {p : Nat × Nat × Rgb} :
    p ∈ glyph raster column row ↔ ∃ dx dy bits v, raster.rows[dy]? = some bits ∧
      bits[dx]? = some v ∧ p = (column + dx, row + dy, blend background foreground v) := by
  simp only [glyph, List.mem_flatMap, List.mem_map, Prod.exists, List.mem_zipIdx_iff_getElem?]
  constructor
  · rintro ⟨bits, dy, hbits, v, dx, hv, rfl⟩
    exact ⟨dx, dy, bits, v, hbits, hv, rfl⟩
  · rintro ⟨dx, dy, bits, v, hbits, hv, rfl⟩
    exact ⟨bits, dy, hbits, v, dx, hv, rfl⟩

/-- a glyph of fixed size covers exactly its cell -/
theorem pixel_glyph (hg : Geometry font w) {c : Char} {raster : Raster}
    (hc : font.getRaster c = some raster) {i j x y : Nat} (hx : x < w.info.width)
    (hy : y < w.info.height) (b : Bytes) :
    w.info.pixel (w.info.plots (glyph raster (8 + i * advance font) (8 + 18 * j)) b) x y =
      if InCell font i j x y then
        w.info.encode (blend background foreground
          (intensity font c ((x - 8) % advance font) ((y - 8) % 18)))
      else w.info.pixel b x y := by
  have hheight := hg.raster_height c raster hc
  have hrow := hg.raster_row c raster hc
  by_cases hin : InCell font i j x y
  · rw [if_pos hin]
    obtain ⟨⟨_, _, hdx⟩, _, _, hdy⟩ := inCell_iff.mp hin
    obtain ⟨ex, ey⟩ := mod_of_inCell hin
    obtain ⟨bits, hbits⟩ : ∃ bits, raster.rows[(y - 8) % 18]? = some bits :=
      ⟨_, List.getElem?_eq_getElem (by omega)⟩
    have hlen := hrow bits (List.mem_of_getElem? hbits)
    obtain ⟨v, hv⟩ : ∃ v, bits[(x - 8) % advance font]? = some v :=
      ⟨_, List.getElem?_eq_getElem (by omega)⟩
    have hint : intensity font c ((x - 8) % advance font) ((y - 8) % 18) = v := by
      unfold intensity
      rw [hc]
      simp only [hbits, Option.bind_some, hv, Option.getD_some]
    rw [hint]
    refine w.info.pixel_plots_of_mem hg.covered.stride_le hx hy
      (mem_glyph.mpr ⟨_, _, bits, v, hbits, hv, ?_⟩) ?_ b
    · rw [← ex, ← ey]
    · intro p hp hpx hpy
      obtain ⟨dx, dy, bits', v', hbits', hv', rfl⟩ := mem_glyph.mp hp
      -- two points of one raster at the same place are the same point
      obtain rfl : dx = (x - 8) % advance font := by
        have : 8 + i * advance font + dx = x := hpx
        omega
      obtain rfl : dy = (y - 8) % 18 := by
        have : 8 + 18 * j + dy = y := hpy
        omega
      obtain rfl : bits = bits' := Option.some.inj (hbits.symm.trans hbits')
      obtain rfl : v = v' := Option.some.inj (hv.symm.trans hv')
      rfl
  · rw [if_neg hin]
    refine w.info.pixel_plots_of_not_mem hg.covered.stride_le hx ?_ b
    rintro p hp ⟨hpx, hpy⟩
    obtain ⟨dx, dy, bits, v, hbits, hv, rfl⟩ := mem_glyph.mp hp
    have hlen := hrow bits (List.mem_of_getElem? hbits)
    have hdx := (List.getElem?_eq_some_iff.mp hv).1
    have hdy := (List.getElem?_eq_some_iff.mp hbits).1
    have ex : 8 + i * advance font + dx = x := hpx
    have ey : 8 + 18 * j + dy = y := hpy
    exact hin ⟨by omega, by omega⟩

/-- the test for wrapping finds the full rows -/
theorem Renders.wraps_iff (hr : Renders font g w) {c : Char} {raster : Raster}
    (hc : font.getRaster c = some raster) :
    w.column + (raster.width + 1) + 8 > w.info.width ↔ g.column = g.columns := by
  have hiff := cell_wraps_iff hr.geometry (i := g.column)
  have hcols := hr.columns_eq
  have hle := hr.column_le
  have hwidth : raster.width + 1 = advance font := by
    unfold advance
    rw [hr.geometry.raster_width c raster hc]
  rw [hwidth, hr.column_eq, hiff]
  omega

/-- a full row wraps, and then there is room for a cell -/
theorem wrap_renders (hr : Renders font g w) {c : Char} {raster : Raster}
    (hc : font.getRaster c = some raster) :
    Renders font g.wrap (w.wrap raster) ∧ g.wrap.column < g.wrap.columns := by
  have hpos := columnsOf_pos hr.geometry
  have hcols := hr.columns_eq
  have hle := hr.column_le
  unfold Grid.wrap FramebufferWriter.wrap
  by_cases hfull : g.column = g.columns
  · rw [if_pos hfull, if_pos ((hr.wraps_iff hc).mpr hfull)]
    refine ⟨newLine_renders hr, ?_⟩
    rw [g.newLine_column, g.newLine_columns]
    omega
  · rw [if_neg hfull, if_neg (fun h => hfull ((hr.wraps_iff hc).mp h))]
    exact ⟨hr, by omega⟩

theorem put_renders (hr : Renders font g w) {c : Char} {raster : Raster}
    (hc : font.getRaster c = some raster) : Renders font (g.put c) (w.stamp raster) := by
  obtain ⟨hw, hroom⟩ := wrap_renders hr hc
  have hwidth := hr.geometry.raster_width c raster hc
  refine ⟨hw.geometry.congr rfl ((w.wrap raster).info.plots_length _ _), hw.columns_eq, hw.rows_eq,
    hroom, hw.row_lt, ?_, hw.row_eq, ?_⟩
  · show (w.wrap raster).column + (raster.width + 1) = 8 + (g.wrap.column + 1) * advance font
    rw [hw.column_eq, hwidth, Nat.succ_mul]
    unfold advance
    omega
  · intro x y hx h8 hy
    show (w.wrap raster).info.pixel ((w.wrap raster).info.plots
      (glyph raster (w.wrap raster).column (w.wrap raster).row) (w.wrap raster).buffer) x y = _
    rw [hw.column_eq, hw.row_eq, pixel_glyph hw.geometry hc hx hy]
    have hchar : (g.put c).charAt font x y = if InCell font g.wrap.column g.wrap.row x y then some c
        else g.wrap.charAt font x y := charAt_set hroom hw.row_lt (some c) _ x y
    by_cases hin : InCell font g.wrap.column g.wrap.row x y
    · rw [if_pos hin] at hchar ⊢
      unfold Grid.color
      rw [hchar]
      rfl
    · rw [if_neg hin] at hchar ⊢
      rw [color_congr hchar]
      exact hw.pixel_eq x y hx h8 hy

/-- no glyph is left in an erased cell, nor in the column of spacing after it -/
theorem charAt_erased {k : Nat} (hk : k < g.columns) (hrow : g.row < g.rows) {x y : Nat}
    (hx : 8 + k * advance font ≤ x ∧ x < 8 + k * advance font + advance font)
    (hy : 8 + 18 * g.row ≤ y ∧ y < 8 + 18 * g.row + 16) :
    ({ g with cell := g.set k g.row none, column := k } : Grid).charAt font x y = none := by
  rw [charAt_set hk hrow]
  by_cases hin : InCell font k g.row x y
  · rw [if_pos hin]
  · rw [if_neg hin]
    refine if_neg (fun hcond => hin (inCell_iff.mpr ⟨⟨by omega, ?_, hcond.2.2.1⟩, by omega, by omega,
      hcond.2.2.2.1⟩))
    apply Nat.div_eq_of_lt_le (by omega)
    rw [Nat.succ_mul]
    omega

theorem backspace_renders (hr : Renders font g w) : Renders font g.backspace (w.erase font) := by
  have hg := hr.geometry
  have hadv : advance font = font.getRasterWidth + 1 := rfl
  unfold Grid.backspace erase
  by_cases h0 : g.column = 0
  · rw [if_pos h0, if_pos (by rw [hr.column_eq, h0]; omega)]
    exact hr
  obtain ⟨k, hk⟩ := Nat.exists_eq_add_one_of_ne_zero h0
  have hcol : w.column = 8 + k * advance font + advance font := by
    rw [hr.column_eq, hk, Nat.succ_mul]
    omega
  have herase : w.eraseColumn font = 8 + k * advance font := by
    unfold eraseColumn
    rw [hcol, ← hadv]
    omega
  have hlt : k < g.columns := by
    have := hr.column_le
    omega
  rw [if_neg h0, if_neg (by omega), herase, ← hadv, hk, Nat.add_sub_cancel]
  refine ⟨hg.congr rfl (w.info.plots_length _ _), hr.columns_eq, hr.rows_eq, hlt.le, hr.row_lt, rfl,
    hr.row_eq, fun x y hx h8 hy => ?_⟩
  show w.info.pixel (w.info.plots (rect (span (8 + k * advance font) _) _ background) w.buffer) x y
    = w.info.encode (Grid.color font _ x y)
  by_cases hin : (8 + k * advance font ≤ x ∧ x < 8 + k * advance font + advance font) ∧
      w.row ≤ y ∧ y < w.row + 16
  · rw [color_of_charAt_none (charAt_erased hlt hr.row_lt hin.1 (hr.row_eq ▸ hin.2)),
      w.info.pixel_plots_of_mem hg.covered.stride_le hx hy
      (mem_rect.mpr ⟨mem_span.mpr ⟨hin.1.1, lt_min hin.1.2 hx⟩,
        mem_span.mpr ⟨hin.2.1, lt_min hin.2.2 hy⟩, rfl⟩)]
    exact fun p hp _ _ => (mem_rect.mp hp).2.2
  · rw [w.info.pixel_plots_of_not_mem hg.covered.stride_le hx, hr.pixel_eq x y hx h8 hy]
    · refine congrArg _ (color_congr ?_)
      rw [charAt_set hlt hr.row_lt, if_neg]
      rintro ⟨hx', hy'⟩
      rw [hr.row_eq] at hin
      omega
    · rintro p hp ⟨rfl, rfl⟩
      obtain ⟨h1, h2, _⟩ := mem_rect.mp hp
      rw [mem_span] at h1 h2
      omega

/-- a relation that every single step keeps, every character keeps -/
theorem Typing.type_rel {α : Type} {t : Typing α} {R : α → FramebufferWriter → Prop} {fallback : Raster}
    (hf : font.getRaster '?' = some fallback)
    (hcr : ∀ {a w}, R a w → R (t.carriageReturn a) { w with column := 8 })
    (hbs : ∀ {a w}, R a w → R (t.backspace a) (w.erase font))
    (hnl : ∀ {a w}, R a w → R (t.newLine a) w.nextLine)
    (hput : ∀ {a w c raster}, R a w → font.getRaster c = some raster → R (t.put a c) (w.stamp raster))
    {a : α} (h : R a w) (c : Char) : R (t.type font a c) (w.type font fallback c) := by
  have hshown : ∀ {a w c}, R a w → c ≠ '\n' → c.toNat < 128 →
      R (t.put a (Grid.shown font c)) (w.put font fallback c) := by
    intro a w c h hn ha
    unfold FramebufferWriter.put Grid.shown
    rw [if_neg hn]
    cases hc : font.getRaster c with
    | none =>
      rw [if_neg (by simp)]
      exact hput h hf
    | some raster =>
      rw [if_pos ⟨ha, rfl⟩]
      exact hput h hc
  unfold Typing.type FramebufferWriter.type
  by_cases hr : c = '\r'
  · rw [if_pos hr, if_pos hr]
    exact hcr h
  rw [if_neg hr, if_neg hr]
  by_cases hb : c = '\x08'
  · rw [if_pos hb, if_pos hb]
    exact hbs h
  rw [if_neg hb, if_neg hb]
  by_cases htab : c = '\t'
  · rw [if_pos htab, if_pos htab, show span 0 4 = List.range 4 from rfl]
    generalize List.range 4 = rounds
    induction rounds generalizing a w with
    | nil => exact h
    | cons _ rounds ih => exact ih (hshown h (by decide) (by decide))
  rw [if_neg htab, if_neg htab]
  by_cases hn : c = '\n'
  · subst hn
    rw [if_pos rfl, if_pos (by decide)]
    exact hnl h
  rw [if_neg hn]
  by_cases ha : c.toNat < 128
  · rw [if_pos ha]
    exact hshown h hn ha
  · have hother : Grid.shown font c = Grid.shown font '?' := by
      unfold Grid.shown
      rw [if_neg (fun h => ha h.1), ite_self]
    rw [if_neg ha, hother]
    exact hshown h (by decide) (by decide)

theorem carriageReturn_renders (hr : Renders font g w) :
    Renders font { g with column := 0 } { w with column := 8 } := by
  refine ⟨hr.geometry.congr rfl rfl, hr.columns_eq, hr.rows_eq, Nat.zero_le _, hr.row_lt, ?_,
    hr.row_eq, hr.pixel_eq⟩
  show 8 = 8 + 0 * advance font
  omega

/-- **one character** -/
theorem type_renders (hr : Renders font g w) {fallback : Raster}
    (hf : font.getRaster '?' = some fallback) (c : Char) :
    Renders font (g.type font c) (w.type font fallback c) := by
  rw [Grid.type_eq]
  exact Typing.type_rel (R := Renders font) hf carriageReturn_renders backspace_renders newLine_renders
    (fun h hc => put_renders h hc) hr c

theorem typeAll_renders (hr : Renders font g w) {fallback : Raster}
    (hf : font.getRaster '?' = some fallback) (text : Text.Str) :
    Renders font (g.typeAll font text) (text.foldl (fun w c => w.type font fallback c) w) := by
  induction text generalizing g w with
  | nil => exact hr
  | cons c text ih => exact ih (type_renders hr hf c)

/-- `write_str` types its characters into the grid -/
theorem writeStr_renders (hr : Renders font g w) (text : Text.Str) :
    ∃ w', writeStr font w text = .ok w' ∧ Renders font (g.typeAll font text) w' := by
  obtain ⟨fallback, hf⟩ := Option.isSome_iff_exists.mp hr.geometry.fallback
  exact ⟨_, writeStr_eq hr.ready hf text, typeAll_renders hr hf text⟩

theorem cleared_renders (hg : Geometry font w) :
    Renders font (.blank (columnsOf font w.info) (rowsOf w.info)) w.cleared := by
  refine ⟨hg.congr rfl (w.info.plots_length _ _), rfl, rfl, Nat.zero_le _, Nat.succ_pos _, ?_, rfl, ?_⟩
  · show 8 = 8 + 0 * advance font
    omega
  · intro x y hx h8 hy
    have hchar : (Grid.blank (columnsOf font w.info) (rowsOf w.info)).charAt font x y = none := by
      unfold Grid.charAt
      split <;> rfl
    rw [color_of_charAt_none hchar]
    refine w.info.pixel_plots_of_mem hg.covered.stride_le hx hy
      (mem_rect.mpr ⟨mem_span.mpr ⟨Nat.zero_le _, hx⟩, mem_span.mpr ⟨Nat.zero_le _, hy⟩, rfl⟩) ?_ _
    exact fun p hp _ _ => (mem_rect.mp hp).2.2

theorem writeStrs_renders (hr : Renders font g w) (texts : List Text.Str) :
    ∃ w', forEach texts (fun text w => writeStr font w text) w = .ok w' ∧
      Renders font (g.typeAll font texts.flatten) w' := by
  induction texts generalizing g w with
  | nil => exact ⟨w, rfl, hr⟩
  | cons text texts ih =>
    obtain ⟨v, hv, hr'⟩ := writeStr_renders hr text
    obtain ⟨w', hw', hr''⟩ := ih hr'
    refine ⟨w', ?_, ?_⟩
    · show (writeStr font w text >>= fun w => forEach texts _ w) = _
      rw [hv, bind_ok, hw']
    · rw [List.flatten_cons, Grid.typeAll, List.foldl_append]
      exact hr''

/-- `clear`, and then strings through `write_str` -/
def clearAndWrite (font : Font) (w : FramebufferWriter) (texts : List Text.Str) :
    Run Empty FramebufferWriter := do
  let w ← w.clear
  forEach texts (fun text w => writeStr font w text) w

end

/-- **the framebuffer console renders a text grid**: after `clear`, for every sequence of strings -/
theorem console_renders_grid (font : Font) (w : FramebufferWriter) (hg : Geometry font w)
    (texts : List Text.Str) :
    ∃ w', clearAndWrite font w texts = .ok w' ∧
      Renders font ((Grid.blank (columnsOf font w.info) (rowsOf w.info)).typeAll font texts.flatten) w' := by
  obtain ⟨w', hw', hr⟩ := writeStrs_renders (cleared_renders hg) texts
  refine ⟨w', ?_, hr⟩
  unfold clearAndWrite
  rw [FramebufferWriter.clear_eq hg.covered, bind_ok, hw']

theorem barScreen_geometry {width height : Nat} (hw : width < 2^16) (hh : height < 2^16)
    (h18 : 18 ≤ width) (h32 : 32 ≤ height) : Geometry barFont (barScreen width height hw hh) where
  covered := barScreen_covered hw hh h32
  fallback := rfl
  raster_width := by rintro c _ ⟨⟩; rfl
  raster_height := by rintro c _ ⟨⟩; exact List.length_replicate
  raster_row := by
    rintro c _ ⟨⟩ row hrow
    rw [List.eq_of_mem_replicate hrow]
    rfl
  width_ge := h18

theorem console_renders_grid_barScreen :
    ∃ w', clearAndWrite barFont (barScreen 20 40 (by norm_num) (by norm_num)) [['a', '\n'], ['b']]
        = .ok w' ∧
      Renders barFont ((Grid.blank 2 1).typeAll barFont ['a', '\n', 'b']) w' := by
  obtain ⟨w', hw', hr⟩ := console_renders_grid barFont (barScreen 20 40 (by norm_num) (by norm_num))
    (barScreen_geometry (by norm_num) (by norm_num) (by norm_num) (by norm_num)) [['a', '\n'], ['b']]
  have hcolumns : columnsOf barFont (barScreen 20 40 (by norm_num) (by norm_num)).info = 2 := rfl
  have hrows : rowsOf (barScreen 20 40 (by norm_num) (by norm_num)).info = 1 := rfl
  rw [hcolumns, hrows] at hr
  exact ⟨w', hw', hr⟩

end Console
end SolOs
