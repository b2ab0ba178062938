import SolOs.Console.Grid

/-!
# The border of the screen

Text is drawn inside a border of 8 pixels.  Scrolling moves the whole buffer up by 18 rows of pixels, and
the cells of the top text row end 16 below it: their last six rows of pixels land in the upper border.

* `Paper`            the grid together with the text row that has scrolled off it last;
* `Paper.above`      the colour that this row leaves in the upper border;
* `Shows font p w`   the screen shows the grid, and the upper border what is left of that row;
* `BorderClean`      every pixel of the border has the background colour;
* `border_clean_iff` **when the border is clean.**
-/

set_option linter.unusedVariables false

namespace SolOs
namespace Console
open Checked

/-! ## the row above the grid -/

/-- a grid, and the text row that has scrolled off its top last (a blank one before the first scroll) -/
structure Paper where
  grid : Grid
  gone : Nat → Option Char

namespace Paper

def blank (columns rows : Nat) : Paper := ⟨.blank columns rows, fun _ => none⟩

def newLine (p : Paper) : Paper :=
  ⟨p.grid.newLine, if p.grid.row + 1 < p.grid.rows then p.gone else fun i => p.grid.cell i 0⟩

def wrap (p : Paper) : Paper := if p.grid.column = p.grid.columns then p.newLine else p

def put (p : Paper) (c : Char) : Paper := ⟨p.grid.put c, p.wrap.gone⟩

def typing : Typing Paper :=
  ⟨fun p => { p with grid := { p.grid with column := 0 } },
    fun p => { p with grid := p.grid.backspace }, newLine, put⟩

def typeAll (font : Font) (p : Paper) (text : Text.Str) : Paper := text.foldl (typing.type font) p

/-- the row alone, as a grid at the place it was scrolled from -/
def strip (p : Paper) : Grid := ⟨p.grid.columns, 1, fun i _ => p.gone i, 0, 0⟩

/-- the colour in the upper border: what was 18 pixels below -/
def above (font : Font) (p : Paper) (x y : Nat) : Rgb := p.strip.color font x (y + 18)

theorem wrap_grid (p : Paper) : p.wrap.grid = p.grid.wrap := by
  unfold wrap Grid.wrap
  split <;> rfl

theorem strip_congr {p q : Paper} (hc : p.grid.columns = q.grid.columns) (hg : p.gone = q.gone) :
    p.strip = q.strip := by
  unfold strip
  rw [hc, hg]

end Paper

/-! ## the invariant -/

structure Shows (font : Font) (p : Paper) (w : FramebufferWriter) : Prop where
  renders : Renders font p.grid w
  above_eq : ∀ x y, x < w.info.width → y < 8 →
    w.info.pixel w.buffer x y = w.info.encode (p.above font x y)

section
variable {font : Font} {p : Paper} {w : FramebufferWriter}
open FramebufferWriter

/-- the top row of a grid, seen from the upper border -/
theorem color_strip (g : Grid) (hrows : 0 < g.rows) (x : Nat) {y : Nat} (hy : y < 8) :
    g.color font x (y + 18) = (⟨g.columns, 1, fun i _ => g.cell i 0, 0, 0⟩ : Grid).color font x (y + 18) := by
  have h0 : (y + 18 - 8) / 18 = 0 := by omega
  apply color_congr
  unfold Grid.charAt
  rw [h0]
  simp only [hrows, Nat.zero_lt_one]

theorem Shows.newLine (h : Shows font p w) : Shows font p.newLine w.nextLine := by
  have hr := h.renders
  have hcov := hr.geometry.covered
  have hheight := hcov.height_ge
  have hscroll := hr.scrolls_iff
  refine ⟨newLine_renders hr, ?_⟩
  have hstrip : p.newLine.strip = ⟨p.grid.columns, 1, fun i _ => p.newLine.gone i, 0, 0⟩ := by
    unfold Paper.strip
    rw [show p.newLine.grid.columns = p.grid.columns from p.grid.newLine_columns]
  unfold Paper.above
  rw [hstrip]
  unfold nextLine Paper.newLine
  by_cases hs : w.row + 42 > w.info.height
  · rw [if_pos hs, if_neg (hscroll.mp hs)]
    intro x y hx hy
    -- the pixel comes from the top text row
    have hfrom : w.info.pixel w.scrolled x y = w.info.encode (p.grid.color font x (y + 18)) := by
      rw [pixel_scrolled hcov hx (by omega), if_neg (by omega)]
      exact hr.pixel_eq x (y + 18) hx (by omega) (by omega)
    rw [color_strip p.grid (Nat.zero_lt_of_lt hr.row_lt) x hy] at hfrom
    exact hfrom
  · rw [if_neg hs, if_pos (by by_contra hlast; exact hs (hscroll.mpr hlast))]
    exact h.above_eq

theorem Shows.wrap (h : Shows font p w) {c : Char} {raster : Raster}
    (hc : font.getRaster c = some raster) : Shows font p.wrap (w.wrap raster) := by
  have hiff := h.renders.wraps_iff hc
  unfold Paper.wrap FramebufferWriter.wrap
  by_cases hfull : p.grid.column = p.grid.columns
  · rw [if_pos hfull, if_pos (hiff.mpr hfull)]
    exact h.newLine
  · rw [if_neg hfull, if_neg (fun hn => hfull (hiff.mp hn))]
    exact h

/-- glyphs lie below the upper border -/
theorem Shows.put (h : Shows font p w) {c : Char} {raster : Raster}
    (hc : font.getRaster c = some raster) : Shows font (p.put c) (w.stamp raster) := by
  have hw := h.wrap hc
  have hr := hw.renders
  have hheight := hr.geometry.covered.height_ge
  refine ⟨put_renders h.renders hc, ?_⟩
  intro x y hx hy
  have hstrip : (p.put c).strip = p.wrap.strip := by
    refine Paper.strip_congr ?_ rfl
    rw [p.wrap_grid]
    rfl
  have hglyph : (w.wrap raster).info.pixel (w.stamp raster).buffer x y
      = (w.wrap raster).info.pixel (w.wrap raster).buffer x y := by
    show (w.wrap raster).info.pixel ((w.wrap raster).info.plots
      (glyph raster (w.wrap raster).column (w.wrap raster).row) (w.wrap raster).buffer) x y = _
    rw [hr.column_eq, hr.row_eq, pixel_glyph hr.geometry hc hx (by omega), if_neg]
    intro hin
    have := hin.2
    omega
  show (w.wrap raster).info.pixel (w.stamp raster).buffer x y
    = (w.wrap raster).info.encode ((p.put c).strip.color font x (y + 18))
  rw [hglyph, hstrip]
  exact hw.above_eq x y hx hy

theorem Shows.backspace (h : Shows font p w) :
    Shows font { p with grid := p.grid.backspace } (w.erase font) := by
  have hr := backspace_renders h.renders
  refine ⟨hr, ?_⟩
  have hstrip : ({ p with grid := p.grid.backspace } : Paper).strip = p.strip := by
    refine Paper.strip_congr ?_ rfl
    show p.grid.backspace.columns = p.grid.columns
    unfold Grid.backspace
    split <;> rfl
  unfold Paper.above
  rw [hstrip]
  unfold erase
  by_cases hc : w.column ≤ 8
  · rw [if_pos hc]
    exact h.above_eq
  · rw [if_neg hc]
    intro x y hx hy
    refine Eq.trans ?_ (h.above_eq x y hx hy)
    refine w.info.pixel_plots_of_not_mem h.renders.geometry.covered.stride_le hx ?_ _
    rintro q hq ⟨_, rfl⟩
    have hrow := mem_span.mp (mem_rect.mp hq).2.1
    rw [h.renders.row_eq] at hrow
    omega

/-- **one character** -/
theorem Shows.type (h : Shows font p w) {fallback : Raster} (hf : font.getRaster '?' = some fallback)
    (c : Char) : Shows font (Paper.typing.type font p c) (w.type font fallback c) := by
  refine Typing.type_rel (R := Shows font) hf ?_ Shows.backspace Shows.newLine (fun h hc => h.put hc) h c
  intro p w h
  exact ⟨carriageReturn_renders h.renders, h.above_eq⟩

theorem cleared_shows (hg : Geometry font w) :
    Shows font (.blank (columnsOf font w.info) (rowsOf w.info)) w.cleared := by
  refine ⟨cleared_renders hg, ?_⟩
  intro x y hx hy
  have hheight := hg.covered.height_ge
  have hblank : (Paper.blank (columnsOf font w.info) (rowsOf w.info)).strip.charAt font x (y + 18)
      = none := by
    unfold Grid.charAt
    split <;> rfl
  unfold Paper.above
  rw [color_of_charAt_none hblank]
  refine w.info.pixel_plots_of_mem hg.covered.stride_le hx (by show y < w.info.height; omega)
    (mem_rect.mpr ⟨mem_span.mpr ⟨Nat.zero_le _, hx⟩, mem_span.mpr ⟨Nat.zero_le _, ?_⟩, rfl⟩) ?_ _
  · show y < w.info.height
    omega
  · exact fun q hq _ _ => (mem_rect.mp hq).2.2

/-- `write_str` types its characters onto the paper -/
theorem writeStr_shows (h : Shows font p w) (text : Text.Str) :
    ∃ w', writeStr font w text = .ok w' ∧ Shows font (p.typeAll font text) w' := by
  obtain ⟨fallback, hf⟩ := Option.isSome_iff_exists.mp h.renders.geometry.fallback
  refine ⟨_, writeStr_eq h.renders.ready hf text, ?_⟩
  induction text generalizing p w with
  | nil => exact h
  | cons c text ih => exact ih (h.type hf c)

/-- the run lemma -/
theorem clearAndWrite_shows (hg : Geometry font w) (texts : List Text.Str) :
    ∃ w', clearAndWrite font w texts = .ok w' ∧ w'.info = w.info ∧
      Shows font ((Paper.blank (columnsOf font w.info) (rowsOf w.info)).typeAll font texts.flatten) w' := by
  have hwrite : ∀ (texts : List Text.Str) (p : Paper) (v : FramebufferWriter), Shows font p v →
      ∃ w', forEach texts (fun text w => writeStr font w text) v = .ok w' ∧
        Shows font (p.typeAll font texts.flatten) w' := by
    intro texts
    induction texts with
    | nil => exact fun p v h => ⟨v, rfl, h⟩
    | cons text texts ih =>
      intro p v h
      obtain ⟨v', hv', htext⟩ := writeStr_shows h text
      obtain ⟨w', hw', h'⟩ := ih _ _ htext
      refine ⟨w', ?_, ?_⟩
      · show (writeStr font v text >>= fun w => forEach texts _ w) = _
        rw [hv', bind_ok, hw']
      · rw [List.flatten_cons, Paper.typeAll, List.foldl_append]
        exact h'
  obtain ⟨w', hw', h'⟩ := hwrite texts _ _ (cleared_shows hg)
  have hrun : clearAndWrite font w texts = .ok w' := by
    unfold clearAndWrite
    rw [clear_eq hg.covered, bind_ok, hw']
  have hkeeps : Keeps w.cleared w' := forEach_keeps (fun _ _ _ h => writeStr_keeps h) hw'
  exact ⟨w', hrun, hkeeps.info, h'⟩

/-! ## the border -/

/-- every pixel of the 8-pixel border has the background colour -/
def BorderClean (w : FramebufferWriter) : Prop :=
  ∀ x y, x < w.info.width → y < w.info.height →
    x < 8 ∨ w.info.width - 8 ≤ x ∨ y < 8 ∨ w.info.height - 8 ≤ y →
    w.info.pixel w.buffer x y = w.info.encode background

/-- the glyph of `c` shows at a pixel of its raster -/
def Inked (font : Font) (info : FrameBufferInfo) (c : Char) (dx dy : Nat) : Prop :=
  info.encode (blend background foreground (intensity font c dx dy)) ≠ info.encode background

/-- the row that scrolled off last has a glyph with ink in its last six rows of pixels -/
def Leaves (font : Font) (info : FrameBufferInfo) (p : Paper) : Prop :=
  ∃ i c dx dy, i < p.grid.columns ∧ p.gone i = some c ∧ dx < font.getRasterWidth ∧
    10 ≤ dy ∧ dy < 16 ∧ Inked font info c dx dy

/-- the cells end before the right border -/
theorem cell_right_le (hg : Geometry font w) {i : Nat} (hi : i < columnsOf font w.info) :
    8 + i * advance font + advance font + 8 ≤ w.info.width := by
  by_contra hgt
  have := (cell_wraps_iff hg (i := i)).mp (by omega)
  omega

/-- the grid has no character in the borders on the left and the right -/
theorem charAt_side {g : Grid} (hg : Geometry font w) (hcols : g.columns = columnsOf font w.info)
    {x : Nat} (hx : x < 8 ∨ w.info.width - 8 ≤ x) (y : Nat) : g.charAt font x y = none := by
  unfold Grid.charAt
  apply if_neg
  rintro ⟨h8, _, hmod, _, hdiv, _⟩
  have hright := cell_right_le hg (hcols ▸ hdiv)
  have hdm := Nat.div_add_mod (x - 8) (advance font)
  rw [Nat.mul_comm] at hdm
  have hadv : advance font = font.getRasterWidth + 1 := rfl
  omega

/-- a remainder in the upper border is a glyph of the row that scrolled off -/
theorem above_ne_background_iff (hg : Geometry font w) (hcols : p.grid.columns = columnsOf font w.info) :
    (∃ x y, x < w.info.width ∧ y < 8 ∧ w.info.encode (p.above font x y) ≠ w.info.encode background) ↔
      Leaves font w.info p := by
  constructor
  · rintro ⟨x, y, hx, hy, hne⟩
    unfold Paper.above Grid.color at hne
    cases hchar : p.strip.charAt font x (y + 18) with
    | none =>
      rw [hchar] at hne
      exact absurd rfl hne
    | some c =>
      rw [hchar] at hne
      unfold Grid.charAt at hchar
      obtain ⟨⟨_, _, hdx, hdy, hi, _⟩, hcell⟩ := Option.ite_none_right_eq_some.mp hchar
      exact ⟨_, c, _, _, hi, hcell, hdx, by omega, hdy, hne⟩
  · rintro ⟨i, c, dx, dy, hi, hcell, hdx, hlo, hhi, hink⟩
    have hright := cell_right_le hg (hcols ▸ hi)
    have hadv : advance font = font.getRasterWidth + 1 := rfl
    have hin : InCell font i 0 (8 + i * advance font + dx) (dy - 10 + 18) := ⟨by omega, by omega⟩
    obtain ⟨⟨h8, hdiv, hmod⟩, h8', hdiv', hmod'⟩ := inCell_iff.mp hin
    obtain ⟨ex, ey⟩ := mod_of_inCell hin
    have hx : (8 + i * advance font + dx - 8) % advance font = dx := by omega
    have hy : (dy - 10 + 18 - 8) % 18 = dy := by omega
    have hchar : p.strip.charAt font (8 + i * advance font + dx) (dy - 10 + 18) = some c := by
      unfold Grid.charAt
      rw [if_pos ⟨h8, h8', hmod, hmod', by rw [hdiv]; exact hi, by rw [hdiv']; exact Nat.zero_lt_one⟩,
        hdiv]
      exact hcell
    refine ⟨8 + i * advance font + dx, dy - 10, by omega, by omega, ?_⟩
    unfold Paper.above Grid.color
    rw [hchar, hx, hy]
    exact hink

theorem Shows.borderClean_iff (h : Shows font p w) : BorderClean w ↔ ¬ Leaves font w.info p := by
  have hg := h.renders.geometry
  have hheight := hg.covered.height_ge
  rw [← above_ne_background_iff hg h.renders.columns_eq]
  constructor
  · rintro hclean ⟨x, y, hx, hy, hne⟩
    apply hne
    rw [← h.above_eq x y hx hy]
    exact hclean x y hx (by omega) (.inr (.inr (.inl hy)))
  · intro hnone x y hx hy hborder
    by_cases h8 : y < 8
    · rw [h.above_eq x y hx h8]
      by_contra hne
      exact hnone ⟨x, y, hx, h8, hne⟩
    · rw [h.renders.pixel_eq x y hx (by omega) hy, color_of_charAt_none]
      -- on the left, on the right and at the bottom there are no cells
      by_cases hbottom : w.info.height - 8 ≤ y
      · exact charAt_bottom hg.covered h.renders.rows_eq (by omega)
      · exact charAt_side hg h.renders.columns_eq (by omega) y

end

/-- **when the border is clean**: after `clear` and any strings, the border has the background colour
everywhere exactly if the text row that scrolled off last has no ink in raster rows 10 to 15 -/
theorem border_clean_iff (font : Font) (w : FramebufferWriter) (hg : Geometry font w)
    (texts : List Text.Str) :
    ∃ w', clearAndWrite font w texts = .ok w' ∧
      (BorderClean w' ↔ ¬ Leaves font w.info
        ((Paper.blank (columnsOf font w.info) (rowsOf w.info)).typeAll font texts.flatten)) := by
  obtain ⟨w', hrun, hinfo, h⟩ := clearAndWrite_shows hg texts
  refine ⟨w', hrun, ?_⟩
  rw [h.borderClean_iff, hinfo]

/-- before the first scroll the border is clean -/
theorem border_clean_iff_barScreen :
    ∃ w', clearAndWrite barFont (barScreen 20 40 (by norm_num) (by norm_num)) [['a']] = .ok w' ∧
      BorderClean w' := by
  obtain ⟨w', hrun, hiff⟩ := border_clean_iff barFont (barScreen 20 40 (by norm_num) (by norm_num))
    (barScreen_geometry (by norm_num) (by norm_num) (by norm_num) (by norm_num)) [['a']]
  refine ⟨w', hrun, hiff.mpr ?_⟩
  rintro ⟨i, c, _, _, _, hgone, _⟩
  exact absurd hgone (by rintro ⟨⟩)

/-- one line on a screen with one text row: scrolling leaves the foot of its glyph in the border -/
theorem border_dirty_after_scroll :
    ∃ w', clearAndWrite barFont (barScreen 20 40 (by norm_num) (by norm_num)) [['a', '\n']] = .ok w' ∧
      ¬ BorderClean w' := by
  obtain ⟨w', hrun, hinfo, h⟩ := clearAndWrite_shows (w := barScreen 20 40 (by norm_num) (by norm_num))
    (barScreen_geometry (by norm_num) (by norm_num) (by norm_num) (by norm_num)) [['a', '\n']]
  refine ⟨w', hrun, ?_⟩
  rw [h.borderClean_iff, hinfo, not_not]
  refine ⟨0, 'a', 0, 10, by decide, by decide, by decide, by decide, by decide, ?_⟩
  unfold Inked
  decide

end Console
end SolOs
