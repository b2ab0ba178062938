import SolOs.Console.Border
import SolOs.Console.Display

/-!
# Screens that look the same

In a font whose space has an empty glyph, a cell with a space looks like one with nothing in it.  The text on the
screen is that of the grid and, in the upper border, what is left of the row that scrolled off last.

* `Paper.execAll`        the operations of the console, with this row;
* `Paper.SameText p q`   the cells look the same, and the current row is the same one;
* `Paper.Look p q`       the same with the position; every operation keeps that;
* `screenAfter`          the screen after some operations, with the cursor taken away;
* `screenAfter_shows`    every pixel of it;
* `sameScreen_of_sameText`      operations that lead to the same text lead to the same pixels.
-/

set_option linter.unusedVariables false

namespace SolOs
namespace Console
open Checked

/-! ## the operations -/

namespace Paper

def exec (font : Font) (p : Paper) (op : ConsoleOp) : Paper :=
  typing.exec (fun p => blank p.grid.columns p.grid.rows) font p op

def execAll (font : Font) (p : Paper) (ops : List ConsoleOp) : Paper := ops.foldl (exec font) p

section
variable {font : Font} {p : Paper}

theorem type_grid {g : Grid} (h : p.grid = g) (c : Char) :
    (typing.type font p c).grid = Grid.typing.type font g c := by
  refine Typing.type_related (R := fun (p : Paper) (g : Grid) => p.grid = g) ?_ ?_ ?_ ?_ h c
  · rintro p _ rfl
    rfl
  · rintro p _ rfl
    rfl
  · rintro p _ rfl
    rfl
  · rintro p _ c rfl
    rfl

theorem typeAll_grid (p : Paper) (text : Text.Str) : (p.typeAll font text).grid = p.grid.typeAll font text :=
  Typing.typeAll_related (R := fun (p : Paper) (g : Grid) => p.grid = g) (fun c h => type_grid h c) rfl text

theorem execAll_grid (p : Paper) (ops : List ConsoleOp) : (p.execAll font ops).grid = p.grid.execAll font ops := by
  rw [Grid.execAll, Grid.exec_eq]
  refine Typing.execAll_related (R := fun (p : Paper) (g : Grid) => p.grid = g) (fun c h => type_grid h c) ?_ rfl ops
  rintro p _ rfl
  rfl

theorem execAll_append (ops₁ ops₂ : List ConsoleOp) :
    p.execAll font (ops₁ ++ ops₂) = (p.execAll font ops₁).execAll font ops₂ :=
  List.foldl_append

theorem typeAll_append (text₁ text₂ : Text.Str) :
    p.typeAll font (text₁ ++ text₂) = (p.typeAll font text₁).typeAll font text₂ :=
  List.foldl_append

theorem execAll_eq_typeAll {ops : List ConsoleOp} (h : .clear ∉ ops) :
    p.execAll font ops = p.typeAll font (ops.flatMap opText) :=
  Typing.foldl_exec h p

/-! ## plain text does not scroll -/

theorem typeAll_plain {text : Text.Str} (h : ∀ c ∈ text, Grid.Plain font c)
    (hfit : p.grid.column + text.length ≤ p.grid.columns) : (p.typeAll font text).gone = p.gone := by
  induction text generalizing p with
  | nil => rfl
  | cons c text ih =>
    obtain ⟨hc, htext⟩ := List.forall_mem_cons.mp h
    rw [List.length_cons] at hfit
    have hgone : (typing.type font p c).gone = p.gone := by
      rw [Grid.typing_plain typing p hc]
      show p.wrap.gone = _
      rw [wrap, if_neg (by omega)]
    refine (ih htext ?_).trans hgone
    rw [type_grid rfl c, ← Grid.type_eq, Grid.type_plain hc (by omega)]
    show p.grid.column + 1 + text.length ≤ p.grid.columns
    omega

theorem typeAll_line {text : Text.Str} (h : ∀ c ∈ text, Grid.Plain font c) (hfit : text.length ≤ p.grid.columns) :
    (p.typeAll font ('\r' :: text)).gone = p.gone :=
  typeAll_plain (p := { p with grid := { p.grid with column := 0 } }) h (by
    show 0 + text.length ≤ p.grid.columns
    omega)

theorem typeAll_retype {text head : Text.Str} (h : ∀ c ∈ text, Grid.Plain font c) (hp : head <+: text)
    (hfit : text.length ≤ p.grid.columns) : (p.typeAll font ('\r' :: text ++ '\r' :: head)).gone = p.gone := by
  rw [typeAll_append, typeAll_line (fun c hc => h c (hp.subset hc)), typeAll_line h hfit]
  rw [typeAll_grid, Grid.typeAll_line h hfit]
  exact hp.length_le.trans hfit

end

end Paper

/-! ## what is to be seen -/

def seen (c : Option Char) : Option Char := c.filter (· ≠ ' ')

/-- the glyph of the space is empty -/
def BlankSpace (font : Font) : Prop := ∀ dx dy, intensity font ' ' dx dy = 0

namespace Grid

structure SameText (g g' : Grid) : Prop where
  columns_eq : g.columns = g'.columns
  rows_eq : g.rows = g'.rows
  row_eq : g.row = g'.row
  seen_eq : ∀ i j, seen (g.cell i j) = seen (g'.cell i j)

structure Look (g g' : Grid) : Prop extends SameText g g' where
  column_eq : g.column = g'.column

section
variable {font : Font} {g g' : Grid}

/-- a line feed forgets the column -/
theorem SameText.newLine (h : SameText g g') : Look g.newLine g'.newLine := by
  obtain ⟨columns, rows, cell, column, row⟩ := g
  obtain ⟨_, _, cell', column', _⟩ := g'
  obtain ⟨rfl, rfl, rfl, hseen⟩ := h
  unfold Grid.newLine
  dsimp only
  split
  · exact ⟨⟨rfl, rfl, rfl, hseen⟩, rfl⟩
  · refine ⟨⟨rfl, rfl, rfl, ?_⟩, rfl⟩
    intro i j
    dsimp only
    split
    · exact hseen i (j + 1)
    · rfl

/-- the same character at the same place -/
theorem Look.set (h : Look g g') (back forward : Nat) (c : Option Char) :
    Look { g with cell := g.set (g.column - back) g.row c, column := g.column - back + forward }
      { g' with cell := g'.set (g'.column - back) g'.row c, column := g'.column - back + forward } := by
  rw [h.column_eq, h.row_eq]
  refine ⟨⟨h.columns_eq, h.rows_eq, rfl, ?_⟩, rfl⟩
  intro i j
  dsimp only [Grid.set]
  split
  · rfl
  · exact h.seen_eq i j

theorem Look.backspace (h : Look g g') : Look g.backspace g'.backspace := by
  have hset := h.set 1 0 none
  unfold Grid.backspace
  by_cases hcolumn : g.column = 0
  · rw [if_pos hcolumn, if_pos (h.column_eq ▸ hcolumn)]
    exact h
  · rw [if_neg hcolumn, if_neg (h.column_eq ▸ hcolumn)]
    exact hset

end

end Grid

namespace Paper

structure SameText (p q : Paper) : Prop where
  grid : Grid.SameText p.grid q.grid
  gone_eq : ∀ i, seen (p.gone i) = seen (q.gone i)

structure Look (p q : Paper) : Prop where
  grid : Grid.Look p.grid q.grid
  gone_eq : ∀ i, seen (p.gone i) = seen (q.gone i)

/-! ## every operation -/

section
variable {font : Font} {p q : Paper}

theorem Look.refl (p : Paper) : Look p p := ⟨⟨⟨rfl, rfl, rfl, fun _ _ => rfl⟩, rfl⟩, fun _ => rfl⟩

theorem Look.sameText (h : Look p q) : SameText p q := ⟨h.grid.toSameText, h.gone_eq⟩

/-- when the screen scrolls, the row that goes is the same one -/
theorem SameText.newLine (h : SameText p q) : Look p.newLine q.newLine := by
  refine ⟨h.grid.newLine, ?_⟩
  intro i
  unfold Paper.newLine
  dsimp only
  rw [h.grid.row_eq, h.grid.rows_eq]
  split
  · exact h.gone_eq i
  · exact h.grid.seen_eq i 0

theorem Look.wrap (h : Look p q) : Look p.wrap q.wrap := by
  unfold Paper.wrap
  rw [h.grid.column_eq, h.grid.columns_eq]
  split
  · exact h.sameText.newLine
  · exact h

theorem Look.put (h : Look p q) (c : Char) : Look (p.put c) (q.put c) := by
  have hwrap := h.wrap
  refine ⟨?_, hwrap.gone_eq⟩
  have hset := hwrap.grid.set 0 1 (some c)
  rw [p.wrap_grid, q.wrap_grid] at hset
  exact hset

theorem Look.type (h : Look p q) (c : Char) : Look (typing.type font p c) (typing.type font q c) := by
  refine Typing.type_related (R := Look) ?_ ?_ ?_ ?_ h c
  · intro p q h
    exact ⟨{ h.grid with column_eq := rfl }, h.gone_eq⟩
  · intro p q h
    exact ⟨h.grid.backspace, h.gone_eq⟩
  · intro p q h
    exact h.sameText.newLine
  · intro p q c h
    exact h.put c

/-- the run lemma -/
theorem Look.execAll (h : Look p q) (ops : List ConsoleOp) : Look (p.execAll font ops) (q.execAll font ops) := by
  refine Typing.execAll_related (R := Look) (fun c h => h.type c) ?_ h ops
  intro p q h
  rw [h.grid.columns_eq, h.grid.rows_eq]
  exact .refl _

end

end Paper

/-! ## the pixels -/

section
variable {font : Font} {g g' : Grid}

theorem mix_zero (background foreground : UInt8) : mix background foreground 0 = background := by
  have hnat : (background.toNat * (255 - 0) + foreground.toNat * 0) / 255 = background.toNat := by omega
  show UInt8.ofNat ((background.toNat * (255 - 0) + foreground.toNat * 0) / 255) = _
  rw [hnat, UInt8.ofNat_toNat]

/-- a cell with nothing to be seen has the color of the background -/
theorem Grid.color_of_seen_none (hspace : BlankSpace font) {x y : Nat} (h : seen (g.charAt font x y) = none) :
    g.color font x y = background := by
  unfold Grid.color
  cases hc : g.charAt font x y with
  | none => rfl
  | some c =>
    rw [hc] at h
    obtain rfl : c = ' ' := by
      by_contra hne
      simp [seen, hne] at h
    show blend background foreground (intensity font ' ' _ _) = background
    rw [hspace, blend, mix_zero, mix_zero, mix_zero]

theorem Grid.SameText.charAt (h : Grid.SameText g g') (x y : Nat) :
    seen (g.charAt font x y) = seen (g'.charAt font x y) := by
  unfold Grid.charAt
  rw [h.columns_eq, h.rows_eq]
  split
  · exact h.seen_eq _ _
  · rfl

theorem Grid.SameText.color_eq (h : Grid.SameText g g') (hspace : BlankSpace font) (x y : Nat) :
    g.color font x y = g'.color font x y := by
  have hseen : seen (g.charAt font x y) = seen (g'.charAt font x y) := h.charAt x y
  cases hs : seen (g'.charAt font x y) with
  | none => rw [color_of_seen_none hspace (hseen.trans hs), color_of_seen_none hspace hs]
  | some c =>
    have hsome : ∀ {o : Option Char}, seen o = some c → o = some c := fun ho => (Option.filter_eq_some_iff.mp ho).1
    unfold Grid.color
    rw [hsome hs, hsome (hseen.trans hs)]

/-- the upper border -/
theorem Paper.SameText.above_eq {p q : Paper} (h : Paper.SameText p q) (hspace : BlankSpace font) (x y : Nat) :
    p.above font x y = q.above font x y := by
  have hstrip : Grid.SameText p.strip q.strip := ⟨h.grid.columns_eq, rfl, rfl, fun i _ => h.gone_eq i⟩
  exact hstrip.color_eq hspace x (y + 18)

end

/-! ## the screen without its cursor -/

section
variable {font : Font} {p : Paper} {w : FramebufferWriter}
open FramebufferWriter

theorem info_of_shadows {hidden : FramebufferWriter} (h : Shadows w hidden) : hidden.info = w.info := by
  obtain ⟨_, rfl | ⟨_, rfl⟩⟩ := h <;> rfl

/-- no operation changes the geometry of the screen -/
theorem OnHidden.info {hidden hidden' : FramebufferWriter} {op : ConsoleOp} (h : OnHidden font hidden op hidden') :
    hidden'.info = hidden.info := by
  cases op with
  | print text => exact (writeStr_keeps h).info
  | showCursor =>
    obtain rfl : hidden' = hidden := h
    rfl
  | clear =>
    obtain rfl : hidden' = hidden.cleared := h
    rfl

theorem OnHidden.shows {hidden hidden' : FramebufferWriter} {op : ConsoleOp} (h : OnHidden font hidden op hidden')
    (hp : Shows font p hidden) : Shows font (p.exec font op) hidden' := by
  cases op with
  | print text =>
    obtain ⟨v, hv, hshows⟩ := writeStr_shows hp text
    obtain rfl : v = hidden' := Except.ok.inj (hv.symm.trans h)
    exact hshows
  | showCursor =>
    obtain rfl : hidden' = hidden := h
    exact hp
  | clear =>
    obtain rfl : hidden' = hidden.cleared := h
    have hblank := cleared_shows hp.renders.geometry
    rw [← hp.renders.columns_eq, ← hp.renders.rows_eq] at hblank
    exact hblank

variable (font) in
/-- the screen after some operations, with the cursor taken away -/
def screenAfter (w : FramebufferWriter) (ops : List ConsoleOp) : Run Empty FramebufferWriter :=
  w.execAll font ops >>= fun v => v.hideCursor

/-- the run lemma -/
theorem screenAfter_shows {hidden : FramebufferWriter} (hp : Shows font p hidden) (hs : Shadows w hidden)
    (ops : List ConsoleOp) :
    ∃ w', screenAfter font w ops = .ok w' ∧ w'.info = w.info ∧ Shows font (p.execAll font ops) w' := by
  unfold screenAfter
  induction ops generalizing p w hidden with
  | nil => exact ⟨hidden, hideCursor_of_shadows hp.renders.geometry.covered hs, info_of_shadows hs, hp⟩
  | cons op ops ih =>
    obtain ⟨v, hidden', hv, hop, hs'⟩ := exec_hidden hp.renders hs op
    obtain ⟨w', hw', hinfo, hshows⟩ := ih (hop.shows hp) hs'
    refine ⟨w', ?_, ?_, hshows⟩
    · show (exec font op w >>= fun v => execAll font v ops) >>= _ = _
      rw [hv, bind_ok, hw']
    · rw [hinfo, ← info_of_shadows hs', hop.info, info_of_shadows hs]

/-- two states of one screen, in the same row and with the same pixels -/
structure SameScreen (info : FrameBufferInfo) (w₁ w₂ : FramebufferWriter) : Prop where
  info₁ : w₁.info = info
  info₂ : w₂.info = info
  row_eq : w₁.row = w₂.row
  pixel_eq : ∀ x y, x < info.width → y < info.height → info.pixel w₁.buffer x y = info.pixel w₂.buffer x y

theorem sameScreen_of_sameText (hg : Geometry font w) (hspace : BlankSpace font) {ops₁ ops₂ : List ConsoleOp}
    (h : Paper.SameText ((Paper.blank (columnsOf font w.info) (rowsOf w.info)).execAll font ops₁)
      ((Paper.blank (columnsOf font w.info) (rowsOf w.info)).execAll font ops₂)) :
    ∃ w₁ w₂, screenAfter font w (.clear :: ops₁) = .ok w₁ ∧ screenAfter font w (.clear :: ops₂) = .ok w₂ ∧
      SameScreen w.info w₁ w₂ := by
  have hclear : ∀ ops, screenAfter font w (.clear :: ops) = screenAfter font w.cleared ops := by
    intro ops
    unfold screenAfter
    rw [execAll_clear hg]
  have hstart : ∀ ops, ∃ w', screenAfter font w (.clear :: ops) = .ok w' ∧ w'.info = w.info ∧
      Shows font ((Paper.blank (columnsOf font w.info) (rowsOf w.info)).execAll font ops) w' := by
    intro ops
    rw [hclear]
    exact screenAfter_shows (cleared_shows hg) ⟨rfl, .inl rfl⟩ ops
  obtain ⟨w₁, hw₁, hinfo₁, hshows₁⟩ := hstart ops₁
  obtain ⟨w₂, hw₂, hinfo₂, hshows₂⟩ := hstart ops₂
  refine ⟨w₁, w₂, hw₁, hw₂, hinfo₁, hinfo₂, ?_, ?_⟩
  · rw [hshows₁.renders.row_eq, hshows₂.renders.row_eq, h.grid.row_eq]
  · intro x y hx hy
    by_cases hborder : y < 8
    · have habove₁ := hshows₁.above_eq x y
      have habove₂ := hshows₂.above_eq x y
      rw [hinfo₁] at habove₁
      rw [hinfo₂] at habove₂
      rw [habove₁ hx hborder, habove₂ hx hborder, h.above_eq hspace]
    · have hpixel₁ := hshows₁.renders.pixel_eq x y
      have hpixel₂ := hshows₂.renders.pixel_eq x y
      rw [hinfo₁] at hpixel₁
      rw [hinfo₂] at hpixel₂
      rw [hpixel₁ hx (by omega) hy, hpixel₂ hx (by omega) hy, h.grid.color_eq hspace]

end

end Console
end SolOs
