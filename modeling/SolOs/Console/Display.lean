import SolOs.Console.Grid

/-!
# Console operations on the grid

The operations of the console as changes of the grid, with the cursor on top of it.

* `Typing.exec`           one operation on anything that can be typed on; `Typing.execAll_related`: what two of
                          them have in common stays so;
* `Grid.exec`             one operation on the grid;
* `Displays font g w`     `w` shows `g`, with or without the cursor; `execAll_displays`: every
                          sequence of operations keeps that;
* `Grid.Tidy`             nothing stands below the current row;
* `Grid.Fresh`            the position is at the start of an empty row, as it is after a line feed;
* `typeAll_plain`         plain text that fits is written into its row;
* `typeAll_retype`        a line typed over the current row, twice from its start.
-/

set_option linter.unusedVariables false

namespace SolOs
namespace Console
open Checked

/-! ## operations on anything that can be typed on -/

section
variable {α β : Type} {font : Font}

def Typing.exec (t : Typing α) (clear : α → α) (font : Font) (a : α) : ConsoleOp → α
  | .print text => text.foldl (t.type font) a
  | .showCursor => a
  | .clear => clear a

/-- without `clear`, the operations type their texts -/
theorem Typing.foldl_exec {t : Typing α} {clear : α → α} {ops : List ConsoleOp} (h : .clear ∉ ops) (a : α) :
    ops.foldl (t.exec clear font) a = (ops.flatMap opText).foldl (t.type font) a := by
  induction ops generalizing a with
  | nil => rfl
  | cons op ops ih =>
    have hop : t.exec clear font a op = (opText op).foldl (t.type font) a := by
      cases op with
      | print text => rfl
      | showCursor => rfl
      | clear => exact absurd List.mem_cons_self h
    rw [List.foldl_cons, List.flatMap_cons, List.foldl_append, ← hop]
    exact ih (fun hc => h (List.mem_cons_of_mem _ hc)) _

variable {t : Typing α} {t' : Typing β} {clear : α → α} {clear' : β → β} {R : α → β → Prop}

theorem Typing.typeAll_related (htype : ∀ {a b} c, R a b → R (t.type font a c) (t'.type font b c)) {a : α} {b : β}
    (h : R a b) (text : Text.Str) : R (text.foldl (t.type font) a) (text.foldl (t'.type font) b) := by
  induction text generalizing a b with
  | nil => exact h
  | cons c text ih => exact ih (htype c h)

/-- **the run lemma**: what every character and `clear` keep, all operations keep -/
theorem Typing.execAll_related (htype : ∀ {a b} c, R a b → R (t.type font a c) (t'.type font b c))
    (hclear : ∀ {a b}, R a b → R (clear a) (clear' b)) {a : α} {b : β} (h : R a b) (ops : List ConsoleOp) :
    R (ops.foldl (t.exec clear font) a) (ops.foldl (t'.exec clear' font) b) := by
  induction ops generalizing a b with
  | nil => exact h
  | cons op ops ih =>
    apply ih
    cases op with
    | print text => exact Typing.typeAll_related htype h text
    | showCursor => exact h
    | clear => exact hclear h

end

namespace Grid

def exec (font : Font) (g : Grid) : ConsoleOp → Grid
  | .print text => g.typeAll font text
  | .showCursor => g
  | .clear => blank g.columns g.rows

def execAll (font : Font) (g : Grid) (ops : List ConsoleOp) : Grid := ops.foldl (exec font) g

theorem exec_eq (font : Font) : exec font = typing.exec (fun g => blank g.columns g.rows) font := by
  funext g op
  cases op <;> rfl

end Grid

/-! ## the cursor on top -/

def Displays (font : Font) (g : Grid) (w : FramebufferWriter) : Prop :=
  ∃ hidden, Renders font g hidden ∧ FramebufferWriter.Shadows w hidden

/-- the cursor is drawn at the position of the grid -/
def DisplaysCursor (font : Font) (g : Grid) (w : FramebufferWriter) : Prop :=
  ∃ hidden, Renders font g hidden ∧ hidden.cursorVisible = false ∧ w = hidden.withCursor

section
variable {font : Font} {g : Grid} {w : FramebufferWriter}
open FramebufferWriter

theorem Displays.ready (h : Displays font g w) : w.Ready := by
  obtain ⟨hidden, hr, _, rfl | ⟨_, rfl⟩⟩ := h
  · exact hr.ready
  · exact hr.ready.toggled true

theorem DisplaysCursor.displays (h : DisplaysCursor font g w) : Displays font g w := by
  obtain ⟨hidden, hr, hv, rfl⟩ := h
  exact ⟨hidden, hr, hv, .inr ⟨hr.ready.togglable, rfl⟩⟩

/-- what an operation does to a screen without its cursor -/
def OnHidden (font : Font) (hidden : FramebufferWriter) : ConsoleOp → FramebufferWriter → Prop
  | .print text, hidden' => writeStr font hidden text = .ok hidden'
  | .showCursor, hidden' => hidden' = hidden
  | .clear, hidden' => hidden' = hidden.cleared

/-- an operation, with the cursor and without -/
theorem exec_hidden {hidden : FramebufferWriter} (hr : Renders font g hidden) (hs : Shadows w hidden)
    (op : ConsoleOp) :
    ∃ w' hidden', exec font op w = .ok w' ∧ OnHidden font hidden op hidden' ∧ Shadows w' hidden' := by
  have hcov := hr.geometry.covered
  obtain ⟨w', hw', _⟩ := exec_ready hr.geometry.fallback (Displays.ready ⟨hidden, hr, hs⟩) op
  obtain ⟨hidden', hexec, _, hs'⟩ := exec_shadows hcov hs hw'
  refine ⟨w', hidden', hw', ?_, hs'⟩
  cases op with
  | print text =>
    have hprint : print font hidden text = .ok hidden' := hexec
    unfold print at hprint
    rwa [hideCursor_of_shadows hcov ⟨hs.1, .inl rfl⟩, bind_ok] at hprint
  | showCursor => exact (Except.ok.inj hexec).symm
  | clear => exact Except.ok.inj (hexec.symm.trans (clear_eq hcov))

/-- one operation -/
theorem exec_displays (h : Displays font g w) (op : ConsoleOp) :
    ∃ w', exec font op w = .ok w' ∧ Displays font (g.exec font op) w' := by
  obtain ⟨hidden, hr, hs⟩ := h
  obtain ⟨w', hidden', hw', hop, hs'⟩ := exec_hidden hr hs op
  refine ⟨w', hw', hidden', ?_, hs'⟩
  cases op with
  | print text =>
    obtain ⟨v, hv, hr'⟩ := writeStr_renders hr text
    obtain rfl : v = hidden' := Except.ok.inj (hv.symm.trans hop)
    exact hr'
  | showCursor =>
    obtain rfl : hidden' = hidden := hop
    exact hr
  | clear =>
    obtain rfl : hidden' = hidden.cleared := hop
    have hblank := cleared_renders hr.geometry
    rw [← hr.columns_eq, ← hr.rows_eq] at hblank
    exact hblank

/-- the run lemma -/
theorem execAll_displays (h : Displays font g w) (ops : List ConsoleOp) :
    ∃ w', w.execAll font ops = .ok w' ∧ Displays font (g.execAll font ops) w' := by
  induction ops generalizing g w with
  | nil => exact ⟨w, rfl, h⟩
  | cons op ops ih =>
    obtain ⟨v, hv, hd⟩ := exec_displays h op
    obtain ⟨w', hw', hd'⟩ := ih hd
    refine ⟨w', ?_, hd'⟩
    show (exec font op w >>= fun v => execAll font v ops) = _
    rw [hv, bind_ok, hw']

theorem execAll_append (w : FramebufferWriter) (ops₁ ops₂ : List ConsoleOp) :
    w.execAll font (ops₁ ++ ops₂) = w.execAll font ops₁ >>= fun v => v.execAll font ops₂ := by
  unfold execAll forEach
  rw [List.foldlM_append]

theorem showCursor_displays (h : Displays font g w) :
    ∃ w', w.showCursor = .ok w' ∧ DisplaysCursor font g w' := by
  obtain ⟨hidden, hr, hv, rfl | ⟨_, rfl⟩⟩ := h
  · refine ⟨w.withCursor, ?_, w, hr, hv, rfl⟩
    unfold showCursor
    rw [if_pos hv, toggleCursor_of_togglable hr.ready.covered hr.ready.togglable, bind_ok]
    rfl
  · exact ⟨_, if_neg (fun hc => nomatch hc), hidden, hr, hv, rfl⟩

/-- operations that end by showing the cursor -/
theorem execAll_showCursor (h : Displays font g w) (ops : List ConsoleOp) :
    ∃ w', w.execAll font (ops ++ [.showCursor]) = .ok w' ∧
      DisplaysCursor font (g.execAll font (ops ++ [.showCursor])) w' := by
  obtain ⟨v, hv, hd⟩ := execAll_displays h ops
  obtain ⟨w', hw', hc⟩ := showCursor_displays hd
  refine ⟨w', ?_, ?_⟩
  · rw [execAll_append, hv, bind_ok]
    show (v.showCursor >>= fun v => execAll font v []) = _
    rw [hw']
    rfl
  · rw [Grid.execAll, List.foldl_append]
    exact hc

theorem execAll_clear (hg : Geometry font w) (ops : List ConsoleOp) :
    w.execAll font (.clear :: ops) = w.cleared.execAll font ops := by
  show (w.clear >>= fun v => v.execAll font ops) = _
  rw [clear_eq hg.covered, bind_ok]

theorem cleared_displays (hg : Geometry font w) :
    Displays font (.blank (columnsOf font w.info) (rowsOf w.info)) w.cleared :=
  ⟨w.cleared, cleared_renders hg, rfl, .inl rfl⟩

end

namespace Grid

/-! ## invariants -/

section
variable {font : Font} {g : Grid} {P : Grid → Prop}

theorem typeAll_keeps (htype : ∀ {g} c, P g → P (g.type font c)) (h : P g) (text : Text.Str) :
    P (g.typeAll font text) :=
  @Typing.typeAll_related Grid Grid font typing typing (fun g _ => P g) htype g g h text

theorem execAll_keeps (htype : ∀ {g} c, P g → P (g.type font c)) (hclear : ∀ {g}, P g → P (blank g.columns g.rows))
    (h : P g) (ops : List ConsoleOp) : P (g.execAll font ops) := by
  rw [execAll, exec_eq]
  exact @Typing.execAll_related Grid Grid font typing typing _ (fun g => blank g.columns g.rows) (fun g _ => P g)
    htype hclear g g h ops

end

/-! ## nothing below the current row -/

def Tidy (g : Grid) : Prop := ∀ i j, g.row < j → g.cell i j = none

def Fresh (g : Grid) : Prop := g.column = 0 ∧ ∀ i, g.cell i g.row = none

section
variable {font : Font} {g : Grid}

theorem newLine_tidy (h : g.Tidy) : g.newLine.Tidy := by
  intro i j hj
  unfold newLine at hj ⊢
  split at hj
  · next hmore =>
    rw [if_pos hmore]
    exact h i j (by have : g.row + 1 < j := hj; omega)
  · next hlast =>
    rw [if_neg hlast]
    have hj : g.row < j := hj
    exact if_neg (by omega)

/-- a line feed leads to an empty row, also when the screen scrolls -/
theorem newLine_fresh (h : g.Tidy) : g.newLine.Fresh := by
  refine ⟨g.newLine_column, fun i => ?_⟩
  unfold newLine
  split
  · exact h i (g.row + 1) (Nat.lt_succ_self _)
  · next hlast => exact if_neg hlast

theorem set_tidy (h : g.Tidy) (column column' : Nat) (c : Option Char) :
    Tidy { g with cell := g.set column g.row c, column := column' } := by
  intro i j hj
  have hj : g.row < j := hj
  show g.set column g.row c i j = none
  unfold set
  rw [if_neg (by omega)]
  exact h i j hj

theorem put_tidy (h : g.Tidy) (c : Char) : (g.put c).Tidy := by
  have hwrap : g.wrap.Tidy := by
    unfold wrap
    split
    · exact newLine_tidy h
    · exact h
  exact set_tidy hwrap _ _ _

theorem backspace_tidy (h : g.Tidy) : g.backspace.Tidy := by
  unfold backspace
  split
  · exact h
  · exact set_tidy h _ _ _

theorem type_tidy (h : g.Tidy) (c : Char) : (g.type font c).Tidy :=
  Typing.type_keeps (P := Tidy) (t := typing) id backspace_tidy newLine_tidy (fun c h => put_tidy h c) h c

theorem typeAll_tidy (h : g.Tidy) (text : Text.Str) : (g.typeAll font text).Tidy :=
  typeAll_keeps (P := Tidy) (fun c h => type_tidy h c) h text

theorem execAll_tidy (h : g.Tidy) (ops : List ConsoleOp) : (g.execAll font ops).Tidy :=
  execAll_keeps (P := Tidy) (fun c h => type_tidy h c) (fun _ _ _ _ => rfl) h ops

theorem execAll_append (ops₁ ops₂ : List ConsoleOp) :
    g.execAll font (ops₁ ++ ops₂) = (g.execAll font ops₁).execAll font ops₂ :=
  List.foldl_append

theorem typeAll_append (text₁ text₂ : Text.Str) :
    g.typeAll font (text₁ ++ text₂) = (g.typeAll font text₁).typeAll font text₂ :=
  List.foldl_append

theorem execAll_eq_typeAll {ops : List ConsoleOp} (h : .clear ∉ ops) :
    g.execAll font ops = g.typeAll font (ops.flatMap opText) := by
  rw [execAll, exec_eq]
  exact Typing.foldl_exec h g

/-- output that ends with a line feed -/
theorem execAll_newLine_fresh (h : g.Tidy) (ops : List ConsoleOp) (text : Text.Str) :
    (g.execAll font (ops ++ [.print (text ++ ['\n'])])).Fresh := by
  rw [execAll_append]
  show ((g.execAll font ops).typeAll font (text ++ ['\n'])).Fresh
  rw [typeAll_append]
  exact newLine_fresh (typeAll_tidy (execAll_tidy h ops) text)

theorem execAll_clear_fresh (ops : List ConsoleOp) : (g.execAll font (ops ++ [.clear])).Fresh := by
  rw [execAll_append]
  exact ⟨rfl, fun _ => rfl⟩

/-! ## the size -/

def size (g : Grid) : Nat × Nat := (g.columns, g.rows)

theorem newLine_size (g : Grid) : g.newLine.size = g.size := Prod.ext g.newLine_columns g.newLine_rows

theorem put_size (g : Grid) (c : Char) : (g.put c).size = g.size := by
  show g.wrap.size = _
  unfold wrap
  split
  · exact g.newLine_size
  · rfl

theorem backspace_size (g : Grid) : g.backspace.size = g.size := by
  unfold backspace
  split <;> rfl

theorem type_size (g : Grid) (c : Char) : (g.type font c).size = g.size :=
  Typing.type_keeps (P := fun a => a.size = g.size) (t := typing) id (fun h => (backspace_size _).trans h)
    (fun h => (newLine_size _).trans h) (fun c h => (put_size _ c).trans h) rfl c

/-- the size is that of the screen -/
theorem execAll_size (g : Grid) (ops : List ConsoleOp) : (g.execAll font ops).size = g.size :=
  execAll_keeps (P := fun a => a.size = g.size) (fun c h => (type_size _ c).trans h) id rfl ops

theorem execAll_columns (g : Grid) (ops : List ConsoleOp) : (g.execAll font ops).columns = g.columns :=
  congrArg Prod.fst (g.execAll_size ops)

/-! ## plain text -/

def Plain (font : Font) (c : Char) : Prop :=
  (0x20 ≤ c.toNat ∧ c.toNat ≤ 0x7e) ∧ (font.getRaster c).isSome

/-- the cells with `text` in the current row from a column on -/
def overwrite (g : Grid) (column : Nat) (text : Text.Str) : Nat → Nat → Option Char :=
  fun i j =>
    if j = g.row ∧ column ≤ i ∧ i < column + text.length then text[i - column]? else g.cell i j

theorem typing_plain {α : Type} (t : Typing α) (a : α) {c : Char} (hc : Plain font c) :
    t.type font a c = t.put a c := by
  obtain ⟨⟨hlo, hhi⟩, hr⟩ := hc
  have hne : ∀ d : Char, d.toNat < 0x20 → c ≠ d := by
    rintro d hd rfl
    omega
  have hshown : shown font c = c := if_pos ⟨by omega, hr⟩
  unfold Typing.type
  rw [if_neg (hne '\r' (by decide)), if_neg (hne '\x08' (by decide)), if_neg (hne '\t' (by decide)),
    if_neg (hne '\n' (by decide)), hshown]

theorem type_plain {c : Char} (hc : Plain font c) (hfit : g.column < g.columns) :
    g.type font c = { g with cell := g.set g.column g.row (some c), column := g.column + 1 } := by
  have hwrap : g.wrap = g := if_neg (by omega)
  rw [type_eq, typing_plain typing g hc]
  show g.put c = _
  rw [put, hwrap]

/-- **plain text that fits is written into the current row** -/
theorem typeAll_plain {text : Text.Str} (h : ∀ c ∈ text, Plain font c)
    (hfit : g.column + text.length ≤ g.columns) :
    g.typeAll font text =
      { g with cell := g.overwrite g.column text, column := g.column + text.length } := by
  induction text generalizing g with
  | nil =>
    have hcell : g.overwrite g.column [] = g.cell := by
      funext i j
      exact if_neg (by rw [List.length_nil]; omega)
    rw [hcell]
    rfl
  | cons c text ih =>
    rw [List.length_cons] at hfit
    have hcell : (⟨g.columns, g.rows, g.set g.column g.row (some c), g.column + 1, g.row⟩ : Grid).overwrite
        (g.column + 1) text = g.overwrite g.column (c :: text) := by
      funext i j
      show (if j = g.row ∧ g.column + 1 ≤ i ∧ i < g.column + 1 + text.length then
          text[i - (g.column + 1)]? else if i = g.column ∧ j = g.row then some c else g.cell i j) =
        if j = g.row ∧ g.column ≤ i ∧ i < g.column + (text.length + 1) then
          (c :: text)[i - g.column]? else g.cell i j
      by_cases hnew : j = g.row ∧ i = g.column
      · obtain ⟨rfl, rfl⟩ := hnew
        rw [if_neg (by omega), if_pos ⟨rfl, rfl⟩, if_pos (by omega), Nat.sub_self]
        rfl
      · by_cases hin : j = g.row ∧ g.column + 1 ≤ i ∧ i < g.column + 1 + text.length
        · have hsub : i - g.column = i - (g.column + 1) + 1 := by omega
          rw [if_pos hin, if_pos (by omega), hsub, List.getElem?_cons_succ]
        · rw [if_neg hin, if_neg (by omega), if_neg (by omega)]
    show (g.type font c).typeAll font text = _
    rw [type_plain (h c List.mem_cons_self) (by omega),
      ih (fun d hd => h d (List.mem_cons_of_mem _ hd)) (by show g.column + 1 + _ ≤ g.columns; omega),
      hcell, List.length_cons]
    show (⟨_, _, _, g.column + 1 + text.length, _⟩ : Grid) = ⟨_, _, _, g.column + (text.length + 1), _⟩
    rw [Nat.add_assoc, Nat.add_comm 1]

/-- a line typed from the start of the current row -/
theorem typeAll_line {text : Text.Str} (h : ∀ c ∈ text, Plain font c)
    (hfit : text.length ≤ g.columns) :
    g.typeAll font ('\r' :: text) =
      { g with cell := g.overwrite 0 text, column := text.length } := by
  show Grid.typeAll font { g with column := 0 } text = _
  rw [typeAll_plain h (by show 0 + _ ≤ g.columns; omega)]
  show (⟨_, _, _, 0 + text.length, _⟩ : Grid) = _
  rw [Nat.zero_add]
  rfl

/-- a line is typed over the current row, and then a part of it once more, up to the cursor -/
theorem typeAll_retype {text head : Text.Str} (h : ∀ c ∈ text, Plain font c) (hp : head <+: text)
    (hfit : text.length ≤ g.columns) :
    g.typeAll font ('\r' :: text ++ '\r' :: head) =
      { g with cell := g.overwrite 0 text, column := head.length } := by
  have hle := hp.length_le
  have hcell : Grid.overwrite { g with cell := g.overwrite 0 text, column := text.length } 0 head =
      g.overwrite 0 text := by
    funext i j
    show (if j = g.row ∧ 0 ≤ i ∧ i < 0 + head.length then head[i - 0]? else g.overwrite 0 text i j) = _
    by_cases hin : j = g.row ∧ 0 ≤ i ∧ i < 0 + head.length
    · have htext : g.overwrite 0 text i j = text[i - 0]? := if_pos ⟨hin.1, hin.2.1, by omega⟩
      have hi : i < head.length := by omega
      rw [if_pos hin, htext, Nat.sub_zero, List.getElem?_eq_getElem hi,
        List.getElem?_eq_getElem (by omega), hp.getElem hi]
    · rw [if_neg hin]
  rw [typeAll_append, typeAll_line h hfit, typeAll_line (fun c hc => h c (hp.subset hc)) ?_, hcell]
  exact hle.trans hfit

end

end Grid
end Console
end SolOs
