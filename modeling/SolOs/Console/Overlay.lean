import SolOs.Console.Effects

/-!
# The cursor overlay leaves no trace

The cursor is drawn by inverting pixels in place.  Taking it away restores the buffer because the
position does not move while it is shown: every operation that moves it hides the cursor first.

* `flips_byte`          which bytes an inversion of distinct pixels complements;
* `toggleCursor_twice`  the second inversion undoes the first;
* `Keeps`               what writing text does not change;
* `Shadows w₁ w₂`       `w₁` is `w₂`, or `w₂` with its cursor drawn;
* `cursor_leaves_no_trace`   **the whole run, with and without the cursor.**
-/

set_option linter.unusedVariables false

namespace SolOs
namespace Console
open Checked

/-! ## inverting pixels -/

namespace FrameBufferInfo
section
variable (info : FrameBufferInfo)

/-- byte `i` belongs to the colour of one of the pixels -/
def Touches (cells : List (Nat × Nat)) (i : Nat) : Prop :=
  ∃ p ∈ cells, info.offset p.1 p.2 ≤ i ∧ i < info.offset p.1 p.2 + min info.bytesPerPixel 3

theorem flips_byte_of_not {cells : List (Nat × Nat)} {i : Nat} (h : ¬ info.Touches cells i)
    (b : Bytes) : (info.flips cells b).byte i = b.byte i := by
  induction cells generalizing b with
  | nil => rfl
  | cons p cells ih =>
    have hp : ¬ (info.offset p.1 p.2 ≤ i ∧ i < info.offset p.1 p.2 + min info.bytesPerPixel 3) :=
      fun hp => h ⟨p, List.mem_cons_self, hp⟩
    show (info.flips cells (info.flip p.1 p.2 b)).byte i = _
    rw [ih (fun ⟨q, hq, hi⟩ => h ⟨q, List.mem_cons_of_mem _ hq, hi⟩)]
    unfold flip
    split
    · exact if_neg hp
    · rfl

theorem flips_byte_of_touches (hs : info.width ≤ info.stride) {cells : List (Nat × Nat)}
    (hnodup : cells.Nodup) (hon : ∀ p ∈ cells, p.1 < info.width ∧ p.2 < info.height) {i : Nat}
    (h : info.Touches cells i) (b : Bytes) : (info.flips cells b).byte i = ~~~ b.byte i := by
  induction cells generalizing b with
  | nil =>
    obtain ⟨p, hp, _⟩ := h
    exact absurd hp List.not_mem_nil
  | cons p cells ih =>
    rw [List.nodup_cons] at hnodup
    obtain ⟨hpx, hpy⟩ := hon p List.mem_cons_self
    have hrest : ∀ q ∈ cells, q.1 < info.width ∧ q.2 < info.height :=
      fun q hq => hon q (List.mem_cons_of_mem _ hq)
    show (info.flips cells (info.flip p.1 p.2 b)).byte i = _
    have hflip : (info.flip p.1 p.2 b).byte i =
        if info.offset p.1 p.2 ≤ i ∧ i < info.offset p.1 p.2 + min info.bytesPerPixel 3
        then ~~~ b.byte i else b.byte i := by
      unfold flip
      rw [if_pos ⟨hpx, hpy⟩]
      rfl
    -- the pixels are distinct, so the byte belongs to one of them only
    have hother : ∀ q ∈ cells, info.offset q.1 q.2 + info.bytesPerPixel ≤ info.offset p.1 p.2 ∨
        info.offset p.1 p.2 + info.bytesPerPixel ≤ info.offset q.1 q.2 := by
      intro q hq
      apply info.offset_disjoint hs (hrest q hq).1 hpx
      rintro ⟨h1, h2⟩
      exact hnodup.1 (Prod.ext h1 h2 ▸ hq)
    by_cases hp : info.offset p.1 p.2 ≤ i ∧ i < info.offset p.1 p.2 + min info.bytesPerPixel 3
    · rw [info.flips_byte_of_not, hflip, if_pos hp]
      rintro ⟨q, hq, hi⟩
      have := hother q hq
      omega
    · obtain ⟨q, hq, hi⟩ := h
      have hmem : q ∈ cells := by
        rcases List.mem_cons.mp hq with rfl | hq
        · exact absurd hi hp
        · exact hq
      rw [ih hnodup.2 hrest ⟨q, hmem, hi⟩, hflip, if_neg hp]

theorem flips_flips (hs : info.width ≤ info.stride) {cells : List (Nat × Nat)}
    (hnodup : cells.Nodup) (hon : ∀ p ∈ cells, p.1 < info.width ∧ p.2 < info.height) (b : Bytes) :
    info.flips cells (info.flips cells b) = b := by
  refine Bytes.ext ((info.flips_length _ _).trans (info.flips_length _ _)) (funext fun i => ?_)
  by_cases h : info.Touches cells i
  · rw [info.flips_byte_of_touches hs hnodup hon h, info.flips_byte_of_touches hs hnodup hon h,
      UInt8.not_not]
  · rw [info.flips_byte_of_not h, info.flips_byte_of_not h]

/-- plotting over a pixel forgets what it was -/
theorem plots_congr {points : List (Nat × Nat × Rgb)} {b c : Bytes} (hlen : b.length = c.length)
    {i : Nat} (h : b.byte i = c.byte i ∨ ∃ p ∈ points, p.1 < info.width ∧ p.2.1 < info.height ∧
      info.offset p.1 p.2.1 ≤ i ∧ i < info.offset p.1 p.2.1 + min info.bytesPerPixel 4) :
    (info.plots points b).byte i = (info.plots points c).byte i := by
  induction points generalizing b c with
  | nil =>
    rcases h with h | ⟨p, hp, _⟩
    · exact h
    · exact absurd hp List.not_mem_nil
  | cons p points ih =>
    show (info.plots points (info.plot p.1 p.2.1 p.2.2 b)).byte i
      = (info.plots points (info.plot p.1 p.2.1 p.2.2 c)).byte i
    apply ih (by rw [plot_length, plot_length, hlen])
    by_cases hp : (p.1 < info.width ∧ p.2.1 < info.height) ∧
        info.offset p.1 p.2.1 ≤ i ∧ i < info.offset p.1 p.2.1 + min info.bytesPerPixel 4
    · left
      obtain ⟨hon, hlo, hhi⟩ := hp
      obtain ⟨k, rfl⟩ := Nat.exists_eq_add_of_le hlo
      have hk : k < (info.encode p.2.2).length := by rw [encode_length]; omega
      unfold plot
      rw [if_pos hon, Bytes.overlay_byte_of_lt _ _ _ hk, if_pos hon, Bytes.overlay_byte_of_lt _ _ _ hk]
    · rcases h with h | ⟨q, hq, hx, hy, hi⟩
      · left
        unfold plot
        split
        · next hon =>
          have hnot : i < info.offset p.1 p.2.1 ∨
              info.offset p.1 p.2.1 + (info.encode p.2.2).length ≤ i := by
            rw [encode_length]
            omega
          rw [Bytes.overlay_byte_of_not _ _ _ hnot, Bytes.overlay_byte_of_not _ _ _ hnot, h]
        · exact h
      · right
        rcases List.mem_cons.mp hq with rfl | hq
        · exact absurd ⟨⟨hx, hy⟩, hi⟩ hp
        · exact ⟨q, hq, hx, hy, hi⟩

end
end FrameBufferInfo

namespace FramebufferWriter
section
variable {w w' : FramebufferWriter}

/-! ## the cursor cells -/

theorem mem_cursorCells {p : Nat × Nat} :
    p ∈ w.cursorCells ↔ (w.column ≤ p.1 ∧ p.1 < w.column + 2 ∧ p.1 < w.info.width) ∧
      (w.row ≤ p.2 ∧ p.2 < w.row + 16 ∧ p.2 < w.info.height) := by
  obtain ⟨x, y⟩ := p
  simp only [cursorCells, cursorRow, List.mem_flatMap, List.mem_map, mem_span, Prod.mk.injEq,
    fontHeight, cursorWidth]
  constructor
  · rintro ⟨y', hy, x', hx, rfl, rfl⟩
    omega
  · rintro ⟨hx, hy⟩
    exact ⟨y, by omega, x, by omega, rfl, rfl⟩

theorem cursorCells_nodup : w.cursorCells.Nodup := by
  refine List.nodup_flatMap.mpr ⟨fun y _ => ?_, ?_⟩
  · apply List.Nodup.map (fun x x' h => (Prod.mk.inj h).1)
    exact List.nodup_range'
  · refine List.Pairwise.imp ?_ (List.nodup_range' (s := w.row))
    intro y y' hne
    show List.Disjoint (w.cursorRow y) (w.cursorRow y')
    rintro ⟨x, z⟩ h1 h2
    obtain ⟨_, _, e1⟩ := List.mem_map.mp h1
    obtain ⟨_, _, e2⟩ := List.mem_map.mp h2
    exact hne ((Prod.mk.inj e1).2.trans (Prod.mk.inj e2).2.symm)

/-- the positions at which `toggle_cursor` does not overflow -/
def Togglable (w : FramebufferWriter) : Prop :=
  w.row + fontHeight < 2^64 ∧ (w.column + cursorWidth < 2^64 ∨ w.info.height ≤ w.row)

theorem span_eq_nil {lo hi : Nat} (h : hi ≤ lo) : span lo hi = [] := by
  unfold span
  rw [Nat.sub_eq_zero_of_le h, List.range'_zero]

theorem toggleCursor_of_togglable (h : w.Covered) (ht : w.Togglable) :
    w.toggleCursor = .ok { w with buffer := w.info.flips w.cursorCells w.buffer } := by
  obtain ⟨hr, hc | hrow⟩ := ht
  · exact toggleCursor_eq h hr hc
  · have hnil : span w.row (min (w.row + fontHeight) w.info.height) = [] :=
      span_eq_nil (le_trans (min_le_right _ _) hrow)
    unfold toggleCursor cursorCells
    rw [add_of_lt hr, bind_ok, hnil]
    rfl

theorem togglable_of_toggleCursor (hw : w.toggleCursor = .ok w') : w.Togglable := by
  unfold toggleCursor at hw
  obtain ⟨bottom, hadd, hloop⟩ := bind_eq_ok.mp hw
  have hr := lt_of_add hadd
  rw [add_of_lt hr] at hadd
  obtain rfl := Except.ok.inj hadd
  refine ⟨hr, ?_⟩
  by_cases hrow : w.info.height ≤ w.row
  · exact .inr hrow
  -- the loop has a first round, and that round adds the width of the cursor
  have hspan : span w.row (min (w.row + fontHeight) w.info.height)
      = w.row :: span (w.row + 1) (min (w.row + fontHeight) w.info.height) := by
    have hsub : min (w.row + fontHeight) w.info.height - w.row
        = min (w.row + fontHeight) w.info.height - (w.row + 1) + 1 := by
      unfold fontHeight
      omega
    unfold span
    rw [hsub, List.range'_succ]
  rw [hspan] at hloop
  obtain ⟨_, hfirst, _⟩ := bind_eq_ok.mp hloop
  obtain ⟨_, hadd, _⟩ := bind_eq_ok.mp hfirst
  exact .inl (lt_of_add hadd)

/-! ## what writing text keeps -/

structure Keeps (w w' : FramebufferWriter) : Prop where
  info : w'.info = w.info
  length : w'.buffer.length = w.buffer.length
  visible : w'.cursorVisible = w.cursorVisible

theorem Keeps.refl (w : FramebufferWriter) : Keeps w w := ⟨rfl, rfl, rfl⟩

theorem Keeps.trans (w v u : FramebufferWriter) (h : Keeps w v) (h' : Keeps v u) : Keeps w u :=
  ⟨h'.info.trans h.info, h'.length.trans h.length, h'.visible.trans h.visible⟩

theorem Keeps.covered (h : Keeps w w') (hc : w.Covered) : w'.Covered := by
  refine ⟨?_, ?_, ?_⟩
  · rw [h.info]; exact hc.stride_le
  · rw [h.info]; exact hc.height_ge
  · rw [h.info, h.length]; exact hc.length_ge

theorem forEach_keeps {α : Type} {xs : List α}
    {body : α → FramebufferWriter → Run Empty FramebufferWriter}
    (h : ∀ a w w', body a w = .ok w' → Keeps w w') (hw : forEach xs body w = .ok w') : Keeps w w' :=
  forEach_rel Keeps.refl Keeps.trans h hw

theorem writePixel_keeps {x y : Nat} {rgb : Rgb} (hw : w.writePixel x y rgb = .ok w') :
    Keeps w w' := by
  unfold writePixel at hw
  split at hw
  · cases hw
    exact Keeps.refl w
  obtain ⟨_, _, hw⟩ := bind_eq_ok.mp hw
  obtain ⟨_, _, hw⟩ := bind_eq_ok.mp hw
  obtain ⟨b, hb, hw⟩ := bind_eq_ok.mp hw
  have hlen := Bytes.length_of_write hb
  split at hw
  · obtain ⟨_, _, hw⟩ := bind_eq_ok.mp hw
    obtain ⟨b', hb', hw⟩ := bind_eq_ok.mp hw
    cases hw
    exact ⟨rfl, (Bytes.length_of_write hb').trans hlen, rfl⟩
  · cases hw
    exact ⟨rfl, hlen, rfl⟩

theorem fill_keeps {xs ys : List Nat} (hw : w.fill xs ys = .ok w') : Keeps w w' :=
  forEach_keeps (fun _ _ _ h => forEach_keeps (fun _ _ _ h => writePixel_keeps h) h) hw

theorem newLine_keeps (hw : w.newLine = .ok w') : Keeps w w' := by
  unfold newLine at hw
  obtain ⟨row, _, hw⟩ := bind_eq_ok.mp hw
  obtain ⟨_, _, hw⟩ := bind_eq_ok.mp hw
  obtain ⟨_, _, hw⟩ := bind_eq_ok.mp hw
  split at hw
  · unfold scroll at hw
    obtain ⟨_, _, hw⟩ := bind_eq_ok.mp hw
    obtain ⟨_, _, hw⟩ := bind_eq_ok.mp hw
    obtain ⟨b, hb, hw⟩ := bind_eq_ok.mp hw
    obtain ⟨v, hv, hw⟩ := bind_eq_ok.mp hw
    have hk := fill_keeps hv
    cases hw
    exact ⟨hk.info, hk.length.trans (Bytes.length_of_copyDown hb), hk.visible⟩
  · cases hw
    exact ⟨rfl, rfl, rfl⟩

theorem drawGlyph_keeps {raster : Raster} (hw : w.drawGlyph raster = .ok w') : Keeps w w' := by
  refine forEach_keeps (fun line v v' h => forEach_keeps (fun cell u u' h => ?_) h) hw
  obtain ⟨_, _, h⟩ := bind_eq_ok.mp h
  obtain ⟨_, _, h⟩ := bind_eq_ok.mp h
  exact writePixel_keeps h

theorem writeCharacter_keeps {font : Font} {c : Char} (hw : writeCharacter font w c = .ok w') :
    Keeps w w' := by
  unfold writeCharacter at hw
  split at hw
  · exact newLine_keeps hw
  obtain ⟨_, _, hw⟩ := bind_eq_ok.mp hw
  obtain ⟨_, _, hw⟩ := bind_eq_ok.mp hw
  obtain ⟨_, _, hw⟩ := bind_eq_ok.mp hw
  obtain ⟨_, _, hw⟩ := bind_eq_ok.mp hw
  obtain ⟨v, hv, hw⟩ := bind_eq_ok.mp hw
  obtain ⟨u, hu, hw⟩ := bind_eq_ok.mp hw
  obtain ⟨_, _, hw⟩ := bind_eq_ok.mp hw
  have hwrap : Keeps w v := by
    split at hv
    · exact newLine_keeps hv
    · cases hv
      exact Keeps.refl w
  have hk := hwrap.trans w v u (drawGlyph_keeps hu)
  cases hw
  exact ⟨hk.info, hk.length, hk.visible⟩

theorem backspace_keeps {font : Font} (hw : w.backspace font = .ok w') : Keeps w w' := by
  unfold backspace at hw
  obtain ⟨advance, _, hw⟩ := bind_eq_ok.mp hw
  split at hw
  · cases hw
    exact Keeps.refl w
  obtain ⟨_, _, hw⟩ := bind_eq_ok.mp hw
  have hk : Keeps { w with column := max (w.column - advance) border } w' := by
    refine forEach_keeps (fun y v v' h => ?_) hw
    obtain ⟨_, _, h⟩ := bind_eq_ok.mp h
    exact forEach_keeps (fun _ _ _ h => writePixel_keeps h) h
  exact ⟨hk.info, hk.length, hk.visible⟩

theorem writeStr_keeps {font : Font} {text : Text.Str} (hw : writeStr font w text = .ok w') :
    Keeps w w' := by
  refine forEach_keeps (fun c v v' h => ?_) hw
  unfold writeChar at h
  split at h
  · cases h
    exact ⟨rfl, rfl, rfl⟩
  split at h
  · exact backspace_keeps h
  split at h
  · exact forEach_keeps (fun _ _ _ h => writeCharacter_keeps h) h
  split at h
  · exact writeCharacter_keeps h
  · exact writeCharacter_keeps h

/-! ## two runs side by side -/

def withCursor (w : FramebufferWriter) : FramebufferWriter :=
  { w with buffer := w.info.flips w.cursorCells w.buffer, cursorVisible := true }

/-- `w₁` is the hidden state `w₂`, or `w₂` with its cursor drawn -/
def Shadows (w₁ w₂ : FramebufferWriter) : Prop :=
  w₂.cursorVisible = false ∧ (w₁ = w₂ ∨ w₂.Togglable ∧ w₁ = w₂.withCursor)

theorem Covered.withCursor (h : w.Covered) : w.withCursor.Covered :=
  ⟨h.stride_le, h.height_ge, (w.info.flips_length _ _).symm ▸ h.length_ge⟩

theorem cursorCells_onScreen (p : Nat × Nat) (hp : p ∈ w.cursorCells) :
    p.1 < w.info.width ∧ p.2 < w.info.height :=
  ⟨(mem_cursorCells.mp hp).1.2.2, (mem_cursorCells.mp hp).2.2.2⟩

/-- taking the cursor away restores the state -/
theorem hideCursor_withCursor (h : w.Covered) (ht : w.Togglable) (hv : w.cursorVisible = false) :
    w.withCursor.hideCursor = .ok w := by
  have hcells : w.withCursor.cursorCells = w.cursorCells := rfl
  have hinfo : w.withCursor.info = w.info := rfl
  have htoggle : w.withCursor.toggleCursor = .ok { w with cursorVisible := true } := by
    rw [toggleCursor_of_togglable h.withCursor ht, hcells, hinfo]
    show Except.ok { w with
      buffer := w.info.flips w.cursorCells (w.info.flips w.cursorCells w.buffer),
      cursorVisible := true } = _
    rw [w.info.flips_flips h.stride_le cursorCells_nodup cursorCells_onScreen]
  unfold hideCursor
  rw [if_pos (show w.withCursor.cursorVisible = true from rfl), htoggle, bind_ok, pure_eq, ← hv]

theorem hideCursor_of_shadows {w₁ w₂ : FramebufferWriter} (h : w₂.Covered) (hs : Shadows w₁ w₂) :
    w₁.hideCursor = .ok w₂ := by
  obtain ⟨hv, rfl | ⟨ht, rfl⟩⟩ := hs
  · unfold hideCursor
    rw [if_neg (by rw [hv]; exact Bool.false_ne_true), pure_eq]
  · exact hideCursor_withCursor h ht hv

/-- clearing the screen forgets the cursor -/
theorem cleared_withCursor (w : FramebufferWriter) : w.withCursor.cleared = w.cleared := by
  have hb : w.withCursor.cleared.buffer = w.cleared.buffer := by
    refine Bytes.ext (by
      show (w.info.plots _ (w.info.flips _ _)).length = (w.info.plots _ _).length
      rw [FrameBufferInfo.plots_length, FrameBufferInfo.plots_length, FrameBufferInfo.flips_length])
      (funext fun i => ?_)
    apply w.info.plots_congr (w.info.flips_length _ _)
    by_cases ht : w.info.Touches w.cursorCells i
    · right
      obtain ⟨p, hp, hlo, hhi⟩ := ht
      obtain ⟨hx, hy⟩ := cursorCells_onScreen p hp
      refine ⟨(p.1, p.2, background), ?_, hx, hy, hlo, lt_of_lt_of_le hhi ?_⟩
      · exact mem_rect.mpr ⟨mem_span.mpr ⟨Nat.zero_le _, hx⟩, mem_span.mpr ⟨Nat.zero_le _, hy⟩, rfl⟩
      · exact Nat.add_le_add_left (min_le_min_left _ (by norm_num)) _
    · exact .inl (w.info.flips_byte_of_not ht _)
  exact FramebufferWriter.ext hb rfl rfl rfl rfl

/-- an operation other than `show_cursor` -/
def writes (op : ConsoleOp) : Bool := op ≠ .showCursor

/-- the step lemma: the operation with the cursor, and the same one (or none) without -/
theorem exec_shadows {font : Font} {op : ConsoleOp} {w₁ w₁' w₂ : FramebufferWriter}
    (hc : w₂.Covered) (hs : Shadows w₁ w₂) (hw : exec font op w₁ = .ok w₁') :
    ∃ w₂', (if writes op then exec font op w₂ else .ok w₂) = .ok w₂' ∧ w₂'.Covered ∧
      Shadows w₁' w₂' := by
  have hhide := hideCursor_of_shadows hc hs
  cases op with
  | print text =>
    have hhide₂ : w₂.hideCursor = .ok w₂ := hideCursor_of_shadows hc ⟨hs.1, .inl rfl⟩
    have h1 : writeStr font w₂ text = .ok w₁' := by
      have : print font w₁ text = .ok w₁' := hw
      unfold print at this
      rwa [hhide, bind_ok] at this
    have hk := writeStr_keeps h1
    refine ⟨w₁', ?_, hk.covered hc, hk.visible.trans hs.1, .inl rfl⟩
    show print font w₂ text = _
    unfold print
    rw [hhide₂, bind_ok, h1]
  | showCursor =>
    refine ⟨w₂, rfl, hc, hs.1, ?_⟩
    have hshow : showCursor w₁ = .ok w₁' := hw
    unfold showCursor at hshow
    obtain ⟨hv, rfl | ⟨ht, rfl⟩⟩ := hs
    · rw [if_pos hv] at hshow
      obtain ⟨v, htoggle, hv'⟩ := bind_eq_ok.mp hshow
      have ht := togglable_of_toggleCursor htoggle
      rw [toggleCursor_of_togglable hc ht] at htoggle
      cases htoggle
      cases hv'
      exact .inr ⟨ht, rfl⟩
    · rw [if_neg (show ¬ w₂.withCursor.cursorVisible = false from fun e => nomatch e)] at hshow
      exact .inr ⟨ht, (Except.ok.inj hshow).symm⟩
  | clear =>
    have hclear : clear w₁ = .ok w₂.cleared := by
      obtain ⟨hv, rfl | ⟨ht, rfl⟩⟩ := hs
      · exact clear_eq hc
      · rw [clear_eq hc.withCursor, cleared_withCursor]
    obtain rfl : w₁' = w₂.cleared := Except.ok.inj (hw.symm.trans hclear)
    exact ⟨w₂.cleared, clear_eq hc, (cleared_ready hc).covered, rfl, .inl rfl⟩

/-- the run lemma -/
theorem execAll_shadows {font : Font} {ops : List ConsoleOp} {w₁ w₁' w₂ : FramebufferWriter}
    (hc : w₂.Covered) (hs : Shadows w₁ w₂) (hw : execAll font w₁ ops = .ok w₁') :
    ∃ w₂', execAll font w₂ (ops.filter writes) = .ok w₂' ∧ w₂'.Covered ∧ Shadows w₁' w₂' := by
  induction ops generalizing w₁ w₂ with
  | nil =>
    obtain rfl : w₁ = w₁' := Except.ok.inj hw
    exact ⟨w₂, rfl, hc, hs⟩
  | cons op ops ih =>
    obtain ⟨v₁, hstep, hrest⟩ := bind_eq_ok.mp hw
    obtain ⟨v₂, hstep₂, hc', hs'⟩ := exec_shadows hc hs hstep
    obtain ⟨w₂', hrest₂, hc'', hs''⟩ := ih hc' hs' hrest
    refine ⟨w₂', ?_, hc'', hs''⟩
    cases hop : writes op with
    | false =>
      rw [hop] at hstep₂
      obtain rfl : w₂ = v₂ := Except.ok.inj hstep₂
      rw [List.filter_cons_of_neg (by rw [hop]; exact Bool.false_ne_true), hrest₂]
    | true =>
      rw [hop, if_pos rfl] at hstep₂
      rw [List.filter_cons_of_pos hop]
      show (exec font op w₂ >>= fun v => execAll font v (ops.filter writes)) = _
      rw [hstep₂, bind_ok, hrest₂]

/-! ## no operation fails -/

theorem Ready.togglable (h : w.Ready) : w.Togglable := by
  have h1 := h.row_lt
  have h2 := h.column_lt
  unfold Togglable fontHeight cursorWidth
  omega

theorem Ready.toggled (h : w.Ready) (visible : Bool) :
    ({ w with buffer := w.info.flips w.cursorCells w.buffer, cursorVisible := visible } :
      FramebufferWriter).Ready :=
  ⟨⟨h.covered.stride_le, h.covered.height_ge,
    (w.info.flips_length _ _).symm ▸ h.covered.length_ge⟩, h.row_lt, h.column_lt⟩

theorem hideCursor_ready (h : w.Ready) : ∃ w', w.hideCursor = .ok w' ∧ w'.Ready := by
  unfold hideCursor
  split
  · rw [toggleCursor_of_togglable h.covered h.togglable, bind_ok]
    exact ⟨_, rfl, h.toggled false⟩
  · exact ⟨w, rfl, h⟩

theorem exec_ready {font : Font} (hf : (font.getRaster '?').isSome) (h : w.Ready) (op : ConsoleOp) :
    ∃ w', exec font op w = .ok w' ∧ w'.Ready := by
  obtain ⟨fallback, hf⟩ := Option.isSome_iff_exists.mp hf
  cases op with
  | print text =>
    obtain ⟨v, hv, hready⟩ := hideCursor_ready h
    have htext : (text.foldl (fun w c => w.type font fallback c) v).Ready :=
      foldl_type_ready hready fallback text
    refine ⟨_, ?_, htext⟩
    show print font w text = _
    unfold print
    rw [hv, bind_ok, writeStr_eq hready hf]
  | showCursor =>
    show ∃ w', showCursor w = .ok w' ∧ w'.Ready
    unfold showCursor
    split
    · rw [toggleCursor_of_togglable h.covered h.togglable, bind_ok]
      exact ⟨_, rfl, h.toggled true⟩
    · exact ⟨w, rfl, h⟩
  | clear => exact ⟨w.cleared, clear_eq h.covered, cleared_ready h.covered⟩

theorem execAll_ready {font : Font} (hf : (font.getRaster '?').isSome) (h : w.Ready)
    (ops : List ConsoleOp) : ∃ w', execAll font w ops = .ok w' ∧ w'.Ready := by
  induction ops generalizing w with
  | nil => exact ⟨w, rfl, h⟩
  | cons op ops ih =>
    obtain ⟨v, hv, hready⟩ := exec_ready hf h op
    obtain ⟨w', hw', hready'⟩ := ih hready
    refine ⟨w', ?_, hready'⟩
    show (exec font op w >>= fun v => execAll font v ops) = _
    rw [hv, bind_ok]
    exact hw'

end

/-- byte `i` is a colour byte of a pixel under the cursor: of the 2 by 16 pixels at the position,
clipped to the screen -/
def UnderCursor (w : FramebufferWriter) (i : Nat) : Prop :=
  ∃ x y k, (w.column ≤ x ∧ x < w.column + 2 ∧ x < w.info.width) ∧
    (w.row ≤ y ∧ y < w.row + 16 ∧ y < w.info.height) ∧ k < min w.info.bytesPerPixel 3 ∧
    i = w.info.offset x y + k

theorem touches_iff_underCursor {w : FramebufferWriter} {i : Nat} :
    w.info.Touches w.cursorCells i ↔ w.UnderCursor i := by
  constructor
  · rintro ⟨p, hp, hlo, hhi⟩
    obtain ⟨hx, hy⟩ := mem_cursorCells.mp hp
    exact ⟨p.1, p.2, i - w.info.offset p.1 p.2, hx, hy, by omega, by omega⟩
  · rintro ⟨x, y, k, hx, hy, hk, rfl⟩
    exact ⟨(x, y), mem_cursorCells.mpr ⟨hx, hy⟩, Nat.le_add_right _ _, Nat.add_lt_add_left hk _⟩

/-- **the cursor overlay leaves no trace**: from a state without it, any operations followed by
`hide_cursor` end as the same operations without `show_cursor`; while the cursor is shown, exactly the
pixels under it are inverted.  The operations do return, unless the position is at the very end of the
address range or the font has no fallback glyph. -/
theorem cursor_leaves_no_trace (font : Font) (w : FramebufferWriter)
    (hhidden : w.cursorVisible = false) (hcov : w.Covered) (ops : List ConsoleOp) :
    (∀ w₁, w.execAll font ops = .ok w₁ →
      ∃ w₂, w.execAll font (ops.filter writes) = .ok w₂ ∧ w₁.hideCursor = .ok w₂ ∧
        (w₁.cursorVisible = true → w₁.row = w₂.row ∧ w₁.column = w₂.column ∧
          ∀ i, (w₂.UnderCursor i → w₁.buffer.byte i = ~~~ w₂.buffer.byte i) ∧
            (¬ w₂.UnderCursor i → w₁.buffer.byte i = w₂.buffer.byte i))) ∧
    ((font.getRaster '?').isSome → w.row < 2^63 → w.column < 2^63 →
      ∃ w₁, w.execAll font ops = .ok w₁) := by
  constructor
  · intro w₁ hw
    obtain ⟨w₂, hw₂, hc, hs⟩ := execAll_shadows hcov ⟨hhidden, .inl rfl⟩ hw
    refine ⟨w₂, hw₂, hideCursor_of_shadows hc hs, fun hvisible => ?_⟩
    obtain ⟨hv, rfl | ⟨_, rfl⟩⟩ := hs
    · rw [hv] at hvisible
      exact nomatch hvisible
    refine ⟨rfl, rfl, fun i => ⟨fun hi => ?_, fun hi => ?_⟩⟩
    · exact w₂.info.flips_byte_of_touches hc.stride_le cursorCells_nodup cursorCells_onScreen
        (touches_iff_underCursor.mpr hi) _
    · exact w₂.info.flips_byte_of_not (fun h => hi (touches_iff_underCursor.mp h)) _
  · intro hf hr hcol
    obtain ⟨w₁, hw₁, _⟩ := execAll_ready hf ⟨hcov, hr, hcol⟩ ops
    exact ⟨w₁, hw₁⟩

end FramebufferWriter

/-- a font in which every character is a bar of one pixel, and a grey screen for it -/
def barFont : Font where
  getRaster _ := some ⟨1, List.replicate 16 [255], by norm_num, by norm_num [List.length_replicate], by
    intro row hrow
    rw [List.eq_of_mem_replicate hrow]
    norm_num⟩
  getRasterWidth := 1
  width_lt := by norm_num

def barScreen (width height : Nat) (hw : width < 2^16) (hh : height < 2^16) : FramebufferWriter :=
  .new ⟨width * height, fun _ => 0, lt_trans (Nat.mul_lt_mul'' hw hh) (by norm_num)⟩
    ⟨width, height, width, 1, .u8, lt_trans hw (by norm_num), lt_trans hh (by norm_num),
      lt_trans hw (by norm_num)⟩

theorem barScreen_covered {width height : Nat} (hw : width < 2^16) (hh : height < 2^16)
    (h32 : 32 ≤ height) : (barScreen width height hw hh).Covered :=
  ⟨le_refl width, h32, by
    show width * height * 1 ≤ width * height
    rw [Nat.mul_one]⟩

theorem cursor_leaves_no_trace_barScreen :
    ∃ w₁ w₂, (barScreen 20 40 (by norm_num) (by norm_num)).execAll barFont
        [.print ['a'], .showCursor, .print ['b', '\n'], .showCursor] = .ok w₁ ∧
      (barScreen 20 40 (by norm_num) (by norm_num)).execAll barFont
        [.print ['a'], .print ['b', '\n']] = .ok w₂ ∧
      w₁.hideCursor = .ok w₂ := by
  obtain ⟨hrun, hreturn⟩ := FramebufferWriter.cursor_leaves_no_trace barFont
    (barScreen 20 40 (by norm_num) (by norm_num)) rfl
    (barScreen_covered (by norm_num) (by norm_num) (by norm_num))
    [.print ['a'], .showCursor, .print ['b', '\n'], .showCursor]
  obtain ⟨w₁, hw₁⟩ := hreturn rfl (show (8 : Nat) < 2^63 by norm_num) (show (8 : Nat) < 2^63 by norm_num)
  obtain ⟨w₂, hw₂, hhide, _⟩ := hrun w₁ hw₁
  exact ⟨w₁, w₂, hw₁, hw₂, hhide⟩

end Console
end SolOs
