import SolOs.Shell.Editor

/-!
# The line editor is a list with a cursor

* `State.Ok`               the invariant of the loop;
* `Follows`                what one event does: the invariant is kept, the abstraction moves as
                           `Edit.step` says, and the line on the screen is drawn again if it changed;
* `step_follows`           every event does that, and does not panic;
* `line_editor_refines`    **so does every sequence of events.**
-/

set_option linter.unusedVariables false

namespace SolOs
namespace Shell
open Checked Keyboard Console

/-! ## the invariant -/

/-- all but the bookkeeping of the screen -/
structure State.Sound (s : State) : Prop where
  line_length : s.line.length = 80
  cursor_le : s.cursor ≤ s.length
  length_le : s.length ≤ 80
  draft_length : s.draft.length = 80
  draftLength_le : s.draftLength ≤ 80
  history : ∃ log, s.history.Represents log
  position_lt : ∀ k, s.historyPosition = some k → k < s.history.count

structure State.Ok (s : State) : Prop extends State.Sound s where
  displayed : s.displayedLength = s.length

theorem State.new_ok : State.new.Ok where
  line_length := rfl
  cursor_le := le_refl 0
  length_le := Nat.zero_le 80
  draft_length := rfl
  draftLength_le := Nat.zero_le 80
  history := ⟨[], CommandHistory.new_represents⟩
  position_lt := fun k h => nomatch h
  displayed := rfl

/-- the conditions on the line are all that an edit has to restore -/
theorem State.Sound.edit {s : State} (h : s.Sound) {line : List UInt8} {length cursor : Nat}
    (hline : line.length = 80) (hc : cursor ≤ length) (hn : length ≤ 80) :
    State.Sound { s with line := line, length := length, cursor := cursor, historyPosition := none } :=
  ⟨hline, hc, hn, h.draft_length, h.draftLength_le, h.history, fun k hk => nomatch hk⟩

theorem State.Sound.move {s : State} (h : s.Sound) {cursor : Nat} (hc : cursor ≤ s.length) :
    State.Sound { s with cursor := cursor } :=
  { h with cursor_le := hc }

/-! ## the abstraction -/

theorem take_eq_append {xs b a : List UInt8} {n : Nat} (h : xs.take n = b ++ a) :
    xs.take b.length = b ∧ (xs.take n).drop b.length = a := by
  have hle : b.length ≤ n := by
    have := congrArg List.length h
    rw [List.length_take, List.length_append] at this
    omega
  constructor
  · have := congrArg (List.take b.length) h
    rwa [List.take_take, min_eq_left hle, List.take_left] at this
  · rw [h, List.drop_left]

/-- the abstraction is read off any way to write the line as two parts -/
theorem abs_eq {s : State} {b a : List UInt8} (h : s.line.take s.length = b ++ a)
    (hc : s.cursor = b.length) :
    abs s = ⟨b, a, s.history.recents, s.historyPosition, s.draft.take s.draftLength⟩ := by
  obtain ⟨h1, h2⟩ := take_eq_append h
  unfold abs
  rw [hc, h1, h2]

section
variable {s : State}

theorem State.Sound.line_eq (h : s.Sound) : (abs s).line = s.line.take s.length := by
  have hc := h.cursor_le
  show s.line.take s.cursor ++ (s.line.take s.length).drop s.cursor = _
  rw [← min_eq_left hc, ← List.take_take, min_eq_left hc, List.take_append_drop]

theorem State.Sound.before_length (h : s.Sound) : (abs s).before.length = s.cursor := by
  have h1 := h.line_length
  have h2 := h.cursor_le
  have h3 := h.length_le
  show (s.line.take s.cursor).length = _
  rw [List.length_take]
  omega

theorem State.Sound.line_length' (h : s.Sound) : (abs s).line.length = s.length := by
  have h1 := h.line_length
  have h3 := h.length_le
  rw [h.line_eq, List.length_take]
  omega

theorem State.Sound.before_eq_nil (h : s.Sound) : (abs s).before = [] ↔ s.cursor = 0 := by
  rw [← h.before_length, List.length_eq_zero_iff]

theorem State.Sound.after_eq_nil (h : s.Sound) : (abs s).after = [] ↔ s.length ≤ s.cursor := by
  have h1 := h.before_length
  have h2 := h.line_length'
  unfold Edit.line at h2
  rw [List.length_append] at h2
  rw [← List.length_eq_zero_iff]
  omega

end

theorem dropLast_append_getLast?_toList (xs : List UInt8) : xs.dropLast ++ xs.getLast?.toList = xs := by
  cases hx : xs.getLast? with
  | none => rw [List.getLast?_eq_none_iff.mp hx]; rfl
  | some x => exact List.dropLast_append_getLast? x hx

namespace Edit
variable {returns : List UInt8 → Bool} {e : Edit}

theorem step_left_of_nil (h : e.before = []) : step returns e .left = (some e, none) := by
  obtain ⟨before, after, hist, position, draft⟩ := e
  obtain rfl : before = [] := h
  rfl

theorem step_right_of_nil (h : e.after = []) : step returns e .right = (some e, none) := by
  obtain ⟨before, after, hist, position, draft⟩ := e
  obtain rfl : after = [] := h
  show (some (⟨before ++ [], _, _, _, _⟩ : Edit), none) = _
  rw [List.append_nil]
  rfl

theorem step_right_of_cons {x : UInt8} {rest : List UInt8} (h : e.after = x :: rest) :
    step returns e .right = (some ⟨e.before ++ [x], rest, e.hist, e.position, e.draft⟩, none) := by
  unfold step
  rw [h]
  rfl

theorem step_up_of_nil (h : e.hist = []) : step returns e .up = (some e, none) := by
  unfold step
  rw [if_pos h]

theorem step_up_of_some (h : e.hist ≠ []) {k : Nat} (hk : e.position = some k) :
    step returns e .up = (some (e.select (if k + 1 < e.hist.length then k + 1 else k)), none) := by
  unfold step
  rw [if_neg h, hk]

theorem step_up_of_none (h : e.hist ≠ []) (hk : e.position = none) :
    step returns e .up = (some { e.select 0 with draft := e.line }, none) := by
  unfold step
  rw [if_neg h, hk]

theorem step_down_of_none (hk : e.position = none) : step returns e .down = (some e, none) := by
  unfold step
  rw [hk]

theorem step_down_of_succ {k : Nat} (hk : e.position = some (k + 1)) :
    step returns e .down = (some (e.select k), none) := by
  unfold step
  rw [hk]

theorem step_down_of_zero (hk : e.position = some 0) :
    step returns e .down = (some ⟨e.draft, [], e.hist, none, e.draft⟩, none) := by
  unfold step
  rw [hk]

end Edit

/-! ## one event -/

/-- the screen after an event that runs no command -/
def Drawn (s : State) (turn : Turn) : Prop :=
  ∃ s', turn.next = some s' ∧
    ((turn.ops = [] ∧ s'.line = s.line ∧ s'.length = s.length ∧ s'.cursor = s.cursor) ∨
      turn.ops = redrawOps (s'.line.take s'.length) (s'.line.take s'.cursor) s.displayedLength)

structure Follows (returns : List UInt8 → Bool) (s : State) (event : KeyEvent) (turn : Turn) : Prop where
  abs_eq : turn.next.map abs = (Edit.step returns (abs s) event).1
  input_eq : turn.input = (Edit.step returns (abs s) event).2
  ok : ∀ s', turn.next = some s' → s'.Ok
  drawn : event ≠ .enter → Drawn s turn

section
variable {returns : List UInt8 → Bool} {s : State} {event : KeyEvent}

theorem stay_follows (h : s.Ok) (hstep : Edit.step returns (abs s) event = (some (abs s), none)) :
    ∃ turn, stay s = .ok turn ∧ Follows returns s event turn := by
  refine ⟨_, rfl, ?_, ?_, ?_, fun _ => ⟨s, rfl, Or.inl ⟨rfl, rfl, rfl, rfl⟩⟩⟩
  · rw [hstep]
    rfl
  · rw [hstep]
  · rintro s' ⟨⟩
    exact h

/-- an event that changes the state and draws the line again -/
theorem redraw_follows {s₁ : State} (h : s₁.Sound) (hd : s₁.displayedLength = s.displayedLength)
    {b a : List UInt8} (hline : s₁.line.take s₁.length = b ++ a) (hc : s₁.cursor = b.length)
    (hstep : Edit.step returns (abs s) event = (some ⟨b, a, s₁.history.recents, s₁.historyPosition,
      s₁.draft.take s₁.draftLength⟩, none)) :
    ∃ turn, redraw s₁ = .ok turn ∧ Follows returns s event turn := by
  have h1 := h.line_length
  have h2 := h.cursor_le
  have h3 := h.length_le
  rw [← abs_eq hline hc] at hstep
  refine ⟨⟨some { s₁ with displayedLength := s₁.length },
    redrawOps (s₁.line.take s₁.length) (s₁.line.take s₁.cursor) s.displayedLength, none⟩, ?_, ?_⟩
  · unfold redraw
    rw [slice_of_le (Nat.zero_le _) (by omega), bind_ok, slice_of_le (Nat.zero_le _) (by omega),
      bind_ok, List.drop_zero, List.drop_zero, hd]
    rfl
  · refine ⟨?_, ?_, ?_, fun _ => ⟨_, rfl, Or.inr rfl⟩⟩
    · rw [hstep]
      rfl
    · rw [hstep]
    · rintro s' ⟨⟩
      exact { h with displayed := rfl }

/-- bytes are put in front of the cursor -/
theorem insert_spec (h : s.Sound) (bytes : List UInt8) (hfit : s.length + bytes.length ≤ 80) :
    ∃ opened line,
      (copyWithin s.line s.cursor s.length (s.cursor + bytes.length) : Run Empty _) = .ok opened ∧
      (splice opened s.cursor bytes : Run Empty _) = .ok line ∧ line.length = 80 ∧
      line.take (s.length + bytes.length) = ((abs s).before ++ bytes) ++ (abs s).after := by
  have h1 := h.line_length
  have hfit' : s.length + bytes.length ≤ s.line.length := by omega
  obtain ⟨line, hrun, hlen, htake⟩ := copyWithin_up (ε := Empty) h.cursor_le hfit'
  obtain ⟨opened, hopen, hfill⟩ := bind_eq_ok.mp hrun
  exact ⟨opened, line, hopen, hfill, hlen.trans h1, htake⟩

theorem character_follows (h : s.Ok) (byte : UInt8) :
    ∃ turn, character s byte = .ok turn ∧ Follows returns s (.character byte) turn := by
  have hlen := h.line_length'
  have hc := h.cursor_le
  have hl := h.length_le
  have hstep : Edit.step returns (abs s) (.character byte) =
      (some (if (abs s).line.length < 80 then _ else _), none) := rfl
  rw [hlen] at hstep
  unfold character lineCapacity
  by_cases hlt : s.length < 80
  · obtain ⟨opened, line, hopen, hfill, hline, htake⟩ := insert_spec h.toSound [byte] hlt
    rw [if_pos hlt, add_of_lt (by omega), bind_ok]
    rw [show s.cursor + 1 = s.cursor + [byte].length from rfl, hopen, bind_ok, put_eq_splice, hfill,
      bind_ok, add_of_lt (by omega), bind_ok]
    refine redraw_follows (h.edit hline (by rw [List.length_singleton]; omega) hlt) rfl htake ?_ ?_
    · rw [List.length_append, h.before_length]
    · rw [hstep, if_pos hlt]
      rfl
  · rw [if_neg hlt]
    apply stay_follows h
    rw [hstep, if_neg hlt]

theorem tab_follows (h : s.Ok) : ∃ turn, tab s = .ok turn ∧ Follows returns s .tab turn := by
  have hlen := h.line_length'
  have hc := h.cursor_le
  have hl := h.length_le
  have hstep : Edit.step returns (abs s) .tab =
      (some (if (abs s).line.length ≤ 76 then _ else _), none) := rfl
  rw [hlen] at hstep
  unfold tab lineCapacity
  rw [add_of_lt (by omega), bind_ok]
  by_cases hle : s.length + 4 ≤ 80
  · obtain ⟨opened, line, hopen, hfill, hline, htake⟩ :=
      insert_spec h.toSound (List.replicate 4 0x20) hle
    rw [if_pos hle, add_of_lt (by omega), bind_ok]
    rw [show s.cursor + 4 = s.cursor + (List.replicate 4 (0x20 : UInt8)).length from rfl, hopen, bind_ok,
      hfill, bind_ok]
    refine redraw_follows (h.edit hline (by rw [List.length_replicate]; omega) hle) rfl htake ?_ ?_
    · rw [List.length_append, h.before_length]
    · rw [hstep, if_pos (by omega)]
      rfl
  · rw [if_neg hle]
    apply stay_follows h
    rw [hstep, if_neg (by omega)]

theorem backspace_follows (h : s.Ok) :
    ∃ turn, backspace s = .ok turn ∧ Follows returns s .backspace turn := by
  have hc := h.cursor_le
  have hl := h.length_le
  have hn := h.line_length
  have hstep : Edit.step returns (abs s) .backspace =
      (some (if (abs s).before = [] then _ else _), none) := rfl
  unfold backspace
  by_cases hpos : s.cursor > 0
  · obtain ⟨line, hmove, hline, htake⟩ :=
      copyWithin_down (ε := Empty) (Nat.sub_le s.cursor 1) hc (show s.length ≤ s.line.length by omega)
    have htail : s.line.take (s.cursor - 1) = (abs s).before.dropLast := by
      rw [List.dropLast_eq_take, h.before_length]
      show _ = (s.line.take s.cursor).take (s.cursor - 1)
      rw [List.take_take, min_eq_left (Nat.sub_le _ _)]
    rw [show s.cursor - 1 + (s.length - s.cursor) = s.length - 1 by omega, htail] at htake
    rw [if_pos hpos, sub_of_le hpos, bind_ok, hmove, bind_ok, sub_of_le (by omega), bind_ok]
    refine redraw_follows (h.edit (hline.trans hn) (by omega) (by omega)) rfl htake ?_ ?_
    · rw [List.length_dropLast, h.before_length]
    · rw [hstep, if_neg (fun hnil => hpos.ne' (h.before_eq_nil.mp hnil))]
      rfl
  · rw [if_neg hpos]
    apply stay_follows h
    rw [hstep, if_pos (h.before_eq_nil.mpr (by omega))]

theorem delete_follows (h : s.Ok) :
    ∃ turn, delete s = .ok turn ∧ Follows returns s .delete turn := by
  have hc := h.cursor_le
  have hl := h.length_le
  have hn := h.line_length
  have hstep : Edit.step returns (abs s) .delete =
      (some (if (abs s).after = [] then _ else _), none) := rfl
  unfold delete
  by_cases hlt : s.cursor < s.length
  · obtain ⟨line, hmove, hline, htake⟩ :=
      copyWithin_down (ε := Empty) (Nat.le_succ s.cursor) hlt (show s.length ≤ s.line.length by omega)
    have htail : (s.line.take s.length).drop (s.cursor + 1) = (abs s).after.tail := by
      show _ = ((s.line.take s.length).drop s.cursor).tail
      rw [List.tail_drop]
    rw [show s.cursor + (s.length - (s.cursor + 1)) = s.length - 1 by omega, htail] at htake
    rw [if_pos hlt, add_of_lt (by omega), bind_ok, hmove, bind_ok, sub_of_le (by omega), bind_ok]
    refine redraw_follows (h.edit (hline.trans hn) (by omega) (by omega)) rfl htake ?_ ?_
    · exact h.before_length.symm
    · rw [hstep, if_neg (fun hnil => absurd (h.after_eq_nil.mp hnil) (by omega))]
      rfl
  · rw [if_neg hlt]
    apply stay_follows h
    rw [hstep, if_pos (h.after_eq_nil.mpr (by omega))]

theorem left_follows (h : s.Ok) : ∃ turn, left s = .ok turn ∧ Follows returns s .left turn := by
  have hc := h.cursor_le
  unfold left
  by_cases hpos : s.cursor > 0
  · rw [if_pos hpos, sub_of_le hpos, bind_ok]
    refine redraw_follows (h.move (by omega)) rfl (b := (abs s).before.dropLast)
      (a := (abs s).before.getLast?.toList ++ (abs s).after) ?_ ?_ rfl
    · show s.line.take s.length = _
      rw [← h.line_eq, ← List.append_assoc, dropLast_append_getLast?_toList]
      rfl
    · rw [List.length_dropLast, h.before_length]
  · rw [if_neg hpos]
    have hnil := h.before_eq_nil.mpr (show s.cursor = 0 by omega)
    exact stay_follows h (Edit.step_left_of_nil hnil)

theorem right_follows (h : s.Ok) : ∃ turn, right s = .ok turn ∧ Follows returns s .right turn := by
  have hc := h.cursor_le
  have hl := h.length_le
  unfold right
  by_cases hlt : s.cursor < s.length
  · rw [if_pos hlt, add_of_lt (by omega), bind_ok]
    obtain ⟨x, rest, hafter⟩ := List.exists_cons_of_ne_nil
      (fun hnil => absurd (h.after_eq_nil.mp hnil) (by omega))
    refine redraw_follows (h.move hlt) rfl (b := (abs s).before ++ [x]) (a := rest) ?_ ?_ ?_
    · show s.line.take s.length = _
      rw [← h.line_eq, List.append_assoc]
      show (abs s).before ++ (abs s).after = _
      rw [hafter]
      rfl
    · rw [List.length_append, h.before_length]
      rfl
    · exact Edit.step_right_of_cons hafter
  · rw [if_neg hlt]
    have hnil := h.after_eq_nil.mpr (show s.length ≤ s.cursor by omega)
    exact stay_follows h (Edit.step_right_of_nil hnil)

theorem home_follows (h : s.Ok) :
    ∃ turn, redraw { s with cursor := 0 } = .ok turn ∧ Follows returns s .home turn := by
  refine redraw_follows (h.move (Nat.zero_le _)) rfl (b := []) (a := (abs s).line) ?_ rfl rfl
  exact h.line_eq.symm

theorem end_follows (h : s.Ok) :
    ∃ turn, redraw { s with cursor := s.length } = .ok turn ∧ Follows returns s .end_ turn := by
  refine redraw_follows (h.move (le_refl _)) rfl (b := (abs s).line) (a := []) ?_ ?_ rfl
  · rw [List.append_nil]
    exact h.line_eq.symm
  · exact h.line_length'.symm

/-! ## history -/

theorem recents_length (h : CommandHistory) : h.recents.length = h.count := by
  unfold CommandHistory.recents
  rw [List.length_map, List.length_range]

theorem recents_eq_nil {h : CommandHistory} : h.recents = [] ↔ h.count = 0 := by
  rw [← recents_length, List.length_eq_zero_iff]

/-- a history entry becomes the line -/
theorem select_follows {s₁ : State} (h : s₁.Sound) (hd : s₁.displayedLength = s.displayedLength)
    {k : Nat} (hk : k < s₁.history.count)
    (hstep : Edit.step returns (abs s) event = (some ((abs s₁).select k), none)) :
    ∃ turn, select s₁ k = .ok turn ∧ Follows returns s event turn := by
  obtain ⟨log, hlog⟩ := h.history
  obtain ⟨entry, line, hentry, hle, hcopy, hline, htake, _⟩ :=
    CommandHistory.copyInto_spec hlog hk h.line_length
  unfold select
  rw [hcopy, bind_ok]
  refine redraw_follows (b := entry) (a := []) ?_ hd ?_ rfl ?_
  · exact ⟨hline, le_refl _, hle, h.draft_length, h.draftLength_le, h.history,
      fun j hj => Option.some.inj hj ▸ hk⟩
  · rw [List.append_nil]
    exact htake
  · have hget : ((abs s₁).hist[k]?).getD [] = entry := by
      show (s₁.history.recents[k]?).getD [] = entry
      rw [hentry]
      rfl
    rw [hstep]
    unfold Edit.select
    rw [hget]
    rfl

theorem up_follows (h : s.Ok) : ∃ turn, up s = .ok turn ∧ Follows returns s .up turn := by
  obtain ⟨log, hlog⟩ := h.history
  have hcount := hlog.count_le
  have hn := h.line_length
  have hl := h.length_le
  have hdl := h.draft_length
  unfold up CommandHistory.previous
  by_cases h0 : s.history.count = 0
  · rw [if_pos h0]
    exact stay_follows h (Edit.step_up_of_nil (recents_eq_nil.mpr h0))
  have hne : (abs s).hist ≠ [] := fun hnil => h0 (recents_eq_nil.mp hnil)
  rw [if_neg h0]
  cases hp : s.historyPosition with
  | some k =>
    have hk := h.position_lt k hp
    have hstep : Edit.step returns (abs s) .up = _ := Edit.step_up_of_some hne hp
    rw [show (abs s).hist.length = s.history.count from recents_length _] at hstep
    dsimp only
    rw [add_of_lt (by omega), bind_ok, pure_eq, bind_ok]
    refine select_follows h.toSound rfl ?_ hstep
    split <;> omega
  | none =>
    have hfit : (s.line.take s.length).length ≤ s.draft.length := by
      rw [List.length_take]
      omega
    obtain ⟨draft, hsplice, hlen, htake, _⟩ := splice_front (ε := Empty) hfit
    rw [← h.line_eq, h.line_length'] at htake
    dsimp only
    rw [slice_of_le (Nat.zero_le _) (by omega), bind_ok, List.drop_zero, hsplice, bind_ok, pure_eq,
      bind_ok]
    have hsound : State.Sound
        { s with draft := draft, draftLength := s.length, historyPosition := none } := by
      refine { h.toSound with draft_length := hlen.trans hdl, draftLength_le := hl, position_lt := ?_ }
      intro k hk
      cases hk
    refine select_follows (s := s) hsound rfl (Nat.pos_of_ne_zero h0) ?_
    rw [Edit.step_up_of_none hne hp, ← htake]
    rfl

theorem down_follows (h : s.Ok) : ∃ turn, down s = .ok turn ∧ Follows returns s .down turn := by
  have hn := h.line_length
  have hdl := h.draft_length
  have hdle := h.draftLength_le
  unfold down
  rcases hp : s.historyPosition with _ | _ | k
  · exact stay_follows h (Edit.step_down_of_none hp)
  · have hlen : (s.draft.take s.draftLength).length = s.draftLength := by
      rw [List.length_take]
      omega
    have hfit : (s.draft.take s.draftLength).length ≤ s.line.length := by omega
    obtain ⟨line, hsplice, hline, htake, _⟩ := splice_front (ε := Empty) hfit
    rw [hlen] at htake
    show ∃ turn, (slice s.draft 0 s.draftLength >>= _) = _ ∧ _
    rw [slice_of_le (Nat.zero_le _) (by omega), bind_ok, List.drop_zero, hsplice, bind_ok]
    refine redraw_follows (b := s.draft.take s.draftLength) (a := [])
      (h.edit (hline.trans hn) (le_refl _) hdle) rfl ?_ hlen.symm (Edit.step_down_of_zero hp)
    rw [List.append_nil]
    exact htake
  · have hk := h.position_lt _ hp
    exact select_follows h.toSound rfl (by omega) (Edit.step_down_of_succ hp)

/-! ## a command -/

/-- `enter` passes the whole line to `push` and to `execute` -/
theorem enter_eq (exec : List UInt8 → Executed) (h : s.Sound) :
    ∃ history log, history.Represents log ∧
      history.recents = CommandHistory.record s.history.recents (abs s).line ∧
      enter exec s = .ok (if (exec (abs s).line).returns then
          ⟨some { s with
              length := 0, cursor := 0, displayedLength := 0, history := history,
              historyPosition := none },
            [.print ['\n']] ++ (exec (abs s).line).ops ++ prompt, some (abs s).line⟩
        else ⟨none, [.print ['\n']] ++ (exec (abs s).line).ops, some (abs s).line⟩) := by
  obtain ⟨log, hlog⟩ := h.history
  have hn := h.line_length
  have hl := h.length_le
  have hle : (abs s).line.length ≤ 80 := h.line_length'.trans_le hl
  obtain ⟨history, log', hpush, hlog', hrec⟩ := CommandHistory.push_spec hlog hle
  refine ⟨history, log', hlog', hrec, ?_⟩
  unfold enter
  rw [slice_of_le (Nat.zero_le _) (by omega), bind_ok, List.drop_zero, ← h.line_eq, hpush, bind_ok]
  dsimp only
  split <;> rfl

theorem enter_follows {exec : List UInt8 → Executed} (h : s.Ok) :
    ∃ turn, enter exec s = .ok turn ∧ Follows (fun input => (exec input).returns) s .enter turn := by
  obtain ⟨history, log, hlog, hrec, heq⟩ := enter_eq exec h.toSound
  have hstep : Edit.step (fun input => (exec input).returns) (abs s) .enter =
      (if (exec (abs s).line).returns then
          some ⟨[], [], CommandHistory.record (abs s).hist (abs s).line, none, (abs s).draft⟩
        else none, some (abs s).line) := rfl
  refine ⟨_, heq, ?_⟩
  by_cases hr : (exec (abs s).line).returns = true
  · rw [if_pos hr] at hstep ⊢
    refine ⟨?_, ?_, ?_, fun hne => absurd rfl hne⟩
    · rw [hstep]
      show some (Edit.mk _ _ history.recents _ _) = _
      rw [hrec]
      rfl
    · rw [hstep]
    · rintro s' ⟨⟩
      exact {
        line_length := h.line_length
        cursor_le := le_refl 0
        length_le := Nat.zero_le 80
        draft_length := h.draft_length
        draftLength_le := h.draftLength_le
        history := ⟨log, hlog⟩
        position_lt := fun k hk => nomatch hk
        displayed := rfl }
  · rw [if_neg hr] at hstep ⊢
    refine ⟨?_, ?_, fun s' hs' => (nomatch hs'), fun hne => absurd rfl hne⟩
    · rw [hstep]
      rfl
    · rw [hstep]

end

/-! ## the loop -/

/-- **every event follows the abstract editor**, and does not panic -/
theorem step_follows (exec : List UInt8 → Executed) {s : State} (h : s.Ok) (event : KeyEvent) :
    ∃ turn, step exec s event = .ok turn ∧
      Follows (fun input => (exec input).returns) s event turn := by
  cases event with
  | character byte => exact character_follows h byte
  | enter => exact enter_follows h
  | backspace => exact backspace_follows h
  | delete => exact delete_follows h
  | tab => exact tab_follows h
  | left => exact left_follows h
  | right => exact right_follows h
  | home => exact home_follows h
  | end_ => exact end_follows h
  | up => exact up_follows h
  | down => exact down_follows h

section
variable {ω : Type}

/-- the abstract editor needs to know of a command only whether it returns -/
def returning (exec : ω → List UInt8 → Executed) (now : ω) (input : List UInt8) : Bool :=
  (exec now input).returns

theorem runAll_follows (exec : ω → List UInt8 → Executed) {s : State} (h : s.Ok)
    (events : List (ω × KeyEvent)) :
    ∃ out, runAll exec s events = .ok out ∧
      (out.final.map abs, out.inputs) = Edit.runAll (returning exec) (abs s) events := by
  induction events generalizing s with
  | nil => exact ⟨_, rfl, rfl⟩
  | cons e rest ih =>
    obtain ⟨now, event⟩ := e
    obtain ⟨turn, hturn, hf⟩ := step_follows (exec now) h event
    have hstep : Edit.step (returning exec now) (abs s) event = (turn.next.map abs, turn.input) :=
      Prod.ext hf.abs_eq.symm hf.input_eq.symm
    unfold runAll Edit.runAll
    rw [hturn, bind_ok, hstep]
    cases hnext : turn.next with
    | none => exact ⟨_, rfl, rfl⟩
    | some s' =>
      obtain ⟨out, hout, heq⟩ := ih (hf.ok s' hnext)
      dsimp only
      rw [hout, bind_ok]
      refine ⟨_, rfl, ?_⟩
      show _ = ((Edit.runAll (returning exec) (abs s') rest).1,
        _ ++ (Edit.runAll (returning exec) (abs s') rest).2)
      rw [← heq]

/-- **the line editor refines a list with a cursor**: from the start, and from every state that
satisfies the invariant, whatever bytes stand in the two arrays behind `length` and `draftLength`, a
sequence of events does not panic, its states abstract to those of `Edit`, and the lines that are
recorded and executed are those of `Edit` -/
theorem line_editor_refines (exec : ω → List UInt8 → Executed) (events : List (ω × KeyEvent)) :
    (∃ out, runAll exec .new events = .ok out ∧
      (out.final.map abs, out.inputs) = Edit.runAll (returning exec) .new events) ∧
    ∀ s : State, s.Ok → ∃ out, runAll exec s events = .ok out ∧
      (out.final.map abs, out.inputs) = Edit.runAll (returning exec) (abs s) events :=
  ⟨runAll_follows exec State.new_ok events, fun _ h => runAll_follows exec h events⟩

end

/-- an array full of old bytes: `a`, `b`, Left, Backspace, Enter runs the line `b` -/
theorem line_editor_refines_stale :
    ∃ out, runAll (fun (_ : Unit) _ => ⟨[], true⟩) { State.new with line := List.replicate 80 0x7a }
        [((), .character 0x61), ((), .character 0x62), ((), .left), ((), .backspace), ((), .enter)] =
      .ok out ∧ out.inputs = [[0x62]] := by
  have hok : State.Ok { State.new with line := List.replicate 80 0x7a } :=
    { State.new_ok with line_length := rfl }
  obtain ⟨out, hrun, heq⟩ := (line_editor_refines (fun (_ : Unit) _ => ⟨[], true⟩) _).2 _ hok
  exact ⟨out, hrun, congrArg Prod.snd heq⟩

end Shell
end SolOs
