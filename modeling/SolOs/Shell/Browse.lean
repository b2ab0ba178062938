import SolOs.Shell.Refine

/-!
# Browsing the history keeps the unfinished command

While only the keys for moving are pressed, and editing keys that do nothing, the line on display is the
unfinished command or the history entry at the current position.

* `State.browses`              the events in question, `BrowseStep` a round of the loop with one of them;
* `Edit.Browsing`              the invariant, on the abstract editor;
* `Edit.depth`                 how far back the history has been opened;
* `browsing_keeps_draft`       **the unfinished command comes back.**
-/

set_option linter.unusedVariables false

namespace SolOs
namespace Shell
open Checked Keyboard

/-! ## events -/

/-- Up, Down, Left, Right, Home and End -/
def moves : KeyEvent → Bool
  | .up | .down | .left | .right | .home | .end_ => true
  | .enter | .backspace | .delete | .tab | .character _ => false

/-- editing events that do nothing: no room in the line, or nothing on that side of the cursor -/
def State.idle (s : State) : KeyEvent → Bool
  | .character _ => lineCapacity ≤ s.length
  | .tab => lineCapacity < s.length + 4
  | .backspace => s.cursor = 0
  | .delete => s.length ≤ s.cursor
  | .enter | .up | .down | .left | .right | .home | .end_ => false

def State.browses (s : State) (event : KeyEvent) : Bool := moves event || s.idle event

/-- one round of the loop with such an event -/
def BrowseStep {ω : Type} (exec : ω → List UInt8 → Executed) (s s' : State) : Prop :=
  ∃ now event turn, s.browses event = true ∧ step (exec now) s event = .ok turn ∧ turn.next = some s'

namespace Edit

def idle (e : Edit) : KeyEvent → Bool
  | .character _ => 80 ≤ e.line.length
  | .tab => 76 < e.line.length
  | .backspace => e.before.isEmpty
  | .delete => e.after.isEmpty
  | .enter | .up | .down | .left | .right | .home | .end_ => false

/-! ## the invariant -/

/-- the line is the unfinished command `line`, or an entry of the history while the command is kept as
the draft -/
structure Browsing (line : List UInt8) (hist : List (List UInt8)) (e : Edit) : Prop where
  hist_eq : e.hist = hist
  at_line : e.position = none → e.line = line
  at_entry : ∀ k, e.position = some k → hist[k]? = some e.line ∧ e.draft = line

section
variable {returns : List UInt8 → Bool} {line : List UInt8} {hist : List (List UInt8)} {e : Edit}

theorem idle_step {event : KeyEvent} (h : e.idle event = true) :
    step returns e event = (some e, none) := by
  cases event with
  | character byte =>
    have hlen : 80 ≤ e.line.length := by simpa [idle] using h
    show (some (if e.line.length < 80 then _ else e), none) = _
    rw [if_neg (by omega)]
  | tab =>
    have hlen : 76 < e.line.length := by simpa [idle] using h
    show (some (if e.line.length ≤ 76 then _ else e), none) = _
    rw [if_neg (by omega)]
  | backspace =>
    have hnil : e.before = [] := by simpa [idle] using h
    show (some (if e.before = [] then e else _), none) = _
    rw [if_pos hnil]
  | delete =>
    have hnil : e.after = [] := by simpa [idle] using h
    show (some (if e.after = [] then e else _), none) = _
    rw [if_pos hnil]
  | _ => cases h

/-- moving the cursor keeps everything else -/
theorem Browsing.cursor (h : Browsing line hist e) {e' : Edit} (hline : e'.line = e.line)
    (hh : e'.hist = e.hist) (hp : e'.position = e.position) (hd : e'.draft = e.draft) :
    Browsing line hist e' := by
  refine ⟨hh.trans h.hist_eq, ?_, ?_⟩
  · intro hn
    rw [hline]
    exact h.at_line (hp ▸ hn)
  · intro k hk
    rw [hline, hd]
    exact h.at_entry k (hp ▸ hk)

/-- an entry of the history becomes the line -/
theorem Browsing.select {k : Nat} (hh : e.hist = hist) (hk : k < hist.length) (hd : e.draft = line) :
    Browsing line hist (e.select k) := by
  refine ⟨hh, fun hn => absurd hn (Option.some_ne_none k), ?_⟩
  intro j hj
  obtain rfl : k = j := Option.some.inj hj
  refine ⟨?_, hd⟩
  show hist[k]? = some ((e.hist[k]?).getD [] ++ [])
  rw [hh, List.append_nil, List.getElem?_eq_getElem hk]
  rfl

theorem Browsing.position_lt (h : Browsing line hist e) {k : Nat} (hk : e.position = some k) :
    k < hist.length := by
  by_contra hge
  have hnone : hist[k]? = none := List.getElem?_eq_none (Nat.not_lt.mp hge)
  rw [(h.at_entry k hk).1] at hnone
  cases hnone

theorem Browsing.up (returns : List UInt8 → Bool) (h : Browsing line hist e) :
    ∃ e', step returns e .up = (some e', none) ∧ Browsing line hist e' := by
  by_cases hnil : e.hist = []
  · exact ⟨e, step_up_of_nil hnil, h⟩
  have hlen : 0 < hist.length := by
    rw [← h.hist_eq]
    exact List.length_pos_iff.mpr hnil
  cases hp : e.position with
  | none =>
    refine ⟨_, step_up_of_none hnil hp, ?_⟩
    -- the line that is left is saved as the draft
    exact Browsing.select (e := { e with draft := e.line }) h.hist_eq hlen (h.at_line hp)
  | some k =>
    refine ⟨_, step_up_of_some hnil hp, Browsing.select h.hist_eq ?_ (h.at_entry k hp).2⟩
    have hk := h.position_lt hp
    rw [h.hist_eq]
    split <;> omega

theorem Browsing.down (returns : List UInt8 → Bool) (h : Browsing line hist e) :
    ∃ e', step returns e .down = (some e', none) ∧ Browsing line hist e' := by
  rcases hp : e.position with _ | _ | k
  · exact ⟨e, step_down_of_none hp, h⟩
  · refine ⟨_, step_down_of_zero hp, h.hist_eq, ?_, fun k hk => absurd hk.symm (Option.some_ne_none k)⟩
    intro _
    show e.draft ++ [] = line
    rw [List.append_nil, (h.at_entry 0 hp).2]
  · have hk := h.position_lt hp
    exact ⟨_, step_down_of_succ hp, Browsing.select h.hist_eq (by omega) (h.at_entry _ hp).2⟩

/-- **a round of browsing keeps the invariant** -/
theorem Browsing.step (h : Browsing line hist e) {event : KeyEvent}
    (hb : (moves event || e.idle event) = true) :
    ∃ e', Edit.step returns e event = (some e', none) ∧ Browsing line hist e' := by
  rcases Bool.or_eq_true_iff.mp hb with hmove | hidle
  · cases event with
    | up => exact h.up returns
    | down => exact h.down returns
    | left =>
      refine ⟨_, rfl, h.cursor ?_ rfl rfl rfl⟩
      show e.before.dropLast ++ (e.before.getLast?.toList ++ e.after) = e.before ++ e.after
      rw [← List.append_assoc, dropLast_append_getLast?_toList]
    | right =>
      refine ⟨_, rfl, h.cursor ?_ rfl rfl rfl⟩
      show e.before ++ e.after.head?.toList ++ e.after.tail = e.before ++ e.after
      rw [List.append_assoc]
      cases e.after <;> rfl
    | home => exact ⟨_, rfl, h.cursor rfl rfl rfl rfl⟩
    | end_ => exact ⟨_, rfl, h.cursor (List.append_nil _) rfl rfl rfl⟩
    | _ => cases hmove
  · exact ⟨e, idle_step hidle, h⟩

/-! ## up and down again -/

/-- the number of entries that have been opened -/
def depth (e : Edit) : Nat := e.position.elim 0 (· + 1)

theorem depth_eq_zero : e.depth = 0 ↔ e.position = none := by
  unfold depth
  cases e.position <;> simp

theorem Browsing.depth_le (h : Browsing line hist e) : e.depth ≤ hist.length := by
  unfold depth
  cases hp : e.position with
  | none => exact Nat.zero_le _
  | some k => exact h.position_lt hp

theorem depth_up (h : Browsing line hist e) {e' : Edit} (hs : Edit.step returns e .up = (some e', none)) :
    e'.depth = min (e.depth + 1) hist.length := by
  by_cases hnil : e.hist = []
  · rw [step_up_of_nil hnil] at hs
    obtain rfl : e = e' := Option.some.inj (congrArg Prod.fst hs)
    have hle := h.depth_le
    rw [← h.hist_eq, hnil] at hle ⊢
    simpa using hle
  cases hp : e.position with
  | none =>
    rw [step_up_of_none hnil hp] at hs
    obtain rfl := Option.some.inj (congrArg Prod.fst hs)
    have hpos : 0 < e.hist.length := List.length_pos_iff.mpr hnil
    rw [h.hist_eq] at hpos
    rw [depth_eq_zero.mpr hp]
    exact (min_eq_left hpos).symm
  | some k =>
    rw [step_up_of_some hnil hp] at hs
    obtain rfl := Option.some.inj (congrArg Prod.fst hs)
    have hk := h.position_lt hp
    have hd : e.depth = k + 1 := by rw [depth, hp]; rfl
    show (if k + 1 < e.hist.length then k + 1 else k) + 1 = _
    rw [h.hist_eq, hd]
    split <;> omega

theorem depth_down {e' : Edit} (hs : Edit.step returns e .down = (some e', none)) :
    e'.depth = e.depth - 1 := by
  rcases hp : e.position with _ | _ | k
  · rw [step_down_of_none hp] at hs
    obtain rfl := Option.some.inj (congrArg Prod.fst hs)
    rw [depth_eq_zero.mpr hp]
  · rw [step_down_of_zero hp] at hs
    obtain rfl := Option.some.inj (congrArg Prod.fst hs)
    rw [depth, depth, hp]
    rfl
  · rw [step_down_of_succ hp] at hs
    obtain rfl := Option.some.inj (congrArg Prod.fst hs)
    rw [depth, depth, hp]
    rfl

end

section
variable {ω : Type} {returns : ω → List UInt8 → Bool} {line : List UInt8} {hist : List (List UInt8)}

theorem runAll_cons {e e' : Edit} {now : ω} {event : KeyEvent}
    (h : step (returns now) e event = (some e', none)) (rest : List (ω × KeyEvent)) :
    runAll returns e ((now, event) :: rest) = runAll returns e' rest := by
  rw [runAll, h]
  rfl

/-- Up several times, and then the events `rest` -/
theorem runAll_ups (returns : ω → List UInt8 → Bool) {e : Edit} (h : Browsing line hist e) (now : ω) (m : Nat) :
    ∃ e', Browsing line hist e' ∧ e'.depth = min (e.depth + m) hist.length ∧
      ∀ rest, runAll returns e (List.replicate m (now, .up) ++ rest) = runAll returns e' rest := by
  induction m generalizing e with
  | zero => exact ⟨e, h, (min_eq_left h.depth_le).symm, fun _ => rfl⟩
  | succ m ih =>
    obtain ⟨e₁, hs, h₁⟩ := h.up (returns now)
    obtain ⟨e', h', hd, hrun⟩ := ih h₁
    refine ⟨e', h', ?_, ?_⟩
    · rw [hd, depth_up h hs]
      omega
    · intro rest
      rw [List.replicate_succ, List.cons_append, runAll_cons hs, hrun]

theorem runAll_downs (returns : ω → List UInt8 → Bool) {e : Edit} (h : Browsing line hist e) (now : ω) (m : Nat) :
    ∃ e', Browsing line hist e' ∧ e'.depth = e.depth - m ∧
      runAll returns e (List.replicate m (now, .down)) = (some e', []) := by
  induction m generalizing e with
  | zero => exact ⟨e, h, rfl, rfl⟩
  | succ m ih =>
    obtain ⟨e₁, hs, h₁⟩ := h.down (returns now)
    obtain ⟨e', h', hd, hrun⟩ := ih h₁
    refine ⟨e', h', ?_, ?_⟩
    · rw [hd, depth_down hs]
      omega
    · rw [List.replicate_succ, runAll_cons hs, hrun]

end

end Edit

/-! ## the shell -/

section
variable {ω : Type} {exec : ω → List UInt8 → Executed} {s : State}

theorem State.Ok.browses_abs (h : s.Ok) {event : KeyEvent} (hb : s.browses event = true) :
    (moves event || (abs s).idle event) = true := by
  have hlen := h.line_length'
  cases event with
  | character byte =>
    have hl : 80 ≤ s.length := of_decide_eq_true hb
    simpa [moves, Edit.idle, hlen] using hl
  | tab =>
    have hl : 80 < s.length + 4 := of_decide_eq_true hb
    simp only [moves, Edit.idle, hlen, Bool.false_or, decide_eq_true_eq]
    omega
  | backspace =>
    have hc : s.cursor = 0 := by simpa [State.browses, moves, State.idle] using hb
    simpa [moves, Edit.idle] using h.before_eq_nil.mpr hc
  | delete =>
    have hc : s.length ≤ s.cursor := by simpa [State.browses, moves, State.idle] using hb
    simpa [moves, Edit.idle] using h.after_eq_nil.mpr hc
  | _ => exact hb

/-- the invariant holds after every sequence of events -/
theorem runAll_ok {events : List (ω × KeyEvent)} (h : s.Ok) {out : Outcome}
    (hrun : runAll exec s events = .ok out) {s' : State} (hs : out.final = some s') : s'.Ok := by
  induction events generalizing s out with
  | nil =>
    obtain rfl := Except.ok.inj hrun
    exact Option.some.inj hs ▸ h
  | cons e rest ih =>
    obtain ⟨now, event⟩ := e
    obtain ⟨turn, hturn, hf⟩ := step_follows (exec now) h event
    rw [runAll, hturn, bind_ok] at hrun
    cases hnext : turn.next with
    | none =>
      rw [hnext] at hrun
      obtain rfl := Except.ok.inj hrun
      cases hs
    | some s₁ =>
      rw [hnext] at hrun
      obtain ⟨out₁, hrun₁, hout⟩ := bind_eq_ok.mp hrun
      obtain rfl := Except.ok.inj hout
      exact ih (hf.ok s₁ hnext) hrun₁ hs

/-- a round of browsing, on the shell -/
theorem step_browsing (exec : List UInt8 → Executed) (h : s.Ok) {line : List UInt8}
    {hist : List (List UInt8)} (hb : Edit.Browsing line hist (abs s)) {event : KeyEvent}
    (hevent : s.browses event = true) :
    ∃ turn s', step exec s event = .ok turn ∧ turn.next = some s' ∧ s'.Ok ∧
      Edit.Browsing line hist (abs s') := by
  obtain ⟨turn, hturn, hf⟩ := step_follows exec h event
  obtain ⟨e', hstep, hb'⟩ := hb.step (h.browses_abs hevent)
  have habs := hf.abs_eq
  rw [hstep] at habs
  cases hnext : turn.next with
  | none =>
    rw [hnext] at habs
    cases habs
  | some s' =>
    rw [hnext] at habs
    obtain rfl : abs s' = e' := Option.some.inj habs
    exact ⟨turn, s', hturn, hnext, hf.ok s' hnext, hb'⟩

/-- and any number of rounds -/
theorem browse_run {line : List UInt8} {hist : List (List UInt8)} (h : s.Ok)
    (hb : Edit.Browsing line hist (abs s)) {s' : State}
    (hrun : Relation.ReflTransGen (BrowseStep exec) s s') :
    s'.Ok ∧ Edit.Browsing line hist (abs s') := by
  induction hrun with
  | refl => exact ⟨h, hb⟩
  | tail _ hstep ih =>
    obtain ⟨now, event, turn, hevent, hturn, hnext⟩ := hstep
    obtain ⟨turn', s₂, hturn', hnext', h₂, hb₂⟩ := step_browsing (exec now) ih.1 ih.2 hevent
    obtain rfl : turn = turn' := Except.ok.inj (hturn.symm.trans hturn')
    obtain rfl := Option.some.inj (hnext.symm.trans hnext')
    exact ⟨h₂, hb₂⟩

/-- **browsing the history keeps the unfinished command.**  In a state that the shell can reach, with no
history entry open: after any events that only browse, no panic happens, the line is the unfinished
command when no entry is open and the open entry otherwise; and Up any number of times, followed by Down
as many times as entries were opened, brings the unfinished command back. -/
theorem browsing_keeps_draft (exec : ω → List UInt8 → Executed) (events : List (ω × KeyEvent))
    (out : Outcome) (s : State) (hrun : runAll exec .new events = .ok out) (hs : out.final = some s)
    (hpos : s.historyPosition = none) :
    (∀ s', Relation.ReflTransGen (BrowseStep exec) s s' →
      (s'.historyPosition = none → s'.line.take s'.length = s.line.take s.length) ∧
      (∀ k, s'.historyPosition = some k →
        s'.history.recents[k]? = some (s'.line.take s'.length)) ∧
      s'.history.recents = s.history.recents ∧
      ∀ now event, s'.browses event = true →
        ∃ turn s'', step (exec now) s' event = .ok turn ∧ turn.next = some s'') ∧
    ∀ (m : Nat) (now : ω), ∃ out' s',
      runAll exec s (List.replicate m (now, .up) ++ List.replicate (min m s.history.count) (now, .down))
        = .ok out' ∧
      out'.final = some s' ∧ s'.historyPosition = none ∧
      s'.line.take s'.length = s.line.take s.length := by
  have h : s.Ok := runAll_ok State.new_ok hrun hs
  have hb : Edit.Browsing (s.line.take s.length) s.history.recents (abs s) := by
    refine ⟨rfl, fun _ => h.line_eq, ?_⟩
    intro k hk
    exact absurd (hk.symm.trans hpos) (Option.some_ne_none k)
  constructor
  · intro s' hreach
    obtain ⟨h', hb'⟩ := browse_run h hb hreach
    rw [← h'.line_eq]
    refine ⟨hb'.at_line, ?_, hb'.hist_eq, ?_⟩
    · intro k hk
      rw [show s'.history.recents = s.history.recents from hb'.hist_eq]
      exact (hb'.at_entry k hk).1
    · intro now event hevent
      obtain ⟨turn, s'', hturn, hnext, _⟩ := step_browsing (exec now) h' hb' hevent
      exact ⟨turn, s'', hturn, hnext⟩
  · intro m now
    obtain ⟨e₁, hb₁, hd₁, hups⟩ := Edit.runAll_ups (returning exec) hb now m
    obtain ⟨e₂, hb₂, hd₂, hdowns⟩ := Edit.runAll_downs (returning exec) hb₁ now
      (min m s.history.count)
    obtain ⟨out', hout, heq⟩ := runAll_follows exec h
      (List.replicate m (now, .up) ++ List.replicate (min m s.history.count) (now, .down))
    rw [hups, hdowns] at heq
    have hfinal : out'.final.map abs = some e₂ := congrArg Prod.fst heq
    obtain ⟨s', hs', rfl⟩ := Option.map_eq_some_iff.mp hfinal
    have hnone : (abs s').position = none := by
      rw [← Edit.depth_eq_zero, hd₂, hd₁, Edit.depth_eq_zero.mpr hpos, recents_length]
      omega
    refine ⟨out', s', hout, hs', hnone, ?_⟩
    rw [← (runAll_ok h hout hs').line_eq]
    exact hb₂.at_line hnone

end

/-- the line `a` was entered and `b` typed: Up and Down bring `b` back -/
theorem browsing_keeps_draft_one :
    ∃ out s out' s', runAll (fun (_ : Unit) _ => ⟨[], true⟩) .new
        [((), .character 0x61), ((), .enter), ((), .character 0x62)] = .ok out ∧ out.final = some s ∧
      runAll (fun (_ : Unit) _ => ⟨[], true⟩) s [((), .up), ((), .down)] = .ok out' ∧
      out'.final = some s' ∧ s'.line.take s'.length = [0x62] := by
  obtain ⟨out, s, hrun, hs, hpos, hcount, hline⟩ : ∃ out s, runAll (fun (_ : Unit) _ => ⟨[], true⟩) .new
      [((), .character 0x61), ((), .enter), ((), .character 0x62)] = .ok out ∧ out.final = some s ∧
      s.historyPosition = none ∧ s.history.count = 1 ∧ s.line.take s.length = [0x62] :=
    ⟨_, _, rfl, rfl, rfl, rfl, rfl⟩
  obtain ⟨out', s', hout, hs', _, hback⟩ :=
    (browsing_keeps_draft (fun (_ : Unit) _ => ⟨[], true⟩) _ out s hrun hs hpos).2 1 ()
  rw [hcount] at hout
  exact ⟨out, s, out', s', hrun, hs, hout, hs', hback.trans hline⟩

end Shell
end SolOs
