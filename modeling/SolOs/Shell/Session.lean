import SolOs.Keyboard.Physical
import SolOs.Shell.Input

/-!
# A session at the keyboard

The interrupt handler and the shell loop run interleaved, but what is executed does not depend on how:
the events that the handler pushes are those of the scancodes, the shell takes them in order, and whether
a command returns does not depend on the time at which it runs.

* `Session`                 what a run of the machine has to do with its scancodes; `Machine.session_step`: every
                            access keeps it;
* `outputOf`                what the shell prints in a run;
* `Handled`                 a sequence of events that explains the state of the shell and its output;
                            `handled_run`: every run has one;
* `same_keys_same_lines`    **the same keys run the same commands, in every interleaving**;
* `keystroke`, `typing`     the scancodes of a text;
* `typed_lines_run`         **typed lines are executed as they are.**
-/

set_option linter.unusedVariables false

namespace SolOs
namespace Shell
open Checked Keyboard
open Console (ConsoleOp)

/-! ## scancodes and events -/

def Input.byte : Input → Option UInt8
  | .scancode byte => some byte
  | .producer | .consumer _ => none

/-- the bytes that the keyboard sends in a run -/
def scancodes (inputs : List Input) : List UInt8 := inputs.filterMap Input.byte

theorem scancodes_snoc (inputs : List Input) (input : Input) :
    scancodes (inputs ++ [input]) = scancodes inputs ++ input.byte.toList := by
  unfold scancodes
  rw [List.filterMap_append, List.filterMap_cons]
  cases input.byte with
  | none => rfl
  | some byte => rfl

theorem feed_append (d : Decoder) (xs ys : List UInt8) :
    feed d (xs ++ ys) = ((feed (feed d xs).1 ys).1, (feed d xs).2 ++ (feed (feed d xs).1 ys).2) := by
  induction xs generalizing d with
  | nil => rfl
  | cons x xs ih =>
    simp only [List.cons_append, feed, ih, List.append_assoc]

/-! ## one more event -/

section
variable {ω : Type} {exec : ω → List UInt8 → Executed}

theorem runAll_snoc {s s' : State} {events : List (ω × KeyEvent)} {out : Outcome} {now : ω} {event : KeyEvent}
    {turn : Turn} (h : runAll exec s events = .ok out) (hs : out.final = some s')
    (hturn : step (exec now) s' event = .ok turn) :
    runAll exec s (events ++ [(now, event)])
      = .ok ⟨turn.next, out.ops ++ turn.ops, out.inputs ++ turn.input.toList⟩ := by
  induction events generalizing s out with
  | nil =>
    obtain rfl := Except.ok.inj h
    obtain rfl := Option.some.inj hs
    rw [List.nil_append, runAll, hturn, bind_ok]
    cases turn.next with
    | none => rfl
    | some s₁ => simp [runAll, pure_eq, bind_ok]
  | cons first events ih =>
    obtain ⟨now₀, event₀⟩ := first
    rw [runAll] at h
    obtain ⟨turn₀, hturn₀, h⟩ := bind_eq_ok.mp h
    rw [List.cons_append, runAll, hturn₀, bind_ok]
    cases hnext : turn₀.next with
    | none =>
      rw [hnext] at h
      obtain rfl := Except.ok.inj h
      cases hs
    | some s₁ =>
      rw [hnext] at h
      obtain ⟨out₁, hout₁, h⟩ := bind_eq_ok.mp h
      obtain rfl := Except.ok.inj h
      have hrest := ih hout₁ hs
      simp only [hrest, bind_ok, pure_eq, List.append_assoc]

end

/-! ## what an access leaves alone -/

section
variable {fs : Fat.Fat32} {system : SystemInfo}

/-- the handler adds to the queue and leaves the other side alone -/
structure Adds (m m' : Machine) : Prop where
  shell : m'.shell = m.shell
  inputs : m'.inputs = m.inputs
  pop : m'.queue.pop = m.queue.pop
  returned : m'.queue.returned = m.queue.returned
  accepted : (accepted m.queue.done).length ≤ (accepted m'.queue.done).length

theorem scancode_adds {m m' : Machine} {byte : UInt8} (hm : m.scancode byte = some m') : Adds m m' := by
  obtain ⟨decoder, ⟨q, pu, po, dn, re⟩, shell, inputs⟩ := m
  cases pu with
  | idle =>
    unfold Machine.scancode at hm
    dsimp only at hm
    cases hd : handleScancode decoder byte with
    | mk decoder' event =>
      rw [hd] at hm
      cases event with
      | none =>
        obtain rfl := Option.some.inj hm
        exact ⟨rfl, rfl, rfl, rfl, le_rfl⟩
      | some event =>
        obtain rfl := Option.some.inj hm
        exact ⟨rfl, rfl, rfl, rfl, le_rfl⟩
  | loadTail _ _ => cases hm
  | fetchAdd _ _ => cases hm
  | writeSlot _ _ _ => cases hm
  | storeHead _ _ => cases hm
  | panicked => cases hm

theorem producer_adds {m : Machine} {queue : Keyboard.Sys} (hq : m.queue.producer = some queue) :
    Adds m { m with queue := queue } := by
  obtain ⟨decoder, ⟨q, pu, po, dn, re⟩, shell, inputs⟩ := m
  cases pu with
  | idle => cases hq
  | loadTail event head =>
    simp only [Sys.producer] at hq
    split at hq <;> cases hq <;> exact ⟨rfl, rfl, rfl, rfl, le_rfl⟩
  | fetchAdd event pending =>
    obtain rfl := Option.some.inj hq
    refine ⟨rfl, rfl, rfl, rfl, ?_⟩
    rw [accepted_append_dropped]
  | writeSlot event head next =>
    simp only [Sys.producer] at hq
    split at hq <;> cases hq <;> exact ⟨rfl, rfl, rfl, rfl, le_rfl⟩
  | storeHead event next =>
    obtain rfl := Option.some.inj hq
    refine ⟨rfl, rfl, rfl, rfl, ?_⟩
    rw [accepted_append_accepted, List.length_append]
    exact Nat.le_add_right _ _
  | panicked => cases hq

/-- the shell leaves the other side of the queue alone -/
theorem consumer_frame {q q' : Keyboard.Sys} (hq : q.consumer = some q') :
    q'.done = q.done ∧ q'.push = q.push := by
  obtain ⟨q, pu, po, dn, re⟩ := q
  cases po with
  | idle | storeTail _ _ =>
    obtain rfl := Option.some.inj hq
    exact ⟨rfl, rfl⟩
  | loadHead _ | readSlot _ =>
    simp only [Sys.consumer] at hq
    split at hq <;> cases hq <;> exact ⟨rfl, rfl⟩
  | panicked => cases hq

/-- an access of the shell to the queue leaves the decoder alone -/
theorem Machine.consumer_frame {m m' : Machine} {now : Readings} (hm : m.consumer fs system now = some m') :
    m.queue.consumer = some m'.queue ∧ m'.decoder = m.decoder := by
  unfold Machine.consumer at hm
  cases hs : m.shell with
  | waiting s =>
    rw [hs] at hm
    obtain ⟨queue, hqueue, rfl⟩ := Option.map_eq_some_iff.mp hm
    rw [hqueue]
    cases m.queue.pop with
    | storeTail tail event =>
      dsimp only
      unfold Machine.handle
      cases Shell.step (execute fs system now) s event with
      | error f => exact ⟨rfl, rfl⟩
      | ok turn => exact ⟨rfl, rfl⟩
    | idle | loadHead _ | readSlot _ | panicked => exact ⟨rfl, rfl⟩
  | stopped | panicked =>
    rw [hs] at hm
    cases hm

end

/-! ## lost events -/

/-- an event is dropped only after 255 were accepted -/
def Late (q : Keyboard.Sys) : Prop :=
  (dropped q.done ≠ [] ∨ ∃ event pending, q.push = .fetchAdd event pending) → 255 ≤ (accepted q.done).length

theorem producer_late {q q' : Keyboard.Sys} (hinv : q.Inv) (h : Late q) (hq : q.producer = some q') :
    Late q' := by
  obtain ⟨q, pu, po, dn, re⟩ := q
  cases pu with
  | idle => cases hq
  | loadTail event head =>
    simp only [Sys.producer] at hq
    have hhead : head = q.head := hinv.push
    split at hq
    · rename_i hfull
      obtain rfl := Option.some.inj hq
      intro _
      rw [hhead] at hfull
      have hpending : (accepted dn).length - re.length = 255 := hinv.full_iff.mp hfull
      show 255 ≤ (accepted dn).length
      omega
    · obtain rfl := Option.some.inj hq
      intro hlost
      obtain hd | ⟨_, _, hp⟩ := hlost
      · exact h (.inl hd)
      · cases hp
  | fetchAdd event pending =>
    obtain rfl := Option.some.inj hq
    intro _
    show 255 ≤ (accepted (dn ++ [(event, .dropped pending)])).length
    rw [accepted_append_dropped]
    exact h (.inr ⟨event, pending, rfl⟩)
  | writeSlot event head next =>
    simp only [Sys.producer] at hq
    split at hq
    all_goals
      obtain rfl := Option.some.inj hq
      intro hlost
      obtain hd | ⟨_, _, hp⟩ := hlost
      · exact h (.inl hd)
      · cases hp
  | storeHead event next =>
    obtain rfl := Option.some.inj hq
    intro hlost
    show 255 ≤ (accepted (dn ++ [(event, .accepted)])).length
    rw [accepted_append_accepted, List.length_append]
    obtain hd | ⟨_, _, hp⟩ := hlost
    · rw [dropped_append_accepted] at hd
      exact (h (.inl hd)).trans (Nat.le_add_right _ _)
    · cases hp
  | panicked => cases hq

theorem consumer_late {q q' : Keyboard.Sys} (h : Late q) (hq : q.consumer = some q') : Late q' := by
  obtain ⟨hdone, hpush⟩ := consumer_frame hq
  unfold Late at h ⊢
  rwa [hdone, hpush]

theorem late_step (q : Keyboard.Sys) (act : Act) (q' : Keyboard.Sys) (h : q.Inv ∧ Late q)
    (hq : q.step act = some q') : q'.Inv ∧ Late q' := by
  refine ⟨Sys.inv_step q act q' h.1 hq, ?_⟩
  cases act with
  | push event =>
    obtain ⟨q, pu, po, dn, re⟩ := q
    cases pu <;> cases hq
    intro hlost
    obtain hd | ⟨_, _, hp⟩ := hlost
    · exact h.2 (.inl hd)
    · cases hp
  | producer => exact producer_late h.1 h.2 hq
  | consumer => exact consumer_late h.2 hq

/-! ## what a run has to do with its scancodes -/

structure Session (bytes : List UInt8) (m : Machine) : Prop where
  inv : m.Inv
  decoder : m.decoder = (feed .new bytes).1
  pushed : m.queue.pushed = (feed .new bytes).2
  late : Late m.queue

section
variable {fs : Fat.Fat32} {system : SystemInfo} {m m' : Machine} {bytes : List UInt8}

theorem session_init : Session [] Machine.init where
  inv := Machine.inv_init
  decoder := rfl
  pushed := rfl
  late := by
    intro hlost
    obtain hd | ⟨_, _, hp⟩ := hlost
    · exact absurd rfl hd
    · cases hp

/-- a byte from the keyboard: its event, if there is one, is pushed next -/
theorem Session.scancode (h : Session bytes m) {byte : UInt8} (hm : m.scancode byte = some m') :
    Session (bytes ++ [byte]) m' := by
  have hinv := h.inv.scancode hm
  have hfeed : feed .new (bytes ++ [byte]) = ((handleScancode m.decoder byte).1,
      m.queue.pushed ++ (handleScancode m.decoder byte).2.toList) := by
    rw [feed_append, feed_singleton, h.decoder, h.pushed]
  unfold Machine.scancode at hm
  split at hm
  · rename_i hidle
    cases hcode : handleScancode m.decoder byte with
    | mk decoder event =>
      rw [hcode] at hm hfeed
      cases event with
      | none =>
        obtain rfl := Option.some.inj hm
        refine ⟨hinv, ?_, ?_, h.late⟩
        · rw [hfeed]
        · rw [hfeed]
          exact (List.append_nil _).symm
      | some event =>
        obtain ⟨queue, hq, rfl⟩ := Option.map_eq_some_iff.mp hm
        refine ⟨hinv, ?_, ?_, (late_step _ _ _ ⟨h.inv.queue, h.late⟩ hq).2⟩
        · rw [hfeed]
        · rw [hfeed]
          exact Sys.pushed_step _ _ _ h.inv.queue hq
  · cases hm

theorem Session.producer (h : Session bytes m) {queue : Keyboard.Sys}
    (hq : m.queue.producer = some queue) : Session bytes { m with queue := queue } where
  inv := h.inv.withQueue .producer hq rfl
  decoder := h.decoder
  pushed := by
    rw [← h.pushed]
    exact (Sys.pushed_step _ .producer _ h.inv.queue hq).trans (List.append_nil _)
  late := producer_late h.inv.queue h.late hq

theorem Session.consumer (h : Session bytes m) {now : Readings}
    (hm : m.consumer fs system now = some m') : Session bytes m' := by
  obtain ⟨hq, hdecoder⟩ := Machine.consumer_frame hm
  refine ⟨h.inv.consumer hm, hdecoder.trans h.decoder, ?_, consumer_late h.late hq⟩
  rw [← h.pushed]
  exact (Sys.pushed_step _ .consumer _ h.inv.queue hq).trans (List.append_nil _)

/-- the step lemma -/
theorem Machine.session_step {input : Input} (h : Session bytes m)
    (hm : m.step fs system input = some m') : Session (bytes ++ input.byte.toList) m' := by
  cases input with
  | scancode byte => exact h.scancode hm
  | producer =>
    obtain ⟨queue, hq, rfl⟩ := Option.map_eq_some_iff.mp hm
    rw [show Input.producer.byte.toList = [] from rfl, List.append_nil]
    exact h.producer hq
  | consumer now =>
    rw [show (Input.consumer now).byte.toList = [] from rfl, List.append_nil]
    exact h.consumer hm

/-- the run lemma -/
theorem session_run {inputs : List Input} (h : Steps.run (Machine.step fs system) Machine.init inputs = some m) :
    Session (scancodes inputs) m := by
  have halong : ∀ pre post t, inputs = pre ++ post →
      Steps.run (Machine.step fs system) Machine.init pre = some t → Session (scancodes pre) t := by
    refine Steps.run_along (Machine.step fs system) (P := fun pre t => Session (scancodes pre) t)
      session_init ?_
    intro pre input post t u _ _ ht hu
    have hnext := Machine.session_step ht hu
    rwa [← scancodes_snoc] at hnext
  exact halong inputs [] m (List.append_nil inputs).symm h

end

/-! ## what the shell has handled -/

/-- the shell after some events -/
def Status.after : Option State → Status
  | some s => .waiting s
  | none => .stopped

section
variable (fs : Fat.Fat32) (system : SystemInfo)

/-- what the shell prints after an access -/
def Machine.output (m : Machine) : Input → List ConsoleOp
  | .consumer now =>
    match m.shell, m.queue.pop with
    | .waiting s, .storeTail _ event =>
      match Shell.step (execute fs system now) s event with
      | .ok turn => turn.ops
      | .error _ => []
    | _, _ => []
  | .scancode _ | .producer => []

def outputOf (inputs : List Input) : List ConsoleOp :=
  Steps.emitted (Machine.step fs system) (Machine.output fs system) Machine.init inputs

/-- the events that were returned to the shell explain its state and its output -/
def Handled (ops : List ConsoleOp) (m : Machine) : Prop :=
  ∃ (events : List (Readings × KeyEvent)) (out : Outcome), events.map Prod.snd = m.queue.returned ∧
    runAll (execute fs system) .new events = .ok out ∧ out.ops = ops ∧ m.inputs = out.inputs ∧
    m.shell = Status.after out.final

end

section
variable {fs : Fat.Fat32} {system : SystemInfo} {m m' : Machine} {ops : List ConsoleOp}

/-- what an access adds to the events that were returned -/
def returns (pop : PopPc) : List KeyEvent :=
  match pop with
  | .storeTail _ event => [event]
  | _ => []

theorem returned_consumer {q q' : Keyboard.Sys} (h : q.consumer = some q') :
    q'.returned = q.returned ++ returns q.pop := by
  obtain ⟨q, pu, po, dn, re⟩ := q
  cases po with
  | idle =>
    cases h
    exact (List.append_nil _).symm
  | loadHead tail =>
    simp only [Sys.consumer] at h
    split at h <;> cases h <;> exact (List.append_nil _).symm
  | readSlot tail =>
    simp only [Sys.consumer] at h
    split at h <;> cases h <;> exact (List.append_nil _).symm
  | storeTail tail event =>
    cases h
    rfl
  | panicked => cases h

/-- an access that returns nothing to the shell -/
theorem Handled.keep (h : Handled fs system ops m) (hreturned : m'.queue.returned = m.queue.returned)
    (hinputs : m'.inputs = m.inputs) (hshell : m'.shell = m.shell) : Handled fs system (ops ++ []) m' := by
  obtain ⟨events, out, hevents, hrun, hops, hlines, hfinal⟩ := h
  exact ⟨events, out, hevents.trans hreturned.symm, hrun, hops.trans (List.append_nil _).symm,
    hinputs.trans hlines, hshell.trans hfinal⟩

/-- `pop` returns an event to the shell -/
theorem Handled.handle (h : Handled fs system ops m) {s : State} (hs : m.shell = .waiting s) (now : Readings)
    (event : KeyEvent) {turn : Turn} (hturn : step (execute fs system now) s event = .ok turn)
    {queue : Keyboard.Sys} (hq : queue.returned = m.queue.returned ++ [event]) :
    Handled fs system (ops ++ turn.ops) (Machine.handle fs system { m with queue := queue } s now event) := by
  obtain ⟨events, out, hevents, hrun, rfl, hlines, hfinal⟩ := h
  have hwaiting : out.final = some s := by
    rw [hs] at hfinal
    cases hout : out.final with
    | none =>
      rw [hout] at hfinal
      cases hfinal
    | some s' =>
      rw [hout] at hfinal
      cases hfinal
      rfl
  unfold Machine.handle
  rw [hturn]
  refine ⟨events ++ [(now, event)], _, ?_, runAll_snoc hrun hwaiting hturn, rfl, ?_, ?_⟩
  · rw [List.map_append, hevents]
    exact hq.symm
  · exact congrArg (· ++ turn.input.toList) hlines
  · dsimp only
    cases turn.next with
    | none => rfl
    | some s' => rfl

/-- the step lemma -/
theorem Handled.step (h : Handled fs system ops m) (hinv : m.Inv) {input : Input}
    (hm : m.step fs system input = some m') :
    Handled fs system (ops ++ m.output fs system input) m' := by
  cases input with
  | scancode byte =>
    have hadds := scancode_adds hm
    exact h.keep hadds.returned hadds.inputs hadds.shell
  | producer =>
    obtain ⟨queue, hq, rfl⟩ := Option.map_eq_some_iff.mp hm
    exact h.keep (producer_adds hq).returned rfl rfl
  | consumer now =>
    cases hs : m.shell with
    | waiting s =>
      have hm : m.consumer fs system now = some m' := hm
      unfold Machine.consumer at hm
      rw [hs] at hm
      obtain ⟨queue, hq, rfl⟩ := Option.map_eq_some_iff.mp hm
      have hreturned := returned_consumer hq
      unfold Machine.output
      rw [hs]
      cases hpop : m.queue.pop with
      | storeTail tail event =>
        have hok := hinv.shell
        rw [hs] at hok
        obtain ⟨turn, hturn, _⟩ := step_follows (execute fs system now) hok.1 event
        dsimp only
        rw [hturn]
        rw [hpop] at hreturned
        exact h.handle hs now event hturn hreturned
      | _ =>
        rw [hpop] at hreturned
        exact h.keep (hreturned.trans (List.append_nil _)) rfl hs.symm
    | _ =>
      have hm : m.consumer fs system now = some m' := hm
      unfold Machine.consumer at hm
      rw [hs] at hm
      cases hm

/-- **every run has an explanation** -/
theorem handled_run {inputs : List Input} (h : Steps.run (Machine.step fs system) Machine.init inputs = some m) :
    Handled fs system (outputOf fs system inputs) m := by
  have halong : ∀ pre post t, inputs = pre ++ post →
      Steps.run (Machine.step fs system) Machine.init pre = some t →
      Handled fs system (outputOf fs system pre) t := by
    refine Steps.run_along (Machine.step fs system) (P := fun pre t => Handled fs system (outputOf fs system pre) t)
      ⟨[], ⟨some .new, [], []⟩, rfl, rfl, rfl, rfl, rfl⟩ ?_
    intro pre input post t u _ hrun ht hu
    have hnext := ht.step (session_run hrun).inv hu
    unfold outputOf
    rwa [Steps.emitted_snoc _ _ hrun]
  exact halong inputs [] m (List.append_nil inputs).symm h

end

/-! ## the lines that are executed -/

section
variable (fs : Fat.Fat32) (system : SystemInfo)

/-- whether a command line returns -/
def runs (input : List UInt8) : Bool := (execute fs system ⟨0, 0, 0, 0⟩ input).returns

/-- the readings of the clocks are only printed -/
theorem execute_returns (now : Readings) (input : List UInt8) :
    (execute fs system now input).returns = runs fs system input := by
  simp only [runs, execute]
  cases Text.fromUtf8 input with
  | none => rfl
  | some text =>
    simp only [runCommand, apply_ite Executed.returns]
    rfl

/-- the editor after some events, which come at any time -/
def edited (events : List KeyEvent) : Option Edit × List (List UInt8) :=
  Edit.runAll (fun _ : Unit => runs fs system) .new (events.map ((), ·))

end

/-- what the shell has to do with the abstract editor -/
def Status.edit : Status → Option Edit
  | .waiting s => some (abs s)
  | .stopped | .panicked => none

/-- the times at which the events come are only printed -/
theorem Edit.runAll_times {ω : Type} (returns : List UInt8 → Bool) (e : Edit) (events : List (ω × KeyEvent)) :
    Edit.runAll (fun _ => returns) e events
      = Edit.runAll (fun _ : Unit => returns) e ((events.map Prod.snd).map ((), ·)) := by
  induction events generalizing e with
  | nil => rfl
  | cons first events ih =>
    rw [List.map_cons, List.map_cons, Edit.runAll, Edit.runAll]
    split
    · rfl
    · rw [ih]

/-- nothing was lost, and the shell has taken everything from the queue -/
structure Machine.Settled (m : Machine) : Prop where
  kept : dropped m.queue.done = []
  idle : m.queue.push = .idle
  drained : m.queue.returned.length = (accepted m.queue.done).length

theorem accepted_of_kept {done : List (KeyEvent × Keyboard.Outcome)} (h : dropped done = []) :
    accepted done = done.map Prod.fst := by
  induction done with
  | nil => rfl
  | cons p done ih =>
    obtain ⟨event, outcome⟩ := p
    cases outcome with
    | accepted => exact congrArg (event :: ·) (ih h)
    | dropped pending => cases h

section
variable {fs : Fat.Fat32} {system : SystemInfo} {m : Machine} {bytes : List UInt8}

theorem Handled.edit_eq {ops : List ConsoleOp} (h : Handled fs system ops m) :
    (m.shell.edit, m.inputs) = edited fs system m.queue.returned := by
  obtain ⟨events, out, hevents, hrun, _, hlines, hshell⟩ := h
  obtain ⟨out', hrun', hedit⟩ := runAll_follows (execute fs system) State.new_ok events
  obtain rfl : out = out' := Except.ok.inj (hrun.symm.trans hrun')
  have hreturns : returning (execute fs system) = fun _ => runs fs system :=
    funext fun now => funext fun input => execute_returns fs system now input
  rw [hreturns, Edit.runAll_times, hevents] at hedit
  rw [edited, hlines, hshell]
  refine Eq.trans ?_ hedit
  cases out.final with
  | none => rfl
  | some s => rfl

theorem Session.returned_eq (h : Session bytes m) (hs : m.Settled) :
    m.queue.returned = (feed .new bytes).2 := by
  have hall := h.inv.queue.order.eq_of_length hs.drained
  rw [hall, accepted_of_kept hs.kept, ← h.pushed, Sys.pushed, hs.idle]
  exact (List.append_nil _).symm

end

/-- **the same keys run the same commands, in every interleaving.**  When the handler and the shell have
dealt with everything that the keyboard sent, and no event was dropped, the lines that were executed and
the state of the editor are those of the decoded scancodes; how the accesses were interleaved and when the
commands ran has no influence. -/
theorem same_keys_same_lines (fs : Fat.Fat32) (system : SystemInfo) (inputs : List Input) (m : Machine)
    (h : Steps.run (Machine.step fs system) Machine.init inputs = some m) (hs : m.Settled) :
    (m.shell.edit, m.inputs) = edited fs system (feed .new (scancodes inputs)).2 := by
  rw [(handled_run h).edit_eq, (session_run h).returned_eq hs]

theorem same_keys_same_lines_capitalA :
    ∃ m, Steps.run (Machine.step noVolume ⟨0, 0⟩) Machine.init capitalA = some m ∧ m.Settled ∧
      (m.shell.edit, m.inputs) = (some ⟨[0x41], [], [], none, []⟩, []) := by
  have hrun : (Steps.run (Machine.step noVolume ⟨0, 0⟩) Machine.init capitalA).isSome = true := rfl
  obtain ⟨m, hm⟩ := Option.isSome_iff_exists.mp hrun
  have hs : m.Settled := by
    obtain rfl := Option.some.inj hm
    exact ⟨rfl, rfl, rfl⟩
  exact ⟨m, hm, hs, same_keys_same_lines noVolume ⟨0, 0⟩ capitalA m hm hs⟩

/-! ## typing -/

/-- the code of the key for a byte, and whether Shift is needed -/
def keyFor (byte : UInt8) : Option (UInt8 × Bool) :=
  if byte = byteOf ' ' then some (0x39, false)
  else
    ((symbolKeys.find? fun key => byteOf key.2.1 = byte).map fun key => (key.1, false)) <|>
    ((symbolKeys.find? fun key => byteOf key.2.2 = byte).map fun key => (key.1, true)) <|>
    ((letterKeys.find? fun key => byteOf key.2 = byte).map fun key => (key.1, false)) <|>
    ((letterKeys.find? fun key => byteOf key.2.toUpper = byte).map fun key => (key.1, true))

/-- the key goes down and up, with the left Shift key around it where it is needed -/
def keystroke (byte : UInt8) : List UInt8 :=
  match keyFor byte with
  | some (code, false) => [code, code ||| 0x80]
  | some (code, true) => [0x2a, code, code ||| 0x80, 0xaa]
  | none => []

/-- lines, each with Enter at its end -/
def typing (lines : List (List UInt8)) : List UInt8 :=
  lines.flatMap fun line => line.flatMap keystroke ++ [0x1c, 0x9c]

/-- the events of typed lines -/
def lineEvents (line : List UInt8) : List KeyEvent := line.map .character ++ [.enter]

/-- **the decoder undoes the keystroke** -/
theorem feed_keystroke_table :
    (List.range 256).all (fun n => !decide (Printable (UInt8.ofNat n)) ||
      decide (feed .new (keystroke (UInt8.ofNat n)) = (.new, [.character (UInt8.ofNat n)]))) = true := by
  decide +kernel

theorem feed_keystroke {byte : UInt8} (h : Printable byte) :
    feed .new (keystroke byte) = (.new, [.character byte]) := by
  have hbyte := List.all_eq_true.mp feed_keystroke_table byte.toNat (List.mem_range.mpr byte.toNat_lt)
  rw [UInt8.ofNat_toNat, decide_eq_true h] at hbyte
  exact of_decide_eq_true hbyte

theorem feed_line {line : List UInt8} (h : AllPrintable line) (rest : List UInt8) :
    feed .new (line.flatMap keystroke ++ rest)
      = ((feed .new rest).1, line.map .character ++ (feed .new rest).2) := by
  induction line with
  | nil => rfl
  | cons byte line ih =>
    obtain ⟨hbyte, hline⟩ := List.forall_mem_cons.mp h
    rw [List.flatMap_cons, List.append_assoc, feed_append, feed_keystroke hbyte, ih hline]
    rfl

/-- **the decoder undoes the typing** -/
theorem feed_typing {lines : List (List UInt8)} (h : ∀ line ∈ lines, AllPrintable line) :
    feed .new (typing lines) = (.new, lines.flatMap lineEvents) := by
  induction lines with
  | nil => rfl
  | cons line lines ih =>
    obtain ⟨hline, hlines⟩ := List.forall_mem_cons.mp h
    have henter : feed .new [0x1c, 0x9c] = (.new, [.enter]) := rfl
    rw [typing, List.flatMap_cons, List.append_assoc, feed_line hline, feed_append, henter,
      show lines.flatMap _ = typing lines from rfl, ih hlines, List.flatMap_cons, lineEvents, List.append_assoc]

/-! ### the editor -/

section
variable (returns : List UInt8 → Bool)

/-- a character at the end of a line with room for it -/
theorem Edit.step_character {hist : List (List UInt8)} {draft before : List UInt8} (byte : UInt8)
    (hroom : before.length < 80) :
    Edit.step returns ⟨before, [], hist, none, draft⟩ (.character byte)
      = (some ⟨before ++ [byte], [], hist, none, draft⟩, none) := by
  have hlt : (Edit.line ⟨before, [], hist, none, draft⟩).length < 80 := by
    show (before ++ []).length < 80
    rwa [List.append_nil]
  rw [Edit.step, if_pos hlt]

theorem Edit.step_enter (line : List UInt8) (hist : List (List UInt8)) (draft : List UInt8) :
    Edit.step returns ⟨line, [], hist, none, draft⟩ .enter
      = (if returns line then some ⟨[], [], CommandHistory.record hist line, none, draft⟩ else none, some line) := by
  simp only [Edit.step, Edit.line, List.append_nil]

theorem Edit.runAll_line {hist : List (List UInt8)} {draft : List UInt8} (before line : List UInt8)
    (hroom : before.length + line.length ≤ 80) (rest : List (Unit × KeyEvent)) :
    Edit.runAll (fun _ => returns) ⟨before, [], hist, none, draft⟩
        (line.map (fun byte => ((), .character byte)) ++ rest)
      = Edit.runAll (fun _ => returns) ⟨before ++ line, [], hist, none, draft⟩ rest := by
  induction line generalizing before with
  | nil => rw [List.map_nil, List.nil_append, List.append_nil]
  | cons byte line ih =>
    rw [List.length_cons] at hroom
    rw [List.map_cons, List.cons_append, Edit.runAll, Edit.step_character returns byte (by omega)]
    dsimp only
    rw [ih (before ++ [byte]) (by rw [List.length_append, List.length_singleton]; omega), List.append_assoc]
    rfl

/-- typed lines are executed one after the other, also when the last one does not return -/
theorem Edit.runAll_lines {hist : List (List UInt8)} {draft : List UInt8} (lines : List (List UInt8))
    (hroom : ∀ line ∈ lines, line.length ≤ 80) (hreturns : ∀ line ∈ lines.dropLast, returns line = true) :
    (Edit.runAll (fun _ => returns) ⟨[], [], hist, none, draft⟩
      ((lines.flatMap lineEvents).map ((), ·))).2 = lines := by
  induction lines generalizing hist with
  | nil => rfl
  | cons line lines ih =>
    obtain ⟨hline, hlines⟩ := List.forall_mem_cons.mp hroom
    have hline' : List.length ([] : List UInt8) + line.length ≤ 80 := by simpa using hline
    rw [List.flatMap_cons, List.map_append, lineEvents, List.map_append, List.map_map, List.append_assoc,
      show ((fun x => ((), x)) ∘ KeyEvent.character : UInt8 → Unit × KeyEvent)
        = fun byte => ((), .character byte) from rfl, Edit.runAll_line returns [] line hline', List.nil_append,
      List.map_singleton, List.singleton_append, Edit.runAll]
    rw [Edit.step_enter]
    cases lines with
    | nil => cases returns line <;> rfl
    | cons next lines =>
      rw [List.dropLast_cons_cons] at hreturns
      obtain ⟨hfirst, hrest⟩ := List.forall_mem_cons.mp hreturns
      rw [if_pos hfirst]
      exact congrArg (line :: ·) (ih hlines hrest)

end

/-! ### what was typed is executed -/

theorem length_lineEvents (lines : List (List UInt8)) :
    (lines.flatMap lineEvents).length = (lines.map fun line => line.length + 1).sum := by
  rw [List.length_flatMap]
  congr 1
  apply List.map_congr_left
  intro line _
  rw [lineEvents, List.length_append, List.length_map, List.length_singleton]

/-- a queue that never held 255 events has dropped none -/
theorem Session.kept_of_few {m : Machine} {bytes : List UInt8} (h : Session bytes m)
    (hfew : (feed .new bytes).2.length ≤ 255) : dropped m.queue.done = [] := by
  by_contra hlost
  have haccepted := h.late (.inl hlost)
  have hdone := done_length m.queue.done
  have hdropped := List.length_pos_iff.mpr hlost
  rw [← h.pushed, Sys.pushed, List.length_append, List.length_map] at hfew
  omega

/-- **typed lines are executed as they are.**  Lines of at most 80 printable characters are typed one after
the other, each with Enter at its end.  However the handler and the shell loop are interleaved, when both
have come to rest the shell has executed exactly these lines, in order; either no event was dropped, or
there are so few of them that none can be.  All lines but the last have to return. -/
theorem typed_lines_run (fs : Fat.Fat32) (system : SystemInfo) (lines : List (List UInt8))
    (hprintable : ∀ line ∈ lines, AllPrintable line) (hroom : ∀ line ∈ lines, line.length ≤ 80)
    (hreturns : ∀ line ∈ lines.dropLast, runs fs system line = true) (inputs : List Input) (m : Machine)
    (h : Steps.run (Machine.step fs system) Machine.init inputs = some m)
    (hkeys : scancodes inputs = typing lines) (hidle : m.queue.push = .idle)
    (hdrained : m.queue.returned.length = (accepted m.queue.done).length)
    (hkept : dropped m.queue.done = [] ∨ (lines.map fun line => line.length + 1).sum ≤ 255) :
    m.inputs = lines := by
  have hsession := session_run h
  have hevents : (feed .new (scancodes inputs)).2 = lines.flatMap lineEvents := by
    rw [hkeys, feed_typing hprintable]
  have hs : m.Settled := by
    refine ⟨?_, hidle, hdrained⟩
    obtain hkept | hfew := hkept
    · exact hkept
    · apply hsession.kept_of_few
      rwa [hevents, length_lineEvents]
  have hedit := (handled_run h).edit_eq
  rw [hsession.returned_eq hs, hevents] at hedit
  exact (congrArg Prod.snd hedit).trans (Edit.runAll_lines _ lines hroom hreturns)

/-- `Hi` and Enter, one access after the other -/
def typedHi : List Input :=
  (typing [[0x48, 0x69]]).flatMap fun byte =>
    .scancode byte :: if byte = 0x23 ∨ byte = 0x17 ∨ byte = 0x1c then
      List.replicate 3 .producer ++ List.replicate 4 (.consumer ⟨0, 0, 0, 0⟩) else []

theorem typed_lines_run_typedHi :
    ∃ m, Steps.run (Machine.step noVolume ⟨0, 0⟩) Machine.init typedHi = some m ∧ m.inputs = [[0x48, 0x69]] := by
  have hrun : (Steps.run (Machine.step noVolume ⟨0, 0⟩) Machine.init typedHi).isSome = true := rfl
  obtain ⟨m, hm⟩ := Option.isSome_iff_exists.mp hrun
  have hrest : m.queue.push = .idle ∧ m.queue.returned.length = (accepted m.queue.done).length := by
    obtain rfl := Option.some.inj hm
    exact ⟨rfl, rfl⟩
  refine ⟨m, hm, typed_lines_run noVolume ⟨0, 0⟩ [[0x48, 0x69]] ?_ ?_ ?_ typedHi m hm rfl hrest.1 hrest.2
    (.inr (by decide))⟩
  · intro line hline
    rw [List.mem_singleton.mp hline]
    simp [AllPrintable, Printable]
  · intro line hline
    rw [List.mem_singleton.mp hline]
    decide
  · exact fun line hline => absurd hline List.not_mem_nil

end Shell
end SolOs
