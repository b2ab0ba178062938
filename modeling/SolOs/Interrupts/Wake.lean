import SolOs.Interrupts.Cpu

/-!
# Waking up

The shell halts the processor when the queue is empty.  Interrupts are enabled while it looks, so a key may
come between its last look and the `hlt`; then the event stays in the queue while the processor is halted,
until the next interrupt, of whatever device.

* `Rests`              the machine is off, or it is halted and the shell has taken every event;
* `drains`             the shell takes the events from the queue one by one, then halts;
* `halted_wakes`       **a halted machine misses at most the keys since its last look, and the next tick of
                       the timer brings them to the shell.**
-/

set_option linter.unusedVariables false

namespace SolOs
namespace Interrupts
open Pic8259 Keyboard Steps

/-- what a step of the program may find: the clocks, and the data port of the keyboard controller -/
def proceed (found : Shell.Readings × UInt8) : Event := .proceed found.1 found.2

/-- the processor takes an interrupt -/
def taking (c : Cpu) : List Event := if c.sampled then [.acknowledge] else [.accept, .acknowledge]

def Rests (c : Cpu) : Prop :=
  c.main = .off ∨ c.main = .halted ∧ c.frames = [] ∧ c.shell.queue.returned = accepted c.shell.queue.done

/-- the shell is at work, and no interrupt is -/
structure Working (c : Cpu) : Prop where
  main : c.main = .shell
  frames : c.frames = []
  sampled : c.sampled = false

/-- the queue after an access of the shell that does not return an event -/
def Cpu.onQueue (c : Cpu) (queue : Keyboard.Sys) : Cpu := { c with shell := { c.shell with queue := queue } }

section
variable {fs : Fat.Fat32} {system : Shell.SystemInfo} {c : Cpu}

/-- a step of the program, when no interrupt is about to be taken -/
theorem Cpu.step_proceed (hsampled : c.sampled = false) (found : Shell.Readings × UInt8) :
    c.step fs system (proceed found) = match c.frames with
      | (handler, flag) :: frames => c.handlerStep flag frames found.2 handler
      | [] => c.mainStep fs system found.1 := by
  unfold proceed Cpu.step
  dsimp only
  rw [hsampled]
  rfl

/-- an access that does not return an event -/
theorem consumer_of_queue {m : Shell.Machine} {s : Shell.State} (hs : m.shell = .waiting s)
    {queue : Keyboard.Sys} (hq : m.queue.consumer = some queue)
    (hreturn : ∀ tail event, m.queue.pop ≠ .storeTail tail event) (now : Shell.Readings) :
    m.consumer fs system now = some { m with queue := queue } := by
  obtain ⟨decoder, q, shell, inputs⟩ := m
  obtain rfl : shell = .waiting s := hs
  simp only [Shell.Machine.consumer]
  rw [show q.consumer = some queue from hq, Option.map_some]

theorem Working.step (h : Working c) (found : Shell.Readings × UInt8) :
    c.step fs system (proceed found) = (c.shell.consumer fs system found.1).map c.afterAccess := by
  rw [Cpu.step_proceed h.sampled, h.frames]
  dsimp only
  rw [Cpu.mainStep, h.main]

/-- an access that returns nothing, neither an event nor `None` -/
theorem Working.access (h : Working c) (hinv : c.Inv fs system) {queue : Keyboard.Sys}
    (hq : c.shell.queue.consumer = some queue) (hreturn : ∀ tail event, c.shell.queue.pop ≠ .storeTail tail event)
    (hnone : queue.pop ≠ .idle) (found : Shell.Readings × UInt8) :
    c.step fs system (proceed found) = some (c.onQueue queue) := by
  obtain ⟨s, hs⟩ := hinv.waiting (by simp [h.main])
  rw [h.step, consumer_of_queue hs hq hreturn, Option.map_some]
  obtain ⟨_, _, hidle, _⟩ | ⟨_, _, he⟩ | ⟨hstopped, _⟩ := c.afterAccess_cases { c.shell with queue := queue }
  · exact absurd hidle hnone
  · rw [he]
    rfl
  · exact absurd hs (hstopped s)

/-- `pop` returns `None` -/
theorem Working.none (h : Working c) (hinv : c.Inv fs system) {tail : Nat}
    (hpop : c.shell.queue.pop = .loadHead tail)
    (hall : c.shell.queue.returned.length = (accepted c.shell.queue.done).length)
    (found : Shell.Readings × UInt8) :
    c.step fs system (proceed found) = some
      { c.onQueue { c.shell.queue with pop := .idle } with
        main := .parking, looked := (accepted c.shell.queue.done).length } := by
  obtain ⟨s, hs⟩ := hinv.waiting (by simp [h.main])
  have htail : tail = c.shell.queue.q.tail := by
    have hok := hinv.shell.queue.pop
    rw [Keyboard.Sys.PopOk, hpop] at hok
    exact hok
  have hq : c.shell.queue.consumer = some { c.shell.queue with pop := .idle } := by
    simp only [Keyboard.Sys.consumer, hpop]
    rw [htail, if_pos (hinv.shell.queue.empty_iff.mpr hall)]
  rw [h.step, consumer_of_queue hs hq (by simp [hpop]), Option.map_some]
  unfold Cpu.afterAccess
  dsimp only
  rw [hpop]
  rfl

/-- `pop` returns an event: a command does not return, or the shell goes on with one event less -/
theorem Working.event (hinv : c.Inv fs system) (h : Working c) {tail : Nat} {event : KeyEvent}
    (hpop : c.shell.queue.pop = .storeTail tail event) (found : Shell.Readings × UInt8) :
    ∃ c', c.step fs system (proceed found) = some c' ∧
      (Rests c' ∨ Working c' ∧ c'.shell.queue.pop = .idle ∧ c'.shell.queue.done = c.shell.queue.done ∧
        c'.shell.queue.returned.length = c.shell.queue.returned.length + 1) := by
  obtain ⟨s, hs⟩ := hinv.waiting (by simp [h.main])
  have hsome : (c.shell.consumer fs system found.1).isSome = true := by
    simp only [Shell.Machine.consumer, Keyboard.Sys.consumer, hs, hpop]
    rfl
  obtain ⟨m, hm⟩ := Option.isSome_iff_exists.mp hsome
  refine ⟨c.afterAccess m, by rw [h.step, hm]; rfl, ?_⟩
  obtain ⟨_, hhead, _⟩ | ⟨s', _, he⟩ | ⟨_, he⟩ := c.afterAccess_cases m
  · cases hpop.symm.trans hhead
  · right
    rw [he]
    have hqueue := (Shell.Machine.consumer_frame hm).1
    simp only [Keyboard.Sys.consumer, hpop] at hqueue
    have hq := Option.some.inj hqueue
    refine ⟨⟨h.main, h.frames, h.sampled⟩, ?_, ?_, ?_⟩
    · show m.queue.pop = _
      rw [← hq]
    · show m.queue.done = _
      rw [← hq]
    · show m.queue.returned.length = _
      rw [← hq, List.length_append]
      rfl
  · left
    rw [he]
    exact .inl rfl

/-- a step that is always possible -/
theorem within_of_step {c' : Cpu} {bound : Nat} (hinv : c.Inv fs system)
    (hstep : ∀ found, c.step fs system (proceed found) = some c')
    (hrest : c'.Inv fs system → Within (Cpu.step fs system) proceed Rests bound c') :
    Within (Cpu.step fs system) proceed Rests (bound + 1) c := by
  apply within_succ
  intro found
  exact ⟨c', hstep found, hrest (Cpu.inv_step c _ c' hinv (hstep found))⟩

theorem parks (hinv : c.Inv fs system) (hmain : c.main = .parking) (hframes : c.frames = [])
    (hsampled : c.sampled = false) (hall : c.shell.queue.returned = accepted c.shell.queue.done) :
    Within (Cpu.step fs system) proceed Rests 1 c := by
  apply within_of_step hinv
  · intro found
    rw [Cpu.step_proceed hsampled, hframes]
    dsimp only
    rw [Cpu.mainStep, hmain]
  · intro _
    apply within_of_goal
    exact .inr ⟨rfl, hframes, hall⟩

/-- the first access of `pop` -/
theorem Working.look (h : Working c) (hinv : c.Inv fs system) (hpop : c.shell.queue.pop = .idle)
    (found : Shell.Readings × UInt8) :
    c.step fs system (proceed found)
      = some (c.onQueue { c.shell.queue with pop := .loadHead c.shell.queue.q.tail }) := by
  have hq : c.shell.queue.consumer = some { c.shell.queue with pop := .loadHead c.shell.queue.q.tail } := by
    rw [Keyboard.Sys.consumer, hpop]
  exact h.access hinv hq (by simp [hpop]) (by simp) found

/-- the second one finds an event -/
theorem Working.find (h : Working c) (hinv : c.Inv fs system)
    (hpop : c.shell.queue.pop = .loadHead c.shell.queue.q.tail)
    (hlt : c.shell.queue.returned.length < (accepted c.shell.queue.done).length)
    (found : Shell.Readings × UInt8) :
    c.step fs system (proceed found)
      = some (c.onQueue { c.shell.queue with pop := .readSlot c.shell.queue.q.tail }) := by
  have hne : c.shell.queue.q.tail ≠ c.shell.queue.q.head :=
    fun he => absurd (hinv.shell.queue.empty_iff.mp he) hlt.ne
  have hq : c.shell.queue.consumer = some { c.shell.queue with pop := .readSlot c.shell.queue.q.tail } := by
    rw [Keyboard.Sys.consumer, hpop]
    dsimp only
    rw [if_neg hne]
  exact h.access hinv hq (by simp [hpop]) (by simp) found

/-- the third one reads it -/
theorem Working.fetch (hinv : c.Inv fs system) (h : Working c)
    (hpop : c.shell.queue.pop = .readSlot c.shell.queue.q.tail) :
    ∃ event, ∀ found : Shell.Readings × UInt8, c.step fs system (proceed found)
      = some (c.onQueue { c.shell.queue with pop := .storeTail c.shell.queue.q.tail event }) := by
  have hlt : c.shell.queue.q.tail < inputQueueCapacity := by
    rw [hinv.shell.queue.tail]
    exact Nat.mod_lt _ capacity_pos
  have hq : c.shell.queue.consumer
      = some { c.shell.queue with pop := .storeTail c.shell.queue.q.tail c.shell.queue.q.events[c.shell.queue.q.tail] } := by
    rw [Keyboard.Sys.consumer, hpop]
    dsimp only
    rw [dif_pos hlt]
  exact ⟨_, h.access hinv hq (by simp [hpop]) (by simp)⟩

/-- **the shell takes the events one by one and then halts**, if it is not interrupted: four accesses for an
event, the last of them with the command, two for the look into the empty queue, and the `hlt` -/
theorem drains (n : Nat) (c : Cpu) (hinv : c.Inv fs system) (h : Working c) (hpop : c.shell.queue.pop = .idle)
    (hn : (accepted c.shell.queue.done).length = c.shell.queue.returned.length + n) :
    Within (Cpu.step fs system) proceed Rests (4 * n + 3) c := by
  induction n generalizing c with
  | zero =>
    apply within_of_step hinv (h.look hinv hpop)
    intro hinv₁
    apply within_of_step hinv₁ (Working.none ⟨h.main, h.frames, h.sampled⟩ hinv₁ rfl hn.symm)
    intro hinv₂
    exact parks hinv₂ rfl h.frames h.sampled (hinv.shell.queue.order.eq_of_length hn.symm)
  | succ n ih =>
    have hlt : c.shell.queue.returned.length < (accepted c.shell.queue.done).length := by omega
    apply within_of_step hinv (h.look hinv hpop)
    intro hinv₁
    apply within_of_step hinv₁ (Working.find ⟨h.main, h.frames, h.sampled⟩ hinv₁ rfl hlt)
    intro hinv₂
    obtain ⟨event, hfetch⟩ := Working.fetch hinv₂ ⟨h.main, h.frames, h.sampled⟩ rfl
    apply within_of_step hinv₂ hfetch
    intro hinv₃
    apply within_succ
    intro found
    obtain ⟨c', hstep, hc'⟩ := Working.event hinv₃ ⟨h.main, h.frames, h.sampled⟩ rfl found
    refine ⟨c', hstep, ?_⟩
    obtain hrests | ⟨hwork, hidle, hdone, hreturned⟩ := hc'
    · exact within_of_goal _ hrests
    · refine ih c' (Cpu.inv_step _ _ c' hinv₃ hstep) hwork hidle ?_
      rw [hdone, hreturned]
      show (accepted c.shell.queue.done).length = c.shell.queue.returned.length + 1 + n
      omega

/-- a halted processor is woken by every interrupt -/
theorem Cpu.Inv.halted (hinv : c.Inv fs system) (hmain : c.main = .halted) :
    c.frames = [] ∧ c.interruptFlag = true := by
  have hmode := hinv.mode
  rw [hmain] at hmode
  generalize c.frames = frames, c.interruptFlag = flag at hmode
  cases hmode with
  | running _ _ _ _ => exact ⟨rfl, rfl⟩
  | handling _ _ _ hm _ _ => obtain hm | hm := hm <;> cases hm

/-- while a handler runs the processor takes no interrupt -/
theorem Cpu.Inv.unsampled (hinv : c.Inv fs system) {handler : Handler} (hframes : c.frames = [(handler, true)]) :
    c.sampled = false := by
  obtain ⟨_, _, hflag, _⟩ := hinv.handling hframes
  rw [← Bool.not_eq_true]
  intro hsampled
  exact Bool.false_ne_true (hflag.symm.trans (hinv.sampled hsampled))

/-- a tick of the timer, from the entry of its handler to its return -/
theorem ticks_through {bound : Nat} (hinv : c.Inv fs system) (hframes : c.frames = [(.tick, true)])
    (hrest : ∀ c', c'.Inv fs system → c'.main = c.main → c'.frames = [] → c'.sampled = false → c'.shell = c.shell →
      Within (Cpu.step fs system) proceed Rests bound c') :
    Within (Cpu.step fs system) proceed Rests (bound + 3) c := by
  have hstep : ∀ (c : Cpu) handler, c.Inv fs system → c.frames = [(handler, true)] →
      ∀ found : Shell.Readings × UInt8,
        c.step fs system (proceed found) = c.handlerStep true [] found.2 handler := by
    intro c handler hinv hc found
    rw [Cpu.step_proceed (hinv.unsampled hc), hc]
  apply within_of_step hinv fun found => (hstep c .tick hinv hframes found).trans rfl
  intro hinv₁
  apply within_of_step hinv₁ fun found => (hstep _ _ hinv₁ rfl found).trans rfl
  intro hinv₂
  apply within_of_step hinv₂ fun found => (hstep _ _ hinv₂ rfl found).trans rfl
  intro hinv₃
  exact hrest _ hinv₃ rfl rfl (hinv.unsampled hframes) rfl

/-- the timer interrupts before any other device -/
theorem takes_tick (hinv : c.Inv fs system) (hmain : c.main = .halted)
    (hrequest : c.hardware.pics.master.request 0 = true) :
    ∃ c', run (Cpu.step fs system) c (taking c) = some c' ∧ c'.main = .shell ∧ c'.frames = [(.tick, true)] ∧
      c'.shell = c.shell := by
  obtain ⟨hframes, hflag⟩ := hinv.halted hmain
  have hregs := ready_regs (hinv.quiet hframes (by simp [hmain]))
  obtain ⟨hrequests, hack⟩ := Pair.acknowledge_zero (p := c.hardware.pics) (by rw [hregs]; rfl) hrequest
    (by rw [hregs]; decide)
  rw [hregs] at hack
  have htakes : ∀ b : Cpu, b = { c with sampled := true } →
      ∃ c', b.acknowledge = some c' ∧ c'.main = .shell ∧ c'.frames = [(.tick, true)] ∧ c'.shell = c.shell := by
    rintro b rfl
    rw [Cpu.acknowledge, if_pos rfl]
    dsimp only
    rw [hack, hmain, hframes, hflag]
    exact ⟨_, rfl, rfl, rfl, rfl⟩
  obtain ⟨c', hc', hfacts⟩ := htakes _ rfl
  refine ⟨c', ?_, hfacts⟩
  unfold taking
  cases hsampled : c.sampled with
  | true =>
    refine (run_cons_iff _ _ _ _ _).mpr ⟨c', ?_, rfl⟩
    rw [← hc', ← hsampled]
    rfl
  | false =>
    refine (run_cons_iff _ _ _ _ _).mpr ⟨{ c with sampled := true }, if_pos ⟨hflag, hsampled, hrequests⟩, ?_⟩
    exact (run_cons_iff _ _ _ _ _).mpr ⟨c', hc', rfl⟩

end

/-- **a halted machine misses at most the keys since its last look, and the next tick brings them to the
shell.**  When the processor is halted, every event that the queue had accepted when the shell looked for the
last time has been returned to it; later ones may wait.  When the timer then requests an interrupt and the processor
takes it, it wakes up, and if no other interrupt comes, after at most four steps of the program for each of them and
six more, either the shell has taken all of them and the processor has halted again, or one of the commands that they
complete has turned the machine off.  A step is one access to a port or to shared memory, or a whole command. -/
theorem halted_wakes (fs : Fat.Fat32) (system : Shell.SystemInfo) (h : Hardware) (events : List Event) (c : Cpu)
    (hrun : Steps.run (Cpu.step fs system) (Cpu.start h) events = some c) (hmain : c.main = .halted) :
    c.frames = [] ∧ c.shell.queue.returned.length = c.looked ∧
      c.shell.queue.returned.length + c.shell.queue.pending = (accepted c.shell.queue.done).length ∧
      (c.hardware.pics.master.request 0 = true → ∃ c', Steps.run (Cpu.step fs system) c (taking c) = some c' ∧
        Within (Cpu.step fs system) proceed Rests (4 * c.shell.queue.pending + 6) c') := by
  have hinv := Cpu.inv_run hrun
  obtain ⟨hidle, hlooked⟩ := hinv.looked (.inr hmain)
  have hpending : c.shell.queue.returned.length + c.shell.queue.pending = (accepted c.shell.queue.done).length :=
    Nat.add_sub_cancel' hinv.shell.queue.order.length_le
  refine ⟨(hinv.halted hmain).1, hlooked.symm, hpending, ?_⟩
  intro hrequest
  obtain ⟨c', htakes, hmain', hframes', hshell⟩ := takes_tick hinv hmain hrequest
  refine ⟨c', htakes, ?_⟩
  apply ticks_through (run_inv _ Cpu.inv_step _ c c' hinv htakes) hframes'
  intro c₂ hinv₂ hmain₂ hframes₂ hsampled₂ hshell₂
  apply drains _ c₂ hinv₂ ⟨hmain₂.trans hmain', hframes₂, hsampled₂⟩
  · rw [hshell₂, hshell]
    exact hidle
  · rw [hshell₂, hshell]
    exact hpending.symm

/-- the shell has seen an empty queue when `a` is pressed; it halts, and then the timer requests an interrupt -/
def missedKey : List Event :=
  accesses 16 ++ [.line false 1 true, .accept, .acknowledge] ++ accesses 9 ++ [.line false 0 true]

theorem halted_wakes_missedKey :
    ∃ c, Steps.run (Cpu.step Shell.noVolume ⟨0, 0⟩) (Cpu.start leftOver) missedKey = some c ∧
      c.main = .halted ∧ c.shell.queue.pending = 1 ∧ ∃ c',
        Steps.run (Cpu.step Shell.noVolume ⟨0, 0⟩) c (taking c) = some c' ∧
        Within (Cpu.step Shell.noVolume ⟨0, 0⟩) proceed Rests 10 c' := by
  have hsome : (Steps.run (Cpu.step Shell.noVolume ⟨0, 0⟩) (Cpu.start leftOver) missedKey).isSome = true := rfl
  obtain ⟨c, hc⟩ := Option.isSome_iff_exists.mp hsome
  have hfacts : c.main = .halted ∧ c.shell.queue.pending = 1 ∧ c.hardware.pics.master.request 0 = true := by
    obtain rfl := Option.some.inj hc
    exact ⟨rfl, rfl, rfl⟩
  obtain ⟨hmain, hpending, hrequest⟩ := hfacts
  obtain ⟨_, _, _, hwakes⟩ := halted_wakes Shell.noVolume ⟨0, 0⟩ leftOver missedKey c hc hmain
  obtain ⟨c', htakes, hwithin⟩ := hwakes hrequest
  rw [hpending] at hwithin
  exact ⟨c, hc, hmain, hpending, c', htakes, hwithin⟩

end Interrupts
end SolOs
