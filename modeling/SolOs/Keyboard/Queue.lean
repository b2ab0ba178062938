import SolOs.Lib.Steps
import SolOs.Lib.Ring

/-!
# The key queue between IRQ1 and the shell

`InputQueue::push` (producer, in interrupt context) and `InputQueue::pop` (consumer, in the main
loop) of `keyboard.rs`, cut into their atomic accesses.  A program counter names the access that
comes NEXT; local variables of the call are its arguments.

* `InputQueue.push`, `InputQueue.pop`   the two functions run to the end without interruption;
* `Sys`, `Sys.step`      one producer and one consumer, interleaved access by access.  `done` and
                         `returned` are histories: the completed pushes with their outcome and the
                         events handed out by `pop`, oldest first;
* `Sys.Inv`              the invariant: `head` and `tail` are the numbers of accepted and consumed
                         events modulo the capacity, the pending events sit in their slots, and
                         each call in flight still knows the truth about its side;
* `Sys.inv_run`          it holds after every interleaving.
-/

set_option linter.unusedVariables false

namespace SolOs
namespace Keyboard

inductive KeyEvent where
  | character (byte : UInt8)
  | backspace
  | tab
  | enter
  | left
  | right
  | up
  | down
  | home
  | end_
  | delete
  deriving DecidableEq, Repr

def inputQueueCapacity : Nat := 256

structure InputQueue where
  events : Vector KeyEvent inputQueueCapacity
  head : Nat
  tail : Nat
  dropped : Nat

def InputQueue.new : InputQueue := ⟨Vector.replicate _ .enter, 0, 0, 0⟩

/-- `fetch_add(1)` on the `usize` counter wraps -/
def InputQueue.countDrop (q : InputQueue) : InputQueue :=
  { q with dropped := (q.dropped + 1) % 2^64 }

/-- the whole of `push`; `none` is the panic of the slot index -/
def InputQueue.push (q : InputQueue) (event : KeyEvent) : Option InputQueue :=
  let head := q.head
  let next := (head + 1) % inputQueueCapacity
  if next = q.tail then some q.countDrop
  else if h : head < inputQueueCapacity then
    some { q with events := q.events.set head event, head := next }
  else none

/-- the whole of `pop`; the outer `none` is the panic of the slot index -/
def InputQueue.pop (q : InputQueue) : Option (InputQueue × Option KeyEvent) :=
  let tail := q.tail
  if tail = q.head then some (q, none)
  else if h : tail < inputQueueCapacity then
    some ({ q with tail := (tail + 1) % inputQueueCapacity }, some q.events[tail])
  else none

/-- the access of `push` that comes next -/
inductive PushPc where
  | idle
  | loadTail (event : KeyEvent) (head : Nat)
  | fetchAdd (event : KeyEvent) (pending : Nat)
  | writeSlot (event : KeyEvent) (head next : Nat)
  | storeHead (event : KeyEvent) (next : Nat)
  | panicked

/-- the access of `pop` that comes next -/
inductive PopPc where
  | idle
  | loadHead (tail : Nat)
  | readSlot (tail : Nat)
  | storeTail (tail : Nat) (event : KeyEvent)
  | panicked

/-- how a completed push ended; a drop remembers how many events were pending at the tail load -/
inductive Outcome where
  | accepted
  | dropped (pending : Nat)
  deriving DecidableEq

structure Sys where
  q : InputQueue
  push : PushPc
  pop : PopPc
  done : List (KeyEvent × Outcome)
  returned : List KeyEvent

def Sys.init : Sys := ⟨.new, .idle, .idle, [], []⟩

inductive Act where
  | push (event : KeyEvent)
  | producer
  | consumer

/-- the pushed events with the dropped ones removed -/
def accepted (done : List (KeyEvent × Outcome)) : List KeyEvent :=
  done.filterMap fun p => if p.2 = .accepted then some p.1 else none

def dropped (done : List (KeyEvent × Outcome)) : List KeyEvent :=
  done.filterMap fun p => if p.2 = .accepted then none else some p.1

def Sys.pending (s : Sys) : Nat := (accepted s.done).length - s.returned.length

/-- the producer's next access -/
def Sys.producer (s : Sys) : Option Sys :=
  match s.push with
  | .idle => none
  | .loadTail event head =>
    let next := (head + 1) % inputQueueCapacity
    if next = s.q.tail then some { s with push := .fetchAdd event s.pending }
    else some { s with push := .writeSlot event head next }
  | .fetchAdd event pending =>
    some { s with q := s.q.countDrop, push := .idle, done := s.done ++ [(event, .dropped pending)] }
  | .writeSlot event head next =>
    if h : head < inputQueueCapacity then
      some { s with q := { s.q with events := s.q.events.set head event },
                    push := .storeHead event next }
    else some { s with push := .panicked }
  | .storeHead event next =>
    some { s with q := { s.q with head := next }, push := .idle,
                  done := s.done ++ [(event, .accepted)] }
  | .panicked => none

/-- the consumer's next access; a finished `pop` is followed by a new one -/
def Sys.consumer (s : Sys) : Option Sys :=
  match s.pop with
  | .idle => some { s with pop := .loadHead s.q.tail }
  | .loadHead tail =>
    if tail = s.q.head then some { s with pop := .idle }
    else some { s with pop := .readSlot tail }
  | .readSlot tail =>
    if h : tail < inputQueueCapacity then some { s with pop := .storeTail tail s.q.events[tail] }
    else some { s with pop := .panicked }
  | .storeTail tail event =>
    some { s with q := { s.q with tail := (tail + 1) % inputQueueCapacity }, pop := .idle,
                  returned := s.returned ++ [event] }
  | .panicked => none

def Sys.step (s : Sys) : Act → Option Sys
  | .push event =>
    match s.push with
    | .idle => some { s with push := .loadTail event s.q.head }
    | _ => none
  | .producer => s.producer
  | .consumer => s.consumer

/-! ## without interruption the steps are the functions -/

theorem push_solo (s : Sys) (hidle : s.push = .idle) (event : KeyEvent) (q' : InputQueue)
    (h : s.q.push event = some q') :
    ∃ n, ∃ s', Steps.run Sys.step s (.push event :: List.replicate n .producer) = some s' ∧
      s'.q = q' ∧ s'.push = .idle ∧ s'.pop = s.pop ∧ s'.returned = s.returned := by
  obtain ⟨q, pu, po, dn, re⟩ := s
  subst hidle
  unfold InputQueue.push at h
  by_cases hfull : (q.head + 1) % inputQueueCapacity = q.tail
  · simp only [hfull, if_true, Option.some.injEq] at h
    refine ⟨2, ?_⟩
    simp [Steps.run, Sys.step, Sys.producer, List.replicate, hfull, h]
  · by_cases hlt : q.head < inputQueueCapacity
    · simp only [hfull, hlt, if_false, dif_pos, Option.some.injEq] at h
      refine ⟨3, ?_⟩
      simp [Steps.run, Sys.step, Sys.producer, List.replicate, hfull, hlt, h]
    · simp [hfull, hlt] at h

theorem pop_solo (s : Sys) (hidle : s.pop = .idle) (q' : InputQueue) (r : Option KeyEvent)
    (h : s.q.pop = some (q', r)) :
    ∃ n, ∃ s', Steps.run Sys.step s (List.replicate n .consumer) = some s' ∧
      s'.q = q' ∧ s'.pop = .idle ∧ s'.push = s.push ∧ s'.done = s.done ∧
      s'.returned = s.returned ++ r.toList := by
  obtain ⟨q, pu, po, dn, re⟩ := s
  subst hidle
  unfold InputQueue.pop at h
  by_cases hempty : q.tail = q.head
  · simp only [hempty, if_true, Option.some.injEq, Prod.mk.injEq] at h
    obtain ⟨rfl, rfl⟩ := h
    refine ⟨2, ?_⟩
    simp [Steps.run, Sys.step, Sys.consumer, List.replicate, hempty]
  · by_cases hlt : q.tail < inputQueueCapacity
    · simp only [hempty, hlt, if_false, dif_pos, Option.some.injEq, Prod.mk.injEq] at h
      obtain ⟨rfl, rfl⟩ := h
      refine ⟨4, ?_⟩
      simp [Steps.run, Sys.step, Sys.consumer, List.replicate, hempty, hlt]
    · simp [hempty, hlt] at h

/-! ## histories -/

theorem accepted_append_accepted (done : List (KeyEvent × Outcome)) (e : KeyEvent) :
    accepted (done ++ [(e, .accepted)]) = accepted done ++ [e] := by
  simp [accepted]

theorem accepted_append_dropped (done : List (KeyEvent × Outcome)) (e : KeyEvent) (n : Nat) :
    accepted (done ++ [(e, .dropped n)]) = accepted done := by
  simp [accepted]

theorem dropped_append_accepted (done : List (KeyEvent × Outcome)) (e : KeyEvent) :
    dropped (done ++ [(e, .accepted)]) = dropped done := by
  simp [dropped]

theorem dropped_append_dropped (done : List (KeyEvent × Outcome)) (e : KeyEvent) (n : Nat) :
    dropped (done ++ [(e, .dropped n)]) = dropped done ++ [e] := by
  simp [dropped]

/-- every completed push was accepted or dropped -/
theorem done_length (done : List (KeyEvent × Outcome)) :
    done.length = (accepted done).length + (dropped done).length := by
  induction done with
  | nil => rfl
  | cons p done ih =>
    obtain ⟨e, o⟩ := p
    cases o with
    | accepted =>
      show done.length + 1 = (accepted done).length + 1 + (dropped done).length
      omega
    | dropped n =>
      show done.length + 1 = (accepted done).length + ((dropped done).length + 1)
      omega

/-! ## the invariant -/

def slots (q : InputQueue) (i : Nat) : Option KeyEvent := q.events[i]?

theorem slots_set (q : InputQueue) (i : Nat) (h : i < inputQueueCapacity) (e : KeyEvent) :
    slots { q with events := q.events.set i e } = Function.update (slots q) i (some e) := by
  funext j
  rw [Function.update_apply]
  show (q.events.set i e)[j]? = _
  rw [Vector.getElem?_set]
  by_cases hji : j = i
  · rw [if_pos hji, if_pos hji.symm]
  · rw [if_neg hji, if_neg (Ne.symm hji)]
    rfl

theorem slots_lt (q : InputQueue) (i : Nat) (h : i < inputQueueCapacity) :
    slots q i = some q.events[i] := by
  show q.events[i]? = _
  exact Vector.getElem?_eq_getElem h

/-- what a push in flight knows -/
def Sys.PushOk (s : Sys) : Prop :=
  match s.push with
  | .idle => True
  | .loadTail _ head => head = s.q.head
  | .fetchAdd _ pending => pending = 255
  | .writeSlot _ head next => head = s.q.head ∧ next = (s.q.head + 1) % inputQueueCapacity ∧
      (accepted s.done).length < s.returned.length + 255
  | .storeHead event next => next = (s.q.head + 1) % inputQueueCapacity ∧
      (accepted s.done).length < s.returned.length + 255 ∧
      slots s.q ((accepted s.done).length % inputQueueCapacity) = some event
  | .panicked => False

/-- what a pop in flight knows -/
def Sys.PopOk (s : Sys) : Prop :=
  match s.pop with
  | .idle => True
  | .loadHead tail => tail = s.q.tail
  | .readSlot tail => tail = s.q.tail ∧ s.returned.length < (accepted s.done).length
  | .storeTail tail event => tail = s.q.tail ∧ (accepted s.done)[s.returned.length]? = some event
  | .panicked => False

structure Sys.Inv (s : Sys) : Prop where
  head : s.q.head = (accepted s.done).length % inputQueueCapacity
  tail : s.q.tail = s.returned.length % inputQueueCapacity
  order : s.returned <+: accepted s.done
  room : (accepted s.done).length ≤ s.returned.length + 255
  held : Ring.Holds inputQueueCapacity (slots s.q) (accepted s.done) s.returned.length
  count : s.q.dropped = (dropped s.done).length % 2^64
  full : ∀ p ∈ s.done, ∀ n, p.2 = .dropped n → n = 255
  push : s.PushOk
  pop : s.PopOk

theorem Sys.inv_init : Sys.init.Inv where
  head := rfl
  tail := rfl
  order := List.prefix_rfl
  room := Nat.zero_le _
  held := Ring.Holds.all_read _ _ []
  count := rfl
  full := fun p hp => absurd hp (List.not_mem_nil)
  push := trivial
  pop := trivial

theorem capacity_pos : 0 < inputQueueCapacity := by decide

/-- the producer finds the queue full exactly when 255 accepted events are not yet consumed -/
theorem Sys.Inv.full_iff {s : Sys} (h : s.Inv) :
    (s.q.head + 1) % inputQueueCapacity = s.q.tail ↔ s.pending = 255 := by
  have hle := h.order.length_le
  have hroom := h.room
  rw [h.head, h.tail, Ring.next_slot, Ring.slot_eq_iff (by omega) (by unfold inputQueueCapacity; omega)]
  show _ = _ + 256 ↔ _ - _ = 255
  omega

/-- the consumer finds the queue empty exactly when every accepted event is consumed -/
theorem Sys.Inv.empty_iff {s : Sys} (h : s.Inv) :
    s.q.tail = s.q.head ↔ s.returned.length = (accepted s.done).length := by
  have hle := h.order.length_le
  have hroom := h.room
  rw [h.head, h.tail]
  constructor
  · intro he
    by_contra hne
    exact Ring.slot_ne (by omega) (by unfold inputQueueCapacity; omega) he
  · intro he
    rw [he]

/-- the event that the consumer reads is the oldest pending one -/
theorem Sys.Inv.read {s : Sys} (h : s.Inv) (hlt : s.returned.length < (accepted s.done).length) :
    slots s.q s.q.tail = (accepted s.done)[s.returned.length]? := by
  rw [h.tail]
  exact h.held _ le_rfl hlt

/-! ## one access keeps the invariant -/

theorem Sys.inv_push (s s' : Sys) (e : KeyEvent) (hi : s.Inv) (h : s.step (.push e) = some s') :
    s'.Inv := by
  obtain ⟨q, pu, po, dn, re⟩ := s
  cases pu with
  | idle =>
    obtain rfl := Option.some.inj h
    exact { hi with push := rfl }
  | loadTail _ _ => cases h
  | fetchAdd _ _ => cases h
  | writeSlot _ _ _ => cases h
  | storeHead _ _ => cases h
  | panicked => cases h

/-- a pop in flight is not disturbed when events are added -/
theorem Sys.PopOk.later {s s' : Sys} (h : s.PopOk) (hpop : s'.pop = s.pop) (htail : s'.q.tail = s.q.tail)
    (hreturned : s'.returned = s.returned) (haccepted : accepted s.done <+: accepted s'.done) :
    s'.PopOk := by
  unfold Sys.PopOk at h ⊢
  rw [hpop, htail, hreturned]
  cases hpc : s.pop with
  | idle => trivial
  | loadHead tail =>
    rw [hpc] at h
    exact h
  | readSlot tail =>
    rw [hpc] at h
    exact ⟨h.1, lt_of_lt_of_le h.2 haccepted.length_le⟩
  | storeTail tail event =>
    rw [hpc] at h
    obtain ⟨later, hlater⟩ := haccepted
    rw [← hlater, List.getElem?_append_left (List.getElem?_eq_some_iff.mp h.2).1]
    exact h
  | panicked =>
    rw [hpc] at h
    exact h

/-- a push in flight is not disturbed when an event is taken -/
theorem Sys.PushOk.later {s s' : Sys} (h : s.PushOk) (hpush : s'.push = s.push) (hhead : s'.q.head = s.q.head)
    (hslots : slots s'.q = slots s.q) (hdone : s'.done = s.done)
    (hreturned : s.returned.length ≤ s'.returned.length) : s'.PushOk := by
  unfold Sys.PushOk at h ⊢
  rw [hpush, hhead, hslots, hdone]
  cases hpc : s.push with
  | idle => trivial
  | loadTail event head =>
    rw [hpc] at h
    exact h
  | fetchAdd event pending =>
    rw [hpc] at h
    exact h
  | writeSlot event head next =>
    rw [hpc] at h
    exact ⟨h.1, h.2.1, by omega⟩
  | storeHead event next =>
    rw [hpc] at h
    exact ⟨h.1, by omega, h.2.2⟩
  | panicked =>
    rw [hpc] at h
    exact h

section
variable {q : InputQueue} {po : PopPc} {dn : List (KeyEvent × Outcome)} {re : List KeyEvent} {s' : Sys}

theorem Sys.inv_loadTail {event : KeyEvent} {head : Nat}
    (hi : Sys.Inv ⟨q, .loadTail event head, po, dn, re⟩)
    (h : Sys.producer ⟨q, .loadTail event head, po, dn, re⟩ = some s') : s'.Inv := by
  obtain rfl : head = q.head := hi.push
  simp only [Sys.producer] at h
  by_cases hfull : (q.head + 1) % inputQueueCapacity = q.tail
  · rw [if_pos hfull] at h
    obtain rfl := Option.some.inj h
    exact { hi with push := hi.full_iff.mp hfull }
  · rw [if_neg hfull] at h
    obtain rfl := Option.some.inj h
    have hne : (accepted dn).length - re.length ≠ 255 := fun he => hfull (hi.full_iff.mpr he)
    have hroom : (accepted dn).length ≤ re.length + 255 := hi.room
    have hle : re.length ≤ (accepted dn).length := hi.order.length_le
    exact { hi with push := ⟨rfl, rfl, show (accepted dn).length < re.length + 255 by omega⟩ }

theorem Sys.inv_fetchAdd {event : KeyEvent} {pending : Nat}
    (hi : Sys.Inv ⟨q, .fetchAdd event pending, po, dn, re⟩)
    (h : Sys.producer ⟨q, .fetchAdd event pending, po, dn, re⟩ = some s') : s'.Inv := by
  obtain rfl : pending = 255 := hi.push
  obtain rfl := Option.some.inj h
  have hA := accepted_append_dropped dn event 255
  refine { head := ?_, tail := hi.tail, order := ?_, room := ?_, held := ?_, count := ?_,
           full := ?_, push := trivial, pop := ?_ }
  · show q.head = _
    rw [hA]; exact hi.head
  · show re <+: _
    rw [hA]; exact hi.order
  · show _ ≤ re.length + 255
    rw [hA]; exact hi.room
  · show Ring.Holds _ (slots q) _ _
    rw [hA]; exact hi.held
  · have hc : q.dropped = (dropped dn).length % 2^64 := hi.count
    show (q.dropped + 1) % 2^64 = _
    rw [dropped_append_dropped, hc, List.length_append, List.length_singleton, Nat.mod_add_mod]
  · intro p hmem n hn
    rcases List.mem_append.mp hmem with h1 | h1
    · exact hi.full p h1 n hn
    · rw [List.mem_singleton] at h1
      subst h1
      cases hn
      rfl
  · refine hi.pop.later rfl rfl rfl ?_
    show accepted dn <+: _
    rw [hA]

theorem Sys.inv_writeSlot {event : KeyEvent} {head next : Nat}
    (hi : Sys.Inv ⟨q, .writeSlot event head next, po, dn, re⟩)
    (h : Sys.producer ⟨q, .writeSlot event head next, po, dn, re⟩ = some s') : s'.Inv := by
  obtain ⟨rfl, rfl, hlt⟩ : head = q.head ∧ next = (q.head + 1) % inputQueueCapacity ∧
    (accepted dn).length < re.length + 255 := hi.push
  have hh : q.head < inputQueueCapacity := by
    have hq : q.head = _ := hi.head
    rw [hq]; exact Nat.mod_lt _ capacity_pos
  simp only [Sys.producer, dif_pos hh] at h
  obtain rfl := Option.some.inj h
  have hq : q.head = (accepted dn).length % inputQueueCapacity := hi.head
  refine { hi with held := ?_, push := ⟨rfl, hlt, ?_⟩ }
  · have hw := hi.held.write (show (accepted dn).length < re.length + 256 by omega) (some event)
    rw [← hi.head, ← slots_set q q.head hh event] at hw
    exact hw
  · show slots { q with events := q.events.set q.head event } ((accepted dn).length % _) = _
    rw [slots_set, ← hq, Function.update_self]

theorem Sys.inv_storeHead {event : KeyEvent} {next : Nat}
    (hi : Sys.Inv ⟨q, .storeHead event next, po, dn, re⟩)
    (h : Sys.producer ⟨q, .storeHead event next, po, dn, re⟩ = some s') : s'.Inv := by
  obtain ⟨rfl, hlt, hslot⟩ : next = (q.head + 1) % inputQueueCapacity ∧
    (accepted dn).length < re.length + 255 ∧
    slots q ((accepted dn).length % inputQueueCapacity) = some event := hi.push
  obtain rfl := Option.some.inj h
  have hA := accepted_append_accepted dn event
  have hq : q.head = (accepted dn).length % inputQueueCapacity := hi.head
  refine { head := ?_, tail := hi.tail, order := ?_, room := ?_, held := ?_, count := ?_,
           full := ?_, push := trivial, pop := ?_ }
  · show (q.head + 1) % inputQueueCapacity = _
    rw [hA, hq, Ring.next_slot, List.length_append, List.length_singleton]
  · show re <+: _
    rw [hA]
    exact hi.order.trans (List.prefix_append _ _)
  · show _ ≤ re.length + 255
    rw [hA, List.length_append, List.length_singleton]
    omega
  · show Ring.Holds _ (slots q) _ _
    rw [hA]
    exact hi.held.append hslot
  · show q.dropped = _
    rw [dropped_append_accepted]
    exact hi.count
  · intro p hmem n hn
    rcases List.mem_append.mp hmem with h1 | h1
    · exact hi.full p h1 n hn
    · rw [List.mem_singleton] at h1
      subst h1
      cases hn
  · refine hi.pop.later rfl rfl rfl ?_
    show accepted dn <+: _
    rw [hA]
    exact List.prefix_append _ _

end

theorem Sys.inv_producer (s s' : Sys) (hi : s.Inv) (h : s.producer = some s') : s'.Inv := by
  obtain ⟨q, pu, po, dn, re⟩ := s
  cases pu with
  | idle => cases h
  | loadTail event head => exact inv_loadTail hi h
  | fetchAdd event pending => exact inv_fetchAdd hi h
  | writeSlot event head next => exact inv_writeSlot hi h
  | storeHead event next => exact inv_storeHead hi h
  | panicked => exact hi.push.elim

section
variable {q : InputQueue} {pu : PushPc} {dn : List (KeyEvent × Outcome)} {re : List KeyEvent} {s' : Sys}

theorem Sys.inv_loadHead {tail : Nat} (hi : Sys.Inv ⟨q, pu, .loadHead tail, dn, re⟩)
    (h : Sys.consumer ⟨q, pu, .loadHead tail, dn, re⟩ = some s') : s'.Inv := by
  obtain rfl : tail = q.tail := hi.pop
  simp only [Sys.consumer] at h
  by_cases hempty : q.tail = q.head
  · rw [if_pos hempty] at h
    obtain rfl := Option.some.inj h
    exact { hi with pop := trivial }
  · rw [if_neg hempty] at h
    obtain rfl := Option.some.inj h
    have hne : re.length ≠ (accepted dn).length := fun he => hempty (hi.empty_iff.mpr he)
    have hle : re.length ≤ (accepted dn).length := hi.order.length_le
    exact { hi with pop := ⟨rfl, lt_of_le_of_ne hle hne⟩ }

theorem Sys.inv_readSlot {tail : Nat} (hi : Sys.Inv ⟨q, pu, .readSlot tail, dn, re⟩)
    (h : Sys.consumer ⟨q, pu, .readSlot tail, dn, re⟩ = some s') : s'.Inv := by
  obtain ⟨rfl, hlt⟩ : tail = q.tail ∧ re.length < (accepted dn).length := hi.pop
  have ht : q.tail < inputQueueCapacity := by
    have hq : q.tail = _ := hi.tail
    rw [hq]
    exact Nat.mod_lt _ capacity_pos
  simp only [Sys.consumer, dif_pos ht] at h
  obtain rfl := Option.some.inj h
  have hread : slots q q.tail = (accepted dn)[re.length]? := hi.read hlt
  refine { hi with pop := ⟨rfl, ?_⟩ }
  show (accepted dn)[re.length]? = some q.events[q.tail]
  rw [← hread, slots_lt q q.tail ht]

/-- the next event in the order of acceptance is handed out -/
theorem order_snoc {taken log : List KeyEvent} {event : KeyEvent} (h : taken <+: log)
    (hnext : log[taken.length]? = some event) : taken ++ [event] <+: log := by
  obtain ⟨rest, rfl⟩ := h
  rw [List.getElem?_append_right le_rfl, Nat.sub_self] at hnext
  cases rest with
  | nil => cases hnext
  | cons x xs =>
    obtain rfl : x = event := Option.some.inj hnext
    exact ⟨xs, by simp⟩

theorem Sys.inv_storeTail {tail : Nat} {event : KeyEvent}
    (hi : Sys.Inv ⟨q, pu, .storeTail tail event, dn, re⟩)
    (h : Sys.consumer ⟨q, pu, .storeTail tail event, dn, re⟩ = some s') : s'.Inv := by
  obtain ⟨rfl, hev⟩ : tail = q.tail ∧ (accepted dn)[re.length]? = some event := hi.pop
  obtain rfl := Option.some.inj h
  have hroom : (accepted dn).length ≤ re.length + 255 := hi.room
  have hlen : (re ++ [event]).length = re.length + 1 := by simp
  refine { head := hi.head, tail := ?_, order := order_snoc hi.order hev, room := ?_, held := ?_,
           count := hi.count, full := hi.full, push := ?_, pop := trivial }
  · have hq : q.tail = re.length % inputQueueCapacity := hi.tail
    show (q.tail + 1) % inputQueueCapacity = (re ++ [event]).length % _
    rw [hq, Ring.next_slot, hlen]
  · show (accepted dn).length ≤ (re ++ [event]).length + 255
    omega
  · show Ring.Holds _ (slots q) _ (re ++ [event]).length
    rw [hlen]
    exact hi.held.mono (Nat.le_succ _)
  · refine hi.push.later rfl rfl rfl rfl ?_
    show re.length ≤ (re ++ [event]).length
    omega

end

theorem Sys.inv_consumer (s s' : Sys) (hi : s.Inv) (h : s.consumer = some s') : s'.Inv := by
  obtain ⟨q, pu, po, dn, re⟩ := s
  cases po with
  | idle =>
    obtain rfl := Option.some.inj h
    exact { hi with pop := rfl }
  | loadHead tail => exact inv_loadHead hi h
  | readSlot tail => exact inv_readSlot hi h
  | storeTail tail event => exact inv_storeTail hi h
  | panicked => exact hi.pop.elim

theorem Sys.inv_step (s : Sys) (a : Act) (s' : Sys) (hi : s.Inv) (h : s.step a = some s') :
    s'.Inv := by
  cases a with
  | push e => exact Sys.inv_push s s' e hi h
  | producer => exact Sys.inv_producer s s' hi h
  | consumer => exact Sys.inv_consumer s s' hi h

theorem Sys.inv_run (as : List Act) (s : Sys) (h : Steps.run Sys.step Sys.init as = some s) :
    s.Inv :=
  Steps.run_inv Sys.step Sys.inv_step as _ s Sys.inv_init h

/-! ## the pushes of a schedule -/

def Act.pushed : Act → Option KeyEvent
  | .push event => some event
  | _ => none

/-- the event of the push in flight -/
def PushPc.event : PushPc → Option KeyEvent
  | .loadTail event _ => some event
  | .fetchAdd event _ => some event
  | .writeSlot event _ _ => some event
  | .storeHead event _ => some event
  | _ => none

/-- all events pushed so far: those of the completed pushes, then the one in flight -/
def Sys.pushed (s : Sys) : List KeyEvent := s.done.map Prod.fst ++ s.push.event.toList

theorem Sys.pushed_step (s : Sys) (a : Act) (s' : Sys) (hi : s.Inv) (h : s.step a = some s') :
    s'.pushed = s.pushed ++ a.pushed.toList := by
  have hi' := Sys.inv_step s a s' hi h
  obtain ⟨q, pu, po, dn, re⟩ := s
  cases a with
  | push e =>
    cases pu <;> cases h
    simp [Sys.pushed, PushPc.event, Act.pushed]
  | producer =>
    simp only [Act.pushed, Option.toList_none, List.append_nil]
    cases pu with
    | idle => cases h
    | loadTail event head =>
      simp only [Sys.step, Sys.producer] at h
      split at h <;> cases h <;> rfl
    | fetchAdd event pending =>
      cases h
      simp [Sys.pushed, PushPc.event]
    | writeSlot event head next =>
      simp only [Sys.step, Sys.producer] at h
      split at h
      · cases h; rfl
      · cases h
        exact hi'.push.elim
    | storeHead event next =>
      cases h
      simp [Sys.pushed, PushPc.event]
    | panicked => cases h
  | consumer =>
    simp only [Act.pushed, Option.toList_none, List.append_nil]
    cases po with
    | idle => cases h; rfl
    | loadHead tail =>
      simp only [Sys.step, Sys.consumer] at h
      split at h <;> cases h <;> rfl
    | readSlot tail =>
      simp only [Sys.step, Sys.consumer] at h
      split at h <;> cases h <;> rfl
    | storeTail tail event => cases h; rfl
    | panicked => cases h

theorem Sys.pushed_run (as : List Act) : ∀ s s' : Sys, s.Inv → Steps.run Sys.step s as = some s' →
    s'.pushed = s.pushed ++ as.filterMap Act.pushed := by
  induction as with
  | nil =>
    intro s s' _ h
    obtain rfl := Option.some.inj h
    simp
  | cons a as ih =>
    intro s s' hi h
    obtain ⟨m, h1, h2⟩ := (Steps.run_cons_iff Sys.step s s' a as).mp h
    rw [ih m s' (Sys.inv_step s a m hi h1) h2, Sys.pushed_step s a m hi h1]
    cases hp : a.pushed <;> simp [hp]

/-- **The key queue is a loss-accounted FIFO under every interleaving**: after any schedule `as` of
the accesses of one producer and one consumer, what `pop` has returned is a prefix of what was
pushed and not dropped; every completed push is counted once; at most 255 events are pending; a
push was dropped only because exactly 255 were pending at its tail load; the producer is never
about to write the slot that the consumer is about to read. -/
theorem key_queue_fifo (as : List Act) (s : Sys) (h : Steps.run Sys.step Sys.init as = some s) :
    as.filterMap Act.pushed = s.done.map Prod.fst ++ s.push.event.toList ∧
    s.returned <+: accepted s.done ∧
    s.done.length = (accepted s.done).length + (dropped s.done).length ∧
    s.q.dropped = (dropped s.done).length % 2^64 ∧
    s.pending ≤ 255 ∧
    (∀ event n, (event, Outcome.dropped n) ∈ s.done → n = 255) ∧
    (∀ event head next tail, s.push = .writeSlot event head next → s.pop = .readSlot tail →
      head ≠ tail) ∧
    s.push ≠ .panicked ∧ s.pop ≠ .panicked := by
  have hi := Sys.inv_run as s h
  have hroom := hi.room
  refine ⟨?_, hi.order, done_length s.done, hi.count, ?_, ?_, ?_, ?_, ?_⟩
  · exact (Sys.pushed_run as _ s Sys.inv_init h).symm
  · show _ - _ ≤ 255
    omega
  · intro event n hmem
    exact hi.full _ hmem n rfl
  · intro event head next tail hpu hpo
    have hw := hi.push
    have hr := hi.pop
    simp only [Sys.PushOk, hpu] at hw
    simp only [Sys.PopOk, hpo] at hr
    rw [hw.1, hr.1, hi.head, hi.tail]
    exact (Ring.slot_ne hr.2 (by unfold inputQueueCapacity; omega)).symm
  · intro hpu
    have hw := hi.push
    simp only [Sys.PushOk, hpu] at hw
  · intro hpo
    have hr := hi.pop
    simp only [Sys.PopOk, hpo] at hr

/-- a pop that looks before the push has published its event, and the pop after it -/
def earlyPop : List Act :=
  [.consumer, .push .tab, .producer, .producer, .consumer, .producer, .consumer, .consumer,
    .consumer, .consumer]

theorem key_queue_fifo_early_pop :
    ∃ s, Steps.run Sys.step Sys.init earlyPop = some s ∧ s.returned = [.tab] ∧
      s.returned <+: accepted s.done :=
  ⟨_, rfl, rfl, (key_queue_fifo earlyPop _ rfl).2.1⟩

end Keyboard
end SolOs
