import SolOs.Lib.Orderings
import SolOs.Keyboard.Queue

/-!
# The key queue with the orderings of its accesses

`push` and `pop` once more, now with the orderings that the source gives: the thread's own index is loaded
`Relaxed`, the index of the other side `Acquire`, and both are stored `Release`; the slots are plain memory
behind an `UnsafeCell`.  The loads may return old values, as far as the orderings allow it, and two plain
accesses of which neither happens before the other are a data race.

* `Weak`, `Weak.step`        the two sides; an action carries the message that its load returns;
* `Weak.Inv`                 the invariant: each index publishes the accesses of its side to the slots;
* `queue_orderings_suffice`  **no data race, and still first in, first out.**
-/

set_option linter.unusedVariables false

namespace SolOs
namespace Keyboard
open Orderings

inductive Side where
  | producer
  | consumer
  deriving DecidableEq

instance : Fintype Side := ⟨{.producer, .consumer}, fun t => by cases t <;> decide⟩

inductive Index where
  | head
  | tail
  deriving DecidableEq

abbrev QueueMemory := Memory Side Index (Fin inputQueueCapacity) Nat KeyEvent

def QueueMemory.new : QueueMemory where
  knows t := (Function.update ⊥ t 1, ⊥)
  messages _ := [⟨0, ⊥⟩]
  cell _ := ⟨.enter, .producer, 0, ⊥⟩

/-- `lost` are the events that were dropped; the counter `dropped` is not read by the other side -/
structure Weak where
  memory : QueueMemory
  push : PushPc
  pop : PopPc
  accepted : List KeyEvent
  lost : List KeyEvent
  returned : List KeyEvent
  raced : Bool

def Weak.init : Weak := ⟨.new, .idle, .idle, [], [], [], false⟩

/-- `choice` is the message that a load returns -/
inductive WeakAct where
  | push (event : KeyEvent) (choice : Nat)
  | producer (choice : Nat)
  | consumer (choice : Nat)

namespace Weak

def start (w : Weak) (event : KeyEvent) (choice : Nat) : Option Weak :=
  match w.push with
  | .idle =>
    (w.memory.load .relaxed .producer .head choice).map fun r =>
      { w with memory := r.2, push := .loadTail event r.1 }
  | _ => none

def producer (w : Weak) (choice : Nat) : Option Weak :=
  match w.push with
  | .idle => none
  | .loadTail event head =>
    (w.memory.load .synchronizing .producer .tail choice).map fun r =>
      if (head + 1) % inputQueueCapacity = r.1 then
        { w with memory := r.2, push := .fetchAdd event (w.accepted.length - choice) }
      else { w with memory := r.2, push := .writeSlot event head ((head + 1) % inputQueueCapacity) }
  | .fetchAdd event _ => some { w with push := .idle, lost := w.lost ++ [event] }
  | .writeSlot event head next =>
    if h : head < inputQueueCapacity then
      match w.memory.write .producer ⟨head, h⟩ event with
      | some memory => some { w with memory := memory, push := .storeHead event next }
      | none => some { w with raced := true }
    else some { w with push := .panicked }
  | .storeHead event next =>
    some { w with memory := w.memory.store .synchronizing .producer .head next, push := .idle,
                  accepted := w.accepted ++ [event] }
  | .panicked => none

def consumer (w : Weak) (choice : Nat) : Option Weak :=
  match w.pop with
  | .idle =>
    (w.memory.load .relaxed .consumer .tail choice).map fun r =>
      { w with memory := r.2, pop := .loadHead r.1 }
  | .loadHead tail =>
    (w.memory.load .synchronizing .consumer .head choice).map fun r =>
      if tail = r.1 then { w with memory := r.2, pop := .idle }
      else { w with memory := r.2, pop := .readSlot tail }
  | .readSlot tail =>
    if h : tail < inputQueueCapacity then
      match w.memory.read .consumer ⟨tail, h⟩ with
      | some r => some { w with memory := r.2, pop := .storeTail tail r.1 }
      | none => some { w with raced := true }
    else some { w with pop := .panicked }
  | .storeTail tail event =>
    some { w with memory := w.memory.store .synchronizing .consumer .tail ((tail + 1) % inputQueueCapacity),
                  pop := .idle, returned := w.returned ++ [event] }
  | .panicked => none

def step (w : Weak) : WeakAct → Option Weak
  | .push event choice => w.start event choice
  | .producer choice => w.producer choice
  | .consumer choice => w.consumer choice

/-! ## the invariant -/

/-- the slots that were written -/
def writes (w : Weak) : Nat :=
  match w.push with
  | .storeHead _ _ => w.accepted.length + 1
  | _ => w.accepted.length

/-- the slots that were read -/
def reads (w : Weak) : Nat :=
  match w.pop with
  | .storeTail _ _ => w.returned.length + 1
  | _ => w.returned.length

def slotData (cell : Fin inputQueueCapacity → Cell Side KeyEvent) (i : Nat) : Option KeyEvent :=
  if h : i < inputQueueCapacity then some (cell ⟨i, h⟩).data else none

/-- when the consumer read a slot last -/
def consumed (cell : Cell Side KeyEvent) : Nat := cell.read .consumer

/-- what a push in flight knows -/
def PushOk (w : Weak) : Prop :=
  match w.push with
  | .idle => True
  | .fetchAdd _ pending => pending = 255
  | .loadTail _ head => head = w.accepted.length % inputQueueCapacity
  | .writeSlot _ head next => head = w.accepted.length % inputQueueCapacity ∧
      next = (w.accepted.length + 1) % inputQueueCapacity ∧
      w.accepted.length < (w.memory.knows .producer).2 .tail + 255
  | .storeHead event next => next = (w.accepted.length + 1) % inputQueueCapacity ∧
      w.accepted.length < (w.memory.knows .producer).2 .tail + 255 ∧
      slotData w.memory.cell (w.accepted.length % inputQueueCapacity) = some event
  | .panicked => False

/-- what a pop in flight knows -/
def PopOk (w : Weak) : Prop :=
  match w.pop with
  | .idle => True
  | .loadHead tail => tail = w.returned.length % inputQueueCapacity
  | .readSlot tail => tail = w.returned.length % inputQueueCapacity ∧
      w.returned.length < (w.memory.knows .consumer).2 .head
  | .storeTail tail event => tail = w.returned.length % inputQueueCapacity ∧
      w.returned.length < (w.memory.knows .consumer).2 .head ∧
      w.accepted[w.returned.length]? = some event
  | .panicked => False

structure Inv (w : Weak) : Prop where
  head : RingIndex inputQueueCapacity .head .producer (w.memory.messages .head) (w.memory.messages .tail)
    (w.memory.knows .producer) (w.memory.knows .consumer) w.accepted.length w.writes
    (fun c => (w.memory.cell c).written)
  tail : RingIndex inputQueueCapacity .tail .consumer (w.memory.messages .tail) (w.memory.messages .head)
    (w.memory.knows .consumer) (w.memory.knows .producer) w.returned.length w.reads
    (fun c => consumed (w.memory.cell c))
  writer : ∀ c, (w.memory.cell c).writer = .producer ∧ (w.memory.cell c).read .producer = 0
  behind : w.returned.length ≤ (w.memory.knows .consumer).2 .head
  room : w.accepted.length ≤ (w.memory.knows .producer).2 .tail + 255
  order : w.returned <+: w.accepted
  held : Ring.Holds inputQueueCapacity (slotData w.memory.cell) w.accepted w.returned.length
  unraced : w.raced = false
  push : w.PushOk
  pop : w.PopOk

/-- an index before its first store -/
theorem ringIndex_new (l : Index) (t u : Side) :
    RingIndex inputQueueCapacity l t (QueueMemory.new.messages l) [⟨0, ⊥⟩] (QueueMemory.new.knows t)
      (QueueMemory.new.knows u) 0 0 (fun _ => 0) := by
  have hfirst : ∀ (i : Nat) (message : Message Side Index Nat),
      (QueueMemory.new.messages l)[i]? = some message → i = 0 ∧ message = ⟨0, ⊥⟩ := by
    intro i message hi
    obtain ⟨hlt, rfl⟩ := List.getElem?_eq_some_iff.mp hi
    obtain rfl : i = 0 := Nat.lt_one_iff.mp hlt
    exact ⟨rfl, rfl⟩
  refine ⟨rfl, ?_, ?_, fun i message hi c _ => Nat.zero_le _, ?_, rfl, fun c => Nat.zero_le _, le_rfl,
    fun c _ => Nat.zero_le _⟩
  · intro i message hi
    obtain ⟨rfl, rfl⟩ := hfirst i message hi
    rfl
  · intro i message hi
    obtain ⟨rfl, rfl⟩ := hfirst i message hi
    exact le_rfl
  · intro message hm
    rw [List.mem_singleton.mp hm]
    exact le_rfl

theorem inv_init : Weak.init.Inv where
  head := ringIndex_new .head .producer .consumer
  tail := ringIndex_new .tail .consumer .producer
  writer := fun c => ⟨rfl, rfl⟩
  behind := le_rfl
  room := Nat.zero_le _
  order := List.prefix_rfl
  held := Ring.Holds.all_read _ _ []
  unraced := rfl
  push := trivial
  pop := trivial

section
variable {w w' : Weak}

theorem Inv.lengths (h : w.Inv) :
    w.returned.length ≤ w.accepted.length ∧ w.accepted.length ≤ w.returned.length + 255 := by
  have htheirs := h.tail.theirs_le
  have hroom := h.room
  exact ⟨h.order.length_le, by omega⟩

/-- more events may have been accepted -/
theorem PopOk.later (h : w.PopOk) {memory : QueueMemory} (hknows : memory.knows .consumer = w.memory.knows .consumer)
    (pu : PushPc) {ac : List KeyEvent} (hac : w.accepted <+: ac) :
    PopOk { w with memory := memory, push := pu, accepted := ac } := by
  obtain ⟨rest, rfl⟩ := hac
  unfold PopOk at h ⊢
  dsimp only
  rw [hknows]
  cases hp : w.pop with
  | idle => trivial
  | loadHead tail => rwa [hp] at h
  | readSlot tail => rwa [hp] at h
  | storeTail tail event =>
    rw [hp] at h
    exact ⟨h.1, h.2.1, by rw [List.getElem?_append_left (List.getElem?_eq_some_iff.mp h.2.2).1, h.2.2]⟩
  | panicked => rwa [hp] at h

/-- the slots may have been read -/
theorem PushOk.later (h : w.PushOk) (memory : QueueMemory)
    (hknows : memory.knows .producer = w.memory.knows .producer)
    (hdata : slotData memory.cell = slotData w.memory.cell) (po : PopPc) :
    PushOk { w with memory := memory, pop := po } := by
  unfold PushOk at h ⊢
  dsimp only
  rwa [hknows, hdata]

/-- the first access of `push` -/
theorem Inv.start (h : w.Inv) {event : KeyEvent} {choice : Nat} (hw : w.start event choice = some w') :
    w'.Inv := by
  obtain ⟨m, pu, po, ac, lo, re, ra⟩ := w
  cases pu <;> simp only [Weak.start, Option.map_eq_some_iff, reduceCtorEq] at hw
  obtain ⟨r, hr, rfl⟩ := hw
  obtain ⟨message, hi, hle, hv, hm⟩ := Memory.load_eq_some hr
  obtain ⟨hvalue, hknows⟩ := h.head.own hi hle
  obtain ⟨v, m'⟩ := r
  dsimp only at hv hm
  subst hv hm
  have hsame : Function.update m.knows .producer (m.knows .producer ⊔ Memory.noticed .head choice
      ⊔ Strength.relaxed.carries message.knows) = m.knows := by
    rw [show Strength.relaxed.carries message.knows = ⊥ from rfl, hknows, Function.update_eq_self]
  rw [hsame]
  exact ⟨h.head, h.tail, h.writer, h.behind, h.room, h.order, h.held, h.unraced, hvalue, h.pop⟩

/-- the load of `tail` in `push` -/
theorem Inv.loadTail (h : w.Inv) {event : KeyEvent} {head choice : Nat} (hp : w.push = .loadTail event head)
    (hw : w.producer choice = some w') : w'.Inv := by
  obtain ⟨m, pu, po, ac, lo, re, ra⟩ := w
  subst hp
  obtain ⟨r, hr, rfl⟩ := Option.map_eq_some_iff.mp hw
  obtain ⟨message, hi, hle, hv, hm⟩ := Memory.load_eq_some hr
  obtain ⟨v, m'⟩ := r
  dsimp only at hv hm
  subst hv hm
  obtain ⟨hseen, hcount, hvalue, htail⟩ := h.tail.acquire hi hle
  have hhead := h.head.learn (List.mem_of_getElem? hi) .tail (by decide) choice
  have hpush : head = ac.length % inputQueueCapacity := h.push
  have hroom : ac.length ≤ (m.knows .producer).2 .tail + 255 := h.room
  have horder : re.length ≤ ac.length := h.order.length_le
  dsimp only
  rw [show Strength.synchronizing.carries message.knows = message.knows from rfl]
  have hcount' : choice ≤ re.length := hcount
  have hroom' : ac.length ≤ choice + 255 := hroom.trans (Nat.add_le_add_right hle 255)
  -- the producer finds the queue full when 255 events wait, as far as it knows
  have hfull : (head + 1) % inputQueueCapacity = message.value ↔ ac.length + 1 = choice + 256 := by
    rw [hpush, hvalue, Ring.next_slot]
    exact Ring.slot_eq_iff (by omega) (by unfold inputQueueCapacity; omega)
  split
  · rename_i heq
    have hpending : ac.length - choice = 255 := by
      rw [hfull] at heq
      omega
    exact ⟨hhead, htail, h.writer, h.behind, hseen.symm ▸ hroom', h.order, h.held, h.unraced, hpending, h.pop⟩
  · rename_i hne
    rw [hfull] at hne
    have hlt : ac.length < choice + 255 := by omega
    refine ⟨hhead, htail, h.writer, h.behind, hseen.symm ▸ hroom', h.order, h.held, h.unraced,
      ⟨hpush, ?_, hseen.symm ▸ hlt⟩, h.pop⟩
    rw [hpush]
    exact Ring.next_slot _ _

/-- as far as the reads have gone, the slots were published -/
theorem Inv.reads_le (h : w.Inv) : w.reads ≤ w.accepted.length := by
  have hseen := h.head.theirs_le
  have hpop := h.pop
  have hle := h.order.length_le
  unfold Weak.reads
  unfold Weak.PopOk at hpop
  split
  · rename_i hp
    rw [hp] at hpop
    exact hpop.2.1.trans_le hseen
  · exact hle

theorem slotData_update (cell : Fin inputQueueCapacity → Cell Side KeyEvent) (c : Fin inputQueueCapacity)
    (new : Cell Side KeyEvent) :
    slotData (Function.update cell c new) = Function.update (slotData cell) c (some new.data) := by
  funext i
  unfold slotData
  by_cases hic : i = c
  · subst hic
    rw [dif_pos c.isLt, Function.update_self, Function.update_self]
  · rw [Function.update_of_ne hic]
    split
    · rename_i hi
      rw [Function.update_of_ne (fun he => hic (congrArg Fin.val he))]
    · rfl

theorem slotData_keep (cell : Fin inputQueueCapacity → Cell Side KeyEvent) (c : Fin inputQueueCapacity)
    {new : Cell Side KeyEvent} (h : new.data = (cell c).data) :
    slotData (Function.update cell c new) = slotData cell := by
  rw [slotData_update, h]
  refine Function.update_eq_self_iff.mpr ?_
  rw [slotData, dif_pos c.isLt]

theorem Inv.pushed (h : w.Inv) {event : KeyEvent} {head next : Nat} (hp : w.push = .writeSlot event head next) :
    head = w.accepted.length % inputQueueCapacity ∧ next = (w.accepted.length + 1) % inputQueueCapacity ∧
      w.accepted.length < (w.memory.knows .producer).2 .tail + 255 := by
  have hpush := h.push
  rwa [PushOk, hp] at hpush

/-- the write of the slot does not race: the consumer is done with it, and the producer knows that -/
theorem Inv.write_eq (h : w.Inv) {event : KeyEvent} {head next : Nat}
    (hp : w.push = .writeSlot event head next) (hslot : head < inputQueueCapacity) :
    w.memory.write .producer ⟨head, hslot⟩ event = some { w.memory with
      cell := Function.update w.memory.cell ⟨head, hslot⟩ ⟨event, .producer,
        (w.memory.knows .producer).1 .producer, (w.memory.cell ⟨head, hslot⟩).read⟩ } := by
  obtain ⟨hhead, _, hlt⟩ := h.pushed hp
  apply Memory.write_eq_some
  · rw [(h.writer _).1]
    exact h.head.stamps _
  · intro u
    cases u with
    | producer =>
      rw [(h.writer _).2]
      exact Nat.zero_le _
    | consumer => exact h.tail.covered.behind h.reads_le (by unfold inputQueueCapacity; omega) hhead.symm

theorem Inv.writeSlot (h : w.Inv) {event : KeyEvent} {head next choice : Nat}
    (hp : w.push = .writeSlot event head next) (hw : w.producer choice = some w') : w'.Inv := by
  obtain ⟨hhead, hnext, hlt⟩ := h.pushed hp
  have hslot : head < inputQueueCapacity := hhead ▸ Nat.mod_lt _ capacity_pos
  have hmade : w.writes = w.accepted.length := by rw [writes, hp]
  have hring := h.head
  rw [hmade] at hring
  have hring := hring.access (c := ⟨head, hslot⟩) hhead.symm
  unfold Weak.producer at hw
  rw [hp] at hw
  simp only [dif_pos hslot, h.write_eq hp hslot, Option.some.injEq] at hw
  subst hw
  refine ⟨?_, ?_, ?_, h.behind, h.room, h.order, ?_, h.unraced, ⟨hnext, hlt, ?_⟩, h.pop⟩
  · dsimp only
    rw [Memory.cell_update Cell.written]
    exact hring
  · dsimp only
    rw [Memory.cell_keep consumed _ _ (by rfl)]
    exact h.tail
  · intro c
    dsimp only
    rw [Function.update_apply]
    split
    · exact ⟨rfl, (h.writer _).2⟩
    · exact h.writer c
  · dsimp only
    rw [slotData_update]
    have hroom := h.lengths
    simp only [hhead]
    exact h.held.write (by unfold inputQueueCapacity; omega) _
  · dsimp only
    rw [slotData_update, ← hhead]
    exact Function.update_self ..

/-- the store of `head` -/
theorem Inv.storeHead (h : w.Inv) {event : KeyEvent} {next choice : Nat}
    (hp : w.push = .storeHead event next) (hw : w.producer choice = some w') : w'.Inv := by
  obtain ⟨hnext, hlt, hdata⟩ : next = (w.accepted.length + 1) % inputQueueCapacity ∧
      w.accepted.length < (w.memory.knows .producer).2 .tail + 255 ∧ _ := by
    have hpush := h.push
    rwa [PushOk, hp] at hpush
  have hmade : w.writes = w.accepted.length + 1 := by rw [writes, hp]
  have hring := h.head
  rw [hmade] at hring
  unfold Weak.producer at hw
  rw [hp] at hw
  obtain rfl := Option.some.inj hw
  have hlen : (w.accepted ++ [event]).length = w.accepted.length + 1 := by
    rw [List.length_append, List.length_singleton]
  refine ⟨?_, ?_, h.writer, h.behind, ?_, ?_, h.held.append hdata, h.unraced, trivial, ?_⟩
  · show RingIndex _ _ _ _ _ _ _ (w.accepted ++ [event]).length (w.accepted ++ [event]).length _
    rw [hlen]
    exact hring.store hnext
  · exact h.tail.other_store (by decide) (by decide) _ _
  · show (w.accepted ++ [event]).length ≤ (w.memory.storing .producer .head).2 .tail + 255
    rw [hlen, Memory.storing, Memory.sup_noticed_of_ne (by decide)]
    exact hlt
  · exact h.order.trans (List.prefix_append _ _)
  · exact h.pop.later rfl .idle (List.prefix_append _ _)

theorem Inv.producer (h : w.Inv) {choice : Nat} (hw : w.producer choice = some w') : w'.Inv := by
  cases hp : w.push with
  | idle =>
    rw [Weak.producer, hp] at hw
    cases hw
  | loadTail event head => exact h.loadTail hp hw
  | fetchAdd event pending =>
    rw [Weak.producer, hp] at hw
    obtain rfl := Option.some.inj hw
    have hmade : w.writes = w.accepted.length := by rw [writes, hp]
    have hring := h.head
    rw [hmade] at hring
    exact ⟨hring, h.tail, h.writer, h.behind, h.room, h.order, h.held, h.unraced, trivial, h.pop⟩
  | writeSlot event head next => exact h.writeSlot hp hw
  | storeHead event next => exact h.storeHead hp hw
  | panicked =>
    have hpush := h.push
    rw [PushOk, hp] at hpush
    exact hpush.elim

/-! ## the consumer -/

/-- the load of `tail` in `pop` -/
theorem Inv.loadOwnTail (h : w.Inv) {choice : Nat} (hp : w.pop = .idle)
    (hw : w.consumer choice = some w') : w'.Inv := by
  obtain ⟨m, pu, po, ac, lo, re, ra⟩ := w
  subst hp
  obtain ⟨r, hr, rfl⟩ := Option.map_eq_some_iff.mp hw
  obtain ⟨message, hi, hle, hv, hm⟩ := Memory.load_eq_some hr
  obtain ⟨hvalue, hknows⟩ := h.tail.own hi hle
  obtain ⟨v, m'⟩ := r
  dsimp only at hv hm
  subst hv hm
  have hsame : Function.update m.knows .consumer (m.knows .consumer ⊔ Memory.noticed .tail choice
      ⊔ Strength.relaxed.carries message.knows) = m.knows := by
    rw [show Strength.relaxed.carries message.knows = ⊥ from rfl, hknows, Function.update_eq_self]
  rw [hsame]
  exact ⟨h.head, h.tail, h.writer, h.behind, h.room, h.order, h.held, h.unraced, h.push, hvalue⟩

/-- the load of `head` in `pop` -/
theorem Inv.loadHead (h : w.Inv) {tail choice : Nat} (hp : w.pop = .loadHead tail)
    (hw : w.consumer choice = some w') : w'.Inv := by
  obtain ⟨m, pu, po, ac, lo, re, ra⟩ := w
  subst hp
  obtain ⟨r, hr, rfl⟩ := Option.map_eq_some_iff.mp hw
  obtain ⟨message, hi, hle, hv, hm⟩ := Memory.load_eq_some hr
  obtain ⟨v, m'⟩ := r
  dsimp only at hv hm
  subst hv hm
  obtain ⟨hseen, hcount, hvalue, hhead⟩ := h.head.acquire hi hle
  have htail := h.tail.learn (List.mem_of_getElem? hi) .head (by decide) choice
  have hpop : tail = re.length % inputQueueCapacity := h.pop
  have hbehind : re.length ≤ choice := h.behind.trans hle
  dsimp only
  rw [show Strength.synchronizing.carries message.knows = message.knows from rfl]
  split
  · exact ⟨hhead, htail, h.writer, hseen.symm ▸ hbehind, h.room, h.order, h.held, h.unraced, h.push, trivial⟩
  · rename_i hmore
    have hne : re.length ≠ choice := by
      intro he
      rw [hpop, hvalue, he] at hmore
      exact hmore rfl
    exact ⟨hhead, htail, h.writer, hseen.symm ▸ hbehind, h.room, h.order, h.held, h.unraced, h.push,
      ⟨hpop, hseen.symm ▸ lt_of_le_of_ne hbehind hne⟩⟩

/-- as far as the writes have gone, there was room -/
theorem Inv.writes_le (h : w.Inv) : w.writes ≤ w.returned.length + 255 := by
  have hseen := h.tail.theirs_le
  have hpush := h.push
  unfold Weak.writes
  unfold Weak.PushOk at hpush
  split
  · rename_i hp
    rw [hp] at hpush
    have hlt := hpush.2.1
    omega
  · exact h.lengths.2

theorem Inv.popping (h : w.Inv) {tail : Nat} (hp : w.pop = .readSlot tail) :
    tail = w.returned.length % inputQueueCapacity ∧
      w.returned.length < (w.memory.knows .consumer).2 .head := by
  have hpop := h.pop
  rwa [PopOk, hp] at hpop

/-- the read of the slot does not race: the producer has published it, and the consumer knows that -/
theorem Inv.read_eq (h : w.Inv) {tail : Nat} (hp : w.pop = .readSlot tail) (hslot : tail < inputQueueCapacity) :
    w.memory.read .consumer ⟨tail, hslot⟩ = some ((w.memory.cell ⟨tail, hslot⟩).data, { w.memory with
      cell := Function.update w.memory.cell ⟨tail, hslot⟩ { w.memory.cell ⟨tail, hslot⟩ with
        read := Function.update (w.memory.cell ⟨tail, hslot⟩).read .consumer
          ((w.memory.knows .consumer).1 .consumer) } }) := by
  obtain ⟨htail, hlt⟩ := h.popping hp
  have hle := h.writes_le
  apply Memory.read_eq_some
  rw [(h.writer _).1]
  exact h.head.covered.ahead hlt (by unfold inputQueueCapacity; omega) htail.symm

theorem Inv.readSlot (h : w.Inv) {tail choice : Nat} (hp : w.pop = .readSlot tail)
    (hw : w.consumer choice = some w') : w'.Inv := by
  obtain ⟨htail, hlt⟩ := h.popping hp
  have hslot : tail < inputQueueCapacity := htail ▸ Nat.mod_lt _ capacity_pos
  have hevent : w.accepted[w.returned.length]? = some (w.memory.cell ⟨tail, hslot⟩).data := by
    rw [← h.held _ le_rfl (hlt.trans_le h.head.theirs_le), ← htail, slotData, dif_pos hslot]
  have hmade : w.reads = w.returned.length := by rw [reads, hp]
  have hring := h.tail
  rw [hmade] at hring
  have hring := hring.access (c := ⟨tail, hslot⟩) htail.symm
  unfold Weak.consumer at hw
  rw [hp] at hw
  simp only [dif_pos hslot, h.read_eq hp hslot, Option.some.injEq] at hw
  subst hw
  refine ⟨?_, ?_, ?_, h.behind, h.room, h.order, ?_, h.unraced, ?_, ⟨htail, hlt, hevent⟩⟩
  · dsimp only
    rw [Memory.cell_keep Cell.written _ _ (by rfl)]
    exact h.head
  · dsimp only
    rw [Memory.cell_update consumed]
    exact hring
  · intro c
    dsimp only
    rw [Function.update_apply]
    split
    · exact ⟨(h.writer _).1, (h.writer _).2⟩
    · exact h.writer c
  · dsimp only
    rw [slotData_keep _ _ (by rfl)]
    exact h.held
  · refine h.push.later { w.memory with cell := Function.update w.memory.cell ⟨tail, hslot⟩ _ } rfl ?_ _
    exact slotData_keep _ _ (by rfl)

/-- the store of `tail` -/
theorem Inv.storeTail (h : w.Inv) {tail choice : Nat} {event : KeyEvent}
    (hp : w.pop = .storeTail tail event) (hw : w.consumer choice = some w') : w'.Inv := by
  obtain ⟨htail, hlt, hevent⟩ : tail = w.returned.length % inputQueueCapacity ∧
      w.returned.length < (w.memory.knows .consumer).2 .head ∧ _ := by
    have hpop := h.pop
    rwa [PopOk, hp] at hpop
  have hmade : w.reads = w.returned.length + 1 := by rw [reads, hp]
  have hring := h.tail
  rw [hmade] at hring
  unfold Weak.consumer at hw
  rw [hp] at hw
  obtain rfl := Option.some.inj hw
  have hlen : (w.returned ++ [event]).length = w.returned.length + 1 := by
    rw [List.length_append, List.length_singleton]
  refine ⟨?_, ?_, h.writer, ?_, h.room, order_snoc h.order hevent, ?_, h.unraced, h.push, trivial⟩
  · exact h.head.other_store (by decide) (by decide) _ _
  · show RingIndex _ _ _ _ _ _ _ (w.returned ++ [event]).length (w.returned ++ [event]).length _
    rw [hlen]
    exact hring.store (by rw [htail, Ring.next_slot])
  · show (w.returned ++ [event]).length ≤ (w.memory.storing .consumer .tail).2 .head
    rw [hlen, Memory.storing, Memory.sup_noticed_of_ne (by decide)]
    exact hlt
  · show Ring.Holds _ _ _ (w.returned ++ [event]).length
    rw [hlen]
    exact h.held.mono (Nat.le_succ _)

theorem Inv.consumer (h : w.Inv) {choice : Nat} (hw : w.consumer choice = some w') : w'.Inv := by
  cases hp : w.pop with
  | idle => exact h.loadOwnTail hp hw
  | loadHead tail => exact h.loadHead hp hw
  | readSlot tail => exact h.readSlot hp hw
  | storeTail tail event => exact h.storeTail hp hw
  | panicked =>
    have hpop := h.pop
    rw [PopOk, hp] at hpop
    exact hpop.elim

/-- the step lemma -/
theorem inv_step (w : Weak) (act : WeakAct) (w' : Weak) (h : w.Inv) (hw : w.step act = some w') : w'.Inv := by
  cases act with
  | push event choice => exact h.start hw
  | producer choice => exact h.producer hw
  | consumer choice => exact h.consumer hw

end

end Weak

/-! ## sequential runs -/

/-- the same state as in `Sys`, where every load returns the last value -/
structure Matches (s : Sys) (w : Weak) : Prop where
  push : w.push = s.push
  pop : w.pop = s.pop
  accepted : w.accepted = Keyboard.accepted s.done
  lost : w.lost = dropped s.done
  returned : w.returned = s.returned
  data : Weak.slotData w.memory.cell = slots s.q

section
variable {s s' : Sys} {w : Weak}

theorem Matches.head_eq (hm : Matches s w) (hs : s.Inv) :
    w.accepted.length % inputQueueCapacity = s.q.head := by
  rw [hs.head, hm.accepted]

theorem Matches.tail_eq (hm : Matches s w) (hs : s.Inv) :
    w.returned.length % inputQueueCapacity = s.q.tail := by
  rw [hs.tail, hm.returned]

theorem Matches.start (hm : Matches s w) (hs : s.Inv) (hw : w.Inv) {event : KeyEvent}
    (h : s.step (.push event) = some s') :
    ∃ act w', w.step act = some w' ∧ Matches s' w' := by
  obtain ⟨message, hi, hvalue⟩ := hw.head.latest
  obtain ⟨knows, hload⟩ := Memory.load_of_le .relaxed (t := .producer) hi hw.head.mine_eq.le
  refine ⟨.push event w.accepted.length, ?_⟩
  unfold Sys.step at h
  dsimp only [Weak.step, Weak.start]
  cases hp : s.push <;> rw [hp] at h <;> simp only [reduceCtorEq] at h
  obtain rfl := Option.some.inj h
  rw [hm.push, hp, hload]
  refine ⟨_, rfl, ?_⟩
  exact ⟨by rw [hvalue, hm.head_eq hs], hm.pop, hm.accepted, hm.lost, hm.returned, hm.data⟩

theorem Matches.producer (hm : Matches s w) (hs : s.Inv) (hw : w.Inv) (h : s.producer = some s') :
    ∃ act w', w.step act = some w' ∧ Matches s' w' := by
  refine ⟨.producer w.returned.length, ?_⟩
  unfold Sys.producer at h
  dsimp only [Weak.step, Weak.producer]
  rw [hm.push]
  cases hp : s.push with
  | idle =>
    rw [hp] at h
    cases h
  | loadTail event head =>
    obtain ⟨message, hi, hvalue⟩ := hw.tail.latest
    obtain ⟨knows, hload⟩ := Memory.load_of_le .synchronizing (t := .producer) hi hw.tail.theirs_le
    rw [hp] at h
    dsimp only at h ⊢
    rw [hload, Option.map_some, hvalue, hm.tail_eq hs]
    refine ⟨_, rfl, ?_⟩
    by_cases hfull : (head + 1) % inputQueueCapacity = s.q.tail
    · rw [if_pos hfull] at h ⊢
      obtain rfl := Option.some.inj h
      exact ⟨by rw [hm.accepted, hm.returned]; rfl, hm.pop, hm.accepted, hm.lost, hm.returned, hm.data⟩
    · rw [if_neg hfull] at h ⊢
      obtain rfl := Option.some.inj h
      exact ⟨rfl, hm.pop, hm.accepted, hm.lost, hm.returned, hm.data⟩
  | fetchAdd event pending =>
    rw [hp] at h
    obtain rfl := Option.some.inj h
    refine ⟨_, rfl, rfl, hm.pop, ?_, ?_, hm.returned, hm.data⟩
    · rw [accepted_append_dropped]
      exact hm.accepted
    · rw [dropped_append_dropped, hm.lost]
  | writeSlot event head next =>
    have hpush := hm.push.trans hp
    have hslot : head < inputQueueCapacity := (hw.pushed hpush).1 ▸ Nat.mod_lt _ capacity_pos
    rw [hp] at h
    dsimp only at h ⊢
    rw [dif_pos hslot] at h ⊢
    rw [hw.write_eq hpush hslot]
    obtain rfl := Option.some.inj h
    refine ⟨_, rfl, rfl, hm.pop, hm.accepted, hm.lost, hm.returned, ?_⟩
    rw [Weak.slotData_update, slots_set s.q head hslot event, hm.data]
  | storeHead event next =>
    rw [hp] at h
    obtain rfl := Option.some.inj h
    refine ⟨_, rfl, rfl, hm.pop, ?_, ?_, hm.returned, hm.data⟩
    · rw [accepted_append_accepted, hm.accepted]
    · rw [dropped_append_accepted]
      exact hm.lost
  | panicked =>
    rw [hp] at h
    cases h

theorem Matches.consumer (hm : Matches s w) (hs : s.Inv) (hw : w.Inv) (h : s.consumer = some s') :
    ∃ act w', w.step act = some w' ∧ Matches s' w' := by
  unfold Sys.consumer at h
  cases hp : s.pop with
  | idle =>
    obtain ⟨message, hi, hvalue⟩ := hw.tail.latest
    obtain ⟨knows, hload⟩ := Memory.load_of_le .relaxed (t := .consumer) hi hw.tail.mine_eq.le
    rw [hp] at h
    obtain rfl := Option.some.inj h
    refine ⟨.consumer w.returned.length, ?_⟩
    dsimp only [Weak.step, Weak.consumer]
    rw [hm.pop, hp, hload]
    exact ⟨_, rfl, hm.push, by rw [hvalue, hm.tail_eq hs], hm.accepted, hm.lost, hm.returned, hm.data⟩
  | loadHead tail =>
    obtain ⟨message, hi, hvalue⟩ := hw.head.latest
    obtain ⟨knows, hload⟩ := Memory.load_of_le .synchronizing (t := .consumer) hi hw.head.theirs_le
    rw [hp] at h
    dsimp only at h
    refine ⟨.consumer w.accepted.length, ?_⟩
    dsimp only [Weak.step, Weak.consumer]
    rw [hm.pop, hp]
    dsimp only
    rw [hload, Option.map_some, hvalue, hm.head_eq hs]
    refine ⟨_, rfl, ?_⟩
    by_cases hempty : tail = s.q.head
    · rw [if_pos hempty] at h ⊢
      obtain rfl := Option.some.inj h
      exact ⟨hm.push, rfl, hm.accepted, hm.lost, hm.returned, hm.data⟩
    · rw [if_neg hempty] at h ⊢
      obtain rfl := Option.some.inj h
      exact ⟨hm.push, rfl, hm.accepted, hm.lost, hm.returned, hm.data⟩
  | readSlot tail =>
    have hpop := hm.pop.trans hp
    have hslot : tail < inputQueueCapacity := (hw.popping hpop).1 ▸ Nat.mod_lt _ capacity_pos
    have hdata := congrFun hm.data tail
    rw [Weak.slotData, dif_pos hslot, slots_lt s.q tail hslot] at hdata
    rw [hp] at h
    dsimp only at h
    rw [dif_pos hslot] at h
    obtain rfl := Option.some.inj h
    refine ⟨.consumer 0, ?_⟩
    dsimp only [Weak.step, Weak.consumer]
    rw [hpop]
    dsimp only
    rw [dif_pos hslot, hw.read_eq hpop hslot]
    refine ⟨_, rfl, hm.push, ?_, hm.accepted, hm.lost, hm.returned, ?_⟩
    · exact congrArg (PopPc.storeTail tail) (Option.some.inj hdata)
    · exact (Weak.slotData_keep _ _ (by rfl)).trans hm.data
  | storeTail tail event =>
    rw [hp] at h
    obtain rfl := Option.some.inj h
    refine ⟨.consumer 0, ?_⟩
    dsimp only [Weak.step, Weak.consumer]
    rw [hm.pop, hp]
    exact ⟨_, rfl, hm.push, rfl, hm.accepted, hm.lost, by rw [hm.returned], hm.data⟩
  | panicked =>
    rw [hp] at h
    cases h

end

/-- every sequential run is a run with these orderings -/
theorem exists_weak_run (acts : List Act) (s : Sys) (h : Steps.run Sys.step Sys.init acts = some s) :
    ∃ acts' w, Steps.run Weak.step Weak.init acts' = some w ∧ Matches s w := by
  have hstep : ∀ (s : Sys) (act : Act) (s' : Sys) (w : Weak), s.Inv ∧ w.Inv ∧ Matches s w →
      s.step act = some s' → ∃ acts' w', Steps.run Weak.step w acts' = some w' ∧
        s'.Inv ∧ w'.Inv ∧ Matches s' w' := by
    intro s act s' w hR h
    obtain ⟨hs, hw, hm⟩ := hR
    obtain ⟨act', w', hact, hm'⟩ : ∃ act' w', w.step act' = some w' ∧ Matches s' w' := by
      cases act with
      | push event => exact hm.start hs hw h
      | producer => exact hm.producer hs hw h
      | consumer => exact hm.consumer hs hw h
    exact ⟨[act'], w', (Steps.run_cons_iff ..).mpr ⟨w', hact, rfl⟩, Sys.inv_step s act s' hs h,
      Weak.inv_step w act' w' hw hact, hm'⟩
  have hinit : Sys.init.Inv ∧ Weak.init.Inv ∧ Matches Sys.init Weak.init := by
    refine ⟨Sys.inv_init, Weak.inv_init, rfl, rfl, rfl, rfl, rfl, ?_⟩
    funext i
    unfold Weak.slotData slots
    split
    · rename_i hi
      show some KeyEvent.enter = slots InputQueue.new i
      rw [slots_lt _ _ hi]
      exact congrArg some (Vector.getElem_replicate hi).symm
    · rename_i hi
      exact (Vector.getElem?_eq_none (not_lt.mp hi)).symm
  obtain ⟨acts', w, hrun, _, _, hm⟩ := Steps.run_simulate Sys.step hstep acts _ s _ hinit h
  exact ⟨acts', w, hrun, hm⟩

/-- **the orderings of the key queue suffice.**  However the accesses of the two sides are interleaved, and
whatever messages their loads return that the orderings allow, no access to a slot races with another one
and no index is out of bounds; what `pop` has returned are the events that `push` accepted, in order and
none twice; at most 255 accepted events have not been returned, and an event is dropped only when 255 wait
as far as the producer knows. -/
theorem queue_orderings_suffice (acts : List WeakAct) (w : Weak)
    (h : Steps.run Weak.step Weak.init acts = some w) :
    w.raced = false ∧ w.push ≠ .panicked ∧ w.pop ≠ .panicked ∧ w.returned <+: w.accepted ∧
      w.accepted.length ≤ w.returned.length + 255 ∧
      ∀ event pending, w.push = .fetchAdd event pending → pending = 255 := by
  have hinv := Steps.run_inv _ Weak.inv_step acts _ _ Weak.inv_init h
  refine ⟨hinv.unraced, ?_, ?_, hinv.order, hinv.lengths.2, ?_⟩
  · intro hp
    have hpush := hinv.push
    rw [Weak.PushOk, hp] at hpush
    exact hpush
  · intro hp
    have hpop := hinv.pop
    rw [Weak.PopOk, hp] at hpop
    exact hpop
  · intro event pending hp
    have hpush := hinv.push
    rwa [Weak.PushOk, hp] at hpush

/-- one event is published, and the first look at `head` still returns the old value -/
def staleLook : List WeakAct :=
  [.push .tab 0, .consumer 0, .producer 0, .producer 0, .producer 0, .consumer 0, .consumer 0, .consumer 1,
    .consumer 0, .consumer 0]

theorem staleLook_returns :
    (Steps.run Weak.step Weak.init staleLook).map Weak.returned = some [.tab] := by
  rfl

theorem queue_orderings_suffice_staleLook :
    ∃ w, Steps.run Weak.step Weak.init staleLook = some w ∧ w.returned = [.tab] ∧ w.raced = false := by
  obtain ⟨w, hw, hreturned⟩ := Option.map_eq_some_iff.mp staleLook_returns
  exact ⟨w, hw, hreturned, (queue_orderings_suffice staleLook w hw).1⟩

end Keyboard
end SolOs
