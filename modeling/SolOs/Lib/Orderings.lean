import SolOs.Lib.Ring

/-!
# Release, acquire and data races

Threads share atomic locations and plain cells.  A location keeps all the messages that were stored in
it, and a load may return an old one, as long as the thread does not know of a newer one.  What a thread
knows are the epochs of the threads, up to which their accesses have happened before its own next one,
and for each location the first message that it may still read.  A release store attaches the knowledge of
its thread to the message, and an acquire load takes it over.  A plain access races when the thread does
not know of an earlier conflicting one.

* `Memory.load`, `Memory.store`     the atomic accesses; the index of the message is a choice;
* `Memory.read`, `Memory.write`     the plain accesses; `none` is a data race;
* `Covered`                         the accesses to the slots of a ring that a thread knows of;
* `RingIndex`                       a location that counts how far its thread has gone round a ring, and
                                    publishes its accesses to the slots.

A location is stored to by one thread only, so its messages are in the order of these stores.
-/

set_option linter.unusedSectionVars false

namespace Orderings

/-- the epochs of the threads, and the messages of the locations -/
abbrev Knowledge (θ ℓ : Type) := (θ → Nat) × (ℓ → Nat)

structure Message (θ ℓ ν : Type) where
  value : ν
  knows : Knowledge θ ℓ

/-- a plain cell with the epochs of its last write and of the last read of each thread -/
structure Cell (θ δ : Type) where
  data : δ
  writer : θ
  written : Nat
  read : θ → Nat

structure Memory (θ ℓ κ ν δ : Type) where
  knows : θ → Knowledge θ ℓ
  messages : ℓ → List (Message θ ℓ ν)
  cell : κ → Cell θ δ

inductive Strength where
  | relaxed
  | synchronizing
  deriving DecidableEq

/-- what is passed on with a message -/
def Strength.carries {θ ℓ : Type} : Strength → Knowledge θ ℓ → Knowledge θ ℓ
  | .relaxed, _ => ⊥
  | .synchronizing, k => k

namespace Memory
variable {θ ℓ κ ν δ : Type} [DecidableEq θ] [DecidableEq ℓ] [DecidableEq κ]

/-- message `i` of a location has been read or stored -/
def noticed (l : ℓ) (i : Nat) : Knowledge θ ℓ := (⊥, Function.update ⊥ l i)

/-- the load of message `i`; `none` when the thread may not read it -/
def load (m : Memory θ ℓ κ ν δ) (strength : Strength) (t : θ) (l : ℓ) (i : Nat) :
    Option (ν × Memory θ ℓ κ ν δ) :=
  if (m.knows t).2 l ≤ i then
    (m.messages l)[i]?.map fun message =>
      (message.value, { m with
        knows := Function.update m.knows t
          (m.knows t ⊔ noticed l i ⊔ strength.carries message.knows) })
  else none

/-- what the thread knows when its store is done -/
def storing (m : Memory θ ℓ κ ν δ) (t : θ) (l : ℓ) : Knowledge θ ℓ :=
  m.knows t ⊔ noticed l (m.messages l).length

/-- a new epoch of a thread -/
def advance (t : θ) (k : Knowledge θ ℓ) : Knowledge θ ℓ := (Function.update k.1 t (k.1 t + 1), k.2)

def store (m : Memory θ ℓ κ ν δ) (strength : Strength) (t : θ) (l : ℓ) (v : ν) : Memory θ ℓ κ ν δ :=
  { m with
    messages := Function.update m.messages l
      (m.messages l ++ [⟨v, strength.carries (m.storing t l)⟩])
    knows := Function.update m.knows t (advance t (m.storing t l)) }

def read (m : Memory θ ℓ κ ν δ) (t : θ) (c : κ) : Option (δ × Memory θ ℓ κ ν δ) :=
  if (m.cell c).written ≤ (m.knows t).1 (m.cell c).writer then
    some ((m.cell c).data, { m with
      cell := Function.update m.cell c
        { m.cell c with read := Function.update (m.cell c).read t ((m.knows t).1 t) } })
  else none

def write [Fintype θ] (m : Memory θ ℓ κ ν δ) (t : θ) (c : κ) (d : δ) : Option (Memory θ ℓ κ ν δ) :=
  if (m.cell c).written ≤ (m.knows t).1 (m.cell c).writer ∧ ∀ u, (m.cell c).read u ≤ (m.knows t).1 u then
    some { m with
      cell := Function.update m.cell c ⟨d, t, (m.knows t).1 t, (m.cell c).read⟩ }
  else none

section
variable {m m' : Memory θ ℓ κ ν δ} {strength : Strength} {t : θ} {l : ℓ} {c : κ} {i : Nat}

theorem load_eq_some {r : ν × Memory θ ℓ κ ν δ} (h : m.load strength t l i = some r) :
    ∃ message, (m.messages l)[i]? = some message ∧ (m.knows t).2 l ≤ i ∧ r.1 = message.value ∧
      r.2 = { m with
        knows := Function.update m.knows t (m.knows t ⊔ noticed l i ⊔ strength.carries message.knows) } := by
  unfold load at h
  split at h
  · obtain ⟨message, hi, rfl⟩ := Option.map_eq_some_iff.mp h
    exact ⟨message, hi, ‹_›, rfl, rfl⟩
  · cases h

/-- the load of a message that the thread may read -/
theorem load_of_le (strength : Strength) {message : Message θ ℓ ν} (hi : (m.messages l)[i]? = some message)
    (hle : (m.knows t).2 l ≤ i) :
    ∃ knows, m.load strength t l i = some (message.value, { m with knows := knows }) := by
  unfold load
  rw [if_pos hle, hi]
  exact ⟨_, rfl⟩

theorem read_eq_some (h : (m.cell c).written ≤ (m.knows t).1 (m.cell c).writer) :
    m.read t c = some ((m.cell c).data, { m with
      cell := Function.update m.cell c
        { m.cell c with read := Function.update (m.cell c).read t ((m.knows t).1 t) } }) := if_pos h

theorem write_eq_some [Fintype θ] (h : (m.cell c).written ≤ (m.knows t).1 (m.cell c).writer)
    (hread : ∀ u, (m.cell c).read u ≤ (m.knows t).1 u) (d : δ) :
    m.write t c d = some { m with
      cell := Function.update m.cell c ⟨d, t, (m.knows t).1 t, (m.cell c).read⟩ } := if_pos ⟨h, hread⟩

end

/-- a part of a cell that is replaced -/
theorem cell_update {β : Type} (part : Cell θ δ → β) (cell : κ → Cell θ δ) (c : κ) (new : Cell θ δ) :
    (fun c' => part (Function.update cell c new c')) = Function.update (fun c' => part (cell c')) c (part new) :=
  funext fun c' => Function.apply_update (fun _ => part) cell c new c'

/-- a part of a cell that is kept -/
theorem cell_keep {β : Type} (part : Cell θ δ → β) (cell : κ → Cell θ δ) (c : κ) {new : Cell θ δ}
    (h : part new = part (cell c)) : (fun c' => part (Function.update cell c new c')) = fun c' => part (cell c') := by
  rw [cell_update, h, Function.update_eq_self]

section
variable {k : Knowledge θ ℓ} {t u : θ} {l l' : ℓ} {i : Nat}

@[simp] theorem sup_noticed_epochs : (k ⊔ noticed l i).1 = k.1 := sup_bot_eq _

theorem sup_noticed_self : (k ⊔ noticed l i).2 l = max (k.2 l) i := by
  have hat : (noticed l i : Knowledge θ ℓ).2 l = i := Function.update_self ..
  rw [Prod.snd_sup, Pi.sup_apply, hat]

theorem sup_noticed_of_ne (h : l' ≠ l) : (k ⊔ noticed l i).2 l' = k.2 l' := by
  have hat : (noticed l i : Knowledge θ ℓ).2 l' = 0 := Function.update_of_ne h ..
  rw [Prod.snd_sup, Pi.sup_apply, hat]
  exact max_eq_left (Nat.zero_le _)

@[simp] theorem advance_self : (advance t k).1 t = k.1 t + 1 := Function.update_self ..

theorem advance_of_ne (h : u ≠ t) : (advance t k).1 u = k.1 u := Function.update_of_ne h ..

@[simp] theorem advance_seen : (advance t k).2 = k.2 := rfl

end

end Memory

/-! ## the slots of a ring

Access `i` of a thread goes to slot `i % cap`; `stamp` is the epoch of the last access to a slot. -/

section
variable {cap : Nat} {stamp : Fin cap → Nat} {lo hi bound : Nat}

/-- the accesses before `lo` have happened by the epoch `bound`; `hi` have been made -/
def Covered (cap : Nat) (stamp : Fin cap → Nat) (lo hi bound : Nat) : Prop :=
  ∀ c : Fin cap, (∀ i, lo ≤ i → i < hi → i % cap ≠ c) → stamp c ≤ bound

theorem Covered.mono (h : Covered cap stamp lo hi bound) {bound' : Nat} (hb : bound ≤ bound') :
    Covered cap stamp lo hi bound' := fun c hc => (h c hc).trans hb

theorem Covered.of_stamps (h : ∀ c, stamp c ≤ bound) : Covered cap stamp lo hi bound := fun c _ => h c

/-- one more access: its slot is not one of those that are covered -/
theorem Covered.access (h : Covered cap stamp lo hi bound) (hle : lo ≤ hi) {c : Fin cap}
    (hc : hi % cap = c) (epoch : Nat) : Covered cap (Function.update stamp c epoch) lo (hi + 1) bound := by
  intro c' hc'
  have hne : c' ≠ c := by
    intro he
    exact hc' hi hle (Nat.lt_succ_self hi) (by rw [hc, he])
  rw [Function.update_of_ne hne]
  exact h c' fun i hlo hlt => hc' i hlo (by omega)

/-- the slot behind the accesses that are not covered, less than a turn away -/
theorem Covered.behind (h : Covered cap stamp lo hi bound) {n : Nat} (hhi : hi ≤ n) (hn : n < lo + cap)
    {c : Fin cap} (hc : n % cap = c) : stamp c ≤ bound :=
  h c fun i hlo hlt => hc ▸ Ring.slot_ne (by omega) (by omega)

/-- and the slot in front of them -/
theorem Covered.ahead (h : Covered cap stamp lo hi bound) {n : Nat} (hlo : n < lo) (hn : hi ≤ n + cap)
    {c : Fin cap} (hc : n % cap = c) : stamp c ≤ bound :=
  h c fun i hi' hlt => hc ▸ (Ring.slot_ne (by omega) (by omega)).symm

end

/-! ## an index of a ring

The thread `t` alone stores to the location `l`: the number of its completed rounds, modulo `cap`.  It
makes `made` accesses to the slots, and each of them before the store of its round. -/

section
variable {θ ℓ : Type} [DecidableEq θ] [DecidableEq ℓ] {cap : Nat}

structure RingIndex (cap : Nat) (l : ℓ) (t : θ) (messages foreign : List (Message θ ℓ Nat))
    (mine theirs : Knowledge θ ℓ) (count made : Nat) (stamp : Fin cap → Nat) : Prop where
  length_eq : messages.length = count + 1
  value : ∀ (i : Nat) (message : Message θ ℓ Nat), messages[i]? = some message → message.value = i % cap
  seen : ∀ (i : Nat) (message : Message θ ℓ Nat), messages[i]? = some message → message.knows.2 l ≤ i
  passes : ∀ (i : Nat) (message : Message θ ℓ Nat), messages[i]? = some message →
    Covered cap stamp i made (message.knows.1 t)
  foreign_le : ∀ message ∈ foreign, message.knows.2 l ≤ count
  mine_eq : mine.2 l = count
  stamps : ∀ c, stamp c ≤ mine.1 t
  theirs_le : theirs.2 l ≤ count
  covered : Covered cap stamp (theirs.2 l) made (theirs.1 t)

namespace RingIndex
variable {l : ℓ} {t : θ} {messages foreign : List (Message θ ℓ Nat)} {mine theirs : Knowledge θ ℓ}
  {count made : Nat} {stamp : Fin cap → Nat}

/-- what is learnt about other things does not matter -/
theorem mono (h : RingIndex cap l t messages foreign mine theirs count made stamp)
    {mine' theirs' : Knowledge θ ℓ} (hmine : mine.1 t ≤ mine'.1 t) (hown : mine'.2 l = mine.2 l)
    (htheirs : theirs.1 t ≤ theirs'.1 t) (hother : theirs'.2 l = theirs.2 l) :
    RingIndex cap l t messages foreign mine' theirs' count made stamp where
  length_eq := h.length_eq
  value := h.value
  seen := h.seen
  passes := h.passes
  foreign_le := h.foreign_le
  mine_eq := hown.trans h.mine_eq
  stamps := fun c => (h.stamps c).trans hmine
  theirs_le := hother ▸ h.theirs_le
  covered := hother ▸ h.covered.mono htheirs

/-- the last message -/
theorem latest (h : RingIndex cap l t messages foreign mine theirs count made stamp) :
    ∃ message, messages[count]? = some message ∧ message.value = count % cap := by
  have hlt : count < messages.length := by
    rw [h.length_eq]
    exact Nat.lt_succ_self count
  exact ⟨_, List.getElem?_eq_getElem hlt, h.value count _ (List.getElem?_eq_getElem hlt)⟩

/-- the thread itself reads its last message -/
theorem own (h : RingIndex cap l t messages foreign mine theirs count made stamp) {i : Nat}
    {message : Message θ ℓ Nat} (hi : messages[i]? = some message) (hle : mine.2 l ≤ i) :
    message.value = count % cap ∧ mine ⊔ Memory.noticed l i ⊔ ⊥ = mine := by
  have hlt := (List.getElem?_eq_some_iff.mp hi).1
  rw [h.length_eq] at hlt
  have hown := h.mine_eq
  obtain rfl : i = count := by omega
  refine ⟨h.value i message hi, ?_⟩
  rw [sup_bot_eq]
  refine Prod.ext Memory.sup_noticed_epochs (funext fun l' => ?_)
  by_cases hl : l' = l
  · rw [hl, Memory.sup_noticed_self]
    omega
  · exact Memory.sup_noticed_of_ne hl

/-- a message that the other thread reads with an acquire load -/
theorem acquire (h : RingIndex cap l t messages foreign mine theirs count made stamp) {i : Nat}
    {message : Message θ ℓ Nat} (hi : messages[i]? = some message) (hle : theirs.2 l ≤ i) :
    (theirs ⊔ Memory.noticed l i ⊔ message.knows).2 l = i ∧ i ≤ count ∧ message.value = i % cap ∧
      RingIndex cap l t messages foreign mine (theirs ⊔ Memory.noticed l i ⊔ message.knows) count made
        stamp := by
  have hseen := h.seen i message hi
  have hat : (theirs ⊔ Memory.noticed l i ⊔ message.knows).2 l = i := by
    rw [Prod.snd_sup, Pi.sup_apply, Memory.sup_noticed_self]
    omega
  have hcount : i ≤ count := by
    have hlt := (List.getElem?_eq_some_iff.mp hi).1
    rw [h.length_eq] at hlt
    omega
  refine ⟨hat, hcount, h.value i message hi, ?_⟩
  exact {
    length_eq := h.length_eq
    value := h.value
    seen := h.seen
    passes := h.passes
    foreign_le := h.foreign_le
    mine_eq := h.mine_eq
    stamps := h.stamps
    theirs_le := hat.le.trans hcount
    covered := by
      rw [hat]
      exact (h.passes i message hi).mono le_sup_right }

/-- the thread itself reads a message of the other one -/
theorem learn (h : RingIndex cap l t messages foreign mine theirs count made stamp)
    {message : Message θ ℓ Nat} (hm : message ∈ foreign) (l' : ℓ) (hl : l ≠ l') (i : Nat) :
    RingIndex cap l t messages foreign (mine ⊔ Memory.noticed l' i ⊔ message.knows) theirs count made
      stamp := by
  have hle := h.foreign_le message hm
  refine h.mono (le_sup_of_le_left (le_of_eq (congrFun Memory.sup_noticed_epochs.symm t))) ?_ le_rfl rfl
  rw [Prod.snd_sup, Pi.sup_apply, Memory.sup_noticed_of_ne hl]
  exact max_eq_left (h.mine_eq ▸ hle)

/-- an access to the next slot -/
theorem access (h : RingIndex cap l t messages foreign mine theirs count count stamp) {c : Fin cap}
    (hc : count % cap = c) :
    RingIndex cap l t messages foreign mine theirs count (count + 1)
      (Function.update stamp c (mine.1 t)) where
  length_eq := h.length_eq
  value := h.value
  seen := h.seen
  passes := fun i message hi => by
    have hlt := (List.getElem?_eq_some_iff.mp hi).1
    rw [h.length_eq] at hlt
    exact (h.passes i message hi).access (by omega) hc _
  foreign_le := h.foreign_le
  mine_eq := h.mine_eq
  stamps := fun c' => by
    rw [Function.update_apply]
    split
    · exact le_rfl
    · exact h.stamps c'
  theirs_le := h.theirs_le
  covered := h.covered.access h.theirs_le hc _

/-- the release store that completes a round -/
theorem store (h : RingIndex cap l t messages foreign mine theirs count (count + 1) stamp)
    {v : Nat} (hv : v = (count + 1) % cap) :
    RingIndex cap l t (messages ++ [⟨v, mine ⊔ Memory.noticed l messages.length⟩]) foreign
      (Memory.advance t (mine ⊔ Memory.noticed l messages.length)) theirs (count + 1) (count + 1)
      stamp := by
  have hnew : (mine ⊔ Memory.noticed l messages.length).2 l = count + 1 := by
    rw [Memory.sup_noticed_self, h.mine_eq, h.length_eq]
    omega
  have hstamps : ∀ c, stamp c ≤ (mine ⊔ Memory.noticed l messages.length).1 t := fun c =>
    (h.stamps c).trans le_sup_left
  -- a message is an old one or the new one
  have hcases : ∀ (i : Nat) (message : Message θ ℓ Nat),
      (messages ++ [⟨v, mine ⊔ Memory.noticed l messages.length⟩])[i]? = some message →
      messages[i]? = some message ∨
        i = count + 1 ∧ message = ⟨v, mine ⊔ Memory.noticed l messages.length⟩ := by
    intro i message hi
    rw [List.getElem?_append] at hi
    split at hi
    · exact .inl hi
    · obtain ⟨hlt, he⟩ := List.getElem?_eq_some_iff.mp hi
      rw [List.length_singleton] at hlt
      have hlen := h.length_eq
      refine .inr ⟨by omega, ?_⟩
      rw [← he, List.getElem_singleton]
  refine {
    length_eq := by rw [List.length_append, List.length_singleton, h.length_eq]
    value := ?_
    seen := ?_
    passes := ?_
    foreign_le := fun message hm => (h.foreign_le message hm).trans (Nat.le_succ _)
    mine_eq := hnew
    stamps := ?_
    theirs_le := h.theirs_le.trans (Nat.le_succ _)
    covered := h.covered }
  · intro i message hi
    obtain hold | ⟨rfl, rfl⟩ := hcases i message hi
    · exact h.value i message hold
    · exact hv
  · intro i message hi
    obtain hold | ⟨rfl, rfl⟩ := hcases i message hi
    · exact h.seen i message hold
    · exact hnew.le
  · intro i message hi
    obtain hold | ⟨rfl, rfl⟩ := hcases i message hi
    · exact h.passes i message hold
    · exact Covered.of_stamps hstamps
  · intro c
    rw [Memory.advance_self]
    exact (hstamps c).trans (Nat.le_succ _)

/-- the other thread stores to its own location -/
theorem other_store (h : RingIndex cap l t messages foreign mine theirs count made stamp) {u : θ} (hu : t ≠ u)
    {l' : ℓ} (hl : l ≠ l') (v i : Nat) :
    RingIndex cap l t messages (foreign ++ [⟨v, theirs ⊔ Memory.noticed l' i⟩]) mine
      (Memory.advance u (theirs ⊔ Memory.noticed l' i)) count made stamp := by
  have hseen : (theirs ⊔ Memory.noticed l' i).2 l = theirs.2 l := Memory.sup_noticed_of_ne hl
  have hepoch : (Memory.advance u (theirs ⊔ Memory.noticed l' i)).1 t = theirs.1 t := by
    rw [Memory.advance_of_ne hu, Memory.sup_noticed_epochs]
  have hmono : RingIndex cap l t messages foreign mine (Memory.advance u (theirs ⊔ Memory.noticed l' i)) count
      made stamp := h.mono le_rfl rfl hepoch.ge hseen
  refine { hmono with foreign_le := ?_ }
  intro message hm
  obtain hold | hnew := List.mem_append.mp hm
  · exact h.foreign_le message hold
  · rw [List.mem_singleton.mp hnew, hseen]
    exact h.theirs_le

end RingIndex

end

end Orderings
