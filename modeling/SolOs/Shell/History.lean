import SolOs.Lib.Checked
import SolOs.Lib.Ring

/-!
# The command history

`CommandHistory` of `shell.rs`: a ring of 16 lines of at most 80 bytes.

* `push`, `previous`, `next'`, `copyInto`    the four methods;
* `recents`            the stored lines, newest first;
* `record`             what `push` does to that list;
* `Represents h log`   the ring holds the end of the log of all lines ever stored;
* `push_spec`, `copyInto_spec`    the methods in terms of `recents`;
* `remember`, `history_refines_list`    **the history is a list of at most 16 lines**, oldest first.
-/

set_option linter.unusedVariables false

namespace SolOs
namespace Shell
open Checked

def lineCapacity : Nat := 80
def historyCapacity : Nat := 16

def isAsciiWhitespace (b : UInt8) : Bool :=
  b = 0x20 || b = 0x09 || b = 0x0a || b = 0x0c || b = 0x0d

structure CommandHistory where
  entries : List (List UInt8)
  lengths : List Nat
  count : Nat
  next : Nat

namespace CommandHistory

def new : CommandHistory :=
  ⟨List.replicate historyCapacity (List.replicate lineCapacity 0), List.replicate historyCapacity 0, 0, 0⟩

section
variable (h : CommandHistory)

/-- `(self.next + HISTORY_CAPACITY - 1 - position) % HISTORY_CAPACITY` -/
def index (position : Nat) : Run Empty Nat := do
  let sum ← add 64 h.next historyCapacity
  let newest ← sub sum 1
  let back ← sub newest position
  pure (back % historyCapacity)

/-- the test of `push` for a repeated line -/
def newestIs (line : List UInt8) : Run Empty Bool :=
  if h.count > 0 then do
    let newest ← h.index 0
    let length ← get h.lengths newest
    if length = line.length then do
      let entry ← get h.entries newest
      let stored ← slice entry 0 line.length
      pure (decide (stored = line))
    else pure false
  else pure false

def push (line : List UInt8) : Run Empty CommandHistory :=
  if line.all isAsciiWhitespace then pure h
  else do
    let known ← h.newestIs line
    if known then pure h
    else do
      let entry ← get h.entries h.next
      let entry ← splice entry 0 line
      let entries ← put h.entries h.next entry
      let lengths ← put h.lengths h.next line.length
      let next ← add 64 h.next 1
      let count ← add 64 h.count 1
      pure ⟨entries, lengths, min count historyCapacity, next % historyCapacity⟩

/-- the new position, and the draft with its length -/
def previous (current : Option Nat) (line : List UInt8) (lineLength : Nat) (draft : List UInt8)
    (draftLength : Nat) : Run Empty (Option Nat × List UInt8 × Nat) :=
  if h.count = 0 then pure (none, draft, draftLength)
  else
    match current with
    | some position => do
      let older ← add 64 position 1
      pure (some (if older < h.count then older else position), draft, draftLength)
    | none => do
      let saved ← slice line 0 lineLength
      let draft ← splice draft 0 saved
      pure (some 0, draft, lineLength)

/-- `next`; it does not look at the history -/
def next' (current : Option Nat) : Option (Option Nat) :=
  match current with
  | some position => if position > 0 then some (some (position - 1)) else some none
  | none => none

/-- the length of the entry, and the output array -/
def copyInto (position : Nat) (output : List UInt8) : Run Empty (Nat × List UInt8) := do
  let index ← h.index position
  let length ← get h.lengths index
  let entry ← get h.entries index
  let stored ← slice entry 0 length
  let output ← splice output 0 stored
  pure (length, output)

/-! ## the stored lines -/

def slot (i : Nat) : Option (List UInt8) :=
  (h.entries[i]?).bind fun entry => (h.lengths[i]?).map fun length => entry.take length

/-- the stored lines, newest first -/
def recents : List (List UInt8) :=
  (List.range h.count).map fun k => (h.slot ((h.next + 15 - k) % historyCapacity)).getD []

end

/-- a line joins the list, unless it is blank or repeats the newest one -/
def record (hist : List (List UInt8)) (line : List UInt8) : List (List UInt8) :=
  if line.all isAsciiWhitespace then hist
  else if hist.head? = some line then hist
  else (line :: hist).take historyCapacity

structure Represents (h : CommandHistory) (log : List (List UInt8)) : Prop where
  entries_length : h.entries.length = 16
  entry_length : ∀ entry ∈ h.entries, entry.length = 80
  lengths_length : h.lengths.length = 16
  length_le : ∀ length ∈ h.lengths, length ≤ 80
  next_eq : h.next = log.length % 16
  count_eq : h.count = min log.length 16
  held : Ring.Holds 16 h.slot log (log.length - 16)

theorem new_represents : Represents new [] where
  entries_length := by simp [new, historyCapacity]
  entry_length := by simp [new, historyCapacity, lineCapacity]
  lengths_length := by simp [new, historyCapacity]
  length_le := by simp [new, historyCapacity]
  next_eq := rfl
  count_eq := rfl
  held := Ring.Holds.all_read _ _ []

section
variable {h : CommandHistory} {log : List (List UInt8)}

theorem Represents.count_le (hr : Represents h log) : h.count ≤ 16 := by
  rw [hr.count_eq]
  exact min_le_right _ _

theorem Represents.next_lt (hr : Represents h log) : h.next < 16 := by
  rw [hr.next_eq]
  exact Nat.mod_lt _ (by norm_num)

/-- where the line at a position is stored -/
theorem Represents.index_eq (hr : Represents h log) {k : Nat} (hk : k ≤ 15) :
    h.index k = .ok ((h.next + 15 - k) % 16) := by
  have hn := hr.next_lt
  unfold index historyCapacity
  rw [add_of_lt (by omega), bind_ok, sub_of_le (by omega), bind_ok, sub_of_le (by omega), bind_ok,
    pure_eq, Nat.add_sub_assoc (by norm_num)]

/-- the ring holds the newest lines of the log -/
theorem Represents.slot_eq (hr : Represents h log) {k : Nat} (hk : k < h.count) :
    h.slot ((h.next + 15 - k) % 16) = log[log.length - 1 - k]? := by
  have hc := hr.count_eq
  have hi : (h.next + 15 - k) % 16 = (log.length - 1 - k) % 16 := by
    rw [hr.next_eq]
    omega
  rw [hi]
  exact hr.held _ (by omega) (by omega)

theorem Represents.recents_eq (hr : Represents h log) : h.recents = log.reverse.take 16 := by
  have hc := hr.count_eq
  unfold recents
  refine List.ext_getElem ?_ (fun k h1 h2 => ?_)
  · rw [List.length_map, List.length_range, List.length_take, List.length_reverse]
    omega
  · rw [List.length_map, List.length_range] at h1
    rw [List.getElem_map, List.getElem_range, List.getElem_take, List.getElem_reverse]
    show (h.slot ((h.next + 15 - k) % 16)).getD [] = _
    rw [hr.slot_eq h1, List.getElem?_eq_getElem (by omega)]
    rfl

/-- the array and the length behind a stored line -/
theorem Represents.stored (hr : Represents h log) {i : Nat} (hi : i < 16) :
    ∃ entry length, h.entries[i]? = some entry ∧ h.lengths[i]? = some length ∧ entry.length = 80 ∧
      length ≤ 80 ∧ h.slot i = some (entry.take length) := by
  have h1 := hr.entries_length
  have h2 := hr.lengths_length
  have he : h.entries[i]? = some h.entries[i] := List.getElem?_eq_getElem (by omega)
  have hl : h.lengths[i]? = some h.lengths[i] := List.getElem?_eq_getElem (by omega)
  refine ⟨_, _, he, hl, hr.entry_length _ (List.getElem_mem _), hr.length_le _ (List.getElem_mem _), ?_⟩
  unfold slot
  rw [he, hl]
  rfl

/-! ## the methods -/

/-- the repeated line is recognised -/
theorem newestIs_eq (hr : Represents h log) (line : List UInt8) :
    h.newestIs line = .ok (decide (h.recents.head? = some line)) := by
  unfold newestIs
  by_cases hc : h.count > 0
  · have hlt : (h.next + 15) % 16 < 16 := Nat.mod_lt _ (by norm_num)
    obtain ⟨entry, length, he, hl, helen, hle, hslot⟩ := hr.stored hlt
    have hhead : h.recents.head? = some (entry.take length) := by
      have hcons : List.range h.count = 0 :: (List.range (h.count - 1)).map (· + 1) := by
        rw [← List.range_succ_eq_map, Nat.sub_add_cancel hc]
      unfold recents
      rw [hcons, List.map_cons, List.head?_cons]
      show some ((h.slot ((h.next + 15) % 16)).getD []) = _
      rw [hslot]
      rfl
    rw [if_pos hc, hr.index_eq (Nat.zero_le _), bind_ok, Nat.sub_zero, get_of_getElem? hl, bind_ok,
      hhead]
    by_cases hlen : length = line.length
    · rw [if_pos hlen, get_of_getElem? he, bind_ok, slice_of_le (Nat.zero_le _) (by omega), bind_ok,
        pure_eq, List.drop_zero, ← hlen, decide_eq_decide.mpr Option.some_inj]
    · rw [if_neg hlen, pure_eq, decide_eq_false]
      intro e
      have := congrArg List.length (Option.some.inj e)
      rw [List.length_take] at this
      omega
  · have h0 : h.count = 0 := by omega
    have hnil : h.recents = [] := by
      unfold recents
      rw [h0]
      rfl
    rw [if_neg hc, pure_eq, hnil]
    rfl

/-- the slots after a new line is stored -/
theorem slot_push {entries : List (List UInt8)} {lengths : List Nat} {entry line : List UInt8}
    {i : Nat} (he : i < h.entries.length) (hl : i < h.lengths.length)
    (hentries : entries = h.entries.set i entry) (hlengths : lengths = h.lengths.set i line.length)
    (hline : entry.take line.length = line) (count next : Nat) :
    slot ⟨entries, lengths, count, next⟩ = Function.update h.slot i (some line) := by
  funext j
  unfold slot
  subst hentries hlengths
  by_cases hj : j = i
  · subst hj
    rw [Function.update_self, List.getElem?_set_self he, List.getElem?_set_self hl]
    show some (entry.take line.length) = _
    rw [hline]
  · rw [Function.update_of_ne hj, List.getElem?_set_ne (Ne.symm hj), List.getElem?_set_ne (Ne.symm hj)]

theorem Represents.push (hr : Represents h log) {entry line : List UInt8}
    (hentry : entry.length = 80) (hline : line.length ≤ 80)
    (htake : entry.take line.length = line) :
    Represents ⟨h.entries.set h.next entry, h.lengths.set h.next line.length,
      min (h.count + 1) historyCapacity, (h.next + 1) % historyCapacity⟩ (log ++ [line]) := by
  have hn := hr.next_lt
  have hel := hr.entries_length
  have hll := hr.lengths_length
  refine ⟨(List.length_set).trans hel, ?_, (List.length_set).trans hll, ?_, ?_, ?_, ?_⟩
  · intro e hmem
    rcases List.mem_or_eq_of_mem_set hmem with hmem | rfl
    · exact hr.entry_length e hmem
    · exact hentry
  · intro l hmem
    rcases List.mem_or_eq_of_mem_set hmem with hmem | rfl
    · exact hr.length_le l hmem
    · exact hline
  · show (h.next + 1) % 16 = _
    rw [hr.next_eq, List.length_append, List.length_singleton, Ring.next_slot]
  · show min (h.count + 1) 16 = _
    rw [hr.count_eq, List.length_append, List.length_singleton]
    omega
  · rw [slot_push (by omega) (by omega) rfl rfl htake, hr.next_eq, List.length_append,
      List.length_singleton]
    exact (hr.held.mono (by omega)).push (by omega) line

/-- **`push` records the line** -/
theorem push_spec (hr : Represents h log) {line : List UInt8} (hline : line.length ≤ 80) :
    ∃ h' log', h.push line = .ok h' ∧ Represents h' log' ∧ h'.recents = record h.recents line := by
  unfold push record
  by_cases hblank : line.all isAsciiWhitespace = true
  · rw [if_pos hblank, if_pos hblank]
    exact ⟨h, log, rfl, hr, rfl⟩
  rw [if_neg hblank, if_neg hblank, newestIs_eq hr, bind_ok]
  by_cases hknown : h.recents.head? = some line
  · rw [if_pos (decide_eq_true hknown), if_pos hknown]
    exact ⟨h, log, rfl, hr, rfl⟩
  rw [if_neg (by rw [decide_eq_true_eq]; exact hknown), if_neg hknown]
  have hn := hr.next_lt
  have hc := hr.count_le
  have hel := hr.entries_length
  have hll := hr.lengths_length
  obtain ⟨entry, length, he, hl, helen, _, _⟩ := hr.stored hn
  have hfit : line.length ≤ entry.length := by omega
  obtain ⟨entry', hsplice, hlen', htake, _⟩ := splice_front (ε := Empty) hfit
  have hr' := hr.push (hlen'.trans helen) hline htake
  refine ⟨_, log ++ [line], ?_, hr', ?_⟩
  · rw [get_of_getElem? he, bind_ok, hsplice, bind_ok, put_of_lt (by omega), bind_ok,
      put_of_lt (by omega), bind_ok, add_of_lt (by omega), bind_ok, add_of_lt (by omega), bind_ok,
      pure_eq]
  · rw [hr'.recents_eq, hr.recents_eq, List.reverse_append]
    show (line :: log.reverse).take 16 = (line :: log.reverse.take 16).take 16
    rw [List.take_succ_cons, List.take_succ_cons, List.take_take]
    rfl

/-- **`copy_into` copies the line at its position**, and leaves the rest of the output alone -/
theorem copyInto_spec (hr : Represents h log) {k : Nat} (hk : k < h.count) {output : List UInt8}
    (ho : output.length = 80) :
    ∃ entry output', h.recents[k]? = some entry ∧ entry.length ≤ 80 ∧
      h.copyInto k output = .ok (entry.length, output') ∧ output'.length = 80 ∧
      output'.take entry.length = entry ∧ output'.drop entry.length = output.drop entry.length := by
  have hc := hr.count_le
  have hlt : (h.next + 15 - k) % 16 < 16 := Nat.mod_lt _ (by norm_num)
  obtain ⟨entry, length, he, hl, helen, hle, hslot⟩ := hr.stored hlt
  have hlen : (entry.take length).length = length := by
    rw [List.length_take]
    omega
  have hfit : (entry.take length).length ≤ output.length := by omega
  obtain ⟨output', hsplice, hlen', htake, hdrop⟩ := splice_front (ε := Empty) hfit
  refine ⟨entry.take length, output', ?_, by omega, ?_, hlen'.trans ho, htake, hdrop⟩
  · unfold recents
    rw [List.getElem?_map, List.getElem?_range hk]
    show some ((h.slot ((h.next + 15 - k) % 16)).getD []) = _
    rw [hslot]
    rfl
  · unfold copyInto
    rw [hr.index_eq (by omega), bind_ok, get_of_getElem? hl, bind_ok, get_of_getElem? he, bind_ok,
      slice_of_le (Nat.zero_le _) (by omega), bind_ok, List.drop_zero, hsplice, bind_ok, pure_eq, hlen]

/-! ## the bounded list -/

/-- oldest line first: a line is appended unless it is blank or repeats the last one, and only the last
16 lines are kept -/
def remember (lines : List (List UInt8)) (line : List UInt8) : List (List UInt8) :=
  if line.all isAsciiWhitespace then lines
  else if lines.getLast? = some line then lines
  else (lines ++ [line]).rtake historyCapacity

theorem record_reverse (lines : List (List UInt8)) (line : List UInt8) :
    record lines.reverse line = (remember lines line).reverse := by
  unfold record remember
  rw [List.head?_reverse]
  split_ifs
  · rfl
  · rfl
  · rw [List.rtake_eq_reverse_take_reverse, List.reverse_reverse, List.reverse_append]
    rfl

/-- no line repeats the one before it -/
theorem remember_distinct {lines : List (List UInt8)} (hd : lines.IsChain (· ≠ ·)) (line : List UInt8) :
    (remember lines line).IsChain (· ≠ ·) := by
  unfold remember
  split_ifs with hblank hlast
  · exact hd
  · exact hd
  · have hall : (lines ++ [line]).IsChain (· ≠ ·) := by
      refine List.isChain_append.mpr ⟨hd, List.isChain_singleton _, ?_⟩
      intro x hx y hy heq
      obtain rfl : line = y := by simpa using hy
      rw [heq] at hx
      exact hlast hx
    exact hall.suffix (List.drop_suffix _ _)

/-- a sequence of calls of `push` -/
def pushAll (h : CommandHistory) (lines : List (List UInt8)) : Run Empty CommandHistory :=
  forEach lines (fun line h => h.push line) h

theorem pushAll_spec (hr : Represents h log) {kept : List (List UInt8)} (hk : h.recents = kept.reverse)
    {lines : List (List UInt8)} (hlines : ∀ line ∈ lines, line.length ≤ 80) :
    ∃ h' log', h.pushAll lines = .ok h' ∧ Represents h' log' ∧
      h'.recents = (lines.foldl remember kept).reverse := by
  induction lines generalizing h log kept with
  | nil => exact ⟨h, log, rfl, hr, hk⟩
  | cons line lines ih =>
    obtain ⟨h₁, log₁, hpush, hr₁, hrec⟩ := push_spec hr (hlines line List.mem_cons_self)
    rw [hk, record_reverse] at hrec
    obtain ⟨h', log', hrun, hr', hrec'⟩ := ih hr₁ hrec (fun l hl => hlines l (List.mem_cons_of_mem _ hl))
    refine ⟨h', log', ?_, hr', hrec'⟩
    show (h.push line >>= fun h => h.pushAll lines) = _
    rw [hpush, bind_ok, hrun]

theorem foldl_remember_distinct (lines : List (List UInt8)) {kept : List (List UInt8)}
    (hd : kept.IsChain (· ≠ ·)) : (lines.foldl remember kept).IsChain (· ≠ ·) := by
  induction lines generalizing kept with
  | nil => exact hd
  | cons line lines ih => exact ih (remember_distinct hd line)

end

/-- **the history is a bounded list**: after any calls of `push` the ring holds the lines that `remember`
keeps, none of which repeats the one before it; `copy_into` writes the line that stands `k` places before
the newest one to the start of the output, and returns its length -/
theorem history_refines_list (lines : List (List UInt8)) (hlines : ∀ line ∈ lines, line.length ≤ 80) :
    ∃ h, new.pushAll lines = .ok h ∧
      h.count = (lines.foldl remember []).length ∧
      (∀ k < h.count, ∀ output : List UInt8, output.length = 80 →
        ∃ entry output', (lines.foldl remember [])[(lines.foldl remember []).length - 1 - k]? = some entry ∧
          h.copyInto k output = .ok (entry.length, output') ∧
          output'.take entry.length = entry ∧
          output'.drop entry.length = output.drop entry.length) ∧
      (lines.foldl remember []).IsChain (· ≠ ·) := by
  have hnew : new.recents = ([] : List (List UInt8)).reverse := rfl
  obtain ⟨h, log, hrun, hr, hrec⟩ := pushAll_spec new_represents hnew hlines
  have hcount : h.count = (lines.foldl remember []).length := by
    rw [← List.length_reverse, ← hrec, recents, List.length_map, List.length_range]
  refine ⟨h, hrun, hcount, ?_, foldl_remember_distinct lines List.isChain_nil⟩
  intro k hk output ho
  obtain ⟨entry, output', hentry, _, hcopy, _, htake, hdrop⟩ := copyInto_spec hr hk ho
  refine ⟨entry, output', ?_, hcopy, htake, hdrop⟩
  rw [hrec, List.getElem?_reverse (by omega)] at hentry
  exact hentry

/-- three lines, the last one twice -/
theorem history_refines_list_three :
    ∃ h, new.pushAll [[0x61], [0x62, 0x63], [0x62, 0x63]] = .ok h ∧ h.count = 2 := by
  obtain ⟨h, hrun, hcount, _⟩ := history_refines_list [[0x61], [0x62, 0x63], [0x62, 0x63]] (by decide)
  exact ⟨h, hrun, hcount.trans (by decide)⟩

end CommandHistory
end Shell
end SolOs
