import SolOs.Keyboard.Decode
import SolOs.Lib.Steps

/-!
# The keys behind the scancodes

`handle_scancode` is fed by a keyboard.  Here is the keyboard: its keys go down, repeat and go up, and
each of these sends a code of scan code set 1.  The two modifier bits of the decoder are compared with
what the keys themselves say.

* `Key`, `Stroke`, `Stroke.codes`   the keys, what happens to them, and the bytes that are sent;
* `Board`, `Board.step`             the keys that are held, and the decoder behind them;
* `legendRows`, `calledFor`         what is printed on the keys, and what a stroke calls for;
* `feed_codes`                      what the decoder makes of one stroke;
* `shift_faithful_iff`              **when the Shift bit says that a Shift key is held**;
* `capsLock_parity_iff`             **when the Caps Lock bit counts the presses of the key.**
-/

set_option linter.unusedVariables false

namespace SolOs
namespace Keyboard

/-! ## keys and codes -/

/-- a key by its make code, which an extended key sends behind `0xe0`.  No key has the code `0x60`: its
break code would be that byte. -/
@[ext] structure Key where
  extended : Bool
  code : UInt8
  code_lt : code.toNat < 0x80
  code_ne : code ≠ 0x60
  deriving DecidableEq

def leftShift : Key := ⟨false, 0x2a, by decide, by decide⟩
def rightShift : Key := ⟨false, 0x36, by decide, by decide⟩
def capsLock : Key := ⟨false, 0x3a, by decide, by decide⟩

def Key.isShift (key : Key) : Bool := key = leftShift ∨ key = rightShift

/-- `fakeShift` are the codes that the keyboard adds around some extended keys, whatever the Shift keys
do; `Pause` has one code for press and release -/
inductive Stroke where
  | press (key : Key)
  | again (key : Key)
  | release (key : Key)
  | fakeShift (right up : Bool)
  | pause
  deriving DecidableEq

def Key.codes (key : Key) (byte : UInt8) : List UInt8 := if key.extended then [0xe0, byte] else [byte]

def Stroke.codes : Stroke → List UInt8
  | .press key | .again key => key.codes key.code
  | .release key => key.codes (key.code ||| 0x80)
  | .fakeShift false false => [0xe0, 0x2a]
  | .fakeShift false true => [0xe0, 0xaa]
  | .fakeShift true false => [0xe0, 0x36]
  | .fakeShift true true => [0xe0, 0xb6]
  | .pause => [0xe1, 0x1d, 0x45, 0xe1, 0x9d, 0xc5]

/-- the keys that are held after a stroke; `none` when the stroke is not possible -/
def strike (held : Key → Bool) : Stroke → Option (Key → Bool)
  | .press key => if held key then none else some (Function.update held key true)
  | .again key => if held key then some held else none
  | .release key => if held key then some (Function.update held key false) else none
  | .fakeShift _ _ | .pause => some held

/-! ## the decoder behind the keyboard -/

/-- byte by byte -/
def feed : Decoder → List UInt8 → Decoder × List KeyEvent
  | d, [] => (d, [])
  | d, byte :: rest =>
    ((feed (handleScancode d byte).1 rest).1,
      (handleScancode d byte).2.toList ++ (feed (handleScancode d byte).1 rest).2)

structure Board where
  held : Key → Bool
  decoder : Decoder

namespace Board

def init : Board := ⟨fun _ => false, .new⟩

def step (b : Board) (stroke : Stroke) : Option Board :=
  (strike b.held stroke).map fun held => ⟨held, (feed b.decoder stroke.codes).1⟩

/-- the state after some strokes -/
def after (strokes : List Stroke) : Option Board := Steps.run step init strokes

end Board

def shiftHeld (held : Key → Bool) : Bool := held leftShift || held rightShift

def Decoder.shift (d : Decoder) : Bool := d.modifiers &&& shiftBit ≠ 0

def Decoder.capsLock (d : Decoder) : Bool := d.modifiers &&& capsLockBit ≠ 0

/-! ## what the keys call for -/

/-- the rows of a US keyboard: the make code of the first key, which the others of the row follow, and what is
printed on the keys, below and above.  The two quotes, the backquote and the backslash are given by their codes. -/
def legendRows : List (Nat × List (Char × Char)) :=
  [(0x02, [('1', '!'), ('2', '@'), ('3', '#'), ('4', '$'), ('5', '%'), ('6', '^'), ('7', '&'), ('8', '*'), ('9', '('),
      ('0', ')'), ('-', '_'), ('=', '+')]),
    (0x10, [('q', 'Q'), ('w', 'W'), ('e', 'E'), ('r', 'R'), ('t', 'T'), ('y', 'Y'), ('u', 'U'), ('i', 'I'), ('o', 'O'),
      ('p', 'P'), ('[', '{'), (']', '}')]),
    (0x1e, [('a', 'A'), ('s', 'S'), ('d', 'D'), ('f', 'F'), ('g', 'G'), ('h', 'H'), ('j', 'J'), ('k', 'K'), ('l', 'L'),
      (';', ':'), (.ofNat 0x27, .ofNat 0x22), (.ofNat 0x60, '~')]),
    (0x2b, [(.ofNat 0x5c, '|'), ('z', 'Z'), ('x', 'X'), ('c', 'C'), ('v', 'V'), ('b', 'B'), ('n', 'N'), ('m', 'M'),
      (',', '<'), ('.', '>'), ('/', '?')]),
    (0x39, [(' ', ' ')])]

/-- the keys without a character that the kernel knows; those of the keypad are not among them -/
def namedKeys : List ((Bool × Nat) × KeyEvent) :=
  [((false, 0x0e), .backspace), ((false, 0x0f), .tab), ((false, 0x1c), .enter), ((true, 0x47), .home),
    ((true, 0x48), .up), ((true, 0x4b), .left), ((true, 0x4d), .right), ((true, 0x4f), .end_), ((true, 0x50), .down),
    ((true, 0x53), .delete)]

/-- what is printed on the key with this make code -/
def legend (code : Nat) : Option (Char × Char) :=
  legendRows.findSome? fun row => if row.1 ≤ code then row.2[code - row.1]? else none

/-- the upper character is for Shift, and on a letter Caps Lock turns that round -/
def chosen (shift caps : Bool) (printed : Char × Char) : Char :=
  if printed.1.isLower then if shift ≠ caps then printed.2 else printed.1
  else if shift then printed.2 else printed.1

/-- what a key calls for while Shift is held, or not -/
def keyCallsFor (shift caps extended : Bool) (code : Nat) : Option KeyEvent :=
  match namedKeys.lookup (extended, code) with
  | some event => some event
  | none => if extended then none else (legend code).map fun printed => .character (byteOf (chosen shift caps printed))

def calledFor (shift caps : Bool) : Stroke → List KeyEvent
  | .press key | .again key => (keyCallsFor shift caps key.extended key.code.toNat).toList
  | _ => []

/-- what the tables of the decoder have for a key, with these modifiers -/
def Key.decoded (key : Key) (shift caps : Bool) : Option KeyEvent :=
  if key.extended then extendedEventForSet1 key.code else asciiForSet1 key.code shift caps

/-- **the tables have what the keys call for** -/
theorem Key.decoded_eq (key : Key) (shift caps : Bool) :
    key.decoded shift caps = keyCallsFor shift caps key.extended key.code.toNat := by
  have htables : ∀ code < 0x80, ∀ shift caps extended,
      (if extended then extendedEventForSet1 (UInt8.ofNat code) else asciiForSet1 (UInt8.ofNat code) shift caps)
        = keyCallsFor shift caps extended code := by
    decide +kernel
  have hkey := htables key.code.toNat key.code_lt shift caps key.extended
  rwa [UInt8.ofNat_toNat] at hkey

/-! ## bits -/

section
variable {m mask : UInt8}

theorem and_ne_zero_iff {i : Nat} (h : mask.toNat = 2^i) : m &&& mask ≠ 0 ↔ m.toNat.testBit i = true := by
  rw [Ne, ← UInt8.toNat_inj, UInt8.toNat_and, h, Nat.and_two_pow]
  cases m.toNat.testBit i <;> simp

variable {d : Decoder}

theorem shift_eq_true_iff : d.shift = true ↔ d.modifiers &&& shiftBit ≠ 0 := decide_eq_true_iff

theorem capsLock_eq_true_iff : d.capsLock = true ↔ d.modifiers &&& capsLockBit ≠ 0 := decide_eq_true_iff

theorem shift_eq_testBit : d.shift = d.modifiers.toNat.testBit 0 :=
  Bool.eq_iff_iff.mpr (shift_eq_true_iff.trans (and_ne_zero_iff rfl))

theorem capsLock_eq_testBit : d.capsLock = d.modifiers.toNat.testBit 1 :=
  Bool.eq_iff_iff.mpr (capsLock_eq_true_iff.trans (and_ne_zero_iff rfl))

end

section
variable (key : Key)

theorem Key.make_high : key.code &&& 0x80 = 0 := by
  by_contra h
  have hbit := (and_ne_zero_iff (i := 7) rfl).mp h
  rw [Nat.testBit_lt_two_pow key.code_lt] at hbit
  exact Bool.false_ne_true hbit

theorem Key.break_toNat : (key.code ||| 0x80).toNat = key.code.toNat + 0x80 := by
  have h := Nat.two_pow_add_eq_or_of_lt (i := 7) key.code_lt 1
  rw [UInt8.toNat_or, Nat.or_comm, Nat.add_comm]
  exact h.symm

theorem Key.break_high : (key.code ||| 0x80) &&& 0x80 ≠ 0 := by
  rw [and_ne_zero_iff (i := 7) rfl, UInt8.toNat_or, Nat.testBit_or, Bool.or_eq_true]
  exact .inr rfl

/-- no make code is a byte with the high bit set -/
theorem Key.make_ne {byte : UInt8} (h : 0x80 ≤ byte.toNat) : key.code ≠ byte := by
  intro e
  exact absurd key.code_lt (by rw [e]; omega)

/-- the break codes of two keys differ when their make codes do -/
theorem Key.break_eq_iff {low : UInt8} (h : low.toNat < 0x80) :
    key.code ||| 0x80 = low + 0x80 ↔ key.code = low := by
  rw [← UInt8.toNat_inj, key.break_toNat, UInt8.toNat_add, ← UInt8.toNat_inj]
  have h80 : (0x80 : UInt8).toNat = 128 := rfl
  have := key.code_lt
  omega

end

/-! ## one stroke -/

/-- the modifiers after a make code -/
def Key.down (key : Key) (modifiers : UInt8) : UInt8 :=
  if key.isShift then modifiers ||| shiftBit
  else if key = capsLock then modifiers ^^^ capsLockBit
  else modifiers

/-- the modifiers after a break code -/
def Key.up (key : Key) (modifiers : UInt8) : UInt8 :=
  if key.isShift then modifiers &&& ~~~shiftBit else modifiers

def Stroke.modifiers : Stroke → UInt8 → UInt8
  | .press key | .again key => key.down
  | .release key => key.up
  | .fakeShift _ _ | .pause => id

section
variable {d : Decoder} {key : Key}

theorem Key.eq_iff {other : Key} (hk : key.extended = false) (ho : other.extended = false) :
    key = other ↔ key.code = other.code := by
  rw [Key.ext_iff, hk, ho]
  simp

/-- the tables have no character for a modifier key -/
theorem asciiForSet1_modifier {shift caps : Bool} {code : UInt8}
    (h : code = 0x2a ∨ code = 0x36 ∨ code = 0x3a) : asciiForSet1 code shift caps = none := by
  rcases h with rfl | rfl | rfl <;> rfl

theorem handleScancode_make (hd : d.extended = false) (hk : key.extended = false) :
    handleScancode d key.code
      = (⟨key.down d.modifiers, false⟩, asciiForSet1 key.code d.shift d.capsLock) := by
  have hne : ∀ byte : UInt8, 0x80 ≤ byte.toNat → key.code ≠ byte := fun byte h => key.make_ne h
  have hshift : key.isShift = true ↔ (key.code = 0x2a ∨ key.code = 0x36) := by
    rw [Key.isShift, decide_eq_true_iff]
    exact or_congr (Key.eq_iff hk rfl) (Key.eq_iff hk rfl)
  have hcaps : key = Keyboard.capsLock ↔ key.code = 0x3a := Key.eq_iff hk rfl
  unfold handleScancode Key.down
  rw [if_neg (hne 0xe0 (by decide)), if_neg (by simp [hd])]
  simp only [hshift, hcaps]
  by_cases hs : key.code = 0x2a ∨ key.code = 0x36
  · rw [if_pos hs, if_pos hs, hd, asciiForSet1_modifier (or_assoc.mp (.inl hs))]
  rw [if_neg hs, if_neg hs, if_neg (not_or.mpr ⟨hne 0xaa (by decide), hne 0xb6 (by decide)⟩)]
  by_cases hc : key.code = 0x3a
  · rw [if_pos hc, if_pos hc, hd, asciiForSet1_modifier (.inr (.inr hc))]
  rw [if_neg hc, if_neg hc, if_neg (not_not.mpr key.make_high), ← hd]
  rfl

theorem handleScancode_break (hd : d.extended = false) (hk : key.extended = false) :
    handleScancode d (key.code ||| 0x80) = (⟨key.up d.modifiers, false⟩, none) := by
  have hmake : ∀ byte : UInt8, byte.toNat < 0x80 → key.code ||| 0x80 ≠ byte := by
    intro byte h e
    rw [← UInt8.toNat_inj, key.break_toNat] at e
    omega
  have hshift : key.isShift = true ↔ (key.code ||| 0x80 = 0xaa ∨ key.code ||| 0x80 = 0xb6) := by
    rw [Key.isShift, decide_eq_true_iff]
    exact or_congr ((Key.eq_iff hk rfl).trans (key.break_eq_iff (by decide)).symm)
      ((Key.eq_iff hk rfl).trans (key.break_eq_iff (by decide)).symm)
  have he0 : key.code ||| 0x80 ≠ 0xe0 := fun e => key.code_ne ((key.break_eq_iff (by decide)).mp e)
  unfold handleScancode Key.up
  rw [if_neg he0, if_neg (by simp [hd]),
    if_neg (not_or.mpr ⟨hmake 0x2a (by decide), hmake 0x36 (by decide)⟩)]
  simp only [hshift]
  by_cases hs : key.code ||| 0x80 = 0xaa ∨ key.code ||| 0x80 = 0xb6
  · rw [if_pos hs, if_pos hs, hd]
  · rw [if_neg hs, if_neg hs, if_neg (hmake 0x3a (by decide)), if_pos key.break_high, ← hd]

/-- a code behind the byte `0xe0` does not reach the modifiers -/
theorem feed_extended {byte : UInt8} (h : byte ≠ 0xe0) :
    feed d [0xe0, byte]
      = (⟨d.modifiers, false⟩, if byte &&& 0x80 = 0 then (extendedEventForSet1 byte).toList else []) := by
  simp only [feed, handleScancode, if_neg h, if_true, Option.toList_none, List.nil_append, List.append_nil]
  split_ifs <;> rfl

theorem feed_singleton {byte : UInt8} :
    feed d [byte] = ((handleScancode d byte).1, (handleScancode d byte).2.toList) := by
  simp [feed]

/-- the modifier keys are not extended -/
theorem Key.ne_of_extended (hk : key.extended = true) {other : Key} (ho : other.extended = false) :
    key ≠ other := by
  intro e
  rw [e, ho] at hk
  exact Bool.false_ne_true hk

theorem Key.isShift_of_extended (hk : key.extended = true) : key.isShift = false := by
  simp [Key.isShift, Key.ne_of_extended hk (show leftShift.extended = false from rfl),
    Key.ne_of_extended hk (show rightShift.extended = false from rfl)]

theorem Key.down_of_extended (hk : key.extended = true) (m : UInt8) : key.down m = m := by
  simp [Key.down, Key.isShift_of_extended hk,
    Key.ne_of_extended hk (show Keyboard.capsLock.extended = false from rfl)]

theorem Key.up_of_extended (hk : key.extended = true) (m : UInt8) : key.up m = m := by
  simp [Key.up, Key.isShift_of_extended hk]

theorem feed_make (hd : d.extended = false) :
    feed d (key.codes key.code) = (⟨key.down d.modifiers, false⟩,
      (keyCallsFor d.shift d.capsLock key.extended key.code.toNat).toList) := by
  rw [← Key.decoded_eq]
  unfold Key.codes Key.decoded
  cases hk : key.extended with
  | true =>
    have he0 : key.code ≠ 0xe0 := key.make_ne (by decide)
    simp [feed_extended he0, key.make_high, Key.down_of_extended hk]
  | false => simp [feed_singleton, handleScancode_make hd hk]

theorem feed_break (hd : d.extended = false) :
    feed d (key.codes (key.code ||| 0x80)) = (⟨key.up d.modifiers, false⟩, []) := by
  have he0 : key.code ||| 0x80 ≠ 0xe0 := fun e => key.code_ne ((key.break_eq_iff (by decide)).mp e)
  unfold Key.codes
  cases hk : key.extended with
  | true => simp [feed_extended he0, key.break_high, Key.up_of_extended hk]
  | false => simp [feed_singleton, handleScancode_break hd hk]

/-- **what the decoder makes of one stroke** -/
theorem feed_codes (hd : d.extended = false) (stroke : Stroke) :
    feed d stroke.codes = (⟨stroke.modifiers d.modifiers, false⟩, calledFor d.shift d.capsLock stroke) := by
  cases stroke with
  | press key => exact feed_make hd
  | again key => exact feed_make hd
  | release key => exact feed_break hd
  | fakeShift right up =>
    cases right <;> cases up <;> exact (feed_extended (by decide)).trans rfl
  | pause =>
    obtain ⟨m, extended⟩ := d
    obtain rfl : extended = false := hd
    rfl

end

/-! ## the two bits -/

section
variable (key : Key) (m : UInt8)

@[simp] theorem Key.down_bit_zero :
    (key.down m).toNat.testBit 0 = (key.isShift || m.toNat.testBit 0) := by
  unfold Key.down
  cases key.isShift with
  | true => simp [UInt8.toNat_or, shiftBit]
  | false =>
    rw [if_neg Bool.false_ne_true, Bool.false_or]
    split_ifs
    · simp [UInt8.toNat_xor, capsLockBit]
    · rfl

@[simp] theorem Key.up_bit_zero :
    (key.up m).toNat.testBit 0 = (!key.isShift && m.toNat.testBit 0) := by
  unfold Key.up
  cases key.isShift <;> simp [UInt8.toNat_and, shiftBit]

@[simp] theorem Key.down_bit_one :
    (key.down m).toNat.testBit 1 = (decide (key = Keyboard.capsLock) ^^ m.toNat.testBit 1) := by
  have hshift : Nat.testBit 1 1 = false := rfl
  have hcaps : Nat.testBit 2 1 = true := rfl
  unfold Key.down
  cases hs : key.isShift with
  | true =>
    have hne : key ≠ Keyboard.capsLock := by
      intro e
      rw [e] at hs
      exact absurd hs (by decide)
    simp [UInt8.toNat_or, Nat.testBit_or, shiftBit, hshift, hne]
  | false =>
    rw [if_neg Bool.false_ne_true]
    by_cases hc : key = Keyboard.capsLock
    · simp [UInt8.toNat_xor, Nat.testBit_xor, capsLockBit, hcaps, hc]
    · simp [hc]

@[simp] theorem Key.up_bit_one : (key.up m).toNat.testBit 1 = m.toNat.testBit 1 := by
  have hmask : Nat.testBit 254 1 = true := rfl
  unfold Key.up
  cases key.isShift <;> simp [UInt8.toNat_and, shiftBit, hmask]

end

section
variable {b b' : Board} {stroke : Stroke}

theorem Board.step_some (h : b.step stroke = some b') :
    strike b.held stroke = some b'.held ∧ b'.decoder = (feed b.decoder stroke.codes).1 := by
  obtain ⟨held, hstrike, rfl⟩ := Option.map_eq_some_iff.mp h
  exact ⟨hstrike, rfl⟩

section
variable {held held' : Key → Bool} {key : Key}

theorem strike_press :
    strike held (.press key) = some held' ↔ held key = false ∧ Function.update held key true = held' := by
  simp [strike]

theorem strike_again : strike held (.again key) = some held' ↔ held key = true ∧ held = held' := by
  simp [strike]

theorem strike_release :
    strike held (.release key) = some held' ↔ held key = true ∧ Function.update held key false = held' := by
  simp [strike]

end

/-- between two strokes the decoder is not inside a code -/
theorem Board.step_decoder (hd : b.decoder.extended = false) (h : b.step stroke = some b') :
    b'.decoder = ⟨stroke.modifiers b.decoder.modifiers, false⟩ := by
  rw [(Board.step_some h).2, feed_codes hd]

theorem Board.after_extended {strokes : List Stroke} (h : Board.after strokes = some b) :
    b.decoder.extended = false := by
  refine Steps.run_inv Board.step (P := fun b => b.decoder.extended = false) ?_ strokes _ b rfl h
  intro b stroke b' hd hstep
  rw [Board.step_decoder hd hstep]

theorem shiftHeld_eq_true_iff {held : Key → Bool} :
    shiftHeld held = true ↔ held leftShift = true ∨ held rightShift = true := Bool.or_eq_true_iff

theorem Board.shift_eq_iff (b : Board) :
    (b.decoder.modifiers &&& shiftBit ≠ 0 ↔ b.held leftShift = true ∨ b.held rightShift = true) ↔
      b.decoder.shift = shiftHeld b.held := by
  rw [← shift_eq_true_iff, ← shiftHeld_eq_true_iff]
  exact Bool.eq_iff_iff.symm

theorem shiftHeld_press (held : Key → Bool) (key : Key) :
    shiftHeld (Function.update held key true) = (key.isShift || shiftHeld held) := by
  unfold shiftHeld Key.isShift
  by_cases hl : key = leftShift
  · simp [hl]
  by_cases hr : key = rightShift
  · simp [hr]
  · simp [hl, hr, Function.update_of_ne (Ne.symm hl), Function.update_of_ne (Ne.symm hr)]

theorem shiftHeld_of_held {held : Key → Bool} {key : Key} (hs : key.isShift = true)
    (hh : held key = true) : shiftHeld held = true := by
  obtain rfl | rfl := of_decide_eq_true hs <;> simp [shiftHeld, hh]

/-- a Shift key is released while the other one is held -/
def Overlaps (held : Key → Bool) (key : Key) : Prop :=
  (key = leftShift ∧ held rightShift = true) ∨ (key = rightShift ∧ held leftShift = true)

theorem not_overlaps_iff {held : Key → Bool} {key : Key} :
    ¬ Overlaps held key ↔
      (key = leftShift → held rightShift = false) ∧ (key = rightShift → held leftShift = false) := by
  simp [Overlaps, not_or]

theorem shiftHeld_release (held : Key → Bool) {key : Key} (h : ¬ Overlaps held key) :
    shiftHeld (Function.update held key false) = (!key.isShift && shiftHeld held) := by
  unfold shiftHeld Key.isShift
  by_cases hl : key = leftShift
  · have hr := (not_overlaps_iff.mp h).1 hl
    subst hl
    simp [Function.update_of_ne (show rightShift ≠ leftShift by decide), hr]
  by_cases hr : key = rightShift
  · have hother := (not_overlaps_iff.mp h).2 hr
    subst hr
    simp [Function.update_of_ne (show leftShift ≠ rightShift by decide), hother]
  · simp [hl, hr, Function.update_of_ne (Ne.symm hl), Function.update_of_ne (Ne.symm hr)]

/-- **one stroke keeps the Shift bit right**, unless it releases one of two Shift keys -/
theorem Board.step_shift (hd : b.decoder.extended = false) (h : b.step stroke = some b')
    (hinv : b.decoder.shift = shiftHeld b.held)
    (hno : ∀ key, stroke = .release key → ¬ Overlaps b.held key) :
    b'.decoder.shift = shiftHeld b'.held := by
  have hstrike := (Board.step_some h).1
  rw [shift_eq_testBit] at hinv
  rw [shift_eq_testBit, Board.step_decoder hd h]
  cases stroke with
  | press key =>
    obtain ⟨-, hheld⟩ := strike_press.mp hstrike
    rw [← hheld, shiftHeld_press, ← hinv]
    exact Key.down_bit_zero key _
  | again key =>
    obtain ⟨hkey, hheld⟩ := strike_again.mp hstrike
    rw [← hheld, ← hinv]
    refine (Key.down_bit_zero key _).trans ?_
    cases hs : key.isShift with
    | false => rfl
    | true => rw [hinv, shiftHeld_of_held hs hkey, Bool.or_true]
  | release key =>
    obtain ⟨-, hheld⟩ := strike_release.mp hstrike
    rw [← hheld, shiftHeld_release b.held (hno key rfl), ← hinv]
    exact Key.up_bit_zero key _
  | fakeShift right up =>
    rw [← Option.some.inj hstrike, ← hinv]
    rfl
  | pause =>
    rw [← Option.some.inj hstrike, ← hinv]
    rfl

/-- a key that is released is no longer held, and the others stay -/
theorem Board.step_release {key : Key} (h : b.step (.release key) = some b') :
    b'.held = Function.update b.held key false :=
  (strike_release.mp (Board.step_some h).1).2.symm

/-- the release of one of two Shift keys clears the bit -/
theorem Board.step_overlap (hd : b.decoder.extended = false) {key : Key}
    (h : b.step (.release key) = some b') (ho : Overlaps b.held key) :
    b'.decoder.shift = false ∧ shiftHeld b'.held = true := by
  have hkey : key.isShift = true := decide_eq_true (ho.imp And.left And.left)
  constructor
  · rw [shift_eq_testBit, Board.step_decoder hd h]
    refine (Key.up_bit_zero key _).trans ?_
    rw [hkey]
    rfl
  · rw [Board.step_release h]
    obtain ⟨rfl, hr⟩ | ⟨rfl, hl⟩ := ho
    · simp [shiftHeld, Function.update_of_ne (show rightShift ≠ leftShift by decide), hr]
    · simp [shiftHeld, Function.update_of_ne (show leftShift ≠ rightShift by decide), hl]

end

/-- a run that goes through has a state behind each of its parts -/
theorem Board.exists_after {strokes pre post : List Stroke} (h : (Board.after strokes).isSome = true)
    (e : strokes = pre ++ post) : ∃ b, Board.after pre = some b := by
  obtain ⟨last, hlast⟩ := Option.isSome_iff_exists.mp h
  rw [e] at hlast
  obtain ⟨b, hb, _⟩ := Steps.exists_run_of_append Board.step hlast
  exact ⟨b, hb⟩

theorem Board.after_snoc {strokes pre post : List Stroke} {stroke : Stroke} {b : Board}
    (h : (Board.after strokes).isSome = true) (e : strokes = pre ++ stroke :: post)
    (hb : Board.after pre = some b) :
    ∃ b', b.step stroke = some b' ∧ Board.after (pre ++ [stroke]) = some b' := by
  obtain ⟨b', hb'⟩ := Board.exists_after h (e.trans (List.append_cons pre stroke post))
  obtain ⟨b₀, hb₀, hstep⟩ := (Steps.run_snoc_iff Board.step _ b' pre stroke).mp hb'
  obtain rfl : b₀ = b := Option.some.inj (hb₀.symm.trans hb)
  exact ⟨b', hstep, hb'⟩

/-- **when the Shift bit says that a Shift key is held**: after every stroke, and with every key typing what is
printed on it for the keys that are held, exactly when no Shift key is released while the other one is held -/
theorem shift_faithful_iff (strokes : List Stroke) (h : (Board.after strokes).isSome = true) :
    ((∀ pre post b, strokes = pre ++ post → Board.after pre = some b →
        (b.decoder.modifiers &&& shiftBit ≠ 0 ↔ b.held leftShift = true ∨ b.held rightShift = true)) ∧
      (∀ pre stroke post b, strokes = pre ++ stroke :: post → Board.after pre = some b →
        (feed b.decoder stroke.codes).2
          = calledFor (b.held leftShift || b.held rightShift) b.decoder.capsLock stroke)) ↔
    ∀ pre key post b, strokes = pre ++ .release key :: post → Board.after pre = some b →
      (key = leftShift → b.held rightShift = false) ∧ (key = rightShift → b.held leftShift = false) := by
  simp only [Board.shift_eq_iff, ← not_overlaps_iff]
  constructor
  · intro hfaithful pre key post b e hb ho
    obtain ⟨b', hstep, hb'⟩ := Board.after_snoc h e hb
    obtain ⟨hoff, hheld⟩ := Board.step_overlap (Board.after_extended hb) hstep ho
    have hshift := hfaithful.1 (pre ++ [.release key]) post b' (by rw [e, List.append_cons]) hb'
    rw [hoff, hheld] at hshift
    exact Bool.false_ne_true hshift
  · intro hno
    have hshift : ∀ pre post b, strokes = pre ++ post → Board.after pre = some b →
        b.decoder.shift = shiftHeld b.held := by
      refine Steps.run_along Board.step (P := fun _ b => b.decoder.shift = shiftHeld b.held) rfl ?_
      intro pre stroke post b b' e hb hinv hstep
      exact Board.step_shift (Board.after_extended hb) hstep hinv
        (fun key hk => hno pre key post b (by rw [e, hk]) hb)
    refine ⟨hshift, fun pre stroke post b e hb => ?_⟩
    rw [feed_codes (Board.after_extended hb), hshift pre _ b e hb]
    rfl

def keyA : Key := ⟨false, 0x1e, by decide, by decide⟩

theorem shift_faithful_iff_typed :
    (Board.after [.press leftShift, .press keyA]).isSome = true ∧
      ∀ b, Board.after [.press leftShift] = some b →
        b.held leftShift = true ∧ b.decoder.capsLock = false ∧
          (feed b.decoder (Stroke.press keyA).codes).2 = [.character (byteOf 'A')] := by
  have hsome : (Board.after [.press leftShift, .press keyA]).isSome = true := by decide
  refine ⟨hsome, fun b hb => ?_⟩
  have hfaithful := (shift_faithful_iff _ hsome).mpr (fun pre key post b e hb => ?_)
  · have hevents := hfaithful.2 [.press leftShift] (.press keyA) [] b rfl hb
    obtain rfl : b = ⟨Function.update (fun _ => false) leftShift true, ⟨1, false⟩⟩ := Option.some.inj hb.symm
    exact ⟨rfl, rfl, hevents.trans (by decide)⟩
  · have hmem : Stroke.release key ∈ [.press leftShift, .press keyA] := by simp [e]
    simp at hmem

/-- with both Shift keys down, the release of one of them clears the bit: the next letter is small -/
theorem shift_lost_on_release :
    (Board.after [.press leftShift, .press rightShift, .release leftShift]).map
      (fun b => (b.held rightShift, b.decoder.modifiers &&& shiftBit,
        (feed b.decoder (Stroke.press keyA).codes).2))
      = some (true, 0, [.character (byteOf 'a')]) := by
  decide

/-! ## Caps Lock -/

/-- every make code of the key toggles the bit -/
def Stroke.toggles (stroke : Stroke) : Bool := stroke = .press capsLock ∨ stroke = .again capsLock

theorem Stroke.modifiers_bit_one (stroke : Stroke) (m : UInt8) :
    (stroke.modifiers m).toNat.testBit 1 = (stroke.toggles ^^ m.toNat.testBit 1) := by
  cases stroke with
  | press key => simp [Stroke.modifiers, Stroke.toggles]
  | again key => simp [Stroke.modifiers, Stroke.toggles]
  | release key => simp [Stroke.modifiers, Stroke.toggles]
  | fakeShift right up => simp [Stroke.modifiers, Stroke.toggles]
  | pause => simp [Stroke.modifiers, Stroke.toggles]

theorem Board.step_capsLock {b b' : Board} {stroke : Stroke} (hd : b.decoder.extended = false)
    (h : b.step stroke = some b') : b'.decoder.capsLock = (stroke.toggles ^^ b.decoder.capsLock) := by
  rw [capsLock_eq_testBit, capsLock_eq_testBit, Board.step_decoder hd h]
  exact stroke.modifiers_bit_one _

/-- how often the key went down -/
def capsPresses (strokes : List Stroke) : Nat := strokes.count (.press capsLock)

theorem capsPresses_snoc (strokes : List Stroke) (stroke : Stroke) :
    capsPresses (strokes ++ [stroke]) = capsPresses strokes + if stroke = .press capsLock then 1 else 0 := by
  simp [capsPresses, List.count_singleton]

/-- **when the Caps Lock bit counts the presses of the key**: exactly when the key never repeats -/
theorem capsLock_parity_iff (strokes : List Stroke) (h : (Board.after strokes).isSome = true) :
    (∀ pre post b, strokes = pre ++ post → Board.after pre = some b →
      (b.decoder.modifiers &&& capsLockBit ≠ 0 ↔ capsPresses pre % 2 = 1)) ↔
    .again capsLock ∉ strokes := by
  simp only [← capsLock_eq_true_iff]
  constructor
  · intro hparity hmem
    obtain ⟨pre, post, e⟩ := List.append_of_mem hmem
    obtain ⟨b, hb⟩ := Board.exists_after h e
    obtain ⟨b', hstep, hb'⟩ := Board.after_snoc h e hb
    have hbefore := hparity pre _ b e hb
    have hafter := hparity (pre ++ [.again capsLock]) post b' (by rw [e, List.append_cons]) hb'
    rw [Board.step_capsLock (Board.after_extended hb) hstep, capsPresses_snoc] at hafter
    -- the bit has changed, the number of presses has not
    cases hc : b.decoder.capsLock with
    | true => simp [hc, Stroke.toggles] at hbefore hafter; omega
    | false => simp [hc, Stroke.toggles] at hbefore hafter; omega
  · intro hno
    refine Steps.run_along Board.step
      (P := fun pre b => b.decoder.capsLock = true ↔ capsPresses pre % 2 = 1) (by simp [capsPresses]; rfl) ?_
    intro pre stroke post b b' e hb hinv hstep
    have hne : stroke ≠ .again capsLock := by
      intro hs
      exact hno (by rw [e, hs]; simp)
    rw [Board.step_capsLock (Board.after_extended hb) hstep, capsPresses_snoc]
    by_cases hp : stroke = .press capsLock
    · cases hc : b.decoder.capsLock <;> simp [hc, hp, Stroke.toggles] at hinv ⊢ <;> omega
    · simpa [hp, hne, Stroke.toggles] using hinv

theorem capsLock_parity_iff_twice :
    (Board.after [.press capsLock, .release capsLock, .press capsLock]).isSome = true ∧
      ∀ b, Board.after [.press capsLock, .release capsLock, .press capsLock] = some b →
        b.decoder.modifiers &&& capsLockBit = 0 := by
  have hsome : (Board.after [.press capsLock, .release capsLock, .press capsLock]).isSome = true := by decide
  refine ⟨hsome, fun b hb => ?_⟩
  have hparity := (capsLock_parity_iff _ hsome).mpr (by decide) _ [] b rfl hb
  exact not_not.mp (mt hparity.mp (by decide))

/-- the key is held until it repeats once: the bit is off again -/
theorem capsLock_toggled_by_repeat :
    (Board.after [.press capsLock, .again capsLock]).map
      (fun b => (b.decoder.modifiers &&& capsLockBit, capsPresses [.press capsLock, .again capsLock]))
      = some (0, 1) := by
  decide

end Keyboard
end SolOs
