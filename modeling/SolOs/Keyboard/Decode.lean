import SolOs.Keyboard.Queue

/-!
# The scancode decoder

`handle_scancode` and the two key tables of `keyboard.rs`.  The statics `MODIFIERS` and
`EXTENDED_PREFIX` are the state of the decoder; the event that it pushes into the queue is its
result.

* `handleScancode`             one byte from the keyboard;
* `Emitted`                    the events that some byte in some state pushes;
* `Emitted.printable`          **a character event carries a printable ASCII byte.**
-/

set_option linter.unusedVariables false

namespace SolOs
namespace Keyboard

def shiftBit : UInt8 := 1
def capsLockBit : UInt8 := 2

structure Decoder where
  modifiers : UInt8
  extended : Bool
  deriving DecidableEq

def Decoder.new : Decoder := ⟨0, false⟩

def extendedEventForSet1 (scancode : UInt8) : Option KeyEvent :=
  [(0x47, .home), (0x48, .up), (0x4b, .left), (0x4d, .right), (0x4f, .end_), (0x50, .down),
    (0x53, .delete)].lookup scancode

/-- the keys with a plain and a shifted character; the two quotes, the backquote and the backslash are
given by their codes -/
def symbolKeys : List (UInt8 × Char × Char) :=
  [(0x02, '1', '!'), (0x03, '2', '@'), (0x04, '3', '#'), (0x05, '4', '$'), (0x06, '5', '%'),
    (0x07, '6', '^'), (0x08, '7', '&'), (0x09, '8', '*'), (0x0a, '9', '('), (0x0b, '0', ')'),
    (0x0c, '-', '_'), (0x0d, '=', '+'), (0x1a, '[', '{'), (0x1b, ']', '}'), (0x27, ';', ':'),
    (0x28, .ofNat 0x27, .ofNat 0x22), (0x29, .ofNat 0x60, '~'), (0x2b, .ofNat 0x5c, '|'),
    (0x33, ',', '<'), (0x34, '.', '>'), (0x35, '/', '?')]

def letterKeys : List (UInt8 × Char) :=
  [(0x10, 'q'), (0x11, 'w'), (0x12, 'e'), (0x13, 'r'), (0x14, 't'), (0x15, 'y'), (0x16, 'u'),
    (0x17, 'i'), (0x18, 'o'), (0x19, 'p'), (0x1e, 'a'), (0x1f, 's'), (0x20, 'd'), (0x21, 'f'),
    (0x22, 'g'), (0x23, 'h'), (0x24, 'j'), (0x25, 'k'), (0x26, 'l'), (0x2c, 'z'), (0x2d, 'x'),
    (0x2e, 'c'), (0x2f, 'v'), (0x30, 'b'), (0x31, 'n'), (0x32, 'm')]

/-- `b'c'` -/
def byteOf (c : Char) : UInt8 := UInt8.ofNat c.toNat

def letterForSet1 (scancode : UInt8) (uppercase : Bool) : Option KeyEvent :=
  (letterKeys.lookup scancode).map fun lowercase =>
    .character (byteOf (if uppercase then lowercase.toUpper else lowercase))

def asciiForSet1 (scancode : UInt8) (shift capsLock : Bool) : Option KeyEvent :=
  if scancode = 0x0e then some .backspace
  else if scancode = 0x0f then some .tab
  else if scancode = 0x1c then some .enter
  else if scancode = 0x39 then some (.character (byteOf ' '))
  else
    match symbolKeys.lookup scancode with
    | some (plain, shifted) => some (.character (byteOf (if shift then shifted else plain)))
    | none => letterForSet1 scancode (shift ^^ capsLock)

def handleScancode (d : Decoder) (scancode : UInt8) : Decoder × Option KeyEvent :=
  if scancode = 0xe0 then ({ d with extended := true }, none)
  else if d.extended then
    ({ d with extended := false },
      if scancode &&& 0x80 = 0 then extendedEventForSet1 scancode else none)
  else if scancode = 0x2a ∨ scancode = 0x36 then
    ({ d with modifiers := d.modifiers ||| shiftBit }, none)
  else if scancode = 0xaa ∨ scancode = 0xb6 then
    ({ d with modifiers := d.modifiers &&& ~~~ shiftBit }, none)
  else if scancode = 0x3a then ({ d with modifiers := d.modifiers ^^^ capsLockBit }, none)
  else if scancode &&& 0x80 ≠ 0 then (d, none)
  else
    (d, asciiForSet1 scancode (d.modifiers &&& shiftBit ≠ 0) (d.modifiers &&& capsLockBit ≠ 0))

/-! ## what can be typed -/

def Printable (b : UInt8) : Prop := 0x20 ≤ b.toNat ∧ b.toNat ≤ 0x7e

instance (b : UInt8) : Decidable (Printable b) := inferInstanceAs (Decidable (_ ∧ _))

def Emitted (event : KeyEvent) : Prop := ∃ d scancode, (handleScancode d scancode).2 = some event

theorem mem_of_lookup {α β : Type} [BEq α] [LawfulBEq α] {a : α} {b : β} {l : List (α × β)}
    (h : l.lookup a = some b) : (a, b) ∈ l := by
  obtain ⟨l₁, l₂, rfl, _⟩ := List.lookup_eq_some_iff.mp h
  simp

theorem symbolKeys_printable :
    ∀ key ∈ symbolKeys, Printable (byteOf key.2.1) ∧ Printable (byteOf key.2.2) := by
  decide

theorem letterKeys_printable :
    ∀ key ∈ letterKeys, Printable (byteOf key.2) ∧ Printable (byteOf key.2.toUpper) := by
  decide

theorem asciiForSet1_printable {scancode b : UInt8} {shift capsLock : Bool}
    (h : asciiForSet1 scancode shift capsLock = some (.character b)) : Printable b := by
  unfold asciiForSet1 at h
  split at h
  · exact nomatch h
  split at h
  · exact nomatch h
  split at h
  · exact nomatch h
  split at h
  · cases h
    decide
  split at h
  · next plain shifted hkey =>
    obtain ⟨hp, hs⟩ := symbolKeys_printable _ (mem_of_lookup hkey)
    cases h
    split
    · exact hs
    · exact hp
  · unfold letterForSet1 at h
    obtain ⟨c, hkey, hb⟩ := Option.map_eq_some_iff.mp h
    obtain ⟨hl, hu⟩ := letterKeys_printable _ (mem_of_lookup hkey)
    cases hb
    split
    · exact hu
    · exact hl

/-- the extended keys only move -/
theorem extendedEventForSet1_ne {scancode b : UInt8} :
    extendedEventForSet1 scancode ≠ some (.character b) := by
  intro h
  have hmem := mem_of_lookup h
  simp at hmem

/-- **a character event carries a printable ASCII byte** -/
theorem Emitted.printable {b : UInt8} (h : Emitted (.character b)) : Printable b := by
  obtain ⟨d, scancode, h⟩ := h
  unfold handleScancode at h
  split at h
  · exact nomatch h
  split at h
  · dsimp only at h
    split at h
    · exact absurd h extendedEventForSet1_ne
    · exact nomatch h
  split at h
  · exact nomatch h
  split at h
  · exact nomatch h
  split at h
  · exact nomatch h
  split at h
  · exact nomatch h
  · exact asciiForSet1_printable h

end Keyboard
end SolOs
