import Mathlib

/-!
# The configuration space of PCI, mechanism 1

Two ports: a number at the first one selects a function of a device and one of its registers, and the second
one is then this register.

* `Place`              bus, device and function; `place`, `register` what an address selects;
* `Host`               the selected address and the registers behind it; what a write makes of a register
                       is up to the device;
* `Host.read`, `Host.write`     an access to the second port;
* `or_fields`          the parts of an address, put together with `|||`;
* `commandStatus`      what a device makes of its word with Command and Status.
-/

namespace PciConfig

structure Place where
  bus : Nat
  device : Nat
  function : Nat
  deriving DecidableEq

def place (address : UInt32) : Place :=
  ⟨address.toNat / 2^16 % 256, address.toNat / 2^11 % 32, address.toNat / 2^8 % 8⟩

def register (address : UInt32) : Nat := address.toNat / 4 % 64

/-- the highest bit turns the mechanism on -/
def enabled (address : UInt32) : Bool := 2^31 ≤ address.toNat

/-- registers are numbered by their words; `effect` is what a device makes of the old value and a written one -/
structure Host where
  address : UInt32
  space : Place → Nat → UInt32
  effect : Place → Nat → UInt32 → UInt32 → UInt32

namespace Host
variable (h : Host)

def read : UInt32 := if enabled h.address then h.space (place h.address) (register h.address) else 0xffffffff

def write (value : UInt32) : Host :=
  if enabled h.address then
    { h with
      space := Function.update h.space (place h.address) (Function.update (h.space (place h.address))
        (register h.address) (h.effect (place h.address) (register h.address) h.read value)) }
  else h

end Host

/-! ## the word with Command and Status -/

/-- the bits of `writable` take the written value, those of `clear` are cleared when a one is written, and the others
stay as they are -/
def commandStatus (writable clear old value : UInt32) : UInt32 :=
  (old &&& ~~~writable ||| value &&& writable) &&& ~~~(value &&& clear)

/-- to write the word back with some bits set also clears -/
theorem commandStatus_or {writable clear bits : UInt32} (hw : bits &&& writable = bits)
    (hc : writable &&& clear = 0) (old : UInt32) :
    commandStatus writable clear old (old ||| bits) = (old ||| bits) &&& ~~~clear := by
  apply UInt32.toBitVec_inj.mp
  apply BitVec.eq_of_getLsbD_eq
  intro i hi
  have hwi : (bits.toBitVec &&& writable.toBitVec).getLsbD i = bits.toBitVec.getLsbD i :=
    congrArg (fun x : UInt32 => x.toBitVec.getLsbD i) hw
  have hci : (writable.toBitVec &&& clear.toBitVec).getLsbD i = false :=
    (congrArg (fun x : UInt32 => x.toBitVec.getLsbD i) hc).trans (by simp)
  simp only [BitVec.getLsbD_and] at hwi hci
  simp only [commandStatus, UInt32.toBitVec_and, UInt32.toBitVec_or, UInt32.toBitVec_not, BitVec.getLsbD_and,
    BitVec.getLsbD_or, BitVec.getLsbD_not, hi, decide_true, Bool.true_and]
  revert hwi hci
  cases old.toBitVec.getLsbD i <;> cases writable.toBitVec.getLsbD i <;> cases clear.toBitVec.getLsbD i <;>
    cases bits.toBitVec.getLsbD i <;> simp

/-! ## addresses -/

theorem or_fields {bus device function offset : Nat} (hb : bus < 256) (hd : device < 32) (hf : function < 8)
    (ho : offset < 256) :
    2^31 ||| bus * 2^16 ||| device * 2^11 ||| function * 2^8 ||| offset
      = 2^31 + bus * 2^16 + device * 2^11 + function * 2^8 + offset := by
  have h1 : 2^31 ||| bus * 2^16 = 2^16 * (2^15 + bus) := by
    have hor := Nat.two_pow_add_eq_or_of_lt (show bus * 2^16 < 2^31 by omega) 1
    rw [Nat.mul_one] at hor
    rw [← hor]
    ring
  have h2 : 2^16 * (2^15 + bus) ||| device * 2^11 = 2^11 * (2^5 * (2^15 + bus) + device) := by
    rw [← Nat.two_pow_add_eq_or_of_lt (show device * 2^11 < 2^16 by omega)]
    ring
  have h3 : 2^11 * (2^5 * (2^15 + bus) + device) ||| function * 2^8
      = 2^8 * (2^3 * (2^5 * (2^15 + bus) + device) + function) := by
    rw [← Nat.two_pow_add_eq_or_of_lt (show function * 2^8 < 2^11 by omega)]
    ring
  rw [h1, h2, h3, ← Nat.two_pow_add_eq_or_of_lt (show offset < 2^8 from ho)]
  ring

end PciConfig
