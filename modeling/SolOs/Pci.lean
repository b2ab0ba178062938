import SolOs.Lib.PciConfig

/-!
# The search for the USB controller

`find_xhci_controller` of `pci.rs` and the functions below it.

* `configAddress`, `readU32`, `writeU32`     the accesses; `readU32_eq`: an address leads where it should;
* `scanFunction`, `findXhciController`       the search;
* `usable`                what makes a function the controller, read off its registers;
* `visited`               the functions that the search looks at, in order;
* `Searches`              a search and what it finds; `Searches.forFirst`: a loop of searches;
* `mem_visited`, `controllerAt_eq_some`     what is looked at, and what is made of it;
* `xhci_search_exact`     **the first usable function is found, and nothing else is touched.**
-/

set_option linter.unusedVariables false

namespace SolOs
namespace Pci
open PciConfig

def classSerialBus : UInt8 := 0x0c
def subclassUsb : UInt8 := 0x03
def progifXhci : UInt8 := 0x30

structure XhciController where
  bus : UInt8
  device : UInt8
  function : UInt8
  mmioBase : UInt64
  deriving DecidableEq

/-! ## the accesses -/

def configAddress (bus device function offset : UInt8) : UInt32 :=
  (0x80000000 : UInt32) ||| (bus.toUInt32 <<< 16) ||| (device.toUInt32 <<< 11) ||| (function.toUInt32 <<< 8) |||
    (offset.toUInt32 &&& 0xfc)

def readU32 (bus device function offset : UInt8) : StateM Host UInt32 := fun h =>
  let h := { h with address := configAddress bus device function offset }
  (h.read, h)

def writeU32 (bus device function offset : UInt8) (value : UInt32) : StateM Host Unit := fun h =>
  ((), { h with address := configAddress bus device function offset }.write value)

/-! ## the search -/

/-- the address in the base registers -/
def mmioBase (bus device function : UInt8) (lowBar : UInt32) : StateM Host (Option UInt64) :=
  let barType := (lowBar >>> 1) &&& 0x03
  if barType = 0x00 then pure (some (lowBar &&& ~~~0x0f).toUInt64)
  else if barType = 0x02 then do
    let highBar ← readU32 bus device function 0x14
    pure (some ((highBar.toUInt64 <<< 32) ||| (lowBar.toUInt64 &&& ~~~0x0f)))
  else pure none

def scanFunction (bus device function : UInt8) : StateM Host (Option XhciController) := do
  let id ← readU32 bus device function 0x00
  if id &&& 0xffff = 0xffff then return none
  let class_ ← readU32 bus device function 0x08
  let classCode := (class_ >>> 24).toUInt8
  let subclass := (class_ >>> 16).toUInt8
  let programmingInterface := (class_ >>> 8).toUInt8
  if (classCode, subclass, programmingInterface) ≠ (classSerialBus, subclassUsb, progifXhci) then return none
  let lowBar ← readU32 bus device function 0x10
  if lowBar &&& 0x01 ≠ 0 then return none
  let some base ← mmioBase bus device function lowBar | return none
  if base = 0 then return none
  let commandStatus ← readU32 bus device function 0x04
  writeU32 bus device function 0x04 (commandStatus ||| 0x00000006)
  return some ⟨bus, device, function, base⟩

/-- a loop that returns from inside -/
def forFirst {α β : Type} (body : α → StateM Host (Option β)) : List α → StateM Host (Option β)
  | [] => pure none
  | x :: xs => do
    match ← body x with
    | some found => return some found
    | none => forFirst body xs

/-- the body of the loop over the devices -/
def scanDevice (bus device : UInt8) : StateM Host (Option XhciController) := do
  match ← scanFunction bus device 0 with
  | some controller => return some controller
  | none =>
    let header ← readU32 bus device 0 0x0c
    if header &&& 0x800000 = 0 then return none
    forFirst (fun function => scanFunction bus device (UInt8.ofNat function)) (List.range' 1 7)

def findXhciController : StateM Host (Option XhciController) :=
  forFirst (fun bus => forFirst (fun device => scanDevice (UInt8.ofNat bus) (UInt8.ofNat device)) (List.range 32))
    (List.range 256)

section
variable {α β : Type} {h : Host}

@[simp] theorem host_bind (x : StateM Host α) (f : α → StateM Host β) : (x >>= f) h = f (x h).1 (x h).2 := rfl

@[simp] theorem host_pure (a : α) : (pure a : StateM Host α) h = (a, h) := rfl

end

/-! ## an address leads where it should -/

section
variable (bus : UInt8) {device function : UInt8}

theorem configAddress_toNat (hd : device.toNat < 32) (hf : function.toNat < 8) (offset : UInt8) :
    (configAddress bus device function offset).toNat
      = 2^31 + bus.toNat * 2^16 + device.toNat * 2^11 + function.toNat * 2^8 + (offset.toNat &&& 0xfc) := by
  have hb := bus.toNat_lt
  have ho : offset.toNat &&& 0xfc < 256 := Nat.and_lt_two_pow (n := 8) _ (by norm_num)
  have hfield : ∀ (x : UInt8) (k : UInt32), x.toNat * 2^k.toNat < 2^32 → k.toNat < 32 →
      (x.toUInt32 <<< k).toNat = x.toNat * 2^k.toNat := by
    intro x k hx hk
    rw [UInt32.toNat_shiftLeft, UInt8.toNat_toUInt32, Nat.shiftLeft_eq, Nat.mod_eq_of_lt hk, Nat.mod_eq_of_lt hx]
  rw [← or_fields hb hd hf ho]
  unfold configAddress
  rw [UInt32.toNat_or, UInt32.toNat_or, UInt32.toNat_or, UInt32.toNat_or, UInt32.toNat_and, UInt8.toNat_toUInt32,
    hfield bus 16 (by simp; omega) (by decide), hfield device 11 (by simp; omega) (by decide),
    hfield function 8 (by simp; omega) (by decide)]
  rfl

/-- **the address of a register selects it** -/
theorem configAddress_selects (hd : device.toNat < 32) (hf : function.toNat < 8) (n : Nat) {offset : UInt8}
    (ho : offset.toNat &&& 0xfc = 4 * n) :
    enabled (configAddress bus device function offset) = true ∧
      place (configAddress bus device function offset) = ⟨bus.toNat, device.toNat, function.toNat⟩ ∧
      register (configAddress bus device function offset) = n := by
  have hb := bus.toNat_lt
  have hlt : offset.toNat &&& 0xfc < 256 := Nat.and_lt_two_pow (n := 8) _ (by norm_num)
  have hnat := configAddress_toNat bus hd hf offset
  rw [ho] at hnat hlt
  refine ⟨decide_eq_true ?_, ?_, ?_⟩
  · omega
  · simp only [place, Place.mk.injEq]
    omega
  · simp only [register]
    omega

variable {h : Host}

theorem readU32_eq (hd : device.toNat < 32) (hf : function.toNat < 8) (n : Nat) {offset : UInt8}
    (ho : offset.toNat &&& 0xfc = 4 * n) :
    readU32 bus device function offset h
      = (h.space ⟨bus.toNat, device.toNat, function.toNat⟩ n,
          { h with address := configAddress bus device function offset }) := by
  obtain ⟨hon, hplace, hregister⟩ := configAddress_selects bus hd hf n ho
  simp only [readU32, Host.read, hon, hplace, hregister, if_true]

theorem writeU32_eq (hd : device.toNat < 32) (hf : function.toNat < 8) (n : Nat) {offset : UInt8}
    (ho : offset.toNat &&& 0xfc = 4 * n) (value : UInt32) :
    writeU32 bus device function offset value h
      = ((), { h with
          address := configAddress bus device function offset
          space := Function.update h.space ⟨bus.toNat, device.toNat, function.toNat⟩
            (Function.update (h.space ⟨bus.toNat, device.toNat, function.toNat⟩) n
              (h.effect ⟨bus.toNat, device.toNat, function.toNat⟩ n
                (h.space ⟨bus.toNat, device.toNat, function.toNat⟩ n) value)) }) := by
  obtain ⟨hon, hplace, hregister⟩ := configAddress_selects bus hd hf n ho
  simp only [writeU32, Host.write, Host.read, hon, hplace, hregister, if_true]

end

/-! ## what is found -/

/-- the address in the base registers of a function -/
def baseOf (r : Nat → UInt32) : Option UInt64 :=
  if (r 4 >>> 1) &&& 0x03 = 0x00 then some (r 4 &&& ~~~0x0f).toUInt64
  else if (r 4 >>> 1) &&& 0x03 = 0x02 then some (((r 5).toUInt64 <<< 32) ||| ((r 4).toUInt64 &&& ~~~0x0f))
  else none

/-- a function that is an xHCI controller with registers in memory, and where they are -/
def usable (r : Nat → UInt32) : Option UInt64 :=
  if r 0 &&& 0xffff = 0xffff then none
  else if ((r 2 >>> 24).toUInt8, (r 2 >>> 16).toUInt8, (r 2 >>> 8).toUInt8) ≠ (classSerialBus, subclassUsb, progifXhci)
  then none
  else if r 4 &&& 0x01 ≠ 0 then none
  else (baseOf r).filter (· ≠ 0)

def XhciController.place (c : XhciController) : Place := ⟨c.bus.toNat, c.device.toNat, c.function.toNat⟩

/-- the registers after the search: the word with Command and Status of the controller is written back, with memory
decoding and bus mastering turned on -/
def claimed (h : Host) : Option XhciController → Place → Nat → UInt32
  | none => h.space
  | some c => Function.update h.space c.place (Function.update (h.space c.place) 1
      (h.effect c.place 1 (h.space c.place 1) (h.space c.place 1 ||| 0x00000006)))

/-- a search, and what it finds in the registers; the selected address is not kept -/
def Searches (search : StateM Host (Option XhciController)) (found : (Place → Nat → UInt32) → Option XhciController) :
    Prop :=
  ∀ h, ∃ address, search h = (found h.space, ⟨address, claimed h (found h.space), h.effect⟩)

section
variable (bus : UInt8) {h : Host} {device function : UInt8}

/-- the base registers -/
theorem mmioBase_eq (hd : device.toNat < 32) (hf : function.toNat < 8) :
    ∃ address, mmioBase bus device function (h.space ⟨bus.toNat, device.toNat, function.toNat⟩ 4) h
      = (baseOf (h.space ⟨bus.toNat, device.toNat, function.toNat⟩), { h with address := address }) := by
  unfold mmioBase baseOf
  split
  · exact ⟨_, rfl⟩
  split
  · rw [host_bind, readU32_eq bus hd hf 5 (by decide)]
    exact ⟨_, rfl⟩
  · exact ⟨_, rfl⟩

/-- **one function** -/
theorem scanFunction_searches (hd : device.toNat < 32) (hf : function.toNat < 8) :
    Searches (scanFunction bus device function) fun space =>
      (usable (space ⟨bus.toNat, device.toNat, function.toNat⟩)).map (XhciController.mk bus device function) := by
  intro h
  dsimp only
  unfold scanFunction usable
  rw [host_bind, readU32_eq bus hd hf 0 (by decide)]
  dsimp only
  by_cases habsent : h.space ⟨bus.toNat, device.toNat, function.toNat⟩ 0 &&& 0xffff = 0xffff
  · rw [if_pos habsent, if_pos habsent]
    exact ⟨_, rfl⟩
  rw [if_neg habsent, if_neg habsent, host_bind, readU32_eq bus hd hf 2 (by decide)]
  dsimp only
  generalize hclass : ((h.space ⟨bus.toNat, device.toNat, function.toNat⟩ 2 >>> 24).toUInt8,
    (h.space ⟨bus.toNat, device.toNat, function.toNat⟩ 2 >>> 16).toUInt8,
    (h.space ⟨bus.toNat, device.toNat, function.toNat⟩ 2 >>> 8).toUInt8) = code
  by_cases hother : code ≠ (classSerialBus, subclassUsb, progifXhci)
  · rw [if_pos hother, if_pos hother]
    exact ⟨_, rfl⟩
  rw [if_neg hother, if_neg hother, host_bind, readU32_eq bus hd hf 4 (by decide)]
  dsimp only
  by_cases hport : h.space ⟨bus.toNat, device.toNat, function.toNat⟩ 4 &&& 0x01 ≠ 0
  · rw [if_pos hport, if_pos hport]
    exact ⟨_, rfl⟩
  obtain ⟨address, hbase⟩ := mmioBase_eq bus (h := { h with address := configAddress bus device function 0x10 }) hd hf
  rw [if_neg hport, if_neg hport, host_bind, hbase]
  dsimp only
  cases baseOf (h.space ⟨bus.toNat, device.toNat, function.toNat⟩) with
  | none => exact ⟨_, rfl⟩
  | some base =>
    dsimp only
    by_cases hzero : base = 0
    · rw [if_pos hzero, Option.filter_some, if_neg (by simpa using hzero)]
      exact ⟨_, rfl⟩
    · rw [if_neg hzero, Option.filter_some, if_pos (by simpa using hzero), host_bind,
        readU32_eq bus hd hf 1 (by decide), host_bind, writeU32_eq bus hd hf 1 (by decide)]
      exact ⟨_, rfl⟩

/-- **a loop of searches** finds what the first successful one finds -/
theorem Searches.forFirst {α : Type} {body : α → StateM Host (Option XhciController)}
    {found : α → (Place → Nat → UInt32) → Option XhciController} {xs : List α}
    (hbody : ∀ x ∈ xs, Searches (body x) (found x)) :
    Searches (forFirst body xs) fun space => xs.findSome? fun x => found x space := by
  induction xs with
  | nil => exact fun h => ⟨h.address, rfl⟩
  | cons x xs ih =>
    obtain ⟨hx, hxs⟩ := List.forall_mem_cons.mp hbody
    intro h
    obtain ⟨address, hfirst⟩ := hx h
    dsimp only
    rw [Pci.forFirst, host_bind, hfirst, List.findSome?_cons]
    cases found x h.space with
    | some c => exact ⟨address, rfl⟩
    | none => exact ih hxs { h with address := address }

/-- more than one function; an absent device looks as if it had them -/
def multiFunction (space : Place → Nat → UInt32) (bus device : Nat) : Prop :=
  space ⟨bus, device, 0⟩ 3 &&& 0x800000 ≠ 0

instance (space : Place → Nat → UInt32) (bus device : Nat) : Decidable (multiFunction space bus device) :=
  inferInstanceAs (Decidable (_ ≠ _))

/-- the functions of a device that are looked at -/
def functions (space : Place → Nat → UInt32) (bus device : Nat) : List Nat :=
  0 :: if multiFunction space bus device then List.range' 1 7 else []

/-- the controller at a place -/
def controllerAt (space : Place → Nat → UInt32) (p : Place) : Option XhciController :=
  (usable (space p)).map (XhciController.mk (UInt8.ofNat p.bus) (UInt8.ofNat p.device) (UInt8.ofNat p.function))

/-- the places that the search looks at, in order -/
def visited (space : Place → Nat → UInt32) : List Place :=
  (List.range 256).flatMap fun bus => (List.range 32).flatMap fun device =>
    (functions space bus device).map fun function => ⟨bus, device, function⟩

end

section
variable {bus device function : Nat}

theorem scanFunction_at (hb : bus < 256) (hd : device < 32) (hf : function < 8) :
    Searches (scanFunction (UInt8.ofNat bus) (UInt8.ofNat device) (UInt8.ofNat function)) fun space =>
      controllerAt space ⟨bus, device, function⟩ := by
  have hbus : (UInt8.ofNat bus).toNat = bus := UInt8.toNat_ofNat_of_lt' hb
  have hdevice : (UInt8.ofNat device).toNat = device := UInt8.toNat_ofNat_of_lt' (hd.trans (by norm_num))
  have hfunction : (UInt8.ofNat function).toNat = function := UInt8.toNat_ofNat_of_lt' (hf.trans (by norm_num))
  have hscan := scanFunction_searches (UInt8.ofNat bus) (hdevice.symm ▸ hd) (hfunction.symm ▸ hf)
  rwa [hbus, hdevice, hfunction] at hscan

/-- one device -/
theorem scanDevice_searches (hb : bus < 256) (hd : device < 32) :
    Searches (scanDevice (UInt8.ofNat bus) (UInt8.ofNat device)) fun space =>
      (functions space bus device).findSome? fun function => controllerAt space ⟨bus, device, function⟩ := by
  have hdevice : (UInt8.ofNat device).toNat = device := UInt8.toNat_ofNat_of_lt' (hd.trans (by norm_num))
  have hbus : (UInt8.ofNat bus).toNat = bus := UInt8.toNat_ofNat_of_lt' hb
  intro h
  obtain ⟨address, hfirst⟩ := scanFunction_at hb hd (show 0 < 8 by norm_num) h
  dsimp only at hfirst ⊢
  unfold scanDevice functions
  rw [host_bind, show (0 : UInt8) = UInt8.ofNat 0 from rfl, hfirst, List.findSome?_cons]
  cases controllerAt h.space ⟨bus, device, 0⟩ with
  | some c => exact ⟨address, rfl⟩
  | none =>
    dsimp only
    rw [host_bind, readU32_eq _ (hdevice.symm ▸ hd) (by decide) 3 (by decide), hbus, hdevice,
      show claimed h none = h.space from rfl, show (UInt8.ofNat 0).toNat = 0 from rfl]
    dsimp only
    by_cases hmulti : multiFunction h.space bus device
    · have hothers : Searches (forFirst (fun function => scanFunction (UInt8.ofNat bus) (UInt8.ofNat device)
          (UInt8.ofNat function)) (List.range' 1 7)) fun space =>
            (List.range' 1 7).findSome? fun function => controllerAt space ⟨bus, device, function⟩ := by
        apply Searches.forFirst
        intro function hmem
        have hrange := List.mem_range'_1.mp hmem
        exact scanFunction_at hb hd (by omega)
      rw [if_neg hmulti, if_pos hmulti]
      exact hothers { h with address := configAddress (UInt8.ofNat bus) (UInt8.ofNat device) (UInt8.ofNat 0) 0x0c }
    · rw [if_pos (not_not.mp hmulti), if_neg hmulti]
      exact ⟨_, rfl⟩

end

theorem findSome?_flatMap {α β γ : Type} (xs : List α) (f : α → List β) (g : β → Option γ) :
    (xs.flatMap f).findSome? g = xs.findSome? fun x => (f x).findSome? g := by
  induction xs with
  | nil => rfl
  | cons x xs ih =>
    rw [List.flatMap_cons, List.findSome?_append, ih, List.findSome?_cons]
    cases (f x).findSome? g <;> rfl

/-- the whole search -/
theorem findXhciController_searches :
    Searches findXhciController fun space => (visited space).findSome? (controllerAt space) := by
  have hvisited : ∀ space, (visited space).findSome? (controllerAt space)
      = (List.range 256).findSome? fun bus => (List.range 32).findSome? fun device =>
          (functions space bus device).findSome? fun function => controllerAt space ⟨bus, device, function⟩ := by
    intro space
    simp only [visited, findSome?_flatMap, List.findSome?_map, Function.comp_def]
  rw [funext hvisited]
  unfold findXhciController
  apply Searches.forFirst
  intro bus hbus
  apply Searches.forFirst
  intro device hdevice
  exact scanDevice_searches (List.mem_range.mp hbus) (List.mem_range.mp hdevice)

/-! ## what the search means -/

/-- a place that an address can select -/
structure InRange (p : Place) : Prop where
  bus : p.bus < 256
  device : p.device < 32
  function : p.function < 8

section
variable {space : Place → Nat → UInt32} {p : Place} {c : XhciController}

theorem mem_functions {bus device function : Nat} :
    function ∈ functions space bus device ↔ function < 8 ∧ (function = 0 ∨ multiFunction space bus device) := by
  unfold functions
  by_cases hmulti : multiFunction space bus device
  · rw [if_pos hmulti, List.mem_cons, List.mem_range'_1]
    simp only [hmulti, or_true, and_true]
    omega
  · rw [if_neg hmulti, List.mem_singleton]
    simp only [hmulti, or_false]
    omega

theorem mem_visited : p ∈ visited space ↔ InRange p ∧ (p.function = 0 ∨ multiFunction space p.bus p.device) := by
  obtain ⟨bus, device, function⟩ := p
  simp only [visited, List.mem_flatMap, List.mem_map, List.mem_range, mem_functions, Place.mk.injEq]
  constructor
  · rintro ⟨_, hb, _, hd, _, ⟨hf, hlooked⟩, rfl, rfl, rfl⟩
    exact ⟨⟨hb, hd, hf⟩, hlooked⟩
  · rintro ⟨⟨hb, hd, hf⟩, hlooked⟩
    exact ⟨bus, hb, device, hd, function, ⟨hf, hlooked⟩, rfl, rfl, rfl⟩

theorem controllerAt_eq_some (hp : InRange p) :
    controllerAt space p = some c ↔ c.place = p ∧ usable (space p) = some c.mmioBase := by
  obtain ⟨bus, device, function⟩ := p
  obtain ⟨hb, hd, hf⟩ := hp
  dsimp only at hb hd hf
  have hbus : (UInt8.ofNat bus).toNat = bus := UInt8.toNat_ofNat_of_lt' hb
  have hdevice : (UInt8.ofNat device).toNat = device := UInt8.toNat_ofNat_of_lt' (hd.trans (by norm_num))
  have hfunction : (UInt8.ofNat function).toNat = function := UInt8.toNat_ofNat_of_lt' (hf.trans (by norm_num))
  rw [controllerAt, Option.map_eq_some_iff]
  constructor
  · rintro ⟨base, hbase, rfl⟩
    exact ⟨by rw [XhciController.place, hbus, hdevice, hfunction], hbase⟩
  · rintro ⟨hplace, hbase⟩
    obtain ⟨cbus, cdevice, cfunction, base⟩ := c
    obtain ⟨rfl, rfl, rfl⟩ := Place.mk.injEq .. ▸ hplace
    exact ⟨base, hbase, by simp only [UInt8.ofNat_toNat]⟩

theorem controllerAt_eq_none : controllerAt space p = none ↔ usable (space p) = none := Option.map_eq_none_iff

/-- the address of the registers is a multiple of sixteen: the low bits of the base register are no part of it -/
theorem baseOf_aligned {r : Nat → UInt32} {base : UInt64} (h : baseOf r = some base) : base.toNat % 2^4 = 0 := by
  have hlow : ∀ x : UInt32, (x &&& ~~~0x0f).toUInt64.toNat % 2^4 = 0 := by
    intro x
    rw [UInt32.toNat_toUInt64, UInt32.toNat_and, Nat.and_mod_two_pow,
      show (~~~(0x0f : UInt32)).toNat % 2^4 = 0 from rfl, Nat.and_zero]
  have hwide : ∀ x y : UInt32, ((x.toUInt64 <<< 32) ||| (y.toUInt64 &&& ~~~0x0f)).toNat % 2^4 = 0 := by
    intro x y
    have hhigh : (x.toUInt64 <<< 32).toNat % 2^4 = 0 := by
      rw [UInt64.toNat_shiftLeft, Nat.shiftLeft_eq, show (32 : UInt64).toNat % 64 = 32 from rfl]
      omega
    rw [UInt64.toNat_or, Nat.or_mod_two_pow, hhigh, UInt64.toNat_and, Nat.and_mod_two_pow,
      show (~~~(0x0f : UInt64)).toNat % 2^4 = 0 from rfl, Nat.and_zero, Nat.or_zero]
  unfold baseOf at h
  split at h
  · exact Option.some.inj h ▸ hlow _
  split at h
  · exact Option.some.inj h ▸ hwide _ _
  · cases h

theorem usable_base {r : Nat → UInt32} {base : UInt64} (h : usable r = some base) :
    base ≠ 0 ∧ base.toNat % 2^4 = 0 := by
  unfold usable at h
  split at h
  · cases h
  split at h
  · cases h
  split at h
  · cases h
  · obtain ⟨hbase, hzero⟩ := Option.filter_eq_some_iff.mp h
    exact ⟨of_decide_eq_true hzero, baseOf_aligned hbase⟩

end

/-- functions beyond the first are there only on a device that says so -/
def Conforms (space : Place → Nat → UInt32) : Prop :=
  ∀ p, InRange p → usable (space p) ≠ none → p.function = 0 ∨ multiFunction space p.bus p.device

/-- **the search**: the controller that is returned is the first usable function of those looked at, its registers
have an address, and all that the search changes is that function's word at 0x04, with Command and Status.  Memory
decoding and bus mastering are turned on there, and since the whole word is written back, the error bits of Status
that a written one clears are cleared with it.  When nothing is returned nothing is changed, and on a machine whose
devices conform there is then no usable function at all. -/
theorem xhci_search_exact (h : Host) :
    (∀ c, (findXhciController h).1 = some c →
      (∃ before after, visited h.space = before ++ c.place :: after ∧ ∀ p ∈ before, usable (h.space p) = none) ∧
      usable (h.space c.place) = some c.mmioBase ∧ c.mmioBase ≠ 0 ∧ c.mmioBase.toNat % 2^4 = 0 ∧
      (findXhciController h).2.space c.place 1
        = h.effect c.place 1 (h.space c.place 1) (h.space c.place 1 ||| 0x00000006) ∧
      (∀ writable clear, h.effect c.place 1 = commandStatus writable clear → 0x00000006 &&& writable = 0x00000006 →
        writable &&& clear = 0 →
        (findXhciController h).2.space c.place 1 = (h.space c.place 1 ||| 0x00000006) &&& ~~~clear) ∧
      ∀ p n, (p, n) ≠ (c.place, 1) → (findXhciController h).2.space p n = h.space p n) ∧
    ((findXhciController h).1 = none → (findXhciController h).2.space = h.space) ∧
    (Conforms h.space → ((findXhciController h).1 = none ↔ ∀ p, InRange p → usable (h.space p) = none)) := by
  obtain ⟨address, hrun⟩ := findXhciController_searches h
  rw [hrun]
  dsimp only
  refine ⟨?_, ?_, ?_⟩
  · intro c hc
    obtain ⟨before, p, after, hsplit, hp, hbefore⟩ := List.findSome?_eq_some_iff.mp hc
    have hmem : p ∈ visited h.space := by
      rw [hsplit]
      exact List.mem_append_right _ List.mem_cons_self
    obtain ⟨rfl, hbase⟩ := (controllerAt_eq_some (mem_visited.mp hmem).1).mp hp
    obtain ⟨hzero, haligned⟩ := usable_base hbase
    have hword : claimed h (some c) c.place 1
        = h.effect c.place 1 (h.space c.place 1) (h.space c.place 1 ||| 0x00000006) := by
      rw [claimed, Function.update_self, Function.update_self]
    refine ⟨⟨before, after, hsplit, fun q hq => controllerAt_eq_none.mp (hbefore q hq)⟩, hbase, hzero, haligned,
      ?_, ?_, ?_⟩
    · rw [hc, hword]
    · intro writable clear heffect hwritable hclear
      rw [hc, hword, heffect, commandStatus_or hwritable hclear]
    · intro q n hother
      rw [hc, claimed]
      by_cases hq : q = c.place
      · have hn : n ≠ 1 := by
          rintro rfl
          exact hother (by rw [hq])
        rw [hq, Function.update_self, Function.update_of_ne hn]
      · rw [Function.update_of_ne hq]
  · intro hnone
    rw [hnone, claimed]
  · intro hconforms
    rw [List.findSome?_eq_none_iff]
    constructor
    · intro hnone p hp
      by_contra husable
      have hmem : p ∈ visited h.space := mem_visited.mpr ⟨hp, hconforms p hp husable⟩
      exact husable (controllerAt_eq_none.mp (hnone p hmem))
    · intro hnone p hmem
      exact controllerAt_eq_none.mpr (hnone p (mem_visited.mp hmem).1)

/-- a machine with a controller in slot 4 and nothing else; it has seen an abort -/
def oneController : Host where
  address := 0
  space p n := if p = ⟨0, 4, 0⟩ then [0x000d1b36, 0x20100000, 0x0c033001, 0, 0xfebf0004, 0].getD n 0 else 0xffffffff
  effect _ _ := commandStatus 0x00000547 0xf9000000

/-- it is found, and the abort is forgotten -/
theorem xhci_search_exact_oneController :
    ∃ c, (findXhciController oneController).1 = some c ∧ c.place = ⟨0, 4, 0⟩ ∧
      (findXhciController oneController).2.space c.place 1 = 0x00100006 := by
  have hplace : usable (oneController.space ⟨0, 4, 0⟩) ≠ none := by decide
  have hempty : ∀ p, usable (oneController.space p) ≠ none → p = ⟨0, 4, 0⟩ := by
    intro p husable
    by_contra hp
    have hspace : oneController.space p = fun _ => 0xffffffff := funext fun _ => if_neg hp
    rw [hspace] at husable
    exact husable rfl
  have hconforms : Conforms oneController.space := by
    intro p _ husable
    exact .inl (by rw [hempty p husable])
  obtain ⟨hfound, _, hnone⟩ := xhci_search_exact oneController
  cases hsearch : (findXhciController oneController).1 with
  | none =>
    exact absurd ((hnone hconforms).mp hsearch ⟨0, 4, 0⟩ ⟨by norm_num, by norm_num, by norm_num⟩) hplace
  | some c =>
    obtain ⟨_, husable, _, _, _, hword, _⟩ := hfound c hsearch
    have hc : c.place = ⟨0, 4, 0⟩ := hempty c.place (by simp [husable])
    refine ⟨c, rfl, hc, ?_⟩
    rw [hword 0x00000547 0xf9000000 rfl (by decide) (by decide), hc]
    decide

end Pci
end SolOs
