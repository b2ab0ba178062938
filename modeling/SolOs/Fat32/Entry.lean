import SolOs.Fat32.Volume

/-!
# FAT32: directory records

`DirEntry::from_raw` and the tests that `visit_directory` makes before it decodes a record.

* `NameBuffer`     the array `name` with its fill `name_len`; a byte past its end is a panic;
* `takeField`      the loop that copies a space-padded field, used for the base and the extension;
* `fromRaw`        a record of 32 bytes decoded;
* `classify`       what `visit_directory` does with a record: end the directory, pass over it, or
                   hand out its entry;
* `isLast`, `isDropped`, `Decodes`   the kinds of records, and what an entry is decoded to;
* `classify_eq`    the tests and the decoding agree with them;
* `classify_spec`  no record makes it panic; an entry has a name, which does not start with a dot.
-/

set_option linter.unusedVariables false

namespace SolOs
namespace Fat
open Checked Storage

/-- `name: [u8; 12]` filled up to `name_len` -/
structure NameBuffer where
  bytes : List UInt8
  len : Nat
  length_eq : bytes.length = 12
  len_le : len ≤ 12
  deriving DecidableEq

namespace NameBuffer

def empty : NameBuffer := ⟨List.replicate 12 0, 0, rfl, by norm_num⟩

/-- `name[name_len] = byte; name_len += 1;` -/
def push (buf : NameBuffer) (byte : UInt8) : Run FsError NameBuffer :=
  if h : buf.len < 12 then
    .ok ⟨buf.bytes.set buf.len byte, buf.len + 1, by rw [List.length_set, buf.length_eq], h⟩
  else panic .bounds

def text (buf : NameBuffer) : List UInt8 := buf.bytes.take buf.len

theorem text_length (buf : NameBuffer) : buf.text.length = buf.len := by
  unfold text
  rw [List.length_take, buf.length_eq]
  exact min_eq_left buf.len_le

theorem push_ok {buf : NameBuffer} (h : buf.len < 12) (byte : UInt8) :
    ∃ buf', buf.push byte = .ok buf' ∧ buf'.text = buf.text ++ [byte] := by
  refine ⟨_, dif_pos h, ?_⟩
  show (buf.bytes.set buf.len byte).take (buf.len + 1) = buf.bytes.take buf.len ++ [byte]
  have hlt : buf.len < (buf.bytes.set buf.len byte).length := by
    rw [List.length_set, buf.length_eq]
    exact h
  rw [List.take_succ_eq_append_getElem hlt, List.getElem_set_self, List.take_set_of_le (le_refl _)]

end NameBuffer

structure DirEntry where
  name : NameBuffer
  attributes : UInt8
  firstCluster : Nat
  size : Nat
  deriving DecidableEq

namespace DirEntry

/-- `name()` -/
def nameStr (e : DirEntry) : Text.Str := Text.ofAscii e.name.text

def isDirectory (e : DirEntry) : Bool := e.attributes &&& attrDirectory ≠ 0

end DirEntry

/-- one loop over a field of the short name; `none` when `from_raw` returns `None` -/
def takeField (buf : NameBuffer) : List UInt8 → Run FsError (Option NameBuffer)
  | [] => pure (some buf)
  | byte :: rest =>
    if byte = 0x20 then pure (some buf)
    else if Text.isAscii byte = false then pure none
    else do
      let buf ← buf.push byte
      takeField buf rest

/-- the name part of `from_raw` -/
def shortName (raw : List UInt8) : Run FsError (Option NameBuffer) := do
  let base ← slice raw 0 8
  let named ← takeField .empty base
  match named with
  | none => pure none
  | some buf =>
    if buf.len = 0 then pure none
    else do
      let extension ← slice raw 8 11
      if extension.any (· ≠ 0x20) then do
        let buf ← buf.push 0x2e
        takeField buf extension
      else pure (some buf)

def fromRaw (raw : List UInt8) : Run FsError (Option DirEntry) := do
  let named ← shortName raw
  match named with
  | none => pure none
  | some name => do
    let high ← leU16 raw 20
    let low ← leU16 raw 26
    let attributes ← get raw 11
    let size ← leU32 raw 28
    pure (some ⟨name, attributes, high <<< 16 ||| low, size⟩)

inductive Record where
  | last
  | skip
  | entry (e : DirEntry)

/-- the body of the loop over the records of a sector, up to the call of the visitor -/
def classify (raw : List UInt8) : Run FsError Record := do
  let first ← get raw 0
  if first = 0x00 then pure .last
  else do
    let attributes ← get raw 11
    if first = 0xe5 ∨ first = 0x2e ∨ attributes = attrLongFileName
        ∨ attributes &&& attrVolumeId ≠ 0 then pure .skip
    else do
      let entry ← fromRaw raw
      match entry with
      | none => pure .skip
      | some e => pure (.entry e)

/-! ## decoding is total -/

/-- a field that fits the buffer: its bytes up to the first space, when they are ASCII -/
theorem takeField_eq (buf : NameBuffer) (field : List UInt8) (h : buf.len + field.length ≤ 12) :
    ∃ named, takeField buf field = .ok named ∧
      (named = none ↔ ∃ b ∈ field.takeWhile (· ≠ 0x20), Text.isAscii b = false) ∧
      ∀ buf', named = some buf' → buf'.text = buf.text ++ field.takeWhile (· ≠ 0x20) := by
  induction field generalizing buf with
  | nil =>
    refine ⟨_, rfl, by simp, ?_⟩
    rintro _ ⟨⟩
    exact (List.append_nil _).symm
  | cons byte rest ih =>
    unfold takeField
    by_cases hs : byte = 0x20
    · refine ⟨_, if_pos hs, by simp [hs], ?_⟩
      rintro _ ⟨⟩
      rw [List.takeWhile_cons_of_neg (by simpa using hs), List.append_nil]
    rw [if_neg hs, List.takeWhile_cons_of_pos (by simpa using hs)]
    by_cases ha : Text.isAscii byte = false
    · refine ⟨none, if_pos ha, ?_, fun _ h => nomatch h⟩
      exact iff_of_true rfl ⟨byte, List.mem_cons_self, ha⟩
    rw [List.length_cons] at h
    obtain ⟨buf', hp, htext⟩ := NameBuffer.push_ok (show buf.len < 12 by omega) byte
    have hlen : buf'.len = buf.len + 1 := by
      rw [← buf'.text_length, htext, List.length_append, buf.text_length, List.length_singleton]
    obtain ⟨named, hn, hnone, hall⟩ := ih buf' (by omega)
    refine ⟨named, by rw [if_neg ha, hp, bind_ok, hn], ?_, fun out ho => ?_⟩
    · rw [hnone]
      simp [ha]
    · rw [hall out ho, htext, List.append_assoc]
      rfl

/-! ### the short name of a record -/

def recordBase (raw : List UInt8) : List UInt8 := (raw.take 8).takeWhile (· ≠ 0x20)

/-- the extension field with its padding -/
def extensionField (raw : List UInt8) : List UInt8 := (raw.take 11).drop 8

def recordExtension (raw : List UInt8) : List UInt8 := (extensionField raw).takeWhile (· ≠ 0x20)

def recordName (raw : List UInt8) : List UInt8 :=
  recordBase raw ++ if (extensionField raw).any (· ≠ 0x20) then 0x2e :: recordExtension raw else []

/-- an extension of spaces only has no byte before the first space -/
theorem recordExtension_of_spaces {raw : List UInt8} (h : ¬ (extensionField raw).any (· ≠ 0x20) = true) :
    recordExtension raw = [] := by
  unfold recordExtension
  cases hf : extensionField raw with
  | nil => rfl
  | cons byte rest =>
    rw [hf, List.any_cons, Bool.or_eq_true, not_or] at h
    exact List.takeWhile_cons_of_neg h.1

/-- **the name part of `from_raw`**: it is refused when the base is empty or a byte is not ASCII -/
theorem shortName_eq {raw : List UInt8} (h : raw.length = 32) :
    ∃ named, shortName raw = .ok named ∧
      (named = none ↔ recordBase raw = [] ∨
        ∃ b ∈ recordBase raw ++ recordExtension raw, Text.isAscii b = false) ∧
      ∀ buf, named = some buf → buf.text = recordName raw := by
  unfold shortName
  have hbase : (slice raw 0 8 : Run FsError _) = .ok (raw.take 8) := by
    rw [slice_of_le (by norm_num) (by omega), List.drop_zero]
  have hext : (slice raw 8 11 : Run FsError _) = .ok (extensionField raw) :=
    slice_of_le (by norm_num) (by omega)
  have hl8 : (raw.take 8).length = 8 := by rw [List.length_take]; omega
  have hl3 : (extensionField raw).length = 3 := by
    rw [extensionField, List.length_drop, List.length_take]; omega
  obtain ⟨named, hn, hnone, hall⟩ := takeField_eq .empty (raw.take 8) (by rw [hl8]; decide)
  rw [hbase, bind_ok, hn, bind_ok]
  cases named with
  | none =>
    obtain ⟨b, hb, hascii⟩ := hnone.mp rfl
    refine ⟨none, rfl, ?_, fun _ h => nomatch h⟩
    exact iff_of_true rfl (.inr ⟨b, List.mem_append_left _ hb, hascii⟩)
  | some buf =>
  have htext : buf.text = recordBase raw := hall buf rfl
  have hlen8 : buf.len ≤ 8 := by
    rw [← buf.text_length, htext]
    exact le_of_le_of_eq (List.takeWhile_sublist _).length_le hl8
  have hascii : ¬ ∃ b ∈ recordBase raw, Text.isAscii b = false := fun hb => nomatch hnone.mpr hb
  show ∃ named, (if buf.len = 0 then pure none else _) = _ ∧ _
  by_cases h0 : buf.len = 0
  · rw [if_pos h0]
    rw [← buf.text_length, htext, List.length_eq_zero_iff] at h0
    exact ⟨none, rfl, iff_of_true rfl (.inl h0), fun _ h => nomatch h⟩
  have hne : recordBase raw ≠ [] := by
    rw [← htext, ← List.length_pos_iff, buf.text_length]
    omega
  rw [if_neg h0, hext, bind_ok]
  by_cases hany : (extensionField raw).any (· ≠ 0x20) = true
  · rw [if_pos hany]
    obtain ⟨dotted, hp, hdot⟩ := NameBuffer.push_ok (show buf.len < 12 by omega) 0x2e
    have hlen : dotted.len = buf.len + 1 := by
      rw [← dotted.text_length, hdot, List.length_append, buf.text_length, List.length_singleton]
    obtain ⟨named, hn', hnone', hall'⟩ := takeField_eq dotted (extensionField raw) (by omega)
    refine ⟨named, by rw [hp, bind_ok, hn'], ?_, fun out ho => ?_⟩
    · rw [hnone', or_iff_right hne]
      constructor
      · intro ⟨b, hb, hb'⟩
        exact ⟨b, List.mem_append_right _ hb, hb'⟩
      · intro ⟨b, hb, hb'⟩
        rcases List.mem_append.mp hb with hb | hb
        · exact absurd ⟨b, hb, hb'⟩ hascii
        · exact ⟨b, hb, hb'⟩
    · rw [hall' out ho, hdot, htext, recordName, if_pos hany, List.append_assoc]
      rfl
  · rw [if_neg hany]
    refine ⟨some buf, rfl, ?_, ?_⟩
    · rw [recordExtension_of_spaces hany, List.append_nil]
      exact iff_of_false (fun hn => nomatch hn) (fun hor => hor.elim hne hascii)
    · rintro _ ⟨⟩
      rw [htext, recordName, if_neg hany, List.append_nil]

/-- the name of a record starts with the first byte of the record -/
theorem recordName_first {raw : List UInt8} (h : raw.length = 32) (hne : recordBase raw ≠ []) :
    ∃ rest, recordName raw = raw[0] :: rest := by
  obtain ⟨x, xs, rfl⟩ := List.exists_cons_of_length_pos (show 0 < raw.length by omega)
  unfold recordName
  unfold recordBase at hne ⊢
  rw [List.take_succ_cons] at hne ⊢
  by_cases hx : x = 0x20
  · rw [List.takeWhile_cons_of_neg (by simpa using hx)] at hne
    exact absurd rfl hne
  · rw [List.takeWhile_cons_of_pos (by simpa using hx)]
    exact ⟨_, rfl⟩

/-- what is decoded from a record -/
structure Decodes (raw : List UInt8) (e : DirEntry) : Prop where
  name : e.name.text = recordName raw
  attributes : raw[11]? = some e.attributes
  firstCluster : ∃ high low, leU16 (ε := FsError) raw 20 = .ok high ∧
    leU16 (ε := FsError) raw 26 = .ok low ∧ e.firstCluster = high <<< 16 ||| low
  size : leU32 (ε := FsError) raw 28 = .ok e.size

theorem fromRaw_eq {raw : List UInt8} (h : raw.length = 32) :
    ∃ entry, fromRaw raw = .ok entry ∧
      (entry = none ↔ recordBase raw = [] ∨
        ∃ b ∈ recordBase raw ++ recordExtension raw, Text.isAscii b = false) ∧
      ∀ e, entry = some e → Decodes raw e := by
  obtain ⟨named, hn, hnone, htext⟩ := shortName_eq h
  unfold fromRaw
  rw [hn, bind_ok]
  cases named with
  | none => exact ⟨none, rfl, iff_of_true rfl (hnone.mp rfl), fun _ h => nomatch h⟩
  | some name =>
    obtain ⟨high, _, e1⟩ := leU16_ok (ε := FsError) (show 20 + 1 < raw.length by omega)
    obtain ⟨low, _, e2⟩ := leU16_ok (ε := FsError) (show 26 + 1 < raw.length by omega)
    obtain ⟨size, _, e3⟩ := leU32_ok (ε := FsError) (show 28 + 3 < raw.length by omega)
    refine ⟨some ⟨name, raw[11], high <<< 16 ||| low, size⟩, ?_, ?_, ?_⟩
    · show (leU16 raw 20 >>= _) = _
      rw [e1, bind_ok, e2, bind_ok, get_of_lt (show 11 < raw.length by omega), bind_ok, e3, bind_ok,
        pure_eq]
    · rw [← hnone]
      exact iff_of_false (fun hc => nomatch hc) (fun hc => nomatch hc)
    · rintro _ ⟨⟩
      exact ⟨htext name rfl, List.getElem?_eq_getElem (by omega), ⟨high, low, e1, e2, rfl⟩, e3⟩

/-! ### the three kinds of records -/

def isLast (raw : List UInt8) : Bool := raw[0]? == some 0x00

/-- deleted, a dot entry, a volume label or a part of a long name, or without a usable short name -/
def isDropped (raw : List UInt8) : Bool :=
  raw[0]? == some 0xe5 || raw[0]? == some 0x2e || raw[11]?.any (fun a => a &&& attrVolumeId ≠ 0)
    || (recordBase raw).isEmpty || !(recordBase raw ++ recordExtension raw).all Text.isAscii

theorem classify_last {raw : List UInt8} (hl : isLast raw = true) : classify raw = .ok .last := by
  have hfirst : raw[0]? = some 0x00 := by simpa [isLast] using hl
  unfold classify
  rw [get_of_getElem? hfirst, bind_ok, if_pos rfl, pure_eq]

/-- a long-name record carries the volume bit -/
theorem volumeId_of_longFileName {a : UInt8} (h : a = attrLongFileName) : a &&& attrVolumeId ≠ 0 := by
  rw [h]
  decide

/-- **what the scan does with a record that does not end the directory** -/
theorem classify_eq {raw : List UInt8} (h : raw.length = 32) (hl : isLast raw = false) :
    (isDropped raw = true → classify raw = .ok .skip) ∧
      (isDropped raw = false → ∃ e, classify raw = .ok (.entry e) ∧ Decodes raw e) := by
  have h0 : raw[0]? = some raw[0] := List.getElem?_eq_getElem (by omega)
  have h11 : raw[11]? = some raw[11] := List.getElem?_eq_getElem (by omega)
  have hfirst : raw[0] ≠ 0x00 := by simpa [isLast, h0] using hl
  obtain ⟨entry, he, hnone, hdec⟩ := fromRaw_eq h
  unfold classify
  rw [get_of_getElem? h0, bind_ok, if_neg hfirst, get_of_getElem? h11, bind_ok]
  by_cases hskip : raw[0] = 0xe5 ∨ raw[0] = 0x2e ∨ raw[11] = attrLongFileName
      ∨ raw[11] &&& attrVolumeId ≠ 0
  · have hdrop : isDropped raw = true := by
      rcases hskip with hs | hs | hs | hs
      · simp [isDropped, h0, hs]
      · simp [isDropped, h0, hs]
      · simp [isDropped, h11, volumeId_of_longFileName hs]
      · simp [isDropped, h11, hs]
    rw [if_pos hskip]
    exact ⟨fun _ => rfl, fun hk => nomatch hk.symm.trans hdrop⟩
  · simp only [not_or] at hskip
    have hdrop : isDropped raw = true ↔ entry = none := by
      rw [hnone]
      simp [isDropped, h0, h11, hskip.1, hskip.2.1, not_not.mp hskip.2.2.2, List.isEmpty_iff, or_and_right,
        exists_or]
    rw [if_neg (by simp only [not_or]; exact hskip), he, bind_ok]
    cases entry with
    | none => exact ⟨fun _ => rfl, fun hk => nomatch hk.symm.trans (hdrop.mpr rfl)⟩
    | some e => exact ⟨fun hk => (nomatch hdrop.mp hk), fun _ => ⟨e, rfl, hdec e rfl⟩⟩

/-- a record that is kept has a name of ASCII bytes, which does not start with a dot -/
theorem recordName_of_kept {raw : List UInt8} (h : raw.length = 32) (hk : isDropped raw = false) :
    (∃ first rest, recordName raw = first :: rest ∧ first ≠ 0x2e) ∧
      ∀ b ∈ recordName raw, Text.isAscii b = true := by
  simp only [isDropped, Bool.or_eq_false_iff, Bool.not_eq_false', List.all_eq_true] at hk
  obtain ⟨⟨⟨⟨_, hdot⟩, _⟩, hbase⟩, hascii⟩ := hk
  constructor
  · have hne : recordBase raw ≠ [] := by
      intro hnil
      rw [hnil] at hbase
      exact nomatch hbase
    obtain ⟨rest, hrest⟩ := recordName_first h hne
    refine ⟨raw[0], rest, hrest, ?_⟩
    intro hd
    rw [List.getElem?_eq_getElem (show 0 < raw.length by omega), hd] at hdot
    exact nomatch hdot
  · intro b hb
    unfold recordName at hb
    rcases List.mem_append.mp hb with hb | hb
    · exact hascii b (List.mem_append_left _ hb)
    · split_ifs at hb
      · rcases List.mem_cons.mp hb with rfl | hb
        · rfl
        · exact hascii b (List.mem_append_right _ hb)
      · exact absurd hb List.not_mem_nil

/-- **no record makes the scan panic, and the name of an entry does not start with a dot** -/
theorem classify_spec {raw : List UInt8} (h : raw.length = 32) :
    ∃ r, classify raw = .ok r ∧
      ∀ e, r = .entry e → ∃ first rest, e.name.text = first :: rest ∧ first ≠ 0x2e := by
  cases hl : isLast raw with
  | true => exact ⟨.last, classify_last hl, fun _ h => nomatch h⟩
  | false =>
    cases hd : isDropped raw with
    | true => exact ⟨.skip, (classify_eq h hl).1 hd, fun _ h => nomatch h⟩
    | false =>
      obtain ⟨e, he, hdec⟩ := (classify_eq h hl).2 hd
      refine ⟨.entry e, he, ?_⟩
      rintro _ ⟨⟩
      rw [hdec.name]
      exact (recordName_of_kept h hd).1

end Fat
end SolOs
