import SolOs.Fat32.Entry

/-!
# FAT32: when a short name tells its record

`DirEntry::from_raw` cuts the base and the extension at their first space and joins them with a dot.  The
name is that of one field only when nothing but padding stands behind the first space and the base has
no dot of its own.

* `Padded`                 nothing but spaces behind the first space;
* `recordName_eq_iff`      what equal names say about two records;
* `Canonical`              the records whose name can be read back;
* `name_injective`         **two of them have the same name only when they have the same fields.**
-/

namespace SolOs
namespace Fat
open Checked

/-! ## fields -/

/-- nothing but spaces behind the first space -/
def Padded (field : List UInt8) : Prop := ∀ b ∈ field.dropWhile (· ≠ 0x20), b = 0x20

/-- a padded field is known by its length and by what stands before the padding -/
theorem Padded.eq {field field' : List UInt8} (h : Padded field) (h' : Padded field')
    (hlen : field.length = field'.length)
    (htake : field.takeWhile (· ≠ 0x20) = field'.takeWhile (· ≠ 0x20)) : field = field' := by
  have hrep : ∀ {f : List UInt8}, Padded f →
      f.dropWhile (· ≠ 0x20) = List.replicate (f.length - (f.takeWhile (· ≠ 0x20)).length) 0x20 := by
    intro f hf
    have hl := congrArg List.length (List.takeWhile_append_dropWhile (p := (· ≠ 0x20)) (l := f))
    rw [List.length_append] at hl
    refine List.eq_replicate_iff.mpr ⟨by omega, hf⟩
  calc field = field.takeWhile (· ≠ 0x20) ++ field.dropWhile (· ≠ 0x20) :=
        List.takeWhile_append_dropWhile.symm
    _ = field'.takeWhile (· ≠ 0x20) ++ field'.dropWhile (· ≠ 0x20) := by
        rw [hrep h, hrep h', htake, hlen]
    _ = field' := List.takeWhile_append_dropWhile

/-- a name without a dot, and what the first dot separates from it -/
theorem split_at_dot {base tail : List UInt8} (hb : 0x2e ∉ base)
    (ht : tail = [] ∨ ∃ extension, tail = 0x2e :: extension) :
    (base ++ tail).takeWhile (· ≠ 0x2e) = base := by
  have hall : ∀ b ∈ base, decide (b ≠ 0x2e) = true := by
    intro b hmem
    simpa using fun e : b = 0x2e => hb (e ▸ hmem)
  rw [List.takeWhile_append_of_pos hall]
  obtain rfl | ⟨extension, rfl⟩ := ht <;> simp

/-! ## names -/

section
variable {raw raw' : List UInt8}

/-- the extension field is not blank -/
def hasExtension (raw : List UInt8) : Bool := (extensionField raw).any (· ≠ 0x20)

/-- the dot and the extension -/
def nameTail (raw : List UInt8) : List UInt8 := if hasExtension raw then 0x2e :: recordExtension raw else []

theorem recordName_split (raw : List UInt8) : recordName raw = recordBase raw ++ nameTail raw := rfl

theorem nameTail_cases (raw : List UInt8) : nameTail raw = [] ∨ ∃ extension, nameTail raw = 0x2e :: extension := by
  unfold nameTail
  split_ifs
  · exact .inr ⟨_, rfl⟩
  · exact .inl rfl

theorem nameTail_eq_iff :
    nameTail raw = nameTail raw' ↔
      recordExtension raw = recordExtension raw' ∧ hasExtension raw = hasExtension raw' := by
  have hblank : ∀ r, hasExtension r = false → recordExtension r = [] :=
    fun r hr => recordExtension_of_spaces (by rw [← hasExtension, hr]; exact Bool.false_ne_true)
  unfold nameTail
  cases h : hasExtension raw with
  | false => cases h' : hasExtension raw' <;> simp [hblank raw h, hblank, h']
  | true => cases h' : hasExtension raw' <;> simp

theorem not_mem_recordBase (h : 0x2e ∉ raw.take 8) : 0x2e ∉ recordBase raw :=
  fun hmem => h ((List.takeWhile_sublist _).mem hmem)

/-- **what equal names say about two records**, when no dot stands in the base -/
theorem recordName_eq_iff (h : 0x2e ∉ raw.take 8) (h' : 0x2e ∉ raw'.take 8) :
    recordName raw = recordName raw' ↔
      recordBase raw = recordBase raw' ∧ recordExtension raw = recordExtension raw' ∧
        hasExtension raw = hasExtension raw' := by
  rw [recordName_split, recordName_split, ← nameTail_eq_iff]
  constructor
  · intro e
    have hbase := congrArg (List.takeWhile (· ≠ 0x2e)) e
    rw [split_at_dot (not_mem_recordBase h) (nameTail_cases raw),
      split_at_dot (not_mem_recordBase h') (nameTail_cases raw')] at hbase
    rw [hbase] at e
    exact ⟨hbase, List.append_cancel_left e⟩
  · intro hsplit
    rw [hsplit.1, hsplit.2]

/-- the short names that can be read back -/
structure Canonical (raw : List UInt8) : Prop where
  base : Padded (raw.take 8)
  extension : Padded (extensionField raw)
  no_dot : 0x2e ∉ raw.take 8

theorem Canonical.recordName_eq_iff (h : raw.length = 32) (h' : raw'.length = 32) (hc : Canonical raw)
    (hc' : Canonical raw') :
    recordName raw = recordName raw' ↔
      raw.take 8 = raw'.take 8 ∧ extensionField raw = extensionField raw' := by
  rw [Fat.recordName_eq_iff hc.no_dot hc'.no_dot]
  constructor
  · intro hname
    obtain ⟨hbase, hext, -⟩ := hname
    exact ⟨hc.base.eq hc'.base (by simp [h, h']) hbase,
      hc.extension.eq hc'.extension (by simp [extensionField, h, h']) hext⟩
  · intro hfields
    obtain ⟨hbase, hext⟩ := hfields
    simp [recordBase, recordExtension, hasExtension, hbase, hext]

end

/-- the name of a record that is handed out -/
theorem name_of_classify {raw : List UInt8} {e : DirEntry} (h : raw.length = 32)
    (hr : classify raw = .ok (.entry e)) : e.name.text = recordName raw := by
  cases hl : isLast raw with
  | true => cases (classify_last hl).symm.trans hr
  | false =>
    cases hd : isDropped raw with
    | true => cases ((classify_eq h hl).1 hd).symm.trans hr
    | false =>
      obtain ⟨e', he', hdec⟩ := (classify_eq h hl).2 hd
      cases he'.symm.trans hr
      exact hdec.name

/-- **two records with canonical short names have the same name only when they have the same fields** -/
theorem name_injective (raw raw' : List UInt8) (e e' : DirEntry) (h : raw.length = 32)
    (h' : raw'.length = 32) (hr : classify raw = .ok (.entry e)) (hr' : classify raw' = .ok (.entry e'))
    (hc : Canonical raw) (hc' : Canonical raw') :
    e.name.text = e'.name.text ↔ raw.take 8 = raw'.take 8 ∧ (raw.take 11).drop 8 = (raw'.take 11).drop 8 := by
  rw [name_of_classify h hr, name_of_classify h' hr']
  exact hc.recordName_eq_iff h h' hc'

/-- a file with these eleven bytes as its name -/
def fileRecord (name : List UInt8) : List UInt8 := name ++ 0x20 :: List.replicate 20 0x00

/-- a record that is handed out, and its name -/
theorem exists_entry (raw : List UInt8)
    (h : raw.length = 32 ∧ isLast raw = false ∧ isDropped raw = false) :
    ∃ e, classify raw = .ok (.entry e) ∧ e.name.text = recordName raw := by
  obtain ⟨e, he, hdec⟩ := (classify_eq h.1 h.2.1).2 h.2.2
  exact ⟨e, he, hdec.name⟩

def recordA : List UInt8 := fileRecord [0x41, 0x20, 0x20, 0x20, 0x20, 0x20, 0x20, 0x20, 0x20, 0x20, 0x20]

def recordADotB : List UInt8 := fileRecord [0x41, 0x20, 0x20, 0x20, 0x20, 0x20, 0x20, 0x20, 0x42, 0x20, 0x20]

theorem recordA_canonical : Canonical recordA ∧ Canonical recordADotB := by
  constructor
  · constructor <;> simp [Padded, extensionField, recordA, fileRecord, List.dropWhile]
  · constructor <;> simp [Padded, extensionField, recordADotB, fileRecord, List.dropWhile]

theorem name_injective_recordA :
    ∃ e e', classify recordA = .ok (.entry e) ∧ classify recordADotB = .ok (.entry e') ∧
      e.name.text ≠ e'.name.text := by
  obtain ⟨e, he, _⟩ := exists_entry recordA (by decide)
  obtain ⟨e', he', _⟩ := exists_entry recordADotB (by decide)
  refine ⟨e, e', he, he', fun hname => ?_⟩
  have hfields := (name_injective recordA recordADotB e e' (by decide) (by decide) he he'
    recordA_canonical.1 recordA_canonical.2).mp hname
  exact absurd hfields (by decide)

/-- `A B` with a space inside, and a base `A.B` with a dot of its own -/
def recordSpaced : List UInt8 := fileRecord [0x41, 0x20, 0x42, 0x20, 0x20, 0x20, 0x20, 0x20, 0x20, 0x20, 0x20]

def recordDotted : List UInt8 := fileRecord [0x41, 0x2e, 0x42, 0x20, 0x20, 0x20, 0x20, 0x20, 0x20, 0x20, 0x20]

/-- **other short names collapse**: `A B` is read as `A`, and `A.B` is read from two different records -/
theorem short_names_collapse :
    (∃ e e', classify recordSpaced = .ok (.entry e) ∧ classify recordA = .ok (.entry e') ∧
      e.name.text = e'.name.text ∧ recordSpaced.take 8 ≠ recordA.take 8) ∧
    (∃ e e', classify recordDotted = .ok (.entry e) ∧ classify recordADotB = .ok (.entry e') ∧
      e.name.text = e'.name.text ∧ recordDotted.take 8 ≠ recordADotB.take 8) := by
  obtain ⟨spaced, hs, hsname⟩ := exists_entry recordSpaced (by decide)
  obtain ⟨a, ha, haname⟩ := exists_entry recordA (by decide)
  obtain ⟨dotted, hd, hdname⟩ := exists_entry recordDotted (by decide)
  obtain ⟨ab, hab, habname⟩ := exists_entry recordADotB (by decide)
  refine ⟨⟨spaced, a, hs, ha, ?_, by decide⟩, ⟨dotted, ab, hd, hab, ?_, by decide⟩⟩
  · rw [hsname, haname]
    decide
  · rw [hdname, habname]
    decide

end Fat
end SolOs
