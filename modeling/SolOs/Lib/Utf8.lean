import SolOs.Lib.Text

/-!
# UTF-8 in pieces

Where a text may be cut.

* `utf8 text`            the encoding, `fromUtf8_eq_some_iff` it is what the decoder accepts;
* `fromUtf8_append`      two texts one after the other;
* `fromUtf8_split`       a cut before the first byte of a character leaves two texts;
* `forall_fromUtf8_iff`  the pieces of a text are texts iff each starts with a character;
* `wide`                 the number of bytes that are not ASCII.
-/

namespace Text

def utf8 (text : Str) : List UInt8 := text.flatMap String.utf8EncodeChar

@[simp] theorem utf8_nil : utf8 [] = [] := rfl

@[simp] theorem utf8_cons (c : Char) (text : Str) :
    utf8 (c :: text) = String.utf8EncodeChar c ++ utf8 text := List.flatMap_cons

@[simp] theorem utf8_append (s t : Str) : utf8 (s ++ t) = utf8 s ++ utf8 t := List.flatMap_append

theorem fromUtf8_eq_some_iff {bytes : List UInt8} {text : Str} :
    fromUtf8 bytes = some text ↔ bytes = utf8 text := by
  unfold fromUtf8
  constructor
  · intro h
    obtain ⟨chars, hdecode, rfl⟩ := Option.map_eq_some_iff.mp h
    have hsome : bytes.toByteArray.utf8Decode?.isSome := by
      rw [hdecode]
      rfl
    have hencode : (bytes.toByteArray.utf8Decode?.get hsome).toList.utf8Encode = bytes.toByteArray :=
      ByteArray.utf8Encode_get_utf8Decode?
    simp only [hdecode, Option.get_some] at hencode
    rw [List.utf8Encode] at hencode
    have hdata := congrArg (fun b : ByteArray => b.data.toList) hencode
    simpa [utf8] using hdata.symm
  · rintro rfl
    have hbytes : (utf8 text).toByteArray = text.utf8Encode := rfl
    rw [hbytes, List.utf8Decode?_utf8Encode, Option.map_some]

theorem fromUtf8_append {a b : List UInt8} {s t : Str} (ha : fromUtf8 a = some s)
    (hb : fromUtf8 b = some t) : fromUtf8 (a ++ b) = some (s ++ t) := by
  rw [fromUtf8_eq_some_iff] at ha hb ⊢
  rw [ha, hb, utf8_append]

/-- the first byte of a text is the first of a character -/
theorem head_of_fromUtf8 {bytes : List UInt8} {text : Str} (h : fromUtf8 bytes = some text) {b : UInt8}
    (hb : bytes.head? = some b) : b.IsUTF8FirstByte := by
  rw [fromUtf8_eq_some_iff] at h
  subst h
  cases text with
  | nil => cases hb
  | cons c text =>
    have hpos : 0 < (String.utf8EncodeChar c).length := List.length_pos_iff.mpr String.utf8EncodeChar_ne_nil
    rw [utf8_cons, List.head?_append_of_ne_nil _ String.utf8EncodeChar_ne_nil, List.head?_eq_getElem?,
      List.getElem?_eq_getElem hpos] at hb
    obtain rfl := Option.some.inj hb
    exact UInt8.isUTF8FirstByte_getElem_utf8EncodeChar.mpr rfl

/-- **a text cut before the first byte of a character** -/
theorem fromUtf8_split {a b : List UInt8} {text : Str} (h : fromUtf8 (a ++ b) = some text)
    (hb : ∀ x, b.head? = some x → x.IsUTF8FirstByte) :
    (∃ s, fromUtf8 a = some s) ∧ ∃ t, fromUtf8 b = some t := by
  simp only [fromUtf8_eq_some_iff] at h ⊢
  induction text generalizing a with
  | nil =>
    obtain ⟨rfl, rfl⟩ := List.append_eq_nil_iff.mp h
    exact ⟨⟨[], rfl⟩, [], rfl⟩
  | cons c text ih =>
    rw [utf8_cons] at h
    rcases List.append_eq_append_iff.mp h with ⟨a', hc, hrest⟩ | ⟨a', rfl, hrest⟩
    · -- the cut is not after the first character: it is before it, or else `b` starts inside it
      cases a' with
      | nil =>
        rw [List.append_nil] at hc
        rw [List.nil_append] at hrest
        refine ⟨⟨[c], ?_⟩, text, hrest⟩
        rw [utf8_cons, utf8_nil, List.append_nil, hc]
      | cons x rest =>
        have hfirst : x.IsUTF8FirstByte := hb x (by rw [hrest]; rfl)
        have hlt : a.length < (String.utf8EncodeChar c).length := by
          rw [hc, List.length_append, List.length_cons]
          omega
        have hx : (String.utf8EncodeChar c)[a.length]? = some x := by
          rw [hc, List.getElem?_append_right le_rfl, Nat.sub_self]
          rfl
        rw [List.getElem?_eq_getElem hlt] at hx
        have hzero : a.length = 0 := by
          rw [← Option.some.inj hx] at hfirst
          exact UInt8.isUTF8FirstByte_getElem_utf8EncodeChar.mp hfirst
        obtain rfl := List.length_eq_zero_iff.mp hzero
        refine ⟨⟨[], rfl⟩, c :: text, ?_⟩
        rw [utf8_cons]
        exact h
    · obtain ⟨⟨s, hs⟩, ht⟩ := ih hrest.symm
      refine ⟨⟨c :: s, ?_⟩, ht⟩
      rw [utf8_cons, hs]

/-- the pieces of a text are texts iff each starts with a character -/
theorem forall_fromUtf8_iff {pieces : List (List UInt8)} (hne : ∀ p ∈ pieces, p ≠ []) {text : Str}
    (h : fromUtf8 pieces.flatten = some text) :
    (∀ p ∈ pieces, ∃ s, fromUtf8 p = some s) ↔
      ∀ p ∈ pieces.tail, ∀ b, p.head? = some b → b.IsUTF8FirstByte := by
  constructor
  · intro hall p hp b hb
    obtain ⟨s, hs⟩ := hall p (List.mem_of_mem_tail hp)
    exact head_of_fromUtf8 hs hb
  · intro hheads
    induction pieces generalizing text with
    | nil => exact fun p hp => absurd hp List.not_mem_nil
    | cons p rest ih =>
      have hrest : ∀ x, rest.flatten.head? = some x → x.IsUTF8FirstByte := by
        intro x hx
        cases rest with
        | nil => cases hx
        | cons q rest =>
          have hq : q ≠ [] := hne q (by simp)
          rw [List.flatten_cons, List.head?_append_of_ne_nil _ hq] at hx
          exact hheads q List.mem_cons_self x hx
      obtain ⟨hp, t, ht⟩ := fromUtf8_split h hrest
      have hothers := ih (fun q hq => hne q (List.mem_cons_of_mem _ hq)) ht
        (fun q hq => hheads q (List.mem_of_mem_tail hq))
      intro q hq
      rcases List.mem_cons.mp hq with rfl | hq
      · exact hp
      · exact hothers q hq

/-! ## bytes that are not ASCII -/

def wide (bytes : List UInt8) : Nat := bytes.countP (fun b => 128 ≤ b.toNat)

@[simp] theorem wide_append (a b : List UInt8) : wide (a ++ b) = wide a + wide b := List.countP_append

theorem wide_eq_zero_iff {bytes : List UInt8} : wide bytes = 0 ↔ ∀ b ∈ bytes, b.toNat < 128 := by
  unfold wide
  rw [List.countP_eq_zero]
  simp

/-- bytes that are not a text are not all ASCII -/
theorem wide_pos_of_fromUtf8 {bytes : List UInt8} (h : fromUtf8 bytes = none) : 0 < wide bytes := by
  by_contra hzero
  rw [fromUtf8_ofAscii (wide_eq_zero_iff.mp (Nat.eq_zero_of_not_pos hzero))] at h
  cases h

/-- ASCII characters have ASCII encodings -/
theorem wide_utf8_of_ascii {text : Str} (h : ∀ c ∈ text, c.toNat < 128) : wide (utf8 text) = 0 := by
  induction text with
  | nil => rfl
  | cons c text ih =>
    have hc : c.toNat < 128 := h c List.mem_cons_self
    have hbyte : (UInt8.ofNat c.toNat).toNat = c.toNat :=
      UInt8.toNat_ofNat_of_lt' (lt_trans hc (by decide))
    have hencode : String.utf8EncodeChar c = [UInt8.ofNat c.toNat] := by
      have key := utf8EncodeChar_ofNat (b := UInt8.ofNat c.toNat) (by rw [hbyte]; exact hc)
      rwa [hbyte, Char.ofNat_toNat] at key
    rw [utf8_cons, wide_append, ih (fun d hd => h d (List.mem_cons_of_mem _ hd)), hencode, Nat.add_zero,
      wide_eq_zero_iff]
    intro b hb
    rw [List.mem_singleton.mp hb, hbyte]
    exact hc

end Text
