import Mathlib

/-!
# Text and byte strings

A string is the list of its characters, a byte slice the list of its bytes.

* `components path`      the non-empty parts between the slashes;
* `trimMatches c s`      `s` without the characters `c` at its two ends;
* `eqIgnoreAsciiCase`    equality up to the case of ASCII letters;
* `Respell`              a change of a path in its slashes or in the case of its letters;
* `chunksExact k xs`     the full pieces of length `k`;
* `ofAscii`              bytes read as characters;
* `fromUtf8`             the decoder of the standard library, on lists;
* `trim`, `splitWhitespace`    the two operations on Unicode white space; `splitWhitespace_trim`: the words
                         do not depend on the white space around the text.
-/

namespace Text

abbrev Str := List Char

/-! ## paths -/

def components (path : Str) : List Str := (path.splitOn '/').filter (fun c => !c.isEmpty)

def trimMatches (c : Char) (s : Str) : Str := (s.dropWhile (· = c)).rdropWhile (· = c)

theorem components_append_slash (p q : Str) :
    components (p ++ '/' :: q) = components p ++ components q := by
  unfold components
  rw [List.splitOn_append_cons_self, List.filter_append]

theorem components_of_not_mem {n : Str} (h : '/' ∉ n) (hne : n ≠ []) : components n = [n] := by
  unfold components
  rw [List.splitOn_eq_singleton h]
  cases n with
  | nil => exact absurd rfl hne
  | cons c cs => rfl

/-- the components of a path into a directory: those of the directory, then the name -/
theorem components_join {p n : Str} (h : '/' ∉ n) (hne : n ≠ []) :
    components (p ++ '/' :: n) = components p ++ [n] := by
  rw [components_append_slash, components_of_not_mem h hne]

theorem components_all_slash {s : Str} (h : ∀ c ∈ s, c = '/') : components s = [] := by
  induction s with
  | nil => rfl
  | cons c s ih =>
    obtain rfl := h c List.mem_cons_self
    have e : components ('/' :: s) = components [] ++ components s := components_append_slash [] s
    rw [e, ih (fun d hd => h d (List.mem_cons_of_mem _ hd))]
    rfl

theorem components_ne_nil {s : Str} {c : Char} (hc : c ∈ s) (hne : c ≠ '/') :
    components s ≠ [] := by
  intro h
  -- all parts are empty, so the path is nothing but separators
  have hall : ∀ part ∈ s.splitOn '/', part = [] := by
    intro part hp
    by_contra hpe
    have : part ∈ components s := List.mem_filter.mpr ⟨hp, by simpa using hpe⟩
    rw [h] at this
    exact List.not_mem_nil this
  have hs : c ∈ ['/'].intercalate (s.splitOn '/') := by
    rw [List.intercalate_splitOn]
    exact hc
  rw [List.eq_replicate_of_mem hall] at hs
  have hrep : ∀ n, c ∉ ['/'].intercalate (List.replicate n ([] : Str)) := by
    intro n
    induction n with
    | zero => simp
    | succ n ih =>
      cases n with
      | zero => simp
      | succ n =>
        rw [List.replicate_succ, List.replicate_succ, List.intercalate_cons_cons,
          ← List.replicate_succ]
        simp only [List.nil_append, List.mem_append, List.mem_singleton, not_or]
        exact ⟨hne, ih⟩
  exact hrep _ hs

/-- the two tests for the root directory agree -/
theorem trimMatches_slash_eq_nil {s : Str} : trimMatches '/' s = [] ↔ components s = [] := by
  unfold trimMatches
  rw [List.rdropWhile_eq_nil_iff]
  constructor
  · intro h
    apply components_all_slash
    intro c hc
    by_contra hne
    -- the first character that is not a slash survives the trimming
    have hd : s.dropWhile (· = '/') ≠ [] := by
      intro h0
      rw [List.dropWhile_eq_nil_iff] at h0
      exact hne (by simpa using h0 c hc)
    have hhead := List.head_dropWhile_not (fun x : Char => decide (x = '/')) hd
    have := h _ (List.head_mem hd)
    rw [hhead] at this
    exact Bool.false_ne_true this
  · intro h c hc
    by_contra hne
    have hcs : c ∈ s := (List.dropWhile_sublist _).mem hc
    exact components_ne_nil hcs (by simpa using hne) h

/-! ## ASCII -/

def eqIgnoreAsciiCase (a b : Str) : Bool := a.map Char.toLower = b.map Char.toLower

theorem eqIgnoreAsciiCase_iff {a b : Str} :
    eqIgnoreAsciiCase a b = true ↔ a.map Char.toLower = b.map Char.toLower := by
  simp [eqIgnoreAsciiCase]

theorem eqIgnoreAsciiCase_refl (a : Str) : eqIgnoreAsciiCase a a = true :=
  eqIgnoreAsciiCase_iff.mpr rfl

/-! ## spelling of paths -/

/-- only letters change their case -/
theorem toLower_eq_self {c : Char} (h : c.isAlpha = false) : c.toLower = c := by
  rw [Char.isAlpha, Bool.or_eq_false_iff] at h
  exact Char.toLower_eq_of_not_isUpper (by simp [h.1])

theorem toLower_eq_iff {c x : Char} (hx : x.isAlpha = false) : c.toLower = x ↔ c = x := by
  constructor
  · intro h
    have hc : c.isAlpha = false := by rw [← Char.isAlpha_toLower_eq_isAlpha, h, hx]
    rw [← h, toLower_eq_self hc]
  · rintro rfl
    exact toLower_eq_self hx

theorem splitOn_map_toLower (s : Str) :
    (s.map Char.toLower).splitOn '/' = (s.splitOn '/').map (List.map Char.toLower) := by
  induction s with
  | nil => rfl
  | cons c s ih =>
    have hslash : (c.toLower == '/') = (c == '/') := by
      rw [Bool.eq_iff_iff, beq_iff_eq, beq_iff_eq, toLower_eq_iff rfl]
    unfold List.splitOn at ih ⊢
    rw [List.map_cons, List.splitOnP_cons_eq_if_modifyHead, List.splitOnP_cons_eq_if_modifyHead, hslash, ih]
    cases c == '/' with
    | true => rfl
    | false => cases s.splitOnP (· == '/') <;> rfl

theorem components_map_toLower (s : Str) :
    components (s.map Char.toLower) = (components s).map (List.map Char.toLower) := by
  unfold components
  rw [splitOn_map_toLower, List.filter_map]
  have hempty : (fun c : Str => !c.isEmpty) ∘ List.map Char.toLower = fun c => !c.isEmpty := by
    funext c
    simp
  rw [hempty]

/-- the same components up to the case of ASCII letters -/
def SameComponents (p q : Str) : Prop :=
  List.Forall₂ (fun a b => eqIgnoreAsciiCase a b = true) (components p) (components q)

theorem sameComponents_iff {p q : Str} :
    SameComponents p q
      ↔ (components p).map (List.map Char.toLower) = (components q).map (List.map Char.toLower) := by
  have hmap := List.forall₂_eq_eq_eq (α := Str)
  simp only [SameComponents, eqIgnoreAsciiCase_iff]
  rw [← hmap, List.forall₂_map_left_iff, List.forall₂_map_right_iff]

/-- one change of a path that does not change where it leads -/
inductive Respell : Str → Str → Prop
  | lead (p : Str) : Respell p ('/' :: p)
  | trail (p : Str) : Respell p (p ++ ['/'])
  | double (p q : Str) : Respell (p ++ '/' :: q) (p ++ '/' :: '/' :: q)
  | letters {p q : Str} (h : eqIgnoreAsciiCase p q = true) : Respell p q

theorem components_lead (p : Str) : components ('/' :: p) = components p := components_append_slash [] p

theorem sameComponents_of_respell {p q : Str} (h : Respell p q) : SameComponents p q := by
  rw [sameComponents_iff]
  cases h with
  | lead => rw [components_lead]
  | trail => rw [components_append_slash, show components [] = [] from rfl, List.append_nil]
  | double a b => rw [components_append_slash, components_append_slash, components_lead]
  | letters h => rw [← components_map_toLower, ← components_map_toLower, eqIgnoreAsciiCase_iff.mp h]

/-- **paths that differ in slashes and in case only have the same components** -/
theorem sameComponents_of_respelled {p q : Str} (h : Relation.EqvGen Respell p q) : SameComponents p q := by
  rw [sameComponents_iff]
  induction h with
  | rel p q h => exact sameComponents_iff.mp (sameComponents_of_respell h)
  | refl p => rfl
  | symm p q _ ih => exact ih.symm
  | trans p q r _ _ ih ih' => exact ih.trans ih'

/-! ## bytes as text -/

def isAscii (b : UInt8) : Bool := b.toNat < 128

/-- every byte as the character with the same code -/
def ofAscii (bytes : List UInt8) : Str := bytes.map (fun b => Char.ofNat b.toNat)

theorem ofNat_toNat_ne {b : UInt8} {c : Char} (h : b.toNat ≠ c.toNat) :
    Char.ofNat b.toNat ≠ c := by
  rintro rfl
  have hb := b.toNat_lt
  exact h (Char.toNat_ofNat b.toNat ▸ (if_pos (Or.inl (by omega))).symm)

/-! ## UTF-8 -/

def fromUtf8 (bytes : List UInt8) : Option Str := bytes.toByteArray.utf8Decode?.map Array.toList

theorem utf8EncodeChar_ofNat {b : UInt8} (h : b.toNat < 128) :
    String.utf8EncodeChar (Char.ofNat b.toNat) = [b] := by
  have key : ∀ n < 128, String.utf8EncodeChar (Char.ofNat n) = [UInt8.ofNat n] := by decide
  rw [key _ h, UInt8.ofNat_toNat]

/-- ASCII bytes are the UTF-8 encoding of their characters -/
theorem fromUtf8_ofAscii {bytes : List UInt8} (h : ∀ b ∈ bytes, b.toNat < 128) :
    fromUtf8 bytes = some (ofAscii bytes) := by
  have henc : (ofAscii bytes).flatMap String.utf8EncodeChar = bytes := by
    induction bytes with
    | nil => rfl
    | cons b bytes ih =>
      show String.utf8EncodeChar (Char.ofNat b.toNat) ++ (ofAscii bytes).flatMap _ = _
      rw [utf8EncodeChar_ofNat (h b List.mem_cons_self), ih fun c hc => h c (List.mem_cons_of_mem _ hc)]
      rfl
  have hbytes : bytes.toByteArray = (ofAscii bytes).utf8Encode := by
    rw [List.utf8Encode, henc]
  unfold fromUtf8
  rw [hbytes, List.utf8Decode?_utf8Encode, Option.map_some]

/-! ## white space -/

/-- `char::is_whitespace` -/
def isWhitespace (c : Char) : Bool :=
  (9 ≤ c.toNat && c.toNat ≤ 13) || (0x2000 ≤ c.toNat && c.toNat ≤ 0x200a) ||
    [0x20, 0x85, 0xa0, 0x1680, 0x2028, 0x2029, 0x202f, 0x205f, 0x3000].contains c.toNat

def trimStart (s : Str) : Str := s.dropWhile isWhitespace
def trim (s : Str) : Str := (trimStart s).rdropWhile isWhitespace

def splitWhitespace (s : Str) : List Str := (s.splitOnP isWhitespace).filter (fun w => !w.isEmpty)

theorem splitWhitespace_append_cons {c : Char} (hc : isWhitespace c = true) (s t : Str) :
    splitWhitespace (s ++ c :: t) = splitWhitespace s ++ splitWhitespace t := by
  unfold splitWhitespace
  rw [List.splitOnP_append_cons _ _ hc, List.filter_append]

theorem splitWhitespace_trimStart (s : Str) : splitWhitespace (trimStart s) = splitWhitespace s := by
  induction s with
  | nil => rfl
  | cons c s ih =>
    unfold trimStart
    by_cases hc : isWhitespace c = true
    · rw [List.dropWhile_cons_of_pos hc]
      exact ih.trans (splitWhitespace_append_cons hc [] s).symm
    · rw [List.dropWhile_cons_of_neg hc]

/-- **the words do not depend on the white space around the text** -/
theorem splitWhitespace_trim (s : Str) : splitWhitespace (trim s) = splitWhitespace s := by
  refine Eq.trans ?_ (splitWhitespace_trimStart s)
  unfold trim
  generalize trimStart s = s
  induction s using List.reverseRecOn with
  | nil => rfl
  | append_singleton s c ih =>
    by_cases hc : isWhitespace c = true
    · rw [List.rdropWhile_concat_pos _ _ _ hc, ih]
      exact ((splitWhitespace_append_cons hc s []).trans (List.append_nil _)).symm
    · rw [List.rdropWhile_concat_neg _ _ _ hc]

/-- a word at the start, and what follows it -/
theorem splitWhitespace_word {c : Char} {s : Str} (hc : isWhitespace c = false) :
    splitWhitespace (c :: s) = (c :: s).takeWhile (fun c => !isWhitespace c)
      :: splitWhitespace ((c :: s).dropWhile (fun c => !isWhitespace c)) := by
  have hword : ∀ x ∈ (c :: s).takeWhile (fun c => !isWhitespace c), isWhitespace x = false := by
    intro x hx
    simpa using List.mem_takeWhile_imp hx
  have hne : (c :: s).takeWhile (fun c => !isWhitespace c) ≠ [] := by
    rw [List.takeWhile_cons_of_pos (by simp [hc])]
    exact List.cons_ne_nil _ _
  have hsingle : splitWhitespace ((c :: s).takeWhile fun c => !isWhitespace c)
      = [(c :: s).takeWhile fun c => !isWhitespace c] := by
    unfold splitWhitespace
    rw [List.splitOnP_eq_singleton hword, List.filter_cons_of_pos (by simpa using hne), List.filter_nil]
  conv_lhs => rw [← List.takeWhile_append_dropWhile (p := fun c => !isWhitespace c) (l := c :: s)]
  cases hrest : (c :: s).dropWhile (fun c => !isWhitespace c) with
  | nil => rw [List.append_nil, hsingle]; rfl
  | cons b rest =>
    have hb : isWhitespace b = true := by
      have := List.head?_dropWhile_not (fun c => !isWhitespace c) (c :: s)
      rw [hrest] at this
      simpa using this
    rw [splitWhitespace_append_cons hb, hsingle]
    exact congrArg (_ :: ·) (splitWhitespace_append_cons hb [] rest).symm

theorem trimStart_cases (s : Str) :
    trimStart s = [] ∨ ∃ c t, trimStart s = c :: t ∧ isWhitespace c = false := by
  cases h : trimStart s with
  | nil => exact .inl rfl
  | cons c t =>
    have hhead := List.head?_dropWhile_not isWhitespace s
    unfold trimStart at h
    rw [h] at hhead
    exact .inr ⟨c, t, rfl, by simpa using hhead⟩

/-- a trimmed text is empty, or starts with a word -/
theorem trim_cases (s : Str) : trim s = [] ∨ ∃ c t, trim s = c :: t ∧ isWhitespace c = false := by
  have hpre : trim s <+: trimStart s := List.rdropWhile_prefix _ _
  obtain hnil | ⟨c, t, hcons, hc⟩ := trimStart_cases s
  · rw [hnil] at hpre
    exact .inl (List.prefix_nil.mp hpre)
  · rw [hcons] at hpre
    cases htrim : trim s with
    | nil => exact .inl rfl
    | cons b u =>
      rw [htrim] at hpre
      obtain ⟨rfl, _⟩ := List.cons_prefix_cons.mp hpre
      exact .inr ⟨b, u, rfl, hc⟩

theorem trim_eq_nil_iff (s : Str) : trim s = [] ↔ splitWhitespace s = [] := by
  rw [← splitWhitespace_trim]
  obtain hnil | ⟨c, t, hcons, hc⟩ := trim_cases s
  · rw [hnil]
    exact iff_of_true rfl rfl
  · rw [hcons, splitWhitespace_word hc]
    exact iff_of_false (List.cons_ne_nil _ _) (List.cons_ne_nil _ _)

/-! ## numbers -/

def decimal (n : Nat) : Str := Nat.toDigits 10 n

/-- `{:>width$}` -/
def padLeft (fill : Char) (width : Nat) (s : Str) : Str :=
  List.replicate (width - s.length) fill ++ s

/-! ## pieces -/

def chunksExact {α : Type} (k : Nat) (xs : List α) : List (List α) :=
  (List.range (xs.length / k)).map (fun i => (xs.drop (i * k)).take k)

theorem length_of_mem_chunksExact {α : Type} {k : Nat} {xs ys : List α} (h : ys ∈ chunksExact k xs) :
    ys.length = k := by
  obtain ⟨i, hi, rfl⟩ := List.mem_map.mp h
  rw [List.mem_range] at hi
  have hle : (i + 1) * k ≤ xs.length :=
    le_trans (Nat.mul_le_mul_right k hi) (Nat.div_mul_le_self _ _)
  rw [Nat.succ_mul] at hle
  rw [List.length_take, List.length_drop]
  omega

end Text
