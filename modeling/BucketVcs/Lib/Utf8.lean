import Mathlib.Data.List.Basic

/-! Byte strings coerced to valid UTF-8 the way a JSON encoder does it: every byte that
starts no well-formed character becomes the replacement character. -/

namespace Utf8

open List

def tails (lead : UInt8) : Option (List (UInt8 × UInt8)) :=
  if lead ≤ 0x7F then some []
  else if lead < 0xC2 then none
  else if lead ≤ 0xDF then some [(0x80, 0xBF)]
  else if lead = 0xE0 then some [(0xA0, 0xBF), (0x80, 0xBF)]
  else if lead = 0xED then some [(0x80, 0x9F), (0x80, 0xBF)]
  else if lead ≤ 0xEF then some [(0x80, 0xBF), (0x80, 0xBF)]
  else if lead = 0xF0 then some [(0x90, 0xBF), (0x80, 0xBF), (0x80, 0xBF)]
  else if lead ≤ 0xF3 then some [(0x80, 0xBF), (0x80, 0xBF), (0x80, 0xBF)]
  else if lead = 0xF4 then some [(0x80, 0x8F), (0x80, 0xBF), (0x80, 0xBF)]
  else none

def fits : List (UInt8 × UInt8) → List UInt8 → Bool
  | [], _ => true
  | _ :: _, [] => false
  | (low, high) :: bounds, byte :: rest =>
    decide (low ≤ byte) && decide (byte ≤ high) && fits bounds rest

def replacement : List UInt8 := [0xEF, 0xBF, 0xBD]

/-- `skip` bytes of a character already accepted are still to be copied. -/
def coerceFrom : Nat → List UInt8 → List UInt8
  | _, [] => []
  | skip + 1, byte :: rest => byte :: coerceFrom skip rest
  | 0, byte :: rest =>
    match tails byte with
    | some bounds =>
      if fits bounds rest then byte :: coerceFrom bounds.length rest
      else replacement ++ coerceFrom 0 rest
    | none => replacement ++ coerceFrom 0 rest

def coerce (text : List UInt8) : List UInt8 := coerceFrom 0 text

def Valid (text : List UInt8) : Prop := coerce text = text

instance (text : List UInt8) : Decidable (Valid text) :=
  inferInstanceAs (Decidable (coerce text = text))

theorem fits_coerceFrom (bounds : List (UInt8 × UInt8)) (rest : List UInt8)
    (fitting : fits bounds rest = true) : fits bounds (coerceFrom bounds.length rest) = true := by
  induction bounds generalizing rest with
  | nil => rfl
  | cons bound bounds ih =>
    cases rest with
    | nil => cases fitting
    | cons byte rest =>
      simp only [fits, Bool.and_eq_true] at fitting
      simp only [length_cons, coerceFrom, fits, Bool.and_eq_true]
      exact ⟨fitting.1, ih rest fitting.2⟩

attribute [local simp] coerceFrom

theorem coerceFrom_replacement (rest : List UInt8) :
    coerceFrom 0 (replacement ++ rest) = replacement ++ coerceFrom 0 rest := by
  have lead : tails 0xEF = some [(0x80, 0xBF), (0x80, 0xBF)] := by decide
  simp [replacement, lead, fits]

theorem coerceFrom_idempotent (text : List UInt8) (skip : Nat) :
    coerceFrom skip (coerceFrom skip text) = coerceFrom skip text := by
  induction text generalizing skip with
  | nil => cases skip <;> rfl
  | cons byte rest ih =>
    cases skip with
    | succ skip => simp only [coerceFrom, ih]
    | zero =>
      cases bounded : tails byte with
      | none => simp only [coerceFrom, bounded, coerceFrom_replacement, ih]
      | some bounds =>
        by_cases fitting : fits bounds rest = true
        · have still := fits_coerceFrom bounds rest fitting
          simp [bounded, fitting, still, ih]
        · simp [bounded, fitting, coerceFrom_replacement, ih]

theorem valid_coerce (text : List UInt8) : Valid (coerce text) :=
  coerceFrom_idempotent text 0

theorem coerce_eq_nil {text : List UInt8} : coerce text = [] ↔ text = [] := by
  cases text with
  | nil => exact .rfl
  | cons byte rest =>
    simp only [coerce, coerceFrom]
    split
    · split <;> simp [replacement]
    · simp [replacement]

theorem valid_of_ascii {text : List UInt8} (ascii : ∀ byte ∈ text, byte ≤ 0x7F) : Valid text := by
  induction text with
  | nil => rfl
  | cons byte rest ih =>
    have lead : tails byte = some [] := by simp [tails, ascii byte mem_cons_self]
    have later : coerceFrom 0 rest = rest :=
      ih fun other member => ascii other (mem_cons_of_mem _ member)
    change coerceFrom 0 (byte :: rest) = byte :: rest
    simp [lead, fits, later]

theorem fits_append {bounds : List (UInt8 × UInt8)} {tail : List UInt8} (rest : List UInt8)
    (fitting : fits bounds tail = true) : fits bounds (tail ++ rest) = true := by
  induction bounds generalizing tail with
  | nil => rfl
  | cons bound bounds ih =>
    cases tail with
    | nil => cases fitting
    | cons byte tail =>
      simp only [fits, Bool.and_eq_true, cons_append] at fitting ⊢
      exact ⟨fitting.1, ih fitting.2⟩

theorem coerceFrom_length_append (tail rest : List UInt8) :
    coerceFrom tail.length (tail ++ rest) = tail ++ coerceFrom 0 rest := by
  induction tail with
  | nil => rfl
  | cons byte tail ih => simp [ih]

theorem coerceFrom_accept (bounds : List (UInt8 × UInt8)) {lead : UInt8} {tail : List UInt8}
    (rest : List UInt8) (leading : tails lead = some bounds) (fitting : fits bounds tail = true)
    (long : tail.length = bounds.length) :
    coerceFrom 0 (lead :: tail ++ rest) = lead :: tail ++ coerceFrom 0 rest := by
  simp [leading, fits_append rest fitting, ← long, coerceFrom_length_append]

theorem coerceFrom_encodeChar (c : Char) (rest : List UInt8) :
    coerceFrom 0 (String.utf8EncodeChar c ++ rest) =
      String.utf8EncodeChar c ++ coerceFrom 0 rest := by
  have scalar := c.valid
  unfold UInt32.isValidChar Nat.isValidChar at scalar
  unfold String.utf8EncodeChar
  generalize c.val.toNat = v at scalar
  have byte (n : Nat) (small : n < 256) : (UInt8.ofNat n).toNat = n := by
    rw [UInt8.toNat_ofNat']
    omega
  simp only
  split
  · apply coerceFrom_accept []
    · simp only [tails, UInt8.le_iff_toNat_le, byte v (by omega)]
      rw [if_pos (by simpa using by assumption)]
    · rfl
    · rfl
  split
  · apply coerceFrom_accept [(0x80, 0xBF)]
    · simp only [tails, UInt8.le_iff_toNat_le, UInt8.lt_iff_toNat_lt]
      rw [if_neg] <;> simp <;> omega
    · simp [fits, UInt8.le_iff_toNat_le]
      omega
    · rfl
  split
  · have lead := byte (v / 4096 % 16 + 224) (by omega)
    -- E0 and ED narrow the second byte: no overlong form, no surrogate.
    apply coerceFrom_accept (if v < 0x1000 then [(0xA0, 0xBF), (0x80, 0xBF)]
      else if v / 4096 = 13 then [(0x80, 0x9F), (0x80, 0xBF)] else [(0x80, 0xBF), (0x80, 0xBF)])
    · simp only [tails, UInt8.le_iff_toNat_le, UInt8.lt_iff_toNat_lt, ← UInt8.toNat_inj]
      grind
    · split_ifs <;> simp [fits, UInt8.le_iff_toNat_le] <;> omega
    · split_ifs <;> rfl
  · have lead := byte (v / 0x40000 % 8 + 240) (by omega)
    -- F0 and F4 narrow it too: no overlong form, nothing above U+10FFFF.
    apply coerceFrom_accept (if v < 0x40000 then [(0x90, 0xBF), (0x80, 0xBF), (0x80, 0xBF)]
      else if v / 0x40000 = 4 then [(0x80, 0x8F), (0x80, 0xBF), (0x80, 0xBF)]
      else [(0x80, 0xBF), (0x80, 0xBF), (0x80, 0xBF)])
    · simp only [tails, UInt8.le_iff_toNat_le, UInt8.lt_iff_toNat_lt, ← UInt8.toNat_inj]
      grind
    · split_ifs <;> simp [fits, UInt8.le_iff_toNat_le] <;> omega
    · split_ifs <;> rfl

def encode (text : String) : List UInt8 := text.toList.flatMap String.utf8EncodeChar

theorem valid_encode (text : String) : Valid (encode text) := by
  unfold encode
  induction text.toList with
  | nil => rfl
  | cons c rest ih =>
    change coerceFrom 0 _ = _
    rw [flatMap_cons, coerceFrom_encodeChar, show coerceFrom 0 _ = _ from ih]

theorem encode_injective : Function.Injective encode := by
  intro left right same
  apply String.toByteArray_inj.mp
  rw [← String.utf8Encode_toList, ← String.utf8Encode_toList]
  exact congrArg toByteArray same

example : coerce [0x61, 0xFF, 0x62] = [0x61, 0xEF, 0xBF, 0xBD, 0x62] := by decide

end Utf8
