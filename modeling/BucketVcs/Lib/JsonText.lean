import Mathlib.Data.List.TakeWhile
import Mathlib.Data.Nat.Digits.Lemmas
import BucketVcs.Lib.Json

/-! JSON text without white space: values printed and read back. -/

namespace Json

open List Utf8

/-- The bytes a literal or a number is made of: none of `",:[]{}`. -/
def isWord (byte : UInt8) : Bool := byte ∉ ([0x22, 0x2C, 0x3A, 0x5B, 0x5D, 0x7B, 0x7D] : Bytes)

/-! Tokens. -/

def hexDigit (n : Nat) : UInt8 := UInt8.ofNat (if n < 10 then 0x30 + n else 0x57 + n)

def hexValue (digit : UInt8) : Nat :=
  if digit ≤ 0x39 then digit.toNat - 0x30 else digit.toNat - 0x57

def isPrinted (byte : UInt8) : Bool := 0x20 ≤ byte && byte ≠ 0x22 && byte ≠ 0x5C

def escape : Bytes → Bytes
  | [] => []
  | byte :: text =>
    if isPrinted byte then byte :: escape text
    else [0x5C, 0x75, 0x30, 0x30, hexDigit (byte.toNat / 16), hexDigit (byte.toNat % 16)] ++ escape text

def printText (text : Text) : Bytes := 0x22 :: escape text.bytes ++ [0x22]

/-- The rest of a string after its opening quote; `pending` is what was read of an escape. -/
def readText (pending : Bytes) : Bytes → Option (Bytes × Bytes)
  | [] => none
  | byte :: rest =>
    if pending.length = 5 then
      if pending.take 4 = [0x5C, 0x75, 0x30, 0x30] then
        (readText [] rest).map fun read =>
          (UInt8.ofNat (16 * hexValue (pending.getLastD 0) + hexValue byte) :: read.1, read.2)
      else none
    else if pending ≠ [] ∨ byte = 0x5C then readText (pending ++ [byte]) rest
    else if byte = 0x22 then some ([], rest)
    else if isPrinted byte then (readText [] rest).map fun read => (byte :: read.1, read.2)
    else none

def printNat (n : Nat) : Bytes :=
  if n = 0 then [0x30] else (Nat.digits 10 n).reverse.map hexDigit

def printInt (n : Int) : Bytes :=
  if n < 0 then 0x2D :: printNat n.natAbs else printNat n.natAbs

def readNat (digits : Bytes) : Nat := Nat.ofDigits 10 (digits.reverse.map hexValue)

def readWord (word : Bytes) : Option Value :=
  if real : isReal word = true then some (.real ⟨word, real⟩)
  else if isWhole (unsigned word) then
    some (.integer (if word.head? = some 0x2D then -readNat (unsigned word) else readNat word))
  else if word = Utf8.encode "null" then some .null
  else if word = Utf8.encode "true" then some (.bool true)
  else if word = Utf8.encode "false" then some (.bool false)
  else none

/-! Values. -/

mutual

def print : Value → Bytes
  | .null => Utf8.encode "null"
  | .bool true => Utf8.encode "true"
  | .bool false => Utf8.encode "false"
  | .integer n => printInt n
  | .real number => number.literal
  | .string text => printText text
  | .array [] => [0x5B, 0x5D]
  | .array (item :: items) => 0x5B :: print item ++ printItems items
  | .object [] => [0x7B, 0x7D]
  | .object ((key, value) :: members) =>
    0x7B :: printText key ++ 0x3A :: print value ++ printMembers members

def printItems : List Value → Bytes
  | [] => [0x5D]
  | item :: items => 0x2C :: print item ++ printItems items

def printMembers : List (Text × Value) → Bytes
  | [] => [0x7D]
  | (key, value) :: members =>
    0x2C :: printText key ++ 0x3A :: print value ++ printMembers members

end

def expect (byte : UInt8) (raw : Bytes) : Option Bytes :=
  if raw.head? = some byte then some raw.tail else none

def readKey (raw : Bytes) : Option (Text × Bytes) := do
  let rest ← expect 0x22 raw
  let (key, rest) ← readText [] rest
  let rest ← expect 0x3A rest
  some (quote key, rest)

mutual

def readValue : Nat → Bytes → Option (Value × Bytes)
  | 0, _ => none
  | _, [] => none
  | fuel + 1, byte :: rest =>
    if byte = 0x22 then (readText [] rest).map fun read => (.string (quote read.1), read.2)
    else if byte = 0x5B then
      match expect 0x5D rest with
      | some rest => some (.array [], rest)
      | none => do
        let (item, rest) ← readValue fuel rest
        let (items, rest) ← readItems fuel rest
        some (.array (item :: items), rest)
    else if byte = 0x7B then
      match expect 0x7D rest with
      | some rest => some (.object [], rest)
      | none => do
        let (key, rest) ← readKey rest
        let (value, rest) ← readValue fuel rest
        let (members, rest) ← readMembers fuel rest
        some (.object ((key, value) :: members), rest)
    else
      (readWord ((byte :: rest).takeWhile isWord)).map fun value =>
        (value, (byte :: rest).dropWhile isWord)

def readItems : Nat → Bytes → Option (List Value × Bytes)
  | 0, _ => none
  | fuel + 1, raw =>
    match expect 0x5D raw with
    | some rest => some ([], rest)
    | none => do
      let rest ← expect 0x2C raw
      let (item, rest) ← readValue fuel rest
      let (items, rest) ← readItems fuel rest
      some (item :: items, rest)

def readMembers : Nat → Bytes → Option (Members × Bytes)
  | 0, _ => none
  | fuel + 1, raw =>
    match expect 0x7D raw with
    | some rest => some ([], rest)
    | none => do
      let rest ← expect 0x2C raw
      let (key, rest) ← readKey rest
      let (value, rest) ← readValue fuel rest
      let (members, rest) ← readMembers fuel rest
      some ((key, value) :: members, rest)

end

def readAll (raw : Bytes) : Except Failure Value :=
  match readValue raw.length raw with
  | some (value, rest) => if rest = [] then .ok value else .error .malformed
  | none => .error .malformed

/-! What is printed is read back, whatever follows it. -/

theorem hexValue_hexDigit : ∀ n < 16, hexValue (hexDigit n) = n := by decide

theorem isDigit_hexDigit : ∀ n < 10, isDigit (hexDigit n) = true := by decide

theorem hexDigit_eq_zero : ∀ n < 10, hexDigit n = 0x30 → n = 0 := by decide

theorem readText_escape (text rest : Bytes) :
    readText [] (escape text ++ 0x22 :: rest) = some (text, rest) := by
  induction text with
  | nil => simp [escape, readText]
  | cons byte text ih =>
    by_cases printed : isPrinted byte = true
    · have plain : byte ≠ 0x22 ∧ byte ≠ 0x5C := by
        simp only [isPrinted, Bool.and_eq_true, decide_eq_true_eq] at printed
        exact ⟨printed.1.2, printed.2⟩
      simp [escape, readText, printed, plain, ih]
    · have small := byte.toNat_lt
      have whole : 16 * (byte.toNat / 16) + byte.toNat % 16 = byte.toNat := by omega
      have high := hexValue_hexDigit (byte.toNat / 16) (by omega)
      have low := hexValue_hexDigit (byte.toNat % 16) (by omega)
      simp [escape, readText, printed, ih, high, low, whole]

theorem printNat_digits (n : Nat) : (printNat n).all isDigit = true := by
  unfold printNat
  split
  · rfl
  · simp only [all_eq_true, mem_map, mem_reverse]
    rintro _ ⟨digit, member, rfl⟩
    exact isDigit_hexDigit digit (Nat.digits_lt_base (by decide) member)

theorem isWhole_printNat (n : Nat) : isWhole (printNat n) = true := by
  have digits := printNat_digits n
  by_cases zero : n = 0
  · subst zero
    rfl
  · have occupied : Nat.digits 10 n ≠ [] := Nat.digits_ne_nil_iff_ne_zero.mpr zero
    have below := Nat.digits_lt_base (b := 10) (by decide) (getLast_mem occupied)
    have leading : (printNat n).head? ≠ some 0x30 := by
      rw [printNat, if_neg zero, head?_map, head?_reverse, getLast?_eq_some_getLast occupied]
      intro same
      exact Nat.getLast_digit_ne_zero 10 zero (hexDigit_eq_zero _ below (Option.some.inj same))
    have written : printNat n ≠ [] := by simp [printNat, zero, occupied]
    simp [isWhole, digits, leading, written]

theorem readNat_printNat (n : Nat) : readNat (printNat n) = n := by
  unfold printNat
  split
  · next zero => rw [zero]; rfl
  · rw [readNat, ← map_reverse, reverse_reverse, List.map_map]
    have same : (Nat.digits 10 n).map (hexValue ∘ hexDigit) = Nat.digits 10 n := by
      conv_rhs => rw [← List.map_id (Nat.digits 10 n)]
      apply map_congr_left
      intro digit member
      have small := Nat.digits_lt_base (b := 10) (by decide) member
      exact hexValue_hexDigit digit (by omega)
    rw [same, Nat.ofDigits_digits]

theorem isWord_of_isNumeral {byte : UInt8} (numeral : isNumeral byte = true) :
    isWord byte = true := by
  have every : ∀ n < 256, isNumeral (UInt8.ofNat n) = true → isWord (UInt8.ofNat n) = true := by
    decide +kernel
  have here := every byte.toNat byte.toNat_lt
  rw [UInt8.ofNat_toNat] at here
  exact here numeral

theorem printNat_unsigned (n : Nat) : (printNat n).head? ≠ some 0x2D := by
  intro minus
  have digits := all_eq_true.mp (printNat_digits n) 0x2D (mem_of_head? minus)
  exact absurd digits (by decide)

theorem unsigned_printInt (n : Int) : unsigned (printInt n) = printNat n.natAbs := by
  unfold printInt
  split
  · rfl
  · rw [unsigned, if_neg (printNat_unsigned _)]

theorem isReal_printInt (n : Int) : isReal (printInt n) = false := by
  have none : (printNat n.natAbs).dropWhile isDigit = [] := by
    rw [dropWhile_eq_nil_iff]
    exact all_eq_true.mp (printNat_digits _)
  simp [isReal, unsigned_printInt, none, isExponent]

theorem readWord_printInt (n : Int) : readWord (printInt n) = some (.integer n) := by
  have whole := isWhole_printNat n.natAbs
  rw [readWord, dif_neg (by simp [isReal_printInt]), unsigned_printInt, if_pos whole,
    readNat_printNat]
  by_cases negative : n < 0
  · simp only [printInt, if_pos negative, head?_cons, if_pos]
    rw [Int.ofNat_natAbs_of_nonpos (by omega), Int.neg_neg]
  · simp only [printInt, if_neg negative, if_neg (printNat_unsigned _), readNat_printNat]
    rw [Int.natAbs_of_nonneg (by omega)]

theorem printInt_numeral (n : Int) : (printInt n).all isNumeral = true := by
  have digits : (printNat n.natAbs).all isNumeral = true := by
    have digits := printNat_digits n.natAbs
    simp only [all_eq_true] at digits ⊢
    intro byte member
    simp [isNumeral, digits byte member]
  unfold printInt
  split
  · rw [all_cons, digits]
    rfl
  · exact digits

theorem printInt_ne_nil (n : Int) : printInt n ≠ [] := by
  intro empty
  have whole := isWhole_printNat n.natAbs
  rw [← unsigned_printInt, empty] at whole
  cases whole

theorem Real.numeral (number : Real) : number.literal.all isNumeral = true := by
  have valid := number.valid
  simp only [isReal, Bool.and_eq_true] at valid
  exact valid.1.1

theorem Real.ne_nil (number : Real) : number.literal ≠ [] := by
  intro empty
  have valid := number.valid
  rw [empty] at valid
  cases valid

/-- No literal goes on into `rest`. -/
def Ends (rest : Bytes) : Prop := ∀ byte, rest.head? = some byte → isWord byte = false

theorem quote_bytes (text : Text) : quote text.bytes = text := by
  obtain ⟨bytes, valid⟩ := text
  simp only [quote, show coerce bytes = bytes from valid]

theorem readKey_printText (key : Text) (rest : Bytes) :
    readKey (printText key ++ 0x3A :: rest) = some (key, rest) := by
  simp [readKey, printText, expect, readText_escape, quote_bytes]

theorem isWord_plain {byte : UInt8} (word : isWord byte = true) :
    byte ≠ 0x22 ∧ byte ≠ 0x5B ∧ byte ≠ 0x5D ∧ byte ≠ 0x7B := by
  simp only [isWord, mem_cons, decide_eq_true_eq, not_or] at word
  tauto

theorem word_of_numeral {word : Bytes} (numeral : word.all isNumeral = true) :
    word.all isWord = true := by
  simp only [all_eq_true] at numeral ⊢
  exact fun byte member => isWord_of_isNumeral (numeral byte member)

theorem readValue_word {word rest : Bytes} {value : Value} (fuel : Nat) (ends : Ends rest)
    (whole : word.all isWord = true) (occupied : word ≠ []) (read : readWord word = some value) :
    readValue (fuel + 1) (word ++ rest) = some (value, rest) := by
  have inside : word.takeWhile isWord = word := takeWhile_eq_self_iff.mpr (all_eq_true.mp whole)
  have stop : rest.takeWhile isWord = [] ∧ rest.dropWhile isWord = rest := by
    cases rest with
    | nil => exact ⟨rfl, rfl⟩
    | cons byte rest => simp [ends byte rfl]
  cases word with
  | nil => exact absurd rfl occupied
  | cons byte word =>
    have plain := isWord_plain (all_eq_true.mp whole byte mem_cons_self)
    have taken : (byte :: word ++ rest).takeWhile isWord = byte :: word ∧
        (byte :: word ++ rest).dropWhile isWord = rest := by
      rw [takeWhile_append, dropWhile_append, inside, stop.1, stop.2,
        dropWhile_eq_nil_iff.mpr (all_eq_true.mp whole)]
      simp
    simp only [cons_append] at taken ⊢
    simp [readValue, plain, taken, read]

theorem print_head (value : Value) : ∃ first rest, print value = first :: rest ∧ first ≠ 0x5D := by
  have word {text : Bytes} (occupied : text ≠ []) (numeral : text.all isNumeral = true) :
      ∃ first rest, text = first :: rest ∧ first ≠ 0x5D := by
    obtain ⟨first, rest, rfl⟩ := exists_cons_of_ne_nil occupied
    have plain := isWord_plain (isWord_of_isNumeral (all_eq_true.mp numeral first mem_cons_self))
    exact ⟨first, rest, rfl, plain.2.2.1⟩
  cases value with
  | null => exact ⟨_, _, rfl, by decide⟩
  | bool value => cases value <;> exact ⟨_, _, rfl, by decide⟩
  | integer n => rw [print]; exact word (printInt_ne_nil n) (printInt_numeral n)
  | real number => rw [print]; exact word number.ne_nil number.numeral
  | string text => exact ⟨_, _, rfl, by decide⟩
  | array items => cases items <;> rw [print] <;> exact ⟨_, _, rfl, by decide⟩
  | object members =>
    rcases members with - | ⟨⟨key, value⟩, members⟩ <;> rw [print] <;> exact ⟨_, _, rfl, by decide⟩

theorem ends_items (items : List Value) (rest : Bytes) : Ends (printItems items ++ rest) := by
  intro byte head
  cases items <;> · cases head; decide

theorem ends_members (members : Members) (rest : Bytes) : Ends (printMembers members ++ rest) := by
  intro byte head
  rcases members with - | ⟨⟨key, value⟩, members⟩ <;> · cases head; decide

mutual

theorem readValue_print : ∀ (value : Value) (fuel : Nat) (rest : Bytes), Ends rest →
    (print value).length ≤ fuel → readValue fuel (print value ++ rest) = some (value, rest)
  | value, 0, rest, _, short => by
    obtain ⟨first, more, printed, -⟩ := print_head value
    simp [printed] at short
  | .null, fuel + 1, _, ends, _ =>
    by rw [print]; exact readValue_word fuel ends (by decide) (by decide) rfl
  | .bool true, fuel + 1, _, ends, _ =>
    by rw [print]; exact readValue_word fuel ends (by decide) (by decide) rfl
  | .bool false, fuel + 1, _, ends, _ =>
    by rw [print]; exact readValue_word fuel ends (by decide) (by decide) rfl
  | .integer n, fuel + 1, _, ends, _ => by
    rw [print]
    exact readValue_word fuel ends (word_of_numeral (printInt_numeral n)) (printInt_ne_nil n)
      (readWord_printInt n)
  | .real number, fuel + 1, _, ends, _ => by
    rw [print]
    exact readValue_word fuel ends (word_of_numeral number.numeral) number.ne_nil
      (by rw [readWord, dif_pos number.valid])
  | .string text, fuel + 1, rest, _, _ => by
    simp [print, printText, readValue, readText_escape, quote_bytes]
  | .array [], fuel + 1, rest, _, _ => by simp [print, readValue, expect]
  | .array (item :: items), fuel + 1, rest, _, short => by
    obtain ⟨first, more, printed, unlike⟩ := print_head item
    simp only [print, cons_append, length_cons, length_append] at short
    have read := readValue_print item fuel _ (ends_items items rest) (by omega)
    have tail := readItems_print items fuel rest (by omega)
    have open_ : expect 0x5D (print item ++ (printItems items ++ rest)) = none := by
      simp [printed, expect, unlike]
    simp [print, readValue, open_, read, tail]
  | .object [], fuel + 1, rest, _, _ => by simp [print, readValue, expect]
  | .object ((key, value) :: members), fuel + 1, rest, _, short => by
    simp only [print, cons_append, length_cons, length_append] at short
    have keyed := readKey_printText key (print value ++ (printMembers members ++ rest))
    have read := readValue_print value fuel _ (ends_members members rest) (by omega)
    have tail := readMembers_print members fuel rest (by omega)
    have open_ : expect 0x7D (printText key ++ 0x3A :: (print value ++
        (printMembers members ++ rest))) = none := by
      simp [printText, expect]
    simp [print, readValue, open_, keyed, read, tail]

theorem readItems_print : ∀ (items : List Value) (fuel : Nat) (rest : Bytes),
    (printItems items).length ≤ fuel →
    readItems fuel (printItems items ++ rest) = some (items, rest)
  | items, 0, rest, short => by cases items <;> simp [printItems] at short
  | [], fuel + 1, rest, _ => by simp [printItems, readItems, expect]
  | item :: items, fuel + 1, rest, short => by
    simp only [printItems, cons_append, length_cons, length_append] at short
    have read := readValue_print item fuel _ (ends_items items rest) (by omega)
    have tail := readItems_print items fuel rest (by omega)
    simp [printItems, readItems, expect, read, tail]

theorem readMembers_print : ∀ (members : Members) (fuel : Nat) (rest : Bytes),
    (printMembers members).length ≤ fuel →
    readMembers fuel (printMembers members ++ rest) = some (members, rest)
  | members, 0, rest, short => by
    rcases members with - | ⟨⟨key, value⟩, members⟩ <;> simp [printMembers] at short
  | [], fuel + 1, rest, _ => by simp [printMembers, readMembers, expect]
  | (key, value) :: members, fuel + 1, rest, short => by
    simp only [printMembers, cons_append, length_cons, length_append] at short
    have keyed := readKey_printText key (print value ++ (printMembers members ++ rest))
    have read := readValue_print value fuel _ (ends_members members rest) (by omega)
    have tail := readMembers_print members fuel rest (by omega)
    simp [printMembers, readMembers, expect, keyed, read, tail]

end

theorem readAll_print (value : Value) : readAll (print value) = .ok value := by
  have read := readValue_print value _ [] (by simp [Ends]) le_rfl
  rw [append_nil] at read
  rw [readAll, read]
  rfl

/-- A codec over bytes that writes JSON without white space, and reads it back. -/
def textCodec : Codec Bytes where
  isEmpty := List.isEmpty
  compact := print
  indent := print
  parse := readAll
  fold := id
  parse_isEmpty raw empty := by
    rw [List.isEmpty_iff.mp empty]
    rfl
  parse_compact := readAll_print
  parse_indent := readAll_print
  fold_plain _ _ _ _ same := name_inj.mp same

end Json
