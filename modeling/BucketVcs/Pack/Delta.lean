import BucketVcs.Pack.Idx

/-! Applying a delta to the object it is based on. -/

namespace BucketVcs.Pack

open Results

def maxObjectSize : Nat := 2 ^ 30

inductive VarintError where
  | truncated
  | overflow

inductive DeltaError where
  | readBaseSize (cause : VarintError)
  | baseExceeds (size : Nat)
  | baseMismatch (declared actual : Nat)
  | readResultSize (cause : VarintError)
  | resultExceeds (size : Nat)
  | copyOffByte
  | copySzByte
  | copyOutOfRange (off sz base : Nat)
  | copyExceeds (pos sz resultSize : Nat)
  | reserved
  | insertExceeds (n pos resultSize : Nat)
  | insertRead
  | resultMismatch (size declared : Nat)

/-- The value read so far is `v`, and the next seven bits stand at `shift`. -/
def readSizeVarint (v shift : Nat) : List UInt8 → Except VarintError (Nat × List UInt8)
  | [] => .error .truncated
  | b :: rest =>
    let payload := b.toNat % 128
    if 64 ≤ shift ∨ 57 < shift ∧ payload >>> (64 - shift) ≠ 0 then .error .overflow
    else if b.toNat < 128 then .ok (v ||| payload <<< shift, rest)
    else readSizeVarint (v ||| payload <<< shift) (shift + 7) rest

/-- Which bytes of the offset, and of the size, follow the opcode of a copy. -/
def offBits (op : UInt8) : List Bool := (List.range 4).map (op.toNat.testBit ·)

def szBits (op : UInt8) : List Bool := (List.range' 4 3).map (op.toNat.testBit ·)

/-- Little-endian, with the bytes left out zero. -/
def operand : List Bool → List UInt8 → Nat
  | true :: bits, b :: data => b.toNat + 256 * operand bits data
  | false :: bits, data => 256 * operand bits data
  | _, _ => 0

/-- The bytes after the opcode that belong to it. -/
def operandLen (op : UInt8) : Nat :=
  if 128 ≤ op then (offBits op).count true + (szBits op).count true else op.toNat

def copyOff (op : UInt8) (data : List UInt8) : Nat := operand (offBits op) data

/-- Zero stands for `0x10000`. -/
def copySz (op : UInt8) (data : List UInt8) : Nat :=
  match operand (szBits op) (data.drop ((offBits op).count true)) with
  | 0 => 0x10000
  | sz => sz

/-- The bytes an instruction appends, from the base or from the delta itself. -/
def appended (base : List UInt8) (op : UInt8) (data : List UInt8) : List UInt8 :=
  if 128 ≤ op then slice base (copyOff op data) (copySz op data) else data.take op.toNat

def checkInstruction (base : List UInt8) (resultSize : Nat) (op : UInt8) (data : List UInt8)
    (pos : Nat) : Except DeltaError Unit :=
  if 128 ≤ op then do
    require ((offBits op).count true ≤ data.length) .copyOffByte
    require (operandLen op ≤ data.length) .copySzByte
    let off := copyOff op data
    let sz := copySz op data
    require (off + sz ≤ base.length) (.copyOutOfRange off sz base.length)
    require (pos + sz ≤ resultSize) (.copyExceeds pos sz resultSize)
  else do
    require (op ≠ 0) .reserved
    let n := op.toNat
    require (pos + n ≤ resultSize) (.insertExceeds n pos resultSize)
    require (n ≤ data.length) .insertRead

/-- The loop over the instructions, with what is written so far. -/
def instructions (base : List UInt8) (resultSize : Nat) :
    List UInt8 → List UInt8 → Except DeltaError (List UInt8)
  | [], out => .ok out
  | op :: data, out => do
    checkInstruction base resultSize op data out.length
    instructions base resultSize (data.drop (operandLen op)) (out ++ appended base op data)
  termination_by delta => delta.length

def applyDelta (base delta : List UInt8) : Except DeltaError (List UInt8) := do
  let (baseSize, rest) ← (readSizeVarint 0 0 delta).mapError .readBaseSize
  require (baseSize ≤ maxObjectSize) (.baseExceeds baseSize)
  require (baseSize = base.length) (.baseMismatch baseSize base.length)
  let (resultSize, code) ← (readSizeVarint 0 0 rest).mapError .readResultSize
  require (resultSize ≤ maxObjectSize) (.resultExceeds resultSize)
  let out ← instructions base resultSize code []
  require (out.length = resultSize) (.resultMismatch out.length resultSize)
  pure out

/-- What the instructions of a delta make, whatever size it declares. -/
inductive Spells (base : List UInt8) : List UInt8 → List UInt8 → Prop
  | nil : Spells base [] []
  | cons {op data out} (known : op ≠ 0) (whole : operandLen op ≤ data.length)
      (inside : 128 ≤ op → copyOff op data + copySz op data ≤ base.length)
      (rest : Spells base (data.drop (operandLen op)) out) :
      Spells base (op :: data) (appended base op data ++ out)

variable {base data delta out result : List UInt8} {op : UInt8} {resultSize pos : Nat}

theorem checkInstruction_ok_iff : checkInstruction base resultSize op data pos = .ok () ↔
    op ≠ 0 ∧ operandLen op ≤ data.length ∧
      (128 ≤ op → copyOff op data + copySz op data ≤ base.length) ∧
      pos + (appended base op data).length ≤ resultSize := by
  by_cases copies : 128 ≤ op
  · have nonzero : op ≠ 0 := by rintro rfl; exact absurd copies (by decide)
    have first : (offBits op).count true ≤ operandLen op := by simp [operandLen, copies]
    simp only [checkInstruction, copies, if_true, require_bind_ok_iff, require_ok_iff,
      decide_eq_true_eq, appended, slice]
    grind
  · simp only [checkInstruction, copies, if_false, require_bind_ok_iff, require_ok_iff,
      decide_eq_true_eq, appended, operandLen]
    grind

theorem instructions_ok_iff (fits : out.length ≤ resultSize) :
    instructions base resultSize delta out = .ok result ↔
      ∃ more, Spells base delta more ∧ result = out ++ more ∧ result.length ≤ resultSize := by
  fun_induction instructions base resultSize delta out with
  | case1 out =>
    constructor
    · rintro ⟨⟩
      exact ⟨[], .nil, by simp, fits⟩
    · rintro ⟨_, ⟨⟩, rfl, -⟩
      simp
  | case2 op data out ih =>
    rw [bind_ok_iff]
    constructor
    · rintro ⟨⟨⟩, checked, rest⟩
      obtain ⟨known, whole, inside, short⟩ := checkInstruction_ok_iff.mp checked
      obtain ⟨more, spells, rfl, bound⟩ := (ih (by simpa using short)).mp rest
      exact ⟨_, .cons known whole inside spells, by simp, bound⟩
    · rintro ⟨_, spells, rfl, bound⟩
      cases spells with
      | @cons _ _ more known whole inside rest =>
        have short : out.length + (appended base op data).length ≤ resultSize := by
          simp only [List.length_append] at bound
          omega
        exact ⟨(), checkInstruction_ok_iff.mpr ⟨known, whole, inside, short⟩,
          (ih (by simpa using short)).mpr ⟨more, rest, by simp, bound⟩⟩

/-- The checks on the way refuse nothing that the size of the result does not refuse at the end. -/
theorem applyDelta_ok_iff : applyDelta base delta = .ok result ↔
    ∃ rest code, readSizeVarint 0 0 delta = .ok (base.length, rest) ∧
      readSizeVarint 0 0 rest = .ok (result.length, code) ∧ Spells base code result ∧
      base.length ≤ maxObjectSize ∧ result.length ≤ maxObjectSize := by
  simp only [applyDelta, bind_ok_iff, Unique.exists_iff, PUnit.default_eq_unit, require_ok_iff,
    decide_eq_true_eq, Prod.exists]
  constructor
  · rintro ⟨_, rest, first, small, rfl, _, code, second, bounded, out, run, rfl, ⟨⟩⟩
    obtain ⟨_, spells, rfl, -⟩ := (instructions_ok_iff (Nat.zero_le _)).mp run
    exact ⟨rest, code, mapError_ok first, mapError_ok second, spells, small, bounded⟩
  · rintro ⟨rest, code, first, second, spells, small, bounded⟩
    have run : instructions base result.length code [] = .ok result :=
      (instructions_ok_iff (Nat.zero_le _)).mpr ⟨result, spells, rfl, le_rfl⟩
    exact ⟨_, rest, by rw [first]; rfl, small, rfl, _, code, by rw [second]; rfl, bounded, result,
      run, rfl, rfl⟩

end BucketVcs.Pack
