import BucketVcs.Lib.Dict
import BucketVcs.Lib.Results
import BucketVcs.Lib.Utf8

/-! JSON values and the rules by which a reflecting codec writes and reads typed data:
struct fields by name, empty fields left out, and decoding into what is already there. -/

namespace Json

open List Finmap Dict Utf8

abbrev Bytes := List UInt8

structure Text where
  bytes : Bytes
  valid : Utf8.Valid bytes
  deriving DecidableEq

instance : LE Text := ⟨fun left right => left.bytes ≤ right.bytes⟩

instance : DecidableLE Text := fun left right => inferInstanceAs (Decidable (left.bytes ≤ right.bytes))

instance Text.trans : IsTrans Text (· ≤ ·) := ⟨fun _ _ _ => List.le_trans⟩

instance Text.antisymm : Std.Antisymm (α := Text) (· ≤ ·) := by
  refine ⟨fun ⟨left, _⟩ ⟨right, _⟩ below above => ?_⟩
  have same : left = right := List.le_antisymm below above
  cases same
  rfl

instance Text.total : Std.Total (α := Text) (· ≤ ·) :=
  ⟨fun left right => List.le_total left.bytes right.bytes⟩

def quote (text : Bytes) : Text := ⟨Utf8.coerce text, Utf8.valid_coerce text⟩

def name (text : String) : Text := ⟨Utf8.encode text, Utf8.valid_encode text⟩

@[simp]
theorem name_inj {left right : String} : name left = name right ↔ left = right := by
  constructor
  · intro same
    exact encode_injective (congrArg Text.bytes same)
  · exact congrArg name

theorem name_injective : Function.Injective name := fun _ _ => name_inj.mp

def isDigit (byte : UInt8) : Bool := 0x30 ≤ byte && byte ≤ 0x39

def isNumeral (byte : UInt8) : Bool :=
  isDigit byte || byte ∈ ([0x2B, 0x2D, 0x2E, 0x45, 0x65] : Bytes)

def isWhole (digits : Bytes) : Bool :=
  digits ≠ [] && digits.all isDigit && (digits.length = 1 || digits.head? ≠ some 0x30)

def unsigned (literal : Bytes) : Bytes :=
  if literal.head? = some 0x2D then literal.tail else literal

def isExponent : Bytes → Bool
  | [] => false
  | mark :: rest =>
    (mark = 0x65 || mark = 0x45) &&
      (let digits := if rest.head? = some 0x2B then rest.tail else unsigned rest
      digits ≠ [] && digits.all isDigit)

/-- A number with a fraction or an exponent. -/
def isReal (literal : Bytes) : Bool :=
  let body := unsigned literal
  literal.all isNumeral && isWhole (body.takeWhile isDigit) &&
    match body.dropWhile isDigit with
    | 0x2E :: fraction =>
      fraction.takeWhile isDigit ≠ [] &&
        (fraction.dropWhile isDigit = [] || isExponent (fraction.dropWhile isDigit))
    | rest => isExponent rest

structure Real where
  literal : Bytes
  valid : isReal literal = true

/-- Decoding into an integer accepts no fraction and no exponent, so a number is either
an integer or text that is not looked into. -/
inductive Value where
  | null
  | bool (value : Bool)
  | integer (n : Int)
  | real (number : Real)
  | string (text : Text)
  | array (items : List Value)
  | object (members : List (Text × Value))

abbrev Members := List (Text × Value)

inductive Failure where
  | malformed
  | kind
  | range
  deriving DecidableEq, Repr

def isPlain (text : String) : Bool := text.toList.all fun c => c.isLower || c == '_'

/-- The byte level of the codec, over any type of byte strings. `fold` is the case
folding a field is looked up by when no field has the very name. -/
structure Codec (B : Type) where
  isEmpty : B → Bool
  compact : Value → B
  indent : Value → B
  parse : B → Except Failure Value
  fold : Text → Text
  parse_isEmpty : ∀ raw, isEmpty raw = true → parse raw = .error .malformed
  parse_compact : ∀ value, parse (compact value) = .ok value
  parse_indent : ∀ value, parse (indent value) = .ok value
  fold_plain : ∀ left right, isPlain left = true → isPlain right = true →
    fold (name left) = fold (name right) → left = right

/-! Encoding. -/

def ofText (text : Bytes) : Value := .string (quote text)

def ofInt64 (n : Int64) : Value := .integer n.toInt

def ofUInt64 (n : UInt64) : Value := .integer n.toNat

section Encoding

variable {α : Type} (encode : α → Value)

def ofSlice : Option (List α) → Value
  | none => .null
  | some items => .array (items.map encode)

def ofMap : Option (Finmap fun _ : Bytes => α) → Value
  | none => .null
  | some m => .object ((Dict.entries m).map fun entry => (quote entry.1, encode entry.2))

def ofPointer : Option α → Value
  | none => .null
  | some value => encode value

end Encoding

def omitEmpty (empty : Bool) (value : Value) : Option Value := if empty then none else some value

def ofFields (fields : List (String × Option Value)) : Members :=
  fields.filterMap fun field => field.2.map fun value => (name field.1, value)

/-! Decoding. Each decoder is given the value its target holds. -/

abbrev Into (α : Type) := α → Value → Except Failure α

def intoText : Into Bytes
  | old, .null => .ok old
  | _, .string text => .ok text.bytes
  | _, _ => .error .kind

def intoInt64 : Into Int64
  | old, .null => .ok old
  | _, .integer n =>
    if Int64.minValue.toInt ≤ n ∧ n ≤ Int64.maxValue.toInt then .ok (Int64.ofInt n)
    else .error .range
  | _, _ => .error .kind

def intoUInt64 : Into UInt64
  | old, .null => .ok old
  | _, .integer n =>
    if 0 ≤ n ∧ n.toNat < UInt64.size then .ok (UInt64.ofNat n.toNat) else .error .range
  | _, _ => .error .kind

section Decoding

variable {α β : Type} (zero : α) (into : Into α)

/-- An element is decoded over the one that stood at its place. -/
def intoItems : List α → List Value → Except Failure (List α)
  | _, [] => .ok []
  | old, item :: items => do
    let first ← into (old.headD zero) item
    let rest ← intoItems old.tail items
    .ok (first :: rest)

def intoSlice : Into (Option (List α))
  | _, .null => .ok none
  | old, .array items => do
    let read ← intoItems zero into (old.getD []) items
    .ok (some read)
  | _, _ => .error .kind

def intoMembers : Finmap (fun _ : Bytes => α) → Members → Except Failure (Finmap fun _ : Bytes => α)
  | m, [] => .ok m
  | m, (key, value) :: members => do
    let read ← into zero value
    intoMembers (m.insert key.bytes read) members

def intoMap : Into (Option (Finmap fun _ : Bytes => α))
  | _, .null => .ok none
  | old, .object members => do
    let read ← intoMembers zero into (old.getD ∅) members
    .ok (some read)
  | _, _ => .error .kind

def intoPointer : Into (Option α)
  | _, .null => .ok none
  | old, value => do
    let read ← into (old.getD zero) value
    .ok (some read)

/-- The values decoding hands to a field: those under its very name, and those whose
name is no field's but folds to its own. -/
def fieldValues (fold : Text → Text) (names : List String) (field : String) (members : Members) :
    List Value :=
  (members.filter fun member => decide (member.1 = name field) ||
    (decide (member.1 ∉ names.map name) && decide (fold member.1 = fold (name field)))).map Prod.snd

def intoField (fold : Text → Text) (names : List String) (field : String) (into : Into β) (old : β)
    (members : Members) : Except Failure β :=
  (fieldValues fold names field members).foldlM into old

def intoStruct (build : α → Members → Except Failure α) : Into α
  | old, .null => .ok old
  | old, .object members => build old members
  | _, _ => .error .kind

end Decoding

/-- Decoding into a map of raw messages; of equal keys the last one wins. -/
def intoRaw : Value → Except Failure (Option (Finmap fun _ : Text => Value))
  | .null => .ok none
  | .object members => .ok (some (Dict.insertAll members ∅))
  | _ => .error .kind

def ofRaw (m : Finmap fun _ : Text => Value) : Value := .object (Dict.entries m)

/-! Reading back what was written. -/

theorem intoText_ofText (old text : Bytes) : intoText old (ofText text) = .ok (coerce text) :=
  rfl

theorem intoInt64_ofInt64 (old n : Int64) : intoInt64 old (ofInt64 n) = .ok n := by
  have above := Int64.minValue_le_toInt n
  have below := Int64.toInt_le n
  simp only [ofInt64, intoInt64]
  rw [if_pos ⟨above, below⟩, Int64.ofInt_toInt]

theorem intoUInt64_ofUInt64 (old n : UInt64) : intoUInt64 old (ofUInt64 n) = .ok n := by
  have bound : ((n.toNat : Int)).toNat < UInt64.size := by
    exact n.toNat_lt_size
  simp only [ofUInt64, intoUInt64]
  rw [if_pos ⟨Int.natCast_nonneg _, bound⟩, Int.toNat_natCast, UInt64.ofNat_toNat]

section Reading

variable {α β : Type} {zero : α} {into : Into α} {encode : α → Value} {seen : α → α}

section

variable (reads : ∀ x, into zero (encode x) = .ok (seen x))

include reads

theorem intoItems_map (items : List α) :
    intoItems zero into [] (items.map encode) = .ok (items.map seen) := by
  induction items with
  | nil => rfl
  | cons item items ih =>
    simp [intoItems, reads, ih]

theorem intoSlice_ofSlice (items : Option (List α)) :
    intoSlice zero into none (ofSlice encode items) = .ok (items.map (map seen)) := by
  cases items with
  | none => rfl
  | some items => simp [ofSlice, intoSlice, intoItems_map reads]

theorem intoMembers_map (m : Finmap fun _ : Bytes => α) (entries : List (Bytes × α)) :
    intoMembers zero into m (entries.map fun entry => (quote entry.1, encode entry.2)) =
      .ok (insertAll (entries.map fun entry => (coerce entry.1, seen entry.2)) m) := by
  induction entries generalizing m with
  | nil => rfl
  | cons entry entries ih =>
    simp only [map_cons, intoMembers, reads, ih]
    rfl

end

/-- A map as it is read back: of the names that are written alike, the last one is left. -/
def rewritten (seen : α → α) (m : Finmap fun _ : Bytes => α) : Finmap fun _ : Bytes => α :=
  Dict.insertAll ((Dict.entries m).map fun entry => (Utf8.coerce entry.1, seen entry.2)) ∅

variable {m : Finmap fun _ : Bytes => α} {members : Members} {fold : Text → Text}
  {names : List String} {field : String}

theorem lookup_rewritten {key : Bytes} {value : α}
    (found : (rewritten seen m).lookup key = some value) :
    ∃ written held, m.lookup written = some held ∧ coerce written = key ∧ seen held = value := by
  rcases lookup_insertAll _ ∅ found with inside | before
  · obtain ⟨⟨written, held⟩, member, same⟩ := List.mem_map.mp inside
    cases same
    exact ⟨written, held, (mem_entries m written held).mp member, rfl, rfl⟩
  · cases before

theorem rewritten_eq_self (idempotent : ∀ x, seen (seen x) = seen x) : rewritten seen m = m ↔
      ∀ key value, m.lookup key = some value → Valid key ∧ seen value = value := by
  constructor
  · intro same key value found
    rw [← same] at found
    obtain ⟨written, held, -, rfl, rfl⟩ := lookup_rewritten found
    exact ⟨valid_coerce written, idempotent held⟩
  · intro stable
    have unchanged : (Dict.entries m).map (fun entry => (coerce entry.1, seen entry.2)) =
        Dict.entries m := by
      conv_rhs => rw [← List.map_id (Dict.entries m)]
      apply map_congr_left
      intro entry member
      obtain ⟨valid, kept⟩ := stable entry.1 entry.2 ((mem_entries m _ _).mp member)
      exact Prod.ext valid kept
    rw [rewritten, unchanged, insertAll_entries]

theorem rewritten_eq_empty : rewritten seen m = ∅ ↔ m = ∅ := by
  constructor
  · intro empty
    by_contra occupied
    obtain ⟨key, member⟩ := exists_mem_of_ne_empty occupied
    obtain ⟨value, found⟩ := mem_iff.mp member
    have written : coerce key ∈ rewritten seen m :=
      mem_insertAll.mpr (.inl (List.mem_map.mpr ⟨_, List.mem_map.mpr
        ⟨(key, value), (mem_entries m key value).mpr found, rfl⟩, rfl⟩))
    rw [empty] at written
    exact absurd written notMem_empty
  · rintro rfl
    by_contra occupied
    obtain ⟨key, member⟩ := exists_mem_of_ne_empty occupied
    obtain ⟨value, found⟩ := mem_iff.mp member
    obtain ⟨written, held, none, -⟩ := lookup_rewritten found
    cases none

theorem intoMap_ofMap (reads : ∀ x, into zero (encode x) = .ok (seen x))
    (m : Option (Finmap fun _ : Bytes => α)) :
    intoMap zero into none (ofMap encode m) = .ok (m.map (rewritten seen)) := by
  cases m with
  | none => rfl
  | some m => simp [ofMap, intoMap, rewritten, intoMembers_map reads]

theorem intoPointer_ofPointer (reads : ∀ x, into zero (encode x) = .ok (seen x))
    (solid : ∀ x, encode x ≠ .null) (pointer : Option α) :
    intoPointer zero into none (ofPointer encode pointer) = .ok (pointer.map seen) := by
  cases pointer with
  | none => rfl
  | some x =>
    have through := reads x
    simp only [ofPointer]
    revert through
    cases here : encode x with
    | null => exact absurd here (solid x)
    | _ => intro through; simp [intoPointer, through]

/-- A field left out when empty is read back as if it had been written, if decoding its
empty value gives what the target held. -/
theorem read_omitEmpty {read : Into β} {old result : β} {empty : Bool} {value : Value}
    (present : read old value = .ok result) (absent : empty = true → result = old) :
    (omitEmpty empty value).elim (.ok old) (read old) = .ok result := by
  cases empty with
  | true => rw [absent rfl]; rfl
  | false => exact present

theorem filter_key (distinct : (members.map Prod.fst).Nodup) (key : Text) :
    (members.filter fun member => decide (member.1 = key)).map Prod.snd =
      (members.lookup key).toList := by
  induction members with
  | nil => rfl
  | cons member members ih =>
    obtain ⟨other, value⟩ := member
    rw [map_cons, nodup_cons] at distinct
    have later := ih distinct.2
    by_cases same : other = key
    · subst same
      have absent : members.filter (fun member => decide (member.1 = other)) = [] := by
        rw [filter_eq_nil_iff]
        intro member inside equal
        exact distinct.1 (List.mem_map.mpr ⟨member, inside, of_decide_eq_true equal⟩)
      simp [absent]
    · have different : (key == other) = false := beq_false_of_ne (.symm same)
      rw [lookup_cons, different, filter_cons_of_neg (by simpa using same)]
      exact later

/-- A field gets the value of its own name unless a name that is no field's folds to it. -/
theorem fieldValues_eq_lookup (distinct : (members.map Prod.fst).Nodup)
    (apart : ∀ member ∈ members, member.1 ≠ name field →
      member.1 ∈ names.map name ∨ fold member.1 ≠ fold (name field)) :
    fieldValues fold names field members = (members.lookup (name field)).toList := by
  have exact : members.filter (fun member => decide (member.1 = name field) ||
      (decide (member.1 ∉ names.map name) && decide (fold member.1 = fold (name field)))) =
        members.filter fun member => decide (member.1 = name field) := by
    apply filter_congr
    intro member inside
    by_cases same : member.1 = name field
    · simp [same]
    · rcases apart member inside same with owned | unlike
      · simp [owned]
      · simp [unlike]
  rw [fieldValues, exact, filter_key distinct]

theorem intoField_eq (read : Into β) (old : β) (distinct : (members.map Prod.fst).Nodup)
    (apart : ∀ member ∈ members, member.1 ≠ name field →
      member.1 ∈ names.map name ∨ fold member.1 ≠ fold (name field)) :
    intoField fold names field read old members =
      (members.lookup (name field)).elim (.ok old) (read old) := by
  rw [intoField, fieldValues_eq_lookup distinct apart]
  cases members.lookup (name field) with
  | none => rfl
  | some value => exact bind_pure (read old value)

end Reading

/-! The members of a struct that was written. -/

section Fields

variable {β : Type} {fields : List (String × Option Value)}

theorem mem_ofFields {member : Text × Value} : member ∈ ofFields fields ↔
    ∃ field value, (field, some value) ∈ fields ∧ member = (name field, value) := by
  simp only [ofFields, mem_filterMap, Option.map_eq_some_iff, Prod.exists]
  constructor
  · rintro ⟨field, _, inside, value, rfl, rfl⟩
    exact ⟨field, value, inside, rfl⟩
  · rintro ⟨field, value, inside, rfl⟩
    exact ⟨field, some value, inside, value, rfl, rfl⟩

variable {key : Text} {names : List String}

theorem mem_ofFields_fst (member : key ∈ (ofFields fields).map Prod.fst) :
    key ∈ (fields.map Prod.fst).map name := by
  obtain ⟨⟨_, value⟩, inside, rfl⟩ := List.mem_map.mp member
  obtain ⟨field, _, held, same⟩ := mem_ofFields.mp inside
  cases same
  exact List.mem_map.mpr ⟨field, List.mem_map.mpr ⟨_, held, rfl⟩, rfl⟩

theorem nodup_ofFields (distinct : (fields.map Prod.fst).Nodup) :
    ((ofFields fields).map Prod.fst).Nodup := by
  induction fields with
  | nil => exact nodup_nil
  | cons field fields ih =>
    obtain ⟨text, value⟩ := field
    rw [map_cons, nodup_cons] at distinct
    cases value with
    | none => exact ih distinct.2
    | some value =>
      refine nodup_cons.mpr ⟨fun member => ?_, ih distinct.2⟩
      obtain ⟨other, held, same⟩ := List.mem_map.mp (mem_ofFields_fst member)
      exact distinct.1 (name_inj.mp same ▸ held)

theorem lookup_ofFields (distinct : (fields.map Prod.fst).Nodup) (field : String) :
    (ofFields fields).lookup (name field) = (fields.lookup field).join := by
  induction fields with
  | nil => rfl
  | cons head fields ih =>
    obtain ⟨text, value⟩ := head
    rw [map_cons, nodup_cons] at distinct
    have later := ih distinct.2
    by_cases same : field = text
    · subst same
      cases value with
      | some value => simp [ofFields]
      | none =>
        have absent : fields.lookup field = none := by
          rw [lookup_eq_none_iff]
          intro other inside
          have different : field ≠ other.1 := fun equal =>
            distinct.1 (List.mem_map.mpr ⟨other, inside, equal.symm⟩)
          simpa using different
        rw [absent] at later
        simpa [ofFields] using later
    · have different : (field == text) = false := beq_false_of_ne same
      rw [lookup_cons, different]
      cases value with
      | none => exact later
      | some value =>
        have unlike : (name field == name text) = false :=
          beq_false_of_ne fun equal => same (name_inj.mp equal)
        change ((name text, value) :: ofFields fields).lookup (name field) = _
        rw [lookup_cons, unlike]
        exact later

theorem intoField_ofFields (fold : Text → Text) (shape : fields.map Prod.fst = names)
    (distinct : names.Nodup) (field : String) (read : Into β) (old : β) :
    intoField fold names field read old (ofFields fields) =
      (fields.lookup field).join.elim (.ok old) (read old) := by
  subst shape
  rw [intoField_eq read old (nodup_ofFields distinct), lookup_ofFields distinct]
  intro member inside _
  exact .inl (mem_ofFields_fst (List.mem_map.mpr ⟨member, inside, rfl⟩))

theorem mem_keys_ofFields (member : key ∈ insertAll (ofFields fields) ∅) :
    key ∈ (fields.map Prod.fst).map name :=
  (mem_insertAll.mp member).elim mem_ofFields_fst fun none => absurd none notMem_empty

theorem lookup_raw_ofFields (distinct : (fields.map Prod.fst).Nodup) (field : String) :
    (insertAll (ofFields fields) ∅).lookup (name field) = (fields.lookup field).join := by
  rw [← lookup_ofFields distinct]
  ext value
  rw [lookup_ofEntries (nodup_ofFields distinct), list_lookup_iff (nodup_ofFields distinct)]

theorem intoField_raw (fold : Text → Text) (shape : fields.map Prod.fst = names)
    (distinct : names.Nodup) (field : String) (read : Into β) (old : β) :
    intoField fold names field read old (Dict.entries (insertAll (ofFields fields) ∅)) =
      (fields.lookup field).join.elim (.ok old) (read old) := by
  subst shape
  rw [intoField_eq read old (Dict.nodup_entries _), lookup_entries, lookup_raw_ofFields distinct]
  intro member inside _
  have held := (mem_entries _ member.1 member.2).mp inside
  exact .inl (mem_keys_ofFields (mem_of_lookup_eq_some held))

end Fields

end Json
