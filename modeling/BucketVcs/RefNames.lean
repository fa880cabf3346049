import BucketVcs.Manifest.Body

/-! The checks of ref names and object ids made by the importer and the exporter. -/

namespace BucketVcs.RefNames

open Manifest

def slash : UInt8 := 0x2F
def dot : UInt8 := 0x2E
def refsSlash : RefName := [0x72, 0x65, 0x66, 0x73, 0x2F]
def dotLock : RefName := [0x2E, 0x6C, 0x6F, 0x63, 0x6B]

def contains (name part : RefName) : Bool := name.tails.any fun rest => part.isPrefixOf rest

/-- Space and controls, `~ ^ : ? * [` and DEL. -/
def forbiddenByte (c : UInt8) : Bool :=
  c ≤ 0x20 || c = 0x7E || c = 0x5E || c = 0x3A || c = 0x3F || c = 0x2A || c = 0x5B || c = 0x7F

def validRefName (name : RefName) : Bool :=
  refsSlash.isPrefixOf name &&
    !(contains name [slash, slash] || contains name [slash, dot] || [slash].isSuffixOf name) &&
    !(contains name [dot, dot] || contains name [0x40, 0x7B]) &&
    !name.any forbiddenByte

/-- `importer.validFullRefName`: the exporter's check, and no `.lock` suffix. -/
def validFullRefName (name : RefName) : Bool :=
  !name.isEmpty && refsSlash.isPrefixOf name &&
    !(contains name [slash, slash] || contains name [slash, dot] || [slash].isSuffixOf name ||
      dotLock.isSuffixOf name) &&
    !(contains name [dot, dot] || contains name [0x40, 0x7B]) &&
    !name.any forbiddenByte

theorem validRefName_of_full {name : RefName} (full : validFullRefName name = true) :
    validRefName name = true := by
  simp only [validFullRefName, validRefName, Bool.and_eq_true, Bool.not_eq_true',
    Bool.or_eq_false_iff] at full ⊢
  obtain ⟨⟨⟨⟨-, rooted⟩, shape⟩, dots⟩, bytes⟩ := full
  exact ⟨⟨⟨rooted, shape.1⟩, dots⟩, bytes⟩

def lowerHex (c : Char) : Bool := ('0' ≤ c ∧ c ≤ '9') ∨ ('a' ≤ c ∧ c ≤ 'f')

def isHexOID (oid : OID) : Bool := oid.toList.length = 40 && oid.toList.all lowerHex

def validOID (oid : OID) : Bool := isHexOID oid && oid ≠ nullOID

/-- `parent` is a directory of `name` in the ref hierarchy. -/
def directoryOf (parent name : RefName) : Bool := (parent ++ [slash]).isPrefixOf name

def Coexist (refs : RefMap) : Prop :=
  ∀ parent ∈ refs, ∀ name ∈ refs, directoryOf parent name = false

/-! ### Shard contents -/

/-- The contents of a shard are read back as the map they were written from, with names that
still belong to the shard, exactly when every name is UTF-8. -/
theorem shard_content_round_trip_iff (shardKey : RefName → UInt8) (shard : UInt8) (refs : RefMap)
    (placed : ∀ name ∈ refs, shardKey name = shard) :
    (decodeRefs (encodeRefs refs) = refs ∧
        ∀ name ∈ decodeRefs (encodeRefs refs), shardKey name = shard) ↔
      ∀ name ∈ refs, Utf8.Valid name := by
  constructor
  · rintro ⟨same, -⟩ name member
    rw [← same] at member
    exact valid_decodeRefs member
  · intro valid
    rw [decodeRefs_encodeRefs valid]
    exact ⟨rfl, placed⟩

def byteShard (byte : UInt8) : RefMap := (∅ : RefMap).insert (headRef byte) objectOne

theorem mem_byteShard {byte : UInt8} {name : RefName} (member : name ∈ byteShard byte) :
    name = headRef byte := by
  rcases Finmap.mem_insert.mp member with same | none
  · exact same
  · cases Finmap.notMem_empty none

theorem letter_shard_round_trip :
    decodeRefs (encodeRefs (byteShard 0x61)) = byteShard 0x61 ∧
      ∀ name ∈ decodeRefs (encodeRefs (byteShard 0x61)), (name.getLast?).getD 0 = 0x61 := by
  refine (shard_content_round_trip_iff (fun name => (name.getLast?).getD 0) 0x61 (byteShard 0x61)
    ?_).mpr ?_
  · intro name member
    rw [mem_byteShard member]
    rfl
  · intro name member
    rw [mem_byteShard member]
    rfl

/-- A name with a byte that is not UTF-8 passes the check and comes back as another name. -/
theorem stray_byte_renames_ref :
    validFullRefName (headRef 0xFF) = true ∧ isHexOID objectOne = true ∧
      headRef 0xFF ∉ decodeRefs (encodeRefs (byteShard 0xFF)) := by
  refine ⟨by decide, by decide, fun member => ?_⟩
  exact absurd (valid_decodeRefs member) (by unfold Utf8.Valid; decide)

end BucketVcs.RefNames
