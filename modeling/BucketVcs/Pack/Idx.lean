import Mathlib.Data.List.Lex
import Mathlib.Data.Nat.Count
import Mathlib.Data.Set.Card
import Mathlib.Order.Interval.Finset.Nat
import BucketVcs.Lib.Results

/-! The index of a pack: parsing it, and finding an object in it. -/

namespace BucketVcs.Pack

open Results

def slice (data : List UInt8) (off n : Nat) : List UInt8 := (data.drop off).take n

def bigEndian (bytes : List UInt8) : Nat :=
  bytes.foldl (fun value byte => value * 256 + byte.toNat) 0

def idxMagic : List UInt8 := [0xff, 0x74, 0x4f, 0x63]

/-- Without the CRCs and the hash of the pack, which are stored and not looked at. -/
structure Idx where
  count : Nat
  /-- Of the positions below 256. -/
  fanout : Nat → Nat
  oids : List UInt8
  offsets : List UInt8
  largeOffs : List Nat := []

inductive IdxError where
  | tooSmall (size : Nat)
  | badMagic (magic : List UInt8)
  | unsupportedVersion (version : Nat)
  | fanoutNotMonotonic (entry : Nat)
  | countExceedsSize (count size needed : Nat)
  | notAscending (position : Nat)
  | fanoutMismatch
  | largeSection (bytes expected required : Nat)
  | largeIndex (position li have_ : Nat)
  | duplicateOffset (off prev position : Nat)
  | trailerMismatch

namespace Idx

def oidAt (idx : Idx) (n : Nat) : List UInt8 := slice idx.oids (n * 20) 20

def raw (idx : Idx) (n : Nat) : Nat := bigEndian (slice idx.offsets (n * 4) 4)

/-- Where the entry points into the table of large offsets, by its highest bit. -/
def largeIndex (idx : Idx) (n : Nat) : Option Nat :=
  if (idx.raw n).testBit 31 then some (idx.raw n % 2 ^ 31) else none

def offsetAt (idx : Idx) (n : Nat) : Nat :=
  match idx.largeIndex n with
  | none => idx.raw n
  | some li => idx.largeOffs.getD li 0

def hasOffset (idx : Idx) (off : Nat) : Bool :=
  (List.range idx.count).any fun k => idx.offsetAt k = off

def first (oid : List UInt8) : Nat := (oid.headD 0).toNat

/-- The fanout as the table of OIDs has it. -/
def recomputed (idx : Idx) : Nat → Nat
  | 0 => Nat.count (fun k => first (idx.oidAt k) = 0) idx.count
  | b + 1 => idx.recomputed b + Nat.count (fun k => first (idx.oidAt k) = b + 1) idx.count

def requiredLargeCount (idx : Idx) : Nat :=
  (List.range idx.count).foldl (fun most k => (idx.largeIndex k).elim most fun li => max most (li + 1)) 0

end Idx

open Idx

def refuse {ε : Type} (problem : Option ε) : Except ε Unit := problem.elim (.ok ()) .error

theorem refuse_bind_ok_iff {ε β : Type} {problem : Option ε} {next : Unit → Except ε β}
    {result : β} :
    (refuse problem >>= next) = .ok result ↔ problem = none ∧ next () = .ok result := by
  cases problem <;> simp [refuse]

/-- The tables before the large offsets, each after the one that is read before it. -/
def tables (data : List UInt8) : Idx :=
  let fanout i := bigEndian (slice data (8 + i * 4) 4)
  let count := fanout 255
  { count, fanout
    oids := slice data (8 + 1024) (count * 20)
    offsets := slice data (8 + 1024 + count * 24) (count * 4) }

/-- Every part that is read lies within the size, which is checked first. -/
def parseIdx (sha1 : List UInt8 → List UInt8) (data : List UInt8) : Except IdxError Idx := do
  let size := data.length
  require (8 + 1024 + 40 ≤ size) (.tooSmall size)
  require (slice data 0 4 = idxMagic) (.badMagic (slice data 0 4))
  let version := bigEndian (slice data 4 4)
  require (version = 2) (.unsupportedVersion version)
  let idx := tables data
  refuse (((List.range' 1 255).find? fun i => idx.fanout i < idx.fanout (i - 1)).map
    .fanoutNotMonotonic)
  let needed := 8 + 1024 + idx.count * 28 + 40
  require (needed ≤ size) (.countExceedsSize idx.count size needed)
  refuse (((List.range' 1 (idx.count - 1)).find? fun k => ¬ idx.oidAt (k - 1) < idx.oidAt k).map
    .notAscending)
  require (idx.count = 0 ∨ (List.range 256).all fun b => idx.recomputed b = idx.fanout b)
    .fanoutMismatch
  let required := idx.requiredLargeCount
  let off := 8 + 1024 + idx.count * 28
  let largeBytes := size - off - 40
  require (largeBytes = required * 8) (.largeSection largeBytes (required * 8) required)
  let idx := { idx with
    largeOffs := (List.range required).map fun i => bigEndian (slice data (off + i * 8) 8) }
  refuse ((List.range idx.count).findSome? fun k => (idx.largeIndex k).bind fun li =>
    if idx.largeOffs.length ≤ li then some (.largeIndex k li idx.largeOffs.length) else none)
  refuse ((List.range idx.count).findSome? fun k =>
    ((List.range k).find? (idx.offsetAt · = idx.offsetAt k)).map
      (.duplicateOffset (idx.offsetAt k) · k))
  require (sha1 (data.take (size - 20)) = slice data (off + largeBytes + 20) 20) .trailerMismatch
  pure idx

namespace Idx

/-- The loop of `sort.Search`. -/
def search (holds : Nat → Bool) (i j : Nat) : Nat :=
  if i < j then
    if holds ((i + j) / 2) then search holds i ((i + j) / 2) else search holds ((i + j) / 2 + 1) j
  else i
  termination_by j - i

/-- Whether the first byte that differs is larger, or none does. -/
def atLeast : List UInt8 → List UInt8 → Bool
  | got :: gots, byte :: bytes => if got ≠ byte then byte ≤ got else atLeast gots bytes
  | _, _ => true

def lookup (idx : Idx) (oid : List UInt8) : Option Nat :=
  let lo := if 0 < first oid then idx.fanout (first oid - 1) else 0
  let hi := idx.fanout (first oid)
  if lo = hi then none
  else
    let pos := search (fun k => atLeast (idx.oidAt (lo + k)) oid) 0 (hi - lo)
    if pos = hi - lo then none
    else if idx.oidAt (lo + pos) ≠ oid then none
    else some (idx.offsetAt (lo + pos))

theorem search_spec (holds : Nat → Bool) {i j : Nat} (le : i ≤ j) :
    i ≤ search holds i j ∧ search holds i j ≤ j ∧
      (search holds i j < j → holds (search holds i j)) ∧
      (i < search holds i j → ¬ holds (search holds i j - 1)) := by
  fun_induction search holds i j with
  | case1 i j more here ih => 
    obtain ⟨low, high, found, before⟩ := ih (by omega)
    refine ⟨low, by omega, fun below => ?_, before⟩
    obtain eq | lt := high.eq_or_lt
    · rwa [eq]
    · exact found lt
  | case2 i j more here ih =>
    obtain ⟨low, high, found, before⟩ := ih (by omega)
    refine ⟨by omega, high, found, fun above => ?_⟩
    obtain eq | lt := low.eq_or_lt
    · rwa [← eq]
    · exact before lt
  | case3 i j done =>
    exact ⟨le_rfl, le, fun below => absurd below done, fun above => absurd above (lt_irrefl i)⟩

theorem atLeast_iff {got oid : List UInt8} (size : got.length = oid.length) :
    atLeast got oid ↔ ¬ got < oid := by
  induction got generalizing oid with
  | nil =>
    cases oid with
    | nil => simp [atLeast]
    | cons => cases size
  | cons byte rest ih =>
    cases oid with
    | nil => cases size
    | cons other oid =>
      by_cases same : byte = other
      · simp [atLeast, same, ih (Nat.succ.inj size)]
      · simp [atLeast, same, List.cons_lt_cons_iff]

/-- What the checks of `parseIdx` establish. -/
structure Accepted (idx : Idx) : Prop where
  sized : ∀ k < idx.count, (idx.oidAt k).length = 20
  ascending : ∀ k, k + 1 < idx.count → idx.oidAt k < idx.oidAt (k + 1)
  fanout : ∀ b < 256, idx.fanout b = Nat.count (fun k => first (idx.oidAt k) ≤ b) idx.count
  large : ∀ k < idx.count, ∀ li ∈ idx.largeIndex k, li < idx.largeOffs.length
  distinct : ∀ k < idx.count, ∀ j < k, idx.offsetAt j ≠ idx.offsetAt k

theorem recomputed_eq (idx : Idx) (b : Nat) :
    idx.recomputed b = Nat.count (fun k => first (idx.oidAt k) ≤ b) idx.count := by
  induction b with
  | zero => simp [recomputed]
  | succ b ih =>
    rw [recomputed, ih]
    induction idx.count with
    | zero => rfl
    | succ n ih =>
      simp only [Nat.count_succ]
      grind

theorem parseIdx_accepted {sha1 : List UInt8 → List UInt8} {data : List UInt8} {idx : Idx}
    (parsed : parseIdx sha1 data = .ok idx) : Accepted idx := by
  unfold parseIdx at parsed
  simp only [require_bind_ok_iff, refuse_bind_ok_iff, decide_eq_true_eq, Option.map_eq_none_iff,
    List.find?_eq_none, List.findSome?_eq_none_iff, not_lt, List.mem_range, List.mem_range'_1,
    not_not, Option.bind_eq_none_iff] at parsed
  obtain ⟨-, -, -, monotone, room, ascending, recomputed, -, large, distinct, -, same⟩ := parsed
  cases same
  refine ⟨fun k below => ?_, fun k (below : _ < (tables data).count) => ascending (k + 1) (by omega),
    fun b below => ?_, fun k below li here => by simpa using large k below li here, distinct⟩
  · simp only [oidAt, tables, slice, List.length_take, List.length_drop] at below room ⊢
    omega
  · change (tables data).fanout b = Nat.count (fun k => first ((tables data).oidAt k) ≤ b) _
    obtain none | all := recomputed
    · have least : ∀ last, b ≤ last → last < 256 →
          (tables data).fanout b ≤ (tables data).fanout last := by
        intro last le
        induction last, le using Nat.le_induction with
        | base => exact fun _ => le_rfl
        | succ last _ ih => exact fun below => (ih (by omega)).trans (monotone (last + 1) (by omega))
      have : (tables data).fanout b ≤ (tables data).count := least 255 (by omega) (by omega)
      simp only [none] at this ⊢
      simpa using this
    · simp at all
      rw [← all b below, recomputed_eq]

variable {idx : Idx} {oid : List UInt8} {j k : Nat}

theorem first_le {got : List UInt8} (lt : got < oid) : first got ≤ first oid := by
  cases got with
  | nil => exact Nat.zero_le _
  | cons byte rest =>
    cases oid with
    | nil => cases lt
    | cons other oid =>
      obtain less | ⟨rfl, -⟩ := List.cons_lt_cons_iff.mp lt
      · exact UInt8.le_iff_toNat_le.mp (UInt8.le_of_lt less)
      · exact le_rfl

theorem lt_count_iff {p : Nat → Prop} [DecidablePred p] {n : Nat}
    (closed : ∀ j k, j ≤ k → k < n → p k → p j) : k < Nat.count p n ↔ k < n ∧ p k := by
  rw [Nat.count_eq_card_filter_range]
  constructor
  · intro below
    obtain ⟨j, inside, outside⟩ :=
      Finset.exists_mem_notMem_of_card_lt_card ((Finset.card_range k).trans_lt below)
    obtain ⟨small, here⟩ := Finset.mem_filter.mp inside
    have le := not_lt.mp fun lt => outside (Finset.mem_range.mpr lt)
    have small := Finset.mem_range.mp small
    exact ⟨le.trans_lt small, closed k j le small here⟩
  · rintro ⟨below, here⟩
    have part : Finset.range (k + 1) ⊆ {j ∈ Finset.range n | p j} := by
      intro j inside
      have le := Nat.lt_succ_iff.mp (Finset.mem_range.mp inside)
      simp [le.trans_lt below, closed j k le below here]
    simpa using Finset.card_le_card part

variable (accepted : Accepted idx)
include accepted

theorem Accepted.lt (before : j < k) (below : k < idx.count) : idx.oidAt j < idx.oidAt k := by
  induction k, before using Nat.le_induction with
  | base => exact accepted.ascending j below
  | succ k _ ih => exact List.lt_trans (ih (by omega)) (accepted.ascending k below)

/-- The fanout ends where the first bytes exceed its position. -/
theorem Accepted.lt_fanout {b : Nat} (byte : b < 256) :
    k < idx.fanout b ↔ k < idx.count ∧ first (idx.oidAt k) ≤ b := by
  rw [accepted.fanout b byte]
  refine lt_count_iff fun j k before below le => ?_
  obtain rfl | before := before.eq_or_lt
  · exact le
  · exact (first_le (accepted.lt before below)).trans le

theorem Accepted.lookup (size : oid.length = 20) (off : Nat) :
    idx.lookup oid = some off ↔ ∃ k < idx.count, idx.oidAt k = oid ∧ idx.offsetAt k = off := by
  have byte : first oid < 256 := UInt8.toNat_lt _
  unfold Idx.lookup
  dsimp only
  have low : ∀ k, k < (if 0 < first oid then idx.fanout (first oid - 1) else 0) ↔
      k < idx.count ∧ first (idx.oidAt k) < first oid := by
    intro k
    split
    · rw [accepted.lt_fanout (by omega)]
      omega
    · omega
  generalize (if 0 < first oid then idx.fanout (first oid - 1) else 0) = lo at low
  have high := fun k => accepted.lt_fanout (k := k) byte
  generalize idx.fanout (first oid) = hi at high
  have ordered : lo ≤ hi := by
    by_contra less
    obtain ⟨below, lt⟩ := (low hi).mp (by omega)
    exact lt_irrefl hi ((high hi).mpr ⟨below, lt.le⟩)
  obtain ⟨-, most, found, before⟩ :=
    search_spec (fun k => atLeast (idx.oidAt (lo + k)) oid) (Nat.zero_le (hi - lo))
  generalize search _ 0 (hi - lo) = pos at *
  have sized : ∀ k, k < hi → (idx.oidAt k).length = oid.length := fun k below =>
    (accepted.sized k ((high k).mp below).1).trans size.symm
  constructor
  · intro answer
    split_ifs at answer with empty past same
    obtain ⟨below, -⟩ := (high (lo + pos)).mp (by omega)
    exact ⟨lo + pos, below, not_not.mp same, Option.some.inj answer⟩
  · rintro ⟨k, below, rfl, rfl⟩
    have ge : lo ≤ k := not_lt.mp fun lt => lt_irrefl _ ((low k).mp lt).2
    have lt : k < hi := (high k).mpr ⟨below, le_rfl⟩
    have here : lo + pos = k := by
      obtain less | same | more := lt_trichotomy (lo + pos) k
      · exact absurd (accepted.lt less below) ((atLeast_iff (sized _ (by omega))).mp (found (by omega)))
      · exact same
      · have earlier := before (by omega)
        rw [atLeast_iff (sized _ (by omega)), not_not] at earlier
        obtain same | later := (show k ≤ lo + (pos - 1) by omega).eq_or_lt
        · exact absurd (same ▸ earlier) (List.lt_irrefl _)
        · exact absurd (accepted.lt later ((high _).mp (by omega)).1) (List.lt_asymm earlier)
    rw [if_neg (by omega), if_neg (by omega), here, if_neg (not_not.mpr rfl)]

end Idx

open Idx

theorem parseIdx_lookup {sha1 : List UInt8 → List UInt8} {data : List UInt8} {idx : Idx}
    (parsed : parseIdx sha1 data = .ok idx) :
    (∀ oid : List UInt8, oid.length = 20 → ∀ off, idx.lookup oid = some off ↔
        ∃ k < idx.count, idx.oidAt k = oid ∧ idx.offsetAt k = off) ∧
      (∀ k < idx.count, ∀ li ∈ idx.largeIndex k, li < idx.largeOffs.length) ∧
      Set.InjOn idx.offsetAt (Set.Iio idx.count) ∧
      {off | idx.hasOffset off}.ncard = idx.count := by
  have accepted := parseIdx_accepted parsed
  have distinct : Set.InjOn idx.offsetAt (Set.Iio idx.count) := by
    intro j here k there same
    obtain before | rfl | after := lt_trichotomy j k
    · exact absurd same (accepted.distinct k there j before)
    · rfl
    · exact absurd same.symm (accepted.distinct j here k after)
  refine ⟨fun oid size => accepted.lookup size, accepted.large, distinct, ?_⟩
  have offsets : {off | idx.hasOffset off} = idx.offsetAt '' Set.Iio idx.count := by
    ext off
    simp [hasOffset]
  rw [offsets, distinct.ncard_image, Set.ncard_eq_toFinset_card', Set.toFinset_Iio, Nat.card_Iio]

/-- A digest of 20 bytes. -/
def checksum (data : List UInt8) : List UInt8 := List.replicate 19 0 ++ [data.foldl (· ^^^ ·) 0]

/-- Two objects, the second at an offset of more than 31 bits. -/
def twoObjects : List UInt8 :=
  let body := idxMagic ++ [0, 0, 0, 2] ++
    (List.replicate 9 [0, 0, 0, 1]).flatten ++ (List.replicate 247 [0, 0, 0, 2]).flatten ++
    List.replicate 20 0 ++ [9] ++ List.replicate 27 0 ++
    [0, 0, 0, 12, 128, 0, 0, 0] ++ [0, 0, 0, 1, 0, 0, 0, 0] ++ List.replicate 20 0
  body ++ checksum body

theorem parseIdx_lookup_large : ∃ idx, parseIdx checksum twoObjects = .ok idx ∧
    idx.lookup (.replicate 20 0) = some 12 ∧
    idx.lookup (9 :: .replicate 19 0) = some (2 ^ 32) := by
  have parts : (parseIdx checksum twoObjects).toOption.map
      (fun idx => (idx.count, (idx.oidAt 0, idx.offsetAt 0), idx.oidAt 1, idx.offsetAt 1)) =
      some (2, (.replicate 20 0, 12), 9 :: .replicate 19 0, 2 ^ 32) := by
    decide +kernel
  cases parsed : parseIdx checksum twoObjects with
  | error =>
    rw [parsed] at parts
    cases parts
  | ok idx =>
    rw [parsed] at parts
    obtain ⟨count, ⟨oid, off⟩, oid', off'⟩ : idx.count = 2 ∧
        (idx.oidAt 0 = .replicate 20 0 ∧ idx.offsetAt 0 = 12) ∧
        idx.oidAt 1 = 9 :: .replicate 19 0 ∧ idx.offsetAt 1 = 2 ^ 32 := by
      simpa [Except.toOption] using parts
    have found := (parseIdx_lookup parsed).1
    exact ⟨idx, rfl, (found _ rfl _).mpr ⟨0, by simp [count], oid, off⟩,
      (found _ rfl _).mpr ⟨1, by simp [count], oid', off'⟩⟩

end BucketVcs.Pack
