import Mathlib.Data.Finmap
import Mathlib.Data.List.Sort

/-! Bulk operations on finite maps and their enumeration in key order, with the lookup
equations. -/

namespace Dict

open List Finmap Prod

variable {K V W : Type}

section Keys

variable [LE K] [DecidableLE K] [IsTrans K (· ≤ ·)] [Std.Antisymm (α := K) (· ≤ ·)]
  [Std.Total (α := K) (· ≤ ·)]

def sortedKeys (m : Finmap fun _ : K => V) : List K :=
  Quot.liftOn m.keys.val (List.insertionSort (· ≤ ·)) fun left right same =>
    ((List.perm_insertionSort _ left).trans
      (same.trans (List.perm_insertionSort _ right).symm)).eq_of_pairwise' (r := (· ≤ ·))
      (List.pairwise_insertionSort _ left) (List.pairwise_insertionSort _ right)

theorem sortedKeys_perm (m : Finmap fun _ : K => V) : (sortedKeys m : Multiset K) = m.keys.val := by
  unfold sortedKeys
  generalize m.keys.val = keys
  induction keys using Quot.inductionOn with
  | h list => exact Quot.sound (perm_insertionSort _ list)

theorem sortedKeys_congr {m : Finmap fun _ : K => V} {n : Finmap fun _ : K => W}
    (same : m.keys = n.keys) :
    sortedKeys m = sortedKeys n := by
  rw [sortedKeys, sortedKeys, same]

theorem mem_sortedKeys (m : Finmap fun _ : K => V) (key : K) : key ∈ sortedKeys m ↔ key ∈ m := by
  rw [← Multiset.mem_coe, sortedKeys_perm, Finset.mem_val, Finmap.mem_keys]

theorem nodup_sortedKeys (m : Finmap fun _ : K => V) : (sortedKeys m).Nodup := by
  rw [← Multiset.coe_nodup, sortedKeys_perm]
  exact m.keys.nodup

end Keys

variable [DecidableEq K]

def insertAll (entries : List (K × V)) (m : Finmap fun _ : K => V) : Finmap fun _ : K => V :=
  entries.foldl (fun out entry => out.insert entry.1 entry.2) m

def eraseAll (keys : List K) (m : Finmap fun _ : K => V) : Finmap fun _ : K => V :=
  keys.foldl (fun out key => out.erase key) m

def copyKey (m out : Finmap fun _ : K => V) (key : K) : Finmap fun _ : K => V :=
  match m.lookup key with
  | some value => out.insert key value
  | none => out

def pick (keys : List K) (m : Finmap fun _ : K => V) : Finmap fun _ : K => V :=
  keys.foldl (copyKey m) ∅

theorem lookup_insertAll_of_not_mem (entries : List (K × V)) (m : Finmap fun _ : K => V) (key : K)
    (outside : key ∉ entries.map fst) : (insertAll entries m).lookup key = m.lookup key := by
  induction entries generalizing m with
  | nil => rfl
  | cons head tail ih =>
    simp only [List.map_cons, List.mem_cons, not_or] at outside
    exact (ih _ outside.2).trans (lookup_insert_of_ne _ outside.1)

variable {key : K} {value : V} {m : Finmap fun _ : K => V}

theorem lookup_insertAll_of_mem (entries : List (K × V)) (m : Finmap fun _ : K => V)
    (distinct : (entries.map fst).Nodup) (member : (key, value) ∈ entries) :
    (insertAll entries m).lookup key = some value := by
  induction entries generalizing m with
  | nil => cases member
  | cons head tail ih =>
    simp only [List.map_cons, nodup_cons] at distinct
    rcases List.mem_cons.mp member with rfl | later
    · exact (lookup_insertAll_of_not_mem tail _ _ distinct.1).trans (lookup_insert _)
    · exact ih _ distinct.2 later

theorem lookup_insertAll (entries : List (K × V)) (m : Finmap fun _ : K => V)
    (found : (insertAll entries m).lookup key = some value) :
    (key, value) ∈ entries ∨ m.lookup key = some value := by
  induction entries generalizing m with
  | nil => exact .inr found
  | cons head tail ih =>
    rcases ih _ found with inside | before
    · exact .inl (List.mem_cons_of_mem _ inside)
    · by_cases same : key = head.1
      · subst same
        rw [lookup_insert] at before
        cases before
        exact .inl List.mem_cons_self
      · rw [lookup_insert_of_ne _ same] at before
        exact .inr before

theorem mem_insertAll {entries : List (K × V)} :
    key ∈ insertAll entries m ↔ key ∈ entries.map fst ∨ key ∈ m := by
  induction entries generalizing m with
  | nil => simp [insertAll]
  | cons head tail ih =>
    have unfolded : insertAll (head :: tail) m = insertAll tail (m.insert head.1 head.2) := rfl
    rw [unfolded, ih, Finmap.mem_insert]
    simp only [List.map_cons, List.mem_cons]
    tauto

theorem lookup_ofEntries {entries : List (K × V)} (distinct : (entries.map fst).Nodup) :
    (insertAll entries ∅).lookup key = some value ↔ (key, value) ∈ entries := by
  constructor
  · intro found
    exact (lookup_insertAll entries ∅ found).resolve_right (by simp)
  · exact lookup_insertAll_of_mem entries ∅ distinct

theorem list_lookup_iff {listed : List (K × V)} (distinct : (listed.map fst).Nodup) :
    listed.lookup key = some value ↔ (key, value) ∈ listed := by
  induction listed with
  | nil => simp
  | cons head tail ih =>
    obtain ⟨first, held⟩ := head
    rw [List.map_cons, nodup_cons] at distinct
    rw [lookup_cons, List.mem_cons, ← ih distinct.2]
    by_cases same : key = first
    · subst same
      have absent : tail.lookup key ≠ some value := fun found =>
        distinct.1 (List.mem_map.mpr ⟨_, (ih distinct.2).mp found, rfl⟩)
      simp [absent, eq_comm]
    · simp [same, beq_false_of_ne same]

theorem lookup_eraseAll (keys : List K) (m : Finmap fun _ : K => V) (key : K) :
    (eraseAll keys m).lookup key = if key ∈ keys then none else m.lookup key := by
  induction keys generalizing m with
  | nil => rfl
  | cons head tail ih =>
    have unfolded : eraseAll (head :: tail) m = eraseAll tail (m.erase head) := rfl
    rw [unfolded, ih]
    by_cases same : key = head
    · subst same
      simp
    · simp [same]

theorem lookup_copyKey (m out : Finmap fun _ : K => V) (key other : K) :
    (copyKey m out key).lookup other =
      if other = key then (m.lookup other).or (out.lookup other) else out.lookup other := by
  unfold copyKey
  by_cases same : other = key
  · subst same
    cases found : m.lookup other <;> simp
  · cases found : m.lookup key <;> simp [same]

theorem lookup_foldl_copyKey (keys : List K) (m out : Finmap fun _ : K => V) (key : K) :
    (keys.foldl (copyKey m) out).lookup key =
      if key ∈ keys then (m.lookup key).or (out.lookup key) else out.lookup key := by
  induction keys generalizing out with
  | nil => rfl
  | cons head tail ih =>
    rw [foldl_cons, ih, lookup_copyKey]
    by_cases same : key = head
    · cases found : m.lookup key <;> simp [same]
    · simp [same]

theorem lookup_pick (keys : List K) (m : Finmap fun _ : K => V) (key : K) (member : key ∈ keys) :
    (pick keys m).lookup key = m.lookup key := by
  simp [pick, lookup_foldl_copyKey, member]

theorem pick_insertAll {entries : List (K × V)} (m : Finmap fun _ : K => V)
    (distinct : (entries.map fst).Nodup) :
    pick (entries.map fst) (insertAll entries m) = insertAll entries ∅ := by
  apply ext_lookup
  intro key
  by_cases member : key ∈ entries.map fst
  · obtain ⟨⟨_, value⟩, inside, rfl⟩ := List.mem_map.mp member
    rw [lookup_pick _ _ _ member, lookup_insertAll_of_mem _ _ distinct inside,
      lookup_insertAll_of_mem _ _ distinct inside]
  · rw [lookup_insertAll_of_not_mem _ _ _ member, pick, lookup_foldl_copyKey, if_neg member]

theorem eraseAll_insertAll (entries : List (K × V)) (m : Finmap fun _ : K => V)
    (fresh : ∀ key ∈ entries.map fst, m.lookup key = none) :
    eraseAll (entries.map fst) (insertAll entries m) = m := by
  apply ext_lookup
  intro key
  rw [lookup_eraseAll]
  split
  · next member => exact (fresh key member).symm
  · next outside => exact lookup_insertAll_of_not_mem entries m key outside

theorem exists_mem_of_ne_empty (nonempty : m ≠ ∅) : ∃ key, key ∈ m := by
  by_contra none
  apply nonempty
  apply ext_lookup
  intro key
  rw [lookup_empty, lookup_eq_none]
  exact fun member => none ⟨key, member⟩

theorem lookup_union (left right : Finmap fun _ : K => V) (key : K) :
    (left ∪ right).lookup key = (left.lookup key).or (right.lookup key) := by
  by_cases member : key ∈ left
  · obtain ⟨value, found⟩ := mem_iff.mp member
    rw [lookup_union_left member, found]
    rfl
  · rw [lookup_union_right member, lookup_eq_none.mpr member]
    rfl

theorem lookup_insertAll_map (f : V → W) (listed : List (K × V)) (m : Finmap fun _ : K => V)
    (n : Finmap fun _ : K => W) (key : K) (before : n.lookup key = (m.lookup key).map f) :
    (insertAll (listed.map fun entry => (entry.1, f entry.2)) n).lookup key =
      ((insertAll listed m).lookup key).map f := by
  induction listed generalizing m n with
  | nil => exact before
  | cons head tail ih =>
    refine ih (m.insert head.1 head.2) (n.insert head.1 (f head.2)) ?_
    by_cases same : key = head.1
    · subst same
      simp
    · rw [lookup_insert_of_ne _ same, lookup_insert_of_ne _ same, before]

section Sorted

variable [LE K] [DecidableLE K] [IsTrans K (· ≤ ·)] [Std.Antisymm (α := K) (· ≤ ·)]
  [Std.Total (α := K) (· ≤ ·)]

def entries (m : Finmap fun _ : K => V) : List (K × V) :=
  (sortedKeys m).filterMap fun key => (m.lookup key).map fun value => (key, value)

def restrict (keep : K → Bool) (m : Finmap fun _ : K => V) : Finmap fun _ : K => V :=
  insertAll ((entries m).filter fun entry => keep entry.1) ∅

theorem mem_entries (m : Finmap fun _ : K => V) (key : K) (value : V) :
    (key, value) ∈ entries m ↔ m.lookup key = some value := by
  simp only [entries, List.mem_filterMap, Option.map_eq_some_iff, Prod.mk.injEq]
  constructor
  · rintro ⟨_, -, _, found, rfl, rfl⟩
    exact found
  · intro found
    exact ⟨key, (mem_sortedKeys m key).mpr (mem_of_lookup_eq_some found), value, found,
      rfl, rfl⟩

theorem map_fst_entries (m : Finmap fun _ : K => V) : (entries m).map fst = sortedKeys m := by
  have present : ∀ key ∈ sortedKeys m, ∃ value, m.lookup key = some value :=
    fun key member => mem_iff.mp ((mem_sortedKeys m key).mp member)
  unfold entries
  generalize sortedKeys m = keys at present
  induction keys with
  | nil => rfl
  | cons key keys ih =>
    obtain ⟨value, found⟩ := present key List.mem_cons_self
    simp [found, ih fun other member => present other (List.mem_cons_of_mem _ member)]

theorem nodup_entries (m : Finmap fun _ : K => V) : ((entries m).map fst).Nodup := by
  rw [map_fst_entries]
  exact nodup_sortedKeys m

theorem insertAll_perm {visited : List (K × V)} (perm : visited.Perm (entries m)) :
    insertAll visited ∅ = m := by
  have distinct : (visited.map fst).Nodup :=
    (perm.map fst).nodup_iff.mpr (nodup_entries m)
  apply ext_lookup
  intro key
  ext value
  rw [lookup_ofEntries distinct, perm.mem_iff, mem_entries]

theorem insertAll_entries (m : Finmap fun _ : K => V) : insertAll (entries m) ∅ = m :=
  insertAll_perm (.refl _)

theorem lookup_entries (m : Finmap fun _ : K => V) (key : K) :
    (entries m).lookup key = m.lookup key := by
  ext value
  rw [list_lookup_iff (nodup_entries m), mem_entries]

theorem insertAll_entries_insertAll {listed : List (K × V)} (m : Finmap fun _ : K => V)
    (distinct : (listed.map fst).Nodup) :
    insertAll (entries (insertAll listed ∅)) m = insertAll listed m := by
  have gathered := nodup_entries (insertAll listed ∅)
  apply ext_lookup
  intro key
  by_cases member : key ∈ listed.map fst
  · obtain ⟨⟨_, value⟩, inside, rfl⟩ := List.mem_map.mp member
    have held := (mem_entries _ _ value).mpr (lookup_insertAll_of_mem listed ∅ distinct inside)
    rw [lookup_insertAll_of_mem _ _ gathered held, lookup_insertAll_of_mem _ _ distinct inside]
  · rw [lookup_insertAll_of_not_mem _ _ _ member, lookup_insertAll_of_not_mem]
    rw [map_fst_entries, mem_sortedKeys, mem_insertAll]
    exact fun either => either.elim member Finmap.notMem_empty

theorem lookup_restrict (keep : K → Bool) (m : Finmap fun _ : K => V) (key : K) :
    (restrict keep m).lookup key = if keep key then m.lookup key else none := by
  have distinct : (((entries m).filter fun entry => keep entry.1).map fst).Nodup :=
    ((filter_sublist (p := fun entry => keep entry.1)).map fst).nodup (nodup_entries m)
  by_cases kept : keep key = true
  · cases found : m.lookup key with
    | some value =>
      have member : (key, value) ∈ (entries m).filter fun entry => keep entry.1 :=
        List.mem_filter.mpr ⟨(mem_entries m key value).mpr found, kept⟩
      rw [if_pos kept]
      exact lookup_insertAll_of_mem _ ∅ distinct member
    | none =>
      rw [restrict, lookup_insertAll_of_not_mem]
      · simp
      · intro member
        obtain ⟨⟨_, value⟩, inside, rfl⟩ := List.mem_map.mp member
        have held := (mem_entries m _ value).mp (List.mem_filter.mp inside).1
        simp [found] at held
  · rw [restrict, lookup_insertAll_of_not_mem]
    · simp [kept]
    · intro member
      obtain ⟨⟨_, value⟩, inside, rfl⟩ := List.mem_map.mp member
      exact kept (List.mem_filter.mp inside).2

def mapValues (f : V → W) (m : Finmap fun _ : K => V) : Finmap fun _ : K => W :=
  insertAll ((entries m).map fun entry => (entry.1, f entry.2)) ∅

theorem lookup_mapValues (f : V → W) (m : Finmap fun _ : K => V) (key : K) :
    (mapValues f m).lookup key = (m.lookup key).map f := by
  rw [mapValues, lookup_insertAll_map f (entries m) ∅ ∅ key (by simp), insertAll_entries]

theorem mapValues_eq_empty (f : V → W) : mapValues f m = ∅ ↔ m = ∅ := by
  constructor
  · intro empty
    apply ext_lookup
    intro key
    have found := lookup_mapValues f m key
    rw [empty] at found
    rw [lookup_empty, Option.map_eq_none_iff.mp found.symm]
  · rintro rfl
    apply ext_lookup
    intro key
    rfl

theorem mapValues_insertAll (f : V → W) (listed : List (K × V)) :
    mapValues f (insertAll listed ∅) = insertAll (listed.map fun entry => (entry.1, f entry.2)) ∅ := by
  apply ext_lookup
  intro key
  rw [lookup_mapValues, lookup_insertAll_map f listed ∅ ∅ key (by simp)]

theorem entries_mapValues (f : V → W) (m : Finmap fun _ : K => V) :
    entries (mapValues f m) = (entries m).map fun entry => (entry.1, f entry.2) := by
  have keys : sortedKeys (mapValues f m) = sortedKeys m := sortedKeys_congr <| by
    ext key
    rw [Finmap.mem_keys, Finmap.mem_keys, mem_iff, mem_iff]
    simp [lookup_mapValues]
  unfold entries
  rw [keys, map_filterMap]
  apply filterMap_congr
  intro key _
  rw [lookup_mapValues]
  cases m.lookup key <;> rfl

end Sorted

end Dict
