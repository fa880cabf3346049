import Mathlib.Data.List.TakeWhile

/-! Scanning a text from its start: a fixed word, a fixed number of characters of one class, the
longest run of such characters. Each scanner returns the text after what it read. -/

namespace Scan

open List Option

variable {word front front' text rest rest' : List Char} {p : Char → Bool} {count : ℕ}

def literal (word text : List Char) : Option (List Char) :=
  if word <+: text then some (text.drop word.length) else none

def exactly (count : ℕ) (p : Char → Bool) (text : List Char) : Option (List Char × List Char) :=
  if count ≤ text.length ∧ (text.take count).all p then some (text.take count, text.drop count)
  else none

def run (p : Char → Bool) (text : List Char) : Option (List Char × List Char) :=
  if text.takeWhile p ≠ [] then some (text.takeWhile p, text.dropWhile p) else none

def Stops (p : Char → Bool) (text : List Char) : Prop := ∀ c ∈ text.head?, p c = false

theorem literal_eq_some : literal word text = some rest ↔ text = word ++ rest := by
  constructor
  · intro scanned
    simp only [literal, ite_none_right_eq_some, some.injEq] at scanned
    obtain ⟨⟨tail, rfl⟩, rfl⟩ := scanned
    rw [drop_left]
  · rintro rfl
    rw [literal, if_pos (prefix_append word rest), drop_left]

theorem literal_append (word rest : List Char) : literal word (word ++ rest) = some rest :=
  literal_eq_some.mpr rfl

theorem exactly_eq_some : exactly count p text = some (front, rest) ↔
    text = front ++ rest ∧ front.length = count ∧ ∀ c ∈ front, p c = true := by
  constructor
  · intro scanned
    simp only [exactly, ite_none_right_eq_some] at scanned
    obtain ⟨⟨long, all⟩, rfl, rfl⟩ := scanned
    exact ⟨(take_append_drop count text).symm, length_take_of_le long,
      List.all_eq_true.mp all⟩
  · rintro ⟨rfl, rfl, all⟩
    have whole : (front.all p) = true := List.all_eq_true.mpr all
    simp [exactly, whole]

theorem exactly_append (size : front.length = count) (all : ∀ c ∈ front, p c = true)
    (rest : List Char) : exactly count p (front ++ rest) = some (front, rest) :=
  exactly_eq_some.mpr ⟨rfl, size, all⟩

theorem takeWhile_append_of_stops (all : ∀ c ∈ front, p c = true) (stops : Stops p rest) :
    (front ++ rest).takeWhile p = front := by
  rw [takeWhile_append_of_pos all]
  cases rest with
  | nil => simp
  | cons c rest => simp [stops c rfl]

theorem dropWhile_append_of_stops (all : ∀ c ∈ front, p c = true) (stops : Stops p rest) :
    (front ++ rest).dropWhile p = rest := by
  rw [dropWhile_append_of_pos all]
  cases rest with
  | nil => rfl
  | cons c rest => simp [stops c rfl]

theorem stops_dropWhile (p : Char → Bool) (text : List Char) : Stops p (text.dropWhile p) := by
  intro c mem
  have next := head?_dropWhile_not p text
  rwa [mem_def.mp mem] at next

theorem run_eq_some : run p text = some (front, rest) ↔
    text = front ++ rest ∧ front ≠ [] ∧ (∀ c ∈ front, p c = true) ∧ Stops p rest := by
  constructor
  · intro scanned
    simp only [run, ite_none_right_eq_some] at scanned
    obtain ⟨found, rfl, rfl⟩ := scanned
    exact ⟨(takeWhile_append_dropWhile).symm, found, fun c mem => mem_takeWhile_imp mem,
      stops_dropWhile p text⟩
  · rintro ⟨rfl, found, all, stops⟩
    rw [run, takeWhile_append_of_stops all stops, dropWhile_append_of_stops all stops, if_pos found]

theorem cut_unique (same : front ++ rest = front' ++ rest') (all : ∀ c ∈ front, p c = true)
    (all' : ∀ c ∈ front', p c = true) (stops : Stops p rest) (stops' : Stops p rest') :
    front = front' ∧ rest = rest' := by
  have fronts : front = front' := by
    rw [← takeWhile_append_of_stops all stops, same, takeWhile_append_of_stops all' stops']
  subst fronts
  exact ⟨rfl, append_cancel_left same⟩

theorem length_of_exactly {run tail : List Char} (all : ∀ c ∈ run, p c = true)
    (stops : Stops p tail) (read : exactly count p (run ++ tail) = some (front, rest))
    (stops' : Stops p rest) : run.length = count ∧ rest = tail := by
  obtain ⟨split, size, all'⟩ := exactly_eq_some.mp read
  obtain ⟨rfl, rfl⟩ := cut_unique split all all' stops stops'
  exact ⟨size, rfl⟩

theorem stops_cons {c : Char} (no : p c = false) (rest : List Char) : Stops p (c :: rest) := by
  intro c' first
  rw [head?_cons, mem_some_iff] at first
  rwa [← first]

theorem literal_cons (c : Char) (rest : List Char) : literal [c] (c :: rest) = some rest :=
  literal_append [c] rest

end Scan
