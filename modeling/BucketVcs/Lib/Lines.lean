import Mathlib.Data.List.DropRight

/-! A text that is trimmed first and split into lines then. Empty lines are left out throughout. -/

namespace Lines

open List

variable {A : Type} (space : A → Bool)

def trim (text : List A) : List A := (text.dropWhile space).rdropWhile space

def lines [DecidableEq A] (newline : A) (text : List A) : List (List A) :=
  (text.splitOn newline).filter (!·.isEmpty)

/-- A line that trimming leaves as it is. -/
structure Neat (line : List A) : Prop where
  starts : line.dropWhile space = line
  ends : line.rdropWhile space = line

variable {space} {line text : List A}

theorem starts_reverse (ends : line.rdropWhile space = line) :
    line.reverse.dropWhile space = line.reverse := by
  rw [← reverse_inj, reverse_reverse]
  exact ends

variable [DecidableEq A] {newline : A}

theorem lines_single (unbroken : newline ∉ line) :
    lines newline line = [line].filter (!·.isEmpty) := by
  rw [lines, splitOn_eq_singleton unbroken]

theorem lines_append (line rest : List A) :
    lines newline (line ++ newline :: rest) = lines newline line ++ lines newline rest := by
  rw [lines, splitOn_append_cons_self, filter_append]
  rfl

theorem ne_nil_of_mem_lines (member : line ∈ lines newline text) : line ≠ [] := by
  simpa using (mem_filter.mp member).2

theorem eq_of_mem_lines (unbroken : newline ∉ text) (member : line ∈ lines newline text) :
    line = text := by
  rw [lines_single unbroken] at member
  exact mem_singleton.mp (mem_filter.mp member).1

/-- A text is one line, or a line before another text. -/
@[elab_as_elim]
theorem by_lines (newline : A) {motive : List A → Prop} (single : ∀ line, newline ∉ line → motive line)
    (more : ∀ line rest, newline ∉ line → motive rest → motive (line ++ newline :: rest))
    (text : List A) : motive text := by
  induction length : text.length using Nat.strongRecOn generalizing text with
  | _ n ih =>
    by_cases broken : newline ∈ text
    · obtain ⟨line, rest, rfl, unbroken⟩ := eq_append_cons_of_mem broken
      refine more line rest unbroken (ih rest.length ?_ rest rfl)
      simp only [length_append, length_cons] at length
      omega
    · exact single text broken

theorem of_mem_splitOn {piece : List A} (member : piece ∈ text.splitOn newline) :
    newline ∉ piece ∧ piece ⊆ text := by
  induction text using by_lines newline with
  | single line unbroken =>
    rw [splitOn_eq_singleton unbroken] at member
    rw [mem_singleton.mp member]
    exact ⟨unbroken, List.Subset.refl _⟩
  | more line rest unbroken ih =>
    rw [splitOn_append_cons_self, splitOn_eq_singleton unbroken] at member
    rcases mem_cons.mp member with rfl | later
    · exact ⟨unbroken, subset_append_left ..⟩
    · obtain ⟨clear, inside⟩ := ih later
      exact ⟨clear, fun c mem => by simp [inside mem]⟩

theorem lines_reverse (text : List A) :
    lines newline text.reverse = ((lines newline text).map reverse).reverse := by
  induction text using by_lines newline with
  | single line unbroken =>
    rw [lines_single unbroken, lines_single (by simpa using unbroken)]
    cases line <;> simp
  | more line rest unbroken ih =>
    have turned : (line ++ newline :: rest).reverse =
        rest.reverse ++ newline :: line.reverse := by simp
    have last : newline ∉ line.reverse := by simpa using unbroken
    rw [turned, lines_append, lines_append, ih, lines_single unbroken, lines_single last]
    cases line <;> simp

theorem lines_dropWhile (breaks : space newline = true) (first rest : List A) :
    lines newline ((first ++ newline :: rest).dropWhile space) =
      if first.dropWhile space = [] then lines newline (rest.dropWhile space)
      else lines newline (first.dropWhile space) ++ lines newline rest := by
  rw [dropWhile_append]
  split
  · next blank =>
      rw [dropWhile_cons_of_pos breaks, if_pos (by simpa using blank)]
  · next solid => rw [lines_append, if_neg (by simpa using solid)]

theorem mem_lines_dropWhile (breaks : space newline = true) (starts : line.dropWhile space = line)
    (member : line ∈ lines newline text) : line ∈ lines newline (text.dropWhile space) := by
  have solid := ne_nil_of_mem_lines member
  induction text using by_lines newline with
  | single first unbroken =>
    obtain rfl := eq_of_mem_lines unbroken member
    rwa [starts]
  | more first rest unbroken ih =>
    rw [lines_append, mem_append] at member
    rw [lines_dropWhile breaks]
    rcases member with here | later
    · obtain rfl := eq_of_mem_lines unbroken here
      rw [starts, if_neg solid]
      exact mem_append_left _ here
    · split
      · exact ih later
      · exact mem_append_right _ later

theorem lines_dropWhile_of_starts (breaks : space newline = true)
    (starts : ∀ line ∈ lines newline text, line.dropWhile space = line) :
    lines newline (text.dropWhile space) = lines newline text := by
  have kept {first : List A} (unbroken : newline ∉ first)
      (starts : ∀ line ∈ lines newline first, line.dropWhile space = line) :
      first.dropWhile space = first := by
    cases first with
    | nil => rfl
    | cons x first => exact starts _ (by simp [lines_single unbroken])
  induction text using by_lines newline with
  | single first unbroken => rw [kept unbroken starts]
  | more first rest unbroken ih =>
    rw [lines_append] at starts
    have here := kept unbroken fun line member => starts line (mem_append_left _ member)
    have later := ih fun line member => starts line (mem_append_right _ member)
    rw [lines_dropWhile breaks, lines_append, here]
    split
    · next empty => rw [later, empty, lines_single not_mem_nil]; rfl
    · rfl

/-- A neat line is still there after the text has been trimmed. -/
theorem mem_lines_trim (breaks : space newline = true) (neat : Neat space line)
    (member : line ∈ lines newline text) : line ∈ lines newline (trim space text) := by
  have cut := mem_lines_dropWhile breaks neat.starts member
  have turned : line.reverse ∈ lines newline (text.dropWhile space).reverse := by
    rw [lines_reverse, mem_reverse]
    exact mem_map_of_mem cut
  have shown := mem_lines_dropWhile breaks (starts_reverse neat.ends) turned
  rw [trim, rdropWhile, lines_reverse, mem_reverse]
  exact mem_map.mpr ⟨_, shown, reverse_reverse line⟩

theorem lines_trim (breaks : space newline = true)
    (neat : ∀ line ∈ lines newline text, Neat space line) :
    lines newline (trim space text) = lines newline text := by
  have cut := lines_dropWhile_of_starts breaks fun line member => (neat line member).starts
  have turned : ∀ line ∈ lines newline (text.dropWhile space).reverse,
      line.dropWhile space = line := by
    intro line member
    rw [lines_reverse, cut, mem_reverse] at member
    obtain ⟨original, inside, rfl⟩ := mem_map.mp member
    exact starts_reverse (neat original inside).ends
  rw [trim, rdropWhile, lines_reverse, lines_dropWhile_of_starts breaks turned, lines_reverse, cut]
  simp

end Lines
