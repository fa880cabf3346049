import Mathlib.Data.List.Basic

/-! Codes that spell a value out as a text from which it can be read back. -/

namespace Codes

/-- A code whose words are read off the front of any text: no word starts another. -/
structure Code (α : Type) where
  spell : α → List Char
  unique : ∀ {left right : α} {more rest : List Char},
    spell left ++ more = spell right ++ rest → left = right ∧ more = rest

variable {α β : Type}

def Code.text (code : Code α) (value : α) : String := String.ofList (code.spell value)

theorem Code.text_injective (code : Code α) : Function.Injective code.text := by
  intro left right same
  have lists : code.spell left = code.spell right := by
    simpa [Code.text] using congrArg String.toList same
  exact (code.unique (congrArg (· ++ []) lists)).1

/-- A code of `β` spells what maps into it without loss. -/
def Code.along (code : Code β) (f : α → β) (injective : Function.Injective f) : Code α where
  spell value := code.spell (f value)
  unique same := ⟨injective (code.unique same).1, (code.unique same).2⟩

def letter : Code Char where
  spell value := [value]
  unique same := by simpa using same

def pair (first : Code α) (second : Code β) : Code (α × β) where
  spell value := first.spell value.1 ++ second.spell value.2
  unique := by
    intro left right more rest same
    rw [List.append_assoc, List.append_assoc] at same
    obtain ⟨fronts, backs⟩ := first.unique same
    obtain ⟨seconds, tails⟩ := second.unique backs
    exact ⟨Prod.ext fronts seconds, tails⟩

def spellList (code : Code α) : List α → List Char
  | [] => ['.']
  | value :: values => ',' :: (code.spell value ++ spellList code values)

theorem spellList_unique (code : Code α) {left right : List α} {more rest : List Char}
    (same : spellList code left ++ more = spellList code right ++ rest) :
    left = right ∧ more = rest := by
  induction left generalizing right with
  | nil =>
    cases right with
    | nil => simpa [spellList] using same
    | cons value values => simp [spellList] at same
  | cons value values ih =>
    cases right with
    | nil => simp [spellList] at same
    | cons other others =>
      simp only [spellList, List.cons_append, List.cons.injEq, true_and,
        List.append_assoc] at same
      obtain ⟨rfl, tails⟩ := code.unique same
      obtain ⟨rfl, ends⟩ := ih tails
      exact ⟨rfl, ends⟩

def list (code : Code α) : Code (List α) := ⟨spellList code, spellList_unique code⟩

def string : Code String := (list letter).along String.toList fun _ _ same => String.toList_inj.mp same

def number : Code Nat :=
  (list letter).along (fun n => List.replicate n '1') fun left right same => by
    simpa using congrArg List.length same

theorem toNat_byteChar (value : UInt8) : (Char.ofNat value.toNat).toNat = value.toNat := by
  have valid : value.toNat.isValidChar := .inl (by have := value.toNat_lt; omega)
  rw [Char.ofNat, dif_pos valid]
  rfl

def byte : Code UInt8 :=
  letter.along (fun value => Char.ofNat value.toNat) fun left right same => by
    apply UInt8.toNat_inj.mp
    rw [← toNat_byteChar left, ← toNat_byteChar right]
    exact congrArg Char.toNat same

end Codes
