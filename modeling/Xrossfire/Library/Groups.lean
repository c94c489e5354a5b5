import Mathlib

/-! Numbers written as runs of digits with a separator between them, over any
alphabet. -/
namespace Xrossfire.Library

variable {α : Type}

/-- A non-empty run of digits that denotes `value` in the given base, the most significant digit first. -/
def Denotes (digit : α → Option Nat) (base : Nat) (run : List α) (value : Nat) : Prop :=
  run ≠ [] ∧ ∃ digits : List Nat, run.map digit = digits.map some ∧ value = Nat.ofDigits base digits.reverse

/-- One run for each value, none above `bound`, single separators in between and nothing else. -/
inductive Groups (digit : α → Option Nat) (base bound : Nat) (separator : α) : List α → List Nat → Prop
  | last (run value) (denotes : Denotes digit base run value) (small : value ≤ bound) :
      Groups digit base bound separator run [value]
  | more (run value rest values) (denotes : Denotes digit base run value) (small : value ≤ bound)
      (after : Groups digit base bound separator rest values) :
      Groups digit base bound separator (run ++ separator :: rest) (value :: values)

variable {digit : α → Option Nat} {base bound : Nat} {separator : α}

theorem Denotes.isDigit {run : List α} {value : Nat} (denotes : Denotes digit base run value) :
    ∀ c ∈ run, digit c ≠ none := by
  obtain ⟨-,digits,same,-⟩ := denotes
  intro c member missing
  have inside := List.mem_map_of_mem (f := digit) member
  rw [same,missing] at inside
  simp at inside

/-- No other character occurs. -/
theorem Groups.character {s : List α} {values : List Nat} (groups : Groups digit base bound separator s values) :
    ∀ c ∈ s, c = separator ∨ digit c ≠ none := by
  induction groups with
  | last run value denotes small => exact fun c member => Or.inr (denotes.isDigit c member)
  | more run value rest values denotes small after ih =>
    intro c member
    rw [List.mem_append,List.mem_cons] at member
    rcases member with member | same | member
    · exact Or.inr (denotes.isDigit c member)
    · exact Or.inl same
    · exact ih c member

end Xrossfire.Library
