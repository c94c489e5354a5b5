import Mathlib

/-! Sums over the first entries of a table or over a list, and what a write to one entry changes in them. -/
namespace Xrossfire.Library

variable {α : Type} {table : Nat → α} {w : α → Nat} {n i : Nat} {x : α}

def total (w : α → Nat) (table : Nat → α) (n : Nat) : Nat := ∑ i ∈ Finset.range n, w (table i)

theorem total_write (inside : i < n) :
    total w (Function.update table i x) n + w (table i) = total w table n + w x := by
  have member : i ∈ Finset.range n := Finset.mem_range.mpr inside
  have others : ∑ j ∈ (Finset.range n).erase i, w (Function.update table i x j) =
      ∑ j ∈ (Finset.range n).erase i, w (table j) := by
    apply Finset.sum_congr rfl
    intro j apart
    rw [Function.update_of_ne (Finset.ne_of_mem_erase apart)]
  rw [total,total,← Finset.sum_erase_add _ _ member,← Finset.sum_erase_add _ _ member,others,Function.update_self]
  omega

theorem total_append : total w (Function.update table n x) (n + 1) = total w table n + w x := by
  rw [total,Finset.sum_range_succ,Function.update_self,total]
  congr 1
  apply Finset.sum_congr rfl
  intro j member
  rw [Function.update_of_ne (Nat.ne_of_lt (Finset.mem_range.mp member))]

theorem le_total (w : α → Nat) (table : Nat → α) (inside : i < n) : w (table i) ≤ total w table n :=
  Finset.single_le_sum (f := fun i => w (table i)) (fun _ _ => Nat.zero_le _) (Finset.mem_range.mpr inside)

theorem total_zero (zero : ∀ i < n, w (table i) = 0) : total w table n = 0 :=
  Finset.sum_eq_zero (fun i member => zero i (Finset.mem_range.mp member))

/-! The entry and the others of a list. -/

variable {list : List α}

theorem sum_entry (w : α → Nat) (here : list[i]? = some x) :
    (list.map w).sum = w x + ((list.eraseIdx i).map w).sum := by
  obtain ⟨inside,rfl⟩ := List.getElem?_eq_some_iff.mp here
  have bound : i < (list.map w).length := by simpa using inside
  have split := List.add_sum_eraseIdx bound (fun n _ => AddCommute.all _ n)
  rw [← split,List.getElem_map,List.eraseIdx_map]

theorem sum_set (w : α → Nat) (here : list[i]? = some x) (y : α) :
    ((list.set i y).map w).sum = w y + ((list.eraseIdx i).map w).sum := by
  have inside := (List.getElem?_eq_some_iff.mp here).1
  have there : (list.set i y)[i]? = some y := by rw [List.getElem?_set_self inside]
  rw [sum_entry w there,List.eraseIdx_set_eq]

theorem sum_mono {v : α → Nat} (le : ∀ x ∈ list, v x ≤ w x) : (list.map v).sum ≤ (list.map w).sum :=
  List.sum_le_sum le

end Xrossfire.Library
