import Mathlib

/-! A walk along a list that changes on the way: entries are appended, taken out before their turn, or lose their
turn because the walk steps past them. -/
namespace Xrossfire.Library
variable {α : Type}

structure Walk (α : Type) where
  todo : List α
  visited : List α
  added : List α
  dropped : List α
  missed : List α

def Walk.start (xs : List α) : Walk α := ⟨xs,[],[],[],[]⟩

inductive Walks : Walk α → Walk α → Prop
  | visit (x rest w) (first : w.todo = x :: rest) : Walks w {w with todo := rest, visited := w.visited ++ [x]}
  | add (x w) : Walks w {w with todo := w.todo ++ [x], added := w.added ++ [x]}
  | drop (x j w) (here : w.todo[j]? = some x) : Walks w {w with todo := w.todo.eraseIdx j, dropped := w.dropped ++ [x]}
  | miss (x rest w) (first : w.todo = x :: rest) : Walks w {w with todo := rest, missed := w.missed ++ [x]}

/-- Every entry has had its turn, lost it, been taken out or is still to come, and the turns keep the order. -/
structure Walk.Accounts (xs : List α) (w : Walk α) : Prop where
  all : (xs ++ w.added).Perm (w.visited ++ w.missed ++ w.dropped ++ w.todo)
  order : (w.visited ++ w.todo).Sublist (xs ++ w.added)

theorem Walk.Accounts.step {xs : List α} {w w' : Walk α} (accounts : w.Accounts xs) (walks : Walks w w') :
    w'.Accounts xs := by
  obtain ⟨all,order⟩ := accounts
  cases walks with
  | visit x rest w first =>
    rw [first] at all order
    constructor
    · refine all.trans ?_
      simp only [List.append_assoc]
      refine List.Perm.append_left _ ?_
      have moved : (w.missed ++ (w.dropped ++ x :: rest)).Perm (x :: (w.missed ++ (w.dropped ++ rest))) := by
        rw [← List.append_assoc,← List.append_assoc]
        exact List.perm_middle
      exact moved
    · simpa using order
  | add x w =>
    constructor
    · simp only [← List.append_assoc] at all ⊢
      exact all.append_right [x]
    · simp only [← List.append_assoc]
      exact order.append (List.Sublist.refl [x])
  | drop x j w here =>
    obtain ⟨low,same⟩ := List.getElem?_eq_some_iff.mp here
    constructor
    · refine all.trans ?_
      simp only [List.append_assoc]
      refine List.Perm.append_left _ (List.Perm.append_left _ (List.Perm.append_left _ ?_))
      rw [← same]
      exact (List.getElem_cons_eraseIdx_perm low).symm
    · exact ((List.Sublist.refl _).append (List.eraseIdx_sublist _ _)).trans order
  | miss x rest w first =>
    rw [first] at all order
    constructor
    · refine all.trans ?_
      simp only [List.append_assoc]
      refine List.Perm.append_left _ (List.Perm.append_left _ ?_)
      exact List.perm_middle
    · exact ((List.Sublist.refl _).append (List.sublist_cons_self x rest)).trans order

theorem Walk.start_accounts (xs : List α) : (Walk.start xs).Accounts xs := by
  constructor <;> simp [Walk.start]

/-- If no entry was taken out and none lost its turn, the list is walked from its beginning to its end. -/
theorem Walk.Accounts.whole {xs : List α} {w : Walk α} (accounts : w.Accounts xs) (dropped : w.dropped = [])
    (missed : w.missed = []) : w.visited ++ w.todo = xs ++ w.added := by
  apply accounts.order.eq_of_length
  have length := accounts.all.length_eq
  simp only [dropped,missed,List.append_nil] at length
  exact length.symm

/-! ## Walking by index -/

/-- An entry behind the index is erased, and the one that followed it there moves out of sight. -/
theorem drop_erased_behind (xs : List α) {i j : Nat} (behind : j ≤ i) : (xs.eraseIdx j).drop i = xs.drop (i + 1) := by
  apply List.ext_getElem?
  intro k
  rw [List.getElem?_drop,List.getElem?_drop,List.getElem?_eraseIdx,if_neg (by omega)]
  congr 1
  omega

theorem drop_erased_ahead (xs : List α) {i j : Nat} (ahead : i ≤ j) :
    (xs.eraseIdx j).drop i = (xs.drop i).eraseIdx (j - i) := by
  apply List.ext_getElem?
  intro k
  rw [List.getElem?_drop,List.getElem?_eraseIdx,List.getElem?_eraseIdx,List.getElem?_drop,List.getElem?_drop]
  by_cases low : i + k < j
  · rw [if_pos low,if_pos (by omega)]
  · rw [if_neg low,if_neg (by omega)]
    congr 1

end Xrossfire.Library
