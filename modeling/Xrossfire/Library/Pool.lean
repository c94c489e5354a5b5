import Mathlib

/-! Threads as stacks of program points: what a step of one thread changes in
sums and counts over all points. -/
namespace Xrossfire.Library

variable {β : Type} {threads : List (List β)} {i : Nat} {f : β} {rest : List β}

def weigh (w : β → Int) (threads : List (List β)) : Int := (threads.flatten.map w).sum

def tally (p : β → Bool) (threads : List (List β)) : Nat := threads.flatten.countP p

theorem set_split {stack : List β} (here : threads[i]? = some stack) :
    ∃ before after, threads = before ++ stack :: after ∧
      ∀ stack', threads.set i stack' = before ++ stack' :: after := by
  obtain ⟨bound,rfl⟩ := List.getElem?_eq_some_iff.mp here
  refine ⟨threads.take i,threads.drop (i + 1),?_,?_⟩
  · rw [List.getElem_cons_drop,List.take_append_drop]
  · intro stack'
    rw [List.set_eq_take_append_cons_drop,if_pos bound]

theorem weigh_set (w : β → Int) (here : threads[i]? = some (f :: rest)) (points : List β) :
    weigh w (threads.set i (points ++ rest)) + w f = weigh w threads + (points.map w).sum := by
  obtain ⟨before,after,split,set⟩ := set_split here
  rw [set,split]
  simp only [weigh,List.flatten_append,List.flatten_cons,List.map_append,List.sum_append,List.map_cons,
    List.sum_cons]
  omega

theorem weigh_spawn (w : β → Int) (points : List β) :
    weigh w (threads ++ [points]) = weigh w threads + (points.map w).sum := by
  simp only [weigh,List.flatten_append,List.flatten_cons,List.flatten_nil,List.append_nil,List.map_append,
    List.sum_append]

theorem weigh_scale (n : Int) (p : β → Prop) [DecidablePred p] (threads : List (List β)) :
    weigh (fun g => if p g then n else 0) threads = n * tally (fun g => p g) threads := by
  simp only [weigh,tally]
  induction threads.flatten with
  | nil => rw [List.map_nil,List.sum_nil,List.countP_nil,Int.natCast_zero,Int.mul_zero]
  | cons g points ih =>
    rw [List.map_cons,List.sum_cons,List.countP_cons,ih]
    by_cases holds : p g
    · simp only [holds,if_true,decide_true,Int.natCast_add,Int.mul_add,Int.natCast_one,Int.mul_one]
      omega
    · simp only [holds,if_false,decide_false,Bool.false_eq_true,Nat.add_zero,Int.zero_add]

theorem weigh_zero {w : β → Int} (zero : ∀ g ∈ threads.flatten, w g = 0) : weigh w threads = 0 := by
  simp only [weigh]
  apply List.sum_eq_zero
  intro n member
  obtain ⟨g,point,rfl⟩ := List.mem_map.mp member
  exact zero g point

theorem mem_top (here : threads[i]? = some (f :: rest)) : f ∈ threads.flatten :=
  List.mem_flatten.mpr ⟨_,List.mem_of_getElem? here,List.mem_cons_self⟩

theorem mem_set {points : List β} {g : β} (here : threads[i]? = some (f :: rest))
    (member : g ∈ (threads.set i (points ++ rest)).flatten) : g ∈ points ∨ g ∈ threads.flatten := by
  obtain ⟨stack,found,inside⟩ := List.mem_flatten.mp member
  rcases List.mem_or_eq_of_mem_set found with old | rfl
  · exact Or.inr (List.mem_flatten.mpr ⟨stack,old,inside⟩)
  · rcases List.mem_append.mp inside with new | old
    · exact Or.inl new
    · exact Or.inr (List.mem_flatten.mpr ⟨_,List.mem_of_getElem? here,List.mem_cons_of_mem _ old⟩)

theorem mem_pushed {points : List β} {g : β} (here : threads[i]? = some (f :: rest)) (member : g ∈ points) :
    g ∈ (threads.set i (points ++ rest)).flatten := by
  obtain ⟨before,after,-,set⟩ := set_split here
  rw [set]
  simp only [List.flatten_append,List.flatten_cons,List.mem_append]
  exact Or.inr (Or.inl (Or.inl member))

theorem mem_old {points : List β} {g : β} (member : g ∈ threads.flatten) :
    g ∈ (threads ++ [points]).flatten := by
  rw [List.flatten_append]
  exact List.mem_append_left _ member

theorem mem_keep {points : List β} {g : β} (here : threads[i]? = some (f :: rest))
    (member : g ∈ threads.flatten) (ne : g ≠ f) : g ∈ (threads.set i (points ++ rest)).flatten := by
  obtain ⟨before,after,split,set⟩ := set_split here
  rw [split] at member
  rw [set]
  simp only [List.flatten_append,List.flatten_cons,List.mem_append,List.mem_cons] at member ⊢
  rcases member with low | (same | old) | high
  · exact Or.inl low
  · exact absurd same ne
  · exact Or.inr (Or.inl (Or.inr old))
  · exact Or.inr (Or.inr high)

theorem mem_spawn {points : List β} {g : β} (member : g ∈ (threads ++ [points]).flatten) :
    g ∈ points ∨ g ∈ threads.flatten := by
  rw [List.flatten_append,List.mem_append] at member
  rcases member with old | new
  · exact Or.inr old
  · exact Or.inl (by simpa using new)

theorem tally_pos {p : β → Bool} {g : β} (member : g ∈ threads.flatten) (holds : p g) :
    0 < tally p threads := List.countP_pos_iff.mpr ⟨g,member,holds⟩

theorem tally_none {p : β → Bool} (none : ∀ g ∈ threads.flatten, ¬ p g) : tally p threads = 0 :=
  List.countP_eq_zero.mpr none

theorem tally_zero {p : β → Bool} (none : tally p threads = 0) {g : β} (member : g ∈ threads.flatten) :
    ¬ p g := by
  intro holds
  have some := tally_pos member holds
  omega

/-- Points of two exclusive kinds are at least as many points of a common kind. -/
theorem tally_add_le {p q r : β → Bool} (left : ∀ g, q g → p g ∧ ¬ r g) (right : ∀ g, r g → p g)
    (threads : List (List β)) : tally q threads + tally r threads ≤ tally p threads := by
  simp only [tally]
  induction threads.flatten with
  | nil => exact Nat.le_refl _
  | cons g points ih =>
    simp only [List.countP_cons]
    have one : (if q g then 1 else 0) + (if r g then 1 else 0) ≤ if p g then 1 else 0 := by
      have inner := left g
      have outer := right g
      revert inner outer
      cases q g <;> cases r g <;> cases p g <;> simp
    omega

theorem tally_set (p : β → Bool) (here : threads[i]? = some (f :: rest)) (points : List β) :
    tally p (threads.set i (points ++ rest)) = tally p (threads.set i rest) + points.countP p := by
  obtain ⟨before,after,-,set⟩ := set_split here
  rw [set,set]
  simp only [tally,List.flatten_append,List.flatten_cons,List.countP_append]
  omega

/-- The innermost point of a thread and the others. -/
theorem tally_top (p : β → Bool) (here : threads[i]? = some (f :: rest)) :
    tally p threads = tally p (threads.set i rest) + [f].countP p := by
  rw [← tally_set p here [f],List.singleton_append]
  obtain ⟨bound,same⟩ := List.getElem?_eq_some_iff.mp here
  rw [← same,List.set_getElem_self]

theorem tally_spawn (p : β → Bool) (points : List β) :
    tally p (threads ++ [points]) = tally p threads + points.countP p := by
  simp only [tally,List.flatten_append,List.flatten_cons,List.flatten_nil,List.append_nil,List.countP_append]

def Stacks (P : Nat → List β → Prop) (threads : List (List β)) : Prop :=
  ∀ i stack, threads[i]? = some stack → P i stack

namespace Stacks
variable {P Q : Nat → List β → Prop}

theorem set {stack : List β} (holds : Stacks P threads) (other : ∀ j stack, j ≠ i → P j stack → Q j stack)
    (own : Q i stack) : Stacks Q (threads.set i stack) := by
  intro j stack' found
  by_cases same : i = j
  · subst same
    rw [List.getElem?_set,if_pos rfl,Option.ite_none_right_eq_some] at found
    obtain ⟨-,here⟩ := found
    cases here
    exact own
  · rw [List.getElem?_set_ne same] at found
    exact other j stack' (Ne.symm same) (holds j stack' found)

theorem spawn {points : List β} (holds : Stacks P threads) (own : P threads.length points) :
    Stacks P (threads ++ [points]) := by
  intro j stack found
  rcases Nat.lt_or_ge j threads.length with old | new
  · rw [List.getElem?_append_left old] at found
    exact holds j stack found
  · rw [List.getElem?_append_right new,List.getElem?_singleton,Option.ite_none_right_eq_some] at found
    obtain ⟨last,here⟩ := found
    cases here
    have same : j = threads.length := by omega
    exact same ▸ own

theorem imp (holds : Stacks P threads) (weaker : ∀ j stack, P j stack → Q j stack) : Stacks Q threads :=
  fun j stack found => weaker j stack (holds j stack found)

end Stacks

end Xrossfire.Library
