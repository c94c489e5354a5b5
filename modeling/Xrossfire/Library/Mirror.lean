import Xrossfire.Library.Avl

/-! Balanced trees with left and right exchanged: each operation is the mirror image
of the one on the other side. -/
namespace Xrossfire.Library.Avl
open BinaryTree

variable {α : Type}

def mirror : BinaryTree α → BinaryTree α
  | .nil => .nil
  | .node a l r => .node a (mirror r) (mirror l)

@[simp] theorem mirror_nil : mirror (nil : BinaryTree α) = nil := rfl

@[simp] theorem mirror_node (a : α) (l r : BinaryTree α) :
    mirror (node a l r) = node a (mirror r) (mirror l) := rfl

@[simp] theorem mirror_mirror (t : BinaryTree α) : mirror (mirror t) = t := by
  induction t with
  | nil => rfl
  | node a l r left right => simp only [mirror_node,left,right]

@[simp] theorem height_mirror (t : BinaryTree α) : (mirror t).height = t.height := by
  induction t with
  | nil => rfl
  | node a l r left right => simp only [mirror_node,height,left,right,max_comm]

@[simp] theorem inorder_mirror (t : BinaryTree α) : inorder (mirror t) = (inorder t).reverse := by
  induction t with
  | nil => rfl
  | node a l r left right => simp [left,right]

theorem balanced_mirror {t : BinaryTree α} (balanced : Balanced t) : Balanced (mirror t) := by
  induction t with
  | nil => exact balanced
  | node a l r left right =>
    obtain ⟨bl,br,first,second⟩ := balanced
    refine ⟨right br,left bl,?_,?_⟩ <;> simpa only [height_mirror]

theorem bias_mirror (t : BinaryTree α) : bias (mirror t) = -bias t := by
  cases t with
  | nil => rfl
  | node a l r =>
    simp only [mirror_node,bias,height_mirror]
    omega

theorem mirror_rotateLeft (t : BinaryTree α) : mirror (rotateLeft t) = rotateRight (mirror t) := by
  rcases t with _ | ⟨a,l,_ | ⟨c,rl,rr⟩⟩
  · rfl
  · cases l <;> rfl
  · rfl

theorem mirror_rotateRight (t : BinaryTree α) : mirror (rotateRight t) = rotateLeft (mirror t) := by
  rw [← mirror_mirror (rotateLeft (mirror t)),mirror_rotateLeft,mirror_mirror]

theorem mirror_balanceLeft (a : α) (l r : BinaryTree α) :
    mirror (balanceLeft a l r) = balanceRight a (mirror r) (mirror l) := by
  have sides : bias (mirror l) ≤ 0 ↔ 0 ≤ bias l := by
    rw [bias_mirror]
    omega
  simp only [balanceLeft,balanceRight,height_mirror,sides]
  split_ifs
  · rw [mirror_rotateRight,mirror_node]
  · rw [mirror_rotateRight,mirror_node,mirror_rotateLeft]
  · rfl

theorem mirror_balanceRight (a : α) (l r : BinaryTree α) :
    mirror (balanceRight a l r) = balanceLeft a (mirror r) (mirror l) := by
  rw [← mirror_mirror (balanceLeft a (mirror r) (mirror l)),mirror_balanceLeft,mirror_mirror,mirror_mirror]

theorem find_mirror {sign sign' : α → Int} (t : BinaryTree α)
    (turned : ∀ a, (sign' a < 0 ↔ 0 < sign a) ∧ (0 < sign' a ↔ sign a < 0)) :
    find sign' (mirror t) = find sign t := by
  induction t with
  | nil => rfl
  | node a l r left right =>
    obtain ⟨less,greater⟩ := turned a
    simp only [find,mirror_node,less,greater]
    by_cases low : sign a < 0
    · rw [if_pos low,if_neg (by omega),if_pos low,left]
    · rw [if_neg low,if_neg low,right]

/-- Insertion into the mirrored tree, by a sign function that points the other way. -/
theorem mirror_insert {sign sign' : α → Int} (x : α) (t : BinaryTree α)
    (turned : ∀ a, (sign' a < 0 ↔ 0 < sign a) ∧ (0 < sign' a ↔ sign a < 0)) :
    mirror (insert sign x t) = insert sign' x (mirror t) := by
  induction t with
  | nil => rfl
  | node a l r left right =>
    obtain ⟨less,greater⟩ := turned a
    simp only [insert,mirror_node,less,greater]
    by_cases low : sign a < 0
    · rw [if_pos low,if_neg (by omega),if_pos low,mirror_balanceLeft,left]
    · rw [if_neg low]
      by_cases high : 0 < sign a
      · rw [if_pos high,if_pos high,mirror_balanceRight,right]
      · rw [if_neg high,if_neg high,if_neg low,mirror_node]

theorem mirror_dropMin (t : BinaryTree α) : mirror (dropMin t) = dropMax (mirror t) := by
  induction t using dropMin.induct with
  | case1 => rfl
  | case2 a r => rfl
  | case3 a b ll lr r ih =>
    rw [dropMin,mirror_balanceRight,ih]
    rfl

end Xrossfire.Library.Avl
