import Mathlib

/-! Height-balanced binary trees over arbitrary node values.
The operations search by a sign function on node values, so one definition
serves every key order; heights are the real ones, never stored numbers. -/
namespace Xrossfire.Library.Avl
open BinaryTree

variable {α : Type}

def inorder : BinaryTree α → List α
  | .nil => []
  | .node a l r => inorder l ++ a :: inorder r

@[simp] theorem inorder_nil : inorder (nil : BinaryTree α) = [] := rfl

@[simp] theorem inorder_node (a : α) (l r : BinaryTree α) :
    inorder (node a l r) = inorder l ++ a :: inorder r := rfl

theorem inorder_length (t : BinaryTree α) : (inorder t).length = t.numNodes := by
  induction t with
  | nil => rfl
  | node a l r left right => simp only [inorder_node,List.length_append,List.length_cons,numNodes]; omega

def top : BinaryTree α → Option α
  | .nil => none
  | .node a _ _ => some a

def below : BinaryTree α → List α
  | .nil => []
  | .node _ l r => inorder l ++ inorder r

theorem mem_inorder (t : BinaryTree α) (b : α) : b ∈ inorder t ↔ b ∈ top t ∨ b ∈ below t := by
  cases t with
  | nil => simp [top,below]
  | node a l r =>
    simp only [inorder_node,List.mem_append,List.mem_cons,top,below,Option.mem_some_iff,eq_comm (a := a)]
    exact or_left_comm

theorem pairwise_node {rel : α → α → Prop} (trans : ∀ a b c, rel a b → rel b c → rel a c) (a : α)
    (l r : BinaryTree α) : (inorder (node a l r)).Pairwise rel ↔ (∀ b ∈ inorder l, rel b a) ∧
      (∀ b ∈ inorder r, rel a b) ∧ (inorder l).Pairwise rel ∧ (inorder r).Pairwise rel := by
  rw [inorder_node,List.pairwise_append,List.pairwise_cons]
  constructor
  · rintro ⟨left,⟨after,right⟩,cross⟩
    exact ⟨fun b member => cross b member a List.mem_cons_self,after,left,right⟩
  · rintro ⟨earlier,after,left,right⟩
    refine ⟨left,⟨after,right⟩,?_⟩
    intro b member c other
    rcases List.mem_cons.mp other with rfl | other
    · exact earlier b member
    · exact trans b a c (earlier b member) (after c other)

def Balanced : BinaryTree α → Prop
  | .nil => True
  | .node _ l r => Balanced l ∧ Balanced r ∧ l.height ≤ r.height + 1 ∧ r.height ≤ l.height + 1

@[simp] theorem balanced_nil : Balanced (nil : BinaryTree α) := trivial

theorem balanced_node (a : α) (l r : BinaryTree α) : Balanced (node a l r) ↔
    Balanced l ∧ Balanced r ∧ l.height ≤ r.height + 1 ∧ r.height ≤ l.height + 1 := Iff.rfl

def bias : BinaryTree α → Int
  | .nil => 0
  | .node _ l r => l.height - r.height

def rotateLeft : BinaryTree α → BinaryTree α
  | .node a l (.node c rl rr) => .node c (.node a l rl) rr
  | t => t

def rotateRight : BinaryTree α → BinaryTree α
  | .node a (.node b ll lr) r => .node b ll (.node a lr r)
  | t => t

def balanceLeft (a : α) (l r : BinaryTree α) : BinaryTree α :=
  if r.height + 2 ≤ l.height then
    if 0 ≤ bias l then rotateRight (node a l r) else rotateRight (node a (rotateLeft l) r)
  else node a l r

def balanceRight (a : α) (l r : BinaryTree α) : BinaryTree α :=
  if l.height + 2 ≤ r.height then
    if bias r ≤ 0 then rotateLeft (node a l r) else rotateLeft (node a l (rotateRight r))
  else node a l r

theorem inorder_rotateLeft (t : BinaryTree α) : inorder (rotateLeft t) = inorder t := by
  rcases t with _ | ⟨a,l,_ | ⟨c,rl,rr⟩⟩ <;> simp [rotateLeft]

theorem inorder_rotateRight (t : BinaryTree α) : inorder (rotateRight t) = inorder t := by
  rcases t with _ | ⟨a,_ | ⟨b,ll,lr⟩,r⟩ <;> simp [rotateRight]

@[simp] theorem inorder_balanceLeft (a : α) (l r : BinaryTree α) :
    inorder (balanceLeft a l r) = inorder l ++ a :: inorder r := by
  unfold balanceLeft
  split_ifs
  · rw [inorder_rotateRight,inorder_node]
  · rw [inorder_rotateRight,inorder_node,inorder_rotateLeft]
  · rfl

@[simp] theorem inorder_balanceRight (a : α) (l r : BinaryTree α) :
    inorder (balanceRight a l r) = inorder l ++ a :: inorder r := by
  unfold balanceRight
  split_ifs
  · rw [inorder_rotateLeft,inorder_node]
  · rw [inorder_rotateLeft,inorder_node,inorder_rotateRight]
  · rfl

theorem balanceLeft_of_le (a : α) (l r : BinaryTree α) (close : l.height ≤ r.height + 1) :
    balanceLeft a l r = node a l r := if_neg (by omega)

theorem balanceRight_of_le (a : α) (l r : BinaryTree α) (close : r.height ≤ l.height + 1) :
    balanceRight a l r = node a l r := if_neg (by omega)

theorem balanceLeft_single (a b : α) (ll lr r : BinaryTree α)
    (high : r.height + 2 ≤ (node b ll lr).height) (outer : lr.height ≤ ll.height) :
    balanceLeft a (node b ll lr) r = node b ll (node a lr r) := by
  unfold balanceLeft
  rw [if_pos high,if_pos (by simp only [bias]; omega)]
  rfl

theorem balanceLeft_double (a b c : α) (ll lrl lrr r : BinaryTree α)
    (high : r.height + 2 ≤ (node b ll (node c lrl lrr)).height)
    (inner : ll.height < (node c lrl lrr).height) :
    balanceLeft a (node b ll (node c lrl lrr)) r = node c (node b ll lrl) (node a lrr r) := by
  unfold balanceLeft
  rw [if_pos high,if_neg (by simp only [bias]; omega)]
  rfl

theorem balanceRight_single (a c : α) (l rl rr : BinaryTree α)
    (high : l.height + 2 ≤ (node c rl rr).height) (outer : rl.height ≤ rr.height) :
    balanceRight a l (node c rl rr) = node c (node a l rl) rr := by
  unfold balanceRight
  rw [if_pos high,if_pos (by simp only [bias]; omega)]
  rfl

theorem balanceRight_double (a b c : α) (l rll rlr rr : BinaryTree α)
    (high : l.height + 2 ≤ (node c (node b rll rlr) rr).height)
    (inner : rr.height < (node b rll rlr).height) :
    balanceRight a l (node c (node b rll rlr) rr) = node b (node a l rll) (node c rlr rr) := by
  unfold balanceRight
  rw [if_pos high,if_neg (by simp only [bias]; omega)]
  rfl

/-- One rotation restores balance, and the height is that of the higher side or one more. -/
theorem balanceLeft_balanced (a : α) (l r : BinaryTree α) (left : Balanced l) (right : Balanced r)
    (above : l.height ≤ r.height + 2) (under : r.height ≤ l.height + 1) :
    Balanced (balanceLeft a l r) ∧ ((balanceLeft a l r).height = max l.height r.height + 1 ∨
      (balanceLeft a l r).height = l.height ∧ l.height = r.height + 2) := by
  by_cases close : l.height ≤ r.height + 1
  · rw [balanceLeft_of_le a l r close]
    exact ⟨⟨left,right,close,under⟩,Or.inl rfl⟩
  rcases l with _ | ⟨b,ll,lr⟩
  · simp at close
  obtain ⟨hll,hlr,first,second⟩ := left
  by_cases outer : lr.height ≤ ll.height
  · rw [balanceLeft_single a b ll lr r (by omega) outer]
    simp only [balanced_node,height,hll,hlr,right,true_and] at close above under ⊢
    omega
  rcases lr with _ | ⟨c,lrl,lrr⟩
  · simp at outer
  obtain ⟨hlrl,hlrr,third,fourth⟩ := hlr
  rw [balanceLeft_double a b c ll lrl lrr r (by omega) (by omega)]
  simp only [balanced_node,height,hll,hlrl,hlrr,right,true_and] at first second outer close above under ⊢
  omega

theorem balanceRight_balanced (a : α) (l r : BinaryTree α) (left : Balanced l) (right : Balanced r)
    (above : r.height ≤ l.height + 2) (under : l.height ≤ r.height + 1) :
    Balanced (balanceRight a l r) ∧ ((balanceRight a l r).height = max l.height r.height + 1 ∨
      (balanceRight a l r).height = r.height ∧ r.height = l.height + 2) := by
  by_cases close : r.height ≤ l.height + 1
  · rw [balanceRight_of_le a l r close]
    exact ⟨⟨left,right,under,close⟩,Or.inl rfl⟩
  rcases r with _ | ⟨c,rl,rr⟩
  · simp at close
  obtain ⟨hrl,hrr,first,second⟩ := right
  by_cases outer : rl.height ≤ rr.height
  · rw [balanceRight_single a c l rl rr (by omega) outer]
    simp only [balanced_node,height,hrl,hrr,left,true_and] at close above under ⊢
    omega
  rcases rl with _ | ⟨b,rll,rlr⟩
  · simp at outer
  obtain ⟨hrll,hrlr,third,fourth⟩ := hrl
  rw [balanceRight_double a b c l rll rlr rr (by omega) (by omega)]
  simp only [balanced_node,height,hrll,hrlr,hrr,left,true_and] at first second outer close above under ⊢
  omega

/-! ## Operations -/

/-- Put `x` at the place the sign function points to; a node with sign zero keeps the tree as it is. -/
def insert (sign : α → Int) (x : α) : BinaryTree α → BinaryTree α
  | .nil => .node x .nil .nil
  | .node a l r =>
    if sign a < 0 then balanceLeft a (insert sign x l) r
    else if 0 < sign a then balanceRight a l (insert sign x r)
    else .node a l r

def find (sign : α → Int) : BinaryTree α → Option α
  | .nil => none
  | .node a l r =>
    if sign a < 0 then find sign l else if 0 < sign a then find sign r else some a

def dropMin : BinaryTree α → BinaryTree α
  | .nil => .nil
  | .node _ .nil r => r
  | .node a (.node b ll lr) r => balanceRight a (dropMin (.node b ll lr)) r

def dropMax : BinaryTree α → BinaryTree α
  | .nil => .nil
  | .node _ l .nil => l
  | .node a l (.node c rl rr) => balanceLeft a l (dropMax (.node c rl rr))

def promote (l r : BinaryTree α) : BinaryTree α :=
  match (inorder l).getLast? with
  | none => r
  | some m => balanceRight m (dropMax l) r

def remove (sign : α → Int) : BinaryTree α → BinaryTree α
  | .nil => .nil
  | .node a l r =>
    if sign a < 0 then balanceRight a (remove sign l) r
    else if 0 < sign a then balanceLeft a l (remove sign r)
    else promote l r

theorem inorder_dropMin (t : BinaryTree α) : inorder (dropMin t) = (inorder t).tail := by
  induction t using dropMin.induct with
  | case1 => rfl
  | case2 a r => simp [dropMin]
  | case3 a b ll lr r ih =>
    have nonempty : inorder (node b ll lr) ≠ [] := by simp
    rw [dropMin,inorder_balanceRight,ih,inorder_node a,List.tail_append_of_ne_nil nonempty]

theorem inorder_dropMax (t : BinaryTree α) : inorder (dropMax t) = (inorder t).dropLast := by
  induction t using dropMax.induct with
  | case1 => rfl
  | case2 a l => simp [dropMax]
  | case3 a l c rl rr ih =>
    have nonempty : inorder (node c rl rr) ≠ [] := by simp
    rw [dropMax,inorder_balanceLeft,ih,inorder_node a,List.dropLast_append_of_ne_nil (by simp),
      List.dropLast_cons_of_ne_nil nonempty]

theorem dropMin_sublist (t : BinaryTree α) : (inorder (dropMin t)).Sublist (inorder t) := by
  rw [inorder_dropMin]
  exact List.tail_sublist _

theorem dropMax_sublist (t : BinaryTree α) : (inorder (dropMax t)).Sublist (inorder t) := by
  rw [inorder_dropMax]
  exact List.dropLast_sublist _

theorem inorder_promote (l r : BinaryTree α) : inorder (promote l r) = inorder l ++ inorder r := by
  unfold promote
  split
  · rename_i none
    rw [List.getLast?_eq_none_iff.mp none,List.nil_append]
  · rename_i m last
    have whole := List.dropLast_append_getLast? m last
    rw [inorder_balanceRight,inorder_dropMax]
    conv_rhs => rw [← whole]
    simp

/-! ## Height and balance -/

theorem insert_balanced (sign : α → Int) (x : α) (t : BinaryTree α) (balanced : Balanced t) :
    Balanced (insert sign x t) ∧ t.height ≤ (insert sign x t).height ∧
      (insert sign x t).height ≤ t.height + 1 := by
  induction t with
  | nil => simp [insert,balanced_node]
  | node a l r left right =>
    obtain ⟨bl,br,first,second⟩ := balanced
    simp only [insert]
    split_ifs with less greater
    · obtain ⟨grown,low,high⟩ := left bl
      obtain ⟨result,size⟩ := balanceLeft_balanced a _ r grown br (by omega) (by omega)
      exact ⟨result,by simp only [height]; omega,by simp only [height]; omega⟩
    · obtain ⟨grown,low,high⟩ := right br
      obtain ⟨result,size⟩ := balanceRight_balanced a l _ bl grown (by omega) (by omega)
      exact ⟨result,by simp only [height]; omega,by simp only [height]; omega⟩
    · exact ⟨⟨bl,br,first,second⟩,by simp,by simp⟩

theorem dropMin_balanced (t : BinaryTree α) (balanced : Balanced t) :
    Balanced (dropMin t) ∧ (dropMin t).height ≤ t.height ∧ t.height ≤ (dropMin t).height + 1 := by
  induction t using dropMin.induct with
  | case1 => simp [dropMin]
  | case2 a r =>
    obtain ⟨-,br,-,-⟩ := balanced
    exact ⟨br,by simp [dropMin],by simp [dropMin]⟩
  | case3 a b ll lr r ih =>
    obtain ⟨bl,br,first,second⟩ := balanced
    obtain ⟨shrunk,low,high⟩ := ih bl
    obtain ⟨result,size⟩ := balanceRight_balanced a _ r shrunk br (by omega) (by omega)
    rw [dropMin]
    exact ⟨result,by rw [height.eq_2]; omega,by rw [height.eq_2]; omega⟩

theorem dropMax_balanced (t : BinaryTree α) (balanced : Balanced t) :
    Balanced (dropMax t) ∧ (dropMax t).height ≤ t.height ∧ t.height ≤ (dropMax t).height + 1 := by
  induction t using dropMax.induct with
  | case1 => simp [dropMax]
  | case2 a l =>
    obtain ⟨bl,-,-,-⟩ := balanced
    exact ⟨bl,by simp [dropMax],by simp [dropMax]⟩
  | case3 a l c rl rr ih =>
    obtain ⟨bl,br,first,second⟩ := balanced
    obtain ⟨shrunk,low,high⟩ := ih br
    obtain ⟨result,size⟩ := balanceLeft_balanced a l _ bl shrunk (by omega) (by omega)
    rw [dropMax]
    exact ⟨result,by rw [height.eq_2]; omega,by rw [height.eq_2]; omega⟩

theorem promote_balanced (l r : BinaryTree α) (left : Balanced l) (right : Balanced r)
    (first : l.height ≤ r.height + 1) (second : r.height ≤ l.height + 1) :
    Balanced (promote l r) ∧ (promote l r).height ≤ max l.height r.height + 1 ∧
      max l.height r.height ≤ (promote l r).height := by
  unfold promote
  split
  · rename_i none
    have empty : l = nil := by
      cases l with
      | nil => rfl
      | node b ll lr => simp at none
    subst empty
    exact ⟨right,by simp,by simp⟩
  · obtain ⟨shrunk,low,high⟩ := dropMax_balanced l left
    obtain ⟨result,size⟩ := balanceRight_balanced ‹α› (dropMax l) r shrunk right (by omega) (by omega)
    exact ⟨result,by omega,by omega⟩

theorem remove_balanced (sign : α → Int) (t : BinaryTree α) (balanced : Balanced t) :
    Balanced (remove sign t) ∧ (remove sign t).height ≤ t.height ∧
      t.height ≤ (remove sign t).height + 1 := by
  induction t with
  | nil => simp [remove]
  | node a l r left right =>
    obtain ⟨bl,br,first,second⟩ := balanced
    simp only [remove]
    split_ifs with less greater
    · obtain ⟨shrunk,low,high⟩ := left bl
      obtain ⟨result,size⟩ := balanceRight_balanced a _ r shrunk br (by omega) (by omega)
      exact ⟨result,by simp only [height]; omega,by simp only [height]; omega⟩
    · obtain ⟨shrunk,low,high⟩ := right br
      obtain ⟨result,size⟩ := balanceLeft_balanced a l _ bl shrunk (by omega) (by omega)
      exact ⟨result,by simp only [height]; omega,by simp only [height]; omega⟩
    · obtain ⟨result,upper,lower⟩ := promote_balanced l r bl br first second
      exact ⟨result,by simp only [height]; omega,by simp only [height]; omega⟩

/-- A balanced tree has as many nodes as the thinnest one of its height. -/
theorem fib_le_numNodes (t : BinaryTree α) (balanced : Balanced t) :
    Nat.fib (t.height + 2) ≤ t.numNodes + 1 := by
  induction t with
  | nil => simp
  | node a l r left right =>
    obtain ⟨bl,br,first,second⟩ := balanced
    have low := left bl
    have high := right br
    have split (h : Nat) : Nat.fib (h + 1 + 2) = Nat.fib (h + 1) + Nat.fib (h + 2) := Nat.fib_add_two
    simp only [height,numNodes,split]
    rcases le_total l.height r.height with le | le
    · have thin : Nat.fib (r.height + 1) ≤ Nat.fib (l.height + 2) := Nat.fib_mono (by omega)
      rw [max_eq_right le]
      omega
    · have thin : Nat.fib (l.height + 1) ≤ Nat.fib (r.height + 2) := Nat.fib_mono (by omega)
      rw [max_eq_left le]
      omega

/-! ## Search order -/

/-- Along the list the sign falls through zero at most once: positive entries, then at most one
zero, then negative ones. -/
def Sided (sign : α → Int) (xs : List α) : Prop := xs.Pairwise (fun a b => sign a ≤ 0 → sign b < 0)

theorem sided_node (sign : α → Int) (a : α) (l r : BinaryTree α) :
    Sided sign (inorder (node a l r)) ↔ Sided sign (inorder l) ∧ Sided sign (inorder r) ∧
      (∀ b ∈ inorder r, sign a ≤ 0 → sign b < 0) ∧ (∀ b ∈ inorder l, sign b ≤ 0 → sign a < 0) ∧
      (∀ b ∈ inorder l, ∀ c ∈ inorder r, sign b ≤ 0 → sign c < 0) := by
  simp only [Sided,inorder_node,List.pairwise_append,List.pairwise_cons,List.mem_cons]
  constructor
  · rintro ⟨left,⟨first,right⟩,cross⟩
    exact ⟨left,right,first,fun b hb => cross b hb a (Or.inl rfl),
      fun b hb c hc => cross b hb c (Or.inr hc)⟩
  · rintro ⟨left,right,first,second,third⟩
    refine ⟨left,⟨first,right⟩,fun b hb c hc => ?_⟩
    rcases hc with rfl | hc
    · exact second b hb
    · exact third b hb c hc

theorem find_mem (sign : α → Int) (t : BinaryTree α) (n : α) (found : find sign t = some n) :
    n ∈ inorder t ∧ sign n = 0 := by
  induction t with
  | nil => simp [find] at found
  | node a l r left right =>
    simp only [find] at found
    split_ifs at found with less greater
    · exact ⟨by simp [(left found).1],(left found).2⟩
    · exact ⟨by simp [(right found).1],(right found).2⟩
    · cases found
      exact ⟨by simp,by omega⟩

theorem find_none (sign : α → Int) (t : BinaryTree α) (sided : Sided sign (inorder t))
    (missing : find sign t = none) : ∀ n ∈ inorder t, sign n ≠ 0 := by
  induction t with
  | nil => simp
  | node a l r left right =>
    obtain ⟨hl,hr,after,before,-⟩ := (sided_node sign a l r).mp sided
    simp only [find] at missing
    intro n member
    simp only [inorder_node,List.mem_append,List.mem_cons] at member
    split_ifs at missing with less greater
    · rcases member with member | rfl | member
      · exact left hl missing n member
      · omega
      · have := after n member (by omega); omega
    · rcases member with member | rfl | member
      · intro zero
        have := before n member (by omega)
        omega
      · omega
      · exact right hr missing n member

theorem find_some (sign : α → Int) (t : BinaryTree α) (sided : Sided sign (inorder t)) {n : α}
    (member : n ∈ inorder t) (zero : sign n = 0) : find sign t = some n := by
  induction t with
  | nil => cases member
  | node a l r left right =>
    obtain ⟨hl,hr,after,before,-⟩ := (sided_node sign a l r).mp sided
    simp only [inorder_node,List.mem_append,List.mem_cons] at member
    simp only [find]
    rcases member with member | rfl | member
    · rw [if_pos (before n member (by omega))]
      exact left hl member
    · rw [if_neg (by omega),if_neg (by omega)]
    · have less := after n member
      rw [if_neg (by omega),if_pos (by omega)]
      exact right hr member

theorem insert_perm (sign : α → Int) (x : α) (t : BinaryTree α) (missing : find sign t = none) :
    (inorder (insert sign x t)).Perm (x :: inorder t) := by
  induction t with
  | nil => simp [insert]
  | node a l r left right =>
    simp only [find] at missing
    simp only [insert]
    split_ifs at missing ⊢ with less greater
    · rw [inorder_balanceLeft]
      exact (left missing).append_right _
    · rw [inorder_balanceRight]
      exact (((right missing).cons a).append_left _).trans
        (((List.Perm.swap x a _).append_left _).trans List.perm_middle)

theorem insert_same (sign : α → Int) (x : α) (t : BinaryTree α) (found : find sign t ≠ none) :
    inorder (insert sign x t) = inorder t := by
  induction t with
  | nil => simp [find] at found
  | node a l r left right =>
    simp only [find] at found
    simp only [insert]
    split_ifs at found ⊢ with less greater
    · rw [inorder_balanceLeft,left found,inorder_node]
    · rw [inorder_balanceRight,right found,inorder_node]
    · rfl

theorem insert_subset (sign : α → Int) (x : α) (t : BinaryTree α) :
    inorder (insert sign x t) ⊆ x :: inorder t := by
  by_cases missing : find sign t = none
  · exact (insert_perm sign x t missing).subset
  · rw [insert_same sign x t missing]
    exact List.subset_cons_self x _

theorem insert_nodup (sign : α → Int) (x : α) (t : BinaryTree α) (distinct : (inorder t).Nodup)
    (fresh : x ∉ inorder t) : (inorder (insert sign x t)).Nodup := by
  by_cases missing : find sign t = none
  · exact (insert_perm sign x t missing).nodup_iff.mpr (List.nodup_cons.mpr ⟨fresh,distinct⟩)
  · rwa [insert_same sign x t missing]

theorem remove_sublist (sign : α → Int) (t : BinaryTree α) :
    (inorder (remove sign t)).Sublist (inorder t) := by
  induction t with
  | nil => exact List.Sublist.refl _
  | node a l r left right =>
    simp only [remove]
    split_ifs with less greater
    · rw [inorder_balanceRight,inorder_node]
      exact left.append (List.Sublist.refl _)
    · rw [inorder_balanceLeft,inorder_node]
      exact (List.Sublist.refl _).append (right.cons_cons a)
    · rw [inorder_promote,inorder_node]
      exact (List.Sublist.refl _).append (List.sublist_cons_self a _)

theorem insert_absent (sign : α → Int) (x : α) (t : BinaryTree α) (sided : Sided sign (inorder t))
    (absent : ∀ a ∈ inorder t, sign a ≠ 0) :
    ∃ before after, inorder t = before ++ after ∧ inorder (insert sign x t) = before ++ x :: after ∧
      (∀ a ∈ before, 0 < sign a) ∧ (∀ a ∈ after, sign a < 0) := by
  induction t with
  | nil => exact ⟨[],[],rfl,rfl,by simp,by simp⟩
  | node a l r left right =>
    obtain ⟨hl,hr,later,earlier,-⟩ := (sided_node sign a l r).mp sided
    simp only [insert]
    split_ifs with less greater
    · obtain ⟨before,after,old,new,low,high⟩ := left hl (fun b hb => absent b (by simp [hb]))
      refine ⟨before,after ++ a :: inorder r,by simp [old],by simp [new],low,?_⟩
      intro b hb
      simp only [List.mem_append,List.mem_cons] at hb
      rcases hb with hb | rfl | hb
      · exact high b hb
      · exact less
      · exact later b hb (by omega)
    · obtain ⟨before,after,old,new,low,high⟩ := right hr (fun b hb => absent b (by simp [hb]))
      refine ⟨inorder l ++ a :: before,after,by simp [old],by simp [new],?_,high⟩
      intro b hb
      simp only [List.mem_append,List.mem_cons] at hb
      rcases hb with hb | rfl | hb
      · by_contra small
        have := earlier b hb (by omega)
        omega
      · exact greater
      · exact low b hb
    · exact absurd (show sign a = 0 by omega) (absent a (by simp))

theorem insert_present (sign : α → Int) (x : α) (t : BinaryTree α) (balanced : Balanced t)
    (found : find sign t ≠ none) : insert sign x t = t := by
  induction t with
  | nil => simp [find] at found
  | node a l r left right =>
    obtain ⟨bl,br,first,second⟩ := balanced
    simp only [find] at found
    simp only [insert]
    split_ifs at found ⊢ with less greater
    · rw [left bl found,balanceLeft_of_le a l r first]
    · rw [right br found,balanceRight_of_le a l r second]
    · rfl

theorem remove_present (sign : α → Int) (t : BinaryTree α) (n : α) (found : find sign t = some n) :
    ∃ before after, inorder t = before ++ n :: after ∧ inorder (remove sign t) = before ++ after := by
  induction t with
  | nil => simp [find] at found
  | node a l r left right =>
    simp only [find] at found
    simp only [remove]
    split_ifs at found ⊢ with less greater
    · obtain ⟨before,after,old,new⟩ := left found
      exact ⟨before,after ++ a :: inorder r,by simp [old],by simp [new]⟩
    · obtain ⟨before,after,old,new⟩ := right found
      exact ⟨inorder l ++ a :: before,after,by simp [old],by simp [new]⟩
    · cases found
      exact ⟨inorder l,inorder r,rfl,inorder_promote l r⟩

/-- Removal by the first key drops the minimum. -/
theorem remove_head (sign : α → Int) (t : BinaryTree α) (sided : Sided sign (inorder t)) {n : α}
    (least : (inorder t).head? = some n) (zero : sign n = 0) : remove sign t = dropMin t := by
  induction t using dropMin.induct with
  | case1 => rfl
  | case2 a r =>
    cases least
    simp only [remove]
    rw [if_neg (by omega),if_neg (by omega)]
    rfl
  | case3 a b ll lr r ih =>
    obtain ⟨hl,-,-,before,-⟩ := (sided_node sign a _ r).mp sided
    have least' : (inorder (node b ll lr)).head? = some n := by
      rw [inorder_node a,List.head?_append_of_ne_nil _ (by simp)] at least
      exact least
    have less := before n (List.mem_of_mem_head? least') (by omega)
    rw [remove,if_pos less,ih hl least']
    rfl

/-- Removal by the last key drops the maximum. -/
theorem remove_last (sign : α → Int) (t : BinaryTree α) (balanced : Balanced t) (sided : Sided sign (inorder t))
    {n : α} (greatest : (inorder t).getLast? = some n) (zero : sign n = 0) : remove sign t = dropMax t := by
  induction t using dropMax.induct with
  | case1 => rfl
  | case2 a l =>
    obtain ⟨-,-,low,-⟩ := balanced
    simp only [inorder_node,inorder_nil,List.getLast?_append,List.getLast?_singleton,Option.some_or] at greatest
    cases greatest
    rw [remove,if_neg (by omega),if_neg (by omega),dropMax]
    -- the promoted node is the only one on the left
    rcases l with _ | ⟨b,_ | ⟨c,cl,cr⟩,_ | ⟨d,dl,dr⟩⟩
    · rfl
    · rfl
    all_goals
      simp only [height] at low
      omega
  | case3 a l c rl rr ih =>
    obtain ⟨-,br,-,-⟩ := balanced
    obtain ⟨-,hr,after,-,-⟩ := (sided_node sign a l _).mp sided
    have greatest' : (inorder (node c rl rr)).getLast? = some n := by
      rw [inorder_node a,List.getLast?_append_of_ne_nil _ (by simp),List.getLast?_cons_of_ne_nil (by simp)] at greatest
      exact greatest
    have less := after n (List.mem_of_mem_getLast? greatest')
    rw [remove,if_neg (by omega),if_pos (by omega),ih br hr greatest']
    rfl

theorem remove_absent (sign : α → Int) (t : BinaryTree α) (balanced : Balanced t)
    (missing : find sign t = none) : remove sign t = t := by
  induction t with
  | nil => rfl
  | node a l r left right =>
    obtain ⟨bl,br,first,second⟩ := balanced
    simp only [find] at missing
    simp only [remove]
    split_ifs at missing ⊢ with less greater
    · rw [left bl missing,balanceRight_of_le a l r second]
    · rw [right br missing,balanceLeft_of_le a l r first]

end Xrossfire.Library.Avl
