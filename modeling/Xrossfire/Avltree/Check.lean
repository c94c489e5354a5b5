import Xrossfire.Avltree.Reachable

/-! The tree's self-check `check` and `balanced` on arbitrary trees. The check
compares a node with its children only, and lets a right child carry its parent's
key; what it accepts is a search tree when nothing deeper is out of order. -/
namespace Xrossfire.Avltree
open Library

variable {κ : Type}

def countHeightNode : Nat → Nodes κ → Option Addr → Option Int
  | 0,_,_ => none
  | _ + 1,_,none => some 0
  | fuel + 1,m,some node => do
    let left ← countHeightNode fuel m (m.left node)
    let right ← countHeightNode fuel m (m.right node)
    return max_ left right + 1

def balancedNode : Nat → Nodes κ → Option Addr → Option Bool
  | 0,_,_ => none
  | _ + 1,_,none => some true
  | fuel + 1,m,some node =>
    let bias := bias m (some node)
    if ¬(-1 ≤ bias ∧ bias ≤ 1) then some false
    else do
      let left ← balancedNode fuel m (m.left node)
      if left then balancedNode fuel m (m.right node) else return false

variable (compare : κ → κ → Int)

def checkNode : Nat → Nodes κ → Option Addr → Option Bool
  | 0,_,_ => none
  | _ + 1,_,none => some true
  | fuel + 1,m,some node =>
    if ∃ left ∈ m.left node, ¬compare (m.key left) (m.key node) < 0 then some false
    else if ∃ right ∈ m.right node, ¬compare (m.key node) (m.key right) ≤ 0 then some false
    else do
      let height ← countHeightNode (fuel + 1) m (some node)
      if height ≠ m.height node then return false
      else
        let left ← checkNode fuel m (m.left node)
        if left then checkNode fuel m (m.right node) else return false

def countHeight (fuel : Nat) (s : Store κ) : Option Int := countHeightNode fuel s.nodes s.root

def balanced (fuel : Nat) (s : Store κ) : Option Bool := balancedNode fuel s.nodes s.root

def check (fuel : Nat) (s : Store κ) : Option Bool := checkNode compare fuel s.nodes s.root

/-! ## What the two tests decide -/

open BinaryTree

def Shaped (m : Nodes κ) : Option Addr → BinaryTree Addr → Prop
  | p,.nil => p = none
  | p,.node a l r => p = some a ∧ Shaped m (m.left a) l ∧ Shaped m (m.right a) r

def RealHeights (m : Nodes κ) : BinaryTree Addr → Prop
  | .nil => True
  | .node a l r => m.height a = ((node a l r).height : Int) ∧ RealHeights m l ∧ RealHeights m r

/-- Every child is in order with its parent; the key of a right child may be the parent's. -/
def ChildrenInOrder (m : Nodes κ) : BinaryTree Addr → Prop
  | .nil => True
  | .node a l r => (∀ b ∈ Avl.top l, compare (m.key b) (m.key a) < 0) ∧
      (∀ c ∈ Avl.top r, compare (m.key a) (m.key c) ≤ 0) ∧ ChildrenInOrder m l ∧ ChildrenInOrder m r

/-- Somewhere a right child has its parent's key, or a node under a child is on the wrong side. -/
def Hidden (m : Nodes κ) : BinaryTree Addr → Prop
  | .nil => False
  | .node a l r => (∃ c ∈ Avl.top r, compare (m.key a) (m.key c) = 0) ∨
      (∃ b ∈ Avl.below l, ¬compare (m.key b) (m.key a) < 0) ∨
      (∃ c ∈ Avl.below r, ¬compare (m.key a) (m.key c) < 0) ∨ Hidden m l ∨ Hidden m r

theorem rep_iff (m : Nodes κ) (p : Option Addr) (t : BinaryTree Addr) :
    Rep m p t ↔ Shaped m p t ∧ RealHeights m t := by
  induction t generalizing p with
  | nil => simp [Rep,Shaped,RealHeights]
  | node a l r left right =>
    simp only [Rep,Shaped,RealHeights,left,right]
    tauto

theorem shaped_unique (m : Nodes κ) (p : Option Addr) (t u : BinaryTree Addr) (first : Shaped m p t)
    (second : Shaped m p u) : t = u := by
  induction t generalizing p u with
  | nil =>
    cases u with
    | nil => rfl
    | node b l r => exact absurd (first.symm.trans second.1) (by simp)
  | node a l r left right =>
    cases u with
    | nil => exact absurd (first.1.symm.trans second) (by simp)
    | node b l' r' =>
      obtain ⟨here,repl,repr⟩ := first
      obtain ⟨there,repl',repr'⟩ := second
      cases here.symm.trans there
      rw [left _ _ repl repl',right _ _ repr repr']

theorem shaped_top (m : Nodes κ) (p : Option Addr) (t : BinaryTree Addr) (shaped : Shaped m p t) : p = Avl.top t := by
  cases t with
  | nil => exact shaped
  | node a l r => exact shaped.1

theorem countHeightNode_spec (fuel : Nat) (m : Nodes κ) (p : Option Addr) (t : BinaryTree Addr)
    (shaped : Shaped m p t) (enough : t.height < fuel) : countHeightNode fuel m p = some (t.height : Int) := by
  induction fuel generalizing p t with
  | zero => omega
  | succ fuel ih =>
    cases t with
    | nil =>
      cases shaped
      rfl
    | node a l r =>
      obtain ⟨rfl,left,right⟩ := shaped
      simp only [height] at enough
      simp only [countHeightNode,ih _ l left (by omega),ih _ r right (by omega),Option.bind_eq_bind,
        Option.bind_some,Option.pure_def,Option.some.injEq,max_eq,height]
      omega

/-- With real heights stored, the bias test is the balance of the tree. -/
theorem balancedNode_spec (fuel : Nat) (m : Nodes κ) (p : Option Addr) (t : BinaryTree Addr)
    (shaped : Shaped m p t) (enough : t.height < fuel) :
    ∃ even, balancedNode fuel m p = some even ∧ (RealHeights m t → (even = true ↔ Avl.Balanced t)) := by
  induction fuel generalizing p t with
  | zero => omega
  | succ fuel ih =>
    cases t with
    | nil =>
      cases shaped
      exact ⟨true,rfl,by simp⟩
    | node a l r =>
      obtain ⟨rfl,left,right⟩ := id shaped
      simp only [height] at enough
      obtain ⟨evenLeft,runLeft,decidesLeft⟩ := ih _ l left (by omega)
      obtain ⟨evenRight,runRight,decidesRight⟩ := ih _ r right (by omega)
      have measured (real : RealHeights m (node a l r)) : bias m (some a) = l.height - r.height :=
        bias_node m a l r ((rep_iff m _ _).mpr ⟨shaped,real⟩)
      simp only [balancedNode,runLeft,runRight,Option.bind_eq_bind,Option.bind_some]
      by_cases flat : -1 ≤ bias m (some a) ∧ bias m (some a) ≤ 1
      · rw [if_neg (not_not.mpr flat)]
        by_cases inside : evenLeft = true
        · rw [if_pos inside]
          refine ⟨evenRight,rfl,fun real => ?_⟩
          rw [measured real] at flat
          rw [Avl.balanced_node,decidesRight real.2.2]
          have even := (decidesLeft real.2.1).mp inside
          constructor
          · intro other
            exact ⟨even,other,by omega,by omega⟩
          · intro whole
            exact whole.2.1
        · rw [if_neg inside]
          refine ⟨false,rfl,fun real => ⟨fun impossible => (by cases impossible),fun whole => ?_⟩⟩
          exact absurd ((decidesLeft real.2.1).mpr whole.1) inside
      · rw [if_pos flat]
        refine ⟨false,rfl,fun real => ⟨fun impossible => (by cases impossible),fun whole => ?_⟩⟩
        obtain ⟨-,-,first,second⟩ := whole
        rw [measured real] at flat
        omega

theorem checkNode_spec (fuel : Nat) (m : Nodes κ) (p : Option Addr) (t : BinaryTree Addr)
    (shaped : Shaped m p t) (enough : t.height < fuel) :
    ∃ checked, checkNode compare fuel m p = some checked ∧
      (checked = true ↔ ChildrenInOrder compare m t ∧ RealHeights m t) := by
  induction fuel generalizing p t with
  | zero => omega
  | succ fuel ih =>
    cases t with
    | nil =>
      cases shaped
      exact ⟨true,rfl,by simp [ChildrenInOrder,RealHeights]⟩
    | node a l r =>
      have counted := countHeightNode_spec (fuel + 1) m p _ shaped enough
      obtain ⟨rfl,left,right⟩ := shaped
      simp only [height] at enough
      obtain ⟨checkedLeft,runLeft,decidesLeft⟩ := ih _ l left (by omega)
      obtain ⟨checkedRight,runRight,decidesRight⟩ := ih _ r right (by omega)
      simp only [checkNode,counted,runLeft,runRight,Option.bind_eq_bind,Option.bind_some]
      rw [shaped_top m _ l left,shaped_top m _ r right]
      simp only [ChildrenInOrder,RealHeights]
      by_cases before : ∃ b ∈ Avl.top l, ¬compare (m.key b) (m.key a) < 0
      · rw [if_pos before]
        obtain ⟨b,child,wrong⟩ := before
        exact ⟨false,rfl,by simp,fun whole => absurd (whole.1.1 b child) wrong⟩
      rw [if_neg before]
      by_cases after : ∃ c ∈ Avl.top r, ¬compare (m.key a) (m.key c) ≤ 0
      · rw [if_pos after]
        obtain ⟨c,child,wrong⟩ := after
        exact ⟨false,rfl,by simp,fun whole => absurd (whole.1.2.1 c child) wrong⟩
      rw [if_neg after]
      by_cases high : ((node a l r).height : Int) = m.height a
      · rw [if_neg (not_not.mpr high)]
        push Not at before after
        by_cases inside : checkedLeft = true
        · rw [if_pos inside]
          obtain ⟨orderLeft,realLeft⟩ := decidesLeft.mp inside
          refine ⟨checkedRight,rfl,decidesRight.trans ⟨?_,?_⟩⟩
          · rintro ⟨orderRight,realRight⟩
            exact ⟨⟨before,after,orderLeft,orderRight⟩,high.symm,realLeft,realRight⟩
          · rintro ⟨⟨-,-,-,orderRight⟩,-,-,realRight⟩
            exact ⟨orderRight,realRight⟩
        · rw [if_neg inside]
          refine ⟨false,rfl,by simp,fun whole => ?_⟩
          exact absurd (decidesLeft.mpr ⟨whole.1.2.2.1,whole.2.2.1⟩) inside
      · rw [if_pos high]
        exact ⟨false,rfl,by simp,fun whole => absurd whole.2.1.symm high⟩

/-- A tree is sorted when its children are in order and nothing deeper is out of order. -/
theorem sorted_iff (order : StrictTotal compare) (s : Store κ) (t : BinaryTree Addr) :
    (Avl.inorder t).Pairwise (before compare s) ↔
      ChildrenInOrder compare s.nodes t ∧ ¬Hidden compare s.nodes t := by
  induction t with
  | nil => simp [ChildrenInOrder,Hidden]
  | node a l r left right =>
    have trans (a b c : Addr) (first : before compare s a b) (second : before compare s b c) : before compare s a c :=
      order.trans _ _ _ first second
    rw [Avl.pairwise_node trans,left,right]
    simp only [ChildrenInOrder,Hidden,Avl.mem_inorder,before,not_or]
    constructor
    · rintro ⟨earlier,after,⟨orderLeft,plainLeft⟩,orderRight,plainRight⟩
      refine ⟨⟨fun b child => earlier b (Or.inl child),fun c child => le_of_lt (after c (Or.inl child)),orderLeft,
        orderRight⟩,?_,?_,?_,plainLeft,plainRight⟩
      · rintro ⟨c,child,same⟩
        exact absurd (after c (Or.inl child)) (by omega)
      · rintro ⟨b,deep,wrong⟩
        exact wrong (earlier b (Or.inr deep))
      · rintro ⟨c,deep,wrong⟩
        exact wrong (after c (Or.inr deep))
    · rintro ⟨⟨first,second,orderLeft,orderRight⟩,apart,deepLeft,deepRight,plainLeft,plainRight⟩
      push Not at apart deepLeft deepRight
      refine ⟨?_,?_,⟨orderLeft,plainLeft⟩,orderRight,plainRight⟩
      · rintro b (child | deep)
        · exact first b child
        · exact deepLeft b deep
      · rintro c (child | deep)
        · exact lt_of_le_of_ne (second c child) (apart c child)
        · exact deepRight c deep

theorem holds_iff (order : StrictTotal compare) {s : Store κ} {t : BinaryTree Addr} (shaped : Shaped s.nodes s.root t) :
    (∃ u, Holds compare s u) ↔ RealHeights s.nodes t ∧ Avl.Balanced t ∧ ChildrenInOrder compare s.nodes t ∧
      ¬Hidden compare s.nodes t := by
  rw [← sorted_iff compare order]
  constructor
  · rintro ⟨u,rep,even,sorted⟩
    obtain ⟨same,real⟩ := (rep_iff _ _ _).mp rep
    cases shaped_unique _ _ _ _ shaped same
    exact ⟨real,even,sorted⟩
  · rintro ⟨real,even,sorted⟩
    exact ⟨t,(rep_iff _ _ _).mpr ⟨shaped,real⟩,even,sorted⟩

/-! ## The self-check against the validity of the tree -/

theorem countHeightNode_succ (fuel : Nat) (m : Nodes κ) (p : Option Addr) (r : Int)
    (run : countHeightNode fuel m p = some r) : countHeightNode (fuel + 1) m p = some r := by
  induction fuel generalizing p r with
  | zero => cases run
  | succ fuel ih =>
    cases p with
    | none => exact run
    | some node =>
      simp only [countHeightNode,Option.bind_eq_bind] at run ⊢
      obtain ⟨x,first,rest⟩ := Option.bind_eq_some_iff.mp run
      obtain ⟨y,second,last⟩ := Option.bind_eq_some_iff.mp rest
      exact Option.bind_eq_some_iff.mpr ⟨x,ih _ _ first,Option.bind_eq_some_iff.mpr ⟨y,ih _ _ second,last⟩⟩

theorem balancedNode_succ (fuel : Nat) (m : Nodes κ) (p : Option Addr) (r : Bool)
    (run : balancedNode fuel m p = some r) : balancedNode (fuel + 1) m p = some r := by
  induction fuel generalizing p r with
  | zero => cases run
  | succ fuel ih =>
    cases p with
    | none => exact run
    | some node =>
      simp only [balancedNode,Option.bind_eq_bind] at run ⊢
      split_ifs at run ⊢ with flat
      · obtain ⟨x,first,rest⟩ := Option.bind_eq_some_iff.mp run
        refine Option.bind_eq_some_iff.mpr ⟨x,ih _ _ first,?_⟩
        split_ifs at rest ⊢ with inside
        · exact ih _ _ rest
        · exact rest
      · exact run

theorem checkNode_succ (fuel : Nat) (m : Nodes κ) (p : Option Addr) (r : Bool)
    (run : checkNode compare fuel m p = some r) : checkNode compare (fuel + 1) m p = some r := by
  induction fuel generalizing p r with
  | zero => cases run
  | succ fuel ih =>
    cases p with
    | none => exact run
    | some node =>
      rw [checkNode] at run ⊢
      simp only [Option.bind_eq_bind] at run ⊢
      split_ifs at run ⊢ with before after
      · exact run
      · exact run
      · obtain ⟨x,count,rest⟩ := Option.bind_eq_some_iff.mp run
        refine Option.bind_eq_some_iff.mpr ⟨x,countHeightNode_succ _ _ _ _ count,?_⟩
        split_ifs at rest ⊢ with high
        · exact rest
        · obtain ⟨y,first,last⟩ := Option.bind_eq_some_iff.mp rest
          refine Option.bind_eq_some_iff.mpr ⟨y,ih _ _ first,?_⟩
          split_ifs at last ⊢ with inside
          · exact ih _ _ last
          · exact last

theorem check_settles (s : Store κ) : Settles (fun fuel => check compare fuel s) :=
  fun fuel r run => checkNode_succ compare fuel s.nodes s.root r run

theorem balanced_settles (s : Store κ) : Settles (fun fuel => balanced fuel s) :=
  fun fuel r run => balancedNode_succ fuel s.nodes s.root r run

def SelfChecks (s : Store κ) : Prop :=
  ∃ checked even, Returns (fun fuel => check compare fuel s) checked ∧ Returns (fun fuel => balanced fuel s) even ∧
    ((checked = true ∧ even = true) ↔ ∃ t, Holds compare s t)

/-- The self-check is right on a tree exactly if nothing deeper than a child is out of order and no right child
has its parent's key, or the tree fails a test that the check makes. -/
theorem selfChecks_iff (order : StrictTotal compare) (s : Store κ) (t : BinaryTree Addr)
    (shaped : Shaped s.nodes s.root t) : SelfChecks compare s ↔
      ¬Hidden compare s.nodes t ∨ ¬ChildrenInOrder compare s.nodes t ∨ ¬RealHeights s.nodes t ∨ ¬Avl.Balanced t := by
  obtain ⟨checked,run,decides⟩ := checkNode_spec compare (t.height + 1) _ _ t shaped (Nat.lt_succ_self _)
  obtain ⟨even,runEven,decidesEven⟩ := balancedNode_spec (t.height + 1) _ _ t shaped (Nat.lt_succ_self _)
  have returns := (check_settles compare s).returns ⟨t.height + 1,run⟩
  have returnsEven := (balanced_settles s).returns ⟨t.height + 1,runEven⟩
  have accepted : (checked = true ∧ even = true) ↔
      ChildrenInOrder compare s.nodes t ∧ RealHeights s.nodes t ∧ Avl.Balanced t := by
    rw [decides]
    constructor
    · rintro ⟨⟨inOrder,real⟩,yes⟩
      exact ⟨inOrder,real,(decidesEven real).mp yes⟩
    · rintro ⟨inOrder,real,yes⟩
      exact ⟨⟨inOrder,real⟩,(decidesEven real).mpr yes⟩
  have verdict : SelfChecks compare s ↔ ((checked = true ∧ even = true) ↔ ∃ u, Holds compare s u) := by
    constructor
    · rintro ⟨c,e,first,second,agree⟩
      rwa [returns.2 c first.1,returnsEven.2 e second.1] at agree
    · intro agree
      exact ⟨checked,even,returns,returnsEven,agree⟩
  rw [verdict,accepted,holds_iff compare order shaped]
  constructor
  · intro agree
    by_contra missed
    push Not at missed
    obtain ⟨hidden,inOrder,real,even⟩ := missed
    exact (agree.mp ⟨inOrder,real,even⟩).2.2.2 hidden
  · intro seen
    constructor
    · rintro ⟨inOrder,real,even⟩
      refine ⟨real,even,inOrder,?_⟩
      rcases seen with plain | wrong | wrong | wrong
      · exact plain
      · exact absurd inOrder wrong
      · exact absurd real wrong
      · exact absurd even wrong
    · rintro ⟨real,even,inOrder,-⟩
      exact ⟨inOrder,real,even⟩

/-! Two trees that pass both tests: the right child has its parent's key; the right child of the left child
has a key above the root's. -/

def twins : Store Int :=
  ⟨⟨fun _ => none,fun a => if a = 0 then some 1 else none,fun a => if a = 0 then 2 else 1,fun _ => 1⟩,some 0⟩

def strayed : Store Int where
  root := some 0
  nodes := {
    left := fun a => if a = 0 then some 1 else none
    right := fun a => if a = 0 then some 2 else if a = 1 then some 3 else none
    height := fun a => if a = 0 then 3 else if a = 1 then 2 else 1
    key := fun a => if a = 0 then 10 else if a = 1 then 5 else if a = 2 then 15 else 20}

theorem twins_shaped : Shaped twins.nodes twins.root (node 0 nil (node 1 nil nil)) :=
  ⟨rfl,rfl,rfl,rfl,rfl⟩

theorem strayed_shaped :
    Shaped strayed.nodes strayed.root (node 0 (node 1 nil (node 3 nil nil)) (node 2 nil nil)) :=
  ⟨rfl,⟨rfl,rfl,rfl,rfl,rfl⟩,rfl,rfl,rfl⟩

theorem hidden_unsound {s : Store Int} {t : BinaryTree Addr} (shaped : Shaped s.nodes s.root t)
    (accepted : check difference 5 s = some true) (acceptedEven : balanced 5 s = some true)
    (hidden : Hidden difference s.nodes t) : ¬SelfChecks difference s := by
  rintro ⟨checked,even,first,second,agree⟩
  obtain ⟨-,-,-,plain⟩ := (holds_iff difference difference_order shaped).mp
    (agree.mp ⟨(first.2 true ⟨5,accepted⟩).symm,(second.2 true ⟨5,acceptedEven⟩).symm⟩)
  exact plain hidden

theorem check_overlooks :
    (Shaped twins.nodes twins.root (node 0 nil (node 1 nil nil)) ∧ ¬SelfChecks difference twins) ∧
    (Shaped strayed.nodes strayed.root (node 0 (node 1 nil (node 3 nil nil)) (node 2 nil nil)) ∧
      ¬SelfChecks difference strayed) := by
  refine ⟨⟨twins_shaped,?_⟩,strayed_shaped,?_⟩
  · exact hidden_unsound twins_shaped (by decide) (by decide) (Or.inl ⟨1,rfl,rfl⟩)
  · refine hidden_unsound strayed_shaped (by decide) (by decide) (Or.inr (Or.inl ⟨3,?_,?_⟩))
    · decide
    · decide

theorem selfChecks_iff_twins : SelfChecks difference twins ↔
    ¬Hidden difference twins.nodes (node 0 nil (node 1 nil nil)) ∨
    ¬ChildrenInOrder difference twins.nodes (node 0 nil (node 1 nil nil)) ∨
    ¬RealHeights twins.nodes (node 0 nil (node 1 nil nil)) ∨ ¬Avl.Balanced (node 0 nil (node 1 nil nil)) :=
  selfChecks_iff difference difference_order twins _ twins_shaped

end Xrossfire.Avltree
