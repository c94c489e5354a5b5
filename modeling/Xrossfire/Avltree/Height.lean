import Xrossfire.Avltree.Reachable

/-! How high a reachable tree is, and how deep the operations recurse on it. The
fuel of an operation counts its activations that are open at a time. -/
namespace Xrossfire.Avltree
open BinaryTree Library

variable {κ : Type} (compare : κ → κ → Int)

/-- The root stores the height `h`; the tree has the nodes that it takes, and no operation has more than
`h + 1` activations open. -/
structure Shallow (s : Store κ) (h : Nat) : Prop where
  height : getHeight s.nodes s.root = h
  count : ∃ n : Nat, Returns (fun fuel => count fuel s) (n : Int) ∧ Nat.fib (h + 2) ≤ n + 1
  insertNode : ∀ node, ¬Linked s.nodes s.root node → s.nodes.left node = none ∧ s.nodes.right node = none →
    ∃ r, insertNode compare (h + 1) s.nodes s.root node = some r
  removeKey : ∀ key, ∃ r, removeKey compare (h + 1) s.nodes s.root key = some r
  popMinNode : ∀ root ∈ s.root, ∃ r, popMinNode (h + 1) s.nodes root = some r
  popMaxNode : ∀ root ∈ s.root, ∃ r, popMaxNode (h + 1) s.nodes root = some r
  removeMinNode : ∀ root ∈ s.root, ∃ r, removeMinNode (h + 1) s.nodes root = some r
  removeMaxNode : ∀ root ∈ s.root, ∃ r, removeMaxNode (h + 1) s.nodes root = some r

variable {compare}

theorem holds_shallow (order : StrictTotal compare) {s : Store κ} {t : BinaryTree Addr}
    (holds : Holds compare s t) : Shallow compare s t.height := by
  have distinct := holds.distinct order
  have popMin : ∀ root ∈ s.root, ∃ r, popMinNode (t.height + 1) s.nodes root = some r := by
    intro root here
    obtain ⟨l,r,rfl⟩ := root_node holds here
    obtain ⟨m',p',min,changed,run,-⟩ := popMinNode_spec _ s.nodes root l r (by rw [← here]; exact holds.rep) distinct
      holds.balanced (Nat.lt_succ_of_lt (Nat.lt_succ_self _))
    exact ⟨_,run⟩
  have popMax : ∀ root ∈ s.root, ∃ r, popMaxNode (t.height + 1) s.nodes root = some r := by
    intro root here
    obtain ⟨l,r,rfl⟩ := root_node holds here
    obtain ⟨m',p',max,changed,run,-⟩ := popMaxNode_spec _ s.nodes root l r (by rw [← here]; exact holds.rep) distinct
      holds.balanced (Nat.lt_succ_of_lt (Nat.lt_succ_self _))
    exact ⟨_,run⟩
  refine ⟨getHeight_rep _ _ t holds.rep,⟨_,count_holds holds,?_⟩,?_,?_,popMin,popMax,?_,?_⟩
  · rw [Avl.inorder_length]
    exact Avl.fib_le_numNodes t holds.balanced
  · intro node fresh leaf
    rw [linked_iff _ _ t holds.rep] at fresh
    obtain ⟨m',p',inserted,changed,run,-⟩ := insertNode_spec compare _ s.nodes s.root t node holds.rep distinct
      holds.balanced fresh leaf (Nat.lt_succ_self _)
    exact ⟨_,run⟩
  · intro key
    obtain ⟨m',p',removed,run,-⟩ := removeKey_spec compare _ s.nodes s.root t key holds.rep distinct holds.balanced
      (Nat.lt_succ_self _)
    exact ⟨_,run⟩
  · intro root here
    obtain ⟨r,run⟩ := popMin root here
    exact ⟨_,by rw [removeMinNode_eq,run]; rfl⟩
  · intro root here
    obtain ⟨r,run⟩ := popMax root here
    exact ⟨_,by rw [removeMaxNode_eq,run]; rfl⟩

/-- The height of a reachable tree is logarithmic, and it bounds the recursion of the operations. -/
theorem reachable_shallow (order : StrictTotal compare) (s : Store κ) (reach : Reachable compare s) :
    ∃ h, Shallow compare s h := by
  obtain ⟨t,holds⟩ := reachable_holds order reach
  exact ⟨t.height,holds_shallow order holds⟩

theorem reachable_shallow_pruned : ∃ s, s.root = some 4 ∧ s.nodes.left 4 = some 1 ∧
    ∃ h, Shallow difference s h := by
  obtain ⟨s,reach,root,left,-⟩ := pruned_reachable
  exact ⟨s,root,left,reachable_shallow difference_order s reach⟩

end Xrossfire.Avltree
