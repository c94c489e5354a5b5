import Xrossfire.Avltree.Deletion
import Xrossfire.Library.Mirror

/-! The two sides of `avltree.h`: an operation on the left does to a tree what its
counterpart on the right does to the mirrored tree under the reversed comparison. -/
namespace Xrossfire.Avltree
open BinaryTree Library

variable {κ : Type}

def Nodes.mirror (m : Nodes κ) : Nodes κ := {m with left := m.right, right := m.left}

def Store.mirror (s : Store κ) : Store κ := ⟨s.nodes.mirror,s.root⟩

def reversed (compare : κ → κ → Int) (a b : κ) : Int := compare b a

theorem rep_mirror {m : Nodes κ} {p : Option Addr} {t : BinaryTree Addr} (rep : Rep m p t) :
    Rep m.mirror p (Avl.mirror t) := by
  induction t generalizing p with
  | nil => exact rep
  | node a l r left right =>
    obtain ⟨here,high,repl,repr⟩ := rep
    refine ⟨here,?_,right repr,left repl⟩
    rw [← Avl.mirror_node,Avl.height_mirror]
    exact high

theorem reversed_order {compare : κ → κ → Int} (order : StrictTotal compare) : StrictTotal (reversed compare) where
  zero a b := (order.zero b a).trans eq_comm
  swap a b := order.swap b a
  trans a b c first second := order.trans c b a second first

theorem holds_mirror {compare : κ → κ → Int} {s : Store κ} {t : BinaryTree Addr} (holds : Holds compare s t) :
    Holds (reversed compare) s.mirror (Avl.mirror t) where
  rep := rep_mirror holds.rep
  balanced := Avl.balanced_mirror holds.balanced
  sorted := by
    rw [Avl.inorder_mirror,List.pairwise_reverse]
    exact holds.sorted

variable (compare : κ → κ → Int)

structure Symmetric (s : Store κ) : Prop where
  insert : ∀ node, ¬Linked s.nodes s.root node → s.nodes.left node = none ∧ s.nodes.right node = none →
    ∃ s' u inserted, Returns (fun fuel => insert compare fuel s node) (s',inserted) ∧
      Returns (fun fuel => Avltree.insert (reversed compare) fuel s.mirror node) (u,inserted) ∧ SameTree s' u.mirror
  popMin : ∃ s' u min, Returns (fun fuel => popMin fuel s) (s',min) ∧
    Returns (fun fuel => popMax fuel s.mirror) (u,min) ∧ SameTree s' u.mirror
  removeMin : s.root ≠ none → ∃ s' u, Returns (fun fuel => removeMin fuel s) s' ∧
    Returns (fun fuel => removeMax fuel s.mirror) u ∧ SameTree s' u.mirror

variable {compare}

/-- The tree that an insertion leaves. -/
theorem insert_rep (order : StrictTotal compare) {s : Store κ} {t : BinaryTree Addr} (holds : Holds compare s t)
    (node : Addr) (fresh : node ∉ Avl.inorder t) (leaf : s.nodes.left node = none ∧ s.nodes.right node = none) :
    ∃ s', Returns (fun fuel => insert compare fuel s node)
        (s',(Avl.find (sign compare s.nodes (s.nodes.key node)) t).isNone) ∧
      Rep s'.nodes s'.root (Avl.insert (sign compare s.nodes (s.nodes.key node)) node t) ∧
      s'.nodes.key = s.nodes.key := by
  obtain ⟨m',p',inserted,changed,run,result,rfl,-⟩ := insertNode_spec compare (t.height + 1) s.nodes s.root t node
    holds.rep (holds.distinct order) holds.balanced fresh leaf (Nat.lt_succ_self _)
  refine ⟨⟨m',p'⟩,(insert_settles compare s node).returns ⟨t.height + 1,?_⟩,result.rep,result.frame.key⟩
  simp only [insert,run]
  rfl

theorem holds_symmetric (order : StrictTotal compare) {s : Store κ} {t : BinaryTree Addr}
    (holds : Holds compare s t) : Symmetric compare s where
  insert node fresh leaf := by
    rw [linked_iff _ _ t holds.rep] at fresh
    have turned (a : Addr) : (sign (reversed compare) s.nodes.mirror (s.nodes.key node) a < 0 ↔
        0 < sign compare s.nodes (s.nodes.key node) a) ∧
        (0 < sign (reversed compare) s.nodes.mirror (s.nodes.key node) a ↔
          sign compare s.nodes (s.nodes.key node) a < 0) :=
      ⟨order.swap _ _,(order.swap _ _).symm⟩
    obtain ⟨s',run,rep,keys⟩ := insert_rep order holds node fresh leaf
    obtain ⟨u,run',rep',keys'⟩ := insert_rep (reversed_order order) (holds_mirror holds) node
      (by rwa [Avl.inorder_mirror,List.mem_reverse]) ⟨leaf.2,leaf.1⟩
    have same := Avl.find_mirror t turned
    have image := Avl.mirror_insert node t turned
    rw [show s.mirror.nodes.key node = s.nodes.key node from rfl] at run' rep'
    rw [show s.mirror.nodes = s.nodes.mirror from rfl] at run' rep'
    rw [same] at run'
    rw [← image] at rep'
    refine ⟨s',u,_,run,run',rep_sameTree rep ?_ (keys'.trans keys.symm)⟩
    have back := rep_mirror rep'
    rwa [Avl.mirror_mirror] at back
  popMin := by
    obtain ⟨s',run,rest,frame⟩ := popMin_holds order holds
    obtain ⟨u,run',rest',frame'⟩ := popMax_holds (reversed_order order) (holds_mirror holds)
    rw [← Avl.mirror_dropMin] at rest'
    rw [Avl.inorder_mirror,List.getLast?_reverse] at run'
    refine ⟨s',u,_,run,run',rep_sameTree rest.rep ?_ (frame'.key.trans frame.key.symm)⟩
    have rep := rep_mirror rest'.rep
    rwa [Avl.mirror_mirror] at rep
  removeMin nonempty := by
    obtain ⟨s',run,rest,frame⟩ := removeMin_holds order holds nonempty
    obtain ⟨u,run',rest',frame'⟩ := removeMax_holds (reversed_order order) (holds_mirror holds) nonempty
    rw [← Avl.mirror_dropMin] at rest'
    refine ⟨s',u,run,run',rep_sameTree rest.rep ?_ (frame'.key.trans frame.key.symm)⟩
    have rep := rep_mirror rest'.rep
    rwa [Avl.mirror_mirror] at rep

/-- The left and the right of a reachable tree are handled alike. -/
theorem reachable_symmetric (order : StrictTotal compare) (s : Store κ) (reach : Reachable compare s) :
    Symmetric compare s := by
  obtain ⟨t,holds⟩ := reachable_holds order reach
  exact holds_symmetric order holds

theorem reachable_symmetric_pruned : ∃ s, s.root = some 4 ∧ s.nodes.left 4 = some 1 ∧
    Symmetric difference s := by
  obtain ⟨s,reach,root,left,-⟩ := pruned_reachable
  exact ⟨s,root,left,reachable_symmetric difference_order s reach⟩

end Xrossfire.Avltree
