import Xrossfire.Avltree.Reachable

/-! The tree as a sorted map of nodes.
The map is the in-order sequence of node addresses; each operation adds or drops
exactly the node it names, and every node keeps its key. -/
namespace Xrossfire.Avltree
open BinaryTree Library

variable {κ : Type} (compare : κ → κ → Int)

def InOrder (s : Store κ) (xs : List Addr) : Prop :=
  ∃ t, Rep s.nodes s.root t ∧ Avl.inorder t = xs

def MapInsert (s : Store κ) (xs : List Addr) (node : Addr) (s' : Store κ) (inserted : Bool) : Prop :=
  (inserted = true ∧ (∀ a ∈ xs, s.nodes.key a ≠ s.nodes.key node) ∧
    ∃ low high, xs = low ++ high ∧ InOrder s' (low ++ node :: high) ∧
      (∀ a ∈ low, before compare s a node) ∧ (∀ a ∈ high, before compare s node a)) ∨
  (inserted = false ∧ (∃ a ∈ xs, s.nodes.key a = s.nodes.key node) ∧ s' = s)

def MapRemove (s : Store κ) (xs : List Addr) (key : κ) (s' : Store κ) : Option Addr → Prop
  | some n => s.nodes.key n = key ∧ ∃ low high, xs = low ++ n :: high ∧ InOrder s' (low ++ high)
  | none => (∀ a ∈ xs, s.nodes.key a ≠ key) ∧ s' = s

structure SortedMap (s : Store κ) (xs : List Addr) : Prop where
  sequence : InOrder s xs
  linked : ∀ a, Linked s.nodes s.root a ↔ a ∈ xs
  distinct : xs.Nodup
  insert : ∀ node, node ∉ xs → s.nodes.left node = none ∧ s.nodes.right node = none →
    ∃ s' inserted, Returns (fun fuel => insert compare fuel s node) (s',inserted) ∧
      MapInsert compare s xs node s' inserted ∧ s'.nodes.key = s.nodes.key
  remove : ∀ key, ∃ s' removed, Returns (fun fuel => remove compare fuel s key) (s',removed) ∧
    MapRemove s xs key s' removed ∧ s'.nodes.key = s.nodes.key
  getMin : Returns (fun fuel => getMin fuel s) xs.head?
  getMax : Returns (fun fuel => getMax fuel s) xs.getLast?
  popMin : ∃ s', Returns (fun fuel => popMin fuel s) (s',xs.head?) ∧ InOrder s' xs.tail ∧
    s'.nodes.key = s.nodes.key
  popMax : ∃ s', Returns (fun fuel => popMax fuel s) (s',xs.getLast?) ∧ InOrder s' xs.dropLast ∧
    s'.nodes.key = s.nodes.key
  removeMin : xs ≠ [] → ∃ s', Returns (fun fuel => removeMin fuel s) s' ∧ InOrder s' xs.tail ∧
    s'.nodes.key = s.nodes.key
  removeMax : xs ≠ [] → ∃ s', Returns (fun fuel => removeMax fuel s) s' ∧ InOrder s' xs.dropLast ∧
    s'.nodes.key = s.nodes.key
  count : Returns (fun fuel => count fuel s) (xs.length : Int)

variable {compare}

theorem inserted_map {s s' : Store κ} {t t' : BinaryTree Addr} {node : Addr} {inserted : Bool}
    (result : Inserted compare s t node s' t' inserted) :
    MapInsert compare s (Avl.inorder t) node s' inserted := by
  cases inserted with
  | true =>
    obtain ⟨absent,low,high,old,new,above,below⟩ := result.fresh rfl
    exact Or.inl ⟨rfl,absent,low,high,old,⟨t',result.holds.rep,new⟩,above,below⟩
  | false =>
    obtain ⟨taken,same,-⟩ := result.taken rfl
    exact Or.inr ⟨rfl,taken,same⟩

theorem removed_map {s s' : Store κ} {t t' : BinaryTree Addr} {key : κ} {removed : Option Addr}
    (result : Removed compare s t key s' t' removed) :
    MapRemove s (Avl.inorder t) key s' removed := by
  cases removed with
  | none =>
    obtain ⟨absent,same,-⟩ := result.missing rfl
    exact ⟨absent,same⟩
  | some n =>
    obtain ⟨carried,low,high,old,new⟩ := result.found n rfl
    exact ⟨carried,low,high,old,⟨t',result.holds.rep,new⟩⟩

theorem root_of_nonempty {s : Store κ} {t : BinaryTree Addr} (holds : Holds compare s t)
    (nonempty : Avl.inorder t ≠ []) : s.root ≠ none := by
  intro empty
  rw [root_nil holds empty] at nonempty
  exact nonempty rfl

theorem holds_sortedMap (order : StrictTotal compare) {s : Store κ} {t : BinaryTree Addr}
    (holds : Holds compare s t) : SortedMap compare s (Avl.inorder t) where
  sequence := ⟨t,holds.rep,rfl⟩
  linked := linked_iff _ _ t holds.rep
  distinct := holds.distinct order
  insert node fresh leaf := by
    obtain ⟨s',t',inserted,run,result⟩ := insert_holds order holds node fresh leaf
    exact ⟨s',inserted,run,inserted_map result,result.frame.key⟩
  remove key := by
    obtain ⟨s',t',removed,run,result⟩ := remove_holds order holds key
    exact ⟨s',removed,run,removed_map result,result.frame.key⟩
  getMin := getMin_holds holds
  getMax := getMax_holds holds
  popMin := by
    obtain ⟨s',run,rest,frame⟩ := popMin_holds order holds
    exact ⟨s',run,⟨_,rest.rep,Avl.inorder_dropMin t⟩,frame.key⟩
  popMax := by
    obtain ⟨s',run,rest,frame⟩ := popMax_holds order holds
    exact ⟨s',run,⟨_,rest.rep,Avl.inorder_dropMax t⟩,frame.key⟩
  removeMin nonempty := by
    obtain ⟨s',run,rest,frame⟩ := removeMin_holds order holds (root_of_nonempty holds nonempty)
    exact ⟨s',run,⟨_,rest.rep,Avl.inorder_dropMin t⟩,frame.key⟩
  removeMax nonempty := by
    obtain ⟨s',run,rest,frame⟩ := removeMax_holds order holds (root_of_nonempty holds nonempty)
    exact ⟨s',run,⟨_,rest.rep,Avl.inorder_dropMax t⟩,frame.key⟩
  count := count_holds holds

/-- In every reachable store the operations refine a sorted map of nodes; no node is lost,
duplicated or replaced by another. -/
theorem reachable_sortedMap (order : StrictTotal compare) (s : Store κ) (reach : Reachable compare s) :
    ∃ xs, SortedMap compare s xs := by
  obtain ⟨t,holds⟩ := reachable_holds order reach
  exact ⟨Avl.inorder t,holds_sortedMap order holds⟩

theorem reachable_sortedMap_pruned : ∃ s, s.root = some 4 ∧ s.nodes.left 4 = some 1 ∧
    ∃ xs, SortedMap difference s xs := by
  obtain ⟨s,reach,root,left,-⟩ := pruned_reachable
  exact ⟨s,root,left,reachable_sortedMap difference_order s reach⟩

end Xrossfire.Avltree
