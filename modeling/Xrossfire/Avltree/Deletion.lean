import Xrossfire.Avltree.Reachable

/-! The ways to delete a node: by its key, by its address, and the extremes. They
leave one tree. -/
namespace Xrossfire.Avltree
open BinaryTree Library

variable {κ : Type}

structure SameTree (s s' : Store κ) : Prop where
  root : s'.root = s.root
  nodes : ∀ a, Linked s.nodes s.root a → s'.nodes.left a = s.nodes.left a ∧ s'.nodes.right a = s.nodes.right a ∧
    s'.nodes.height a = s.nodes.height a ∧ s'.nodes.key a = s.nodes.key a

theorem rep_fields {m m' : Nodes κ} {p p' : Option Addr} {t : BinaryTree Addr} (rep : Rep m p t)
    (rep' : Rep m' p' t) : p' = p ∧ ∀ a ∈ Avl.inorder t,
      m'.left a = m.left a ∧ m'.right a = m.right a ∧ m'.height a = m.height a := by
  induction t generalizing p p' with
  | nil => exact ⟨rep'.trans rep.symm,fun a member => by cases member⟩
  | node b l r left right =>
    obtain ⟨here,high,repl,repr⟩ := rep
    obtain ⟨here',high',repl',repr'⟩ := rep'
    obtain ⟨sameLeft,insideLeft⟩ := left repl repl'
    obtain ⟨sameRight,insideRight⟩ := right repr repr'
    refine ⟨here'.trans here.symm,?_⟩
    intro a member
    simp only [Avl.inorder_node,List.mem_append,List.mem_cons] at member
    rcases member with member | rfl | member
    · exact insideLeft a member
    · exact ⟨sameLeft,sameRight,high'.trans high.symm⟩
    · exact insideRight a member

theorem rep_sameTree {s s' : Store κ} {t : BinaryTree Addr} (rep : Rep s.nodes s.root t)
    (rep' : Rep s'.nodes s'.root t) (keys : s'.nodes.key = s.nodes.key) : SameTree s s' := by
  obtain ⟨root,fields⟩ := rep_fields rep rep'
  refine ⟨root,?_⟩
  intro a linked
  obtain ⟨left,right,height⟩ := fields a ((linked_iff _ _ t rep a).mp linked)
  exact ⟨left,right,height,congrFun keys a⟩

variable (compare : κ → κ → Int)

theorem removeNode_succ (fuel : Nat) (m : Nodes κ) (p : Option Addr) (x : Addr)
    (r : Nodes κ × Option Addr × Bool) (run : removeNode compare fuel m p x = some r) :
    removeNode compare (fuel + 1) m p x = some r := by
  induction fuel generalizing m p r with
  | zero => cases run
  | succ fuel ih =>
    cases p with
    | none => exact run
    | some node =>
      simp only [removeNode,Option.bind_eq_bind] at run ⊢
      split_ifs at run ⊢ with less greater same
      · obtain ⟨y,call,rest⟩ := Option.bind_eq_some_iff.mp run
        exact Option.bind_eq_some_iff.mpr ⟨y,ih _ _ _ call,rest⟩
      · obtain ⟨y,call,rest⟩ := Option.bind_eq_some_iff.mp run
        exact Option.bind_eq_some_iff.mpr ⟨y,ih _ _ _ call,rest⟩
      · obtain ⟨y,call,rest⟩ := Option.bind_eq_some_iff.mp run
        exact Option.bind_eq_some_iff.mpr ⟨y,unlink_succ _ _ _ _ call,rest⟩
      · exact run

/-- A node that the search for its key finds is removed as its key is. -/
theorem removeNode_eq (fuel : Nat) (m : Nodes κ) (p : Option Addr) (t : BinaryTree Addr) (x : Addr)
    (rep : Rep m p t) (found : Avl.find (sign compare m (m.key x)) t = some x) :
    removeNode compare fuel m p x =
      (removeKey compare fuel m p (m.key x)).map (fun (m,p,removed) => (m,p,removed.isSome)) := by
  induction fuel generalizing p t with
  | zero => rfl
  | succ fuel ih =>
    cases t with
    | nil => cases found
    | node a l r =>
      obtain ⟨rfl,-,repl,repr⟩ := rep
      simp only [Avl.find] at found
      simp only [removeNode,removeKey]
      rw [show compare (m.key x) (m.key a) = sign compare m (m.key x) a from rfl]
      split_ifs at found ⊢ with less greater same
      · rw [ih _ l repl found]
        cases call : removeKey compare fuel m (m.left a) (m.key x) with
        | none => rfl
        | some result =>
          obtain ⟨m₁,p₁,removed⟩ := result
          cases removed with
          | none => rfl
          | some n =>
            simp only [Option.map_some,Option.bind_eq_bind,Option.bind_some,Option.isSome_some,if_true]
            cases balanceRight (m₁.setLeft a p₁) a false <;> rfl
      · rw [ih _ r repr found]
        cases call : removeKey compare fuel m (m.right a) (m.key x) with
        | none => rfl
        | some result =>
          obtain ⟨m₁,p₁,removed⟩ := result
          cases removed with
          | none => rfl
          | some n =>
            simp only [Option.map_some,Option.bind_eq_bind,Option.bind_some,Option.isSome_some,if_true]
            cases balanceLeft (m₁.setRight a p₁) a false <;> rfl
      · cases unlink fuel m a <;> rfl
      · exact absurd (Option.some.inj found) same

/-- A node outside the tree is not removed, whatever its key. -/
theorem removeNode_absent (fuel : Nat) (m : Nodes κ) (p : Option Addr) (t : BinaryTree Addr) (x : Addr)
    (rep : Rep m p t) (absent : x ∉ Avl.inorder t) (enough : t.height < fuel) :
    removeNode compare fuel m p x = some (m,p,false) := by
  induction fuel generalizing p t with
  | zero => omega
  | succ fuel ih =>
    cases t with
    | nil =>
      cases rep
      rfl
    | node a l r =>
      obtain ⟨rfl,-,repl,repr⟩ := rep
      simp only [Avl.inorder_node,List.mem_append,List.mem_cons,not_or] at absent
      have deep : l.height < fuel ∧ r.height < fuel := by
        simp only [height] at enough
        omega
      simp only [removeNode]
      split_ifs with less greater same
      · rw [ih _ l repl absent.1 deep.1]
        simp
      · rw [ih _ r repr absent.2.2 deep.2]
        simp
      · exact absurd same.symm absent.2.1
      · rfl

structure DeletionsAgree (s : Store κ) : Prop where
  min : s.root ≠ none → ∃ min low, Returns (fun fuel => getMin fuel s) (some min) ∧
    Returns (fun fuel => popMin fuel s) (low,some min) ∧
    (∃ s', Returns (fun fuel => removeMin fuel s) s' ∧ SameTree low s') ∧
    ∃ s', Returns (fun fuel => remove compare fuel s (s.nodes.key min)) (s',some min) ∧ SameTree low s'
  max : s.root ≠ none → ∃ max low, Returns (fun fuel => getMax fuel s) (some max) ∧
    Returns (fun fuel => popMax fuel s) (low,some max) ∧
    (∃ s', Returns (fun fuel => removeMax fuel s) s' ∧ SameTree low s') ∧
    ∃ s', Returns (fun fuel => remove compare fuel s (s.nodes.key max)) (s',some max) ∧ SameTree low s'
  node : ∀ x, Linked s.nodes s.root x → ∃ s',
    Returns (fun fuel => remove compare fuel s (s.nodes.key x)) (s',some x) ∧
    Returns (fun fuel => removeNode compare fuel s.nodes s.root x) (s'.nodes,s'.root,true)
  absent : ∀ x, ¬Linked s.nodes s.root x →
    Returns (fun fuel => removeNode compare fuel s.nodes s.root x) (s.nodes,s.root,false)

variable {compare}

/-- The removal of a node's key, with the tree it leaves. -/
theorem remove_member (order : StrictTotal compare) {s : Store κ} {t : BinaryTree Addr}
    (holds : Holds compare s t) {x : Addr} (member : x ∈ Avl.inorder t) :
    ∃ s', Returns (fun fuel => remove compare fuel s (s.nodes.key x)) (s',some x) ∧
      removeKey compare (t.height + 1) s.nodes s.root (s.nodes.key x) = some (s'.nodes,s'.root,some x) ∧
      Rep s'.nodes s'.root (Avl.remove (sign compare s.nodes (s.nodes.key x)) t) ∧
      s'.nodes.key = s.nodes.key := by
  obtain ⟨m',p',removed,run,rep',frame',flag,-⟩ := removeKey_spec compare (t.height + 1) s.nodes s.root t
    (s.nodes.key x) holds.rep (holds.distinct order) holds.balanced (Nat.lt_succ_self _)
  have zero : sign compare s.nodes (s.nodes.key x) x = 0 := (order.zero _ _).mpr rfl
  rw [Avl.find_some _ t (holds.sided order _) member zero] at flag
  subst flag
  refine ⟨⟨m',p'⟩,(remove_settles compare s _).returns ⟨t.height + 1,?_⟩,run,rep',frame'.key⟩
  simp only [remove,run]
  rfl

theorem holds_deletionsAgree (order : StrictTotal compare) {s : Store κ} {t : BinaryTree Addr}
    (holds : Holds compare s t) : DeletionsAgree compare s where
  min nonempty := by
    obtain ⟨b,here⟩ := Option.ne_none_iff_exists'.mp nonempty
    obtain ⟨l,r,rfl⟩ := root_node holds here
    obtain ⟨low,pop,rest,frame⟩ := popMin_holds order holds
    obtain ⟨s₁,drop,rest₁,frame₁⟩ := removeMin_holds order holds nonempty
    cases least : (Avl.inorder (node b l r)).head? with
    | none => simp at least
    | some min =>
      have member := List.mem_of_mem_head? least
      obtain ⟨s₂,run,-,rep₂,keys₂⟩ := remove_member order holds member
      rw [Avl.remove_head _ _ (holds.sided order _) least ((order.zero _ _).mpr rfl)] at rep₂
      have get := getMin_holds holds
      rw [least] at get pop
      exact ⟨min,low,get,pop,⟨s₁,drop,rep_sameTree rest.rep rest₁.rep (frame₁.key.trans frame.key.symm)⟩,
        s₂,run,rep_sameTree rest.rep rep₂ (keys₂.trans frame.key.symm)⟩
  max nonempty := by
    obtain ⟨b,here⟩ := Option.ne_none_iff_exists'.mp nonempty
    obtain ⟨l,r,rfl⟩ := root_node holds here
    obtain ⟨low,pop,rest,frame⟩ := popMax_holds order holds
    obtain ⟨s₁,drop,rest₁,frame₁⟩ := removeMax_holds order holds nonempty
    cases greatest : (Avl.inorder (node b l r)).getLast? with
    | none => simp at greatest
    | some max =>
      have member := List.mem_of_mem_getLast? greatest
      obtain ⟨s₂,run,-,rep₂,keys₂⟩ := remove_member order holds member
      rw [Avl.remove_last _ _ holds.balanced (holds.sided order _) greatest ((order.zero _ _).mpr rfl)] at rep₂
      have get := getMax_holds holds
      rw [greatest] at get pop
      exact ⟨max,low,get,pop,⟨s₁,drop,rep_sameTree rest.rep rest₁.rep (frame₁.key.trans frame.key.symm)⟩,
        s₂,run,rep_sameTree rest.rep rep₂ (keys₂.trans frame.key.symm)⟩
  node x linked := by
    have member := (linked_iff _ _ t holds.rep x).mp linked
    have settles : Settles (fun fuel => removeNode compare fuel s.nodes s.root x) :=
      fun fuel r => removeNode_succ compare fuel s.nodes s.root x r
    obtain ⟨s',run,call,-,-⟩ := remove_member order holds member
    refine ⟨s',run,settles.returns ⟨t.height + 1,?_⟩⟩
    change removeNode compare (t.height + 1) s.nodes s.root x = _
    rw [removeNode_eq compare _ _ _ t x holds.rep
      (Avl.find_some _ t (holds.sided order _) member ((order.zero _ _).mpr rfl)),call]
    rfl
  absent x out := by
    rw [linked_iff _ _ t holds.rep] at out
    have settles : Settles (fun fuel => removeNode compare fuel s.nodes s.root x) :=
      fun fuel r => removeNode_succ compare fuel s.nodes s.root x r
    exact settles.returns ⟨t.height + 1,removeNode_absent compare _ _ _ t x holds.rep out (Nat.lt_succ_self _)⟩

/-- On a reachable tree all ways to delete a node leave the same tree. -/
theorem reachable_deletionsAgree (order : StrictTotal compare) (s : Store κ) (reach : Reachable compare s) :
    DeletionsAgree compare s := by
  obtain ⟨t,holds⟩ := reachable_holds order reach
  exact holds_deletionsAgree order holds

theorem reachable_deletionsAgree_pruned : ∃ s, s.root = some 4 ∧ s.nodes.left 4 = some 1 ∧
    DeletionsAgree difference s := by
  obtain ⟨s,reach,root,left,-⟩ := pruned_reachable
  exact ⟨s,root,left,reachable_deletionsAgree difference_order s reach⟩

end Xrossfire.Avltree
