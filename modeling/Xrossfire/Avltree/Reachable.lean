import Xrossfire.Avltree.Depth
import Xrossfire.Avltree.Descent

/-! Runs of the tree operations from the empty tree.
A step is one operation, or a write of its owner to a node outside the tree.
Every reachable store holds a balanced search tree, and the operations act on
its in-order node sequence as on a sorted map, node identities included. -/
namespace Xrossfire.Avltree
open BinaryTree Library

variable {κ : Type}

/-- `XF_AVLTREE_COMPARE` is a strict total order on keys. -/
structure StrictTotal (compare : κ → κ → Int) : Prop where
  zero : ∀ a b, compare a b = 0 ↔ a = b
  swap : ∀ a b, compare a b < 0 ↔ 0 < compare b a
  trans : ∀ a b c, compare a b < 0 → compare b c < 0 → compare a c < 0

inductive Linked (m : Nodes κ) : Option Addr → Addr → Prop
  | here (a) : Linked m (some a) a
  | left (a b) (below : Linked m (m.left a) b) : Linked m (some a) b
  | right (a b) (below : Linked m (m.right a) b) : Linked m (some a) b

theorem linked_iff (m : Nodes κ) (p : Option Addr) (t : BinaryTree Addr) (rep : Rep m p t) (a : Addr) :
    Linked m p a ↔ a ∈ Avl.inorder t := by
  induction t generalizing p with
  | nil =>
    cases rep
    constructor
    · intro linked; cases linked
    · intro member; cases member
  | node b l r left right =>
    obtain ⟨rfl,-,repl,repr⟩ := rep
    simp only [Avl.inorder_node,List.mem_append,List.mem_cons]
    constructor
    · intro linked
      cases linked with
      | here => exact Or.inr (Or.inl rfl)
      | left _ _ below => exact Or.inl ((left _ repl).mp below)
      | right _ _ below => exact Or.inr (Or.inr ((right _ repr).mp below))
    · rintro (member | rfl | member)
      · exact .left _ _ ((left _ repl).mpr member)
      · exact .here _
      · exact .right _ _ ((right _ repr).mpr member)

theorem Linked.high {m : Nodes κ} {p : Option Addr} {a : Addr} (linked : Linked m p a)
    (t : BinaryTree Addr) (rep : Rep m p t) : 0 < m.height a := by
  induction linked generalizing t with
  | here a =>
    cases t with
    | nil => cases rep
    | node b l r =>
      obtain ⟨same,height,-⟩ := rep
      rw [Option.some_inj.mp same,height,BinaryTree.height]
      omega
  | left a b below ih =>
    cases t with
    | nil => cases rep
    | node c l r =>
      obtain ⟨same,-,repl,-⟩ := rep
      exact ih l (Option.some_inj.mp same ▸ repl)
  | right a b below ih =>
    cases t with
    | nil => cases rep
    | node c l r =>
      obtain ⟨same,-,-,repr⟩ := rep
      exact ih r (Option.some_inj.mp same ▸ repr)

variable (compare : κ → κ → Int)

def before (s : Store κ) (a b : Addr) : Prop := compare (s.nodes.key a) (s.nodes.key b) < 0

/-- The store holds the tree `t`: stored heights are real, sibling heights differ by at most one,
and the in-order keys strictly increase. -/
structure Holds (s : Store κ) (t : BinaryTree Addr) : Prop where
  rep : Rep s.nodes s.root t
  balanced : Avl.Balanced t
  sorted : (Avl.inorder t).Pairwise (before compare s)

inductive Step : Store κ → Store κ → Prop
  /-- The owner of nodes outside the tree writes to them; nodes of the tree keep their fields. -/
  | write (s) (m : Nodes κ) (same : ∀ a, Linked s.nodes s.root a → m.left a = s.nodes.left a ∧
      m.right a = s.nodes.right a ∧ m.height a = s.nodes.height a ∧ m.key a = s.nodes.key a) :
      Step s {s with nodes := m}
  | insert (s s' node inserted) (fresh : ¬Linked s.nodes s.root node)
      (leaf : s.nodes.left node = none ∧ s.nodes.right node = none)
      (run : Yields (fun fuel => insert compare fuel s node) (s',inserted)) : Step s s'
  | remove (s s' key removed) (run : Yields (fun fuel => remove compare fuel s key) (s',removed)) :
      Step s s'
  | popMin (s s' min) (run : Yields (fun fuel => popMin fuel s) (s',min)) : Step s s'
  | popMax (s s' max) (run : Yields (fun fuel => popMax fuel s) (s',max)) : Step s s'
  | removeMin (s s') (run : Yields (fun fuel => removeMin fuel s) s') : Step s s'
  | removeMax (s s') (run : Yields (fun fuel => removeMax fuel s) s') : Step s s'

def Reachable (s : Store κ) : Prop :=
  ∃ start : Store κ, Relation.ReflTransGen (Step compare) (init start) s

structure Inserted (s : Store κ) (t : BinaryTree Addr) (node : Addr) (s' : Store κ)
    (t' : BinaryTree Addr) (inserted : Bool) : Prop where
  holds : Holds compare s' t'
  frame : Frame s.nodes s'.nodes (node :: Avl.inorder t)
  fresh : inserted = true → (∀ a ∈ Avl.inorder t, s.nodes.key a ≠ s.nodes.key node) ∧
    ∃ low high, Avl.inorder t = low ++ high ∧ Avl.inorder t' = low ++ node :: high ∧
      (∀ a ∈ low, before compare s a node) ∧ (∀ a ∈ high, before compare s node a)
  taken : inserted = false → (∃ a ∈ Avl.inorder t, s.nodes.key a = s.nodes.key node) ∧ s' = s ∧ t' = t

structure Removed (s : Store κ) (t : BinaryTree Addr) (key : κ) (s' : Store κ)
    (t' : BinaryTree Addr) (removed : Option Addr) : Prop where
  holds : Holds compare s' t'
  frame : Frame s.nodes s'.nodes (Avl.inorder t)
  found : ∀ n, removed = some n → s.nodes.key n = key ∧
    ∃ low high, Avl.inorder t = low ++ n :: high ∧ Avl.inorder t' = low ++ high
  missing : removed = none → (∀ a ∈ Avl.inorder t, s.nodes.key a ≠ key) ∧ s' = s ∧ t' = t

variable {compare}

theorem StrictTotal.irrefl (order : StrictTotal compare) (a : κ) : ¬compare a a < 0 := by
  rw [(order.zero a a).mpr rfl]
  exact lt_irrefl 0

theorem Holds.distinct (order : StrictTotal compare) {s : Store κ} {t : BinaryTree Addr}
    (holds : Holds compare s t) : (Avl.inorder t).Nodup := by
  refine holds.sorted.imp ?_
  rintro a b less rfl
  exact order.irrefl _ less

theorem Holds.sided (order : StrictTotal compare) {s : Store κ} {t : BinaryTree Addr}
    (holds : Holds compare s t) (key : κ) : Avl.Sided (sign compare s.nodes key) (Avl.inorder t) := by
  refine holds.sorted.imp ?_
  intro a b less small
  by_cases same : sign compare s.nodes key a = 0
  · rw [sign,(order.zero _ _).mp same]
    exact less
  · exact order.trans _ _ _ (lt_of_le_of_ne small same) less

/-! ## Each operation on a store that holds a tree -/

theorem pairwise_insert {α : Type} {r : α → α → Prop} {low high : List α} {x : α}
    (pairs : (low ++ high).Pairwise r) (above : ∀ a ∈ low, r a x) (below : ∀ a ∈ high, r x a) :
    (low ++ x :: high).Pairwise r := by
  rw [List.pairwise_append] at pairs ⊢
  refine ⟨pairs.1,List.pairwise_cons.mpr ⟨below,pairs.2.1⟩,?_⟩
  intro a ha b hb
  rcases List.mem_cons.mp hb with rfl | hb
  · exact above a ha
  · exact pairs.2.2 a ha b hb

theorem sorted_frame {s u : Store κ} {xs touched : List Addr} (frame : Frame s.nodes u.nodes touched)
    (sorted : xs.Pairwise (before compare s)) : xs.Pairwise (before compare u) := by
  refine sorted.imp ?_
  intro a b less
  simpa only [before,frame.key] using less

theorem sign_pos (order : StrictTotal compare) (s : Store κ) (node a : Addr)
    (positive : 0 < sign compare s.nodes (s.nodes.key node) a) : before compare s a node :=
  (order.swap _ _).mpr positive

theorem insert_holds (order : StrictTotal compare) {s : Store κ} {t : BinaryTree Addr}
    (holds : Holds compare s t) (node : Addr) (fresh : node ∉ Avl.inorder t)
    (leaf : s.nodes.left node = none ∧ s.nodes.right node = none) :
    ∃ s' t' inserted, Returns (fun fuel => insert compare fuel s node) (s',inserted) ∧
      Inserted compare s t node s' t' inserted := by
  have distinct := holds.distinct order
  have sided := holds.sided order (s.nodes.key node)
  obtain ⟨m',p',inserted,changed,run,result,flag,idle⟩ := insertNode_spec compare (t.height + 1) s.nodes
    s.root t node holds.rep distinct holds.balanced fresh leaf (by omega)
  refine ⟨⟨m',p'⟩,Avl.insert (sign compare s.nodes (s.nodes.key node)) node t,inserted,
    (insert_settles compare s node).returns ⟨t.height + 1,?_⟩,?_⟩
  · simp only [insert,run]
    rfl
  by_cases missing : Avl.find (sign compare s.nodes (s.nodes.key node)) t = none
  · have absent := Avl.find_none _ t sided missing
    obtain ⟨low,high,old,new,positive,negative⟩ := Avl.insert_absent _ node t sided absent
    have above : ∀ a ∈ low, before compare s a node := fun a ha => sign_pos order s node a (positive a ha)
    have below : ∀ a ∈ high, before compare s node a := fun a ha => negative a ha
    refine ⟨⟨result.rep,(Avl.insert_balanced _ node t holds.balanced).1,?_⟩,result.frame,?_,?_⟩
    · have sorted := holds.sorted
      rw [old] at sorted
      rw [new]
      exact sorted_frame (u := ⟨m',p'⟩) result.frame (pairwise_insert sorted above below)
    · intro _
      refine ⟨?_,low,high,old,new,above,below⟩
      intro a ha same
      exact absent a ha ((order.zero _ _).mpr same.symm)
    · intro unset
      rw [flag,missing] at unset
      cases unset
  · obtain ⟨n,found⟩ := Option.ne_none_iff_exists'.mp missing
    rw [found] at flag
    obtain ⟨rfl,rfl,rfl⟩ := idle flag
    rw [Avl.insert_present _ node t holds.balanced missing]
    refine ⟨⟨holds.rep,holds.balanced,holds.sorted⟩,Frame.refl _ _,?_,?_⟩
    · intro set
      rw [flag] at set
      cases set
    · intro _
      obtain ⟨member,zero⟩ := Avl.find_mem _ t n found
      exact ⟨⟨n,member,((order.zero _ _).mp zero).symm⟩,rfl,rfl⟩

theorem remove_holds (order : StrictTotal compare) {s : Store κ} {t : BinaryTree Addr}
    (holds : Holds compare s t) (key : κ) :
    ∃ s' t' removed, Returns (fun fuel => remove compare fuel s key) (s',removed) ∧
      Removed compare s t key s' t' removed := by
  have distinct := holds.distinct order
  have sided := holds.sided order key
  obtain ⟨m',p',removed,run,rep',frame',flag,idle⟩ := removeKey_spec compare (t.height + 1) s.nodes
    s.root t key holds.rep distinct holds.balanced (by omega)
  refine ⟨⟨m',p'⟩,Avl.remove (sign compare s.nodes key) t,removed,
    (remove_settles compare s key).returns ⟨t.height + 1,?_⟩,?_⟩
  · simp only [remove,run]
    rfl
  refine ⟨⟨rep',(Avl.remove_balanced _ t holds.balanced).1,?_⟩,frame',?_,?_⟩
  · exact sorted_frame (u := ⟨m',p'⟩) frame' (holds.sorted.sublist (Avl.remove_sublist _ t))
  · intro n found
    rw [found] at flag
    obtain ⟨member,zero⟩ := Avl.find_mem _ t n flag.symm
    exact ⟨((order.zero _ _).mp zero).symm,Avl.remove_present _ t n flag.symm⟩
  · intro none
    subst none
    obtain ⟨rfl,rfl⟩ := idle rfl
    refine ⟨?_,rfl,Avl.remove_absent _ t holds.balanced flag.symm⟩
    intro a ha same
    exact Avl.find_none _ t sided flag.symm a ha ((order.zero _ _).mpr same.symm)

/-! ## The extremes -/

theorem root_nil {s : Store κ} {t : BinaryTree Addr} (holds : Holds compare s t) (empty : s.root = none) :
    t = nil := by
  cases t with
  | nil => rfl
  | node b l r => exact absurd (empty.symm.trans holds.rep.1) (by simp)

theorem root_node {s : Store κ} {t : BinaryTree Addr} (holds : Holds compare s t) {b : Addr}
    (here : s.root = some b) : ∃ l r, t = node b l r := by
  cases t with
  | nil => exact absurd (here.symm.trans holds.rep) (by simp)
  | node c l r =>
    cases here.symm.trans holds.rep.1
    exact ⟨l,r,rfl⟩

theorem popMin_holds (order : StrictTotal compare) {s : Store κ} {t : BinaryTree Addr}
    (holds : Holds compare s t) :
    ∃ s', Returns (fun fuel => popMin fuel s) (s',(Avl.inorder t).head?) ∧
      Holds compare s' (Avl.dropMin t) ∧ Frame s.nodes s'.nodes (Avl.inorder t) := by
  cases here : s.root with
  | none =>
    cases root_nil holds here
    refine ⟨s,(popMin_settles s).returns ⟨0,?_⟩,holds,Frame.refl _ _⟩
    simp only [popMin,here]
    rfl
  | some b =>
    obtain ⟨l,r,rfl⟩ := root_node holds here
    obtain ⟨m',p',min,changed,run,result,least⟩ := popMinNode_spec (node b l r).height s.nodes b l r
      (by rw [← here]; exact holds.rep) (holds.distinct order) holds.balanced (by omega)
    refine ⟨⟨m',p'⟩,(popMin_settles s).returns ⟨(node b l r).height,?_⟩,⟨result.rep,?_,?_⟩,result.frame⟩
    · simp only [popMin,here,run,least]
      rfl
    · exact (Avl.dropMin_balanced _ holds.balanced).1
    · exact sorted_frame (u := ⟨m',p'⟩) result.frame (holds.sorted.sublist (Avl.dropMin_sublist _))

theorem popMax_holds (order : StrictTotal compare) {s : Store κ} {t : BinaryTree Addr}
    (holds : Holds compare s t) :
    ∃ s', Returns (fun fuel => popMax fuel s) (s',(Avl.inorder t).getLast?) ∧
      Holds compare s' (Avl.dropMax t) ∧ Frame s.nodes s'.nodes (Avl.inorder t) := by
  cases here : s.root with
  | none =>
    cases root_nil holds here
    refine ⟨s,(popMax_settles s).returns ⟨0,?_⟩,holds,Frame.refl _ _⟩
    simp only [popMax,here]
    rfl
  | some b =>
    obtain ⟨l,r,rfl⟩ := root_node holds here
    obtain ⟨m',p',max,changed,run,result,greatest⟩ := popMaxNode_spec (node b l r).height s.nodes b l r
      (by rw [← here]; exact holds.rep) (holds.distinct order) holds.balanced (by omega)
    refine ⟨⟨m',p'⟩,(popMax_settles s).returns ⟨(node b l r).height,?_⟩,⟨result.rep,?_,?_⟩,result.frame⟩
    · simp only [popMax,here,run,greatest]
      rfl
    · exact (Avl.dropMax_balanced _ holds.balanced).1
    · exact sorted_frame (u := ⟨m',p'⟩) result.frame (holds.sorted.sublist (Avl.dropMax_sublist _))

/-- On a non-empty tree `remove_min` leaves what `pop_min` leaves. -/
theorem removeMin_eq (fuel : Nat) (s : Store κ) (nonempty : s.root ≠ none) :
    removeMin fuel s = (popMin fuel s).map Prod.fst := by
  obtain ⟨b,here⟩ := Option.ne_none_iff_exists'.mp nonempty
  simp only [removeMin,popMin,here,removeMinNode_eq,Option.bind_eq_bind,Option.bind_some]
  cases popMinNode fuel s.nodes b <;> rfl

theorem removeMax_eq (fuel : Nat) (s : Store κ) (nonempty : s.root ≠ none) :
    removeMax fuel s = (popMax fuel s).map Prod.fst := by
  obtain ⟨b,here⟩ := Option.ne_none_iff_exists'.mp nonempty
  simp only [removeMax,popMax,here,removeMaxNode_eq,Option.bind_eq_bind,Option.bind_some]
  cases popMaxNode fuel s.nodes b <;> rfl

theorem removeMin_settles (s : Store κ) : Settles (fun fuel => removeMin fuel s) := by
  by_cases empty : s.root = none
  · intro fuel r run
    simp only [removeMin,empty] at run
    cases run
  · simp only [removeMin_eq _ s empty]
    exact (popMin_settles s).map _

theorem removeMin_holds (order : StrictTotal compare) {s : Store κ} {t : BinaryTree Addr}
    (holds : Holds compare s t) (nonempty : s.root ≠ none) :
    ∃ s', Returns (fun fuel => removeMin fuel s) s' ∧ Holds compare s' (Avl.dropMin t) ∧
      Frame s.nodes s'.nodes (Avl.inorder t) := by
  obtain ⟨s',run,result⟩ := popMin_holds order holds
  refine ⟨s',?_,result⟩
  simp only [removeMin_eq _ s nonempty]
  exact run.map (popMin_settles s) Prod.fst

theorem removeMax_holds (order : StrictTotal compare) {s : Store κ} {t : BinaryTree Addr}
    (holds : Holds compare s t) (nonempty : s.root ≠ none) :
    ∃ s', Returns (fun fuel => removeMax fuel s) s' ∧ Holds compare s' (Avl.dropMax t) ∧
      Frame s.nodes s'.nodes (Avl.inorder t) := by
  obtain ⟨s',run,result⟩ := popMax_holds order holds
  refine ⟨s',?_,result⟩
  simp only [removeMax_eq _ s nonempty]
  exact run.map (popMax_settles s) Prod.fst

theorem getMin_holds {s : Store κ} {t : BinaryTree Addr} (holds : Holds compare s t) :
    Returns (fun fuel => getMin fuel s) (Avl.inorder t).head? := by
  refine (getMin_settles s).returns ⟨t.height,?_⟩
  cases here : s.root with
  | none =>
    cases root_nil holds here
    simp only [getMin,here]
    rfl
  | some b =>
    obtain ⟨l,r,rfl⟩ := root_node holds here
    simp only [getMin,here]
    rw [getMinNode_spec _ s.nodes b l r (by rw [← here]; exact holds.rep) (by omega)]
    cases least : (Avl.inorder (node b l r)).head? with
    | none => simp at least
    | some min => rfl

theorem getMax_holds {s : Store κ} {t : BinaryTree Addr} (holds : Holds compare s t) :
    Returns (fun fuel => getMax fuel s) (Avl.inorder t).getLast? := by
  refine (getMax_settles s).returns ⟨t.height,?_⟩
  cases here : s.root with
  | none =>
    cases root_nil holds here
    simp only [getMax,here]
    rfl
  | some b =>
    obtain ⟨l,r,rfl⟩ := root_node holds here
    simp only [getMax,here]
    rw [getMaxNode_spec _ s.nodes b l r (by rw [← here]; exact holds.rep) (by omega)]
    cases greatest : (Avl.inorder (node b l r)).getLast? with
    | none => simp at greatest
    | some max => rfl

theorem count_holds {s : Store κ} {t : BinaryTree Addr} (holds : Holds compare s t) :
    Returns (fun fuel => count fuel s) ((Avl.inorder t).length : Int) :=
  (count_settles s).returns ⟨t.height + 1,countNode_spec _ s.nodes s.root t holds.rep (by omega)⟩

/-! ## Whole runs -/

theorem step_holds (order : StrictTotal compare) {s s' : Store κ} {t : BinaryTree Addr}
    (holds : Holds compare s t) (step : Step compare s s') : ∃ t', Holds compare s' t' := by
  cases step with
  | write m same =>
    have inside : ∀ a ∈ Avl.inorder t, Linked s.nodes s.root a :=
      fun a ha => (linked_iff _ _ t holds.rep a).mpr ha
    refine ⟨t,rep_agree t _ holds.rep ?_,holds.balanced,?_⟩
    · intro a ha
      obtain ⟨left,right,high,-⟩ := same a (inside a ha)
      exact ⟨left,right,high⟩
    · refine holds.sorted.imp_of_mem ?_
      intro a b ha hb less
      simpa only [before,(same a (inside a ha)).2.2.2,(same b (inside b hb)).2.2.2] using less
  | insert _ node inserted fresh leaf run =>
    rw [linked_iff _ _ t holds.rep] at fresh
    obtain ⟨s₁,t₁,flag,done,result⟩ := insert_holds order holds node fresh leaf
    cases done.2 _ run
    exact ⟨t₁,result.holds⟩
  | remove _ key removed run =>
    obtain ⟨s₁,t₁,found,done,result⟩ := remove_holds order holds key
    cases done.2 _ run
    exact ⟨t₁,result.holds⟩
  | popMin _ min run =>
    obtain ⟨s₁,done,result,-⟩ := popMin_holds order holds
    cases done.2 _ run
    exact ⟨_,result⟩
  | popMax _ max run =>
    obtain ⟨s₁,done,result,-⟩ := popMax_holds order holds
    cases done.2 _ run
    exact ⟨_,result⟩
  | removeMin _ run =>
    by_cases empty : s.root = none
    · obtain ⟨fuel,call⟩ := run
      simp [removeMin,empty] at call
    · obtain ⟨s₁,done,result,-⟩ := removeMin_holds order holds empty
      cases done.2 _ run
      exact ⟨_,result⟩
  | removeMax _ run =>
    by_cases empty : s.root = none
    · obtain ⟨fuel,call⟩ := run
      simp [removeMax,empty] at call
    · obtain ⟨s₁,done,result,-⟩ := removeMax_holds order holds empty
      cases done.2 _ run
      exact ⟨_,result⟩

theorem init_holds (start : Store κ) : Holds compare (init start) nil :=
  ⟨rfl,Avl.balanced_nil,List.Pairwise.nil⟩

theorem reachable_holds (order : StrictTotal compare) {s : Store κ} (reach : Reachable compare s) :
    ∃ t, Holds compare s t := by
  obtain ⟨start,run⟩ := reach
  induction run with
  | refl => exact ⟨nil,init_holds start⟩
  | tail _ step ih =>
    obtain ⟨t,holds⟩ := ih
    exact step_holds order holds step

variable (compare)

structure Responsive (s : Store κ) : Prop where
  insert : ∀ node, ¬Linked s.nodes s.root node → s.nodes.left node = none ∧ s.nodes.right node = none →
    ∃ r, Returns (fun fuel => insert compare fuel s node) r
  remove : ∀ key, ∃ r, Returns (fun fuel => remove compare fuel s key) r
  popMin : ∃ r, Returns (fun fuel => popMin fuel s) r
  popMax : ∃ r, Returns (fun fuel => popMax fuel s) r
  removeMin : s.root ≠ none → ∃ r, Returns (fun fuel => removeMin fuel s) r
  removeMax : s.root ≠ none → ∃ r, Returns (fun fuel => removeMax fuel s) r

variable {compare}

theorem holds_responsive (order : StrictTotal compare) {s : Store κ} {t : BinaryTree Addr}
    (holds : Holds compare s t) : Responsive compare s where
  insert node fresh leaf := by
    rw [linked_iff _ _ t holds.rep] at fresh
    obtain ⟨s',t',inserted,run,-⟩ := insert_holds order holds node fresh leaf
    exact ⟨_,run⟩
  remove key := by
    obtain ⟨s',t',removed,run,-⟩ := remove_holds order holds key
    exact ⟨_,run⟩
  popMin := by
    obtain ⟨s',run,-⟩ := popMin_holds order holds
    exact ⟨_,run⟩
  popMax := by
    obtain ⟨s',run,-⟩ := popMax_holds order holds
    exact ⟨_,run⟩
  removeMin nonempty := by
    obtain ⟨s',run,-⟩ := removeMin_holds order holds nonempty
    exact ⟨_,run⟩
  removeMax nonempty := by
    obtain ⟨s',run,-⟩ := removeMax_holds order holds nonempty
    exact ⟨_,run⟩

/-- After every run of operations the store holds a search tree with real stored heights and sibling
heights at most one apart, and the next operation ends. -/
theorem reachable_searchTree (order : StrictTotal compare) (s : Store κ) (reach : Reachable compare s) :
    (∃ t, Holds compare s t) ∧ Responsive compare s := by
  obtain ⟨t,holds⟩ := reachable_holds order reach
  exact ⟨⟨t,holds⟩,holds_responsive order holds⟩

/-! Integer keys compared by subtraction. -/

def difference (a b : Int) : Int := a - b

theorem difference_order : StrictTotal difference where
  zero a b := by simp only [difference]; omega
  swap a b := by simp only [difference]; omega
  trans a b c := by simp only [difference]; omega

def blank : Nodes Int := ⟨fun _ => none,fun _ => none,fun _ => 0,fun a => a⟩

def grow (fuel : Nat) (s : Store Int) : List Addr → Option (Store Int)
  | [] => some s
  | a :: as =>
      if s.nodes.height a = 0 ∧ s.nodes.left a = none ∧ s.nodes.right a = none then do
        let (s,_) ← insert difference fuel s a
        grow fuel s as
      else none

theorem grow_reachable {fuel : Nat} {s s' : Store Int} {as : List Addr} (reach : Reachable difference s)
    (run : grow fuel s as = some s') : Reachable difference s' := by
  induction as generalizing s with
  | nil =>
    cases run
    exact reach
  | cons a as ih =>
    rw [grow,Option.ite_none_right_eq_some] at run
    obtain ⟨⟨flat,leaf⟩,run⟩ := run
    obtain ⟨⟨u,inserted⟩,inserting,rest⟩ := Option.bind_eq_some_iff.mp run
    have fresh : ¬Linked s.nodes s.root a := by
      intro linked
      obtain ⟨t,holds⟩ := reachable_holds difference_order reach
      have high := linked.high t holds.rep
      omega
    obtain ⟨start,steps⟩ := reach
    exact ih ⟨start,steps.tail (.insert s u a inserted fresh leaf ⟨fuel,inserting⟩)⟩ rest

/-- The third insert rotates once and the fifth twice; the removed node has two children,
and its removal rotates once more. -/
def pruned : Option (Store Int) := do
  let s ← grow 4 ⟨blank,none⟩ [3,2,1,5,4]
  let (s,_) ← remove difference 4 s 2
  return s

theorem pruned_reachable : ∃ s, Reachable difference s ∧ s.root = some 4 ∧ s.nodes.left 4 = some 1 ∧
    s.nodes.right 1 = some 3 ∧ s.nodes.right 4 = some 5 := by
  have shape : ∃ s, pruned = some s ∧ s.root = some 4 ∧ s.nodes.left 4 = some 1 ∧
      s.nodes.right 1 = some 3 ∧ s.nodes.right 4 = some 5 := ⟨_,rfl,rfl,rfl,rfl,rfl⟩
  obtain ⟨s,run,shape⟩ := shape
  rw [pruned,Option.bind_eq_bind,Option.bind_eq_some_iff] at run
  obtain ⟨u,grown,run⟩ := run
  obtain ⟨⟨s',removed⟩,removing,same⟩ := Option.bind_eq_some_iff.mp run
  cases same
  obtain ⟨start,steps⟩ := grow_reachable ⟨⟨blank,none⟩,Relation.ReflTransGen.refl⟩ grown
  exact ⟨s,⟨start,steps.tail (.remove u s 2 removed ⟨4,removing⟩)⟩,shape⟩

theorem reachable_searchTree_pruned : ∃ s, s.root = some 4 ∧ s.nodes.left 4 = some 1 ∧
    (∃ t, Holds difference s t) ∧ Responsive difference s := by
  obtain ⟨s,reach,root,left,-⟩ := pruned_reachable
  exact ⟨s,root,left,reachable_searchTree difference_order s reach⟩

end Xrossfire.Avltree
