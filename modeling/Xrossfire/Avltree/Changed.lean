import Xrossfire.Avltree.Check

/-! The out-flag `*changed` of the recursive operations. Each operation is set beside
a variant that stores every child pointer and raises the flag before it rebalances,
so that a rotation cannot leave it down. On the subtrees of a search tree both do
the same: what the code skips would have changed nothing. -/
namespace Xrossfire.Avltree
open Library

variable {κ : Type} (compare : κ → κ → Int)

def insertNodeStoring : Nat → Nodes κ → Option Addr → Addr → Option (Nodes κ × Option Addr × Bool × Bool)
  | 0,_,_,_ => none
  | _ + 1,m,none,newNode => some (m.setHeight newNode 1,some newNode,true,true)
  | fuel + 1,m,some node,newNode =>
    let ret := compare (m.key newNode) (m.key node)
    if ret < 0 then do
      let (m,left,inserted,changed) ← insertNodeStoring fuel m (m.left node) newNode
      let m := m.setLeft node left
      if changed then
        let (m,p,changed) ← balanceLeft m node true
        return (m,some p,inserted,changed)
      else return (m,some node,inserted,changed)
    else if ret > 0 then do
      let (m,right,inserted,changed) ← insertNodeStoring fuel m (m.right node) newNode
      let m := m.setRight node right
      if inserted then
        let (m,p,changed) ← balanceRight m node true
        return (m,some p,inserted,changed)
      else return (m,some node,inserted,changed)
    else some (m,some node,false,false)

def popMinNodeStoring : Nat → Nodes κ → Addr → Option (Nodes κ × Option Addr × Addr × Bool)
  | 0,_,_ => none
  | fuel + 1,m,node =>
    match m.left node with
    | none => some (m,m.right node,node,true)
    | some l => do
      let (m,left,min,changed) ← popMinNodeStoring fuel m l
      let m := m.setLeft node left
      if changed then
        let (m,p,changed) ← balanceRight m node true
        return (m,some p,min,changed)
      else return (m,some node,min,changed)

def popMaxNodeStoring : Nat → Nodes κ → Addr → Option (Nodes κ × Option Addr × Addr × Bool)
  | 0,_,_ => none
  | fuel + 1,m,node =>
    match m.right node with
    | none => some (m,m.left node,node,true)
    | some r => do
      let (m,right,max,changed) ← popMaxNodeStoring fuel m r
      let m := m.setRight node right
      if changed then
        let (m,p,changed) ← balanceLeft m node true
        return (m,some p,max,changed)
      else return (m,some node,max,changed)

def removeMinNodeStoring : Nat → Nodes κ → Addr → Option (Nodes κ × Option Addr × Bool)
  | 0,_,_ => none
  | fuel + 1,m,node =>
    match m.left node with
    | none => some (m,m.right node,true)
    | some l => do
      let (m,left,changed) ← removeMinNodeStoring fuel m l
      let m := m.setLeft node left
      if changed then
        let (m,p,changed) ← balanceRight m node true
        return (m,some p,changed)
      else return (m,some node,changed)

def removeMaxNodeStoring : Nat → Nodes κ → Addr → Option (Nodes κ × Option Addr × Bool)
  | 0,_,_ => none
  | fuel + 1,m,node =>
    match m.right node with
    | none => some (m,m.left node,true)
    | some r => do
      let (m,right,changed) ← removeMaxNodeStoring fuel m r
      let m := m.setRight node right
      if changed then
        let (m,p,changed) ← balanceLeft m node true
        return (m,some p,changed)
      else return (m,some node,changed)

/-! ## Calls on subtrees -/

open BinaryTree

inductive Subtree (s : Store κ) : Option Addr → Prop
  | root : Subtree s s.root
  | left (a) (linked : Linked s.nodes s.root a) : Subtree s (s.nodes.left a)
  | right (a) (linked : Linked s.nodes s.root a) : Subtree s (s.nodes.right a)

/-- A node of the tree is the root of a tree that is part of it. -/
theorem linked_rep {m : Nodes κ} {p : Option Addr} {a : Addr} (linked : Linked m p a) {t : BinaryTree Addr}
    (rep : Rep m p t) (even : Avl.Balanced t) :
    ∃ l r, Rep m (some a) (node a l r) ∧ Avl.Balanced (node a l r) ∧
      (Avl.inorder (node a l r)).Sublist (Avl.inorder t) := by
  induction linked generalizing t with
  | here a =>
    cases t with
    | nil => cases rep
    | node b l r =>
      cases rep.1
      exact ⟨l,r,rep,even,List.Sublist.refl _⟩
  | left a b below ih =>
    cases t with
    | nil => cases rep
    | node c l r =>
      obtain ⟨here,-,repl,-⟩ := rep
      cases here
      obtain ⟨l',r',rep',even',sub⟩ := ih repl even.1
      exact ⟨l',r',rep',even',sub.trans (List.sublist_append_left _ _)⟩
  | right a b below ih =>
    cases t with
    | nil => cases rep
    | node c l r =>
      obtain ⟨here,-,-,repr⟩ := rep
      cases here
      obtain ⟨l',r',rep',even',sub⟩ := ih repr even.2.1
      exact ⟨l',r',rep',even',sub.trans ((List.sublist_cons_self a _).trans (List.sublist_append_right _ _))⟩

theorem subtree_rep {s : Store κ} {t : BinaryTree Addr} (rep : Rep s.nodes s.root t) (even : Avl.Balanced t)
    {p : Option Addr} (subtree : Subtree s p) :
    ∃ u, Rep s.nodes p u ∧ Avl.Balanced u ∧ (Avl.inorder u).Sublist (Avl.inorder t) := by
  cases subtree with
  | root => exact ⟨t,rep,even,List.Sublist.refl _⟩
  | left a linked =>
    obtain ⟨l,r,⟨-,-,repl,-⟩,whole,sub⟩ := linked_rep linked rep even
    exact ⟨l,repl,whole.1,(List.sublist_append_left _ _).trans sub⟩
  | right a linked =>
    obtain ⟨l,r,⟨-,-,-,repr⟩,whole,sub⟩ := linked_rep linked rep even
    exact ⟨r,repr,whole.2.1,((List.sublist_cons_self a _).trans (List.sublist_append_right _ _)).trans sub⟩

/-- A call on the pointer `p` that ends with the flag down returned `p`, and the height there, stored and
real, is the one from before. -/
def Kept (m : Nodes κ) (p : Option Addr) (m' : Nodes κ) (p' : Option Addr) (changed : Bool) : Prop :=
  changed = false → p' = p ∧ ∃ height, getHeight m p = height ∧ getHeight m' p' = height ∧
    Returns (fun fuel => countHeightNode fuel m p) height ∧ Returns (fun fuel => countHeightNode fuel m' p') height

theorem countHeightNode_rep {m : Nodes κ} {p : Option Addr} {t : BinaryTree Addr} (rep : Rep m p t) :
    Returns (fun fuel => countHeightNode fuel m p) (t.height : Int) := by
  have settles : Settles (fun fuel => countHeightNode fuel m p) :=
    fun fuel r run => countHeightNode_succ fuel m p r run
  exact settles.returns ⟨t.height + 1,
    countHeightNode_spec (t.height + 1) m p t ((rep_iff m p t).mp rep).1 (Nat.lt_succ_self _)⟩

theorem Rebuilt.keeps {m m' : Nodes κ} {p p' : Option Addr} {s : List Addr} {t t' : BinaryTree Addr}
    {changed : Bool} (rebuilt : Rebuilt m p s t t' m' p' changed) (rep : Rep m p t) : Kept m p m' p' changed := by
  intro down
  obtain ⟨same,size⟩ := rebuilt.kept down
  have counted := countHeightNode_rep rebuilt.rep
  rw [size] at counted
  refine ⟨same,t.height,getHeight_rep m p t rep,?_,countHeightNode_rep rep,counted⟩
  rw [getHeight_rep m' p' t' rebuilt.rep,size]

/-! ## The variants agree with the code -/

theorem setLeft_skipped {m m₁ : Nodes κ} {a : Addr} {p₁ : Option Addr} {s : List Addr} {l l' : BinaryTree Addr}
    (child : Rebuilt m (m.left a) s l l' m₁ p₁ false) (out : a ∉ s) : m₁.setLeft a p₁ = m₁ := by
  obtain ⟨same,-⟩ := child.kept rfl
  rw [same,← child.frame.left a out,Nodes.setLeft_same]

theorem setRight_skipped {m m₁ : Nodes κ} {a : Addr} {p₁ : Option Addr} {s : List Addr} {r r' : BinaryTree Addr}
    (child : Rebuilt m (m.right a) s r r' m₁ p₁ false) (out : a ∉ s) : m₁.setRight a p₁ = m₁ := by
  obtain ⟨same,-⟩ := child.kept rfl
  rw [same,← child.frame.right a out,Nodes.setRight_same]

/-- Where no rotation is due, the flag that comes in is overwritten. -/
theorem balanceRight_flat {m : Nodes κ} {a : Addr} {l r : BinaryTree Addr} (rep : Rep m (some a) (node a l r))
    (flat : r.height ≤ l.height + 1) (first second : Bool) : balanceRight m a first = balanceRight m a second := by
  obtain ⟨-,high,repl,repr⟩ := id rep
  have same : refresh m a = m := by
    have real := refresh_height m a l r repl repr
    rw [← high] at real
    simp only [refresh,Nodes.setHeight_height,Function.update_self] at real
    simp only [refresh,Nodes.setHeight,real,Function.update_eq_self]
  simp only [balanceRight,same,bias_node m a l r rep]
  rw [if_neg (by omega),if_neg (by omega)]

theorem insertNode_storing (fuel : Nat) (m : Nodes κ) (p : Option Addr) (t : BinaryTree Addr) (n : Addr)
    (rep : Rep m p t) (distinct : (Avl.inorder t).Nodup) (even : Avl.Balanced t) (fresh : n ∉ Avl.inorder t)
    (leaf : m.left n = none ∧ m.right n = none) (enough : t.height < fuel) :
    insertNodeStoring compare fuel m p n = insertNode compare fuel m p n := by
  induction fuel generalizing p t with
  | zero => omega
  | succ fuel ih =>
    cases t with
    | nil =>
      cases rep
      rfl
    | node a l r =>
      obtain ⟨rfl,-,repl,repr⟩ := id rep
      obtain ⟨evenLeft,evenRight,-,close⟩ := even
      simp only [Avl.inorder_node,List.nodup_append,List.nodup_cons,List.mem_cons] at distinct
      simp only [Avl.inorder_node,List.mem_append,List.mem_cons,not_or] at fresh
      obtain ⟨distinctLeft,⟨outRight,distinctRight⟩,cross⟩ := distinct
      simp only [height] at enough
      simp only [insertNodeStoring,insertNode]
      by_cases less : compare (m.key n) (m.key a) < 0
      · obtain ⟨m₁,p₁,inserted,changed,call,child,-⟩ :=
          insertNode_spec compare fuel m _ l n repl distinctLeft evenLeft fresh.1 leaf (by omega)
        have out : a ∉ n :: Avl.inorder l := by grind
        rw [if_pos less,if_pos less,ih _ l repl distinctLeft evenLeft fresh.1 (by omega),call]
        cases changed with
        | false =>
          simp only [Option.bind_eq_bind,Option.bind_some,setLeft_skipped child out]
          rfl
        | true => rfl
      rw [if_neg less,if_neg less]
      by_cases greater : compare (m.key n) (m.key a) > 0
      · obtain ⟨m₁,p₁,inserted,changed,call,child,flag,idle⟩ :=
          insertNode_spec compare fuel m _ r n repr distinctRight evenRight fresh.2.2 leaf (by omega)
        have out : a ∉ n :: Avl.inorder r := by grind
        rw [if_pos greater,if_pos greater,ih _ r repr distinctRight evenRight fresh.2.2 (by omega),call]
        cases inserted with
        | false =>
          obtain ⟨-,-,rfl⟩ := idle rfl
          simp only [Option.bind_eq_bind,Option.bind_some,setRight_skipped child out]
          rfl
        | true =>
          cases changed with
          | true => rfl
          | false =>
            -- the right side rebalances with the flag down, but it has not grown and is not rotated
            have whole := skip_right m m₁ a p₁ _ l r _ rep child out (by grind)
            have flat := balanceRight_flat whole (by rw [(child.kept rfl).2]; exact close) true false
            simp only [Option.bind_eq_bind,Option.bind_some,setRight_skipped child out,if_true,flat]
      · rw [if_neg greater,if_neg greater]

theorem popMinNode_storing (fuel : Nat) (m : Nodes κ) (a : Addr) (l r : BinaryTree Addr)
    (rep : Rep m (some a) (node a l r)) (distinct : (Avl.inorder (node a l r)).Nodup)
    (even : Avl.Balanced (node a l r)) (enough : (node a l r).height < fuel + 1) :
    popMinNodeStoring fuel m a = popMinNode fuel m a := by
  induction fuel generalizing a l r with
  | zero => simp only [height] at enough; omega
  | succ fuel ih =>
    obtain ⟨-,-,repl,-⟩ := rep
    simp only [popMinNodeStoring,popMinNode]
    rcases l with _ | ⟨b,bl,br⟩
    · have empty : m.left a = none := repl
      rw [empty]
    · have here : m.left a = some b := repl.1
      rw [here] at repl
      simp only [Avl.inorder_node a,List.nodup_append,List.mem_cons] at distinct
      rw [height.eq_2] at enough
      obtain ⟨m₁,p₁,min,changed,call,child,-⟩ := popMinNode_spec fuel m b bl br repl distinct.1 even.1 (by omega)
      have out : a ∉ Avl.inorder (node b bl br) := by grind
      simp only [here,ih b bl br repl distinct.1 even.1 (by omega),call,Option.bind_eq_bind,Option.bind_some]
      cases changed with
      | false =>
        rw [← here] at child
        simp only [setLeft_skipped child out]
        rfl
      | true => rfl

theorem popMaxNode_storing (fuel : Nat) (m : Nodes κ) (a : Addr) (l r : BinaryTree Addr)
    (rep : Rep m (some a) (node a l r)) (distinct : (Avl.inorder (node a l r)).Nodup)
    (even : Avl.Balanced (node a l r)) (enough : (node a l r).height < fuel + 1) :
    popMaxNodeStoring fuel m a = popMaxNode fuel m a := by
  induction fuel generalizing a l r with
  | zero => simp only [height] at enough; omega
  | succ fuel ih =>
    obtain ⟨-,-,-,repr⟩ := rep
    simp only [popMaxNodeStoring,popMaxNode]
    rcases r with _ | ⟨c,cl,cr⟩
    · have empty : m.right a = none := repr
      rw [empty]
    · have here : m.right a = some c := repr.1
      rw [here] at repr
      simp only [Avl.inorder_node a,List.nodup_append,List.nodup_cons,List.mem_cons] at distinct
      obtain ⟨-,⟨outRight,distinctRight⟩,-⟩ := distinct
      rw [height.eq_2] at enough
      obtain ⟨m₁,p₁,max,changed,call,child,-⟩ := popMaxNode_spec fuel m c cl cr repr distinctRight even.2.1 (by omega)
      simp only [here,ih c cl cr repr distinctRight even.2.1 (by omega),call,Option.bind_eq_bind,Option.bind_some]
      cases changed with
      | false =>
        rw [← here] at child
        simp only [setRight_skipped child outRight]
        rfl
      | true => rfl

/-- As in the code, `remove_min_` is `pop_min_` without the out-parameter for the node. -/
theorem removeMinNodeStoring_eq (fuel : Nat) (m : Nodes κ) (node : Addr) :
    removeMinNodeStoring fuel m node =
      (popMinNodeStoring fuel m node).map (fun (m,p,_,changed) => (m,p,changed)) := by
  induction fuel generalizing m node with
  | zero => rfl
  | succ fuel ih =>
    simp only [removeMinNodeStoring,popMinNodeStoring]
    cases m.left node with
    | none => rfl
    | some l =>
      simp only [ih]
      cases popMinNodeStoring fuel m l with
      | none => rfl
      | some result =>
        obtain ⟨m₁,p₁,min,changed⟩ := result
        cases changed with
        | false => rfl
        | true =>
          simp only [Option.map_some,Option.bind_eq_bind,Option.bind_some,if_true]
          cases balanceRight (m₁.setLeft node p₁) node true <;> rfl

theorem removeMaxNodeStoring_eq (fuel : Nat) (m : Nodes κ) (node : Addr) :
    removeMaxNodeStoring fuel m node =
      (popMaxNodeStoring fuel m node).map (fun (m,p,_,changed) => (m,p,changed)) := by
  induction fuel generalizing m node with
  | zero => rfl
  | succ fuel ih =>
    simp only [removeMaxNodeStoring,popMaxNodeStoring]
    cases m.right node with
    | none => rfl
    | some r =>
      simp only [ih]
      cases popMaxNodeStoring fuel m r with
      | none => rfl
      | some result =>
        obtain ⟨m₁,p₁,max,changed⟩ := result
        cases changed with
        | false => rfl
        | true =>
          simp only [Option.map_some,Option.bind_eq_bind,Option.bind_some,if_true]
          cases balanceLeft (m₁.setRight node p₁) node true <;> rfl

theorem insertNodeStoring_succ (fuel : Nat) (m : Nodes κ) (p : Option Addr) (n : Addr)
    (r : Nodes κ × Option Addr × Bool × Bool) (run : insertNodeStoring compare fuel m p n = some r) :
    insertNodeStoring compare (fuel + 1) m p n = some r := by
  induction fuel generalizing m p r with
  | zero => cases run
  | succ fuel ih =>
    cases p with
    | none => exact run
    | some node =>
      simp only [insertNodeStoring,Option.bind_eq_bind] at run ⊢
      split_ifs at run ⊢ with less greater
      · obtain ⟨x,call,rest⟩ := Option.bind_eq_some_iff.mp run
        exact Option.bind_eq_some_iff.mpr ⟨x,ih _ _ _ call,rest⟩
      · obtain ⟨x,call,rest⟩ := Option.bind_eq_some_iff.mp run
        exact Option.bind_eq_some_iff.mpr ⟨x,ih _ _ _ call,rest⟩
      · exact run

theorem popMinNodeStoring_succ (fuel : Nat) (m : Nodes κ) (node : Addr)
    (r : Nodes κ × Option Addr × Addr × Bool) (run : popMinNodeStoring fuel m node = some r) :
    popMinNodeStoring (fuel + 1) m node = some r := by
  induction fuel generalizing m node r with
  | zero => cases run
  | succ fuel ih =>
    rw [popMinNodeStoring] at run ⊢
    cases here : m.left node with
    | none => simpa only [here] using run
    | some l =>
      simp only [here,Option.bind_eq_bind] at run ⊢
      obtain ⟨x,call,rest⟩ := Option.bind_eq_some_iff.mp run
      exact Option.bind_eq_some_iff.mpr ⟨x,ih _ _ _ call,rest⟩

theorem popMaxNodeStoring_succ (fuel : Nat) (m : Nodes κ) (node : Addr)
    (r : Nodes κ × Option Addr × Addr × Bool) (run : popMaxNodeStoring fuel m node = some r) :
    popMaxNodeStoring (fuel + 1) m node = some r := by
  induction fuel generalizing m node r with
  | zero => cases run
  | succ fuel ih =>
    rw [popMaxNodeStoring] at run ⊢
    cases here : m.right node with
    | none => simpa only [here] using run
    | some l =>
      simp only [here,Option.bind_eq_bind] at run ⊢
      obtain ⟨x,call,rest⟩ := Option.bind_eq_some_iff.mp run
      exact Option.bind_eq_some_iff.mpr ⟨x,ih _ _ _ call,rest⟩

/-! ## The protocol -/

/-- On every subtree the operations end, do what their storing variants do, and keep the pointer and the height
when they end with the flag down. An insertion with the flag up has inserted, so that the right side stores too. -/
structure ChangedProtocol (s : Store κ) : Prop where
  insertNode : ∀ p node, Subtree s p → ¬Linked s.nodes s.root node →
    s.nodes.left node = none ∧ s.nodes.right node = none → ∃ m' p' inserted changed,
      Returns (fun fuel => insertNode compare fuel s.nodes p node) (m',p',inserted,changed) ∧
      Returns (fun fuel => insertNodeStoring compare fuel s.nodes p node) (m',p',inserted,changed) ∧
      Kept s.nodes p m' p' changed ∧ (changed = true → inserted = true)
  popMinNode : ∀ node, Linked s.nodes s.root node → ∃ m' p' min changed,
    Returns (fun fuel => popMinNode fuel s.nodes node) (m',p',min,changed) ∧
    Returns (fun fuel => popMinNodeStoring fuel s.nodes node) (m',p',min,changed) ∧
    Kept s.nodes (some node) m' p' changed
  popMaxNode : ∀ node, Linked s.nodes s.root node → ∃ m' p' max changed,
    Returns (fun fuel => popMaxNode fuel s.nodes node) (m',p',max,changed) ∧
    Returns (fun fuel => popMaxNodeStoring fuel s.nodes node) (m',p',max,changed) ∧
    Kept s.nodes (some node) m' p' changed
  removeMinNode : ∀ node, Linked s.nodes s.root node → ∃ m' p' changed,
    Returns (fun fuel => removeMinNode fuel s.nodes node) (m',p',changed) ∧
    Returns (fun fuel => removeMinNodeStoring fuel s.nodes node) (m',p',changed) ∧
    Kept s.nodes (some node) m' p' changed
  removeMaxNode : ∀ node, Linked s.nodes s.root node → ∃ m' p' changed,
    Returns (fun fuel => removeMaxNode fuel s.nodes node) (m',p',changed) ∧
    Returns (fun fuel => removeMaxNodeStoring fuel s.nodes node) (m',p',changed) ∧
    Kept s.nodes (some node) m' p' changed

variable {compare}

theorem insertNode_protocol (order : StrictTotal compare) {s : Store κ} {t : BinaryTree Addr}
    (holds : Holds compare s t) (p : Option Addr) (n : Addr) (subtree : Subtree s p)
    (fresh : ¬Linked s.nodes s.root n) (leaf : s.nodes.left n = none ∧ s.nodes.right n = none) :
    ∃ m' p' inserted changed,
      Returns (fun fuel => insertNode compare fuel s.nodes p n) (m',p',inserted,changed) ∧
      Returns (fun fuel => insertNodeStoring compare fuel s.nodes p n) (m',p',inserted,changed) ∧
      Kept s.nodes p m' p' changed ∧ (changed = true → inserted = true) := by
  obtain ⟨u,rep,even,sub⟩ := subtree_rep holds.rep holds.balanced subtree
  have distinct := (holds.distinct order).sublist sub
  have out : n ∉ Avl.inorder u := fun member => fresh ((linked_iff _ _ t holds.rep n).mpr (sub.subset member))
  obtain ⟨m',p',inserted,changed,run,rebuilt,-,idle⟩ := insertNode_spec compare (u.height + 1) s.nodes p u n rep
    distinct even out leaf (Nat.lt_succ_self _)
  have same := insertNode_storing compare (u.height + 1) s.nodes p u n rep distinct even out leaf (Nat.lt_succ_self _)
  have settles : Settles (fun fuel => insertNode compare fuel s.nodes p n) :=
    fun fuel r run => insertNode_succ compare fuel s.nodes p n r run
  have settlesStoring : Settles (fun fuel => insertNodeStoring compare fuel s.nodes p n) :=
    fun fuel r run => insertNodeStoring_succ compare fuel s.nodes p n r run
  refine ⟨m',p',inserted,changed,settles.returns ⟨u.height + 1,run⟩,
    settlesStoring.returns ⟨u.height + 1,same.trans run⟩,rebuilt.keeps rep,?_⟩
  intro up
  by_contra refused
  rw [(idle (by simpa using refused)).2.2] at up
  cases up

theorem popMinNode_protocol (order : StrictTotal compare) {s : Store κ} {t : BinaryTree Addr}
    (holds : Holds compare s t) (a : Addr) (linked : Linked s.nodes s.root a) : ∃ m' p' min changed,
      Returns (fun fuel => popMinNode fuel s.nodes a) (m',p',min,changed) ∧
      Returns (fun fuel => popMinNodeStoring fuel s.nodes a) (m',p',min,changed) ∧
      Kept s.nodes (some a) m' p' changed := by
  obtain ⟨l,r,rep,even,sub⟩ := linked_rep linked holds.rep holds.balanced
  have distinct := (holds.distinct order).sublist sub
  have enough : (node a l r).height < (node a l r).height + 1 := Nat.lt_succ_self _
  obtain ⟨m',p',min,changed,run,rebuilt,-⟩ := popMinNode_spec _ s.nodes a l r rep distinct even enough
  have same := popMinNode_storing _ s.nodes a l r rep distinct even enough
  have settles : Settles (fun fuel => popMinNode fuel s.nodes a) :=
    fun fuel r run => popMinNode_succ fuel s.nodes a r run
  have settlesStoring : Settles (fun fuel => popMinNodeStoring fuel s.nodes a) :=
    fun fuel r run => popMinNodeStoring_succ fuel s.nodes a r run
  exact ⟨m',p',min,changed,settles.returns ⟨_,run⟩,settlesStoring.returns ⟨_,same.trans run⟩,rebuilt.keeps rep⟩

theorem popMaxNode_protocol (order : StrictTotal compare) {s : Store κ} {t : BinaryTree Addr}
    (holds : Holds compare s t) (a : Addr) (linked : Linked s.nodes s.root a) : ∃ m' p' max changed,
      Returns (fun fuel => popMaxNode fuel s.nodes a) (m',p',max,changed) ∧
      Returns (fun fuel => popMaxNodeStoring fuel s.nodes a) (m',p',max,changed) ∧
      Kept s.nodes (some a) m' p' changed := by
  obtain ⟨l,r,rep,even,sub⟩ := linked_rep linked holds.rep holds.balanced
  have distinct := (holds.distinct order).sublist sub
  have enough : (node a l r).height < (node a l r).height + 1 := Nat.lt_succ_self _
  obtain ⟨m',p',max,changed,run,rebuilt,-⟩ := popMaxNode_spec _ s.nodes a l r rep distinct even enough
  have same := popMaxNode_storing _ s.nodes a l r rep distinct even enough
  have settles : Settles (fun fuel => popMaxNode fuel s.nodes a) :=
    fun fuel r run => popMaxNode_succ fuel s.nodes a r run
  have settlesStoring : Settles (fun fuel => popMaxNodeStoring fuel s.nodes a) :=
    fun fuel r run => popMaxNodeStoring_succ fuel s.nodes a r run
  exact ⟨m',p',max,changed,settles.returns ⟨_,run⟩,settlesStoring.returns ⟨_,same.trans run⟩,rebuilt.keeps rep⟩

/-- A skipped store or a flag that a rotation leaves alone loses no link of a search tree. -/
theorem holds_changedProtocol (order : StrictTotal compare) (s : Store κ) (t : BinaryTree Addr)
    (holds : Holds compare s t) : ChangedProtocol compare s where
  insertNode := insertNode_protocol order holds
  popMinNode := popMinNode_protocol order holds
  popMaxNode := popMaxNode_protocol order holds
  removeMinNode a linked := by
    obtain ⟨m',p',min,changed,run,storing,kept⟩ := popMinNode_protocol order holds a linked
    refine ⟨m',p',changed,?_,?_,kept⟩
    · simp only [removeMinNode_eq]
      exact run.map (fun fuel r => popMinNode_succ fuel s.nodes a r) _
    · simp only [removeMinNodeStoring_eq]
      exact storing.map (fun fuel r => popMinNodeStoring_succ fuel s.nodes a r) _
  removeMaxNode a linked := by
    obtain ⟨m',p',max,changed,run,storing,kept⟩ := popMaxNode_protocol order holds a linked
    refine ⟨m',p',changed,?_,?_,kept⟩
    · simp only [removeMaxNode_eq]
      exact run.map (fun fuel r => popMaxNode_succ fuel s.nodes a r) _
    · simp only [removeMaxNodeStoring_eq]
      exact storing.map (fun fuel r => popMaxNodeStoring_succ fuel s.nodes a r) _

theorem holds_changedProtocol_pruned : ∃ s, s.root = some 4 ∧ s.nodes.left 4 = some 1 ∧
    ChangedProtocol difference s := by
  obtain ⟨s,reach,root,left,-⟩ := pruned_reachable
  obtain ⟨t,holds⟩ := reachable_holds difference_order reach
  exact ⟨s,root,left,holds_changedProtocol difference_order s t holds⟩

end Xrossfire.Avltree
