import Xrossfire.Library.Avl
import Xrossfire.Avltree.Operations

/-! The in-place operations against the balanced trees they stand for.
`Rep` reads a tree of node addresses out of memory, stored heights included.
Each operation's specification says which tree the rewritten memory represents
and that every node outside the tree keeps its fields. -/
namespace Xrossfire.Avltree
open BinaryTree Library.Avl

variable {κ : Type}

/-- Memory at pointer `p` holds the tree `t`, with real heights stored. -/
def Rep (m : Nodes κ) : Option Addr → BinaryTree Addr → Prop
  | p,.nil => p = none
  | p,.node a l r => p = some a ∧ m.height a = ((node a l r).height : Int) ∧
      Rep m (m.left a) l ∧ Rep m (m.right a) r

structure Frame (m m' : Nodes κ) (s : List Addr) : Prop where
  left : ∀ a ∉ s, m'.left a = m.left a
  right : ∀ a ∉ s, m'.right a = m.right a
  height : ∀ a ∉ s, m'.height a = m.height a
  key : m'.key = m.key

theorem Frame.refl (m : Nodes κ) (s : List Addr) : Frame m m s := ⟨by simp,by simp,by simp,rfl⟩

theorem Frame.trans {m₁ m₂ m₃ : Nodes κ} {s : List Addr} (first : Frame m₁ m₂ s)
    (second : Frame m₂ m₃ s) : Frame m₁ m₃ s where
  left a out := (second.left a out).trans (first.left a out)
  right a out := (second.right a out).trans (first.right a out)
  height a out := (second.height a out).trans (first.height a out)
  key := second.key.trans first.key

theorem Frame.mono {m m' : Nodes κ} {s s' : List Addr} (frame : Frame m m' s) (sub : s ⊆ s') :
    Frame m m' s' where
  left a out := frame.left a (fun inside => out (sub inside))
  right a out := frame.right a (fun inside => out (sub inside))
  height a out := frame.height a (fun inside => out (sub inside))
  key := frame.key

theorem Frame.setLeft (m : Nodes κ) (a : Addr) (p : Option Addr) (s : List Addr) (inside : a ∈ s) :
    Frame m (m.setLeft a p) s where
  left b out := Function.update_of_ne (fun same : b = a => out (same ▸ inside)) _ _
  right _ _ := rfl
  height _ _ := rfl
  key := rfl

theorem Frame.setRight (m : Nodes κ) (a : Addr) (p : Option Addr) (s : List Addr) (inside : a ∈ s) :
    Frame m (m.setRight a p) s where
  left _ _ := rfl
  right b out := Function.update_of_ne (fun same : b = a => out (same ▸ inside)) _ _
  height _ _ := rfl
  key := rfl

theorem Frame.setHeight (m : Nodes κ) (a : Addr) (h : Int) (s : List Addr) (inside : a ∈ s) :
    Frame m (m.setHeight a h) s where
  left _ _ := rfl
  right _ _ := rfl
  height b out := Function.update_of_ne (fun same : b = a => out (same ▸ inside)) _ _
  key := rfl

theorem Frame.refresh (m : Nodes κ) (a : Addr) (s : List Addr) (inside : a ∈ s) :
    Frame m (refresh m a) s := Frame.setHeight m a _ s inside

theorem rep_agree {m m' : Nodes κ} (t : BinaryTree Addr) (p : Option Addr) (rep : Rep m p t)
    (same : ∀ a ∈ inorder t, m'.left a = m.left a ∧ m'.right a = m.right a ∧ m'.height a = m.height a) :
    Rep m' p t := by
  induction t generalizing p with
  | nil => exact rep
  | node a l r left right =>
    obtain ⟨here,high,repl,repr⟩ := rep
    obtain ⟨sameLeft,sameRight,sameHeight⟩ := same a (by simp)
    refine ⟨here,sameHeight.trans high,?_,?_⟩
    · rw [sameLeft]
      exact left _ repl (fun b hb => same b (by simp [hb]))
    · rw [sameRight]
      exact right _ repr (fun b hb => same b (by simp [hb]))

theorem rep_frame {m m' : Nodes κ} {s : List Addr} (frame : Frame m m' s) (t : BinaryTree Addr)
    (p : Option Addr) (rep : Rep m p t) (apart : ∀ a ∈ inorder t, a ∉ s) : Rep m' p t :=
  rep_agree t p rep (fun a ha => ⟨frame.left a (apart a ha),frame.right a (apart a ha),
    frame.height a (apart a ha)⟩)

theorem rep_unique (m : Nodes κ) (p : Option Addr) (t u : BinaryTree Addr)
    (first : Rep m p t) (second : Rep m p u) : t = u := by
  induction t generalizing p u with
  | nil =>
    cases u with
    | nil => rfl
    | node b l r => exact absurd (first.symm.trans second.1) (by simp)
  | node a l r left right =>
    cases u with
    | nil => exact absurd (first.1.symm.trans second) (by simp)
    | node b l' r' =>
      obtain ⟨here,-,repl,repr⟩ := first
      obtain ⟨there,-,repl',repr'⟩ := second
      cases here.symm.trans there
      rw [left _ _ repl repl',right _ _ repr repr']

theorem getHeight_rep (m : Nodes κ) (p : Option Addr) (t : BinaryTree Addr) (rep : Rep m p t) :
    getHeight m p = t.height := by
  cases t with
  | nil => cases rep; rfl
  | node a l r =>
    obtain ⟨rfl,high,-,-⟩ := rep
    exact high

theorem bias_rep (m : Nodes κ) (p : Option Addr) (t : BinaryTree Addr) (rep : Rep m p t) :
    bias m p = Library.Avl.bias t := by
  cases t with
  | nil => cases rep; rfl
  | node a l r =>
    obtain ⟨rfl,-,repl,repr⟩ := rep
    simp only [bias,Library.Avl.bias,getHeight_rep m _ _ repl,getHeight_rep m _ _ repr]

theorem max_eq (a b : Int) : max_ a b = max a b := by
  unfold max_
  split_ifs <;> omega

theorem refresh_height (m : Nodes κ) (a : Addr) (l r : BinaryTree Addr)
    (repl : Rep m (m.left a) l) (repr : Rep m (m.right a) r) :
    (refresh m a).height a = ((node a l r).height : Int) := by
  simp only [refresh,Nodes.setHeight_height,Function.update_self,max_eq,
    getHeight_rep m _ _ repl,getHeight_rep m _ _ repr,height]
  omega

@[simp] theorem refresh_left (m : Nodes κ) (a : Addr) : (refresh m a).left = m.left := rfl
@[simp] theorem refresh_right (m : Nodes κ) (a : Addr) : (refresh m a).right = m.right := rfl
@[simp] theorem refresh_key (m : Nodes κ) (a : Addr) : (refresh m a).key = m.key := rfl

/-! ## Rotations -/

/-- The height shortcut is right when the side that stays is no higher than the lowered root. -/
theorem rotateRight_spec (m : Nodes κ) (a b : Addr) (ll lr r : BinaryTree Addr)
    (repl : Rep m (m.left a) (node b ll lr)) (repr : Rep m (m.right a) r)
    (distinct : (inorder (node a (node b ll lr) r)).Nodup)
    (short : ll.height ≤ (node a lr r).height) :
    ∃ m', rotateRight m a = some (m',b) ∧ Rep m' (some b) (node b ll (node a lr r)) ∧
      Frame m m' [a,b] := by
  obtain ⟨here,-,repll,replr⟩ := repl
  simp only [inorder_node,List.nodup_append,List.nodup_cons,List.mem_append,List.mem_cons] at distinct
  have differ : b ≠ a := by grind
  have outll : ∀ x ∈ inorder ll, x ∉ [a,b] := by grind
  have outlr : ∀ x ∈ inorder lr, x ∉ [a,b] := by grind
  have outr : ∀ x ∈ inorder r, x ∉ [a,b] := by grind
  let linked := (m.setRight b (some a)).setLeft a (m.right b)
  have first : Frame m linked [a,b] :=
    (Frame.setRight m b _ _ (by simp)).trans (Frame.setLeft _ a _ _ (by simp))
  have lowerLeft : linked.left a = m.right b := by simp [linked]
  have lowerRight : linked.right a = m.right a := by simp [linked,differ.symm]
  have heighta := refresh_height linked a lr r
    (by rw [lowerLeft]; exact rep_frame first lr _ replr outlr)
    (by rw [lowerRight]; exact rep_frame first r _ repr outr)
  let m' := (refresh linked a).setHeight b ((refresh linked a).height a + 1)
  have frame : Frame m m' [a,b] :=
    (first.trans (Frame.refresh linked a _ (by simp))).trans (Frame.setHeight _ b _ _ (by simp))
  refine ⟨m',?_,⟨rfl,?_,?_,?_,?_,?_,?_⟩,frame⟩
  · simp [rotateRight,here,m',linked]
  · simp only [m',Nodes.setHeight_height,Function.update_self,heighta]
    simp only [height] at short ⊢
    omega
  · have same : m'.left b = m.left b := by simp [m',linked,differ]
    rw [same]
    exact rep_frame frame ll _ repll outll
  · have same : m'.right b = some a := by simp [m',linked]
    exact same
  · simp only [m',Nodes.setHeight_height,Function.update_of_ne differ.symm,heighta]
  · have same : m'.left a = m.right b := by simp [m',linked]
    rw [same]
    exact rep_frame frame lr _ replr outlr
  · have same : m'.right a = m.right a := by simp [m',linked,differ.symm]
    rw [same]
    exact rep_frame frame r _ repr outr

theorem rotateLeft_spec (m : Nodes κ) (a c : Addr) (l rl rr : BinaryTree Addr)
    (repl : Rep m (m.left a) l) (repr : Rep m (m.right a) (node c rl rr))
    (distinct : (inorder (node a l (node c rl rr))).Nodup)
    (short : rr.height ≤ (node a l rl).height) :
    ∃ m', rotateLeft m a = some (m',c) ∧ Rep m' (some c) (node c (node a l rl) rr) ∧
      Frame m m' [a,c] := by
  obtain ⟨here,-,reprl,reprr⟩ := repr
  simp only [inorder_node,List.nodup_append,List.nodup_cons,List.mem_append,List.mem_cons] at distinct
  have differ : c ≠ a := by grind
  have outl : ∀ x ∈ inorder l, x ∉ [a,c] := by grind
  have outrl : ∀ x ∈ inorder rl, x ∉ [a,c] := by grind
  have outrr : ∀ x ∈ inorder rr, x ∉ [a,c] := by grind
  let linked := (m.setLeft c (some a)).setRight a (m.left c)
  have first : Frame m linked [a,c] :=
    (Frame.setLeft m c _ _ (by simp)).trans (Frame.setRight _ a _ _ (by simp))
  have lowerLeft : linked.left a = m.left a := by simp [linked,differ.symm]
  have lowerRight : linked.right a = m.left c := by simp [linked]
  have heighta := refresh_height linked a l rl
    (by rw [lowerLeft]; exact rep_frame first l _ repl outl)
    (by rw [lowerRight]; exact rep_frame first rl _ reprl outrl)
  let m' := (refresh linked a).setHeight c ((refresh linked a).height a + 1)
  have frame : Frame m m' [a,c] :=
    (first.trans (Frame.refresh linked a _ (by simp))).trans (Frame.setHeight _ c _ _ (by simp))
  refine ⟨m',?_,⟨rfl,?_,⟨?_,?_,?_,?_⟩,?_⟩,frame⟩
  · simp [rotateLeft,here,m',linked]
  · simp only [m',Nodes.setHeight_height,Function.update_self,heighta]
    simp only [height] at short ⊢
    omega
  · have same : m'.left c = some a := by simp [m',linked]
    exact same
  · simp only [m',Nodes.setHeight_height,Function.update_of_ne differ.symm,heighta]
  · have same : m'.left a = m.left a := by simp [m',linked,differ.symm]
    rw [same]
    exact rep_frame frame l _ repl outl
  · have same : m'.right a = m.left c := by simp [m',linked]
    rw [same]
    exact rep_frame frame rl _ reprl outrl
  · have same : m'.right c = m.right c := by simp [m',linked,differ]
    rw [same]
    exact rep_frame frame rr _ reprr outrr

theorem rotateLeftRight_spec (m : Nodes κ) (a b c : Addr) (ll lrl lrr r : BinaryTree Addr)
    (repl : Rep m (m.left a) (node b ll (node c lrl lrr))) (repr : Rep m (m.right a) r)
    (distinct : (inorder (node a (node b ll (node c lrl lrr)) r)).Nodup)
    (inner : lrr.height ≤ (node b ll lrl).height)
    (outer : (node b ll lrl).height ≤ (node a lrr r).height) :
    ∃ m', rotateLeftRight m a = some (m',c) ∧
      Rep m' (some c) (node c (node b ll lrl) (node a lrr r)) ∧ Frame m m' [a,b,c] := by
  obtain ⟨here,-,repll,replr⟩ := repl
  simp only [inorder_node,List.nodup_append,List.nodup_cons,List.mem_append,List.mem_cons] at distinct
  obtain ⟨m₁,rotated,rep₁,frame₁⟩ := rotateLeft_spec m b c ll lrl lrr repll replr
    (by simp only [inorder_node,List.nodup_append,List.nodup_cons,List.mem_append,List.mem_cons]; grind)
    inner
  have linked : Frame m₁ (m₁.setLeft a (some c)) [a] := Frame.setLeft m₁ a _ _ (by simp)
  have pair : Frame m (m₁.setLeft a (some c)) [a,b,c] :=
    (frame₁.mono (by grind)).trans (linked.mono (by grind))
  have repc : Rep (m₁.setLeft a (some c)) ((m₁.setLeft a (some c)).left a)
      (node c (node b ll lrl) lrr) := by
    rw [Nodes.setLeft_left,Function.update_self]
    refine rep_frame linked _ _ rep₁ ?_
    simp only [inorder_node,List.mem_append,List.mem_cons]
    grind
  have kept : (m₁.setLeft a (some c)).right a = m.right a := frame₁.right a (by grind)
  have repr₁ : Rep (m₁.setLeft a (some c)) ((m₁.setLeft a (some c)).right a) r := by
    rw [kept]
    exact rep_frame pair r _ repr (by grind)
  obtain ⟨m₂,done,rep₂,frame₂⟩ := rotateRight_spec _ a c (node b ll lrl) lrr r repc repr₁
    (by simp only [inorder_node,List.nodup_append,List.nodup_cons,List.mem_append,List.mem_cons]; grind)
    outer
  refine ⟨m₂,?_,rep₂,pair.trans (frame₂.mono (by grind))⟩
  simp only [rotateLeftRight,here,rotated,Option.bind_eq_bind,Option.bind_some,done]

theorem rotateRightLeft_spec (m : Nodes κ) (a b c : Addr) (l rll rlr rr : BinaryTree Addr)
    (repl : Rep m (m.left a) l) (repr : Rep m (m.right a) (node c (node b rll rlr) rr))
    (distinct : (inorder (node a l (node c (node b rll rlr) rr))).Nodup)
    (inner : rll.height ≤ (node c rlr rr).height)
    (outer : (node c rlr rr).height ≤ (node a l rll).height) :
    ∃ m', rotateRightLeft m a = some (m',b) ∧
      Rep m' (some b) (node b (node a l rll) (node c rlr rr)) ∧ Frame m m' [a,b,c] := by
  obtain ⟨here,-,reprl,reprr⟩ := repr
  simp only [inorder_node,List.nodup_append,List.nodup_cons,List.mem_append,List.mem_cons] at distinct
  obtain ⟨m₁,rotated,rep₁,frame₁⟩ := rotateRight_spec m c b rll rlr rr reprl reprr
    (by simp only [inorder_node,List.nodup_append,List.nodup_cons,List.mem_append,List.mem_cons]; grind)
    inner
  have linked : Frame m₁ (m₁.setRight a (some b)) [a] := Frame.setRight m₁ a _ _ (by simp)
  have pair : Frame m (m₁.setRight a (some b)) [a,b,c] :=
    (frame₁.mono (by grind)).trans (linked.mono (by grind))
  have repb : Rep (m₁.setRight a (some b)) ((m₁.setRight a (some b)).right a)
      (node b rll (node c rlr rr)) := by
    rw [Nodes.setRight_right,Function.update_self]
    refine rep_frame linked _ _ rep₁ ?_
    simp only [inorder_node,List.mem_append,List.mem_cons]
    grind
  have kept : (m₁.setRight a (some b)).left a = m.left a := frame₁.left a (by grind)
  have repl₁ : Rep (m₁.setRight a (some b)) ((m₁.setRight a (some b)).left a) l := by
    rw [kept]
    exact rep_frame pair l _ repl (by grind)
  obtain ⟨m₂,done,rep₂,frame₂⟩ := rotateLeft_spec _ a b l rll (node c rlr rr) repl₁ repb
    (by simp only [inorder_node,List.nodup_append,List.nodup_cons,List.mem_append,List.mem_cons]; grind)
    outer
  refine ⟨m₂,?_,rep₂,pair.trans (frame₂.mono (by grind))⟩
  simp only [rotateRightLeft,here,rotated,Option.bind_eq_bind,Option.bind_some,done]

/-! ## Rebalancing -/

/-- A rotation leaves the flag as it was; without one the flag says whether the height changed. -/
structure Rebalanced (m : Nodes κ) (node : Addr) (changed : Bool) (high : Prop) (t t' : BinaryTree Addr)
    (m' : Nodes κ) (p' : Addr) (changed' : Bool) : Prop where
  rep : Rep m' (some p') t'
  frame : Frame m m' (inorder t)
  rotated : high → changed' = changed
  kept : ¬high → p' = node ∧ t' = t ∧ changed' = decide ((t.height : Int) ≠ m.height node)

theorem rep_refresh (m : Nodes κ) (a : Addr) (l r : BinaryTree Addr)
    (repl : Rep m (m.left a) l) (repr : Rep m (m.right a) r)
    (distinct : (inorder (node a l r)).Nodup) : Rep (refresh m a) (some a) (node a l r) := by
  simp only [inorder_node,List.nodup_append,List.nodup_cons,List.mem_cons] at distinct
  refine ⟨rfl,refresh_height m a l r repl repr,?_,?_⟩
  · exact rep_frame (Frame.refresh m a [a] (by simp)) l _ repl (by grind)
  · exact rep_frame (Frame.refresh m a [a] (by simp)) r _ repr (by grind)

theorem bias_node (m : Nodes κ) (a : Addr) (l r : BinaryTree Addr) (rep : Rep m (some a) (node a l r)) :
    bias m (some a) = l.height - r.height := by
  rw [bias_rep m _ _ rep,Library.Avl.bias]

theorem balanceLeft_spec (m : Nodes κ) (a : Addr) (changed : Bool) (l r : BinaryTree Addr)
    (repl : Rep m (m.left a) l) (repr : Rep m (m.right a) r)
    (distinct : (inorder (node a l r)).Nodup) (left : Balanced l)
    (above : l.height ≤ r.height + 2) :
    ∃ m' p' changed', balanceLeft m a changed = some (m',p',changed') ∧
      Rebalanced m a changed (r.height + 2 ≤ l.height) (node a l r)
        (Library.Avl.balanceLeft a l r) m' p' changed' := by
  have rep := rep_refresh m a l r repl repr distinct
  have fresh := Frame.refresh m a (inorder (node a l r)) (by simp)
  obtain ⟨-,-,repl₁,repr₁⟩ := id rep
  have heavy := bias_node (refresh m a) a l r rep
  by_cases high : r.height + 2 ≤ l.height
  · rcases l with _ | ⟨b,ll,lr⟩
    · simp at high
    obtain ⟨hll,hlr,first,second⟩ := left
    have leftPointer : m.left a = some b := repl.1
    have inner := bias_node (refresh m a) b ll lr
      (by rw [refresh_left,leftPointer] at repl₁; exact repl₁)
    by_cases outer : lr.height ≤ ll.height
    · obtain ⟨m',done,rep',frame'⟩ := rotateRight_spec (refresh m a) a b ll lr r repl₁ repr₁ distinct
        (by simp only [height] at above ⊢; omega)
      refine ⟨m',b,changed,?_,?_,fresh.trans (frame'.mono (by simp)),fun _ => rfl,fun low => absurd high low⟩
      · simp only [balanceLeft,refresh_left,leftPointer,heavy,inner,done]
        rw [if_pos (by omega),if_pos (by omega)]
        rfl
      · rwa [balanceLeft_single a b ll lr r high outer]
    · rcases lr with _ | ⟨c,lrl,lrr⟩
      · simp at outer
      obtain ⟨hlrl,hlrr,third,fourth⟩ := hlr
      obtain ⟨m',done,rep',frame'⟩ := rotateLeftRight_spec (refresh m a) a b c ll lrl lrr r repl₁ repr₁
        distinct (by simp only [height] at *; omega) (by simp only [height] at *; omega)
      refine ⟨m',c,changed,?_,?_,fresh.trans (frame'.mono (by simp)),fun _ => rfl,fun low => absurd high low⟩
      · simp only [balanceLeft,refresh_left,leftPointer,heavy,inner,done]
        rw [if_pos (by omega),if_neg (by omega)]
        rfl
      · rwa [balanceLeft_double a b c ll lrl lrr r high (by omega)]
  · refine ⟨refresh m a,a,decide ((refresh m a).height a ≠ m.height a),?_,?_,fresh,fun raised => absurd raised high,?_⟩
    · simp only [balanceLeft,heavy]
      rw [if_neg (by omega)]
    · rwa [balanceLeft_of_le a l r (by omega)]
    · intro _
      rw [balanceLeft_of_le a l r (by omega),refresh_height m a l r repl repr]
      exact ⟨rfl,rfl,rfl⟩

theorem balanceRight_spec (m : Nodes κ) (a : Addr) (changed : Bool) (l r : BinaryTree Addr)
    (repl : Rep m (m.left a) l) (repr : Rep m (m.right a) r)
    (distinct : (inorder (node a l r)).Nodup) (right : Balanced r)
    (above : r.height ≤ l.height + 2) :
    ∃ m' p' changed', balanceRight m a changed = some (m',p',changed') ∧
      Rebalanced m a changed (l.height + 2 ≤ r.height) (node a l r)
        (Library.Avl.balanceRight a l r) m' p' changed' := by
  have rep := rep_refresh m a l r repl repr distinct
  have fresh := Frame.refresh m a (inorder (node a l r)) (by simp)
  obtain ⟨-,-,repl₁,repr₁⟩ := id rep
  have heavy := bias_node (refresh m a) a l r rep
  by_cases high : l.height + 2 ≤ r.height
  · rcases r with _ | ⟨c,rl,rr⟩
    · simp at high
    obtain ⟨hrl,hrr,first,second⟩ := right
    have rightPointer : m.right a = some c := repr.1
    have inner := bias_node (refresh m a) c rl rr
      (by rw [refresh_right,rightPointer] at repr₁; exact repr₁)
    by_cases outer : rl.height ≤ rr.height
    · obtain ⟨m',done,rep',frame'⟩ := rotateLeft_spec (refresh m a) a c l rl rr repl₁ repr₁ distinct
        (by simp only [height] at above ⊢; omega)
      refine ⟨m',c,changed,?_,?_,fresh.trans (frame'.mono (by simp)),fun _ => rfl,fun low => absurd high low⟩
      · simp only [balanceRight,refresh_right,rightPointer,heavy,inner,done]
        rw [if_pos (by omega),if_pos (by omega)]
        rfl
      · rwa [balanceRight_single a c l rl rr high outer]
    · rcases rl with _ | ⟨b,rll,rlr⟩
      · simp at outer
      obtain ⟨hrll,hrlr,third,fourth⟩ := hrl
      obtain ⟨m',done,rep',frame'⟩ := rotateRightLeft_spec (refresh m a) a b c l rll rlr rr repl₁ repr₁
        distinct (by simp only [height] at *; omega) (by simp only [height] at *; omega)
      refine ⟨m',b,changed,?_,?_,fresh.trans (frame'.mono (by simp)),fun _ => rfl,fun low => absurd high low⟩
      · simp only [balanceRight,refresh_right,rightPointer,heavy,inner,done]
        rw [if_pos (by omega),if_neg (by omega)]
        rfl
      · rwa [balanceRight_double a b c l rll rlr rr high (by omega)]
  · refine ⟨refresh m a,a,decide ((refresh m a).height a ≠ m.height a),?_,?_,fresh,fun raised => absurd raised high,?_⟩
    · simp only [balanceRight,heavy]
      rw [if_neg (by omega)]
    · rwa [balanceRight_of_le a l r (by omega)]
    · intro _
      rw [balanceRight_of_le a l r (by omega),refresh_height m a l r repl repr]
      exact ⟨rfl,rfl,rfl⟩

end Xrossfire.Avltree
