import Xrossfire.Avltree.Refinement

/-! The recursive operations of `avltree.h` against the tree operations.
Every recursion keeps the same contract: the returned pointer represents the
rebuilt tree, and a cleared `*changed` means that the pointer is the old one and
the height too, so that a skipped store would have been the identity. -/
namespace Xrossfire.Avltree
open BinaryTree Library.Avl

variable {κ : Type}

structure Rebuilt (m : Nodes κ) (p : Option Addr) (s : List Addr) (t t' : BinaryTree Addr)
    (m' : Nodes κ) (p' : Option Addr) (changed : Bool) : Prop where
  rep : Rep m' p' t'
  frame : Frame m m' s
  kept : changed = false → p' = p ∧ t'.height = t.height

theorem link_left (m m₁ : Nodes κ) (a : Addr) (p₁ : Option Addr) (s : List Addr)
    (l' r : BinaryTree Addr) (rep₁ : Rep m₁ p₁ l') (repr : Rep m (m.right a) r)
    (frame : Frame m m₁ s) (out : a ∉ s) (outl : a ∉ inorder l') (outr : a ∉ inorder r)
    (apart : ∀ x ∈ inorder r, x ∉ s) :
    Rep (m₁.setLeft a p₁) ((m₁.setLeft a p₁).left a) l' ∧
      Rep (m₁.setLeft a p₁) ((m₁.setLeft a p₁).right a) r ∧
      Frame m (m₁.setLeft a p₁) (a :: s) := by
  have linked : Frame m₁ (m₁.setLeft a p₁) [a] := Frame.setLeft m₁ a _ _ (by simp)
  refine ⟨?_,?_,(frame.mono (List.subset_cons_self a s)).trans (linked.mono (by simp))⟩
  · rw [Nodes.setLeft_left,Function.update_self]
    exact rep_frame linked l' _ rep₁ (by grind)
  · have same : (m₁.setLeft a p₁).right a = m.right a := frame.right a out
    rw [same]
    exact rep_frame linked r _ (rep_frame frame r _ repr apart) (by grind)

theorem link_right (m m₁ : Nodes κ) (a : Addr) (p₁ : Option Addr) (s : List Addr)
    (l r' : BinaryTree Addr) (rep₁ : Rep m₁ p₁ r') (repl : Rep m (m.left a) l)
    (frame : Frame m m₁ s) (out : a ∉ s) (outr : a ∉ inorder r') (outl : a ∉ inorder l)
    (apart : ∀ x ∈ inorder l, x ∉ s) :
    Rep (m₁.setRight a p₁) ((m₁.setRight a p₁).left a) l ∧
      Rep (m₁.setRight a p₁) ((m₁.setRight a p₁).right a) r' ∧
      Frame m (m₁.setRight a p₁) (a :: s) := by
  have linked : Frame m₁ (m₁.setRight a p₁) [a] := Frame.setRight m₁ a _ _ (by simp)
  refine ⟨?_,?_,(frame.mono (List.subset_cons_self a s)).trans (linked.mono (by simp))⟩
  · have same : (m₁.setRight a p₁).left a = m.left a := frame.left a out
    rw [same]
    exact rep_frame linked l _ (rep_frame frame l _ repl apart) (by grind)
  · rw [Nodes.setRight_right,Function.update_self]
    exact rep_frame linked r' _ rep₁ (by grind)

/-- A skipped store on the left: the child pointer in memory already is the returned one. -/
theorem skip_left (m m₁ : Nodes κ) (a : Addr) (p₁ : Option Addr) (s : List Addr)
    (l l' r : BinaryTree Addr) (rep : Rep m (some a) (node a l r))
    (child : Rebuilt m (m.left a) s l l' m₁ p₁ false) (out : a ∉ s)
    (apart : ∀ x ∈ inorder r, x ∉ s) : Rep m₁ (some a) (node a l' r) := by
  obtain ⟨-,high,-,repr⟩ := rep
  obtain ⟨same,size⟩ := child.kept rfl
  refine ⟨rfl,?_,?_,?_⟩
  · rw [child.frame.height a out,high]
    simp only [height,size]
  · rw [child.frame.left a out,← same]
    exact child.rep
  · rw [child.frame.right a out]
    exact rep_frame child.frame r _ repr apart

theorem skip_right (m m₁ : Nodes κ) (a : Addr) (p₁ : Option Addr) (s : List Addr)
    (l r r' : BinaryTree Addr) (rep : Rep m (some a) (node a l r))
    (child : Rebuilt m (m.right a) s r r' m₁ p₁ false) (out : a ∉ s)
    (apart : ∀ x ∈ inorder l, x ∉ s) : Rep m₁ (some a) (node a l r') := by
  obtain ⟨-,high,repl,-⟩ := rep
  obtain ⟨same,size⟩ := child.kept rfl
  refine ⟨rfl,?_,?_,?_⟩
  · rw [child.frame.height a out,high]
    simp only [height,size]
  · rw [child.frame.left a out]
    exact rep_frame child.frame l _ repl apart
  · rw [child.frame.right a out,← same]
    exact child.rep

/-- Rebalancing after a store: the flag compares with the height the node had before the call. -/
theorem Rebalanced.rebuilt {m m₂ m' : Nodes κ} {a p' : Addr} {changed changed' : Bool} {high : Prop}
    {s : List Addr} {t u t' : BinaryTree Addr} (done : Rebalanced m₂ a changed high u t' m' p' changed')
    (frame : Frame m m₂ s) (sub : inorder u ⊆ s) (old : m₂.height a = (t.height : Int))
    (raised : high → changed = true) : Rebuilt m (some a) s t t' m' (some p') changed' where
  rep := done.rep
  frame := frame.trans (done.frame.mono sub)
  kept cleared := by
    by_cases above : high
    · rw [done.rotated above,raised above] at cleared
      cases cleared
    · obtain ⟨same,tree,flag⟩ := done.kept above
      rw [flag,old,decide_eq_false_iff_not,not_not] at cleared
      exact ⟨congrArg some same,by rw [tree]; exact_mod_cast cleared⟩

/-! ## insert_node_ -/

variable (compare : κ → κ → Int)

def sign (m : Nodes κ) (key : κ) (a : Addr) : Int := compare key (m.key a)

theorem insertNode_spec (fuel : Nat) (m : Nodes κ) (p : Option Addr) (t : BinaryTree Addr) (n : Addr)
    (rep : Rep m p t) (distinct : (inorder t).Nodup) (balanced : Balanced t)
    (fresh : n ∉ inorder t) (leaf : m.left n = none ∧ m.right n = none) (enough : t.height < fuel) :
    ∃ m' p' inserted changed, insertNode compare fuel m p n = some (m',p',inserted,changed) ∧
      Rebuilt m p (n :: inorder t) t (Library.Avl.insert (sign compare m (m.key n)) n t) m' p' changed ∧
      inserted = (find (sign compare m (m.key n)) t).isNone ∧
      (inserted = false → m' = m ∧ p' = p ∧ changed = false) := by
  induction fuel generalizing p t with
  | zero => omega
  | succ fuel ih =>
    cases t with
    | nil =>
      cases rep
      refine ⟨m.setHeight n 1,some n,true,true,rfl,⟨⟨rfl,?_,?_,?_⟩,?_,by simp⟩,rfl,by simp⟩
      · simp
      · exact leaf.1
      · exact leaf.2
      · exact Frame.setHeight m n 1 _ (by simp)
    | node a l r =>
      obtain ⟨rfl,high,repl,repr⟩ := id rep
      obtain ⟨bl,br,first,second⟩ := balanced
      have parts := distinct
      simp only [inorder_node,List.nodup_append,List.nodup_cons,List.mem_cons] at parts
      simp only [inorder_node,List.mem_append,List.mem_cons,not_or] at fresh
      have deep : l.height < fuel ∧ r.height < fuel := by
        simp only [height] at enough
        omega
      simp only [insertNode,Library.Avl.insert,find]
      rw [show compare (m.key n) (m.key a) = sign compare m (m.key n) a from rfl]
      by_cases less : sign compare m (m.key n) a < 0
      · rw [if_pos less,if_pos less,if_pos less]
        obtain ⟨m₁,p₁,inserted,changed,call,child,flag,idle⟩ :=
          ih (m.left a) l repl parts.1 bl fresh.1 deep.1
        rw [call]
        have out : a ∉ n :: inorder l := by grind
        have apart : ∀ x ∈ inorder r, x ∉ n :: inorder l := by grind
        cases changed with
        | false =>
          refine ⟨m₁,some a,inserted,false,rfl,⟨?_,child.frame.mono (by grind [inorder_node]),?_⟩,flag,
            fun unset => ⟨(idle unset).1,rfl,rfl⟩⟩
          · rw [balanceLeft_of_le _ _ _ (by rw [(child.kept rfl).2]; exact first)]
            exact skip_left m m₁ a p₁ _ l _ r rep child out apart
          · intro _
            rw [balanceLeft_of_le _ _ _ (by rw [(child.kept rfl).2]; exact first)]
            simp only [height,(child.kept rfl).2,and_self]
        | true =>
          obtain ⟨repl₂,repr₂,frame₂⟩ := link_left m m₁ a p₁ _ _ r child.rep repr child.frame out
            (fun inside => out (insert_subset _ _ _ inside)) (by grind) apart
          obtain ⟨grown,low,up⟩ := insert_balanced (sign compare m (m.key n)) n l bl
          have distinct₂ : (inorder (node a (Library.Avl.insert (sign compare m (m.key n)) n l) r)).Nodup := by
            have := insert_nodup (sign compare m (m.key n)) n l parts.1 fresh.1
            have := insert_subset (sign compare m (m.key n)) n l
            simp only [inorder_node,List.nodup_append,List.nodup_cons,List.mem_cons]
            grind
          obtain ⟨m',p',changed',done,result⟩ := balanceLeft_spec _ a true _ r repl₂ repr₂ distinct₂ grown
            (by omega)
          refine ⟨m',some p',inserted,changed',?_,?_,flag,fun unset => absurd (idle unset).2.2 (by simp)⟩
          · simp [done]
          · refine result.rebuilt (frame₂.mono (by grind [inorder_node])) ?_ ?_ (fun _ => rfl)
            · have := insert_subset (sign compare m (m.key n)) n l
              simp only [inorder_node]
              grind
            · exact (child.frame.height a out).trans high
      · rw [if_neg less,if_neg less,if_neg less]
        by_cases greater : sign compare m (m.key n) a > 0
        · rw [if_pos greater,if_pos greater,if_pos greater]
          obtain ⟨m₁,p₁,inserted,changed,call,child,flag,idle⟩ :=
            ih (m.right a) r repr parts.2.1.2 br fresh.2.2 deep.2
          rw [call]
          have out : a ∉ n :: inorder r := by grind
          have apart : ∀ x ∈ inorder l, x ∉ n :: inorder r := by grind
          cases inserted with
          | false =>
            obtain ⟨rfl,rfl,rfl⟩ := idle rfl
            have found : find (sign compare m₁ (m₁.key n)) r ≠ none := by
              intro missing
              rw [missing] at flag
              cases flag
            rw [insert_present _ n r br found,balanceRight_of_le _ _ _ second]
            exact ⟨m₁,some a,false,false,rfl,⟨rep,Frame.refl _ _,fun _ => ⟨rfl,rfl⟩⟩,flag,
              fun _ => ⟨rfl,rfl,rfl⟩⟩
          | true =>
            obtain ⟨repl₂,repr₂,frame₂⟩ := link_right m m₁ a p₁ _ l _ child.rep repl child.frame out
              (fun inside => out (insert_subset _ _ _ inside)) (by grind) apart
            obtain ⟨grown,low,up⟩ := insert_balanced (sign compare m (m.key n)) n r br
            have distinct₂ : (inorder (node a l (Library.Avl.insert (sign compare m (m.key n)) n r))).Nodup := by
              have := insert_nodup (sign compare m (m.key n)) n r parts.2.1.2 fresh.2.2
              have := insert_subset (sign compare m (m.key n)) n r
              simp only [inorder_node,List.nodup_append,List.nodup_cons,List.mem_cons]
              grind
            obtain ⟨m',p',changed',done,result⟩ := balanceRight_spec _ a changed l _ repl₂ repr₂ distinct₂
              grown (by omega)
            refine ⟨m',some p',true,changed',?_,?_,flag,by simp⟩
            · simp [done]
            · refine result.rebuilt (frame₂.mono (by grind [inorder_node])) ?_ ?_ ?_
              · have := insert_subset (sign compare m (m.key n)) n r
                simp only [inorder_node]
                grind
              · exact (child.frame.height a out).trans high
              · -- the right side may rebalance with a cleared flag, but then nothing has grown
                intro raised
                by_contra cleared
                have := (child.kept (by simpa using cleared)).2
                omega
        · rw [if_neg greater,if_neg greater,if_neg greater]
          exact ⟨m,some a,false,false,rfl,⟨rep,Frame.refl _ _,fun _ => ⟨rfl,rfl⟩⟩,rfl,fun _ => ⟨rfl,rfl,rfl⟩⟩

/-! ## pop_min_, pop_max_, remove_min_ and remove_max_ -/

theorem popMinNode_spec (fuel : Nat) (m : Nodes κ) (b : Addr) (ll lr : BinaryTree Addr)
    (rep : Rep m (some b) (node b ll lr)) (distinct : (inorder (node b ll lr)).Nodup)
    (balanced : Balanced (node b ll lr)) (enough : (node b ll lr).height < fuel + 1) :
    ∃ m' p' min changed, popMinNode fuel m b = some (m',p',min,changed) ∧
      Rebuilt m (some b) (inorder (node b ll lr)) (node b ll lr) (dropMin (node b ll lr)) m' p' changed ∧
      (inorder (node b ll lr)).head? = some min := by
  induction fuel generalizing b ll lr with
  | zero => simp only [height] at enough; omega
  | succ fuel ih =>
    obtain ⟨-,high,repl,repr⟩ := id rep
    obtain ⟨bl,br,first,second⟩ := balanced
    have parts := distinct
    simp only [inorder_node,List.nodup_append,List.nodup_cons,List.mem_cons] at parts
    simp only [popMinNode]
    rcases ll with _ | ⟨c,cl,cr⟩
    · have empty : m.left b = none := repl
      rw [empty]
      exact ⟨m,m.right b,b,true,rfl,⟨repr,Frame.refl _ _,by simp⟩,rfl⟩
    · have here : m.left b = some c := repl.1
      obtain ⟨m₁,p₁,min,changed,call,child,least⟩ := ih c cl cr (by rw [here] at repl; exact repl) parts.1 bl
        (by rw [height.eq_2] at enough; omega)
      simp only [here,call,Option.bind_eq_bind,Option.bind_some]
      have least' : (inorder (node b (node c cl cr) lr)).head? = some min := by
        rw [inorder_node,List.head?_append,least]
        rfl
      have out : b ∉ inorder (node c cl cr) := by grind
      have apart : ∀ x ∈ inorder lr, x ∉ inorder (node c cl cr) := by grind
      have inside := (dropMin_sublist (node c cl cr)).subset
      obtain ⟨shrunk,low,up⟩ := dropMin_balanced (node c cl cr) bl
      rw [dropMin]
      cases changed with
      | false =>
        refine ⟨m₁,some b,min,false,rfl,⟨?_,child.frame.mono (by grind [inorder_node]),?_⟩,least'⟩
        · rw [balanceRight_of_le _ _ _ (by rw [(child.kept rfl).2]; exact second)]
          exact skip_left m m₁ b p₁ _ _ _ lr rep (by rw [here]; exact child) out apart
        · intro _
          rw [balanceRight_of_le _ _ _ (by rw [(child.kept rfl).2]; exact second),height.eq_2,height.eq_2,
            (child.kept rfl).2]
          exact ⟨rfl,rfl⟩
      | true =>
        obtain ⟨repl₂,repr₂,frame₂⟩ := link_left m m₁ b p₁ _ _ lr child.rep repr child.frame out
          (fun member => out (inside member)) (by grind) apart
        have distinct₂ : (inorder (node b (dropMin (node c cl cr)) lr)).Nodup :=
          List.Nodup.sublist ((dropMin_sublist _).append (List.Sublist.refl _)) distinct
        obtain ⟨m',p',changed',done,result⟩ := balanceRight_spec _ b true _ lr repl₂ repr₂ distinct₂ br
          (by omega)
        refine ⟨m',some p',min,changed',?_,?_,least'⟩
        · simp only [if_true,done,Option.bind_some]
          rfl
        · refine result.rebuilt (frame₂.mono (by grind [inorder_node])) ?_ ?_ (fun _ => rfl)
          · rw [inorder_node,inorder_node]
            exact ((dropMin_sublist _).append (List.Sublist.refl _)).subset
          · exact (child.frame.height b out).trans high

theorem popMaxNode_spec (fuel : Nat) (m : Nodes κ) (c : Addr) (rl rr : BinaryTree Addr)
    (rep : Rep m (some c) (node c rl rr)) (distinct : (inorder (node c rl rr)).Nodup)
    (balanced : Balanced (node c rl rr)) (enough : (node c rl rr).height < fuel + 1) :
    ∃ m' p' max changed, popMaxNode fuel m c = some (m',p',max,changed) ∧
      Rebuilt m (some c) (inorder (node c rl rr)) (node c rl rr) (dropMax (node c rl rr)) m' p' changed ∧
      (inorder (node c rl rr)).getLast? = some max := by
  induction fuel generalizing c rl rr with
  | zero => simp only [height] at enough; omega
  | succ fuel ih =>
    obtain ⟨-,high,repl,repr⟩ := id rep
    obtain ⟨bl,br,first,second⟩ := balanced
    have parts := distinct
    simp only [inorder_node,List.nodup_append,List.nodup_cons,List.mem_cons] at parts
    simp only [popMaxNode]
    rcases rr with _ | ⟨d,dl,dr⟩
    · have empty : m.right c = none := repr
      rw [empty]
      exact ⟨m,m.left c,c,true,rfl,⟨repl,Frame.refl _ _,by simp⟩,by simp⟩
    · have here : m.right c = some d := repr.1
      obtain ⟨m₁,p₁,max,changed,call,child,greatest⟩ := ih d dl dr (by rw [here] at repr; exact repr)
        parts.2.1.2 br (by rw [height.eq_2] at enough; omega)
      simp only [here,call,Option.bind_eq_bind,Option.bind_some]
      have greatest' : (inorder (node c rl (node d dl dr))).getLast? = some max := by
        rw [inorder_node,List.getLast?_append_of_ne_nil _ (by simp),
          List.getLast?_cons_of_ne_nil (by simp),greatest]
      have out : c ∉ inorder (node d dl dr) := by grind
      have apart : ∀ x ∈ inorder rl, x ∉ inorder (node d dl dr) := by grind
      have inside := (dropMax_sublist (node d dl dr)).subset
      obtain ⟨shrunk,low,up⟩ := dropMax_balanced (node d dl dr) br
      rw [dropMax]
      cases changed with
      | false =>
        refine ⟨m₁,some c,max,false,rfl,⟨?_,child.frame.mono (by grind [inorder_node]),?_⟩,greatest'⟩
        · rw [balanceLeft_of_le _ _ _ (by rw [(child.kept rfl).2]; exact first)]
          exact skip_right m m₁ c p₁ _ rl _ _ rep (by rw [here]; exact child) out apart
        · intro _
          rw [balanceLeft_of_le _ _ _ (by rw [(child.kept rfl).2]; exact first),height.eq_2,height.eq_2,
            (child.kept rfl).2]
          exact ⟨rfl,rfl⟩
      | true =>
        obtain ⟨repl₂,repr₂,frame₂⟩ := link_right m m₁ c p₁ _ rl _ child.rep repl child.frame out
          (fun member => out (inside member)) (by grind) apart
        have distinct₂ : (inorder (node c rl (dropMax (node d dl dr)))).Nodup :=
          List.Nodup.sublist ((List.Sublist.refl _).append ((dropMax_sublist _).cons_cons c)) distinct
        obtain ⟨m',p',changed',done,result⟩ := balanceLeft_spec _ c true rl _ repl₂ repr₂ distinct₂ bl
          (by omega)
        refine ⟨m',some p',max,changed',?_,?_,greatest'⟩
        · simp only [if_true,done,Option.bind_some]
          rfl
        · refine result.rebuilt (frame₂.mono (by grind [inorder_node])) ?_ ?_ (fun _ => rfl)
          · rw [inorder_node,inorder_node]
            exact ((List.Sublist.refl _).append ((dropMax_sublist _).cons_cons c)).subset
          · exact (child.frame.height c out).trans high

/-- `remove_min_` is `pop_min_` without the out-parameter for the node. -/
theorem removeMinNode_eq (fuel : Nat) (m : Nodes κ) (node : Addr) :
    removeMinNode fuel m node = (popMinNode fuel m node).map (fun (m,p,_,changed) => (m,p,changed)) := by
  induction fuel generalizing m node with
  | zero => rfl
  | succ fuel ih =>
    simp only [removeMinNode,popMinNode]
    cases m.left node with
    | none => rfl
    | some l =>
      simp only [ih]
      cases popMinNode fuel m l with
      | none => rfl
      | some result =>
        obtain ⟨m₁,p₁,min,changed⟩ := result
        cases changed
        · rfl
        · simp only [Option.map_some,Option.bind_eq_bind,Option.bind_some,if_true]
          cases balanceRight (m₁.setLeft node p₁) node true <;> rfl

theorem removeMaxNode_eq (fuel : Nat) (m : Nodes κ) (node : Addr) :
    removeMaxNode fuel m node = (popMaxNode fuel m node).map (fun (m,p,_,changed) => (m,p,changed)) := by
  induction fuel generalizing m node with
  | zero => rfl
  | succ fuel ih =>
    simp only [removeMaxNode,popMaxNode]
    cases m.right node with
    | none => rfl
    | some r =>
      simp only [ih]
      cases popMaxNode fuel m r with
      | none => rfl
      | some result =>
        obtain ⟨m₁,p₁,max,changed⟩ := result
        cases changed
        · rfl
        · simp only [Option.map_some,Option.bind_eq_bind,Option.bind_some,if_true]
          cases balanceLeft (m₁.setRight node p₁) node true <;> rfl

/-! ## remove_key_ -/

theorem unlink_spec (fuel : Nat) (m : Nodes κ) (a : Addr) (l r : BinaryTree Addr)
    (rep : Rep m (some a) (node a l r)) (distinct : (inorder (node a l r)).Nodup)
    (balanced : Balanced (node a l r)) (enough : l.height < fuel + 1) :
    ∃ m' p', unlink fuel m a = some (m',p') ∧ Rep m' p' (promote l r) ∧
      Frame m m' (inorder (node a l r)) := by
  obtain ⟨-,high,repl,repr⟩ := rep
  obtain ⟨bl,br,first,second⟩ := balanced
  have parts := distinct
  simp only [inorder_node,List.nodup_append,List.nodup_cons,List.mem_cons] at parts
  unfold unlink
  rcases l with _ | ⟨b,ll,lr⟩
  · have empty : m.left a = none := repl
    rw [empty]
    exact ⟨m,m.right a,rfl,repr,Frame.refl _ _⟩
  · have here : m.left a = some b := repl.1
    obtain ⟨m₁,p₁,promotion,changed,call,child,greatest⟩ := popMaxNode_spec fuel m b ll lr
      (by rw [here] at repl; exact repl) parts.1 bl enough
    simp only [here,call,Option.bind_eq_bind,Option.bind_some]
    have whole : inorder (dropMax (node b ll lr)) ++ [promotion] = inorder (node b ll lr) := by
      rw [inorder_dropMax]
      exact List.dropLast_append_getLast? promotion greatest
    have member : promotion ∈ inorder (node b ll lr) := by rw [← whole]; simp
    have gone : promotion ∉ inorder (dropMax (node b ll lr)) := by
      have := parts.1
      rw [← whole] at this
      simp only [List.nodup_append,List.mem_singleton] at this
      grind
    have inside := (dropMax_sublist (node b ll lr)).subset
    obtain ⟨shrunk,low,up⟩ := dropMax_balanced (node b ll lr) bl
    let m₂ := (m₁.setLeft promotion p₁).setRight promotion ((m₁.setLeft promotion p₁).right a)
    have linked : Frame m₁ m₂ [promotion] :=
      (Frame.setLeft m₁ promotion _ _ (by simp)).trans (Frame.setRight _ promotion _ _ (by simp))
    have pointerLeft : m₂.left promotion = p₁ := by simp [m₂]
    have pointerRight : m₂.right promotion = m.right a := by
      simp only [m₂,Nodes.setRight_right,Function.update_self,Nodes.setLeft_right]
      exact child.frame.right a (by grind)
    have repl₂ : Rep m₂ (m₂.left promotion) (dropMax (node b ll lr)) := by
      rw [pointerLeft]
      exact rep_frame linked _ _ child.rep (by grind)
    have repr₂ : Rep m₂ (m₂.right promotion) r := by
      rw [pointerRight]
      exact rep_frame linked _ _ (rep_frame child.frame r _ repr (by grind)) (by grind)
    have distinct₂ : (inorder (node promotion (dropMax (node b ll lr)) r)).Nodup := by
      have := parts.1.sublist (dropMax_sublist (node b ll lr))
      simp only [inorder_node,List.nodup_append,List.nodup_cons,List.mem_cons]
      grind
    obtain ⟨m',p',changed',done,result⟩ := balanceRight_spec m₂ promotion changed _ r repl₂ repr₂ distinct₂
      br (by omega)
    refine ⟨m',some p',?_,?_,?_⟩
    · simp only [m₂] at done
      simp only [done,Option.bind_some]
      rfl
    · simp only [promote,greatest]
      exact result.rep
    · have outer : Frame m m₂ (inorder (node a (node b ll lr) r)) :=
        (child.frame.mono (by grind [inorder_node])).trans (linked.mono (by grind [inorder_node]))
      exact outer.trans (result.frame.mono (by grind [inorder_node]))

theorem removeKey_spec (fuel : Nat) (m : Nodes κ) (p : Option Addr) (t : BinaryTree Addr) (key : κ)
    (rep : Rep m p t) (distinct : (inorder t).Nodup) (balanced : Balanced t)
    (enough : t.height < fuel) :
    ∃ m' p' removed, removeKey compare fuel m p key = some (m',p',removed) ∧
      Rep m' p' (Library.Avl.remove (sign compare m key) t) ∧ Frame m m' (inorder t) ∧
      removed = find (sign compare m key) t ∧ (removed = none → m' = m ∧ p' = p) := by
  induction fuel generalizing p t with
  | zero => omega
  | succ fuel ih =>
    cases t with
    | nil =>
      cases rep
      exact ⟨m,none,none,rfl,rfl,Frame.refl _ _,rfl,fun _ => ⟨rfl,rfl⟩⟩
    | node a l r =>
      obtain ⟨rfl,high,repl,repr⟩ := id rep
      obtain ⟨bl,br,first,second⟩ := id balanced
      have parts := distinct
      simp only [inorder_node,List.nodup_append,List.nodup_cons,List.mem_cons] at parts
      have deep : l.height < fuel ∧ r.height < fuel := by
        simp only [height] at enough
        omega
      simp only [removeKey,Library.Avl.remove,find]
      rw [show compare key (m.key a) = sign compare m key a from rfl]
      by_cases less : sign compare m key a < 0
      · rw [if_pos less,if_pos less,if_pos less]
        obtain ⟨m₁,p₁,removed,call,rep₁,frame₁,flag,idle⟩ := ih (m.left a) l repl parts.1 bl deep.1
        rw [call]
        cases removed with
        | none =>
          obtain ⟨rfl,rfl⟩ := idle rfl
          rw [remove_absent _ l bl flag.symm,balanceRight_of_le _ _ _ second]
          refine ⟨m₁,some a,none,?_,rep,Frame.refl _ _,flag,fun _ => ⟨rfl,rfl⟩⟩
          simp
        | some found =>
          have inside := (remove_sublist (sign compare m key) l).subset
          obtain ⟨repl₂,repr₂,frame₂⟩ := link_left m m₁ a p₁ _ _ r rep₁ repr frame₁ (by grind)
            (by grind) (by grind) (by grind)
          obtain ⟨shrunk,low,up⟩ := remove_balanced (sign compare m key) l bl
          have kept := (remove_sublist (sign compare m key) l).append (List.Sublist.refl (a :: inorder r))
          obtain ⟨m',p',changed',done,result⟩ := balanceRight_spec _ a false _ r repl₂ repr₂
            (List.Nodup.sublist kept distinct) br (by omega)
          refine ⟨m',some p',some found,?_,result.rep,?_,flag,by simp⟩
          · simp [done]
          · exact (frame₂.mono (by grind [inorder_node])).trans (result.frame.mono kept.subset)
      · rw [if_neg less,if_neg less,if_neg less]
        by_cases greater : sign compare m key a > 0
        · rw [if_pos greater,if_pos greater,if_pos greater]
          obtain ⟨m₁,p₁,removed,call,rep₁,frame₁,flag,idle⟩ := ih (m.right a) r repr parts.2.1.2 br deep.2
          rw [call]
          cases removed with
          | none =>
            obtain ⟨rfl,rfl⟩ := idle rfl
            rw [remove_absent _ r br flag.symm,balanceLeft_of_le _ _ _ first]
            refine ⟨m₁,some a,none,?_,rep,Frame.refl _ _,flag,fun _ => ⟨rfl,rfl⟩⟩
            simp
          | some found =>
            have inside := (remove_sublist (sign compare m key) r).subset
            obtain ⟨repl₂,repr₂,frame₂⟩ := link_right m m₁ a p₁ _ l _ rep₁ repl frame₁ (by grind)
              (by grind) (by grind) (by grind)
            obtain ⟨shrunk,low,up⟩ := remove_balanced (sign compare m key) r br
            have kept := (List.Sublist.refl (inorder l)).append
              ((remove_sublist (sign compare m key) r).cons_cons a)
            obtain ⟨m',p',changed',done,result⟩ := balanceLeft_spec _ a false l _ repl₂ repr₂
              (List.Nodup.sublist kept distinct) bl (by omega)
            refine ⟨m',some p',some found,?_,result.rep,?_,flag,by simp⟩
            · simp [done]
            · exact (frame₂.mono (by grind [inorder_node])).trans (result.frame.mono kept.subset)
        · rw [if_neg greater,if_neg greater,if_neg greater]
          obtain ⟨m',p',done,rep',frame'⟩ := unlink_spec fuel m a l r rep distinct balanced (by omega)
          refine ⟨m',p',some a,?_,rep',frame',rfl,by simp⟩
          simp [done]

/-! ## get_min_, get_max_ and count_ -/

theorem getMinNode_spec (fuel : Nat) (m : Nodes κ) (b : Addr) (ll lr : BinaryTree Addr)
    (rep : Rep m (some b) (node b ll lr)) (enough : (node b ll lr).height < fuel + 1) :
    getMinNode fuel m b = (inorder (node b ll lr)).head? := by
  induction fuel generalizing b ll lr with
  | zero => simp only [height] at enough; omega
  | succ fuel ih =>
    obtain ⟨-,-,repl,-⟩ := rep
    rcases ll with _ | ⟨c,cl,cr⟩
    · have empty : m.left b = none := repl
      simp [getMinNode,empty]
    · have here : m.left b = some c := repl.1
      rw [height.eq_2] at enough
      rw [getMinNode,here,inorder_node]
      dsimp only
      rw [ih c cl cr (by rw [here] at repl; exact repl) (by omega),List.head?_append]
      cases least : (inorder (node c cl cr)).head? with
      | none => simp at least
      | some min => rfl

theorem getMaxNode_spec (fuel : Nat) (m : Nodes κ) (c : Addr) (rl rr : BinaryTree Addr)
    (rep : Rep m (some c) (node c rl rr)) (enough : (node c rl rr).height < fuel + 1) :
    getMaxNode fuel m c = (inorder (node c rl rr)).getLast? := by
  induction fuel generalizing c rl rr with
  | zero => simp only [height] at enough; omega
  | succ fuel ih =>
    obtain ⟨-,-,-,repr⟩ := rep
    rcases rr with _ | ⟨d,dl,dr⟩
    · have empty : m.right c = none := repr
      simp [getMaxNode,empty]
    · have here : m.right c = some d := repr.1
      rw [height.eq_2] at enough
      rw [getMaxNode,here,inorder_node,List.getLast?_append_of_ne_nil _ (by simp),
        List.getLast?_cons_of_ne_nil (by simp)]
      exact ih d dl dr (by rw [here] at repr; exact repr) (by omega)

theorem countNode_spec (fuel : Nat) (m : Nodes κ) (p : Option Addr) (t : BinaryTree Addr)
    (rep : Rep m p t) (enough : t.height < fuel) :
    countNode fuel m p = some ((inorder t).length : Int) := by
  induction fuel generalizing p t with
  | zero => omega
  | succ fuel ih =>
    cases t with
    | nil => cases rep; rfl
    | node a l r =>
      obtain ⟨rfl,-,repl,repr⟩ := rep
      simp only [height] at enough
      simp only [countNode,ih _ l repl (by omega),ih _ r repr (by omega),Option.bind_eq_bind,
        Option.bind_some,inorder_node,List.length_append,List.length_cons,Option.pure_def,Option.some.injEq]
      omega

end Xrossfire.Avltree
