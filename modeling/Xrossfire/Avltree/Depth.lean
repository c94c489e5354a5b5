import Xrossfire.Library.Fuel
import Xrossfire.Avltree.Operations

/-! The fuel of the recursive operations is a bound on the recursion depth only:
a result at one depth is the result at every larger one. -/
namespace Xrossfire.Avltree
open Library

variable {κ : Type}

variable (compare : κ → κ → Int)

theorem insertNode_succ (fuel : Nat) (m : Nodes κ) (p : Option Addr) (n : Addr)
    (r : Nodes κ × Option Addr × Bool × Bool) (run : insertNode compare fuel m p n = some r) :
    insertNode compare (fuel + 1) m p n = some r := by
  induction fuel generalizing m p r with
  | zero => cases run
  | succ fuel ih =>
    cases p with
    | none => exact run
    | some node =>
      simp only [insertNode,Option.bind_eq_bind] at run ⊢
      split_ifs at run ⊢ with less greater
      · obtain ⟨x,call,rest⟩ := Option.bind_eq_some_iff.mp run
        exact Option.bind_eq_some_iff.mpr ⟨x,ih _ _ _ call,rest⟩
      · obtain ⟨x,call,rest⟩ := Option.bind_eq_some_iff.mp run
        exact Option.bind_eq_some_iff.mpr ⟨x,ih _ _ _ call,rest⟩
      · exact run

theorem popMinNode_succ (fuel : Nat) (m : Nodes κ) (node : Addr)
    (r : Nodes κ × Option Addr × Addr × Bool) (run : popMinNode fuel m node = some r) :
    popMinNode (fuel + 1) m node = some r := by
  induction fuel generalizing m node r with
  | zero => cases run
  | succ fuel ih =>
    rw [popMinNode] at run ⊢
    cases here : m.left node with
    | none => simpa only [here] using run
    | some l =>
      simp only [here,Option.bind_eq_bind] at run ⊢
      obtain ⟨x,call,rest⟩ := Option.bind_eq_some_iff.mp run
      exact Option.bind_eq_some_iff.mpr ⟨x,ih _ _ _ call,rest⟩

theorem popMaxNode_succ (fuel : Nat) (m : Nodes κ) (node : Addr)
    (r : Nodes κ × Option Addr × Addr × Bool) (run : popMaxNode fuel m node = some r) :
    popMaxNode (fuel + 1) m node = some r := by
  induction fuel generalizing m node r with
  | zero => cases run
  | succ fuel ih =>
    rw [popMaxNode] at run ⊢
    cases here : m.right node with
    | none => simpa only [here] using run
    | some r =>
      simp only [here,Option.bind_eq_bind] at run ⊢
      obtain ⟨x,call,rest⟩ := Option.bind_eq_some_iff.mp run
      exact Option.bind_eq_some_iff.mpr ⟨x,ih _ _ _ call,rest⟩

theorem unlink_succ (fuel : Nat) (m : Nodes κ) (node : Addr) (r : Nodes κ × Option Addr)
    (run : unlink fuel m node = some r) : unlink (fuel + 1) m node = some r := by
  unfold unlink at run ⊢
  cases here : m.left node with
  | none => simpa only [here] using run
  | some l =>
    simp only [here,Option.bind_eq_bind] at run ⊢
    obtain ⟨x,call,rest⟩ := Option.bind_eq_some_iff.mp run
    exact Option.bind_eq_some_iff.mpr ⟨x,popMaxNode_succ _ _ _ _ call,rest⟩

theorem removeKey_succ (fuel : Nat) (m : Nodes κ) (p : Option Addr) (key : κ)
    (r : Nodes κ × Option Addr × Option Addr) (run : removeKey compare fuel m p key = some r) :
    removeKey compare (fuel + 1) m p key = some r := by
  induction fuel generalizing m p r with
  | zero => cases run
  | succ fuel ih =>
    cases p with
    | none => exact run
    | some node =>
      simp only [removeKey,Option.bind_eq_bind] at run ⊢
      split_ifs at run ⊢ with less greater
      · obtain ⟨x,call,rest⟩ := Option.bind_eq_some_iff.mp run
        exact Option.bind_eq_some_iff.mpr ⟨x,ih _ _ _ call,rest⟩
      · obtain ⟨x,call,rest⟩ := Option.bind_eq_some_iff.mp run
        exact Option.bind_eq_some_iff.mpr ⟨x,ih _ _ _ call,rest⟩
      · obtain ⟨x,call,rest⟩ := Option.bind_eq_some_iff.mp run
        exact Option.bind_eq_some_iff.mpr ⟨x,unlink_succ _ _ _ _ call,rest⟩

theorem getMinNode_succ (fuel : Nat) (m : Nodes κ) (node r : Addr)
    (run : getMinNode fuel m node = some r) : getMinNode (fuel + 1) m node = some r := by
  induction fuel generalizing node with
  | zero => cases run
  | succ fuel ih =>
    rw [getMinNode] at run ⊢
    cases here : m.left node with
    | none => simpa only [here] using run
    | some l =>
      simp only [here] at run ⊢
      exact ih l run

theorem getMaxNode_succ (fuel : Nat) (m : Nodes κ) (node r : Addr)
    (run : getMaxNode fuel m node = some r) : getMaxNode (fuel + 1) m node = some r := by
  induction fuel generalizing node with
  | zero => cases run
  | succ fuel ih =>
    rw [getMaxNode] at run ⊢
    cases here : m.right node with
    | none => simpa only [here] using run
    | some l =>
      simp only [here] at run ⊢
      exact ih l run

theorem countNode_succ (fuel : Nat) (m : Nodes κ) (p : Option Addr) (r : Int)
    (run : countNode fuel m p = some r) : countNode (fuel + 1) m p = some r := by
  induction fuel generalizing p r with
  | zero => cases run
  | succ fuel ih =>
    cases p with
    | none => exact run
    | some node =>
      simp only [countNode,Option.bind_eq_bind] at run ⊢
      obtain ⟨x,first,rest⟩ := Option.bind_eq_some_iff.mp run
      obtain ⟨y,second,last⟩ := Option.bind_eq_some_iff.mp rest
      exact Option.bind_eq_some_iff.mpr ⟨x,ih _ _ first,Option.bind_eq_some_iff.mpr ⟨y,ih _ _ second,last⟩⟩

theorem insert_settles (s : Store κ) (node : Addr) :
    Settles (fun fuel => insert compare fuel s node) := by
  intro fuel r run
  obtain ⟨x,call,rest⟩ := Option.bind_eq_some_iff.mp run
  exact Option.bind_eq_some_iff.mpr ⟨x,insertNode_succ compare _ _ _ _ _ call,rest⟩

theorem remove_settles (s : Store κ) (key : κ) : Settles (fun fuel => remove compare fuel s key) := by
  intro fuel r run
  obtain ⟨x,call,rest⟩ := Option.bind_eq_some_iff.mp run
  exact Option.bind_eq_some_iff.mpr ⟨x,removeKey_succ compare _ _ _ _ _ call,rest⟩

theorem popMin_settles (s : Store κ) : Settles (fun fuel => popMin fuel s) := by
  intro fuel r run
  rcases s with ⟨m,_ | node⟩
  · exact run
  · obtain ⟨x,call,rest⟩ := Option.bind_eq_some_iff.mp run
    exact Option.bind_eq_some_iff.mpr ⟨x,popMinNode_succ _ _ _ _ call,rest⟩

theorem popMax_settles (s : Store κ) : Settles (fun fuel => popMax fuel s) := by
  intro fuel r run
  rcases s with ⟨m,_ | node⟩
  · exact run
  · obtain ⟨x,call,rest⟩ := Option.bind_eq_some_iff.mp run
    exact Option.bind_eq_some_iff.mpr ⟨x,popMaxNode_succ _ _ _ _ call,rest⟩

theorem getMin_settles (s : Store κ) : Settles (fun fuel => getMin fuel s) := by
  intro fuel r run
  rcases s with ⟨m,_ | node⟩
  · exact run
  · exact Settles.map (fun fuel r => getMinNode_succ fuel m node r) some fuel r run

theorem getMax_settles (s : Store κ) : Settles (fun fuel => getMax fuel s) := by
  intro fuel r run
  rcases s with ⟨m,_ | node⟩
  · exact run
  · exact Settles.map (fun fuel r => getMaxNode_succ fuel m node r) some fuel r run

theorem count_settles (s : Store κ) : Settles (fun fuel => count fuel s) :=
  fun fuel r run => countNode_succ fuel s.nodes s.root r run

end Xrossfire.Avltree
