import Xrossfire.Poll.Registry
import Xrossfire.Library.Cursor
import Xrossfire.Library.Run
import Xrossfire.Library.Simulation

/-! One call of `xf_poll_process` while the procedures it calls add and remove procedures, themselves included. The
loop goes by index, and looks at `n_pollings` each time. -/
namespace Xrossfire.Poll
open Library Relation

variable {α : Type} [DecidableEq α]

structure Pass (α : Type) where
  registry : Registry α
  i : Nat
  /-- A procedure is running. -/
  running : Bool
  called : List α
  /-- What was registered during the pass, removed before its turn, and passed over; no code reads them. -/
  added : List α
  withdrawn : List α
  missed : List α

inductive PassEvent (α : Type)
  | call
  | returns
  | add (obj : α)
  | remove (obj : α)

namespace Pass

def start (r : Registry α) : Pass α := ⟨r,0,false,[],[],[],[]⟩

def next (p : Pass α) : Nat := if p.running = true then p.i + 1 else p.i

def todo (p : Pass α) : List α := (registered p.registry).drop p.next

def step (p : Pass α) : PassEvent α → Option (Pass α)
  | .call =>
    if p.running = false ∧ p.i < p.registry.nPollings then do
      let entry ← p.registry.pollings[p.i]?
      return {p with running := true, called := p.called ++ [entry]}
    else none
  | .returns => if p.running = true then some {p with running := false, i := p.i + 1} else none
  | .add obj =>
    if p.running = true then do
      let (registry,_) ← Poll.add p.registry obj
      let missed := if p.registry.nPollings ≤ p.i then [obj] else []
      return {p with registry := registry, added := p.added ++ [obj], missed := p.missed ++ missed}
    else none
  | .remove obj =>
    if p.running = true then do
      let registry ← Poll.remove p.registry obj
      let xs := registered p.registry
      if obj ∉ xs then return {p with registry := registry}
      else if xs.idxOf obj ≤ p.i then
        return {p with registry := registry, missed := p.missed ++ p.todo.head?.toList}
      else return {p with registry := registry, withdrawn := p.withdrawn ++ [obj]}
    else none

def walk (p : Pass α) : Walk α := ⟨p.todo,p.called,p.added,p.withdrawn,p.missed⟩

end Pass

section
variable {p p' : Pass α} {r : Registry α} {event : PassEvent α}

theorem call_walks (fits : p.registry.nPollings ≤ 16) (run : p.step .call = some p') : Walks p.walk p'.walk := by
  obtain ⟨⟨idle,more⟩,run⟩ := Option.ite_none_right_eq_some.mp run
  obtain ⟨entry,here,run⟩ := Option.bind_eq_some_iff.mp run
  cases run
  apply Walks.visit
  have listed : p.i < (registered p.registry).length := by
    rw [registered_length p.registry fits]
    exact more
  have same : (registered p.registry)[p.i]? = some entry := by
    rw [registered_getElem?,if_pos more]
    exact here
  rw [List.getElem?_eq_getElem listed] at same
  simp only [Pass.walk,Pass.todo,Pass.next,idle,Bool.false_eq_true,if_false,if_true]
  rw [List.drop_eq_getElem_cons listed,Option.some.inj same]

theorem returns_walk (run : p.step .returns = some p') : p'.walk = p.walk := by
  obtain ⟨running,run⟩ := Option.ite_none_right_eq_some.mp run
  cases run
  simp [Pass.walk,Pass.todo,Pass.next,running]

/-- A procedure that is added goes to the end; after removals that may be behind the index. -/
theorem add_walks {obj : α} (fits : p.registry.nPollings ≤ 16) (run : p.step (.add obj) = some p') :
    ReflTransGen Walks p.walk p'.walk ∧ p'.registry.nPollings ≤ 16 := by
  obtain ⟨running,run⟩ := Option.ite_none_right_eq_some.mp run
  obtain ⟨⟨registry,err⟩,added,run⟩ := Option.bind_eq_some_iff.mp run
  by_cases room : p.registry.nPollings < 16
  · obtain ⟨r',same,size,list⟩ := add_of_room p.registry obj room
    cases added.symm.trans same
    cases run
    refine ⟨?_,size.trans_le room⟩
    have length := registered_length p.registry fits
    have one : ReflTransGen Walks p.walk
        {p.walk with todo := p.walk.todo ++ [obj], added := p.walk.added ++ [obj]} := .single (.add obj p.walk)
    simp only [Pass.walk,Pass.todo,Pass.next,running,if_true,list] at one ⊢
    by_cases behind : p.registry.nPollings ≤ p.i
    · rw [if_pos behind]
      have last := Walks.miss obj [] ⟨[obj],p.called,p.added ++ [obj],p.withdrawn,p.missed⟩ rfl
      have gone : (registered p.registry).drop (p.i + 1) = [] := List.drop_of_length_le (by omega)
      have past : (registered p.registry ++ [obj]).drop (p.i + 1) = [] := by
        apply List.drop_of_length_le
        rw [List.length_append,List.length_singleton]
        omega
      rw [gone,List.nil_append] at one
      rw [gone,past]
      exact one.tail last
    · rw [if_neg behind,List.append_nil,List.drop_append_of_le_length (by omega)]
      exact one
  · rw [add_of_full p.registry obj (by omega)] at added
    cases added

/-- A procedure that is removed before its turn is only taken out; otherwise the next one moves into its place, and is
passed over. -/
theorem remove_walks {obj : α} (fits : p.registry.nPollings ≤ 16) (run : p.step (.remove obj) = some p') :
    ReflTransGen Walks p.walk p'.walk ∧ p'.registry.nPollings ≤ 16 := by
  obtain ⟨running,run⟩ := Option.ite_none_right_eq_some.mp run
  obtain ⟨registry,removed,run⟩ := Option.bind_eq_some_iff.mp run
  obtain ⟨r',same,size,list⟩ := remove_spec p.registry obj fits
  cases removed.symm.trans same
  have todo : p.todo = (registered p.registry).drop (p.i + 1) := by simp only [Pass.todo,Pass.next,running,if_true]
  dsimp only at run
  split at run
  next absent =>
    cases run
    refine ⟨?_,size⟩
    simp only [Pass.walk,Pass.todo,Pass.next,running,if_true,list,List.erase_of_not_mem absent]
    exact .refl
  next present =>
    have erased : (registered p.registry).erase obj =
        (registered p.registry).eraseIdx ((registered p.registry).idxOf obj) :=
      List.erase_eq_eraseIdx_of_idxOf rfl
    have inside : (registered p.registry).idxOf obj < (registered p.registry).length :=
      List.idxOf_lt_length_of_mem (not_not.mp present)
    split at run
    next behind =>
      cases run
      refine ⟨?_,size⟩
      have rest : (registered registry).drop (p.i + 1) = p.todo.tail := by
        rw [list,erased,drop_erased_behind _ (by omega),todo,List.tail_drop]
      have after : Pass.todo {p with registry := registry, missed := p.missed ++ p.todo.head?.toList} =
          p.todo.tail := by
        simp only [Pass.todo,Pass.next,running,if_true]
        simpa only [Pass.todo,Pass.next,running,if_true] using rest
      rw [Pass.walk,Pass.walk,after]
      cases first : p.todo with
      | nil =>
        dsimp only [List.head?_nil,Option.toList_none,List.tail_nil]
        rw [List.append_nil]
      | cons x xs => exact .single (.miss x xs ⟨x :: xs,p.called,p.added,p.withdrawn,p.missed⟩ rfl)
    next ahead =>
      cases run
      refine ⟨.single ?_,size⟩
      let j := (registered p.registry).idxOf obj - (p.i + 1)
      have rest : (registered registry).drop (p.i + 1) = p.todo.eraseIdx j := by
        rw [list,erased,drop_erased_ahead _ (by omega),todo]
      have after : Pass.todo {p with registry := registry, withdrawn := p.withdrawn ++ [obj]} = p.todo.eraseIdx j := by
        rw [← rest]
        simp only [Pass.todo,Pass.next,running,if_true]
      have here : p.todo[j]? = some obj := by
        have back : p.i + 1 + j = (registered p.registry).idxOf obj := by
          simp only [j]
          omega
        rw [todo,List.getElem?_drop,back,List.getElem?_eq_getElem inside,List.getElem_idxOf]
      rw [Pass.walk,Pass.walk,after]
      exact .drop obj j p.walk here

/-- The pass is a walk along the registered procedures. -/
theorem pass_walks : Simulates (Permitted Pass.step (fun _ _ => True)) Walks
    (fun (p : Pass α) w => p.registry.nPollings ≤ 16 ∧ p.walk = w) := by
  intro p p' w models step
  obtain ⟨fits,rfl⟩ := models
  obtain ⟨event,-,step⟩ := step
  cases event with
  | call =>
    have walks := call_walks fits step
    obtain ⟨-,run⟩ := Option.ite_none_right_eq_some.mp step
    obtain ⟨entry,-,run⟩ := Option.bind_eq_some_iff.mp run
    cases run
    exact ⟨_,.single walks,fits,rfl⟩
  | returns =>
    have same := returns_walk step
    obtain ⟨-,run⟩ := Option.ite_none_right_eq_some.mp step
    cases run
    exact ⟨_,.refl,fits,same⟩
  | add obj =>
    obtain ⟨walks,size⟩ := add_walks fits step
    exact ⟨_,walks,size,rfl⟩
  | remove obj =>
    obtain ⟨walks,size⟩ := remove_walks fits step
    exact ⟨_,walks,size,rfl⟩

theorem pass_accounted (fits : r.nPollings ≤ 16)
    (run : ReflTransGen (Permitted Pass.step (fun _ _ => True)) (Pass.start r) p) : p.walk.Accounts (registered r) := by
  have start : (Pass.start r).walk = Walk.start (registered r) := rfl
  obtain ⟨w,⟨-,rfl⟩,accounts⟩ := pass_walks.invariant (fun _ _ accounts walks => accounts.step walks) ⟨fits,start⟩
    (Walk.start_accounts _) run
  exact accounts

/-- Each procedure that is registered when the pass begins or during it is called once and in order, unless it is
removed before its turn, or one that had its turn is removed (itself, say) just before it. -/
theorem pass_accounts (fits : r.nPollings ≤ 16)
    (run : ReflTransGen (Permitted Pass.step (fun _ _ => True)) (Pass.start r) p) :
    (registered r ++ p.added).Perm (p.called ++ p.missed ++ p.withdrawn ++ p.todo) ∧
      (p.called ++ p.todo).Sublist (registered r ++ p.added) ∧
      (p.withdrawn = [] → p.missed = [] → p.called ++ p.todo = registered r ++ p.added) := by
  have accounts := pass_accounted fits run
  exact ⟨accounts.all,accounts.order,accounts.whole⟩

/-- A pass whose procedures change nothing calls what the loop calls by itself. -/
theorem pass_process (fits : r.nPollings ≤ 16)
    (run : ReflTransGen (Permitted Pass.step (fun _ event => event = .call ∨ event = .returns)) (Pass.start r) p)
    (ended : p.todo = []) : processFrom r 0 = some p.called := by
  have keeps : ∀ q q' : Pass α, (q.added = [] ∧ q.withdrawn = [] ∧ q.missed = []) →
      Permitted Pass.step (fun _ event => event = .call ∨ event = .returns) q q' →
      q'.added = [] ∧ q'.withdrawn = [] ∧ q'.missed = [] := by
    rintro q q' unchanged ⟨event,alone | alone,step⟩
    · subst alone
      obtain ⟨-,step⟩ := Option.ite_none_right_eq_some.mp step
      obtain ⟨entry,-,step⟩ := Option.bind_eq_some_iff.mp step
      cases step
      exact unchanged
    · subst alone
      obtain ⟨-,step⟩ := Option.ite_none_right_eq_some.mp step
      cases step
      exact unchanged
  obtain ⟨added,withdrawn,missed⟩ := run_invariant keeps run ⟨rfl,rfl,rfl⟩
  have free : ReflTransGen (Permitted Pass.step (fun _ _ => True)) (Pass.start r) p :=
    run.lift id (fun _ _ ⟨event,_,step⟩ => ⟨event,trivial,step⟩)
  have whole : p.called ++ p.todo = registered r ++ p.added := (pass_accounted fits free).whole withdrawn missed
  rw [ended,added,List.append_nil,List.append_nil] at whole
  rw [processFrom_eq r 0 fits,List.drop_zero,whole]

end

/-! The first of three procedures removes itself, and the second is not called. -/

def three : Registry Nat := ⟨3,#v[1,2,3,0,0,0,0,0,0,0,0,0,0,0,0,0]⟩

def two : Registry Nat := ⟨2,#v[2,3,3,0,0,0,0,0,0,0,0,0,0,0,0,0]⟩

theorem three_remove : remove three 1 = some two := by
  simp [remove,removeFrom,shift,store,three,two]

def removed : Pass Nat := ⟨two,0,true,[1],[],[],[2]⟩

theorem pass_accounts_removed : ∃ p : Pass Nat, p.called = [1,3,4] ∧ p.missed = [2] ∧ p.todo = [] ∧
    (registered three ++ p.added).Perm (p.called ++ p.missed ++ p.withdrawn ++ p.todo) := by
  have called : Pass.step (Pass.start three) .call = some ⟨three,0,true,[1],[],[],[]⟩ := rfl
  have gone : Pass.step ⟨three,0,true,[1],[],[],[]⟩ (.remove 1) = some removed := by
    simp only [Pass.step,three_remove]
    rfl
  obtain ⟨p,run,holds⟩ : ∃ p, ReflTransGen (Permitted Pass.step (fun _ _ => True)) removed p ∧
      decide (p.called = [1,3,4] ∧ p.missed = [2] ∧ p.todo = []) = true :=
    perform_reachable [.add 4,.returns,.call,.returns,.call,.returns] (by decide)
  obtain ⟨calls,missed,todo⟩ := of_decide_eq_true holds
  have whole : ReflTransGen (Permitted Pass.step (fun _ _ => True)) (Pass.start three) p :=
    .head ⟨_,trivial,called⟩ (.head ⟨_,trivial,gone⟩ run)
  exact ⟨p,calls,missed,todo,(pass_accounts (by decide) whole).1⟩

end Xrossfire.Poll
