import Xrossfire.Avltree.SortedMap

/-! The timer queue of `timeout.c`: the tree of scheduled timers, the sequence
counter and the node memory. `xf_timeout_schedule` is two functions, since
other threads may run between its first writes and its locked section. -/
namespace Xrossfire.Timeout
open Avltree Library

/-- `xf_timeout_handle_t`. -/
structure Handle where
  id : Int
  timestamp : Int
deriving DecidableEq

def compare (a b : Handle) : Int :=
  if a.timestamp ≠ b.timestamp then
    if a.timestamp < b.timestamp then -1 else 1
  else if a.id ≠ b.id then
    if a.id < b.id then -1 else 1
  else 0

/-- `tree` and `seq`, with the two fields of `xf_timeout_t` the tree does not use. -/
structure Queue where
  tree : Store Handle
  seq : Int
  procedure : Addr → Nat
  context : Addr → Nat

namespace Queue

def key (q : Queue) : Addr → Handle := q.tree.nodes.key

def linked (q : Queue) (a : Addr) : Prop := Linked q.tree.nodes q.tree.root a

end Queue

def setKey (m : Nodes Handle) (a : Addr) (key : Handle) : Nodes Handle :=
  {m with key := Function.update m.key a key}

def init (q : Queue) : Queue := {q with tree := Avltree.init q.tree, seq := 0}

/-- `xf_timeout_schedule` up to `xf_poll_enter`. -/
def scheduleWrites (q : Queue) (self : Addr) (ticks timeout : Int) (procedure context : Nat) : Queue :=
  let m := ((q.tree.nodes.setLeft self none).setRight self none).setHeight self 0
  {q with
    tree := {q.tree with nodes := setKey m self ⟨(m.key self).id,ticks + timeout⟩}
    procedure := Function.update q.procedure self procedure
    context := Function.update q.context self context}

/-- `xf_timeout_schedule` under the lock. The flag is whether it calls `xf_poll_wakeup`. -/
def scheduleLocked (fuel : Nat) (q : Queue) (self : Addr) : Option (Queue × Bool) := do
  let m := setKey q.tree.nodes self ⟨q.seq,(q.tree.nodes.key self).timestamp⟩
  let (tree,_) ← insert compare fuel {q.tree with nodes := m} self
  let node ← getMin fuel tree
  return ({q with tree := tree, seq := q.seq + 1},decide (node = some self))

def cancel (fuel : Nat) (q : Queue) (self : Addr) : Option (Queue × Bool) := do
  let (tree,node) ← remove compare fuel q.tree (q.tree.nodes.key self)
  return ({q with tree := tree},node.isSome)

/-- The timer procedure's answer to `XF_POLLING_GET_WAIT_TIMEOUT`. -/
def getWaitTimeout (fuel : Nat) (q : Queue) (ticks : Int) : Option Int := do
  match ← getMin fuel q.tree with
  | none => return 300 * 1000
  | some node => return (q.tree.nodes.key node).timestamp - ticks

/-- One test of the loop of `XF_POLLING_PROCESS`: a due minimum leaves the tree. -/
def pick (fuel : Nat) (q : Queue) (ticks : Int) : Option (Queue × Option Addr) := do
  match ← getMin fuel q.tree with
  | none => return (q,none)
  | some node =>
    if (q.tree.nodes.key node).timestamp ≤ ticks then
      let tree ← removeMin fuel q.tree
      return ({q with tree := tree},some node)
    else return (q,none)

theorem compare_order : StrictTotal compare where
  zero a b := by
    obtain ⟨i,s⟩ := a
    obtain ⟨j,t⟩ := b
    constructor
    · intro same
      simp only [compare] at same
      split_ifs at same <;> simp only [Handle.mk.injEq] <;> omega
    · rintro ⟨⟩
      simp [compare]
  swap a b := by
    simp only [compare]
    split_ifs <;> omega
  trans a b c := by
    simp only [compare]
    split_ifs <;> omega

theorem timestamp_le {a b : Handle} (less : compare a b < 0) : a.timestamp ≤ b.timestamp := by
  simp only [compare] at less
  split_ifs at less <;> omega

/-! ## The queue as a list of entries -/

def Entries (q : Queue) (xs : List Addr) : Prop :=
  ∃ t, Holds compare q.tree t ∧ Avl.inorder t = xs

namespace Entries

variable {q : Queue} {xs : List Addr}

theorem linked (entries : Entries q xs) (a : Addr) : q.linked a ↔ a ∈ xs := by
  obtain ⟨t,holds,rfl⟩ := entries
  exact linked_iff _ _ t holds.rep a

theorem distinct (entries : Entries q xs) : xs.Nodup := by
  obtain ⟨t,holds,rfl⟩ := entries
  exact holds.distinct compare_order

theorem sorted (entries : Entries q xs) : xs.Pairwise (before compare q.tree) := by
  obtain ⟨t,holds,rfl⟩ := entries
  exact holds.sorted

theorem keys (entries : Entries q xs) {a b : Addr} (ha : a ∈ xs) (hb : b ∈ xs)
    (same : q.key a = q.key b) : a = b := by
  have different : (xs.map q.key).Nodup := by
    rw [List.Nodup,List.pairwise_map]
    apply entries.sorted.imp
    intro c d less equal
    have zero := (compare_order.zero (q.key c) (q.key d)).mpr equal
    change compare (q.key c) (q.key d) < 0 at less
    omega
  exact List.inj_on_of_nodup_map different ha hb same

/-- The head is the earliest entry. -/
theorem head_le (entries : Entries q xs) {a : Addr} (head : xs.head? = some a) :
    ∀ b ∈ xs, (q.key a).timestamp ≤ (q.key b).timestamp := by
  have sorted := entries.sorted
  cases xs with
  | nil => cases head
  | cons c cs =>
    cases head
    intro b member
    rcases List.mem_cons.mp member with rfl | member
    · exact le_refl _
    · exact timestamp_le (List.rel_of_pairwise_cons sorted member)

theorem getMin (entries : Entries q xs) : Returns (fun fuel => Avltree.getMin fuel q.tree) xs.head? := by
  obtain ⟨t,holds,rfl⟩ := entries
  exact getMin_holds holds

/-- A queue whose tree is unchanged where the entries are keeps them. -/
theorem congr {r : Queue} (entries : Entries q xs) (root : r.tree.root = q.tree.root)
    (same : ∀ a ∈ xs, r.tree.nodes.left a = q.tree.nodes.left a ∧
      r.tree.nodes.right a = q.tree.nodes.right a ∧ r.tree.nodes.height a = q.tree.nodes.height a ∧
      r.key a = q.key a) : Entries r xs := by
  obtain ⟨t,holds,rfl⟩ := entries
  refine ⟨t,⟨?_,holds.balanced,?_⟩,rfl⟩
  · rw [root]
    apply rep_agree t _ holds.rep
    intro a ha
    obtain ⟨left,right,high,-⟩ := same a ha
    exact ⟨left,right,high⟩
  · refine holds.sorted.imp_of_mem ?_
    intro a b ha hb less
    have keyA : r.tree.nodes.key a = q.tree.nodes.key a := (same a ha).2.2.2
    have keyB : r.tree.nodes.key b = q.tree.nodes.key b := (same b hb).2.2.2
    simpa only [before,keyA,keyB] using less

theorem unique {ys : List Addr} (entries : Entries q xs) (other : Entries q ys) : xs = ys := by
  obtain ⟨t,holds,rfl⟩ := entries
  obtain ⟨u,holds',rfl⟩ := other
  rw [rep_unique _ _ t u holds.rep holds'.rep]

end Entries

structure SameBut (xs : List Addr) (q q' : Queue) : Prop where
  left : ∀ a ∉ xs, q'.tree.nodes.left a = q.tree.nodes.left a
  right : ∀ a ∉ xs, q'.tree.nodes.right a = q.tree.nodes.right a
  key : q'.key = q.key
  procedure : q'.procedure = q.procedure
  context : q'.context = q.context

theorem SameBut.refl (xs : List Addr) (q : Queue) : SameBut xs q q :=
  ⟨fun _ _ => rfl,fun _ _ => rfl,rfl,rfl,rfl⟩

theorem SameBut.of_frame {q : Queue} {tree : Store Handle} {xs : List Addr}
    (frame : Frame q.tree.nodes tree.nodes xs) : SameBut xs q {q with tree := tree} :=
  ⟨frame.left,frame.right,frame.key,rfl,rfl⟩

/-! ## Each function on a queue with entries `xs` -/

structure Written (q : Queue) (node : Addr) (timestamp : Int) (q' : Queue) : Prop where
  root : q'.tree.root = q.tree.root
  leaf : q'.tree.nodes.left node = none ∧ q'.tree.nodes.right node = none
  key : q'.key node = ⟨(q.key node).id,timestamp⟩
  seq : q'.seq = q.seq
  same : ∀ a ≠ node, q'.tree.nodes.left a = q.tree.nodes.left a ∧
    q'.tree.nodes.right a = q.tree.nodes.right a ∧ q'.tree.nodes.height a = q.tree.nodes.height a ∧
    q'.key a = q.key a
  rest : ∀ a ≠ node, q'.procedure a = q.procedure a ∧ q'.context a = q.context a

theorem scheduleWrites_spec (q : Queue) (self : Addr) (ticks timeout : Int) (procedure context : Nat) :
    Written q self (ticks + timeout) (scheduleWrites q self ticks timeout procedure context) where
  root := rfl
  leaf := ⟨Function.update_self _ _ _,Function.update_self _ _ _⟩
  key := Function.update_self _ _ _
  seq := rfl
  same _ other := ⟨Function.update_of_ne other _ _,Function.update_of_ne other _ _,
    Function.update_of_ne other _ _,Function.update_of_ne other _ _⟩
  rest _ other := ⟨Function.update_of_ne other _ _,Function.update_of_ne other _ _⟩

theorem Written.id {q q' : Queue} {node : Addr} {timestamp : Int} (written : Written q node timestamp q')
    (a : Addr) : (q'.key a).id = (q.key a).id := by
  by_cases same : a = node
  · rw [same,written.key]
  · rw [(written.same a same).2.2.2]

theorem scheduleLocked_settles (q : Queue) (self : Addr) :
    Settles (fun fuel => scheduleLocked fuel q self) := by
  apply Settles.bind (insert_settles compare _ self)
  intro r
  exact Settles.bind (getMin_settles r.1) (fun _ => .const _)

theorem cancel_settles (q : Queue) (self : Addr) : Settles (fun fuel => cancel fuel q self) :=
  Settles.bind (remove_settles compare q.tree (q.tree.nodes.key self)) (fun _ => .const _)

theorem getWaitTimeout_settles (q : Queue) (ticks : Int) :
    Settles (fun fuel => getWaitTimeout fuel q ticks) := by
  apply Settles.bind (getMin_settles q.tree)
  intro node
  cases node <;> exact .const _

theorem pick_settles (q : Queue) (ticks : Int) : Settles (fun fuel => pick fuel q ticks) := by
  apply Settles.bind (getMin_settles q.tree)
  intro node
  cases node with
  | none => exact .const _
  | some node =>
    by_cases due : (q.tree.nodes.key node).timestamp ≤ ticks
    · simp only [due,if_true]
      exact Settles.bind (removeMin_settles q.tree) (fun _ => .const _)
    · simp only [due,if_false]
      exact .const _

/-- The scheduled node takes its place under the key `⟨seq,timestamp⟩`; the poll thread is woken
exactly when that place is the first. -/
structure Scheduled (q : Queue) (xs : List Addr) (node : Addr) (q' : Queue) (wakeup : Bool)
    (low high : List Addr) : Prop where
  old : xs = low ++ high
  entries : Entries q' (low ++ node :: high)
  seq : q'.seq = q.seq + 1
  key : q'.key = Function.update q.key node ⟨q.seq,(q.key node).timestamp⟩
  same : ∀ a ∉ node :: xs, q'.tree.nodes.left a = q.tree.nodes.left a ∧
    q'.tree.nodes.right a = q.tree.nodes.right a
  procedure : q'.procedure = q.procedure
  context : q'.context = q.context
  wakeup : wakeup = true ↔ low = []

theorem Scheduled.mem {q q' : Queue} {xs low high : List Addr} {node a : Addr} {wakeup : Bool}
    (result : Scheduled q xs node q' wakeup low high) : a ∈ low ++ node :: high ↔ a = node ∨ a ∈ xs := by
  rw [result.old,List.mem_append,List.mem_append,List.mem_cons]
  exact or_left_comm

theorem scheduleLocked_spec {q : Queue} {xs : List Addr} (entries : Entries q xs) (self : Addr)
    (fresh : self ∉ xs) (leaf : q.tree.nodes.left self = none ∧ q.tree.nodes.right self = none)
    (unused : ∀ a ∈ xs, (q.key a).id ≠ q.seq) :
    ∃ q' wakeup low high, Returns (fun fuel => scheduleLocked fuel q self) (q',wakeup) ∧
      Scheduled q xs self q' wakeup low high := by
  let key : Handle := ⟨q.seq,(q.tree.nodes.key self).timestamp⟩
  let named : Queue := {q with tree := {q.tree with nodes := setKey q.tree.nodes self key}}
  have keyed : named.key = Function.update q.key self key := rfl
  have others : ∀ a ∈ xs, named.key a = q.key a := by
    intro a ha
    rw [keyed]
    apply Function.update_of_ne
    rintro rfl
    exact fresh ha
  obtain ⟨t,holds,rfl⟩ := entries.congr (r := named) rfl (fun a ha => ⟨rfl,rfl,rfl,others a ha⟩)
  obtain ⟨tree,t',inserted,run,result⟩ := insert_holds compare_order holds self fresh leaf
  have absent : ∀ a ∈ Avl.inorder t, named.key a ≠ named.key self := by
    intro a ha same
    apply unused a ha
    rw [← others a ha,same,keyed,Function.update_self]
  have flag : inserted = true := by
    cases inserted with
    | true => rfl
    | false =>
      obtain ⟨⟨a,ha,same⟩,-⟩ := result.taken rfl
      exact absurd same (absent a ha)
  obtain ⟨-,low,high,old,new,-⟩ := result.fresh flag
  have least : Returns (fun fuel => getMin fuel tree) (low ++ self :: high).head? := by
    rw [← new]
    exact getMin_holds result.holds
  refine ⟨{q with tree := tree, seq := q.seq + 1},decide ((low ++ self :: high).head? = some self),low,high,
    (scheduleLocked_settles q self).returns ?_,?_⟩
  · refine Yields.bind run.1 ?_ (insert_settles compare _ self) ?_
    · exact Yields.bind least.1 (.const _) (getMin_settles tree) (.const _)
    · exact Settles.bind (getMin_settles tree) (fun _ => .const _)
  refine ⟨old,⟨t',⟨result.holds.rep,result.holds.balanced,result.holds.sorted⟩,new⟩,rfl,?_,?_,rfl,rfl,?_⟩
  · exact result.frame.key.trans keyed
  · intro a out
    exact ⟨result.frame.left a out,result.frame.right a out⟩
  · rw [decide_eq_true_iff]
    cases low with
    | nil => simp
    | cons b bs =>
      simp only [List.cons_append,List.head?_cons,Option.some.injEq,reduceCtorEq,iff_false]
      rintro rfl
      apply fresh
      rw [old]
      exact List.mem_cons_self

/-- The one entry carrying the key of `self` leaves, or there is none and nothing changes. -/
structure Cancelled (q : Queue) (xs : List Addr) (node : Addr) (q' : Queue) (removed : Bool) : Prop where
  same : SameBut xs q q'
  seq : q'.seq = q.seq
  found : removed = true → ∃ a low high, q.key a = q.key node ∧ xs = low ++ a :: high ∧
    Entries q' (low ++ high)
  missing : removed = false → (∀ a ∈ xs, q.key a ≠ q.key node) ∧ q' = q

theorem cancel_spec {q : Queue} {xs : List Addr} (entries : Entries q xs) (self : Addr) :
    ∃ q' removed, Returns (fun fuel => cancel fuel q self) (q',removed) ∧
      Cancelled q xs self q' removed := by
  obtain ⟨t,holds,rfl⟩ := entries
  obtain ⟨tree,t',removed,run,result⟩ := remove_holds compare_order holds (q.key self)
  refine ⟨{q with tree := tree},removed.isSome,(cancel_settles q self).returns ?_,
    .of_frame result.frame,rfl,?_,?_⟩
  · exact Yields.bind run.1 (.const _) (remove_settles compare q.tree _) (.const _)
  · intro present
    obtain ⟨node,rfl⟩ := Option.isSome_iff_exists.mp present
    obtain ⟨carried,low,high,old,new⟩ := result.found node rfl
    exact ⟨node,low,high,carried,old,t',
      ⟨result.holds.rep,result.holds.balanced,result.holds.sorted⟩,new⟩
  · intro absent
    cases removed with
    | some node => cases absent
    | none =>
      obtain ⟨other,same,-⟩ := result.missing rfl
      exact ⟨other,by rw [same]⟩

theorem getWaitTimeout_spec {q : Queue} {xs : List Addr} (entries : Entries q xs) (ticks : Int) :
    Returns (fun fuel => getWaitTimeout fuel q ticks)
      (match xs.head? with
      | none => 300 * 1000
      | some node => (q.key node).timestamp - ticks) := by
  apply (getWaitTimeout_settles q ticks).returns
  have least := entries.getMin.1
  cases head : xs.head? with
  | none =>
    rw [head] at least
    exact Yields.bind least (.const _) (getMin_settles q.tree) (.const _)
  | some node =>
    rw [head] at least
    exact Yields.bind least (.const _) (getMin_settles q.tree) (.const _)

structure Picked (q : Queue) (xs : List Addr) (ticks : Int) (q' : Queue) (node : Option Addr) : Prop where
  same : SameBut xs q q'
  seq : q'.seq = q.seq
  found : ∀ a, node = some a → (q.key a).timestamp ≤ ticks ∧ ∃ rest, xs = a :: rest ∧ Entries q' rest
  missing : node = none → (∀ a ∈ xs, ticks < (q.key a).timestamp) ∧ q' = q

theorem pick_spec {q : Queue} {xs : List Addr} (entries : Entries q xs) (ticks : Int) :
    ∃ q' node, Returns (fun fuel => pick fuel q ticks) (q',node) ∧ Picked q xs ticks q' node := by
  have least := entries.getMin
  have settles := pick_settles q ticks
  cases head : xs.head? with
  | none =>
    rw [head] at least
    rw [List.head?_eq_none_iff] at head
    subst head
    refine ⟨q,none,settles.returns ?_,.refl _ _,rfl,?_,?_⟩
    · exact Yields.bind least.1 (.const _) (getMin_settles q.tree) (.const _)
    · intro a absurd
      cases absurd
    · intro _
      exact ⟨by simp,rfl⟩
  | some a =>
    have early := entries.head_le head
    rw [head] at least
    obtain ⟨rest,rfl⟩ := List.head?_eq_some_iff.mp head
    by_cases due : (q.key a).timestamp ≤ ticks
    · obtain ⟨t,holds,listed⟩ := entries
      have nonempty : Avl.inorder t ≠ [] := by
        rw [listed]
        exact List.cons_ne_nil _ _
      obtain ⟨tree,run,result,frame⟩ := removeMin_holds compare_order holds
        (root_of_nonempty holds nonempty)
      rw [listed] at frame
      refine ⟨{q with tree := tree},some a,settles.returns ?_,.of_frame frame,rfl,?_,?_⟩
      · refine Yields.bind (x := some a) least.1 ?_ (getMin_settles q.tree) ?_
        · simp only [show (q.tree.nodes.key a).timestamp ≤ ticks from due,if_true]
          exact Yields.bind run.1 (.const _) (removeMin_settles q.tree) (.const _)
        · simp only [show (q.tree.nodes.key a).timestamp ≤ ticks from due,if_true]
          exact Settles.bind (removeMin_settles q.tree) (fun _ => .const _)
      · rintro _ ⟨⟩
        refine ⟨due,rest,rfl,Avl.dropMin t,⟨result.rep,result.balanced,result.sorted⟩,?_⟩
        rw [Avl.inorder_dropMin,listed]
        rfl
      · intro absurd
        cases absurd
    · refine ⟨q,none,settles.returns ?_,.refl _ _,rfl,?_,?_⟩
      · refine Yields.bind (x := some a) least.1 ?_ (getMin_settles q.tree) ?_
        · simp only [show ¬(q.tree.nodes.key a).timestamp ≤ ticks from due,if_false]
          exact .const _
        · simp only [show ¬(q.tree.nodes.key a).timestamp ≤ ticks from due,if_false]
          exact .const _
      · intro b absurd
        cases absurd
      · intro _
        refine ⟨?_,rfl⟩
        intro b hb
        have := early b hb
        omega

end Xrossfire.Timeout
