import Xrossfire.Timeout.Consumed

/-! One `XF_POLLING_PROCESS` of the timer procedure, with nothing else running
than the callbacks it makes. A callback cancels and schedules timers, and the
loop goes on with the tree it leaves. -/
namespace Xrossfire.Timeout
open Avltree Library Event

namespace Event

def call : Event → Option Timer
  | invoked timer _ _ => some timer
  | _ => none

def removes (key : Handle) : Event → Bool
  | cancelled other result => decide (other.handle = key) && result
  | _ => false

end Event

/-- What a callback does to the queue. Schedules are made on `allowed` nodes, at a clock that
was `ticks` when the pass began. -/
inductive Act (allowed : Queue → Addr → Prop) (ticks : Int) (q : Queue) : Event → Queue → Prop
  | cancel (self : Addr) (q' : Queue) (result : Bool)
      (run : Yields (fun fuel => Timeout.cancel fuel q self) (q',result)) :
      Act allowed ticks q (.cancelled (q.timer self) result) q'
  | schedule (self : Addr) (now timeout : Int) (procedure context : Nat) (q' : Queue) (wakeup : Bool)
      (may : allowed q self) (later : ticks ≤ now) (positive : 0 < timeout)
      (run : Yields (fun fuel => scheduleLocked fuel
        (scheduleWrites q self now timeout procedure context) self) (q',wakeup)) :
      Act allowed ticks q (.scheduled (q'.timer self) procedure context) q'

inductive Place
  | test
  | callback
  | returned
deriving DecidableEq

inductive Pass (allowed : Queue → Addr → Prop) (ticks : Int) (start : Queue) :
    List Event → Queue → Place → Prop
  | start : Pass allowed ticks start [] start .test
  | call {log : List Event} {q q' : Queue} {node : Addr} (before : Pass allowed ticks start log q .test)
      (run : Yields (fun fuel => pick fuel q ticks) (q',some node)) :
      Pass allowed ticks start
        (.invoked (q'.timer node) (q'.procedure node) (q'.context node) :: log) q' .callback
  | act {log : List Event} {q q' : Queue} {event : Event}
      (before : Pass allowed ticks start log q .callback) (act : Act allowed ticks q event q') :
      Pass allowed ticks start (event :: log) q' .callback
  | again {log : List Event} {q : Queue} (before : Pass allowed ticks start log q .callback) :
      Pass allowed ticks start log q .test
  | finish {log : List Event} {q q' : Queue} (before : Pass allowed ticks start log q .test)
      (run : Yields (fun fuel => pick fuel q ticks) (q',none)) :
      Pass allowed ticks start log q' .returned

def Queue.due (q : Queue) (ticks : Int) (a : Addr) : Prop := (q.key a).timestamp ≤ ticks

instance (q : Queue) (ticks : Int) : DecidablePred (q.due ticks) :=
  fun _ => inferInstanceAs (Decidable (_ ≤ _))

structure Numbered (q : Queue) (xs : List Addr) : Prop where
  entries : Entries q xs
  used : ∀ a ∈ xs, (q.key a).id < q.seq

theorem Good.numbered {s : State} {xs : List Addr} (good : Good s xs) : Numbered s.queue xs :=
  ⟨good.nodes.entries,fun _ member => good.identified.used _ (good.listed member)⟩

/-- The timer procedure starts every pass on a numbered queue. -/
theorem reachable_numbered {pollings : List Polling} {s : State} (reach : Reachable pollings s) :
    ∃ xs, Numbered s.queue xs := by
  obtain ⟨xs,good⟩ := reach.good
  exact ⟨xs,good.numbered⟩

namespace Numbered

variable {q q' : Queue} {xs : List Addr}

/-- The node takes a place with a new identifier and its deadline. -/
theorem schedule (numbered : Numbered q xs) (self : Addr) (now timeout : Int)
    (procedure context : Nat) (fresh : self ∉ xs) :
    ∃ wakeup low high, ∃ q', Returns (fun fuel => scheduleLocked fuel
        (scheduleWrites q self now timeout procedure context) self) (q',wakeup) ∧ xs = low ++ high ∧
      Numbered q' (low ++ self :: high) ∧ q'.seq = q.seq + 1 ∧ q'.key self = ⟨q.seq,now + timeout⟩ ∧
      ∀ a ≠ self, q'.key a = q.key a := by
  have written := scheduleWrites_spec q self now timeout procedure context
  have apart : ∀ a ∈ xs, a ≠ self := by
    rintro a member rfl
    exact fresh member
  have entries := numbered.entries.congr written.root (fun a member => written.same a (apart a member))
  have kept : ∀ a ≠ self, (scheduleWrites q self now timeout procedure context).key a = q.key a :=
    fun a other => (written.same a other).2.2.2
  obtain ⟨q',wakeup,low,high,returns,result⟩ := scheduleLocked_spec entries self fresh written.leaf (by
    intro a member
    rw [kept a (apart a member),written.seq]
    exact ne_of_lt (numbered.used a member))
  have own : q'.key self = ⟨q.seq,now + timeout⟩ := by
    rw [result.key,Function.update_self,written.key,written.seq]
  have others : ∀ a ≠ self, q'.key a = q.key a := by
    intro a other
    rw [result.key,Function.update_of_ne other,kept a other]
  have next : q'.seq = q.seq + 1 := by rw [result.seq,written.seq]
  refine ⟨wakeup,low,high,q',returns,result.old,⟨result.entries,?_⟩,next,own,others⟩
  intro a member
  rw [next]
  by_cases same : a = self
  · rw [same,own]
    exact Int.lt_succ _
  · have old : a ∈ xs := by
      rw [result.old]
      simp only [List.mem_append,List.mem_cons,same,false_or] at member ⊢
      exact member
    rw [others a same]
    exact lt_trans (numbered.used a old) (Int.lt_succ _)

end Numbered

/-! ## What holds at every point of a pass -/

def kept (start q : Queue) (ys : List Addr) (a : Addr) : Nat :=
  if a ∈ ys ∧ q.key a = start.key a then 1 else 0

structure Passing (ticks : Int) (start : Queue) (xs : List Addr) (log : List Event) (q : Queue)
    (ys : List Addr) : Prop where
  numbered : Numbered q ys
  seq : start.seq ≤ q.seq
  left : ∀ a ∈ ys, q.due ticks a → a ∈ xs ∧ q.key a = start.key a
  fate : ∀ a ∈ xs, start.due ticks a →
    log.countP (invokes (start.timer a)) + log.countP (removes (start.key a)) + kept start q ys a = 1
  calls : ∀ timer ∈ log.filterMap call, ∃ a ∈ xs, start.due ticks a ∧ start.timer a = timer
  ordered : (log.filterMap call).Pairwise (fun later earlier => compare earlier.handle later.handle < 0)
  ahead : ∀ timer ∈ log.filterMap call, ∀ a ∈ ys, q.due ticks a → compare timer.handle (q.key a) < 0

/-- The entry that leaves is no longer kept, and every other one is as before. -/
theorem kept_remove {start q q' : Queue} {low high : List Addr} {b : Addr} (a : Addr)
    (distinct : (low ++ b :: high).Nodup) (key : q'.key = q.key) :
    kept start q (low ++ b :: high) a =
      kept start q' (low ++ high) a + if a = b ∧ q.key a = start.key a then 1 else 0 := by
  have apart : b ∉ low ++ high := (List.nodup_cons.mp (List.perm_middle.nodup_iff.mp distinct)).1
  simp only [kept,key]
  by_cases same : a = b
  · subst same
    simp [apart]
  · simp [same]

namespace Passing

variable {ticks : Int} {start q q' : Queue} {xs ys low high : List Addr} {log : List Event}

theorem initial (numbered : Numbered start xs) : Passing ticks start xs [] start xs where
  numbered := numbered
  seq := le_refl _
  left _ member _ := ⟨member,rfl⟩
  fate a member _ := by simp [kept,member]
  calls _ absurd := by cases absurd
  ordered := .nil
  ahead _ absurd := by cases absurd

/-- One entry leaves and `event` is recorded, which is not a callback or is that entry's. -/
theorem shrink {b : Addr} {event : Event} (passing : Passing ticks start xs log q (low ++ b :: high))
    (entries : Entries q' (low ++ high)) (key : q'.key = q.key) (seq : q'.seq = q.seq)
    (fate : ∀ a ∈ xs, start.due ticks a →
      [event].countP (invokes (start.timer a)) + [event].countP (removes (start.key a)) =
        if a = b ∧ q.key a = start.key a then 1 else 0)
    (calls : ∀ timer, event.call = some timer → low = [] ∧ q.due ticks b ∧ q.timer b = timer) :
    Passing ticks start xs (event :: log) q' (low ++ high) := by
  have sub : ∀ a ∈ low ++ high, a ∈ low ++ b :: high := by
    intro a member
    simp only [List.mem_append,List.mem_cons] at member ⊢
    tauto
  have distinct := passing.numbered.entries.distinct
  refine ⟨⟨entries,?_⟩,?_,?_,?_,?_,?_,?_⟩
  · intro a member
    rw [key,seq]
    exact passing.numbered.used a (sub a member)
  · rw [seq]
    exact passing.seq
  · intro a member late
    rw [Queue.due,key] at late
    rw [key]
    exact passing.left a (sub a member) late
  · intro a member early
    have balance := passing.fate a member early
    have step := fate a member early
    rw [kept_remove a distinct key] at balance
    rw [← List.singleton_append,List.countP_append,List.countP_append]
    omega
  · intro timer member
    rw [List.filterMap_cons] at member
    cases called : event.call with
    | none =>
      rw [called] at member
      exact passing.calls timer member
    | some other =>
      rw [called] at member
      rcases List.mem_cons.mp member with rfl | member
      · obtain ⟨-,due,rfl⟩ := calls _ called
        obtain ⟨here,same⟩ := passing.left b (by simp) due
        refine ⟨b,here,?_,?_⟩
        · rw [Queue.due,← same]
          exact due
        · rw [Queue.timer,Queue.timer,same]
      · exact passing.calls timer member
  · rw [List.filterMap_cons]
    cases called : event.call with
    | none => exact passing.ordered
    | some other =>
      obtain ⟨-,due,rfl⟩ := calls _ called
      refine List.pairwise_cons.mpr ⟨?_,passing.ordered⟩
      intro earlier member
      exact passing.ahead earlier member b (by simp) due
  · intro timer member a inside late
    rw [Queue.due,key] at late
    rw [key]
    rw [List.filterMap_cons] at member
    cases called : event.call with
    | none =>
      rw [called] at member
      exact passing.ahead timer member a (sub a inside) late
    | some other =>
      rw [called] at member
      rcases List.mem_cons.mp member with rfl | member
      · obtain ⟨rfl,due,rfl⟩ := calls _ called
        exact List.rel_of_pairwise_cons passing.numbered.entries.sorted inside
      · exact passing.ahead timer member a (sub a inside) late

theorem call (passing : Passing ticks start xs log q ys) {node : Addr}
    (result : Picked q ys ticks q' (some node)) :
    ∃ rest, Passing ticks start xs (.invoked (q'.timer node) (q'.procedure node) (q'.context node) :: log)
      q' rest := by
  obtain ⟨due,rest,rfl,entries⟩ := result.found node rfl
  have key := result.same.key
  obtain ⟨here,same⟩ := passing.left node List.mem_cons_self due
  have first : Passing ticks start xs log q ([] ++ node :: rest) := passing
  refine ⟨rest,first.shrink entries key result.seq ?_ ?_⟩
  · intro a member early
    have timer : q'.timer node = start.timer node := by rw [Queue.timer,Queue.timer,key,same]
    rw [timer]
    by_cases own : a = node
    · subst own
      simp [invokes,removes,same]
    · simp [invokes,removes,Queue.timer,own,Ne.symm own]
  · rintro timer ⟨⟩
    exact ⟨rfl,due,by rw [Queue.timer,Queue.timer,key]⟩

theorem cancel (begun : Numbered start xs) (passing : Passing ticks start xs log q ys) {self : Addr}
    {removed : Bool} (result : Cancelled q ys self q' removed) :
    ∃ zs, Passing ticks start xs (.cancelled (q.timer self) removed :: log) q' zs := by
  cases removed with
  | false =>
    obtain ⟨-,rfl⟩ := result.missing rfl
    refine ⟨ys,passing.numbered,passing.seq,passing.left,?_,passing.calls,passing.ordered,passing.ahead⟩
    intro a member early
    simpa [invokes,removes] using passing.fate a member early
  | true =>
    obtain ⟨b,low,high,carried,rfl,entries⟩ := result.found rfl
    refine ⟨low ++ high,passing.shrink entries result.same.key result.seq ?_ ?_⟩
    · intro a member early
      have one : q.key self = start.key a ↔ a = b ∧ q.key a = start.key a := by
        rw [← carried]
        constructor
        · intro same
          have due : q.due ticks b := by
            rw [Queue.due,same]
            exact early
          obtain ⟨here,old⟩ := passing.left b (by simp) due
          have equal := begun.entries.keys member here (by rw [← same,old])
          exact ⟨equal,by rw [equal,old]⟩
        · rintro ⟨rfl,same⟩
          exact same
      simp [invokes,removes,Queue.timer,one]
    · intro timer absurd
      cases absurd

theorem schedule (passing : Passing ticks start xs log q (low ++ high)) {self : Addr} {deadline : Int}
    {procedure context : Nat} (fresh : self ∉ low ++ high) (begun : Numbered start xs)
    (numbered : Numbered q' (low ++ self :: high)) (seq : q'.seq = q.seq + 1)
    (own : q'.key self = ⟨q.seq,deadline⟩) (others : ∀ a ≠ self, q'.key a = q.key a)
    (later : ticks < deadline) :
    Passing ticks start xs (.scheduled (q'.timer self) procedure context :: log) q' (low ++ self :: high) := by
  -- a due entry is not the new one
  have old : ∀ a ∈ low ++ self :: high, q'.due ticks a → a ∈ low ++ high ∧ q'.key a = q.key a := by
    intro a member due
    by_cases same : a = self
    · rw [same,Queue.due,own] at due
      change deadline ≤ ticks at due
      omega
    · simp only [List.mem_append,List.mem_cons,same,false_or] at member ⊢
      exact ⟨member,others a same⟩
  refine ⟨numbered,?_,?_,?_,passing.calls,passing.ordered,?_⟩
  · have grown := passing.seq
    omega
  · intro a member due
    obtain ⟨here,same⟩ := old a member due
    rw [same]
    rw [Queue.due,same] at due
    exact passing.left a here due
  · intro a member early
    have balance := passing.fate a member early
    have same : kept start q' (low ++ self :: high) a = kept start q (low ++ high) a := by
      by_cases new : a = self
      · subst new
        have unlike : q'.key a ≠ start.key a := by
          intro equal
          have used := begun.used a member
          have grown := passing.seq
          rw [← equal,own] at used
          change q.seq < start.seq at used
          omega
        simp only [kept,unlike,fresh,and_false,false_and]
      · simp [kept,others a new,new]
    rw [same]
    exact balance
  · intro timer member a inside due
    obtain ⟨here,same⟩ := old a inside due
    rw [same]
    rw [Queue.due,same] at due
    exact passing.ahead timer member a here due

end Passing

def outside (q : Queue) (self : Addr) : Prop := ¬q.linked self

section
variable {ticks : Int} {start q : Queue} {xs ys : List Addr} {log : List Event} {place : Place}

theorem Passing.act {event : Event} {q' : Queue} (begun : Numbered start xs)
    (passing : Passing ticks start xs log q ys) (act : Act outside ticks q event q') :
    ∃ zs, Passing ticks start xs (event :: log) q' zs := by
  cases act with
  | cancel self after result run =>
    obtain ⟨after,removed,returns,spec⟩ := cancel_spec passing.numbered.entries self
    cases returns.2 _ run
    exact passing.cancel begun spec
  | schedule self now timeout procedure context after wakeup may later positive run =>
    have fresh : self ∉ ys := fun member => may ((passing.numbered.entries.linked self).mpr member)
    obtain ⟨woken,low,high,made,returns,listed,numbered,seq,own,others⟩ :=
      passing.numbered.schedule self now timeout procedure context fresh
    cases returns.2 _ run
    subst listed
    exact ⟨_,passing.schedule fresh begun numbered seq own others (by omega)⟩

/-- Every point of the pass, and what the last test has found once the pass is over. -/
theorem Pass.passing (begun : Numbered start xs) (pass : Pass outside ticks start log q place) :
    ∃ ys, Passing ticks start xs log q ys ∧
      (place = .returned → ∀ a ∈ ys, ticks < (q.key a).timestamp) := by
  induction pass with
  | start => exact ⟨xs,.initial begun,by simp⟩
  | call _ run ih =>
    obtain ⟨ys,passing,-⟩ := ih
    obtain ⟨after,first,returns,result⟩ := pick_spec passing.numbered.entries ticks
    cases returns.2 _ run
    obtain ⟨rest,kept⟩ := passing.call result
    exact ⟨rest,kept,by simp⟩
  | act _ act ih =>
    obtain ⟨ys,passing,-⟩ := ih
    obtain ⟨zs,kept⟩ := passing.act begun act
    exact ⟨zs,kept,by simp⟩
  | again _ ih =>
    obtain ⟨ys,passing,-⟩ := ih
    exact ⟨ys,passing,by simp⟩
  | finish _ run ih =>
    obtain ⟨ys,passing,-⟩ := ih
    obtain ⟨after,first,returns,result⟩ := pick_spec passing.numbered.entries ticks
    cases returns.2 _ run
    obtain ⟨late,rfl⟩ := result.missing rfl
    exact ⟨ys,passing,fun _ => late⟩

theorem Passing.bounded (passing : Passing ticks start xs log q ys) :
    (log.filterMap Event.call).length ≤ (xs.filter (start.due ticks)).length := by
  have distinct : (log.filterMap Event.call).Nodup := by
    apply passing.ordered.imp
    rintro later earlier less rfl
    have zero := (compare_order.zero later.handle later.handle).mpr rfl
    omega
  have among : log.filterMap Event.call ⊆ (xs.filter (start.due ticks)).map start.timer := by
    intro timer member
    obtain ⟨a,inside,due,rfl⟩ := passing.calls timer member
    exact List.mem_map_of_mem (List.mem_filter.mpr ⟨inside,decide_eq_true due⟩)
  have le := (List.subperm_of_subset distinct among).length_le
  rwa [List.length_map] at le

end

/-- The pass so far: no more callbacks than entries due at its start, in strictly increasing order
and each of such an entry; the loop's next test has a result, and so has each call of a callback;
and when it has returned nothing due is left and each of those entries was called back once or
cancelled. -/
structure Complete (ticks : Int) (start : Queue) (xs : List Addr) (log : List Event) (q : Queue)
    (place : Place) : Prop where
  bounded : (log.filterMap call).length ≤ (xs.filter (start.due ticks)).length
  ordered : (log.filterMap call).Pairwise (fun later earlier => compare earlier.handle later.handle < 0)
  due : ∀ timer ∈ log.filterMap call, timer.handle.timestamp ≤ ticks ∧ ∃ a ∈ xs, start.timer a = timer
  test : place = .test → ∃ q' node, Returns (fun fuel => pick fuel q ticks) (q',node)
  cancel : ∀ self, ∃ q' result, Returns (fun fuel => Timeout.cancel fuel q self) (q',result)
  schedule : ∀ self, outside q self → ∀ now timeout procedure context, ∃ q' wakeup,
    Returns (fun fuel => scheduleLocked fuel (scheduleWrites q self now timeout procedure context) self)
      (q',wakeup)
  fate : ∀ a ∈ xs, start.due ticks a →
    log.countP (invokes (start.timer a)) + log.countP (removes (start.key a)) ≤ 1
  returned : place = .returned → (∀ a, q.linked a → ticks < (q.key a).timestamp) ∧
    ∀ a ∈ xs, start.due ticks a →
      log.countP (invokes (start.timer a)) + log.countP (removes (start.key a)) = 1

theorem passes_complete {start : Queue} {xs : List Addr} (begun : Numbered start xs) {ticks : Int}
    {log : List Event} {q : Queue} {place : Place} (pass : Pass outside ticks start log q place) :
    Complete ticks start xs log q place := by
  obtain ⟨ys,passing,late⟩ := pass.passing begun
  refine ⟨passing.bounded,passing.ordered,?_,?_,?_,?_,?_,?_⟩
  · intro timer member
    obtain ⟨a,inside,due,rfl⟩ := passing.calls timer member
    exact ⟨due,a,inside,rfl⟩
  · intro _
    obtain ⟨q',node,returns,-⟩ := pick_spec passing.numbered.entries ticks
    exact ⟨q',node,returns⟩
  · intro self
    obtain ⟨q',removed,returns,-⟩ := cancel_spec passing.numbered.entries self
    exact ⟨q',removed,returns⟩
  · intro self out now timeout procedure context
    have fresh : self ∉ ys := fun member => out ((passing.numbered.entries.linked self).mpr member)
    obtain ⟨wakeup,low,high,q',returns,-⟩ := passing.numbered.schedule self now timeout
      procedure context fresh
    exact ⟨q',wakeup,returns⟩
  · intro a member early
    have fate := passing.fate a member early
    omega
  · intro ended
    refine ⟨?_,?_⟩
    · intro a linked
      exact late ended a ((passing.numbered.entries.linked a).mp linked)
    · intro a member early
      have fate := passing.fate a member early
      have gone : kept start q ys a = 0 := by
        apply if_neg
        rintro ⟨inside,same⟩
        have after := late ended a inside
        rw [same] at after
        have due : (start.key a).timestamp ≤ ticks := early
        omega
      omega

/-! Three due entries, node 2 at the root. -/

def three : Queue where
  tree := {
    nodes := {
      left := fun a => if a = 2 then some 1 else none
      right := fun a => if a = 2 then some 3 else none
      height := fun a => if a = 2 then 2 else 1
      key := fun a => ⟨(a : Int) - 1,10 * a⟩}
    root := some 2}
  seq := 3
  procedure := fun _ => 0
  context := fun _ => 0

theorem three_numbered : Numbered three [1,2,3] := by
  refine ⟨⟨.node 2 (.node 1 .nil .nil) (.node 3 .nil .nil),⟨?_,?_,?_⟩,rfl⟩,?_⟩
  · simp [Avltree.Rep,three]
  · simp [Avl.balanced_node]
  · simp [before,three,compare]
  · simp [three,Queue.key]

/-- The callback of node 1 cancels node 2 and schedules node 1 again, and node 3 is called next. -/
def firstTaken : Queue := ((pick 4 three 100).get rfl).1

def secondGone : Queue := ((Timeout.cancel 4 firstTaken 2).get rfl).1

def firstAgain : Queue := ((scheduleLocked 4 (scheduleWrites secondGone 1 100 5 7 8) 1).get rfl).1

def thirdTaken : Queue := ((pick 4 firstAgain 100).get rfl).1

theorem passes_complete_again : ∃ log q, Complete 100 three [1,2,3] log q .returned := by
  have first : Pass outside 100 three _ firstTaken .callback := @Pass.call _ _ _ _ _ _ 1 .start ⟨4,rfl⟩
  have cancelled := first.act (.cancel 2 secondGone true ⟨4,rfl⟩)
  have out : outside secondGone 1 := by
    intro linked
    change Linked secondGone.tree.nodes (some 3) 1 at linked
    cases linked with
    | left _ _ below =>
      change Linked secondGone.tree.nodes none 1 at below
      cases below
    | right _ _ below =>
      change Linked secondGone.tree.nodes none 1 at below
      cases below
  have scheduled := cancelled.act
    (.schedule 1 100 5 7 8 firstAgain false out (le_refl _) (by decide) ⟨4,rfl⟩)
  have third : Pass outside 100 three _ thirdTaken .callback := @Pass.call _ _ _ _ _ _ 3 scheduled.again ⟨4,rfl⟩
  exact ⟨_,_,passes_complete three_numbered (@Pass.finish _ _ _ _ _ thirdTaken third.again ⟨4,rfl⟩)⟩

/-- The callback of node 1 schedules the root, which gives up its right child. -/
def thirdLost : Queue := ((scheduleLocked 4 (scheduleWrites firstTaken 2 100 5 7 8) 2).get rfl).1

theorem root_rescheduled : ∃ log q, Numbered three [1,2,3] ∧
    Pass (fun _ _ => True) 100 three log q .returned ∧ three.due 100 3 ∧
    log.countP (invokes (three.timer 3)) + log.countP (removes (three.key 3)) = 0 ∧
    ¬Complete 100 three [1,2,3] log q .returned := by
  have first : Pass (fun _ _ => True) 100 three _ firstTaken .callback := @Pass.call _ _ _ _ _ _ 1 .start ⟨4,rfl⟩
  have scheduled := first.act (.schedule 2 100 5 7 8 thirdLost true trivial (le_refl _) (by decide) ⟨4,rfl⟩)
  refine ⟨_,_,three_numbered,@Pass.finish _ _ _ _ _ thirdLost scheduled.again ⟨4,rfl⟩,by decide,by decide,?_⟩
  intro complete
  exact absurd ((complete.returned rfl).2 3 (by decide) (by decide)) (by decide)

end Xrossfire.Timeout
