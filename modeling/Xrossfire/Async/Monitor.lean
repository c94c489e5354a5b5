import Xrossfire.Async.Account

/-! The monitor of an async. A thread holds it as often as its stack has program
points inside locked sections, and no other thread is inside one then. -/
namespace Xrossfire.Async
open Library

namespace Frame

def holds (a : Id) : Frame → Bool
  | start b _ | leave b _ | cancelTarget b | unlock b | clear b | user (.entered b) _ _ => b = a
  | _ => false

def starts (a : Id) : Frame → Bool
  | start b _ => b = a
  | _ => false

theorem holds_owner {a : Id} {f : Frame} (holds : f.holds a) : f.owner = some a := by
  unfold Frame.holds at holds
  split at holds <;> simp_all [owner,subject]

theorem starts_holds {a : Id} {f : Frame} (starts : f.starts a) : f.holds a := by
  unfold Frame.starts at starts
  split at starts
  · exact starts
  · cases starts

end Frame

def Object.entered (x : Object) (thread : Nat) : Nat := if x.owner = some thread then x.depth else 0

def Object.Owned (x : Object) : Prop := x.owner = none ↔ x.depth = 0

/-- What a thread's stack tells about the monitor. An operation starts its I/O before its thread does
anything else. -/
structure Guarded (a : Id) (x : Object) (thread : Nat) (stack : List Frame) : Prop where
  entered : stack.countP (·.holds a) = x.entered thread
  start : ∀ f ∈ stack.tail, ¬ f.starts a

structure Monitored (a : Id) (c : Config) : Prop where
  owned : (c.world.asyncs a).Owned
  outside : ∀ thread, c.threads.length ≤ thread → (c.world.asyncs a).entered thread = 0
  stack : Stacks (Guarded a (c.world.asyncs a)) c.threads

namespace Object
variable {x : Object} {thread n : Nat}

theorem lock_entered (owned : x.Owned) (available : x.available thread) (entered : n = x.entered thread) :
    (x.lock thread).Owned ∧ n + 1 = (x.lock thread).entered thread ∧
      ∀ other, other ≠ thread → (x.lock thread).entered other = x.entered other := by
  simp only [Object.available,Bool.or_eq_true,decide_eq_true_eq] at available
  refine ⟨by simp [Owned,lock],?_,?_⟩
  · rcases available with free | own
    · simp [Object.entered,lock,entered,free,owned.mp free]
    · simp [Object.entered,lock,entered,own]
  · intro other apart
    rcases available with free | own
    · simp [Object.entered,lock,free,Ne.symm apart]
    · simp [Object.entered,lock,own,Ne.symm apart]

theorem unlock_entered (entered : n + 1 = x.entered thread) :
    x.unlock.Owned ∧ n = x.unlock.entered thread ∧
      ∀ other, other ≠ thread → x.unlock.entered other = x.entered other := by
  simp only [Object.entered] at entered
  split at entered
  · next own =>
    rcases Nat.lt_or_ge 1 x.depth with deep | last
    · refine ⟨?_,?_,?_⟩
      · simp [Owned,unlock,own,Nat.not_le.mpr deep]
        omega
      · simp [Object.entered,unlock,own,Nat.not_le.mpr deep]
        omega
      · intro other apart
        simp [Object.entered,unlock,own,Nat.not_le.mpr deep,Ne.symm apart]
    · refine ⟨?_,?_,?_⟩
      · simp [Owned,unlock,last]
      · simp [Object.entered,unlock,last]
        omega
      · intro other apart
        simp [Object.entered,unlock,last,own,Ne.symm apart]
  · cases entered

end Object

/-- A library step moves its thread in and out of the locked sections along with the monitor. -/
theorem act_monitor {thread : Nat} {a : Id} {x x' : Object} {f : Frame} {outcome : Outcome} {frames : List Frame}
    (subject : f.subject = some a) (step : act thread x f outcome = some (x',frames)) (owned : x.Owned) {n : Nat}
    (entered : n + [f].countP (·.holds a) = x.entered thread) :
    x'.Owned ∧ n + frames.countP (·.holds a) = x'.entered thread ∧
      ∀ other, other ≠ thread → x'.entered other = x.entered other := by
  replace step := act_acts step
  cases step <;> cases subject
  all_goals simp only [Frame.holds,List.countP_cons,List.countP_nil,decide_true,Nat.zero_add,
    Nat.add_zero,if_true,Bool.false_eq_true,if_false] at entered ⊢
  all_goals first
    | exact ⟨owned,entered,fun _ _ => rfl⟩
    | exact ⟨owned,entered,fun _ _ => trivial⟩
    | exact Object.lock_entered owned ‹_› entered
    | exact Object.unlock_entered entered

/-- An operation that is about to start its I/O does nothing else before. -/
theorem act_starts {thread : Nat} {a : Id} {x x' : Object} {f : Frame} {outcome : Outcome} {frames : List Frame}
    (step : act thread x f outcome = some (x',frames)) : ∀ g ∈ frames.tail, ¬ g.starts a := by
  replace step := act_acts step
  cases step
  all_goals simp [Frame.starts]

theorem finish_holds (a : Id) (err : Error) (role : Role) (pc : Nat) (last : Option Id) :
    (finish err role).countP (·.holds a) = [Frame.user role pc last].countP (·.holds a) := by
  cases role with
  | main | completed _ _ | entered _ => rfl
  | procedure b phase e handed =>
    simp only [finish]
    split <;> rfl

theorem finish_starts (a : Id) {err : Error} {role : Role} : ∀ g ∈ finish err role, ¬ g.starts a := by
  intro g member
  cases finish_mem member <;> exact Bool.false_ne_true

namespace Guarded
variable {a : Id} {x x' : Object} {thread : Nat} {f : Frame} {rest frames : List Frame}

/-- The points `frames` take the place of `f`. -/
theorem step (guarded : Guarded a x thread (f :: rest))
    (entered : ∀ n, n + [f].countP (·.holds a) = x.entered thread →
      n + frames.countP (·.holds a) = x'.entered thread)
    (start : ∀ g ∈ frames.tail, ¬ g.starts a) : Guarded a x' thread (frames ++ rest) := by
  refine ⟨?_,?_⟩
  · have before := guarded.entered
    rw [List.countP_cons,← List.countP_singleton] at before
    rw [List.countP_append,Nat.add_comm]
    exact entered _ before
  · intro g member
    cases frames with
    | nil => exact guarded.start g (List.mem_of_mem_tail member)
    | cons h frames =>
      rcases List.mem_append.mp member with new | old
      · exact start g new
      · exact guarded.start g old

/-- Points outside the locked sections come and go. -/
theorem outside (guarded : Guarded a x thread (f :: rest))
    (same : frames.countP (·.holds a) = [f].countP (·.holds a)) (start : ∀ g ∈ frames, ¬ g.starts a) :
    Guarded a x thread (frames ++ rest) := by
  apply guarded.step
  · intro n entered
    rw [same,entered]
  · exact fun g member => start g (List.mem_of_mem_tail member)

theorem same {stack : List Frame} (guarded : Guarded a x thread stack) (owner : x'.owner = x.owner)
    (depth : x'.depth = x.depth) : Guarded a x' thread stack := by
  refine ⟨?_,guarded.start⟩
  rw [guarded.entered,Object.entered,Object.entered,owner,depth]

/-- User code calls code outside the locked sections. -/
theorem user {c : Config} {role role' : Role} {pc pc' : Nat} {last last' : Option Id} (frames : List Frame)
    (stack : Stacks (Guarded a x) c.threads) (here : c.threads[thread]? = some (.user role pc last :: rest))
    (quiet : ∀ g ∈ frames, ¬ g.holds a)
    (resumed : (Frame.user role' pc' last').holds a = (Frame.user role pc last).holds a) :
    Stacks (Guarded a x) (c.threads.set thread (frames ++ [Frame.user role' pc' last'] ++ rest)) := by
  apply stack.set (fun _ _ _ guarded => guarded)
  apply (stack thread _ here).outside
  · rw [List.countP_append,List.countP_eq_zero.mpr quiet,Nat.zero_add,List.countP_singleton,
      List.countP_singleton,resumed]
  · intro g member starts
    rcases List.mem_append.mp member with new | own
    · exact quiet g new (Frame.starts_holds starts)
    · rw [List.mem_singleton.mp own] at starts
      cases starts

end Guarded

theorem user_holds (a : Id) (role : Role) (pc pc' : Nat) (last last' : Option Id) :
    (Frame.user role pc' last').holds a = (Frame.user role pc last).holds a := by
  cases role <;> rfl

theorem after_holds (a b : Id) (call : Call) (role : Role) (pc : Nat) (last : Option Id) :
    (Frame.user (role.after b call) pc last).holds a = (Frame.user role pc last).holds a := by
  cases role <;> cases call <;> rfl

theorem construct_quiet {a b : Id} {kind : Kind} {timed : Bool} {parent : Option Id} :
    ∀ g ∈ construct b kind timed parent, ¬ g.holds a := by
  intro g member
  rcases construct_mem member with ⟨p,-,rfl⟩ | rfl | ⟨-,rfl⟩ <;> exact Bool.false_ne_true

theorem request_monitor {a b : Id} {x x' : Object} {call : Call} {frames : List Frame}
    (step : request b x call = some (x',frames)) :
    x'.owner = x.owner ∧ x'.depth = x.depth ∧ ∀ g ∈ frames, ¬ g.holds a := by
  replace step := request_requests step
  cases step
  all_goals simp [Frame.holds]

theorem arise_monitor {a b : Id} {x x' : Object} {cause : Cause} {frames : List Frame}
    (step : arise b x cause = some (x',frames)) :
    x'.owner = x.owner ∧ x'.depth = x.depth ∧ ∀ g ∈ frames, ¬ g.holds a := by
  replace step := arise_arises step
  cases step
  all_goals simp [Frame.holds]

namespace Monitored
variable {a : Id} {c c' : Config} {event : Event}

theorem length {threads : List (List Frame)} (monitored : Monitored a c) (le : c.threads.length ≤ threads.length)
    (thread : Nat) (beyond : threads.length ≤ thread) : (c.world.asyncs a).entered thread = 0 :=
  monitored.outside thread (Nat.le_trans le beyond)

/-- A step that leaves the monitor alone. -/
theorem set (monitored : Monitored a c) {b : Id} {x : Object} {threads : List (List Frame)}
    (owner : x.owner = (c.world.asyncs b).owner) (depth : x.depth = (c.world.asyncs b).depth)
    (le : c.threads.length ≤ threads.length) (stack : Stacks (Guarded a (c.world.asyncs a)) threads) :
    Monitored a ⟨c.world.set b x,threads⟩ := by
  have owner : ((c.world.set b x).asyncs a).owner = (c.world.asyncs a).owner := by
    by_cases same : a = b
    · rw [same,World.set_asyncs_self,owner]
    · rw [World.set_asyncs_of_ne same]
  have depth : ((c.world.set b x).asyncs a).depth = (c.world.asyncs a).depth := by
    by_cases same : a = b
    · rw [same,World.set_asyncs_self,depth]
    · rw [World.set_asyncs_of_ne same]
  refine ⟨?_,?_,stack.imp (fun _ _ guarded => guarded.same owner depth)⟩
  · rw [Object.Owned,owner,depth]
    exact monitored.owned
  · intro thread beyond
    rw [Object.entered,owner,depth]
    exact monitored.length le thread beyond

/-- A new async is outside its locked sections. -/
theorem make (known : Known c) (monitored : a < c.world.next → Monitored a c) {thread : Nat} {role : Role}
    {pc : Nat} {last last' : Option Id} {rest frames : List Frame} {x : Object}
    (here : c.threads[thread]? = some (.user role pc last :: rest)) (quiet : ∀ g ∈ frames, ¬ g.holds a)
    (owner : x.owner = none) (depth : x.depth = 0) (made : a < c.world.next + 1) :
    Monitored a ⟨c.world.make x,c.threads.set thread (frames ++ [Frame.user role (pc + 1) last'] ++ rest)⟩ := by
  have resumed := user_holds a role pc (pc + 1) last last'
  rcases Nat.lt_or_eq_of_le (Nat.le_of_lt_succ made) with lt | rfl
  · have before := monitored lt
    have same : (c.world.make x).asyncs a = c.world.asyncs a := World.make_asyncs_of_lt lt
    refine ⟨same ▸ before.owned,?_,?_⟩
    · intro thread beyond
      change ((c.world.make x).asyncs a).entered thread = 0
      rw [same]
      exact before.length (Nat.le_of_eq List.length_set.symm) thread beyond
    · change Stacks (Guarded a ((c.world.make x).asyncs a)) _
      rw [same]
      exact Guarded.user frames before.stack here quiet resumed
  · have free (thread : Nat) : x.entered thread = 0 := by
      rw [Object.entered,owner,if_neg (fun same => by cases same)]
    have apart (f : Frame) (member : f ∈ c.threads.flatten) : ¬ f.holds c.world.next := by
      intro holds
      exact absurd (known.frame f member _ (owner_mentions (Frame.holds_owner holds))) (Nat.lt_irrefl _)
    have before : Stacks (Guarded c.world.next x) c.threads := by
      intro thread stack found
      have inside (f : Frame) (member : f ∈ stack) : ¬ f.holds c.world.next :=
        apart f (List.mem_flatten.mpr ⟨stack,List.mem_of_getElem? found,member⟩)
      refine ⟨?_,?_⟩
      · rw [free,List.countP_eq_zero]
        exact inside
      · exact fun f member starts => inside f (List.mem_of_mem_tail member) (Frame.starts_holds starts)
    have same : (c.world.make x).asyncs c.world.next = x := World.make_asyncs_self _ _
    refine ⟨?_,?_,?_⟩
    · change ((c.world.make x).asyncs c.world.next).Owned
      rw [same]
      exact iff_of_true owner depth
    · intro thread _
      change ((c.world.make x).asyncs c.world.next).entered thread = 0
      rw [same]
      exact free thread
    · change Stacks (Guarded c.world.next ((c.world.make x).asyncs c.world.next)) _
      rw [same]
      exact Guarded.user frames before here quiet resumed

theorem effect (known : Known c) (effect : Effect c event c') (monitored : a < c.world.next → Monitored a c)
    (made : a < c'.world.next) : Monitored a c' := by
  cases effect with
  | @library thread f rest outcome b x frames here subject below step =>
    have before := monitored made
    have guarded := before.stack thread _ here
    have bound : thread < c.threads.length := (List.getElem?_eq_some_iff.mp here).1
    by_cases same : b = a
    · subst same
      have moved (n : Nat) := act_monitor subject step before.owned (n := n)
      have entered := guarded.entered
      rw [List.countP_cons,← List.countP_singleton] at entered
      obtain ⟨owned,-,others⟩ := moved _ entered
      refine ⟨?_,?_,?_⟩ <;> rw [World.set_asyncs_self]
      · exact owned
      · intro other beyond
        rw [List.length_set] at beyond
        rw [others other (by omega)]
        exact before.outside other beyond
      · refine before.stack.set ?_ ?_
        · intro other stack apart guarded
          exact ⟨guarded.entered.trans (others other apart).symm,guarded.start⟩
        · exact guarded.step (fun n entered => (moved n entered).2.1) (act_starts step)
    · have apart : ¬ f.holds a := by
        intro holds
        cases f with
        | user => cases subject
        | link _ _ | unlink _ _ => cases holds
        | _ => exact same (Option.some.inj (subject.symm.trans (Frame.holds_owner holds)))
      have quiet : ∀ g ∈ frames, ¬ g.holds a := by
        intro g member holds
        rcases act_foreign same subject step g member (Frame.holds_owner holds) with ⟨e,-,-,rfl⟩ | ⟨-,rfl⟩ <;>
          cases holds
      have stack : Stacks (Guarded a (c.world.asyncs a)) (c.threads.set thread (frames ++ rest)) := by
        apply before.stack.set (fun _ _ _ guarded => guarded)
        apply guarded.outside
        · rw [List.countP_eq_zero.mpr quiet,List.countP_singleton,if_neg apart]
        · exact fun g member starts => quiet g member (Frame.starts_holds starts)
      refine ⟨?_,?_,?_⟩ <;> rw [World.set_asyncs_of_ne (Ne.symm same)]
      · exact before.owned
      · exact fun other beyond => before.length (Nat.le_of_eq List.length_set.symm) other beyond
      · exact stack
  | @call thread role pc last rest b call x frames here below step =>
    obtain ⟨owner,depth,quiet⟩ := request_monitor (a := a) step
    apply (monitored made).set owner depth (Nat.le_of_eq List.length_set.symm)
    apply Guarded.user frames (monitored made).stack here quiet
    rw [after_holds,user_holds]
  | new here kind below => exact make known monitored here construct_quiet rfl rfl made
  | @unmade thread role pc last rest timed parent here below =>
    change Monitored a ⟨_,c.threads.set _ ([] ++ [Frame.user role (pc + 1) none] ++ rest)⟩
    exact make known monitored here (fun g member => absurd member List.not_mem_nil) rfl rfl made
  | @refused thread role pc last rest timed parent here =>
    refine ⟨(monitored made).owned,(monitored made).length (Nat.le_of_eq List.length_set.symm),?_⟩
    exact Guarded.user [] (monitored made).stack here (fun g member => absurd member List.not_mem_nil)
      (user_holds _ _ _ _ _ _)
  | waitNew here below below' => exact make known monitored here construct_quiet rfl rfl made
  | @store thread b phase phase' e handed pc last rest here below =>
    refine (monitored made).set (b := b) ?_ ?_ (Nat.le_of_eq List.length_set.symm) ?_
    · rfl
    · rfl
    exact Guarded.user [] (monitored made).stack here (fun g member => absurd member List.not_mem_nil)
      (user_holds _ _ _ _ _ _)
  | @finish thread role pc last rest err here =>
    refine ⟨(monitored made).owned,(monitored made).length (Nat.le_of_eq List.length_set.symm),?_⟩
    apply (monitored made).stack.set (fun _ _ _ guarded => guarded)
    exact ((monitored made).stack thread _ here).outside (finish_holds a err role pc last) (finish_starts a)
  | spawn =>
    have before := monitored made
    refine ⟨before.owned,before.length (by simp),before.stack.spawn ?_⟩
    exact ⟨(before.outside _ (Nat.le_refl _)).symm,fun f member => absurd member List.not_mem_nil⟩
  | @arise b cause x frames below step =>
    have before := monitored made
    obtain ⟨owner,depth,quiet⟩ := arise_monitor (a := a) step
    apply before.set owner depth (by simp)
    apply before.stack.spawn
    refine ⟨?_,fun f member starts => quiet f (List.mem_of_mem_tail member) (Frame.starts_holds starts)⟩
    rw [before.outside _ (Nat.le_refl _)]
    exact List.countP_eq_zero.mpr quiet

/-- A thread that can enter the monitor and is not about to start an I/O itself finds no other that is. -/
theorem exclusive (monitored : Monitored a c) {thread : Nat} {f : Frame} (top : c.top thread = some f)
    (available : (c.world.asyncs a).available thread) (apart : ¬ f.starts a) :
    ∀ g ∈ c.threads.flatten, ¬ g.starts a := by
  intro g member starts
  obtain ⟨stack,inside,member⟩ := List.mem_flatten.mp member
  obtain ⟨other,found⟩ := List.mem_iff_getElem?.mp inside
  have guarded := monitored.stack other stack found
  have pos : 0 < (c.world.asyncs a).entered other := by
    rw [← guarded.entered]
    exact List.countP_pos_iff.mpr ⟨g,member,Frame.starts_holds starts⟩
  simp only [Object.entered] at pos
  split at pos
  · next own =>
    simp only [Object.available,Bool.or_eq_true,decide_eq_true_eq,own] at available
    rcases available with free | same
    · cases free
    · cases same
      obtain ⟨stack',here,head⟩ := Option.bind_eq_some_iff.mp top
      rw [found] at here
      cases here
      cases stack with
      | nil => cases member
      | cons h rest =>
        cases head
        rcases List.mem_cons.mp member with rfl | deep
        · exact apart starts
        · exact guarded.start g deep starts
  · omega

end Monitored

end Xrossfire.Async
