import Xrossfire.Library.Priority
import Xrossfire.Library.Simulation
import Xrossfire.Timeout.Pass

/-! The timers as a service that calls them back in the order of their deadlines. The tree, the lock and the poll
thread do what that service may do, so that no timer is overtaken in any run. -/
namespace Xrossfire.Timeout
open Avltree Library Relation

def Sooner (a b : Handle) : Prop := compare a b < 0

namespace Event

def change : Event → Option (Change Handle)
  | scheduled timer _ _ => some (.added timer.handle)
  | cancelled timer true => some (.dropped timer.handle)
  | picked timer _ => some (.taken timer.handle)
  | cancelled _ false | invoked _ _ _ => none

def taken : Event → Option Timer
  | picked timer _ => some timer
  | _ => none

end Event

namespace Phase

def next : Phase → Option Timer
  | picked _ _ timer => some timer
  | _ => none

@[simp] theorem wakeup_next (phase : Phase) : phase.wakeup.next = phase.next := by cases phase <;> rfl

end Phase

def State.service (s : State) : Service Handle :=
  ⟨{h | ∃ a, s.queue.linked a ∧ s.queue.key a = h},s.log.filterMap Event.change⟩

section
variable {pollings : List Polling} {s s' : State} {xs ys low high : List Addr} {self : Addr} {queue : Queue}

theorem Good.service (good : Good s xs) :
    s.service = ⟨{h | ∃ a ∈ xs, s.queue.key a = h},s.log.filterMap Event.change⟩ := by
  simp only [State.service,good.nodes.entries.linked]

/-- Neither the entries nor the log has changed. -/
theorem service_same (good : Good s xs) (good' : Good s' xs) (keys : ∀ a ∈ xs, s'.queue.key a = s.queue.key a)
    (log : s'.log = s.log) : s'.service = s.service := by
  rw [good.service,good'.service,log]
  congr 1
  ext h
  constructor
  · intro entry
    obtain ⟨a,member,rfl⟩ := entry
    exact ⟨a,member,(keys a member).symm⟩
  · intro entry
    obtain ⟨a,member,rfl⟩ := entry
    exact ⟨a,member,keys a member⟩

/-- An entry that leaves takes its key along. -/
theorem pending_remove (entries : Entries s.queue (low ++ self :: high)) (key : queue.key = s.queue.key) :
    {h | ∃ a ∈ low ++ high, queue.key a = h} =
      {h | ∃ a ∈ low ++ self :: high, s.queue.key a = h} \ {s.queue.key self} := by
  have apart : self ∉ low ++ high := (List.nodup_cons.mp (List.perm_middle.nodup_iff.mp entries.distinct)).1
  have inside : ∀ a, a ∈ low ++ high → a ∈ low ++ self :: high := by simp only [List.mem_append,List.mem_cons]; tauto
  ext h
  rw [key]
  constructor
  · intro entry
    obtain ⟨a,member,rfl⟩ := entry
    refine ⟨⟨a,inside a member,rfl⟩,?_⟩
    intro same
    have own := entries.keys (inside a member) (by simp) same
    exact apart (own ▸ member)
  · intro entry
    obtain ⟨⟨a,member,rfl⟩,other⟩ := entry
    refine ⟨a,?_,rfl⟩
    rcases List.mem_append.mp member with left | right
    · exact List.mem_append_left _ left
    · rcases List.mem_cons.mp right with rfl | right
      · exact absurd rfl other
      · exact List.mem_append_right _ right

theorem schedule_service (good : Good s xs) {timeout : Int} {procedure context : Nat}
    (outside : ¬s.queue.linked self) (good' : Good (s.schedule self timeout procedure context) xs) :
    (s.schedule self timeout procedure context).service = s.service := by
  rw [good.nodes.entries.linked] at outside
  refine service_same good good' ?_ rfl
  intro a member
  have apart : a ≠ self := fun same => outside (same ▸ member)
  exact ((scheduleWrites_spec s.queue self s.clock timeout procedure context).same a apart).2.2.2

/-- The new entry comes under an identifier that no entry had. -/
theorem scheduled_service {wakeup : Bool} (good : Good s xs) (begun : self ∈ s.scheduling)
    (run : Yields (fun fuel => scheduleLocked fuel s.queue self) (queue,wakeup)) :
    Serves Sooner s.service (s.scheduled self queue wakeup).service := by
  obtain ⟨low,high,result,good'⟩ := good.scheduledRun begun run
  have fresh : self ∉ xs := good.nodes.outside self begun
  have own : queue.key self = ⟨s.queue.seq,(s.queue.key self).timestamp⟩ := key_scheduled_self result
  have others : ∀ a ∈ xs, queue.key a = s.queue.key a := by
    intro a member
    exact key_scheduled result a (fun same => fresh (same ▸ member))
  have pending : {h | ∃ a ∈ low ++ self :: high, queue.key a = h} =
      insert (queue.key self) {h | ∃ a ∈ xs, s.queue.key a = h} := by
    ext h
    constructor
    · intro entry
      obtain ⟨a,member,rfl⟩ := entry
      rcases result.mem.mp member with rfl | old
      · exact Or.inl rfl
      · exact Or.inr ⟨a,old,(others a old).symm⟩
    · intro entry
      rcases entry with rfl | ⟨a,old,rfl⟩
      · exact ⟨self,result.mem.mpr (Or.inl rfl),rfl⟩
      · exact ⟨a,result.mem.mpr (Or.inr old),others a old⟩
  have unused : .added (queue.key self) ∉ s.log.filterMap Event.change := by
    intro given
    obtain ⟨event,member,same⟩ := List.mem_filterMap.mp given
    cases event with
    | scheduled timer procedure context =>
      have less := good.identified.used timer ((scheduled_iff s timer).mpr ⟨procedure,context,member⟩)
      simp only [Event.change,Option.some.injEq,Change.added.injEq] at same
      rw [same,own] at less
      exact lt_irrefl _ less
    | cancelled timer result => cases result <;> simp [Event.change] at same
    | picked timer now => simp [Event.change] at same
    | invoked timer procedure context => simp [Event.change] at same
  rw [good'.service,good.service]
  change Serves _ _ ⟨{h | ∃ a ∈ low ++ self :: high, queue.key a = h},_⟩
  rw [pending]
  exact .add _ _ unused

theorem cancel_service {result : Bool} (good : Good s xs) (known : s.known self)
    (run : Yields (fun fuel => cancel fuel s.queue self) (queue,result)) :
    ReflTransGen (Serves Sooner) s.service (s.cancelled self queue result).service := by
  obtain ⟨after,removed,returns,spec⟩ := cancel_spec good.nodes.entries self
  cases returns.2 _ run
  obtain ⟨ys,good',found⟩ := good.cancelled known spec
  cases result with
  | false =>
    obtain ⟨-,rfl⟩ := spec.missing rfl
    exact .refl
  | true =>
    obtain ⟨low,high,rfl,rfl⟩ := found rfl
    rw [good'.service,good.service]
    change ReflTransGen (Serves Sooner) _ (⟨{h | ∃ a ∈ low ++ high, queue.key a = h},_⟩ : Service Handle)
    rw [pending_remove good.nodes.entries spec.same.key]
    have held : s.queue.key self ∈ {h | ∃ a ∈ low ++ self :: high, s.queue.key a = h} := ⟨self,by simp,rfl⟩
    exact .single (.drop ⟨_,_⟩ _ held)

/-- What the poll thread takes is the first entry. -/
theorem picked_service {todo : List Polling} {ticks : Int} (good : Good s xs) (here : s.phase = .picking todo ticks)
    (run : Yields (fun fuel => pick fuel s.queue ticks) (queue,some self)) :
    Serves Sooner s.service (s.picked todo ticks queue self).service := by
  obtain ⟨after,first,returns,spec⟩ := pick_spec good.nodes.entries ticks
  cases returns.2 _ run
  obtain ⟨ys,rfl,good'⟩ := good.picked here spec
  have least : ∀ j ∈ {h | ∃ a ∈ self :: ys, s.queue.key a = h}, ¬Sooner j (s.queue.key self) := by
    intro j entry
    obtain ⟨a,member,rfl⟩ := entry
    intro sooner
    have backward : compare (s.queue.key a) (s.queue.key self) < 0 := sooner
    rcases List.mem_cons.mp member with rfl | later
    · have same := (compare_order.zero (s.queue.key a) (s.queue.key a)).mpr rfl
      omega
    · have forward : compare (s.queue.key self) (s.queue.key a) < 0 :=
        List.rel_of_pairwise_cons good.nodes.entries.sorted later
      have swapped := compare_order.swap (s.queue.key self) (s.queue.key a)
      omega
  have entries : Entries s.queue ([] ++ self :: ys) := good.nodes.entries
  have pending := pending_remove entries spec.same.key
  rw [good'.service,good.service]
  change Serves _ _ ⟨{h | ∃ a ∈ [] ++ ys, queue.key a = h},_⟩
  rw [pending]
  exact .take _ _ ⟨self,by simp,rfl⟩ least

theorem turn_service (good : Good s xs) (turn : Turn pollings s s') :
    ReflTransGen (Serves Sooner) s.service s'.service := by
  cases turn with
  | pick todo ticks queue node here run => exact .single (picked_service good here run)
  | pickNone todo ticks queue here run =>
    obtain ⟨after,first,returns,spec⟩ := pick_spec good.nodes.entries ticks
    cases returns.2 _ run
    obtain ⟨-,rfl⟩ := spec.missing rfl
    exact .refl
  | _ => exact .refl

/-- The timers of `timeout.c` are such a service. -/
theorem timers_serve (pollings : List Polling) : Simulates (Step pollings) (Serves Sooner)
    (fun s t => (∃ xs, Good s xs) ∧ s.service = t) := by
  intro s s' t models step
  obtain ⟨⟨xs,good⟩,rfl⟩ := models
  refine ⟨s'.service,?_,good.step step,rfl⟩
  cases step with
  | tick now later => exact .refl
  | schedule self timeout procedure context positive outside idle =>
    have fresh : self ∉ xs := fun member => outside ((good.nodes.entries.linked self).mpr member)
    rw [schedule_service good outside (good.schedule self timeout procedure context positive fresh idle)]
  | scheduled self queue wakeup begun free run => exact .single (scheduled_service good begun run)
  | cancel self queue result known free run => exact cancel_service good known run
  | poll _ turn => exact turn_service good turn

/-! ## The order of the callbacks -/

def Ascending (s : State) : Prop :=
  ∀ later earlier other procedure context, s.log = later ++ .scheduled other procedure context :: earlier →
    ∀ timer procedure context, .scheduled timer procedure context ∈ earlier → timer.handle.id < other.handle.id

def Called (s : State) : Prop :=
  s.log.filterMap Event.taken = s.phase.next.toList ++ s.log.filterMap Event.call

theorem Ascending.cons {event : Event} (ascending : Ascending s) (log : s'.log = event :: s.log)
    (newest : ∀ other procedure context, event = .scheduled other procedure context →
      ∀ timer procedure context, .scheduled timer procedure context ∈ s.log → timer.handle.id < other.handle.id) :
    Ascending s' := by
  intro later earlier other procedure context split
  rw [log] at split
  cases later with
  | nil =>
    obtain ⟨here,rfl⟩ := List.cons_eq_cons.mp split
    exact newest other procedure context here
  | cons e later => exact ascending later earlier other procedure context (List.cons_eq_cons.mp split).2

theorem turn_ordered (ascending : Ascending s) (called : Called s) (turn : Turn pollings s s') :
    Ascending s' ∧ Called s' := by
  have quiet : ∀ phase : Phase, phase.next = s.phase.next → Ascending {s with phase := phase} ∧
      Called {s with phase := phase} := by
    intro phase same
    refine ⟨ascending,?_⟩
    simp only [Called,same]
    exact called
  cases turn with
  | pick todo ticks queue node here run =>
    refine ⟨ascending.cons rfl (fun _ _ _ impossible => by cases impossible),?_⟩
    simp only [Called,here,Phase.next] at called
    simp only [Called,State.picked,List.filterMap_cons,Event.taken,Event.call,Phase.next,called]
    rfl
  | pickNone todo ticks queue here run =>
    refine ⟨ascending,?_⟩
    simp only [Called,here,Phase.next] at called ⊢
    exact called
  | invoke todo ticks timer here =>
    refine ⟨ascending.cons rfl (fun _ _ _ impossible => by cases impossible),?_⟩
    simp only [Called,here,Phase.next] at called
    simp only [Called,State.invoked,List.filterMap_cons,Event.taken,Event.call,Phase.next,called]
    rfl
  | enter here | answerTimer _ _ _ _ here _ | answerOther _ _ _ _ _ here | sleep _ _ here _ | wake _ _ _ here
  | process _ _ here _ | processOther _ _ here | otherReturns _ here | processTimer _ here | processed here
  | returned _ _ here =>
    apply quiet
    rw [here]
    rfl

theorem step_ordered (good : Good s xs) (ascending : Ascending s) (called : Called s) (step : Step pollings s s') :
    Ascending s' ∧ Called s' := by
  cases step with
  | tick now later => exact ⟨ascending,called⟩
  | schedule self timeout procedure context positive outside idle => exact ⟨ascending,called⟩
  | scheduled self queue wakeup begun free run =>
    obtain ⟨low,high,result,-⟩ := good.scheduledRun begun run
    have own : queue.key self = ⟨s.queue.seq,(s.queue.key self).timestamp⟩ := key_scheduled_self result
    constructor
    · refine ascending.cons rfl ?_
      intro other _ _ same timer procedure context member
      cases same
      have less := good.identified.used timer ((scheduled_iff s timer).mpr ⟨procedure,context,member⟩)
      rw [Queue.timer,own]
      exact less
    · have next : (if wakeup then s.phase.wakeup else s.phase).next = s.phase.next := by split <;> simp
      simp only [Called,State.scheduled,List.filterMap_cons,Event.taken,Event.call,next]
      exact called
  | cancel self queue result known free run =>
    exact ⟨ascending.cons rfl (fun _ _ _ impossible => by cases impossible),called⟩
  | poll _ turn => exact turn_ordered ascending called turn

/-- `timer` was scheduled for an earlier time than `other`, or for the same and before it. -/
def Ahead (log : List Event) (timer other : Timer) : Prop :=
  timer.handle.timestamp < other.handle.timestamp ∨ timer.handle.timestamp = other.handle.timestamp ∧
    ∃ later earlier procedure context, log = later ++ .scheduled other procedure context :: earlier ∧
      ∃ procedure context, .scheduled timer procedure context ∈ earlier

/-- No timer that is pending when another one is taken out was ahead of it, and the callbacks are made in the order
in which the timers are taken out. -/
structure InOrder (s : State) : Prop where
  called : Called s
  unovertaken : ∀ later earlier other now, s.log = later ++ .picked other now :: earlier → ∀ timer,
    (∃ procedure context, .scheduled timer procedure context ∈ earlier) → Ahead s.log timer other →
    (∃ now, .picked timer now ∈ earlier) ∨ .cancelled timer true ∈ earlier

theorem Ascending.sooner (ascending : Ascending s) {timer other : Timer} (ahead : Ahead s.log timer other) :
    Sooner timer.handle other.handle := by
  simp only [Sooner,compare]
  rcases ahead with early | ⟨same,later,earlier,procedure,context,split,procedure',context',member⟩
  · rw [if_pos (ne_of_lt early),if_pos early]
    decide
  · have less := ascending later earlier other procedure context split timer procedure' context' member
    rw [if_neg (not_not.mpr same),if_pos (ne_of_lt less),if_pos less]
    decide

/-- The timer of a pick or a successful cancel was scheduled. -/
theorem Good.scheduled_of_change (good : Good s xs) {timer : Timer}
    (left : (∃ now, .picked timer now ∈ s.log) ∨ .cancelled timer true ∈ s.log) :
    0 < s.count (Event.schedules timer) := by
  rw [good.balance.fate]
  rcases left with ⟨now,member⟩ | member
  · have pos : 0 < s.count (Event.picks timer) :=
      List.countP_pos_iff.mpr ⟨_,member,decide_eq_true rfl⟩
    omega
  · have pos : 0 < s.count (Event.cancels timer) :=
      List.countP_pos_iff.mpr ⟨_,member,by simp [Event.cancels]⟩
    omega

/-- Of each timer there is one, so what left under its handle was it. -/
theorem Good.left_of_change {earlier : List Event} {timer : Timer} (good : Good s xs) (sub : earlier ⊆ s.log)
    (given : ∃ procedure context, .scheduled timer procedure context ∈ s.log)
    (left : .taken timer.handle ∈ earlier.filterMap Event.change ∨
      .dropped timer.handle ∈ earlier.filterMap Event.change) :
    (∃ now, .picked timer now ∈ earlier) ∨ .cancelled timer true ∈ earlier := by
  have own : ∀ other : Timer, (∃ now, .picked other now ∈ s.log) ∨ .cancelled other true ∈ s.log →
      other.handle = timer.handle → other = timer := by
    intro other gone same
    exact good.identified.unique other timer (good.scheduled_of_change gone) ((scheduled_iff s timer).mpr given)
      (congrArg Handle.id same)
  rcases left with taken | dropped
  · obtain ⟨event,member,same⟩ := List.mem_filterMap.mp taken
    cases event with
    | picked other now =>
      simp only [Event.change,Option.some.injEq,Change.taken.injEq] at same
      cases own other (Or.inl ⟨now,sub member⟩) same
      exact Or.inl ⟨now,member⟩
    | cancelled other result => cases result <;> simp [Event.change] at same
    | scheduled other procedure context => simp [Event.change] at same
    | invoked other procedure context => simp [Event.change] at same
  · obtain ⟨event,member,same⟩ := List.mem_filterMap.mp dropped
    cases event with
    | cancelled other result =>
      cases result with
      | false => simp [Event.change] at same
      | true =>
        simp only [Event.change,Option.some.injEq,Change.dropped.injEq] at same
        cases own other (Or.inr (sub member)) same
        exact Or.inr member
    | picked other now => simp [Event.change] at same
    | scheduled other procedure context => simp [Event.change] at same
    | invoked other procedure context => simp [Event.change] at same

theorem initial_service (initial : Initial s) : s.service = ⟨∅,[]⟩ := by
  rw [initial.good.service,initial.log]
  simp

theorem reachable_inOrder (reach : Reachable pollings s) : InOrder s := by
  obtain ⟨start,initial,run⟩ := reach
  have keeps : ∀ q q', ((∃ xs, Good q xs) ∧ Ascending q ∧ Called q) → Step pollings q q' →
      (∃ xs, Good q' xs) ∧ Ascending q' ∧ Called q' := by
    intro q q' holds step
    obtain ⟨⟨xs,good⟩,ascending,called⟩ := holds
    exact ⟨good.step step,step_ordered good ascending called step⟩
  have begun : Ascending start ∧ Called start := by
    constructor
    · intro later earlier other procedure context split
      rw [initial.log] at split
      simp at split
    · simp only [Called,initial.log,initial.phase,Phase.next]
      rfl
  obtain ⟨⟨xs,good⟩,ascending,called⟩ := run_invariant keeps run ⟨⟨[],initial.good⟩,begun⟩
  obtain ⟨t,serves,-,rfl⟩ := (timers_serve pollings).run ⟨⟨[],initial.good⟩,rfl⟩ run
  rw [initial_service initial] at serves
  refine ⟨called,?_⟩
  intro later earlier other now split timer given ahead
  have sub : earlier ⊆ s.log := by
    rw [split]
    exact fun event member => List.mem_append_right _ (List.mem_cons_of_mem _ member)
  obtain ⟨procedure,context,member⟩ := given
  apply good.left_of_change sub ⟨procedure,context,sub member⟩
  apply served_unovertaken serves (later.filterMap Event.change) _ other.handle
  · simp only [State.service,split,List.filterMap_append,List.filterMap_cons,Event.change]
  · exact ascending.sooner ahead
  · exact List.mem_filterMap.mpr ⟨_,member,rfl⟩

end

theorem reachable_inOrder_expired : InOrder expired := reachable_inOrder expired_reachable

end Xrossfire.Timeout
