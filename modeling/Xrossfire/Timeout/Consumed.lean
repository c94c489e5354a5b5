import Xrossfire.Library.Run
import Xrossfire.Timeout.Loop

/-! Every scheduling of a timer is consumed once: it leaves the tree by one pick
of the poll thread, followed by one callback, or by one successful cancel.
The invariant balances the schedulings in the log against the tree, the picks
and the successful cancels. -/
namespace Xrossfire.Timeout
open Avltree Library Event

def present (s : State) (xs : List Addr) (timer : Timer) : Nat :=
  if timer.node ∈ xs ∧ s.queue.key timer.node = timer.handle then 1 else 0

structure Nodes (s : State) (xs : List Addr) : Prop where
  entries : Entries s.queue xs
  clock : 0 ≤ s.clock
  due : ∀ a ∈ xs, 1 ≤ (s.queue.key a).timestamp
  once : s.scheduling.Nodup
  outside : ∀ a ∈ s.scheduling, a ∉ xs
  leaf : ∀ a ∈ s.scheduling, s.queue.tree.nodes.left a = none ∧ s.queue.tree.nodes.right a = none
  deadline : ∀ a ∈ s.scheduling, 1 ≤ (s.queue.key a).timestamp

structure Identified (s : State) : Prop where
  used : ∀ timer, 0 < s.count (schedules timer) → timer.handle.id < s.queue.seq
  single : ∀ timer, s.count (schedules timer) ≤ 1
  unique : ∀ timer other, 0 < s.count (schedules timer) → 0 < s.count (schedules other) →
    timer.handle.id = other.handle.id → timer = other
  current : ∀ timer, 0 < s.count (schedules timer) → ∃ last, 0 < s.count (schedules last) ∧
    last.node = timer.node ∧ last.handle.id = (s.queue.key timer.node).id
  programmed : ∀ timer procedure context, scheduled timer procedure context ∈ s.log →
    timer.node ∉ s.scheduling → (s.queue.key timer.node).id = timer.handle.id →
    procedure = s.queue.procedure timer.node ∧ context = s.queue.context timer.node

/-- Each scheduling is in the tree, picked or cancelled, and each pick is called back. -/
structure Balance (s : State) (xs : List Addr) : Prop where
  fate : ∀ timer, s.count (schedules timer) =
    present s xs timer + s.count (picks timer) + s.count (cancels timer)
  calls : ∀ timer, s.count (picks timer) = s.count (invokes timer) + s.phase.calls timer

structure Punctual (s : State) : Prop where
  picked : ∀ timer now, picked timer now ∈ s.log → timer.handle.timestamp ≤ now
  ticks : ∀ todo ticks, s.phase = .picking todo ticks → ticks ≤ s.clock
  next : ∀ todo ticks timer, s.phase = .picked todo ticks timer → ticks ≤ s.clock
  running : ∀ todo ticks, s.phase = .running todo ticks → ticks ≤ s.clock

structure Good (s : State) (xs : List Addr) : Prop where
  nodes : Nodes s xs
  identified : Identified s
  balance : Balance s xs
  punctual : Punctual s

/-! ## Counting in the log -/

@[simp] theorem count_mk (queue : Queue) (clock : Int) (scheduling : List Addr) (phase : Phase)
    (log : List Event) (p : Event → Bool) :
    State.count ⟨queue,clock,scheduling,phase,log⟩ p = log.countP p := rfl

theorem count_eq (s : State) (p : Event → Bool) : s.count p = s.log.countP p := rfl

theorem scheduled_iff (s : State) (timer : Timer) :
    0 < s.count (schedules timer) ↔ ∃ procedure context, scheduled timer procedure context ∈ s.log := by
  rw [count_eq,List.countP_pos_iff]
  constructor
  · rintro ⟨event,member,here⟩
    cases event with
    | scheduled other procedure context =>
      cases of_decide_eq_true here
      exact ⟨procedure,context,member⟩
    | cancelled _ _ | picked _ _ | invoked _ _ _ => cases here
  · rintro ⟨procedure,context,member⟩
    exact ⟨_,member,decide_eq_true rfl⟩

theorem present_congr {s s' : State} {xs : List Addr} {timer : Timer}
    (same : timer.node ∈ xs → s'.queue.key timer.node = s.queue.key timer.node) :
    present s' xs timer = present s xs timer := by
  simp only [present]
  by_cases member : timer.node ∈ xs
  · rw [same member]
  · simp only [member,false_and]

theorem present_of_mem {s : State} {xs : List Addr} {a : Addr} (member : a ∈ xs) :
    present s xs (s.queue.timer a) = 1 := if_pos ⟨member,rfl⟩

theorem present_of_not_mem {s : State} {xs : List Addr} {timer : Timer} (out : timer.node ∉ xs) :
    present s xs timer = 0 := if_neg (fun both => out both.1)

/-- An entry that leaves takes its own scheduling out of the tree and no other. -/
theorem present_remove {s s' : State} {low high : List Addr} {a : Addr} {timer : Timer}
    (distinct : (low ++ a :: high).Nodup) (key : s'.queue.key = s.queue.key) :
    present s (low ++ a :: high) timer =
      present s' (low ++ high) timer + if s.queue.timer a = timer then 1 else 0 := by
  have apart : a ∉ low ++ high := (List.nodup_cons.mp (List.perm_middle.nodup_iff.mp distinct)).1
  by_cases here : s.queue.timer a = timer
  · subst here
    rw [present_of_mem (by simp),present_of_not_mem apart,if_pos rfl]
  · rw [if_neg here,Nat.add_zero]
    simp only [present,key]
    by_cases own : s.queue.key timer.node = timer.handle
    · have other : timer.node ≠ a := by
        intro same
        apply here
        rw [Queue.timer,← same,own]
      simp [own,other]
    · simp only [own,and_false]

/-- The inserted node brings in its new scheduling. -/
theorem present_insert {s s' : State} {low high : List Addr} {a : Addr} {timer : Timer}
    (fresh : a ∉ low ++ high) (keys : ∀ b ≠ a, s'.queue.key b = s.queue.key b) :
    present s' (low ++ a :: high) timer =
      present s (low ++ high) timer + if s'.queue.timer a = timer then 1 else 0 := by
  by_cases same : timer.node = a
  · rw [present_of_not_mem (s := s) (by rw [same]; exact fresh),Nat.zero_add]
    subst same
    obtain ⟨node,handle⟩ := timer
    simp [present,Queue.timer]
  · have other : s'.queue.timer a ≠ timer := by
      rintro rfl
      exact same rfl
    rw [if_neg other,Nat.add_zero]
    simp [present,keys _ same,same]

/-! ## Steps that leave the queue alone -/

theorem Nodes.same {s s' : State} {xs : List Addr} (nodes : Nodes s xs) (queue : s'.queue = s.queue)
    (scheduling : s'.scheduling = s.scheduling) (clock : s.clock ≤ s'.clock) : Nodes s' xs where
  entries := by rw [queue]; exact nodes.entries
  clock := le_trans nodes.clock clock
  due := by rw [queue]; exact nodes.due
  once := by rw [scheduling]; exact nodes.once
  outside := by rw [scheduling]; exact nodes.outside
  leaf := by rw [queue,scheduling]; exact nodes.leaf
  deadline := by rw [queue,scheduling]; exact nodes.deadline

/-- Identifiers depend on the keys, the counter, the callbacks and the schedulings in the log. -/
theorem Identified.same {s s' : State} (identified : Identified s)
    (ids : ∀ a, (s'.queue.key a).id = (s.queue.key a).id) (seq : s'.queue.seq = s.queue.seq)
    (callbacks : ∀ a ∉ s'.scheduling, a ∉ s.scheduling ∧ s'.queue.procedure a = s.queue.procedure a ∧
      s'.queue.context a = s.queue.context a)
    (log : ∀ timer, s'.count (schedules timer) = s.count (schedules timer))
    (events : ∀ timer procedure context, scheduled timer procedure context ∈ s'.log →
      scheduled timer procedure context ∈ s.log) : Identified s' where
  used timer := by rw [log,seq]; exact identified.used timer
  single timer := by rw [log]; exact identified.single timer
  unique timer other := by rw [log,log]; exact identified.unique timer other
  current timer earlier := by
    rw [log] at earlier
    obtain ⟨last,known,node,id⟩ := identified.current timer earlier
    exact ⟨last,by rw [log]; exact known,node,by rw [ids]; exact id⟩
  programmed timer procedure context member quiet id := by
    obtain ⟨idle,procedures,contexts⟩ := callbacks timer.node quiet
    rw [procedures,contexts]
    rw [ids] at id
    exact identified.programmed timer procedure context (events _ _ _ member) idle id

/-- The clock moves, or the poll thread moves without a pick or a callback. -/
theorem Good.quiet {s s' : State} {xs : List Addr} (good : Good s xs) (queue : s'.queue = s.queue)
    (scheduling : s'.scheduling = s.scheduling) (log : s'.log = s.log) (clock : s.clock ≤ s'.clock)
    (calls : ∀ timer, s'.phase.calls timer = s.phase.calls timer) (punctual : Punctual s') :
    Good s' xs where
  nodes := good.nodes.same queue scheduling clock
  identified := by
    apply good.identified.same
    · intro a
      rw [queue]
    · rw [queue]
    · intro a idle
      rw [queue]
      rw [scheduling] at idle
      exact ⟨idle,rfl,rfl⟩
    · intro timer
      rw [count_eq,count_eq,log]
    · intro timer procedure context member
      rw [log] at member
      exact member
  balance := by
    obtain ⟨fate,balance⟩ := good.balance
    constructor
    · intro timer
      simpa only [present,count_eq,queue,log] using fate timer
    · intro timer
      simpa only [count_eq,log,calls] using balance timer
  punctual := punctual

/-! ## Scheduling -/

/-- What happens to a node that is neither in the tree nor on its way there. -/
theorem Nodes.elsewhere {s s' : State} {xs : List Addr} {self : Addr} (nodes : Nodes s xs) (outside : self ∉ xs)
    (idle : self ∉ s.scheduling) (root : s'.queue.tree.root = s.queue.tree.root)
    (same : ∀ a ≠ self, s'.queue.tree.nodes.left a = s.queue.tree.nodes.left a ∧
      s'.queue.tree.nodes.right a = s.queue.tree.nodes.right a ∧
      s'.queue.tree.nodes.height a = s.queue.tree.nodes.height a ∧ s'.queue.key a = s.queue.key a)
    (scheduling : s'.scheduling = s.scheduling) (clock : s'.clock = s.clock) : Nodes s' xs := by
  have apart : ∀ a ∈ xs, a ≠ self := by
    rintro a member rfl
    exact outside member
  have begun : ∀ a ∈ s.scheduling, a ≠ self := by
    rintro a member rfl
    exact idle member
  refine ⟨?_,?_,?_,?_,?_,?_,?_⟩
  · exact nodes.entries.congr root (fun a ha => same a (apart a ha))
  · rw [clock]
    exact nodes.clock
  · intro a ha
    rw [(same a (apart a ha)).2.2.2]
    exact nodes.due a ha
  · rw [scheduling]
    exact nodes.once
  · rw [scheduling]
    exact nodes.outside
  · intro a ha
    rw [scheduling] at ha
    obtain ⟨left,right,-⟩ := same a (begun a ha)
    rw [left,right]
    exact nodes.leaf a ha
  · intro a ha
    rw [scheduling] at ha
    rw [(same a (begun a ha)).2.2.2]
    exact nodes.deadline a ha

/-- A node outside the tree is written for its place there. -/
theorem Nodes.written {s s' : State} {xs : List Addr} {self : Addr} {timestamp : Int} (nodes : Nodes s xs)
    (outside : self ∉ xs) (idle : self ∉ s.scheduling) (written : Written s.queue self timestamp s'.queue)
    (positive : 1 ≤ timestamp) (scheduling : s'.scheduling = self :: s.scheduling) (clock : s'.clock = s.clock) :
    Nodes s' xs := by
  have kept : Nodes {s' with scheduling := s.scheduling} xs :=
    nodes.elsewhere outside idle written.root written.same rfl clock
  refine ⟨kept.entries,kept.clock,kept.due,?_,?_,?_,?_⟩
  · rw [scheduling]
    exact List.nodup_cons.mpr ⟨idle,nodes.once⟩
  all_goals
    rw [scheduling]
    intro a ha
    rcases List.mem_cons.mp ha with rfl | ha
  · exact outside
  · exact kept.outside a ha
  · exact written.leaf
  · exact kept.leaf a ha
  · rw [written.key]
    exact positive
  · exact kept.deadline a ha

theorem Good.schedule {s : State} {xs : List Addr} (good : Good s xs) (self : Addr) (timeout : Int)
    (procedure context : Nat) (positive : 0 < timeout) (outside : self ∉ xs) (idle : self ∉ s.scheduling) :
    Good (s.schedule self timeout procedure context) xs := by
  have written : Written s.queue self (s.clock + timeout)
      (s.schedule self timeout procedure context).queue := scheduleWrites_spec _ _ _ _ _ _
  have apart : ∀ a ∈ xs, a ≠ self := by
    rintro a member rfl
    exact outside member
  refine ⟨?_,?_,⟨?_,good.balance.calls⟩,?_⟩
  · have clock := good.nodes.clock
    exact good.nodes.written outside idle written (by omega) rfl rfl
  · apply good.identified.same
    · exact written.id
    · exact written.seq
    · intro a busy
      have quiet := not_or.mp (mt List.mem_cons.mpr busy)
      exact ⟨quiet.2,written.rest a quiet.1⟩
    · intro timer
      rfl
    · intro timer procedure context member
      exact member
  · intro timer
    rw [present_congr (fun member => (written.same _ (apart _ member)).2.2.2)]
    exact good.balance.fate timer
  · exact ⟨good.punctual.picked,good.punctual.ticks,good.punctual.next,good.punctual.running⟩

section
variable {s : State} {xs low high : List Addr} {self : Addr} {queue : Queue} {wakeup : Bool}

theorem key_scheduled_self (result : Scheduled s.queue xs self queue wakeup low high) :
    (s.scheduled self queue wakeup).queue.key self = ⟨s.queue.seq,(s.queue.key self).timestamp⟩ := by
  change queue.key self = _
  rw [result.key,Function.update_self]

theorem key_scheduled (result : Scheduled s.queue xs self queue wakeup low high) (a : Addr)
    (other : a ≠ self) : (s.scheduled self queue wakeup).queue.key a = s.queue.key a := by
  change queue.key a = _
  rw [result.key]
  exact Function.update_of_ne other _ _

theorem count_scheduled (timer : Timer) : (s.scheduled self queue wakeup).count (schedules timer) =
    s.count (schedules timer) + if (s.scheduled self queue wakeup).queue.timer self = timer then 1 else 0 := by
  simp only [count_eq,State.scheduled,List.countP_cons,schedules,decide_eq_true_eq]
  rfl

end

theorem Nodes.scheduled {s : State} {xs low high : List Addr} {self : Addr} {queue : Queue} {wakeup : Bool}
    (nodes : Nodes s xs) (begun : self ∈ s.scheduling)
    (result : Scheduled s.queue xs self queue wakeup low high) :
    Nodes (s.scheduled self queue wakeup) (low ++ self :: high) := by
  have others : ∀ a ∈ s.scheduling.erase self, a ≠ self ∧ a ∈ s.scheduling :=
    fun a ha => (nodes.once.mem_erase_iff).mp ha
  have links : ∀ a ∈ s.scheduling.erase self, a ∉ self :: xs := by
    intro a ha inside
    rcases List.mem_cons.mp inside with same | inside
    · exact (others a ha).1 same
    · exact nodes.outside a (others a ha).2 inside
  refine ⟨result.entries,nodes.clock,?_,nodes.once.erase self,?_,?_,?_⟩
  · intro a ha
    by_cases same : a = self
    · rw [same,key_scheduled_self result]
      exact nodes.deadline self begun
    · rw [key_scheduled result a same]
      exact nodes.due a ((result.mem.mp ha).resolve_left same)
  · intro a ha inside
    exact links a ha (List.mem_cons.mpr (result.mem.mp inside))
  · intro a ha
    obtain ⟨left,right⟩ := result.same a (links a ha)
    obtain ⟨noLeft,noRight⟩ := nodes.leaf a (others a ha).2
    exact ⟨left.trans noLeft,right.trans noRight⟩
  · intro a ha
    rw [key_scheduled result a (others a ha).1]
    exact nodes.deadline a (others a ha).2

theorem Identified.scheduled {s : State} {xs low high : List Addr} {self : Addr} {queue : Queue}
    {wakeup : Bool} (identified : Identified s)
    (result : Scheduled s.queue xs self queue wakeup low high) :
    Identified (s.scheduled self queue wakeup) := by
  have own := key_scheduled_self result
  have unseen : s.count (schedules ((s.scheduled self queue wakeup).queue.timer self)) = 0 := by
    by_contra seen
    have earlier := identified.used _ (Nat.pos_of_ne_zero seen)
    rw [Queue.timer,own] at earlier
    exact lt_irrefl _ earlier
  have split : ∀ timer, 0 < (s.scheduled self queue wakeup).count (schedules timer) →
      (s.scheduled self queue wakeup).queue.timer self = timer ∨ 0 < s.count (schedules timer) := by
    intro timer positive
    rw [count_scheduled] at positive
    by_cases here : (s.scheduled self queue wakeup).queue.timer self = timer
    · exact Or.inl here
    · rw [if_neg here] at positive
      exact Or.inr positive
  -- an earlier scheduling does not have the new identifier
  have apart : ∀ timer, 0 < s.count (schedules timer) →
      timer.handle.id ≠ ((s.scheduled self queue wakeup).queue.key self).id := by
    intro timer earlier same
    have less := identified.used timer earlier
    rw [same,own] at less
    exact lt_irrefl _ less
  refine ⟨?_,?_,?_,?_,?_⟩
  · intro timer positive
    have next : (s.scheduled self queue wakeup).queue.seq = s.queue.seq + 1 := result.seq
    rw [next]
    rcases split timer positive with rfl | earlier
    · rw [Queue.timer,own]
      exact Int.lt_succ _
    · exact lt_trans (identified.used timer earlier) (Int.lt_succ _)
  · intro timer
    rw [count_scheduled]
    by_cases here : (s.scheduled self queue wakeup).queue.timer self = timer
    · rw [if_pos here,← here,unseen]
    · rw [if_neg here]
      exact identified.single timer
  · intro timer other positive positive' same
    rcases split timer positive with rfl | earlier
    · rcases split other positive' with rfl | earlier'
      · rfl
      · exact absurd same.symm (apart other earlier')
    · rcases split other positive' with rfl | earlier'
      · exact absurd same (apart timer earlier)
      · exact identified.unique timer other earlier earlier' same
  · intro timer positive
    by_cases same : timer.node = self
    · refine ⟨(s.scheduled self queue wakeup).queue.timer self,?_,same.symm,?_⟩
      · rw [count_scheduled,if_pos rfl]
        exact Nat.succ_pos _
      · rw [same]
        rfl
    · rcases split timer positive with rfl | earlier
      · exact absurd rfl same
      · obtain ⟨last,known,node,id⟩ := identified.current timer earlier
        refine ⟨last,?_,node,?_⟩
        · rw [count_scheduled]
          exact Nat.lt_of_lt_of_le known (Nat.le_add_right _ _)
        · rw [key_scheduled result _ same]
          exact id
  · intro timer procedure context member quiet id
    rcases List.mem_cons.mp member with here | earlier
    · cases here
      exact ⟨rfl,rfl⟩
    · by_cases same : timer.node = self
      · rw [same] at id
        exact absurd id.symm (apart timer ((scheduled_iff s timer).mpr ⟨procedure,context,earlier⟩))
      · have procedures : (s.scheduled self queue wakeup).queue.procedure = s.queue.procedure := result.procedure
        have contexts : (s.scheduled self queue wakeup).queue.context = s.queue.context := result.context
        rw [procedures,contexts]
        rw [key_scheduled result _ same] at id
        apply identified.programmed timer procedure context earlier _ id
        intro busy
        exact quiet ((List.mem_erase_of_ne same).mpr busy)

theorem Punctual.same {s s' : State} (punctual : Punctual s) (clock : s'.clock = s.clock)
    (phase : s'.phase = s.phase ∨ s'.phase = s.phase.wakeup)
    (log : ∀ timer now, Event.picked timer now ∈ s'.log → Event.picked timer now ∈ s.log) :
    Punctual s' := by
  obtain ⟨early,ticks,next,running⟩ := punctual
  have back : ∀ p, (∀ t0 timeout woken, p ≠ .asleep t0 timeout woken) → s'.phase = p → s.phase = p := by
    intro p awake here
    rcases phase with same | same
    · rw [← same,here]
    · rw [here] at same
      cases before : s.phase with
      | asleep t0 timeout woken =>
        rw [before] at same
        exact absurd same (awake _ _ _)
      | _ => rw [before] at same; exact same.symm
  refine ⟨fun timer now member => early timer now (log timer now member),?_,?_,?_⟩
  · intro todo t here
    rw [clock]
    exact ticks todo t (back _ (by simp) here)
  · intro todo t timer here
    rw [clock]
    exact next todo t timer (back _ (by simp) here)
  · intro todo t here
    rw [clock]
    exact running todo t (back _ (by simp) here)

theorem Good.scheduled {s : State} {xs low high : List Addr} {self : Addr} {queue : Queue} {wakeup : Bool}
    (good : Good s xs) (begun : self ∈ s.scheduling)
    (result : Scheduled s.queue xs self queue wakeup low high) :
    Good (s.scheduled self queue wakeup) (low ++ self :: high) := by
  have out : self ∉ xs := good.nodes.outside self begun
  have phase : (s.scheduled self queue wakeup).phase = s.phase ∨
      (s.scheduled self queue wakeup).phase = s.phase.wakeup := by
    cases wakeup
    · exact Or.inl rfl
    · exact Or.inr rfl
  refine ⟨good.nodes.scheduled begun result,good.identified.scheduled result,⟨?_,?_⟩,?_⟩
  · intro timer
    have moved : present (s.scheduled self queue wakeup) (low ++ self :: high) timer =
        present s xs timer + if queue.timer self = timer then 1 else 0 := by
      rw [result.old] at out ⊢
      apply present_insert out
      intro a other
      change queue.key a = s.queue.key a
      rw [result.key]
      exact Function.update_of_ne other _ _
    rw [moved]
    have fate := good.balance.fate timer
    simp only [count_eq,State.scheduled,List.countP_cons,schedules,picks,cancels,decide_eq_true_eq,
      Bool.false_eq_true,if_false,Nat.add_zero] at fate ⊢
    omega
  · intro timer
    have calls : (s.scheduled self queue wakeup).phase.calls timer = s.phase.calls timer := by
      rcases phase with same | same
      · rw [same]
      · rw [same,Phase.wakeup_calls]
    rw [calls]
    simp only [count_eq,State.scheduled,List.countP_cons,picks,invokes,Bool.false_eq_true,if_false,
      Nat.add_zero]
    exact good.balance.calls timer
  · refine good.punctual.same rfl phase ?_
    intro timer now member
    exact (List.mem_cons.mp member).resolve_left (by simp)

/-! ## Leaving the tree -/

/-- One entry leaves the tree, or none does, with one event recorded. -/
theorem Nodes.shrink {s s' : State} {xs ys : List Addr} (nodes : Nodes s xs) (sub : ys ⊆ xs)
    (entries : Entries s'.queue ys) (same : SameBut xs s.queue s'.queue)
    (scheduling : s'.scheduling = s.scheduling) (clock : s'.clock = s.clock) : Nodes s' ys where
  entries := entries
  clock := by rw [clock]; exact nodes.clock
  due a ha := by rw [same.key]; exact nodes.due a (sub ha)
  once := by rw [scheduling]; exact nodes.once
  outside a ha := by
    rw [scheduling] at ha
    intro inside
    exact nodes.outside a ha (sub inside)
  leaf a ha := by
    rw [scheduling] at ha
    have out := nodes.outside a ha
    rw [same.left a out,same.right a out]
    exact nodes.leaf a ha
  deadline a ha := by
    rw [scheduling] at ha
    rw [same.key]
    exact nodes.deadline a ha

theorem Identified.shrink {s s' : State} {xs : List Addr} {event : Event} (identified : Identified s)
    (same : SameBut xs s.queue s'.queue) (seq : s'.queue.seq = s.queue.seq)
    (scheduling : s'.scheduling = s.scheduling) (log : s'.log = event :: s.log)
    (other : ∀ timer, schedules timer event = false) : Identified s' := by
  apply identified.same
  · intro a
    rw [same.key]
  · exact seq
  · intro a idle
    rw [scheduling] at idle
    rw [same.procedure,same.context]
    exact ⟨idle,rfl,rfl⟩
  · intro timer
    rw [count_eq,log,List.countP_cons,other]
    rfl
  · intro timer procedure context member
    rw [log] at member
    rcases List.mem_cons.mp member with rfl | earlier
    · have absurd := other timer
      simp [schedules] at absurd
    · exact earlier

/-- An entry is there under its own last scheduling. -/
theorem Good.listed {s : State} {xs : List Addr} (good : Good s xs) {a : Addr} (member : a ∈ xs) :
    0 < s.count (schedules (s.queue.timer a)) := by
  rw [good.balance.fate,present_of_mem member]
  omega

theorem Good.unused {s : State} {xs : List Addr} (good : Good s xs) :
    ∀ a ∈ xs, (s.queue.key a).id ≠ s.queue.seq := by
  intro a member same
  have less := good.identified.used _ (good.listed member)
  rw [Queue.timer,same] at less
  exact lt_irrefl _ less

theorem Good.scheduledRun {s : State} {xs : List Addr} {self : Addr} {queue : Queue} {wakeup : Bool}
    (good : Good s xs) (begun : self ∈ s.scheduling)
    (run : Yields (fun fuel => scheduleLocked fuel s.queue self) (queue,wakeup)) :
    ∃ low high, Scheduled s.queue xs self queue wakeup low high ∧
      Good (s.scheduled self queue wakeup) (low ++ self :: high) := by
  obtain ⟨after,woken,low,high,returns,result⟩ := scheduleLocked_spec good.nodes.entries self
    (good.nodes.outside self begun) (good.nodes.leaf self begun) good.unused
  cases returns.2 _ run
  exact ⟨low,high,result,good.scheduled begun result⟩

/-- The node that carries the key of a known node is that node. -/
theorem Good.owner {s : State} {xs : List Addr} (good : Good s xs) {self a : Addr} (known : s.known self)
    (member : a ∈ xs) (carried : s.queue.key a = s.queue.key self) : a = self := by
  rcases known with ⟨timer,rfl,scheduled⟩ | zero
  · obtain ⟨last,earlier,node,id⟩ := good.identified.current timer scheduled
    have same := good.identified.unique last (s.queue.timer a) earlier (good.listed member) (by
      rw [id,← carried]
      rfl)
    rw [← node,same]
    rfl
  · have due := good.nodes.due a member
    rw [carried,zero] at due
    exact absurd due (by decide)

theorem Good.cancelled {s : State} {xs : List Addr} {self : Addr} {queue : Queue} {removed : Bool}
    (good : Good s xs) (known : s.known self) (result : Cancelled s.queue xs self queue removed) :
    ∃ ys, Good (s.cancelled self queue removed) ys ∧
      (removed = true → ∃ low high, xs = low ++ self :: high ∧ ys = low ++ high) := by
  have punctual : Punctual (s.cancelled self queue removed) := by
    refine good.punctual.same rfl (Or.inl rfl) ?_
    intro timer now member
    exact (List.mem_cons.mp member).resolve_left (by simp)
  have identified : Identified (s.cancelled self queue removed) :=
    good.identified.shrink result.same result.seq rfl rfl (fun _ => rfl)
  have calls : ∀ timer, (s.cancelled self queue removed).count (picks timer) =
      (s.cancelled self queue removed).count (invokes timer) + s.phase.calls timer := good.balance.calls
  cases removed with
  | false =>
    obtain ⟨-,rfl⟩ := result.missing rfl
    refine ⟨xs,⟨good.nodes.same rfl rfl (le_refl _),identified,⟨?_,calls⟩,punctual⟩,by simp⟩
    intro timer
    have fate := good.balance.fate timer
    simp only [count_eq,State.cancelled,List.countP_cons,schedules,picks,cancels,Bool.and_false,
      Bool.false_eq_true,if_false,Nat.add_zero] at fate ⊢
    exact fate
  | true =>
    obtain ⟨a,low,high,carried,rfl,entries⟩ := result.found rfl
    have own : a = self := good.owner known (by simp) carried
    subst own
    refine ⟨low ++ high,⟨?_,identified,⟨?_,calls⟩,punctual⟩,fun _ => ⟨low,high,rfl,rfl⟩⟩
    · exact good.nodes.shrink (by simp) entries result.same rfl rfl
    · intro timer
      have fate := good.balance.fate timer
      have moved : present s (low ++ a :: high) timer = present (s.cancelled a queue true) (low ++ high) timer +
          if s.queue.timer a = timer then 1 else 0 :=
        present_remove good.nodes.entries.distinct result.same.key
      rw [moved] at fate
      simp only [count_eq,State.cancelled,List.countP_cons,schedules,picks,cancels,Bool.and_true,
        decide_eq_true_eq,Bool.false_eq_true,if_false,Nat.add_zero] at fate ⊢
      omega

theorem Good.picked {s : State} {xs : List Addr} {todo : List Polling} {ticks : Int} {queue : Queue}
    {node : Addr} (good : Good s xs) (here : s.phase = .picking todo ticks)
    (result : Picked s.queue xs ticks queue (some node)) :
    ∃ ys, xs = node :: ys ∧ Good (s.picked todo ticks queue node) ys := by
  obtain ⟨due,ys,rfl,entries⟩ := result.found node rfl
  have tick := good.punctual.ticks _ _ here
  refine ⟨ys,rfl,?_,?_,⟨?_,?_⟩,⟨?_,?_,?_,?_⟩⟩
  · exact good.nodes.shrink (by simp) entries result.same rfl rfl
  · exact good.identified.shrink result.same result.seq rfl rfl (fun _ => rfl)
  · intro timer
    have fate := good.balance.fate timer
    have moved : present s ([] ++ node :: ys) timer =
        present (s.picked todo ticks queue node) ([] ++ ys) timer +
          if s.queue.timer node = timer then 1 else 0 :=
      present_remove good.nodes.entries.distinct result.same.key
    rw [List.nil_append,List.nil_append] at moved
    rw [moved] at fate
    simp only [count_eq,State.picked,List.countP_cons,schedules,picks,cancels,decide_eq_true_eq,
      Bool.false_eq_true,if_false,Nat.add_zero] at fate ⊢
    omega
  · intro timer
    have calls := good.balance.calls timer
    simp only [count_eq,State.picked,List.countP_cons,picks,invokes,decide_eq_true_eq,Bool.false_eq_true,
      if_false,Nat.add_zero,here,Phase.calls] at calls ⊢
    omega
  · intro timer now member
    rcases List.mem_cons.mp member with same | earlier
    · cases same
      exact le_trans due tick
    · exact good.punctual.picked timer now earlier
  · intro _ _ absurd
    cases absurd
  · rintro _ _ _ ⟨⟩
    exact tick
  · intro _ _ absurd
    cases absurd

theorem Good.invoked {s : State} {xs : List Addr} {todo : List Polling} {ticks : Int} {timer : Timer}
    (good : Good s xs) (here : s.phase = .picked todo ticks timer) : Good (s.invoked todo ticks timer) xs := by
  have tick := good.punctual.next _ _ _ here
  refine ⟨good.nodes.same rfl rfl (le_refl _),?_,⟨?_,?_⟩,⟨?_,?_,?_,?_⟩⟩
  · exact good.identified.shrink (.refl xs _) rfl rfl rfl (fun _ => rfl)
  · exact good.balance.fate
  · intro other
    have calls := good.balance.calls other
    simp only [count_eq,State.invoked,List.countP_cons,picks,invokes,decide_eq_true_eq,Bool.false_eq_true,
      if_false,Nat.add_zero,here,Phase.calls] at calls ⊢
    omega
  · intro other now member
    exact good.punctual.picked other now ((List.mem_cons.mp member).resolve_left (by simp))
  · intro _ _ absurd
    cases absurd
  · intro _ _ _ absurd
    cases absurd
  · rintro _ _ ⟨⟩
    exact tick

/-! ## Runs -/

theorem Good.turn {pollings : List Polling} {s s' : State} {xs : List Addr} (good : Good s xs)
    (turn : Turn pollings s s') : ∃ ys, Good s' ys := by
  -- phases without a tick of the timer procedure
  have idle : ∀ phase : Phase, (∀ timer, phase.calls timer = s.phase.calls timer) →
      (∀ todo ticks, phase = .picking todo ticks → ticks ≤ s.clock) →
      (∀ todo ticks timer, phase ≠ .picked todo ticks timer) →
      (∀ todo ticks, phase ≠ .running todo ticks) → ∃ ys, Good {s with phase := phase} ys := by
    intro phase calls picking picked running
    refine ⟨xs,good.quiet rfl rfl rfl (le_refl _) calls ⟨good.punctual.picked,picking,?_,?_⟩⟩
    · intro todo ticks timer here
      exact absurd here (picked todo ticks timer)
    · intro todo ticks here
      exact absurd here (running todo ticks)
  cases turn with
  | enter here => apply idle <;> simp [here,Phase.calls]
  | answerTimer todo minTimeout t0 timeout here run => apply idle <;> simp [here,Phase.calls]
  | answerOther index todo minTimeout t0 timeout here => apply idle <;> simp [here,Phase.calls]
  | sleep minTimeout t0 here positive => apply idle <;> simp [here,Phase.calls]
  | wake t0 timeout woken here => apply idle <;> simp [here,Phase.calls]
  | process minTimeout t0 here due => apply idle <;> simp [here,Phase.calls]
  | processOther index todo here => apply idle <;> simp [here,Phase.calls]
  | otherReturns todo here => apply idle <;> simp [here,Phase.calls]
  | processTimer todo here => apply idle <;> simp [here,Phase.calls]
  | processed here => apply idle <;> simp [here,Phase.calls]
  | pick todo ticks queue node here run =>
    obtain ⟨after,first,returns,result⟩ := pick_spec good.nodes.entries ticks
    cases returns.2 _ run
    obtain ⟨ys,-,kept⟩ := good.picked here result
    exact ⟨ys,kept⟩
  | pickNone todo ticks queue here run =>
    obtain ⟨after,first,returns,result⟩ := pick_spec good.nodes.entries ticks
    cases returns.2 _ run
    obtain ⟨-,rfl⟩ := result.missing rfl
    apply idle <;> simp [here,Phase.calls]
  | invoke todo ticks timer here => exact ⟨xs,good.invoked here⟩
  | returned todo ticks here =>
    apply idle
    · simp [here,Phase.calls]
    · rintro _ _ ⟨⟩
      exact good.punctual.running _ _ here
    · simp
    · simp

theorem Good.step {pollings : List Polling} {s s' : State} {xs : List Addr} (good : Good s xs)
    (step : Step pollings s s') : ∃ ys, Good s' ys := by
  cases step with
  | tick now later =>
    obtain ⟨picked,ticks,next,running⟩ := good.punctual
    refine ⟨xs,good.quiet rfl rfl rfl later (fun _ => rfl) ⟨picked,?_,?_,?_⟩⟩
    · intro todo t here
      exact le_trans (ticks todo t here) later
    · intro todo t timer here
      exact le_trans (next todo t timer here) later
    · intro todo t here
      exact le_trans (running todo t here) later
  | schedule self timeout procedure context positive outside idle =>
    rw [good.nodes.entries.linked] at outside
    exact ⟨xs,good.schedule self timeout procedure context positive outside idle⟩
  | scheduled self queue wakeup begun free run =>
    obtain ⟨low,high,-,kept⟩ := good.scheduledRun begun run
    exact ⟨_,kept⟩
  | cancel self queue result known free run =>
    obtain ⟨after,removed,returns,result⟩ := cancel_spec good.nodes.entries self
    cases returns.2 _ run
    obtain ⟨ys,kept,-⟩ := good.cancelled known result
    exact ⟨ys,kept⟩
  | poll _ turn => exact good.turn turn

theorem Initial.good {s : State} (initial : Initial s) : Good s [] := by
  obtain ⟨⟨q,queue⟩,clock,scheduling,phase,log⟩ := initial
  have none : ∀ p, s.count p = 0 := by
    intro p
    rw [count_eq,log]
    rfl
  refine ⟨⟨⟨.nil,?_,rfl⟩,clock,by simp,?_,?_,?_,?_⟩,⟨?_,?_,?_,?_,?_⟩,⟨?_,?_⟩,⟨?_,?_,?_,?_⟩⟩
  · rw [queue]
    exact init_holds q.tree
  all_goals simp [scheduling,log,none,phase,present,Phase.calls]

theorem Reachable.good {pollings : List Polling} {s : State} (reach : Reachable pollings s) :
    ∃ xs, Good s xs := by
  obtain ⟨start,initial,run⟩ := reach
  have keeps : ∀ s s', (∃ xs, Good s xs) → Step pollings s s' → ∃ xs, Good s' xs := by
    rintro s s' ⟨xs,good⟩ step
    exact good.step step
  exact run_invariant keeps run ⟨[],initial.good⟩

/-! ## What becomes of each scheduling -/

def InTree (s : State) (timer : Timer) : Prop :=
  s.queue.linked timer.node ∧ s.queue.key timer.node = timer.handle

def CalledBack (s : State) (timer : Timer) : Prop :=
  s.count (picks timer) = 1 ∧ s.count (invokes timer) + s.phase.calls timer = 1

def NotCalledBack (s : State) (timer : Timer) : Prop :=
  s.count (picks timer) = 0 ∧ s.count (invokes timer) + s.phase.calls timer = 0

def ConsumedOnce (s : State) (timer : Timer) : Prop :=
  (InTree s timer ∧ NotCalledBack s timer ∧ s.count (cancels timer) = 0) ∨
  (¬InTree s timer ∧ CalledBack s timer ∧ s.count (cancels timer) = 0) ∨
  (¬InTree s timer ∧ NotCalledBack s timer ∧ s.count (cancels timer) = 1)

/-- The result `true` says that the node alone left the tree, `false` that nothing changed. -/
def CancelExact (s s' : State) (self : Addr) (result : Bool) : Prop :=
  (result = true ∧ InTree s (s.queue.timer self) ∧
    (∀ a, s'.queue.linked a ↔ s.queue.linked a ∧ a ≠ self)) ∨
  (result = false ∧ ¬s.queue.linked self ∧ s'.queue = s.queue)

/-- The calls that may be made in `s`, and the next move of the poll thread, end. -/
structure Live (pollings : List Polling) (s : State) : Prop where
  schedule : ∀ self ∈ s.scheduling, s.phase.free → ∃ queue wakeup,
    Step pollings s (s.scheduled self queue wakeup)
  cancel : ∀ self, s.known self → s.phase.free → ∃ queue result,
    Step pollings s (s.cancelled self queue result)
  poll : ∃ s', Turn pollings s s'

theorem Good.consumed {s : State} {xs : List Addr} (good : Good s xs) (timer : Timer)
    (known : 0 < s.count (schedules timer)) : ConsumedOnce s timer := by
  have fate := good.balance.fate timer
  have calls := good.balance.calls timer
  have single := good.identified.single timer
  have tree : InTree s timer ↔ timer.node ∈ xs ∧ s.queue.key timer.node = timer.handle := by
    rw [InTree,good.nodes.entries.linked]
  simp only [ConsumedOnce,tree,CalledBack,NotCalledBack]
  by_cases here : timer.node ∈ xs ∧ s.queue.key timer.node = timer.handle
  · rw [present,if_pos here] at fate
    exact Or.inl ⟨here,⟨by omega,by omega⟩,by omega⟩
  · rw [present,if_neg here] at fate
    by_cases picked : s.count (picks timer) = 0
    · exact Or.inr (Or.inr ⟨here,⟨picked,by omega⟩,by omega⟩)
    · exact Or.inr (Or.inl ⟨here,⟨by omega,by omega⟩,by omega⟩)

theorem Good.cancelExact {s : State} {xs : List Addr} (good : Good s xs) {self : Addr} {queue : Queue}
    {result : Bool} (known : s.known self)
    (run : Yields (fun fuel => Timeout.cancel fuel s.queue self) (queue,result)) :
    CancelExact s (s.cancelled self queue result) self result := by
  obtain ⟨after,removed,returns,spec⟩ := cancel_spec good.nodes.entries self
  cases returns.2 _ run
  obtain ⟨ys,kept,left⟩ := good.cancelled known spec
  have distinct := good.nodes.entries.distinct
  cases result with
  | true =>
    obtain ⟨low,high,rfl,rfl⟩ := left rfl
    refine Or.inl ⟨rfl,⟨?_,rfl⟩,?_⟩
    · rw [good.nodes.entries.linked]
      exact List.mem_append_right _ List.mem_cons_self
    · intro a
      rw [good.nodes.entries.linked,kept.nodes.entries.linked]
      have apart := (List.nodup_cons.mp (List.perm_middle.nodup_iff.mp distinct)).1
      simp only [List.mem_append,List.mem_cons] at apart ⊢
      constructor
      · intro member
        refine ⟨by tauto,?_⟩
        rintro rfl
        exact apart member
      · rintro ⟨member,other⟩
        tauto
  | false =>
    obtain ⟨absent,same⟩ := spec.missing rfl
    refine Or.inr ⟨rfl,?_,same⟩
    rw [good.nodes.entries.linked]
    intro member
    exact absent self member rfl

theorem Good.live {pollings : List Polling} {s : State} {xs : List Addr} (good : Good s xs) :
    Live pollings s where
  schedule self begun free := by
    obtain ⟨queue,wakeup,low,high,returns,-⟩ := scheduleLocked_spec good.nodes.entries self
      (good.nodes.outside self begun) (good.nodes.leaf self begun) good.unused
    exact ⟨queue,wakeup,.scheduled s self queue wakeup begun free returns.1⟩
  cancel self known free := by
    obtain ⟨queue,result,returns,-⟩ := cancel_spec good.nodes.entries self
    exact ⟨queue,result,.cancel s self queue result known free returns.1⟩
  poll := by
    cases here : s.phase with
    | start => exact ⟨_,.enter s here⟩
    | waitTimeout todo minTimeout t0 =>
      match todo with
      | [] =>
        by_cases positive : minTimeout > 0
        · exact ⟨_,.sleep s _ _ here positive⟩
        · exact ⟨_,.process s _ _ here positive⟩
      | .timer :: todo =>
        exact ⟨_,.answerTimer s _ _ _ _ here (getWaitTimeout_spec good.nodes.entries s.clock).1⟩
      | .other index :: todo => exact ⟨_,.answerOther s _ _ _ _ 0 here⟩
    | asleep t0 timeout woken => exact ⟨_,.wake s _ _ _ here⟩
    | process todo =>
      match todo with
      | [] => exact ⟨_,.processed s here⟩
      | .timer :: todo => exact ⟨_,.processTimer s _ here⟩
      | .other index :: todo => exact ⟨_,.processOther s _ _ here⟩
    | elsewhere todo => exact ⟨_,.otherReturns s _ here⟩
    | picking todo ticks =>
      obtain ⟨queue,node,returns,-⟩ := pick_spec good.nodes.entries ticks
      cases node with
      | none => exact ⟨_,.pickNone s _ _ _ here returns.1⟩
      | some node => exact ⟨_,.pick s _ _ _ _ here returns.1⟩
    | picked todo ticks timer => exact ⟨_,.invoke s _ _ _ here⟩
    | running todo ticks => exact ⟨_,.returned s _ _ here⟩

/-- In every reachable state each scheduling is still in the tree, or was picked and is called back
once, or was cancelled once; cancels remove the node they name or nothing; and no pick came early. -/
structure TimersConsumed (pollings : List Polling) (s : State) : Prop where
  once : ∀ timer, 0 < s.count (schedules timer) → ConsumedOnce s timer
  cancel : ∀ self queue result, s.known self →
    Yields (fun fuel => Timeout.cancel fuel s.queue self) (queue,result) →
    CancelExact s (s.cancelled self queue result) self result
  punctual : ∀ timer now, Event.picked timer now ∈ s.log → timer.handle.timestamp ≤ now ∧
    0 < s.count (schedules timer)
  /-- The callback is the scheduled one, unless the node was handed to another schedule call. -/
  callback : ∀ todo ticks timer, s.phase = .picked todo ticks timer → timer.node ∉ s.scheduling →
    (s.queue.key timer.node).id = timer.handle.id →
    Event.scheduled timer (s.queue.procedure timer.node) (s.queue.context timer.node) ∈ s.log
  live : Live pollings s

theorem Good.scheduled_of_picks {s : State} {xs : List Addr} (good : Good s xs) {timer : Timer}
    (picked : 0 < s.count (picks timer)) : 0 < s.count (schedules timer) := by
  rw [good.balance.fate timer]
  omega

theorem reachable_timersConsumed (pollings : List Polling) (s : State) (reach : Reachable pollings s) :
    TimersConsumed pollings s := by
  obtain ⟨xs,good⟩ := reach.good
  refine ⟨good.consumed,?_,?_,?_,good.live⟩
  · intro self queue result known run
    exact good.cancelExact known run
  · intro timer now member
    refine ⟨good.punctual.picked timer now member,good.scheduled_of_picks ?_⟩
    rw [count_eq,List.countP_pos_iff]
    exact ⟨_,member,decide_eq_true rfl⟩
  · intro todo ticks timer here quiet id
    have known : 0 < s.count (schedules timer) := by
      apply good.scheduled_of_picks
      rw [good.balance.calls,here,Phase.calls,if_pos rfl]
      exact Nat.succ_pos _
    obtain ⟨procedure,context,member⟩ := (scheduled_iff s timer).mp known
    obtain ⟨rfl,rfl⟩ := good.identified.programmed timer procedure context member quiet id
    exact member


/-! One timer in an empty tree. -/

def emptyQueue : Queue :=
  ⟨⟨⟨fun _ => none,fun _ => none,fun _ => 0,fun _ => ⟨0,0⟩⟩,none⟩,0,fun _ => 0,fun _ => 0⟩

def idle : State := ⟨emptyQueue,100,[],.start,[]⟩

def firstQueue : Queue := ((scheduleLocked 2 (idle.schedule 7 50 1 2).queue 7).get rfl).1

def armed : State := (idle.schedule 7 50 1 2).scheduled 7 firstQueue true

theorem armed_reachable (pollings : List Polling) : Reachable pollings armed := by
  refine ⟨idle,⟨⟨emptyQueue,rfl⟩,by decide,rfl,rfl,rfl⟩,?_⟩
  have begun : Step pollings idle (idle.schedule 7 50 1 2) := by
    refine .schedule idle 7 50 1 2 (by decide) ?_ (by decide)
    intro linked
    cases linked
  exact .tail (.single begun) (.scheduled _ 7 firstQueue true (by decide) rfl ⟨2,rfl⟩)

/-! Node 9, scheduled for 80 ms, is cancelled; node 7, due at tick 150, is taken when the poll thread comes
at tick 160. -/

def bothQueue : Queue := ((scheduleLocked 3 (armed.schedule 9 80 3 4).queue 9).get rfl).1

def both : State := (armed.schedule 9 80 3 4).scheduled 9 bothQueue false

def sparedQueue : Queue := ((cancel 3 both.queue 9).get rfl).1

def spared : State := both.cancelled 9 sparedQueue true

def due : State := {spared with clock := 160, phase := .picking [] 160}

def takenQueue : Queue := ((pick 2 due.queue 160).get rfl).1

def expired : State := due.picked [] 160 takenQueue 7

theorem expired_reachable : Reachable [.timer] expired := by
  obtain ⟨start,initial,run⟩ := armed_reachable [.timer]
  refine ⟨start,initial,?_⟩
  have outside : ¬armed.queue.linked 9 := by
    intro linked
    change Linked armed.queue.tree.nodes (some 7) 9 at linked
    cases linked with
    | left _ _ below =>
      change Linked armed.queue.tree.nodes none 9 at below
      cases below
    | right _ _ below =>
      change Linked armed.queue.tree.nodes none 9 at below
      cases below
  have begun := run.tail (.schedule armed 9 80 3 4 (by decide) outside (by decide))
  have inserted := begun.tail (.scheduled _ 9 bothQueue false (by decide) rfl ⟨3,rfl⟩)
  have known : both.known 9 := Or.inl ⟨⟨9,⟨1,180⟩⟩,rfl,Nat.one_pos⟩
  have taken := inserted.tail (.cancel both 9 sparedQueue true known rfl ⟨3,rfl⟩)
  have late : Relation.ReflTransGen (Step [.timer]) start {spared with clock := 160} :=
    taken.tail (.tick _ 160 (by decide))
  have asked := (late.tail (.poll _ _ (.enter _ rfl))).tail
    (.poll _ _ (.answerTimer _ [] (300 * 1000) 160 (-10) rfl ⟨1,rfl⟩))
  have processing := (asked.tail (.poll _ _ (.process _ (-10) 160 rfl (by decide)))).tail
    (.poll _ _ (.processTimer _ [] rfl))
  exact processing.tail (.poll _ _ (.pick due [] 160 takenQueue 7 rfl ⟨2,rfl⟩))

theorem reachable_timersConsumed_expired : expired.count (picks ⟨7,⟨0,150⟩⟩) = 1 ∧
    expired.count (cancels ⟨9,⟨1,180⟩⟩) = 1 ∧ TimersConsumed [.timer] expired :=
  ⟨rfl,rfl,reachable_timersConsumed [.timer] expired expired_reachable⟩

end Xrossfire.Timeout
