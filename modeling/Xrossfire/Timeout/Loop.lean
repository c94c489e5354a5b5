import Xrossfire.Timeout.Queue

/-! Runs of the timer calls of any number of threads beside the loop of `poll.c`.
Each locked section is one step, taken while the poll thread does not hold the
lock; the clock may advance before every step. The log records what happened to
each scheduling of a node. -/
namespace Xrossfire.Timeout
open Avltree Library

/-- An entry of `pollings`: the timer procedure, or another one. -/
inductive Polling
  | timer
  | other (index : Nat)
deriving DecidableEq

/-- One scheduling of a node, under the key it was given. -/
structure Timer where
  node : Addr
  handle : Handle
deriving DecidableEq

def Queue.timer (q : Queue) (a : Addr) : Timer := ⟨a,q.key a⟩

/-- Where the poll thread is in `xf_poll_loop`; `t0` is the tick of the timer procedure's last answer. -/
inductive Phase
  | start
  | waitTimeout (todo : List Polling) (minTimeout t0 : Int)
  | asleep (t0 timeout : Int) (woken : Bool)
  | process (todo : List Polling)
  /-- Inside the `XF_POLLING_PROCESS` of another procedure, which may release the lock. -/
  | elsewhere (todo : List Polling)
  | picking (todo : List Polling) (ticks : Int)
  /-- After `xf_poll_leave`, before `node->procedure` is called. -/
  | picked (todo : List Polling) (ticks : Int) (timer : Timer)
  | running (todo : List Polling) (ticks : Int)

namespace Phase

def free : Phase → Bool
  | start | asleep .. | elsewhere _ | picked .. | running .. => true
  | waitTimeout .. | process _ | picking .. => false

def wakeup : Phase → Phase
  | asleep t0 timeout _ => asleep t0 timeout true
  | phase => phase

def calls (timer : Timer) : Phase → Nat
  | picked _ _ next => if next = timer then 1 else 0
  | _ => 0

@[simp] theorem wakeup_calls (timer : Timer) (phase : Phase) :
    phase.wakeup.calls timer = phase.calls timer := by cases phase <;> rfl

end Phase

inductive Event
  | scheduled (timer : Timer) (procedure context : Nat)
  /-- `xf_timeout_cancel` on the node, its key at the call and the result. -/
  | cancelled (timer : Timer) (result : Bool)
  | picked (timer : Timer) (now : Int)
  | invoked (timer : Timer) (procedure context : Nat)

namespace Event

def schedules (timer : Timer) : Event → Bool
  | scheduled other _ _ => decide (other = timer)
  | _ => false

def cancels (timer : Timer) : Event → Bool
  | cancelled other result => decide (other = timer) && result
  | _ => false

def picks (timer : Timer) : Event → Bool
  | picked other _ => decide (other = timer)
  | _ => false

def invokes (timer : Timer) : Event → Bool
  | invoked other _ _ => decide (other = timer)
  | _ => false

end Event

structure State where
  queue : Queue
  clock : Int
  /-- Nodes whose `xf_timeout_schedule` has written to them and not yet taken the lock. -/
  scheduling : List Addr
  phase : Phase
  log : List Event

namespace State

def count (s : State) (p : Event → Bool) : Nat := s.log.countP p

def known (s : State) (a : Addr) : Prop :=
  (∃ timer, timer.node = a ∧ 0 < s.count (Event.schedules timer)) ∨ s.queue.key a = ⟨0,0⟩

/-- `xf_timeout_schedule` has written to the node. -/
def schedule (s : State) (self : Addr) (timeout : Int) (procedure context : Nat) : State :=
  {s with
    queue := scheduleWrites s.queue self s.clock timeout procedure context
    scheduling := self :: s.scheduling}

/-- The locked section of `xf_timeout_schedule` has left `queue`. -/
def scheduled (s : State) (self : Addr) (queue : Queue) (wakeup : Bool) : State :=
  {s with
    queue := queue
    scheduling := s.scheduling.erase self
    phase := if wakeup then s.phase.wakeup else s.phase
    log := .scheduled (queue.timer self) (queue.procedure self) (queue.context self) :: s.log}

/-- The locked section of `xf_timeout_cancel` has left `queue`. -/
def cancelled (s : State) (node : Addr) (queue : Queue) (result : Bool) : State :=
  {s with queue := queue, log := .cancelled (s.queue.timer node) result :: s.log}

def picked (s : State) (todo : List Polling) (ticks : Int) (queue : Queue) (node : Addr) : State :=
  {s with
    queue := queue
    phase := .picked todo ticks (s.queue.timer node)
    log := .picked (s.queue.timer node) s.clock :: s.log}

def invoked (s : State) (todo : List Polling) (ticks : Int) (timer : Timer) : State :=
  {s with
    phase := .running todo ticks
    log := .invoked timer (s.queue.procedure timer.node) (s.queue.context timer.node) :: s.log}

end State

/-- `(int)timeout`. -/
def toInt (timeout : Int) : Int := timeout.bmod (2 ^ 32)

inductive Turn (pollings : List Polling) : State → State → Prop
  | enter (s : State) (here : s.phase = .start) :
      Turn pollings s {s with phase := .waitTimeout pollings (300 * 1000) s.clock}
  | answerTimer (s : State) (todo minTimeout t0 timeout)
      (here : s.phase = .waitTimeout (.timer :: todo) minTimeout t0)
      (run : Yields (fun fuel => getWaitTimeout fuel s.queue s.clock) timeout) :
      Turn pollings s {s with
        phase := .waitTimeout todo (if minTimeout > timeout then timeout else minTimeout) s.clock}
  | answerOther (s : State) (index todo minTimeout t0) (timeout : Int)
      (here : s.phase = .waitTimeout (.other index :: todo) minTimeout t0) :
      Turn pollings s {s with
        phase := .waitTimeout todo (if minTimeout > timeout then timeout else minTimeout) t0}
  | sleep (s : State) (minTimeout t0) (here : s.phase = .waitTimeout [] minTimeout t0)
      (positive : minTimeout > 0) :
      Turn pollings s {s with phase := .asleep t0 (toInt minTimeout) false}
  /-- A notification, the end of the wait or a spurious wake-up, with the lock taken again. -/
  | wake (s : State) (t0 timeout woken) (here : s.phase = .asleep t0 timeout woken) :
      Turn pollings s {s with phase := .waitTimeout pollings (300 * 1000) s.clock}
  | process (s : State) (minTimeout t0) (here : s.phase = .waitTimeout [] minTimeout t0)
      (due : ¬minTimeout > 0) : Turn pollings s {s with phase := .process pollings}
  | processOther (s : State) (index todo) (here : s.phase = .process (.other index :: todo)) :
      Turn pollings s {s with phase := .elsewhere todo}
  | otherReturns (s : State) (todo) (here : s.phase = .elsewhere todo) :
      Turn pollings s {s with phase := .process todo}
  | processTimer (s : State) (todo) (here : s.phase = .process (.timer :: todo)) :
      Turn pollings s {s with phase := .picking todo s.clock}
  | processed (s : State) (here : s.phase = .process []) :
      Turn pollings s {s with phase := .waitTimeout pollings (300 * 1000) s.clock}
  | pick (s : State) (todo ticks queue node) (here : s.phase = .picking todo ticks)
      (run : Yields (fun fuel => pick fuel s.queue ticks) (queue,some node)) :
      Turn pollings s (s.picked todo ticks queue node)
  | pickNone (s : State) (todo ticks queue) (here : s.phase = .picking todo ticks)
      (run : Yields (fun fuel => Timeout.pick fuel s.queue ticks) (queue,none)) :
      Turn pollings s {s with queue := queue, phase := .process todo}
  | invoke (s : State) (todo ticks timer) (here : s.phase = .picked todo ticks timer) :
      Turn pollings s (s.invoked todo ticks timer)
  | returned (s : State) (todo ticks) (here : s.phase = .running todo ticks) :
      Turn pollings s {s with phase := .picking todo ticks}

inductive Step (pollings : List Polling) : State → State → Prop
  | tick (s : State) (now : Int) (later : s.clock ≤ now) : Step pollings s {s with clock := now}
  /-- The node stays out of the tree until this very call inserts it. -/
  | schedule (s : State) (self : Addr) (timeout : Int) (procedure context : Nat)
      (positive : 0 < timeout) (outside : ¬s.queue.linked self) (idle : self ∉ s.scheduling) :
      Step pollings s (s.schedule self timeout procedure context)
  | scheduled (s : State) (self : Addr) (queue wakeup) (begun : self ∈ s.scheduling)
      (free : s.phase.free) (run : Yields (fun fuel => scheduleLocked fuel s.queue self) (queue,wakeup)) :
      Step pollings s (s.scheduled self queue wakeup)
  | cancel (s : State) (self : Addr) (queue result) (known : s.known self) (free : s.phase.free)
      (run : Yields (fun fuel => Timeout.cancel fuel s.queue self) (queue,result)) :
      Step pollings s (s.cancelled self queue result)
  | poll (s s' : State) (turn : Turn pollings s s') : Step pollings s s'

structure Initial (s : State) : Prop where
  queue : ∃ q, s.queue = init q
  clock : 0 ≤ s.clock
  scheduling : s.scheduling = []
  phase : s.phase = .start
  log : s.log = []

def Reachable (pollings : List Polling) (s : State) : Prop :=
  ∃ start, Initial start ∧ Relation.ReflTransGen (Step pollings) start s

end Xrossfire.Timeout
