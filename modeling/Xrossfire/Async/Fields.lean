import Xrossfire.Async.Expiry
import Xrossfire.Timeout.Consumed

/-! The asyncs and the timer tree together. Whether `xf_timeout_cancel` finds a timer is decided by
the key stored in the async, which may be what `malloc` left there; the machine's `armed` is set to the
tree's answer before each step that asks for it. Besides the state notes which of the fields have been
written, and which were read before. -/
namespace Xrossfire.Async.Fields
open Library Relation

inductive Field
  | parent
  | child
  | key
deriving DecidableEq

structure State where
  config : Config
  timers : Timeout.State
  written : Id → Field → Bool
  /-- The fields that were read before they were written. -/
  unset : List (Id × Field)

inductive Event
  /-- A step of the machine other than `xf_async_wait_new`; the functions of the tree get `fuel`. -/
  | run (event : Async.Event) (fuel : Nat)
  /-- `xf_timeout_schedule` up to its lock, in a constructor that has taken the timer's reference. -/
  | schedule (thread : Nat) (timeout : Int)
  /-- `xf_async_wait_new`, the tick it read and what `malloc` left in the fields. No one else has the
  async before it returns. -/
  | waitNew (thread : Nat) (ticks timeout : Int) (parent child : Option Id) (key : Timeout.Handle) (fuel : Nat)
  | tick (now : Int)
deriving DecidableEq

/-- `memset` of the timer in a new async. -/
def memset (q : Timeout.Queue) (a : Id) : Timeout.Queue :=
  let m := ((q.tree.nodes.setLeft a none).setRight a none).setHeight a 0
  {q with
    tree := {q.tree with nodes := Timeout.setKey m a ⟨0,0⟩}
    procedure := Function.update q.procedure a 0
    context := Function.update q.context a 0}

/-- The key `malloc` left in a new async. -/
def garble (q : Timeout.Queue) (a : Id) (key : Timeout.Handle) : Timeout.Queue :=
  {q with tree := {q.tree with nodes := Timeout.setKey q.tree.nodes a key}}

/-- `async_timeout` is the one timeout procedure; its context is the async. -/
def asyncTimeout : Nat := 1

def arm (c : Config) (a : Id) (armed : Bool) : Config :=
  ⟨c.world.set a {c.world.asyncs a with armed := armed},c.threads⟩

def turn (fuel : Nat) (c : Config) (t : Timeout.State) : Async.Event → Option (Config × Timeout.State)
  | .run thread outcome =>
    match c.top thread,outcome with
    | some (.notify a _),_ | some (.cancel a),_ | some (.destroy a),_ => do
      let (queue,removed) ← Timeout.cancel fuel t.queue a
      return (arm c a removed,t.cancelled a queue removed)
    | some (.newArm a),_ =>
      if a ∈ t.scheduling then do
        let (queue,wakeup) ← Timeout.scheduleLocked fuel t.queue a
        return (c,t.scheduled a queue wakeup)
      else none
    | some (.user ..),.acts (.new _ _ _ true) => some (c,{t with queue := memset t.queue c.world.next})
    -- `xf_async_call` returns like `xf_async_new` when `malloc` fails, and nothing is made
    | some (.user ..),.acts (.new .multiPhase _ _ false) => none
    | some (.user ..),.acts (.waitNew ..) => none
    | _,_ => some (c,t)
  | .arise a .expire => do
    let (queue,node) ← Timeout.pick fuel t.queue t.clock
    if node = some a then
      return (arm c a true,(t.picked [] t.clock queue a).invoked [] t.clock (t.queue.timer a))
    else none
  | _ => some (c,t)

def reads (c : Config) : Async.Event → List (Id × Field)
  | .run thread _ =>
    match c.top thread with
    | some (.notify a _) | some (.cancel a) => [(a,.key)]
    | some (.destroy a) => [(a,.key),(a,.parent)]
    | some (.cancelTarget a) => [(a,.child)]
    | some (.phaseReturned a err _) =>
      if err = 0 ∧ (c.world.asyncs a).nextPhase = phaseExit then [(a,.parent)] else []
    | some (.errorReturned a _) => [(a,.parent)]
    | _ => []
  | _ => []

/-- The fields a step writes; a constructor that calls `memset` writes them all. -/
def writes (c : Config) : Async.Event → List (Id × Field)
  | .run thread outcome =>
    match c.top thread,outcome with
    | some (.link a _),_ | some (.unlink a _),_ => [(a,.child)]
    | some (.user ..),.acts (.new _ _ _ true) =>
      [(c.world.next,.parent),(c.world.next,.child),(c.world.next,.key)]
    | _,_ => []
  | _ => []

def mark (written : Id → Field → Bool) (fields : List (Id × Field)) (a : Id) (field : Field) : Bool :=
  written a field || decide ((a,field) ∈ fields)

/-- `xf_async_wait_new` does not call `memset`. -/
def waitObject (timed : Bool) (parent child : Option Id) : Object :=
  {freshWait parent child with
    ref := if timed then 2 else 1
    trace.timed := timed
    trace.timers := if timed then 1 else 0}

/-- `xf_timeout_schedule` in `xf_async_wait_new`, which calls it with a timeout. -/
def waitSchedule (fuel : Nat) (t : Timeout.State) (a : Id) (ticks timeout : Int) : Option Timeout.State :=
  if 0 < timeout then do
    let begun := {t with
      queue := Timeout.scheduleWrites t.queue a ticks timeout asyncTimeout a
      scheduling := a :: t.scheduling}
    let (queue,wakeup) ← Timeout.scheduleLocked fuel begun.queue a
    return begun.scheduled a queue wakeup
  else some t

namespace State

def waitNew (s : State) (thread : Nat) (ticks timeout : Int) (parent child : Option Id)
    (key : Timeout.Handle) (fuel : Nat) : Option State :=
  match s.config.threads[thread]? with
  | some (.user role pc _ :: rest) =>
    if (∀ p ∈ parent, p < s.config.world.next) ∧ (∀ b ∈ child, b < s.config.world.next) ∧
        0 ≤ ticks ∧ ticks ≤ s.timers.clock then do
      let a := s.config.world.next
      let timers ← waitSchedule fuel {s.timers with queue := garble s.timers.queue a key} a ticks timeout
      return {s with
        config := ⟨s.config.world.make (waitObject (0 < timeout) parent child),
          s.config.threads.set thread (.user role (pc + 1) (some a) :: rest)⟩
        timers := timers
        written := Function.update s.written a
          (fun field => match field with | .key => decide (0 < timeout) | .parent | .child => false)}
    else none
  | _ => none

def step (s : State) : Event → Option State
  | .run event fuel => do
    let (c,timers) ← turn fuel s.config s.timers event
    let config ← c.step event
    return {
      config := config
      timers := timers
      written := mark s.written (writes s.config event)
      unset := (reads s.config event).filter (fun r => !s.written r.1 r.2) ++ s.unset}
  | .schedule thread timeout =>
    match s.config.top thread with
    | some (.newArm a) =>
      if 0 < timeout ∧ a ∉ s.timers.scheduling then
        some {s with
          timers := s.timers.schedule a timeout asyncTimeout a
          written := mark s.written [(a,.key)]}
      else none
    | _ => none
  | .waitNew thread ticks timeout parent child key fuel => s.waitNew thread ticks timeout parent child key fuel
  | .tick now => if s.timers.clock ≤ now then some {s with timers := {s.timers with clock := now}} else none

structure Initial (s : State) : Prop where
  config : s.config = Config.start
  timers : Timeout.Initial s.timers
  unset : s.unset = []

/-- Every field was written before it was read, and no async that was given no timer has taken a timer
out of the tree. -/
structure Initialized (s : State) : Prop where
  unset : s.unset = []
  timers : ∀ timer, .cancelled timer true ∈ s.timers.log →
    (s.config.world.asyncs timer.node).trace.timed = true

end State

/-- `xf_async_new` or `xf_async_call` has stored a child in `a`. -/
def Parented (c : Config) (a : Id) : Prop :=
  ∃ b < c.world.next, (c.world.asyncs b).kind ≠ .wait ∧ (c.world.asyncs b).parent = some a ∧
    .link a b ∉ c.threads.flatten

instance (c : Config) (a : Id) : Decidable (Parented c a) := by
  unfold Parented
  infer_instance

/-- An async of `xf_async_wait_new` is notified or cancelled only if it has a timer, asked for its child
only after one was stored, and never destroyed. -/
def Allowed (s : State) : Event → Prop
  | .run (.run thread _) _ => ∀ f ∈ s.config.top thread, match f with
    | .notify a _ | .cancel a =>
      (s.config.world.asyncs a).kind = .wait → (s.config.world.asyncs a).trace.timed = true
    | .cancelTarget a => (s.config.world.asyncs a).kind = .wait → Parented s.config a
    | .destroy a => (s.config.world.asyncs a).kind ≠ .wait
    | _ => True
  | _ => True

instance (s : State) (event : Event) : Decidable (Allowed s event) := by
  unfold Allowed
  match event with
  | .run (.run _ _) _ =>
    refine @Option.decidableForallMem _ _ (fun f => ?_) _
    match f with
    | .user .. | .notify .. | .notifyKind .. | .asyncNotify .. | .complete .. | .waitNotify ..
    | .runNextPhase .. | .phaseReturned .. | .errorReturned .. | .release .. | .destroy _ | .unlink ..
    | .link .. | .clear _ | .cancel _ | .cancelEnter _ | .cancelTarget _ | .timeout _ | .enter .. | .unlock _
    | .start .. | .leave .. | .newRef _ | .newArm _ | .wait _ | .operation .. | .acceptEx _ | .connectPhase1 ..
    | .connectAsync _ | .completed .. => infer_instance
  | .run .spawn _ | .run (.arise ..) _ | .schedule .. | .waitNew .. | .tick _ => infer_instance

end Xrossfire.Async.Fields
