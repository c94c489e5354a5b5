import Xrossfire.Async.Object

/-! The functions of `async.c`, `io_completion_port.c` and the TCP operations as
steps of threads that share the asyncs. One step is what a function does between
two points where other threads can interfere: a locked section, an atomic
counter, or an access to a field without the lock. -/
namespace Xrossfire.Async

inductive Call
  | notify (e : Error)
  | cancel
  | enter
  | addRef
  | release
  | operation (op : Operation)
  | wait
deriving DecidableEq

inductive Action
  | call (a : Id) (call : Call)
  /-- `xf_async_new` or `xf_async_call`, and whether `malloc` succeeds. -/
  | new (kind : Kind) (timed : Bool) (parent : Option Id) (malloc : Bool)
  /-- `xf_async_wait_new`, here with a timeout only; what `malloc` left in `parent` and `child_async`. -/
  | waitNew (parent child : Option Id)
  /-- `*next_phase = phase`. -/
  | store (phase : Int)
  | finish (err : Error)
deriving DecidableEq

inductive Outcome
  | ok
  | fails (e : Error)
  | acts (action : Action)
deriving DecidableEq

namespace Object

/-- `xf_async_notify` up to its switch; `xf_async_cancel` begins in the same way. -/
def disarm (x : Object) (a : Id) (next : Frame) : Object × List Frame :=
  if x.armed then ({x with armed := false},[.release a .timer,next]) else (x,[next])

/-- `xf_timeout_cancel` when the async is destroyed. -/
def clearTimer (x : Object) : Object :=
  {x with armed := false, trace.dropped := if x.armed then x.trace.dropped + 1 else x.trace.dropped}

def witness (x : Object) : Object := {x with trace.early := x.trace.early || decide (0 < x.outstanding)}

def invoke (x : Object) (terminal : Bool) : Object :=
  {x with
    trace.invocations := x.trace.invocations + 1
    trace.late := x.trace.late || decide (0 < x.trace.terminals)
    trace.terminals := if terminal then x.trace.terminals + 1 else x.trace.terminals}

def answer (x : Object) : Object :=
  {x with trace.answers := x.trace.answers + 1, trace.given := x.trace.given + 1}

/-- `xf_atomic_decrement`. -/
def decrement (x : Object) (share : Share) : Object :=
  {x with
    ref := x.ref - 1
    trace.timersDone := if share = .timer then x.trace.timersDone + 1 else x.trace.timersDone
    trace.givenDone := if share = .completion then x.trace.givenDone + 1 else x.trace.givenDone}

end Object

/-- A step of library code on the object `x` of the async it works on, taken by `thread`: the object
afterwards and what the thread has to do next. -/
def act (thread : Nat) (x : Object) : Frame → Outcome → Option (Object × List Frame)
  -- xf_async_notify
  | .notify a e,.ok => some (x.witness.disarm a (.notifyKind a e))
  | .notifyKind a e,.ok =>
    match x.kind with
    | .async => some (x,[.asyncNotify a e])
    | .wait => some (x,[.waitNotify a e])
    | .multiPhase => some (x,[.runNextPhase a e])
  -- _xf_async_async_notify
  | .asyncNotify a e,.ok =>
    if x.available thread then
      if x.called then some (x,[])
      else some ({x with called := true, trace.winner := some e, trace.given := x.trace.given + 1},
        [.complete a e])
    else none
  | .complete a e,.ok =>
    some ({x.witness with trace.callbacks := e :: x.trace.callbacks},[.user (.completed a e) 0 none])
  -- _xf_async_wait_notify and xf_async_wait
  | .waitNotify _ e,.ok =>
    if x.available thread then some ({x with status := true, error := e},[]) else none
  | .wait _,.ok => if x.available thread ∧ x.status then some (x,[]) else none
  -- xf_async_run_next_phase
  | .runNextPhase a e,.ok =>
    if e ≠ 0 then some (x.invoke true,[.user (.procedure a phaseError e false) 0 none])
    else some (x.invoke (x.nextPhase = phaseError),[.user (.procedure a x.nextPhase 0 false) 0 none])
  | .phaseReturned a err _,.ok =>
    if err ≠ 0 then some (x,[.runNextPhase a err])
    else if x.nextPhase = phaseExit then
      -- a NULL parent is dereferenced
      x.parent.map (fun p => ({x.answer with trace.terminals := x.trace.terminals + 1},
        [.notify p 0,.release a .completion]))
    else some (x,[])
  | .errorReturned a err,.ok =>
    x.parent.map (fun p => (x.answer,[.notify p err,.release a .completion]))
  -- xf_async_release
  | .release a share,.ok =>
    some (x.decrement share,if x.ref - 1 > 0 then [] else [.destroy a])
  | .destroy a,.ok =>
    if x.available thread then
      some ((x.lock thread).clearTimer,(match x.parent with | some p => [.unlink p a] | none => []) ++ [.clear a])
    else none
  | .unlink _ _,.ok => some ({x with child := none},[])
  | .clear _,.ok => some ({x.unlock with freed := true},[])
  -- xf_async_cancel, _cancel and async_timeout
  | .cancel a,.ok => some (x.disarm a (.cancelEnter a))
  | .cancelEnter a,.ok =>
    if x.available thread then some ({x.lock thread with canceled := true},[.cancelTarget a]) else none
  | .cancelTarget a,outcome =>
    match x.child,outcome with
    | some c,.ok => some (x,[.cancel c,.unlock a])
    | none,outcome =>
      if x.handle ≠ .invalid then
        match outcome with
        | .ok => some ({x with handle := .invalid},[.unlock a])
        | .fails _ => some (x,[.unlock a,.notify a errorCancel])
        | .acts _ => none
      else if outcome = .ok then some (x,[.unlock a,.notify a errorCancel])
      else none
    | _,_ => none
  | .timeout a,.ok => some (x,[.cancelEnter a,.release a .timer])
  | .unlock _,.ok => some (x.unlock,[])
  -- xf_async_enter and xf_async_leave
  | .enter a entry,.ok =>
    if x.available thread then
      if x.canceled then some (x.lock thread,[.notify a errorCancel,.unlock a])
      else
        some ({x.lock thread with ref := x.ref + 1},
          match entry with
          | .user => [.user (.entered a) 0 none]
          | .io io => [.start a io])
    else none
  | .leave a after,.ok =>
    some (x.unlock,.release a .enter ::
      match after with
      | .done => []
      | .notify e => [.notify a e]
      | .connectPhase1 e => [.connectPhase1 a e])
  -- the constructors
  | .link _ child,.ok => some ({x with child := some child},[])
  | .newRef a,.ok => some ({x with ref := x.ref + 1, trace.timers := x.trace.timers + 1},[.newArm a])
  | .newArm _,.ok => some ({x with armed := true},[])
  -- GetAddrInfoExW, and the calls that start an overlapped I/O
  | .start a .connectPhase1,.ok =>
    some ({x.prepare .connectPhase1 with handle := .lookup, lookups := x.lookups + 1},[.leave a .done])
  | .start a .connectPhase1,.fails e => some (x.prepare .connectPhase1,[.leave a (.connectPhase1 e)])
  | .start a io,.ok => some ({x.prepare io with pending := x.pending + 1},[.leave a .done])
  | .start a io,.fails e => if e ≠ 0 then some (x.prepare io,[.leave a (.notify e)]) else none
  -- the operations up to their xf_async_enter
  | .operation .connect a,.ok => some (x,[.enter a (.io .connectPhase1)])
  | .operation .receive a,.ok => some (x,[.enter a (.io .receive)])
  | .operation .send a,.ok =>
    some ({x with ioType := .send, handle := .socket},[.enter a (.io .send)])
  | .operation .close a,.ok => some (x,[.enter a (.io .disconnect)])
  | .operation .close a,.fails e => if e ≠ 0 then some (x,[.notify a e]) else none
  | .operation .accept a,.ok => some ({x with ioType := .accept, handle := .socket},[.acceptEx a])
  | .operation .accept a,.fails e => if e ≠ 0 then some (x,[.notify a e]) else none
  | .acceptEx _,.ok => some ({x with pending := x.pending + 1},[])
  | .acceptEx a,.fails e => if e ≠ 0 then some (x,[.notify a e]) else none
  -- connect_phase1
  | .connectPhase1 a e,.ok =>
    some ({x with handle := .invalid},if e ≠ 0 then [.notify a e] else [.connectAsync a])
  | .connectAsync a,.ok => some (x,[.enter a (.io .connectPhase2)])
  | .connectAsync a,.fails e => if e ≠ 0 then some (x,[.notify a e]) else none
  -- the completions
  | .completed a e,outcome =>
    match x.ioType,outcome with
    | .connectPhase1,.ok => some (x,[])
    | .connectPhase2,.ok =>
      some (if e ≠ 0 then x else {x with handle := .invalid},[.notify a e])
    | .connectPhase2,.fails err => if e = 0 ∧ err ≠ 0 then some (x,[.notify a err]) else none
    | .accept,.fails err => if e = 0 ∧ err ≠ 0 then some (x,[.notify a err]) else none
    | _,.ok => some (x,[.notify a e])
    | _,_ => none
  | _,_ => none

/-! ## Threads and shared asyncs -/

structure World where
  asyncs : Id → Object
  next : Id

namespace World

def set (w : World) (a : Id) (x : Object) : World := {w with asyncs := Function.update w.asyncs a x}

def make (w : World) (x : Object) : World := ⟨Function.update w.asyncs w.next x,w.next + 1⟩

end World

def fresh (kind : Kind) (timed : Bool) (parent child : Option Id) : Object where
  ref := 1
  kind := kind
  canceled := false
  parent := parent
  child := child
  called := false
  status := false
  error := 0
  nextPhase := 0
  handle := .invalid
  ioType := .connectPhase1
  owner := none
  depth := 0
  freed := false
  armed := false
  lookups := 0
  pending := 0
  queued := 0
  trace := ⟨0,timed,0,0,0,0,0,none,[],0,0,false,0,false⟩

/-- The initial reference of a wait async belongs to its creator. -/
def freshWait (parent child : Option Id) : Object :=
  {fresh .wait true parent child with trace.held := 1, trace.given := 1, trace.givenDone := 1}

/-- A call whose `malloc` failed. -/
def unmade (parent : Option Id) : Object :=
  {fresh .multiPhase false parent none with
    ref := 0, freed := true, trace.given := 1, trace.givenDone := 1}

def construct (a : Id) (kind : Kind) (timed : Bool) (parent : Option Id) : List Frame :=
  (match parent with | some p => [.link p a] | none => []) ++ (if timed then [.newRef a] else []) ++
    if kind = .multiPhase then [.runNextPhase a 0] else []

def finish (err : Error) : Role → List Frame
  | .main => []
  | .completed a _ => [.release a .completion]
  | .procedure a _ e handed => if e ≠ 0 then [.errorReturned a err] else [.phaseReturned a err handed]
  | .entered a => [.leave a .done]

def Role.after (a : Id) (call : Call) : Role → Role
  | .procedure b phase e handed =>
    match call with
    | .operation _ => .procedure b phase e (handed || a = b)
    | _ => .procedure b phase e handed
  | role => role

/-- A call on the object `x` of `a`; users release only references they took. -/
def request (a : Id) (x : Object) : Call → Option (Object × List Frame)
  | .notify e => some (x,[.notify a e])
  | .cancel => some (x,[.cancel a])
  | .enter => some (x,[.enter a .user])
  | .wait => some (x,[.wait a])
  | .operation op => some (x,[.operation op a])
  | .addRef => some ({x with ref := x.ref + 1, trace.held := x.trace.held + 1},[])
  | .release =>
    if 0 < x.trace.held then some ({x with trace.held := x.trace.held - 1},[.release a .user]) else none

def user (w : World) (role : Role) (pc : Nat) (last : Option Id) : Action → Option (World × List Frame)
  | .call a call =>
    if a < w.next then do
      let (x,frames) ← request a (w.asyncs a) call
      return (w.set a x,frames ++ [.user (role.after a call) (pc + 1) last])
    else none
  | .new kind timed parent malloc =>
    if kind ≠ .wait ∧ ∀ p ∈ parent, p < w.next then
      if malloc then
        some (w.make (fresh kind timed parent none),
          construct w.next kind timed parent ++ [.user role (pc + 1) (some w.next)])
      else if kind = .multiPhase then
        -- the identifier stands for the call that could not be set up
        some (w.make (unmade parent),[.user role (pc + 1) none])
      else some (w,[.user role (pc + 1) none])
    else none
  | .waitNew parent child =>
    if (∀ p ∈ parent, p < w.next) ∧ ∀ b ∈ child, b < w.next then
      some (w.make (freshWait parent child),construct w.next .wait true none ++ [.user role (pc + 1) (some w.next)])
    else none
  | .store phase =>
    match role with
    | .procedure a _ _ _ =>
      if a < w.next then some (w.set a {w.asyncs a with nextPhase := phase},[.user role (pc + 1) last]) else none
    | _ => none
  | .finish err => some (w,finish err role)

def exec (thread : Nat) (w : World) (f : Frame) (outcome : Outcome) : Option (World × List Frame) :=
  match f,outcome with
  | .user role pc last,.acts action => user w role pc last action
  | f,outcome => do
    let a ← f.subject
    if a < w.next then
      let (x,frames) ← act thread (w.asyncs a) f outcome
      return (w.set a x,frames)
    else none

structure Config where
  world : World
  threads : List (List Frame)

inductive Cause
  /-- The poll thread takes the timer out of the tree and calls `async_timeout`. -/
  | expire
  /-- An I/O is over and its packet is queued. -/
  | complete
  /-- A worker takes a packet. -/
  | dispatch (e : Error)
  /-- The system calls `connect_phase1`. -/
  | lookup (e : Error)
deriving DecidableEq

def arise (a : Id) (x : Object) : Cause → Option (Object × List Frame)
  | .expire => if x.armed then some ({x with armed := false},[.timeout a]) else none
  | .complete =>
    if 0 < x.pending then some ({x with pending := x.pending - 1, queued := x.queued + 1},[]) else none
  | .dispatch e => if 0 < x.queued then some ({x with queued := x.queued - 1},[.completed a e]) else none
  | .lookup e =>
    if 0 < x.lookups then some ({x with lookups := x.lookups - 1},[.connectPhase1 a e]) else none

inductive Event
  | run (thread : Nat) (outcome : Outcome)
  | spawn
  | arise (a : Id) (cause : Cause)
deriving DecidableEq

namespace Config

def top (c : Config) (thread : Nat) : Option Frame := c.threads[thread]?.bind List.head?

def step (c : Config) : Event → Option Config
  | .run thread outcome =>
    match c.threads[thread]? with
    | some (f :: rest) => do
      let (w,frames) ← exec thread c.world f outcome
      return ⟨w,c.threads.set thread (frames ++ rest)⟩
    | _ => none
  | .spawn => some ⟨c.world,c.threads ++ [[.user .main 0 none]]⟩
  | .arise a cause =>
    if a < c.world.next then do
      let (x,frames) ← Async.arise a (c.world.asyncs a) cause
      return ⟨c.world.set a x,c.threads ++ [frames]⟩
    else none

def start : Config := ⟨⟨fun _ => fresh .async false none none,0⟩,[]⟩

end Config

section Runs
variable (allowed : Config → Event → Prop)

def Step (c c' : Config) : Prop := ∃ event, allowed c event ∧ c.step event = some c'

def Reachable (c : Config) : Prop := Relation.ReflTransGen (Step allowed) Config.start c

def replay [∀ c event, Decidable (allowed c event)] (c : Config) : List Event → Option Config
  | [] => some c
  | event :: events => if allowed c event then (c.step event).bind (replay · events) else none

variable {allowed}

theorem replay_steps [∀ c event, Decidable (allowed c event)] {events : List Event} {c c' : Config}
    (run : replay allowed c events = some c') : Relation.ReflTransGen (Step allowed) c c' := by
  induction events generalizing c with
  | nil =>
    cases run
    exact .refl
  | cons event events ih =>
    simp only [replay,Option.ite_none_right_eq_some] at run
    obtain ⟨fine,run⟩ := run
    obtain ⟨next,step,rest⟩ := Option.bind_eq_some_iff.mp run
    exact .head ⟨event,fine,step⟩ (ih rest)

theorem Reachable.mono {allowed' : Config → Event → Prop} {c : Config} (run : Reachable allowed c)
    (weaker : ∀ c event, allowed c event → allowed' c event) : Reachable allowed' c := by
  refine Relation.ReflTransGen.mono ?_ Config.start c run
  rintro c c' ⟨event,fine,step⟩
  exact ⟨event,weaker c event fine,step⟩

/-- A run that ends in a configuration with the property. -/
theorem replay_reachable [∀ c event, Decidable (allowed c event)] (events : List Event) {p : Config → Bool}
    (run : (replay allowed Config.start events).any p = true) : ∃ c, Reachable allowed c ∧ p c = true := by
  obtain ⟨c,here,holds⟩ := (Option.any_eq_true ..).mp run
  exact ⟨c,replay_steps here,holds⟩

end Runs

end Xrossfire.Async
