import Mathlib

/-! The async object of `async.c` and the program points of the functions that
work on it. A thread is a stack of program points, innermost first; what a
function still has to do after a call lies below the call on the stack. -/
namespace Xrossfire.Async

abbrev Id := Nat
abbrev Error := Int

/-- `XF_ERROR_CANCEL`. -/
def errorCancel : Error := 2

/-- `XF_ASYNC_PHASE_ERROR` and `XF_ASYNC_PHASE_EXIT`. -/
def phaseError : Int := -1
def phaseExit : Int := -2

inductive Kind
  | async
  | wait
  | multiPhase
deriving DecidableEq

/-- What `io_async.handle` holds; `null` is what `memset` leaves. -/
inductive Handle
  | invalid
  | null
  | lookup
  | socket
deriving DecidableEq

/-- `io_type`. -/
inductive Io
  | connectPhase1
  | connectPhase2
  | disconnect
  | receive
  | send
  | accept
deriving DecidableEq

/-- What has happened to an async; no code reads it. -/
structure Trace where
  /-- `add_ref`s of users that are not yet released. -/
  held : Nat
  /-- Whether the constructor was given a timeout, and the timer references taken and dropped. -/
  timed : Bool
  timers : Nat
  timersDone : Nat
  /-- Destructions that found the timer still armed. -/
  dropped : Nat
  /-- Completion references handed to a release, and the releases done. -/
  given : Nat
  givenDone : Nat
  /-- The error of the notify that set `called`, and those `completed` was called with. -/
  winner : Option Error
  callbacks : List Error
  /-- Invocations of the procedure, the terminal ones among them, and whether one came after these. -/
  invocations : Nat
  terminals : Nat
  late : Bool
  /-- Notifies this call has sent to its parent. -/
  answers : Nat
  /-- Whether a notify or a completed callback ran while an I/O was outstanding. -/
  early : Bool
deriving DecidableEq

/-- `struct xf_async`, its timer's presence in the timer tree and the I/O the system has for it. -/
structure Object where
  ref : Int
  kind : Kind
  canceled : Bool
  parent : Option Id
  child : Option Id
  called : Bool
  status : Bool
  error : Error
  nextPhase : Int
  handle : Handle
  ioType : Io
  owner : Option Nat
  depth : Nat
  freed : Bool
  armed : Bool
  lookups : Nat
  pending : Nat
  queued : Nat
  trace : Trace
deriving DecidableEq

namespace Object

/-- Name lookups, I/Os and completion packets the system still has. -/
def outstanding (x : Object) : Nat := x.lookups + x.pending + x.queued

/-! `xf_monitor_t` is recursive for its owner. -/

def available (x : Object) (thread : Nat) : Bool := x.owner = none || x.owner = some thread

def lock (x : Object) (thread : Nat) : Object := {x with owner := some thread, depth := x.depth + 1}

def unlock (x : Object) : Object :=
  {x with owner := if x.depth ≤ 1 then none else x.owner, depth := x.depth - 1}

/-- The fields an operation sets before it starts its I/O, inside `xf_async_enter`. -/
def prepare (x : Object) (io : Io) : Object :=
  {x with
    handle :=
      match io with
      | .connectPhase1 => .null
      | .connectPhase2 | .receive => .socket
      | .disconnect | .send | .accept => x.handle
    ioType :=
      match io with
      | .send | .accept => x.ioType
      | io => io}

end Object

inductive Share
  | completion
  | timer
  | enter
  | user
deriving DecidableEq

inductive Operation
  | connect
  | receive
  | send
  | close
  | accept
deriving DecidableEq

/-- Code outside the library. `handed` is set once the invocation has handed its async to an operation. -/
inductive Role
  | main
  | completed (a : Id) (e : Error)
  | procedure (a : Id) (phase : Int) (e : Error) (handed : Bool)
  | entered (a : Id)
deriving DecidableEq

/-- What follows a successful `xf_async_enter`. -/
inductive Entry
  | user
  | io (io : Io)
deriving DecidableEq

/-- What follows `xf_async_leave`. -/
inductive After
  | done
  | notify (e : Error)
  | connectPhase1 (e : Error)
deriving DecidableEq

inductive Frame
  /-- User code that has made `pc` calls; `last` is what its last constructor call returned. -/
  | user (role : Role) (pc : Nat) (last : Option Id)
  | notify (a : Id) (e : Error)
  /-- `xf_async_notify` at its switch. -/
  | notifyKind (a : Id) (e : Error)
  | asyncNotify (a : Id) (e : Error)
  /-- `_xf_async_async_notify` about to call `completed`. -/
  | complete (a : Id) (e : Error)
  | waitNotify (a : Id) (e : Error)
  | runNextPhase (a : Id) (e : Error)
  /-- `xf_async_run_next_phase` after the procedure returned `err`, called without or with an error. -/
  | phaseReturned (a : Id) (err : Error) (handed : Bool)
  | errorReturned (a : Id) (err : Error)
  | release (a : Id) (share : Share)
  | destroy (a : Id)
  /-- The write `parent->child_async = NULL` when `a` is destroyed, and the write of a new child. -/
  | unlink (parent a : Id)
  | link (parent child : Id)
  | clear (a : Id)
  | cancel (a : Id)
  /-- `_cancel` at its start, and under the monitor with `canceled` set. -/
  | cancelEnter (a : Id)
  | cancelTarget (a : Id)
  /-- `async_timeout`. -/
  | timeout (a : Id)
  | enter (a : Id) (entry : Entry)
  | unlock (a : Id)
  | start (a : Id) (io : Io)
  | leave (a : Id) (after : After)
  /-- A constructor at `xf_atomic_increment`, and at `xf_timeout_schedule`. -/
  | newRef (a : Id)
  | newArm (a : Id)
  | wait (a : Id)
  | operation (op : Operation) (a : Id)
  | acceptEx (a : Id)
  | connectPhase1 (a : Id) (e : Error)
  /-- `socket_connect_async` up to its `xf_async_enter`. -/
  | connectAsync (a : Id)
  /-- `io_compiletion_main` with a packet of the async. -/
  | completed (a : Id) (e : Error)
deriving DecidableEq

namespace Frame

/-- The async the next step of the frame works on; user code has none before it makes a call. -/
def subject : Frame → Option Id
  | user .. => none
  | notify a _ | notifyKind a _ | asyncNotify a _ | complete a _ | waitNotify a _ | runNextPhase a _
  | phaseReturned a _ _ | errorReturned a _ | release a _ | destroy a | unlink a _ | link a _ | clear a
  | cancel a | cancelEnter a | cancelTarget a | timeout a | enter a _ | unlock a | start a _ | leave a _
  | newRef a | newArm a | wait a | operation _ a | acceptEx a | connectPhase1 a _ | connectAsync a
  | completed a _ => some a

def owner : Frame → Option Id
  | user (.completed a _) _ _ | user (.procedure a _ _ _) _ _ | user (.entered a) _ _ => some a
  | link _ child => some child
  | unlink _ a => some a
  | f => f.subject

def mentions : Frame → List Id
  | user (.completed a _) _ _ | user (.procedure a _ _ _) _ _ | user (.entered a) _ _ => [a]
  | link parent child => [parent,child]
  | unlink parent a => [parent,a]
  | f => f.subject.toList

def interior : Frame → Bool
  | asyncNotify .. | complete .. | waitNotify .. | destroy _ | unlink .. | clear _ | cancelEnter _
  | cancelTarget _ | unlock _ | start .. | acceptEx _ | connectAsync _ => true
  | _ => false

def kind : Frame → Option (Id × Kind)
  | asyncNotify a _ | complete a _ | user (.completed a _) _ _ => some (a,.async)
  | waitNotify a _ => some (a,.wait)
  | runNextPhase a _ | phaseReturned a _ _ | errorReturned a _ | user (.procedure a _ _ _) _ _ =>
    some (a,.multiPhase)
  | _ => none

def share : Frame → Option (Id × Share)
  | release a share => some (a,share)
  | complete a _ | user (.completed a _) _ _ => some (a,.completion)
  | timeout a | newArm a => some (a,.timer)
  | user (.entered a) _ _ | start a _ | leave a _ => some (a,.enter)
  | _ => none

end Frame

end Xrossfire.Async
