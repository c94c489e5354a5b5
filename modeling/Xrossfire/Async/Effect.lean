import Xrossfire.Async.Machine
import Xrossfire.Library.Pool
import Xrossfire.Library.Run

/-! What one event does to the asyncs and the threads, the pointers that are
known, and sums that steps preserve. -/
namespace Xrossfire.Async
open Library

inductive Acts (thread : Nat) (x : Object) : Frame → Outcome → Object → List Frame → Prop
  | notifyArmed {a : Id} {e : Error} (armed : x.armed = true) :
      Acts thread x (.notify a e) .ok {x.witness with armed := false} [.release a .timer,.notifyKind a e]
  | notify {a : Id} {e : Error} (armed : x.armed = false) :
      Acts thread x (.notify a e) .ok x.witness [.notifyKind a e]
  | notifyAsync {a : Id} {e : Error} (kind : x.kind = .async) :
      Acts thread x (.notifyKind a e) .ok x [.asyncNotify a e]
  | notifyWait {a : Id} {e : Error} (kind : x.kind = .wait) :
      Acts thread x (.notifyKind a e) .ok x [.waitNotify a e]
  | notifyMultiPhase {a : Id} {e : Error} (kind : x.kind = .multiPhase) :
      Acts thread x (.notifyKind a e) .ok x [.runNextPhase a e]
  | asyncCalled {a : Id} {e : Error} (available : x.available thread = true) (called : x.called = true) :
      Acts thread x (.asyncNotify a e) .ok x []
  | asyncNotify {a : Id} {e : Error} (available : x.available thread = true) (called : x.called = false) :
      Acts thread x (.asyncNotify a e) .ok
        {x with called := true, trace.winner := some e, trace.given := x.trace.given + 1} [.complete a e]
  | complete {a : Id} {e : Error} : Acts thread x (.complete a e) .ok
      {x.witness with trace.callbacks := e :: x.trace.callbacks} [.user (.completed a e) 0 none]
  | waitNotify {a : Id} {e : Error} (available : x.available thread = true) :
      Acts thread x (.waitNotify a e) .ok {x with status := true, error := e} []
  | wait {a : Id} (available : x.available thread = true) (status : x.status = true) :
      Acts thread x (.wait a) .ok x []
  | runError {a : Id} {e : Error} (failed : e ≠ 0) : Acts thread x (.runNextPhase a e) .ok (x.invoke true)
      [.user (.procedure a phaseError e false) 0 none]
  | runPhase {a : Id} : Acts thread x (.runNextPhase a 0) .ok (x.invoke (x.nextPhase = phaseError))
      [.user (.procedure a x.nextPhase 0 false) 0 none]
  | phaseFailed {a : Id} {err : Error} {handed : Bool} (failed : err ≠ 0) :
      Acts thread x (.phaseReturned a err handed) .ok x [.runNextPhase a err]
  | phaseExit {a p : Id} {handed : Bool} (exit : x.nextPhase = phaseExit) (parent : x.parent = some p) :
      Acts thread x (.phaseReturned a 0 handed) .ok {x.answer with trace.terminals := x.trace.terminals + 1}
        [.notify p 0,.release a .completion]
  | phaseReturned {a : Id} {handed : Bool} (exit : x.nextPhase ≠ phaseExit) :
      Acts thread x (.phaseReturned a 0 handed) .ok x []
  | errorReturned {a p : Id} {err : Error} (parent : x.parent = some p) :
      Acts thread x (.errorReturned a err) .ok x.answer [.notify p err,.release a .completion]
  | release {a : Id} {share : Share} (more : 1 < x.ref) :
      Acts thread x (.release a share) .ok (x.decrement share) []
  | releaseLast {a : Id} {share : Share} (last : x.ref ≤ 1) :
      Acts thread x (.release a share) .ok (x.decrement share) [.destroy a]
  | destroyChild {a p : Id} (available : x.available thread = true) (parent : x.parent = some p) :
      Acts thread x (.destroy a) .ok (x.lock thread).clearTimer [.unlink p a,.clear a]
  | destroy {a : Id} (available : x.available thread = true) (parent : x.parent = none) :
      Acts thread x (.destroy a) .ok (x.lock thread).clearTimer [.clear a]
  | unlink {p a : Id} : Acts thread x (.unlink p a) .ok {x with child := none} []
  | clear {a : Id} : Acts thread x (.clear a) .ok {x.unlock with freed := true} []
  | cancelArmed {a : Id} (armed : x.armed = true) :
      Acts thread x (.cancel a) .ok {x with armed := false} [.release a .timer,.cancelEnter a]
  | cancel {a : Id} (armed : x.armed = false) : Acts thread x (.cancel a) .ok x [.cancelEnter a]
  | cancelEnter {a : Id} (available : x.available thread = true) :
      Acts thread x (.cancelEnter a) .ok {x.lock thread with canceled := true} [.cancelTarget a]
  | cancelChild {a b : Id} (child : x.child = some b) :
      Acts thread x (.cancelTarget a) .ok x [.cancel b,.unlock a]
  | cancelIo {a : Id} (child : x.child = none) (handle : x.handle ≠ .invalid) :
      Acts thread x (.cancelTarget a) .ok {x with handle := .invalid} [.unlock a]
  | cancelFails {a : Id} {e : Error} (child : x.child = none) (handle : x.handle ≠ .invalid) :
      Acts thread x (.cancelTarget a) (.fails e) x [.unlock a,.notify a errorCancel]
  | cancelNotify {a : Id} (child : x.child = none) (handle : x.handle = .invalid) :
      Acts thread x (.cancelTarget a) .ok x [.unlock a,.notify a errorCancel]
  | timeout {a : Id} : Acts thread x (.timeout a) .ok x [.cancelEnter a,.release a .timer]
  | unlock {a : Id} : Acts thread x (.unlock a) .ok x.unlock []
  | enterCanceled {a : Id} {entry : Entry} (available : x.available thread = true) (canceled : x.canceled = true) :
      Acts thread x (.enter a entry) .ok (x.lock thread) [.notify a errorCancel,.unlock a]
  | enterUser {a : Id} (available : x.available thread = true) (canceled : x.canceled = false) :
      Acts thread x (.enter a .user) .ok {x.lock thread with ref := x.ref + 1} [.user (.entered a) 0 none]
  | enterIo {a : Id} {io : Io} (available : x.available thread = true) (canceled : x.canceled = false) :
      Acts thread x (.enter a (.io io)) .ok {x.lock thread with ref := x.ref + 1} [.start a io]
  | leave {a : Id} : Acts thread x (.leave a .done) .ok x.unlock [.release a .enter]
  | leaveNotify {a : Id} {e : Error} :
      Acts thread x (.leave a (.notify e)) .ok x.unlock [.release a .enter,.notify a e]
  | leaveConnect {a : Id} {e : Error} :
      Acts thread x (.leave a (.connectPhase1 e)) .ok x.unlock [.release a .enter,.connectPhase1 a e]
  | link {p b : Id} : Acts thread x (.link p b) .ok {x with child := some b} []
  | newRef {a : Id} : Acts thread x (.newRef a) .ok {x with ref := x.ref + 1, trace.timers := x.trace.timers + 1}
      [.newArm a]
  | newArm {a : Id} : Acts thread x (.newArm a) .ok {x with armed := true} []
  | startLookup {a : Id} : Acts thread x (.start a .connectPhase1) .ok
      {x.prepare .connectPhase1 with handle := .lookup, lookups := x.lookups + 1} [.leave a .done]
  | startConnected {a : Id} {e : Error} : Acts thread x (.start a .connectPhase1) (.fails e)
      (x.prepare .connectPhase1) [.leave a (.connectPhase1 e)]
  | start {a : Id} {io : Io} (overlapped : io ≠ .connectPhase1) :
      Acts thread x (.start a io) .ok {x.prepare io with pending := x.pending + 1} [.leave a .done]
  | startFails {a : Id} {io : Io} {e : Error} (overlapped : io ≠ .connectPhase1) (failed : e ≠ 0) :
      Acts thread x (.start a io) (.fails e) (x.prepare io) [.leave a (.notify e)]
  | connect {a : Id} : Acts thread x (.operation .connect a) .ok x [.enter a (.io .connectPhase1)]
  | receive {a : Id} : Acts thread x (.operation .receive a) .ok x [.enter a (.io .receive)]
  | send {a : Id} : Acts thread x (.operation .send a) .ok {x with ioType := .send, handle := .socket}
      [.enter a (.io .send)]
  | close {a : Id} : Acts thread x (.operation .close a) .ok x [.enter a (.io .disconnect)]
  | closeFails {a : Id} {e : Error} (failed : e ≠ 0) :
      Acts thread x (.operation .close a) (.fails e) x [.notify a e]
  | accept {a : Id} : Acts thread x (.operation .accept a) .ok {x with ioType := .accept, handle := .socket}
      [.acceptEx a]
  | acceptFails {a : Id} {e : Error} (failed : e ≠ 0) :
      Acts thread x (.operation .accept a) (.fails e) x [.notify a e]
  | acceptEx {a : Id} : Acts thread x (.acceptEx a) .ok {x with pending := x.pending + 1} []
  | acceptExFails {a : Id} {e : Error} (failed : e ≠ 0) :
      Acts thread x (.acceptEx a) (.fails e) x [.notify a e]
  | connectFailed {a : Id} {e : Error} (failed : e ≠ 0) :
      Acts thread x (.connectPhase1 a e) .ok {x with handle := .invalid} [.notify a e]
  | connected {a : Id} : Acts thread x (.connectPhase1 a 0) .ok {x with handle := .invalid} [.connectAsync a]
  | connectAsync {a : Id} : Acts thread x (.connectAsync a) .ok x [.enter a (.io .connectPhase2)]
  | connectAsyncFails {a : Id} {e : Error} (failed : e ≠ 0) :
      Acts thread x (.connectAsync a) (.fails e) x [.notify a e]
  | completedNothing {a : Id} {e : Error} (io : x.ioType = .connectPhase1) : Acts thread x (.completed a e) .ok x []
  | completedConnect {a : Id} (io : x.ioType = .connectPhase2) :
      Acts thread x (.completed a 0) .ok {x with handle := .invalid} [.notify a 0]
  | completedFails {a : Id} {err : Error} (io : x.ioType = .connectPhase2 ∨ x.ioType = .accept) (failed : err ≠ 0) :
      Acts thread x (.completed a 0) (.fails err) x [.notify a err]
  | completed {a : Id} {e : Error} (io : x.ioType ≠ .connectPhase1) (failed : x.ioType = .connectPhase2 → e ≠ 0) :
      Acts thread x (.completed a e) .ok x [.notify a e]

theorem act_acts {thread : Nat} {x x' : Object} {f : Frame} {outcome : Outcome} {frames : List Frame}
    (step : act thread x f outcome = some (x',frames)) : Acts thread x f outcome x' frames := by
  revert step
  fun_cases act thread x f outcome <;> intro step <;>
    simp only [Option.some.injEq,Object.disarm,reduceCtorEq,Option.map_eq_some_iff] at step
  all_goals first
    | (split at step <;> obtain ⟨rfl,rfl⟩ := Prod.mk.inj step)
    | obtain ⟨rfl,rfl⟩ := Prod.mk.inj step
    | obtain ⟨p,parent,⟨rfl,rfl⟩⟩ := step
  all_goals try (constructor <;> first | assumption | (simp_all; done))
  -- left are the branches on an error that is 0 there
  · next armed => exact .notify (Bool.eq_false_iff.mpr armed)
  · next passed =>
    cases Decidable.not_not.mp passed
    exact .runPhase
  · next passed exit =>
    cases Decidable.not_not.mp passed
    exact .phaseExit exit parent
  · next passed exit =>
    cases Decidable.not_not.mp passed
    exact .phaseReturned exit
  · next passed =>
    cases Decidable.not_not.mp passed
    exact .connected
  · next io passed =>
    cases Decidable.not_not.mp passed
    exact .completedConnect io
  · next io both =>
    obtain ⟨rfl,failed⟩ := both
    exact .completedFails (Or.inl io) failed
  · next io both =>
    obtain ⟨rfl,failed⟩ := both
    exact .completedFails (Or.inr io) failed

inductive Effect (c : Config) : Event → Config → Prop
  | library {thread : Nat} {f : Frame} {rest : List Frame} {outcome : Outcome} {a : Id} {x : Object}
      {frames : List Frame} (here : c.threads[thread]? = some (f :: rest)) (subject : f.subject = some a)
      (known : a < c.world.next) (step : act thread (c.world.asyncs a) f outcome = some (x,frames)) :
      Effect c (.run thread outcome) ⟨c.world.set a x,c.threads.set thread (frames ++ rest)⟩
  | call {thread : Nat} {role : Role} {pc : Nat} {last : Option Id} {rest : List Frame} {a : Id} {call : Call}
      {x : Object} {frames : List Frame} (here : c.threads[thread]? = some (.user role pc last :: rest))
      (known : a < c.world.next) (step : request a (c.world.asyncs a) call = some (x,frames)) :
      Effect c (.run thread (.acts (.call a call))) ⟨c.world.set a x,c.threads.set thread
        (frames ++ [Frame.user (role.after a call) (pc + 1) last] ++ rest)⟩
  | new {thread : Nat} {role : Role} {pc : Nat} {last : Option Id} {rest : List Frame} {kind : Kind}
      {timed : Bool} {parent : Option Id}
      (here : c.threads[thread]? = some (.user role pc last :: rest)) (made : kind ≠ .wait)
      (known : ∀ p ∈ parent, p < c.world.next) :
      Effect c (.run thread (.acts (.new kind timed parent true)))
        ⟨c.world.make (fresh kind timed parent none),c.threads.set thread
          (construct c.world.next kind timed parent ++ [Frame.user role (pc + 1) (some c.world.next)] ++ rest)⟩
  | unmade {thread : Nat} {role : Role} {pc : Nat} {last : Option Id} {rest : List Frame}
      {timed : Bool} {parent : Option Id}
      (here : c.threads[thread]? = some (.user role pc last :: rest))
      (known : ∀ p ∈ parent, p < c.world.next) :
      Effect c (.run thread (.acts (.new .multiPhase timed parent false)))
        ⟨c.world.make (Async.unmade parent),c.threads.set thread
          ([Frame.user role (pc + 1) none] ++ rest)⟩
  | refused {thread : Nat} {role : Role} {pc : Nat} {last : Option Id} {rest : List Frame}
      {timed : Bool} {parent : Option Id}
      (here : c.threads[thread]? = some (.user role pc last :: rest)) :
      Effect c (.run thread (.acts (.new .async timed parent false)))
        ⟨c.world,c.threads.set thread ([Frame.user role (pc + 1) none] ++ rest)⟩
  | waitNew {thread : Nat} {role : Role} {pc : Nat} {last : Option Id} {rest : List Frame}
      {parent child : Option Id} (here : c.threads[thread]? = some (.user role pc last :: rest))
      (known : ∀ p ∈ parent, p < c.world.next) (below : ∀ b ∈ child, b < c.world.next) :
      Effect c (.run thread (.acts (.waitNew parent child)))
        ⟨c.world.make (freshWait parent child),c.threads.set thread
          (construct c.world.next .wait true none ++ [Frame.user role (pc + 1) (some c.world.next)] ++ rest)⟩
  | store {thread : Nat} {a : Id} {phase phase' : Int} {e : Error} {handed : Bool} {pc : Nat}
      {last : Option Id} {rest : List Frame}
      (here : c.threads[thread]? = some (.user (.procedure a phase e handed) pc last :: rest))
      (known : a < c.world.next) :
      Effect c (.run thread (.acts (.store phase')))
        ⟨c.world.set a {c.world.asyncs a with nextPhase := phase'},c.threads.set thread
          ([Frame.user (.procedure a phase e handed) (pc + 1) last] ++ rest)⟩
  | finish {thread : Nat} {role : Role} {pc : Nat} {last : Option Id} {rest : List Frame} {err : Error}
      (here : c.threads[thread]? = some (.user role pc last :: rest)) :
      Effect c (.run thread (.acts (.finish err))) ⟨c.world,c.threads.set thread (Async.finish err role ++ rest)⟩
  | spawn : Effect c .spawn ⟨c.world,c.threads ++ [[.user .main 0 none]]⟩
  | arise {a : Id} {cause : Cause} {x : Object} {frames : List Frame} (known : a < c.world.next)
      (step : Async.arise a (c.world.asyncs a) cause = some (x,frames)) :
      Effect c (.arise a cause) ⟨c.world.set a x,c.threads ++ [frames]⟩

theorem user_effect {c : Config} {thread : Nat} {role : Role} {pc : Nat} {last : Option Id} {rest : List Frame}
    {action : Action} {w : World} {frames : List Frame}
    (here : c.threads[thread]? = some (.user role pc last :: rest))
    (step : user c.world role pc last action = some (w,frames)) :
    Effect c (.run thread (.acts action)) ⟨w,c.threads.set thread (frames ++ rest)⟩ := by
  cases action with
  | call a call =>
    simp only [user,Option.ite_none_right_eq_some] at step
    obtain ⟨known,step⟩ := step
    obtain ⟨⟨x,frames'⟩,inner,result⟩ := Option.bind_eq_some_iff.mp step
    cases result
    exact Effect.call here known inner
  | new kind timed parent malloc =>
    simp only [user,Option.ite_none_right_eq_some] at step
    obtain ⟨⟨made,known⟩,step⟩ := step
    cases malloc with
    | true =>
      cases step
      exact Effect.new here made known
    | false =>
      cases kind with
      | async =>
        cases step
        exact Effect.refused here
      | wait => exact absurd rfl made
      | multiPhase =>
        cases step
        exact Effect.unmade here known
  | waitNew parent child =>
    simp only [user,Option.ite_none_right_eq_some] at step
    obtain ⟨⟨known,below⟩,step⟩ := step
    cases step
    exact Effect.waitNew here known below
  | store phase =>
    cases role with
    | procedure a phase e handed =>
      simp only [user,Option.ite_none_right_eq_some] at step
      obtain ⟨known,step⟩ := step
      cases step
      exact Effect.store here known
    | main | completed _ _ | entered _ => cases step
  | finish err =>
    cases step
    exact Effect.finish here

theorem step_effect {c c' : Config} {event : Event} (step : c.step event = some c') : Effect c event c' := by
  cases event with
  | run thread outcome =>
    simp only [Config.step] at step
    split at step
    · next f rest here =>
      obtain ⟨⟨w,frames⟩,call,result⟩ := Option.bind_eq_some_iff.mp step
      cases result
      unfold exec at call
      split at call
      · exact user_effect here call
      · obtain ⟨a,subject,known⟩ := Option.bind_eq_some_iff.mp call
        rw [Option.ite_none_right_eq_some] at known
        obtain ⟨known,inner⟩ := known
        obtain ⟨⟨x,frames'⟩,inner,result⟩ := Option.bind_eq_some_iff.mp inner
        cases result
        exact Effect.library here subject known inner
    · cases step
  | spawn =>
    cases step
    exact Effect.spawn
  | arise a cause =>
    simp only [Config.step,Option.ite_none_right_eq_some] at step
    obtain ⟨known,step⟩ := step
    obtain ⟨⟨x,frames⟩,call,result⟩ := Option.bind_eq_some_iff.mp step
    cases result
    exact Effect.arise known call

namespace World

@[simp] theorem set_next (w : World) (a : Id) (x : Object) : (w.set a x).next = w.next := rfl

@[simp] theorem set_asyncs_self (w : World) (a : Id) (x : Object) : (w.set a x).asyncs a = x := by
  simp only [set,Function.update_self]

theorem set_asyncs_of_ne {w : World} {a b : Id} {x : Object} (ne : b ≠ a) :
    (w.set a x).asyncs b = w.asyncs b := by
  simp only [set,Function.update_of_ne ne]

@[simp] theorem make_next (w : World) (x : Object) : (w.make x).next = w.next + 1 := rfl

@[simp] theorem make_asyncs_self (w : World) (x : Object) : (w.make x).asyncs w.next = x := by
  simp only [make,Function.update_self]

theorem make_asyncs_of_lt {w : World} {b : Id} {x : Object} (lt : b < w.next) :
    (w.make x).asyncs b = w.asyncs b := by
  simp only [make,Function.update_of_ne (Nat.ne_of_lt lt)]

/-- An async is one of the earlier ones or the one just made. -/
theorem make_cases {w : World} {b : Id} {x : Object} (made : b < (w.make x).next) :
    b < w.next ∧ (w.make x).asyncs b = w.asyncs b ∨ b = w.next ∧ (w.make x).asyncs b = x := by
  rcases Nat.lt_or_eq_of_le (Nat.le_of_lt_succ made) with lt | rfl
  · exact Or.inl ⟨lt,make_asyncs_of_lt lt⟩
  · exact Or.inr ⟨rfl,make_asyncs_self _ _⟩

end World

/-! ## Pointers -/

def Object.pointers (x : Object) : List Id := x.parent.toList ++ x.child.toList

structure Known (c : Config) : Prop where
  frame : ∀ f ∈ c.threads.flatten, ∀ b ∈ f.mentions, b < c.world.next
  object : ∀ a, ∀ b ∈ (c.world.asyncs a).pointers, b < c.world.next

/-- A library step passes on the pointers of its frame and of its async. -/
theorem act_mentions {thread : Nat} {x x' : Object} {f : Frame} {outcome : Outcome} {frames : List Frame}
    (step : act thread x f outcome = some (x',frames)) :
    (∀ g ∈ frames, ∀ b ∈ g.mentions, b ∈ f.mentions ∨ b ∈ x.pointers) ∧
      ∀ b ∈ x'.pointers, b ∈ f.mentions ∨ b ∈ x.pointers := by
  replace step := act_acts step
  cases step
  all_goals simp +contextual [Frame.mentions,Frame.subject,Object.pointers,Object.witness,Object.invoke,
    Object.answer,Object.decrement,Object.lock,Object.unlock,Object.prepare,Object.clearTimer,or_imp, *]

theorem act_fixed {thread : Nat} {x x' : Object} {f : Frame} {outcome : Outcome} {frames : List Frame}
    (step : act thread x f outcome = some (x',frames)) : x'.parent = x.parent ∧ x'.kind = x.kind := by
  replace step := act_acts step
  cases step
  all_goals exact ⟨rfl,rfl⟩

inductive Requests (a : Id) (x : Object) : Call → Object → List Frame → Prop
  | notify {e : Error} : Requests a x (.notify e) x [.notify a e]
  | cancel : Requests a x .cancel x [.cancel a]
  | enter : Requests a x .enter x [.enter a .user]
  | wait : Requests a x .wait x [.wait a]
  | operation {op : Operation} : Requests a x (.operation op) x [.operation op a]
  | addRef : Requests a x .addRef {x with ref := x.ref + 1, trace.held := x.trace.held + 1} []
  | release (held : 0 < x.trace.held) :
      Requests a x .release {x with trace.held := x.trace.held - 1} [.release a .user]

theorem request_requests {a : Id} {x x' : Object} {call : Call} {frames : List Frame}
    (step : request a x call = some (x',frames)) : Requests a x call x' frames := by
  cases call with
  | release =>
    simp only [request,Option.ite_none_right_eq_some,Option.some.injEq,Prod.mk.injEq] at step
    obtain ⟨held,rfl,rfl⟩ := step
    exact .release held
  | notify | cancel | enter | wait | operation | addRef =>
    cases step
    constructor

theorem request_mentions {a : Id} {x x' : Object} {call : Call} {frames : List Frame}
    (step : request a x call = some (x',frames)) :
    (∀ g ∈ frames, g.mentions = [a]) ∧ x'.parent = x.parent ∧ x'.child = x.child ∧ x'.kind = x.kind := by
  replace step := request_requests step
  cases step
  all_goals simp [Frame.mentions,Frame.subject]

inductive Arises (a : Id) (x : Object) : Cause → Object → List Frame → Prop
  | expire (armed : x.armed = true) : Arises a x .expire {x with armed := false} [.timeout a]
  | complete (pending : 0 < x.pending) :
      Arises a x .complete {x with pending := x.pending - 1, queued := x.queued + 1} []
  | dispatch {e : Error} (queued : 0 < x.queued) :
      Arises a x (.dispatch e) {x with queued := x.queued - 1} [.completed a e]
  | lookup {e : Error} (lookups : 0 < x.lookups) :
      Arises a x (.lookup e) {x with lookups := x.lookups - 1} [.connectPhase1 a e]

theorem arise_arises {a : Id} {x x' : Object} {cause : Cause} {frames : List Frame}
    (step : arise a x cause = some (x',frames)) : Arises a x cause x' frames := by
  cases cause <;>
    simp only [arise,Option.ite_none_right_eq_some,Option.some.injEq,Prod.mk.injEq] at step <;>
    obtain ⟨has,rfl,rfl⟩ := step
  case expire => exact .expire has
  case complete => exact .complete has
  case dispatch => exact .dispatch has
  case lookup => exact .lookup has

theorem arise_mentions {a : Id} {x x' : Object} {cause : Cause} {frames : List Frame}
    (step : arise a x cause = some (x',frames)) :
    (∀ g ∈ frames, g.mentions = [a]) ∧ x'.parent = x.parent ∧ x'.child = x.child ∧ x'.kind = x.kind := by
  replace step := arise_arises step
  cases step
  all_goals simp [Frame.mentions,Frame.subject]

theorem construct_mem {a : Id} {kind : Kind} {timed : Bool} {parent : Option Id} {g : Frame}
    (member : g ∈ construct a kind timed parent) :
    (∃ p ∈ parent, g = .link p a) ∨ g = .newRef a ∨ kind = .multiPhase ∧ g = .runNextPhase a 0 := by
  revert member
  cases parent <;> cases timed <;> cases kind <;> simp +contextual [construct,or_imp]

theorem construct_mentions {a b : Id} {kind : Kind} {timed : Bool} {parent : Option Id} {g : Frame}
    (member : g ∈ construct a kind timed parent) (mention : b ∈ g.mentions) : b = a ∨ b ∈ parent := by
  rcases construct_mem member with ⟨p,here,rfl⟩ | rfl | ⟨-,rfl⟩
  · rcases List.mem_cons.mp mention with rfl | own
    · exact Or.inr here
    · exact Or.inl (List.mem_singleton.mp own)
  · exact Or.inl (List.mem_singleton.mp mention)
  · exact Or.inl (List.mem_singleton.mp mention)

theorem user_mentions (role : Role) (pc pc' : Nat) (last last' : Option Id) :
    (Frame.user role pc' last').mentions = (Frame.user role pc last).mentions := by
  cases role <;> rfl

theorem after_mentions (a : Id) (call : Call) (role : Role) (pc : Nat) (last : Option Id) :
    (Frame.user (role.after a call) pc last).mentions = (Frame.user role pc last).mentions := by
  cases role <;> cases call <;> rfl

inductive Finish (err : Error) : Role → Frame → Prop
  | completed {a : Id} {e : Error} : Finish err (.completed a e) (.release a .completion)
  | failed {a : Id} {phase : Int} {e : Error} {handed : Bool} (failed : e ≠ 0) :
      Finish err (.procedure a phase e handed) (.errorReturned a err)
  | returned {a : Id} {phase : Int} {handed : Bool} :
      Finish err (.procedure a phase 0 handed) (.phaseReturned a err handed)
  | entered {a : Id} : Finish err (.entered a) (.leave a .done)

theorem finish_mem {err : Error} {role : Role} {g : Frame} (member : g ∈ finish err role) : Finish err role g := by
  cases role with
  | main => cases member
  | completed a e =>
    rw [List.mem_singleton.mp member]
    exact .completed
  | entered a =>
    rw [List.mem_singleton.mp member]
    exact .entered
  | procedure a phase e handed =>
    simp only [finish] at member
    split at member
    · next failed =>
      rw [List.mem_singleton.mp member]
      exact .failed failed
    · next fine =>
      rw [List.mem_singleton.mp member,not_not.mp fine]
      exact .returned

theorem finish_mentions {err : Error} {role : Role} {g : Frame} (member : g ∈ finish err role) (pc : Nat)
    (last : Option Id) : g.mentions = (Frame.user role pc last).mentions := by
  cases finish_mem member <;> rfl

theorem Known.set {c : Config} {a : Id} {x : Object} {threads : List (List Frame)} (known : Known c)
    (frame : ∀ f ∈ threads.flatten, ∀ b ∈ f.mentions, b < c.world.next)
    (object : ∀ b ∈ x.pointers, b < c.world.next) : Known ⟨c.world.set a x,threads⟩ := by
  refine ⟨frame,?_⟩
  intro b p pointer
  by_cases same : b = a
  · subst same
    exact object p (by simpa using pointer)
  · exact known.object b p (by simpa only [World.set_asyncs_of_ne same] using pointer)

theorem Known.make {c : Config} {x : Object} {threads : List (List Frame)} (known : Known c)
    (frame : ∀ f ∈ threads.flatten, ∀ b ∈ f.mentions, b ≤ c.world.next)
    (object : ∀ b ∈ x.pointers, b < c.world.next) : Known ⟨c.world.make x,threads⟩ := by
  refine ⟨fun f member b mention => Nat.lt_succ_of_le (frame f member b mention),?_⟩
  intro b p pointer
  apply Nat.lt_succ_of_lt
  by_cases same : b = c.world.next
  · subst same
    exact object p (by simpa using pointer)
  · exact known.object b p (by simpa only [World.make,Function.update_of_ne same] using pointer)

theorem Known.set_frames {c : Config} {thread : Nat} {f : Frame} {rest frames : List Frame} (known : Known c)
    (here : c.threads[thread]? = some (f :: rest)) {n : Nat} (le : c.world.next ≤ n)
    (fresh : ∀ g ∈ frames, ∀ b ∈ g.mentions, b < n) :
    ∀ g ∈ (c.threads.set thread (frames ++ rest)).flatten, ∀ b ∈ g.mentions, b < n := by
  intro g member b mention
  rcases mem_set here member with new | old
  · exact fresh g new b mention
  · exact Nat.lt_of_lt_of_le (known.frame g old b mention) le

theorem Known.effect {c c' : Config} {event : Event} (known : Known c) (effect : Effect c event c') :
    Known c' := by
  have top {thread : Nat} {f : Frame} {rest : List Frame} (here : c.threads[thread]? = some (f :: rest)) :
      ∀ b ∈ f.mentions, b < c.world.next := known.frame f (mem_top here)
  have resume {thread : Nat} {role : Role} {pc pc' : Nat} {last last' : Option Id} {rest : List Frame}
      (here : c.threads[thread]? = some (.user role pc last :: rest)) :
      ∀ b ∈ (Frame.user role pc' last').mentions, b < c.world.next := by
    rw [user_mentions role pc pc' last last']
    exact top here
  have built {thread : Nat} {role : Role} {pc : Nat} {last last' : Option Id} {rest : List Frame} {kind : Kind}
      {timed : Bool} {parent : Option Id} (here : c.threads[thread]? = some (.user role pc last :: rest))
      (below : ∀ p ∈ parent, p < c.world.next) :
      ∀ g ∈ (c.threads.set thread (construct c.world.next kind timed parent ++
        [Frame.user role (pc + 1) last'] ++ rest)).flatten, ∀ b ∈ g.mentions, b ≤ c.world.next := by
    intro g member b mention
    apply Nat.le_of_lt_succ
    refine known.set_frames here (Nat.le_succ _) ?_ g member b mention
    intro g pushed b mention
    rcases List.mem_append.mp pushed with lib | own
    · rcases construct_mentions lib mention with same | parent
      · exact Nat.lt_succ_of_le (Nat.le_of_eq same)
      · exact Nat.lt_succ_of_lt (below b parent)
    · rw [List.mem_singleton.mp own] at mention
      exact Nat.lt_succ_of_lt (resume here b mention)
  cases effect with
  | @library thread f rest outcome a x frames here subject below step =>
    obtain ⟨pushed,pointers⟩ := act_mentions step
    have fine (b : Id) (origin : b ∈ f.mentions ∨ b ∈ (c.world.asyncs a).pointers) : b < c.world.next :=
      origin.elim (top here b) (known.object a b)
    apply known.set
    · exact known.set_frames here (Nat.le_refl _) (fun g member b mention => fine b (pushed g member b mention))
    · exact fun b pointer => fine b (pointers b pointer)
  | call here below step =>
    obtain ⟨pushed,parent,child,-⟩ := request_mentions step
    apply known.set
    · apply known.set_frames here (Nat.le_refl _)
      intro g member b mention
      rcases List.mem_append.mp member with lib | own
      · rw [pushed g lib,List.mem_singleton] at mention
        rwa [mention]
      · rw [List.mem_singleton.mp own,after_mentions] at mention
        exact resume here b mention
    · rw [Object.pointers,parent,child]
      exact known.object _
  | new here made below =>
    apply known.make
    · exact built here below
    · simpa [Object.pointers,fresh] using below
  | unmade here below =>
    apply known.make
    · intro g member b mention
      apply Nat.le_of_lt
      refine known.set_frames here (Nat.le_refl _) ?_ g member b mention
      intro g own
      rw [List.mem_singleton.mp own]
      exact resume here
    · simpa [Object.pointers,Async.unmade,fresh] using below
  | refused here =>
    refine ⟨known.set_frames here (Nat.le_refl _) ?_,known.object⟩
    intro g own
    rw [List.mem_singleton.mp own]
    exact resume here
  | waitNew here below inside =>
    apply known.make
    · exact built here (fun p parent => by cases parent)
    · intro b pointer
      rcases List.mem_append.mp pointer with parent | child
      · exact below b (Option.mem_toList.mp parent)
      · exact inside b (Option.mem_toList.mp child)
  | store here below =>
    apply known.set
    · apply known.set_frames here (Nat.le_refl _)
      intro g own
      rw [List.mem_singleton.mp own]
      exact resume here
    · exact known.object _
  | @finish thread role pc last rest err here =>
    refine ⟨known.set_frames here (Nat.le_refl _) ?_,known.object⟩
    intro g member
    rw [finish_mentions member pc last]
    exact top here
  | spawn =>
    refine ⟨?_,known.object⟩
    intro g member
    rcases mem_spawn member with new | old
    · rw [List.mem_singleton.mp new]
      intro b mention
      cases mention
    · exact known.frame g old
  | arise below step =>
    obtain ⟨pushed,parent,child,-⟩ := arise_mentions step
    apply known.set
    · intro g member b mention
      rcases mem_spawn member with new | old
      · rw [pushed g new,List.mem_singleton] at mention
        rwa [mention]
      · exact known.frame g old b mention
    · rw [Object.pointers,parent,child]
      exact known.object _

theorem start_known : Known Config.start := by
  refine ⟨?_,?_⟩
  · intro f member
    cases member
  · intro a b pointer
    cases pointer

end Xrossfire.Async
