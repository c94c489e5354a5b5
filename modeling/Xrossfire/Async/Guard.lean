import Xrossfire.Async.Refinement

/-! The timer of a call in the timer tree. It stays there until the call ends as long as nothing leads to a notify
of the call, and no cancel comes upon it with the key of another async. -/
namespace Xrossfire.Async.Fields
open Library Relation

/-- While `xf_timeout_schedule` has not given the key of an async its identifier, the key may be that of a timer in
the tree; then nobody notifies, cancels or destroys the async. `xf_async_wait_new` gets a timeout. -/
def Apart (s : State) : Event → Prop
  | .run (.run thread _) _ => ∀ f ∈ s.config.top thread, match f with
    | .notify b _ | .cancel b | .destroy b => b ∈ s.timers.scheduling →
      ∀ d, s.timers.queue.linked d → s.timers.queue.key d ≠ s.timers.queue.key b
    | _ => True
  | .waitNew _ _ timeout _ _ _ _ => 0 < timeout
  | _ => True

def record (a : Id) (r : Stopped) (s : State) : Event → Stopped
  | .run event _ => r.record a s.config event
  | _ => r

def Quiet (a : Id) (r : Stopped) (s : State) : Event → Prop
  | .run event _ => Undisturbed a r s.config event
  | _ => True

def Steady (a : Id) (r : Stopped) (s : State) (event : Event) : Prop := Apart s event ∧ Quiet a r s event

def Timing (a : Id) (allowed : Stopped → State → Event → Prop) : Stopped × State → Stopped × State → Prop :=
  Recorded State.step (record a) allowed

/-- The timer of a call is in the tree from its set-up to its terminal phase, unless it is cancelled or expires. -/
def Watched (a : Id) (s : Stopped × State) : Prop :=
  a < s.2.config.world.next → (s.2.config.world.asyncs a).kind = .multiPhase →
    (s.2.config.world.asyncs a).trace.timed = true → tally (·.arms a) s.2.config.threads = 0 →
      (s.2.config.world.asyncs a).trace.terminals = 0 → s.1.cancelled = false → s.1.expired = false →
        s.2.timers.queue.linked a

section
variable {s s' : State} {xs : List Id} {a : Id} {r : Stopped}

/-- A cancel with a key of its own finds no timer of another async. -/
theorem Bound.timely (bound : Bound s xs) {event : Event} (apart : Apart s event) : Timely s event := by
  have missed {fuel : Nat} {b : Id}
      (none : ∀ d, s.timers.queue.linked d → s.timers.queue.key d ≠ s.timers.queue.key b) :
      (Timeout.cancel fuel s.timers.queue b).map Prod.snd ≠ some true := by
    intro found
    obtain ⟨⟨queue,removed⟩,run,rfl⟩ := Option.map_eq_some_iff.mp found
    obtain ⟨queue',removed',returns,result⟩ := Timeout.cancel_spec bound.planted.nodes.entries b
    cases returns.2 _ ⟨fuel,run⟩
    obtain ⟨d,low,high,carried,split,-⟩ := result.found rfl
    exact none d ((bound.planted.nodes.entries.linked d).mpr (by simp [split])) carried
  cases event with
  | run event fuel =>
    cases event with
    | run thread outcome =>
      intro f top
      have apart := apart f top
      cases f with
      | notify b e | cancel b | destroy b => exact fun inside => missed (apart inside)
      | _ => trivial
    | spawn | arise b cause => trivial
  | schedule _ _ | tick _ => trivial
  | waitNew _ _ _ _ _ _ _ => exact apart

theorem guarding_constructing (c c' : Config) (guarding : Guarding a (r,c)) (step : Async.Step Constructing c c') :
    Guarding a (r,c') := by
  obtain ⟨event,constructing,step⟩ := step
  have kept : r.record a c event = r ∧ ¬ Disturbs a c event := by
    unfold Constructing at constructing
    split at constructing
    · exact ⟨rfl,id⟩
    · obtain ⟨b,top | top⟩ := constructing
      all_goals
        refine ⟨by simp [Stopped.record,top],?_⟩
        rintro ⟨f,same,disturbs⟩
        cases top.symm.trans same
        exact disturbs
    · exact constructing.elim
  have after := guarding.effect (fun _ _ _ => kept.2) (step_effect step)
  rw [kept.1] at after
  exact after

/-- A step keeps the call guarded. -/
theorem guarding_step {event : Event} (bound : Bound s xs) (guarding : Guarding a (r,s.config.rearm (listed xs)))
    (steady : Steady a r s event) (step : s.step event = some s') :
    ∃ ys, Bound s' ys ∧ Guarding a (record a r s event,s'.config.rearm (listed ys)) := by
  have timely := bound.timely steady.1
  cases event with
  | run event fuel =>
    obtain ⟨ys,after,moved⟩ := bound.run timely step
    exact ⟨ys,after,guarding.effect steady.2 (step_effect moved)⟩
  | waitNew thread ticks timeout parent child key fuel =>
    obtain ⟨ys,after,moved⟩ := bound.waitNew timely step
    exact ⟨ys,after,run_invariant guarding_constructing moved guarding⟩
  | schedule thread timeout =>
    obtain ⟨after,same⟩ := bound.scheduled step
    exact ⟨xs,after,same ▸ guarding⟩
  | tick now =>
    obtain ⟨after,same⟩ := bound.ticked step
    exact ⟨xs,after,same ▸ guarding⟩

/-- In the steady runs the timer of a call stays in the tree until the call ends. -/
theorem reachable_watched {t : Stopped × State} (initial : s.Initial)
    (run : ReflTransGen (Timing a (Steady a)) (⟨false,false⟩,s) t) : Watched a t := by
  have start : ∃ xs, Bound s xs ∧ Guarding a (⟨false,false⟩,s.config.rearm (listed xs)) := by
    obtain ⟨xs,bound,same⟩ := initial.models
    exact ⟨xs,bound,same ▸ start_guarding a⟩
  have keeps (t t' : Stopped × State) (before : ∃ xs, Bound t.2 xs ∧ Guarding a (t.1,t.2.config.rearm (listed xs)))
      (step : Timing a (Steady a) t t') : ∃ xs, Bound t'.2 xs ∧ Guarding a (t'.1,t'.2.config.rearm (listed xs)) := by
    obtain ⟨xs,bound,guarding⟩ := before
    obtain ⟨event,steady,step,same⟩ := step
    exact same ▸ guarding_step bound guarding steady step
  obtain ⟨xs,bound,guarding⟩ := run_invariant keeps run start
  intro made kind timed armings terminals calm asleep
  have armed := guarding.watched made kind timed armings terminals calm asleep
  exact (bound.planted.nodes.entries.linked a).mpr (of_decide_eq_true armed)

end

/-- Nobody notifies, cancels or destroys an async inside its `xf_timeout_schedule`. -/
def Whole (s : State) : Event → Prop
  | .run (.run thread _) _ => ∀ f ∈ s.config.top thread, match f with
    | .notify b _ | .cancel b | .destroy b => b ∉ s.timers.scheduling
    | _ => True
  | .waitNew _ _ timeout _ _ _ _ => 0 < timeout
  | _ => True

theorem Whole.apart {s : State} {event : Event} (whole : Whole s event) : Apart s event := by
  cases event with
  | run event fuel =>
    cases event with
    | run thread outcome =>
      intro f top
      have out := whole f top
      cases f with
      | notify b e | cancel b | destroy b => exact fun inside => absurd inside out
      | _ => trivial
    | spawn | arise b cause => trivial
  | schedule _ _ | tick _ => trivial
  | waitNew _ _ _ _ _ _ _ => exact whole

instance (s : State) (event : Event) : Decidable (Whole s event) := by
  unfold Whole
  match event with
  | .run (.run _ _) _ =>
    refine @Option.decidableForallMem _ _ (fun f => ?_) _
    match f with
    | .user .. | .notify .. | .notifyKind .. | .asyncNotify .. | .complete .. | .waitNotify ..
    | .runNextPhase .. | .phaseReturned .. | .errorReturned .. | .release .. | .destroy _ | .unlink ..
    | .link .. | .clear _ | .cancel _ | .cancelEnter _ | .cancelTarget _ | .timeout _ | .enter .. | .unlock _
    | .start .. | .leave .. | .newRef _ | .newArm _ | .wait _ | .operation .. | .acceptEx _ | .connectPhase1 ..
    | .connectAsync _ | .completed .. => infer_instance
  | .run .spawn _ | .run (.arise ..) _ | .schedule .. | .waitNew .. | .tick _ => infer_instance

instance (a : Id) (r : Stopped) (s : State) (event : Event) : Decidable (Quiet a r s event) := by
  unfold Quiet
  match event with
  | .run .. | .schedule .. | .waitNew .. | .tick _ => infer_instance

/-- A timed call with the parent 0 whose phase 0 starts a receive and stores the phase 1. -/
def timedPhase : List Event :=
  [.run .spawn 0,.run (.run 0 (.acts (.new .async false none true))) 0,
    .run (.run 0 (.acts (.new .multiPhase true (some 0) true))) 0,.run (.run 0 .ok) 0,.run (.run 0 .ok) 0,
    .schedule 0 30,.run (.run 0 .ok) 3,.run (.run 0 .ok) 0,.run (.run 0 (.acts (.call 1 (.operation .receive)))) 0,
    .run (.run 0 .ok) 0,.run (.run 0 .ok) 0,.run (.run 0 .ok) 0,.run (.run 0 .ok) 0,.run (.run 0 .ok) 0,
    .run (.run 0 (.acts (.store 1))) 0,.run (.run 0 (.acts (.finish 0))) 0,.run (.run 0 .ok) 0]

def otherCancelled : List Event :=
  [.run .spawn 0,.waitNew 1 100 20 none none ⟨7,7⟩ 3,.tick 110,.run (.run 1 (.acts (.call 2 .cancel))) 0,
    .run (.run 1 .ok) 3]

theorem reachable_watched_receive : ∃ t, ReflTransGen (Timing 1 (Steady 1)) (⟨false,false⟩,start) t ∧
    0 < t.2.timers.count (Timeout.Event.cancels ⟨2,⟨1,120⟩⟩) ∧ (t.2.config.world.asyncs 1).pending = 1 ∧
      t.2.timers.queue.linked 1 := by
  obtain ⟨t,run,holds⟩ : ∃ t, ReflTransGen (Timing 1 (fun r s event => Whole s event ∧ Quiet 1 r s event))
      (⟨false,false⟩,start) t ∧ decide (0 < t.2.timers.count (Timeout.Event.cancels ⟨2,⟨1,120⟩⟩) ∧
        (t.2.config.world.asyncs 1).pending = 1 ∧ t.1 = ⟨false,false⟩ ∧ 1 < t.2.config.world.next ∧
        (t.2.config.world.asyncs 1).kind = .multiPhase ∧ (t.2.config.world.asyncs 1).trace.timed = true ∧
        tally (·.arms 1) t.2.config.threads = 0 ∧ (t.2.config.world.asyncs 1).trace.terminals = 0) = true :=
    retrace_reachable (timedPhase ++ otherCancelled) (by decide)
  obtain ⟨cancels,pending,flags,made,kind,timed,armings,terminals⟩ := of_decide_eq_true holds
  have run : ReflTransGen (Timing 1 (Steady 1)) (⟨false,false⟩,start) t := by
    refine ReflTransGen.mono ?_ _ _ run
    rintro t t' ⟨event,⟨whole,quiet⟩,step⟩
    exact ⟨event,⟨whole.apart,quiet⟩,step⟩
  exact ⟨t,run,cancels,pending,
    reachable_watched start_initial run made kind timed armings terminals (by rw [flags]) (by rw [flags])⟩

/-- The packet of the receive takes the timer out, and phase 1 starts a receive nobody will answer. -/
def secondReceive : List Event :=
  [.run (.arise 1 .complete) 0,.run (.arise 1 (.dispatch 0)) 0,.run (.run 2 .ok) 0,.run (.run 2 .ok) 3,
    .run (.run 2 .ok) 0,.run (.run 2 .ok) 0,.run (.run 2 .ok) 0,
    .run (.run 2 (.acts (.call 1 (.operation .receive)))) 0,.run (.run 2 .ok) 0,.run (.run 2 .ok) 0,
    .run (.run 2 .ok) 0,.run (.run 2 .ok) 0,.run (.run 2 .ok) 0,.run (.run 2 (.acts (.finish 0))) 0,
    .run (.run 2 .ok) 0]

theorem timer_lost : ∃ t, ReflTransGen (Timing 1 (fun _ _ _ => True)) (⟨false,false⟩,start) t ∧
    t.1 = ⟨false,false⟩ ∧ (t.2.config.world.asyncs 1).pending = 1 ∧ ¬ Watched 1 t := by
  obtain ⟨t,run,holds⟩ : ∃ t, ReflTransGen (Timing 1 (fun _ _ _ => True)) (⟨false,false⟩,start) t ∧
      decide (t.1 = ⟨false,false⟩ ∧ (t.2.config.world.asyncs 1).pending = 1 ∧ 1 < t.2.config.world.next ∧
        (t.2.config.world.asyncs 1).kind = .multiPhase ∧ (t.2.config.world.asyncs 1).trace.timed = true ∧
        tally (·.arms 1) t.2.config.threads = 0 ∧ (t.2.config.world.asyncs 1).trace.terminals = 0 ∧
        t.2.timers.queue.tree.root = none) = true :=
    retrace_reachable (timedPhase ++ secondReceive) (by decide)
  obtain ⟨flags,pending,made,kind,timed,armings,terminals,empty⟩ := of_decide_eq_true holds
  refine ⟨t,run,flags,pending,?_⟩
  intro watched
  have still := watched made kind timed armings terminals (by rw [flags]) (by rw [flags])
  rw [Timeout.Queue.linked,empty] at still
  cases still

end Xrossfire.Async.Fields
