import Xrossfire.Async.Tally

/-! Whether a call that goes through phases finishes exactly once. Whoever will
next run a phase carries the call: the invocation that has not yet handed its
async on, the operation it is handed to, or the notify at the end of that. -/
namespace Xrossfire.Async
open Library

/-- Code outside the call hands its async to nothing, does not notify it and makes no call under it. -/
def Leaves (a : Id) : Action → Prop
  | .call b (.notify _) | .call b .enter => b ≠ a
  | .new .multiPhase _ (some p) _ => p ≠ a
  | _ => True

instance (a : Id) (action : Action) : Decidable (Leaves a action) := by
  unfold Leaves
  match action with
  | .call _ (.notify _) | .call _ .cancel | .call _ .enter | .call _ .addRef | .call _ .release
  | .call _ (.operation _) | .call _ .wait | .new .multiPhase _ (some _) _ | .new .multiPhase _ none _
  | .new .async .. | .new .wait .. | .waitNew .. | .store _ | .finish _ => infer_instance

def Left (a : Id) (_ : Config) : Event → Prop
  | .run _ (.acts action) => Leaves a action
  | _ => True

instance (a : Id) (c : Config) (event : Event) : Decidable (Left a c event) := by
  unfold Left
  match event with
  | .run _ .ok | .run _ (.fails _) | .run _ (.acts _) | .spawn | .arise .. => infer_instance

def Role.opens (a : Id) : Role → Bool
  | .procedure b _ e handed => b = a ∧ e = 0 ∧ handed = false
  | _ => false

/-- The call can be set up; an invocation without an error hands its async to one operation or to none. -/
def Invokes (a : Id) (c : Config) (role : Role) : Action → Prop
  | .new .multiPhase _ _ malloc => a = c.world.next → malloc = true
  | .call b (.operation _) => b = a → role.opens a = true
  | _ => True

instance (a : Id) (c : Config) (role : Role) (action : Action) : Decidable (Invokes a c role action) := by
  unfold Invokes
  match action with
  | .call _ (.notify _) | .call _ .cancel | .call _ .enter | .call _ .addRef | .call _ .release
  | .call _ (.operation _) | .call _ .wait | .new .multiPhase .. | .new .async .. | .new .wait .. | .waitNew ..
  | .store _ | .finish _ => infer_instance

/-- An invocation that handed its async on has stored a phase to go on with and returns 0, and no other
does; and `_cancel` does not notify the call itself. -/
def Proceeds (a : Id) (c : Config) : Outcome → Frame → Prop
  | .acts action,.user role _ _ => Invokes a c role action
  | _,.runNextPhase b e => b = a → e = 0 → (c.world.asyncs a).nextPhase ≠ phaseError
  | _,.phaseReturned b err handed => b = a →
    (handed = true ↔ err = 0 ∧ (c.world.asyncs a).nextPhase ≠ phaseExit)
  | outcome,.cancelTarget b => b = a →
    (c.world.asyncs a).child ≠ none ∨ (c.world.asyncs a).handle ≠ .invalid ∧ outcome = .ok
  | _,_ => True

instance (a : Id) (c : Config) (outcome : Outcome) (f : Frame) : Decidable (Proceeds a c outcome f) := by
  unfold Proceeds
  match outcome with
  | .ok | .fails _ | .acts _ =>
    match f with
    | .user .. | .notify .. | .notifyKind .. | .asyncNotify .. | .complete .. | .waitNotify ..
    | .runNextPhase .. | .phaseReturned .. | .errorReturned .. | .release .. | .destroy _ | .unlink ..
    | .link .. | .clear _ | .cancel _ | .cancelEnter _ | .cancelTarget _ | .timeout _ | .enter .. | .unlock _
    | .start .. | .leave .. | .newRef _ | .newArm _ | .wait _ | .operation .. | .acceptEx _ | .connectPhase1 ..
    | .connectAsync _ | .completed .. => infer_instance

def Proceeded (a : Id) (c : Config) : Event → Prop
  | .run thread outcome => ∀ f ∈ c.top thread, Proceeds a c outcome f
  | _ => True

instance (a : Id) (c : Config) (event : Event) : Decidable (Proceeded a c event) := by
  unfold Proceeded
  match event with
  | .run .. | .spawn | .arise .. => infer_instance

def Idle (a : Id) (c : Config) : Prop :=
  (∀ f ∈ c.threads.flatten, f.owner ≠ some a) ∧ (c.world.asyncs a).outstanding = 0

/-- The call ends at most once, with a notify of its parent, and nothing comes after; when all is quiet
it has ended. -/
structure Finishes (a : Id) (c : Config) : Prop where
  terminals : (c.world.asyncs a).trace.terminals ≤ 1
  answers : (c.world.asyncs a).trace.answers ≤ (c.world.asyncs a).trace.terminals
  late : (c.world.asyncs a).trace.late = false
  finished : Idle a c → (c.world.asyncs a).trace.terminals = 1 ∧ (c.world.asyncs a).trace.answers = 1

/-! ## One carrier at a time -/

/-- Operations that set `io_type` before their `xf_async_enter`, or make none. -/
def Io.preset : Io → Bool
  | .send | .accept => true
  | _ => false

namespace Frame

def sends (a : Id) : Frame → Bool
  | enter b (.io io) | start b io => b = a ∧ io.preset
  | acceptEx b | completed b _ => b = a
  | _ => false

/-- The other points that will run a phase. -/
def carries (a : Id) : Frame → Bool
  | notify b _ | notifyKind b _ | runNextPhase b _ | operation _ b | connectPhase1 b _ | connectAsync b
  | leave b (.notify _) | leave b (.connectPhase1 _) => b = a
  | enter b (.io io) | start b io => b = a ∧ io.preset = false
  | user (.procedure b _ e handed) _ _ => b = a ∧ e = 0 ∧ handed = false
  | phaseReturned b _ handed => b = a ∧ handed = false
  | _ => false

def ends (a : Id) : Frame → Bool
  | user (.procedure b _ e _) _ _ => b = a ∧ e ≠ 0
  | errorReturned b _ => b = a
  | _ => false

-- their equations are made here once, and not by each lemma below at its first use
attribute [local simp] sends carries ends

end Frame

inductive Part
  | carrying
  | sending
  | ending
  | entering

def Part.count (a : Id) : Part → Frame → Bool
  | carrying => (·.carries a)
  | sending => (·.sends a)
  | ending => (·.ends a)
  | entering => (· = .enter a .user)

/-- The call has one carrier until it ends, and its end notifies the parent. -/
structure Carried (x : Object) (n : Part → Nat) : Prop where
  carrier : n .carrying + n .sending + x.outstanding + x.trace.terminals = 1
  parent : n .ending + x.trace.answers = x.trace.terminals
  io : 0 < n .sending + x.pending + x.queued → x.ioType ≠ .connectPhase1
  entering : n .entering = 0
  late : x.trace.late = false

/-- A step of the call passes the carrier on, or ends the call in place of it. -/
theorem act_carries {thread : Nat} {a : Id} {x x' : Object} {f : Frame} {outcome : Outcome} {frames : List Frame}
    (subject : f.subject = some a) (step : act thread x f outcome = some (x',frames)) (kind : x.kind = .multiPhase)
    (parent : x.parent ≠ some a) (io : f.sends a → x.ioType ≠ .connectPhase1) (entered : f ≠ .enter a .user)
    (cancels : f = .cancelTarget a → x.child ≠ none ∨ x.handle ≠ .invalid ∧ outcome = .ok)
    (runs : f = .runNextPhase a 0 → x.nextPhase ≠ phaseError)
    (returns : ∀ err handed, f = .phaseReturned a err handed →
      (handed = true ↔ err = 0 ∧ x.nextPhase ≠ phaseExit)) :
    frames.countP (·.carries a) + frames.countP (·.sends a) + x'.outstanding + x'.trace.terminals =
      [f].countP (·.carries a) + [f].countP (·.sends a) + x.outstanding + x.trace.terminals := by
  replace step := act_acts step
  cases step <;> cases subject
  all_goals simp only [List.countP_cons,List.countP_nil]
  all_goals simp_all [Frame.carries,Frame.sends,Object.outstanding,Object.witness,Object.invoke,Object.answer,
    Object.decrement,Object.lock,Object.unlock,Object.prepare,Object.clearTimer]
  all_goals try first | omega | (split <;> simp_all <;> omega)
  -- left is an enter that finds the async cancelled
  next entry _ _ =>
    cases entry with
    | user => exact absurd rfl entered
    | io other => cases other <;> simp [Io.preset]

/-- Each end of the call comes with one answer, then or later. -/
theorem act_answers {thread : Nat} {a : Id} {x x' : Object} {f : Frame} {outcome : Outcome} {frames : List Frame}
    (subject : f.subject = some a) (step : act thread x f outcome = some (x',frames))
    (runs : f = .runNextPhase a 0 → x.nextPhase ≠ phaseError) :
    frames.countP (·.ends a) + x'.trace.answers + x.trace.terminals =
      [f].countP (·.ends a) + x.trace.answers + x'.trace.terminals := by
  replace step := act_acts step
  cases step <;> cases subject
  all_goals simp only [List.countP_cons,List.countP_nil]
  all_goals simp_all [Frame.ends,Object.witness,Object.invoke,Object.answer,Object.decrement,Object.lock,
    Object.unlock,Object.prepare,Object.clearTimer]
  all_goals omega

/-- The procedure is invoked by the carrier. -/
theorem act_late {thread : Nat} {a : Id} {x x' : Object} {f : Frame} {outcome : Outcome} {frames : List Frame}
    (subject : f.subject = some a) (step : act thread x f outcome = some (x',frames)) :
    x'.trace.late = x.trace.late ∨
      f.carries a ∧ x'.trace.late = (x.trace.late || decide (0 < x.trace.terminals)) := by
  replace step := act_acts step
  cases step <;> cases subject
  case runError | runPhase => exact Or.inr ⟨decide_eq_true rfl,rfl⟩
  all_goals exact Or.inl rfl

/-- Only an operation that carries the call sets `io_type` to that of a name lookup. -/
theorem act_io {thread : Nat} {a : Id} {x x' : Object} {f : Frame} {outcome : Outcome} {frames : List Frame}
    (subject : f.subject = some a) (step : act thread x f outcome = some (x',frames)) :
    (x'.ioType = .connectPhase1 → x.ioType = .connectPhase1 ∨ f.carries a) ∧
      (x'.ioType = .connectPhase1 → frames.countP (·.sends a) + x'.pending + x'.queued ≤
        [f].countP (·.sends a) + x.pending + x.queued) := by
  replace step := act_acts step
  cases step <;> cases subject
  all_goals simp only [List.countP_cons,List.countP_nil]
  all_goals simp +contextual [Frame.sends,Frame.carries,Io.preset,Object.witness,Object.invoke,Object.answer,
    Object.decrement,Object.lock,Object.unlock,Object.prepare,Object.clearTimer]
  -- left are the calls that start an overlapped I/O
  · next io other => cases io <;> simp_all
  · next io e other _ => cases io <;> simp_all

namespace Carried
variable {a : Id} {x x' : Object} {n : Part → Nat}

theorem act {thread : Nat} {f : Frame} {outcome : Outcome} {frames : List Frame} (subject : f.subject = some a)
    (step : act thread x f outcome = some (x',frames)) (kind : x.kind = .multiPhase)
    (before : Carried x (counted (Part.count a) n [f])) (parent : x.parent ≠ some a)
    (cancels : f = .cancelTarget a → x.child ≠ none ∨ x.handle ≠ .invalid ∧ outcome = .ok)
    (runs : f = .runNextPhase a 0 → x.nextPhase ≠ phaseError)
    (returns : ∀ err handed, f = .phaseReturned a err handed →
      (handed = true ↔ err = 0 ∧ x.nextPhase ≠ phaseExit)) :
    Carried x' (counted (Part.count a) n frames) := by
  obtain ⟨carrier,ends,io,outside,calm⟩ := before
  simp only [counted,Part.count] at carrier ends io outside
  have sending (sends : f.sends a) : x.ioType ≠ .connectPhase1 := by
    have one : [f].countP (·.sends a) = 1 := by rw [List.countP_singleton,if_pos sends]
    exact io (by omega)
  have entered : f ≠ .enter a .user := by
    rintro rfl
    simp at outside
  have moved := act_carries subject step kind parent sending entered cancels runs returns
  have ended := act_answers subject step runs
  have late := act_late subject step
  obtain ⟨lookup,fewer⟩ := act_io subject step
  have entering := act_outside (a := a) step
  have alone (carries : f.carries a) : n .sending + [f].countP (·.sends a) + x.outstanding + x.trace.terminals = 0 := by
    have one : [f].countP (·.carries a) = 1 := by rw [List.countP_singleton,if_pos carries]
    omega
  refine ⟨?_,?_,?_,?_,?_⟩
  all_goals try simp only [counted,Part.count]
  · omega
  · omega
  · intro some now
    have fewer := fewer now
    rcases lookup now with old | carries
    · exact io (by omega) old
    · have none := alone carries
      simp only [Object.outstanding] at none
      omega
  · omega
  · rcases late with same | ⟨carries,same⟩
    · exact same.trans calm
    · have none := alone carries
      have open' : x.trace.terminals = 0 := by omega
      rw [same,calm,open']
      rfl

theorem arise {cause : Cause} {frames : List Frame} (carried : Carried x n)
    (step : arise a x cause = some (x',frames)) : Carried x' (counted (Part.count a) n frames) := by
  obtain ⟨carrier,parent,io,entering,late⟩ := carried
  simp only [Object.outstanding] at carrier
  replace step := arise_arises step
  cases step
  all_goals
    refine ⟨?_,parent,?_,entering,late⟩
    · simp [counted_cons,counted_nil,Part.count,Object.outstanding,Frame.carries,Frame.sends]
      omega
    · intro some
      apply io
      simp [counted_cons,counted_nil,Part.count,Frame.sends] at some
      omega

/-- An invocation hands its async on. -/
theorem hands {phase : Int} {pc : Nat} {last : Option Id}
    (carried : Carried x (counted (Part.count a) n [.user (.procedure a phase 0 false) pc last])) (op : Operation) :
    Carried x (counted (Part.count a) n
      ([Frame.operation op a] ++ [Frame.user (.procedure a phase 0 true) (pc + 1) last])) := by
  obtain ⟨carrier,parent,io,entering,late⟩ := carried
  simp [counted_cons,counted_nil,Part.count,Frame.carries,Frame.sends,Frame.ends] at carrier parent io entering
  refine ⟨?_,?_,?_,?_,late⟩ <;> simp [counted_cons,counted_nil,Part.count,Frame.carries,Frame.sends,Frame.ends]
  · omega
  · exact parent
  · exact io
  · exact entering

theorem counts (carried : Carried x n) (ref : Int) (held : Nat) :
    Carried {x with ref := ref, trace.held := held} n :=
  ⟨carried.carrier,carried.parent,carried.io,carried.entering,carried.late⟩

end Carried

theorem opens_role {a : Id} {role : Role} (opens : role.opens a = true) :
    ∃ phase, role = .procedure a phase 0 false := by
  cases role with
  | procedure b phase e handed =>
    obtain ⟨rfl,rfl,rfl⟩ := of_decide_eq_true opens
    exact ⟨phase,rfl⟩
  | main | completed _ _ | entered _ => cases opens

/-- Returning from user code keeps the part. -/
theorem finish_counts (a : Id) (i : Part) (err : Error) (role : Role) (pc : Nat) (last : Option Id) :
    (finish err role).countP (Part.count a i) = [Frame.user role pc last].countP (Part.count a i) := by
  cases role with
  | main | completed _ _ | entered _ => cases i <;> rfl
  | procedure b phase e handed =>
    simp only [finish]
    split
    · next failed => cases i <;> simp [Part.count,Frame.carries,Frame.sends,Frame.ends,failed,List.countP_singleton]
    · next passed =>
      have none : e = 0 := by simpa using passed
      cases i <;> simp [Part.count,Frame.carries,Frame.sends,Frame.ends,none,List.countP_singleton]

/-- The frames of a call's parts are about it. -/
theorem part_owner {a : Id} {i : Part} {g : Frame} (counts : Part.count a i g) : g.owner = some a := by
  cases i
  case entering =>
    rw [of_decide_eq_true counts]
    rfl
  case carrying =>
    simp only [Part.count,Frame.carries] at counts
    split at counts <;> simp_all [Frame.owner,Frame.subject]
  case sending =>
    simp only [Part.count,Frame.sends] at counts
    split at counts <;> simp_all [Frame.owner,Frame.subject]
  case ending =>
    simp only [Part.count,Frame.ends] at counts
    split at counts <;> simp_all [Frame.owner,Frame.subject]

theorem carried_tracked (a : Id) : Tracked (Part.count a) a (fun x n => x.kind = .multiPhase → Carried x n) where
  owner := fun i g counts => part_owner counts
  cancel := by
    intro i
    cases i <;> rfl
  link := by
    intro i p b
    cases i <;> rfl
  unlink := by
    intro i p b
    cases i <;> rfl
  resume := by
    intro i role pc last pc' last'
    cases i <;> cases role <;> rfl
  store := by
    intro x phase n carried kind
    have before := carried kind
    exact ⟨before.carrier,before.parent,before.io,before.entering,before.late⟩
  new := by
    rintro kind timed parent _ rfl
    cases timed <;> cases parent <;> constructor <;>
      simp [counted_cons,counted_nil,Part.count,construct,fresh,Object.outstanding,Frame.carries,Frame.sends,Frame.ends]
  waitNew := by
    intro parent child kind
    cases kind

structure Calling (a : Id) (c : Config) : Prop where
  alone : Alone a c
  carried : a < c.world.next → (c.world.asyncs a).kind = .multiPhase →
    Carried (c.world.asyncs a) (c.tallies (Part.count a))

namespace Calling
variable {a : Id} {c c' : Config} {event : Event}

theorem carried_effect (calling : Calling a c) (left : Left a c event) (proceeded : Proceeded a c event)
    (effect : Effect c event c') (made : a < c'.world.next) :
    (c'.world.asyncs a).kind = .multiPhase → Carried (c'.world.asyncs a) (c'.tallies (Part.count a)) := by
  apply (carried_tracked a).effect calling.alone.audited.known (fun _ _ _ => calling.alone) effect _ _ _ _ _
    calling.carried made
  · rintro thread f outcome x frames n known top rfl subject step before kind
    rw [(act_fixed step).2] at kind
    have carried := calling.carried known kind
    rw [before] at carried
    have proceeds := proceeded f top
    apply carried.act subject step kind
    · intro parent
      exact calling.alone.childless a known parent kind
    · rintro rfl
      cases outcome <;> exact proceeds rfl
    · rintro rfl
      cases outcome <;> exact proceeds rfl rfl
    · rintro err handed rfl
      cases outcome <;> exact proceeds rfl
  · rintro thread role pc last call x frames n known top rfl step before kind
    rw [(request_mentions step).2.2.2] at kind
    have carried := calling.carried known kind
    rw [before] at carried
    have quiet {frames : List Frame} (apart : ∀ i, frames.countP (Part.count a i) = 0)
        (same : role.after a call = role) :
        counted (Part.count a) n (frames ++ [Frame.user (role.after a call) (pc + 1) last]) =
          counted (Part.count a) n [.user role pc last] := by
      funext i
      rw [counted,counted,List.countP_append,apart,same,List.countP_singleton,List.countP_singleton,
        (carried_tracked a).resume i role (pc + 1) last pc last,Nat.zero_add]
    cases call with
    | notify e => exact absurd rfl left
    | enter => exact absurd rfl left
    | operation op =>
      cases step
      obtain ⟨phase,rfl⟩ := opens_role (proceeded _ top rfl)
      have after : Role.after a (.operation op) (.procedure a phase 0 false) = .procedure a phase 0 true := by
        simp [Role.after]
      rw [after]
      exact carried.hands op
    | cancel | wait =>
      cases step
      rw [quiet (fun i => by cases i <;> rfl) (by cases role <;> rfl)]
      exact carried
    | addRef =>
      cases step
      rw [quiet (fun i => by cases i <;> rfl) (by cases role <;> rfl)]
      exact carried.counts _ _
    | release =>
      cases request_requests step
      rw [quiet (fun i => by cases i <;> rfl) (by cases role <;> rfl)]
      exact carried.counts _ _
  · intro thread role pc last err n known top _ before kind
    have carried := calling.carried known kind
    have same : counted (Part.count a) n (finish err role) = counted (Part.count a) n [.user role pc last] := by
      funext i
      rw [counted,counted,finish_counts]
    rw [same,← before]
    exact carried
  · intro cause x frames known _ step kind
    rw [(arise_mentions step).2.2.2] at kind
    exact (calling.carried known kind).arise step
  · rintro thread role pc last timed parent top rfl new kind
    cases proceeded _ top new

theorem effect (calling : Calling a c) (left : Left a c event) (proceeded : Proceeded a c event)
    (effect : Effect c event c') : Calling a c' where
  alone := calling.alone.effect effect (fun _ _ _ same => by subst same; exact left rfl)
  carried := carried_effect calling left proceeded effect

theorem finishes (calling : Calling a c) (made : a < c.world.next) (kind : (c.world.asyncs a).kind = .multiPhase) :
    Finishes a c := by
  have carried := calling.carried made kind
  have carrier := carried.carrier
  have parent := carried.parent
  refine ⟨by omega,by omega,carried.late,?_⟩
  intro idle
  obtain ⟨apart,outstanding⟩ := idle
  have none (i : Part) : c.tallies (Part.count a) i = 0 :=
    tally_none (fun g member counts => apart g member (part_owner counts))
  rw [none,none,outstanding] at carrier
  rw [none] at parent
  omega

end Calling

/-- In the runs in which each invocation goes on or ends, and no cancel notifies the call itself, the
procedure reaches its end once and the parent is told once. -/
theorem reachable_finishes {a : Id} {c : Config}
    (run : Reachable (fun c event => Left a c event ∧ Proceeded a c event) c) (made : a < c.world.next)
    (kind : (c.world.asyncs a).kind = .multiPhase) : Finishes a c := by
  have calling : Calling a c := by
    refine run_invariant ?_ run ⟨⟨⟨start_known,fun b made => absurd made (Nat.not_lt_zero b)⟩,
      fun b made => absurd made (Nat.not_lt_zero b)⟩,fun made => absurd made (Nat.not_lt_zero a)⟩
    intro c c' calling step
    obtain ⟨event,⟨left,proceeded⟩,step⟩ := step
    exact calling.effect left proceeded (step_effect step)
  exact calling.finishes made kind

def firstPhase : List Event :=
  [.spawn,.run 0 (.acts (.new .async false none true)),.run 0 (.acts (.new .multiPhase false (some 0) true)),
    .run 0 .ok,.run 0 .ok,.run 0 (.acts (.call 1 (.operation .receive))),.run 0 .ok,.run 0 .ok,.run 0 .ok,
    .run 0 .ok,.run 0 .ok,.run 0 (.acts (.store 1)),.run 0 (.acts (.finish 0)),.run 0 .ok]

def lastPhase : List Event :=
  [.arise 1 .complete,.arise 1 (.dispatch 0),.run 2 .ok,.run 2 .ok,.run 2 .ok,.run 2 .ok,
    .run 2 (.acts (.store phaseExit)),.run 2 (.acts (.finish 0)),.run 2 .ok]

theorem reachable_finishes_phases : ∃ c, Reachable (fun c event => Left 1 c event ∧ Proceeded 1 c event) c ∧
    (c.world.asyncs 1).trace.answers = 1 ∧ Finishes 1 c := by
  obtain ⟨c,run,holds⟩ : ∃ c, Reachable (fun c event => Left 1 c event ∧ Proceeded 1 c event) c ∧
      decide (1 < c.world.next ∧ (c.world.asyncs 1).kind = .multiPhase ∧
        (c.world.asyncs 1).trace.answers = 1) = true :=
    replay_reachable (firstPhase ++ lastPhase) (by decide)
  obtain ⟨made,kind,answers⟩ := of_decide_eq_true holds
  exact ⟨c,run,answers,reachable_finishes run made kind⟩

/-- Two cancels, the first by `CancelIoEx` and the second by a notify, and the packet of the cancelled
receive before the error invocation has returned. -/
def cancelledTwice : List Event :=
  [.run 0 (.acts (.call 1 .cancel)),.run 0 .ok,.run 0 .ok,.run 0 .ok,.run 0 .ok,
    .run 0 (.acts (.call 1 .cancel)),.run 0 .ok,.run 0 .ok,.run 0 .ok,.run 0 .ok,.run 0 .ok,.run 0 .ok,.run 0 .ok,
    .arise 1 .complete,.arise 1 (.dispatch 995),.run 2 .ok,.run 2 .ok,.run 2 .ok,.run 2 .ok]

theorem call_ended_twice : ∃ c, Reachable (Left 1) c ∧ (c.world.asyncs 1).kind = .multiPhase ∧ ¬ Finishes 1 c := by
  obtain ⟨c,run,holds⟩ : ∃ c, Reachable (Left 1) c ∧ decide ((c.world.asyncs 1).kind = .multiPhase ∧
      (c.world.asyncs 1).trace.terminals = 2 ∧ (c.world.asyncs 1).trace.late = true) = true :=
    replay_reachable (firstPhase ++ cancelledTwice) (by decide)
  obtain ⟨kind,terminals,-⟩ := of_decide_eq_true holds
  refine ⟨c,run,kind,?_⟩
  intro finishes
  have once := finishes.terminals
  omega

/-- A call whose `malloc` fails returns without a notify of its parent. -/
theorem setup_unanswered : ∃ c, Reachable (Left 1) c ∧ Idle 1 c ∧ (c.world.asyncs 1).trace.answers = 0 := by
  obtain ⟨c,run,holds⟩ : ∃ c, Reachable (Left 1) c ∧ decide ((∀ f ∈ c.threads.flatten, f.owner ≠ some 1) ∧
      (c.world.asyncs 1).outstanding = 0 ∧ (c.world.asyncs 1).trace.answers = 0) = true :=
    replay_reachable [.spawn,.run 0 (.acts (.new .async false none true)),
      .run 0 (.acts (.new .multiPhase false (some 0) false))] (by decide)
  obtain ⟨quiet,outstanding,answers⟩ := of_decide_eq_true holds
  exact ⟨c,run,⟨quiet,outstanding⟩,answers⟩

end Xrossfire.Async
