import Xrossfire.Async.Accounting
import Xrossfire.Async.Monitor
import Xrossfire.Async.Tally

/-! Whether an async that is handed to TCP operations is notified only when the
system is done with it. `io_async.handle` says that something can be cancelled;
`_cancel` notifies when it says no, or when `CancelIoEx` finds nothing. -/
namespace Xrossfire.Async
open Library

namespace Frame

def operates (a : Id) : Frame → Bool
  | operation _ b | enter b (.io _) | start b _ | leave b (.notify _) | leave b (.connectPhase1 _) | acceptEx b
  | connectPhase1 b _ | connectAsync b | completed b _ => b = a
  | _ => false

def notifies (a : Id) : Frame → Bool
  | notify b _ | notifyKind b _ | asyncNotify b _ | complete b _ => b = a
  | _ => false

end Frame

namespace Config

def operating (c : Config) (a : Id) : Nat := tally (·.operates a) c.threads + (c.world.asyncs a).outstanding

def notifying (c : Config) (a : Id) : Nat := tally (·.notifies a) c.threads

end Config

def Handing (a : Id) (c : Config) : Action → Prop
  | .call b (.operation _) => b = a →
    c.operating a = 0 ∧ (c.notifying a = 0 ∨ (c.world.asyncs a).canceled = true)
  | .call b (.notify _) | .call b .enter => b ≠ a
  | .new .multiPhase _ (some p) _ => p ≠ a
  | _ => True

instance (a : Id) (c : Config) (action : Action) : Decidable (Handing a c action) := by
  unfold Handing
  match action with
  | .call _ (.notify _) | .call _ .cancel | .call _ .enter | .call _ .addRef | .call _ .release
  | .call _ (.operation _) | .call _ .wait | .new .multiPhase _ (some _) _ | .new .multiPhase _ none _
  | .new .async .. | .new .wait .. | .waitNew .. | .store _ | .finish _ => infer_instance

/-- User code hands `a` to one operation at a time and else cancels it, waits for it or counts references. -/
def Handed (a : Id) (c : Config) : Event → Prop
  | .run _ (.acts action) => Handing a c action
  | _ => True

instance (a : Id) (c : Config) (event : Event) : Decidable (Handed a c event) := by
  unfold Handed
  match event with
  | .run _ .ok | .run _ (.fails _) | .run _ (.acts _) | .spawn | .arise .. => infer_instance

/-- `_cancel` does not notify `a` itself while something is outstanding, and `AcceptEx`, which no
`xf_async_enter` guards, does not come after a cancel's notify. -/
def Defers (a : Id) (c : Config) (outcome : Outcome) : Frame → Prop
  | .cancelTarget b => b = a → 0 < (c.world.asyncs a).outstanding →
    (c.world.asyncs a).child ≠ none ∨ (c.world.asyncs a).handle ≠ .invalid ∧ outcome = .ok
  | .acceptEx b => b = a → outcome = .ok → c.notifying a = 0
  | _ => True

instance (a : Id) (c : Config) (outcome : Outcome) (f : Frame) : Decidable (Defers a c outcome f) := by
  unfold Defers
  match f with
  | .user .. | .notify .. | .notifyKind .. | .asyncNotify .. | .complete .. | .waitNotify .. | .runNextPhase ..
  | .phaseReturned .. | .errorReturned .. | .release .. | .destroy _ | .unlink .. | .link .. | .clear _
  | .cancel _ | .cancelEnter _ | .cancelTarget _ | .timeout _ | .enter .. | .unlock _ | .start .. | .leave ..
  | .newRef _ | .newArm _ | .wait _ | .operation .. | .acceptEx _ | .connectPhase1 .. | .connectAsync _
  | .completed .. => infer_instance

def Deferred (a : Id) (c : Config) : Event → Prop
  | .run thread outcome => ∀ f ∈ c.top thread, Defers a c outcome f
  | _ => True

instance (a : Id) (c : Config) (event : Event) : Decidable (Deferred a c event) := by
  unfold Deferred
  match event with
  | .run .. | .spawn | .arise .. => infer_instance

/-- No notify is under way while something is outstanding, and none has been. -/
structure Settled (a : Id) (c : Config) : Prop where
  notified : 0 < c.notifying a → (c.world.asyncs a).outstanding = 0
  early : (c.world.asyncs a).trace.early = false

/-! ## One operation at a time -/

inductive Stage
  | operating
  | notifying
  | entering
  | starting
  | targeting

def Stage.count (a : Id) : Stage → Frame → Bool
  | operating => (·.operates a)
  | notifying => (·.notifies a)
  | entering => (· = .enter a .user)
  | starting => (·.starts a)
  | targeting => (· = .cancelTarget a)

/-- An async is in one operation at most; while it is not cancelled only that operation notifies it. -/
structure Orderly (x : Object) (n : Stage → Nat) : Prop where
  one : n .operating + x.outstanding ≤ 1
  done : 0 < n .notifying → x.outstanding = 0
  last : 0 < n .notifying → x.canceled = false → n .operating = 0
  entering : n .entering = 0
  starting : 0 < n .starting → x.canceled = false
  targeting : 0 < n .targeting → x.canceled = true
  early : x.trace.early = false

/-- An own step moves an operation on or ends it; what it starts, it starts in place of it. -/
theorem act_operates {thread : Nat} {a : Id} {x x' : Object} {f : Frame} {outcome : Outcome} {frames : List Frame}
    (subject : f.subject = some a) (step : act thread x f outcome = some (x',frames)) :
    frames.countP (·.operates a) + x'.outstanding ≤ [f].countP (·.operates a) + x.outstanding ∧
      x.outstanding ≤ x'.outstanding ∧
      (x.outstanding < x'.outstanding → f.starts a ∨ f = .acceptEx a ∧ outcome = .ok) := by
  replace step := act_acts step
  cases step <;> cases subject
  all_goals simp only [List.countP_cons,List.countP_nil]
  all_goals simp [Frame.operates,Frame.starts,Object.outstanding,Object.witness,Object.invoke,Object.answer,
    Object.decrement,Object.lock,Object.unlock,Object.prepare,Object.clearTimer]
  all_goals omega

/-- Who notifies: an operation that ends, an enter that finds the async cancelled, and `_cancel`. -/
theorem act_notifies {thread : Nat} {a : Id} {x x' : Object} {f : Frame} {outcome : Outcome} {frames : List Frame}
    (subject : f.subject = some a) (step : act thread x f outcome = some (x',frames))
    (parent : f.kind = some (a,.multiPhase) → x.parent ≠ some a) :
    frames.countP (·.notifies a) ≤ [f].countP (·.notifies a) ∨
      frames.countP (·.notifies a) = 1 ∧ frames.countP (·.operates a) = 0 ∧ x'.outstanding = x.outstanding ∧
        (f.operates a ∨ f = .enter a .user ∨
          f = .cancelTarget a ∧ x.child = none ∧ ¬ (x.handle ≠ .invalid ∧ outcome = .ok)) := by
  replace step := act_acts step
  cases step <;> cases subject
  all_goals simp only [List.countP_cons,List.countP_nil]
  all_goals simp_all [Frame.operates,Frame.notifies,Frame.kind,Object.outstanding,Object.witness,Object.invoke,
    Object.answer,Object.decrement,Object.lock,Object.unlock,Object.prepare,Object.clearTimer]
  -- left is an enter that finds the async cancelled
  next entry _ _ => cases entry <;> simp

/-- Who cancels, who goes on after finding the async not cancelled, and what is recorded. -/
theorem act_cancels {thread : Nat} {a : Id} {x x' : Object} {f : Frame} {outcome : Outcome} {frames : List Frame}
    (subject : f.subject = some a) (step : act thread x f outcome = some (x',frames)) :
    (x'.canceled = x.canceled ∨ f = .cancelEnter a ∧ x.available thread ∧ x'.canceled = true) ∧
      (0 < frames.countP (·.starts a) → x'.canceled = false) ∧
      (0 < frames.countP (· = .cancelTarget a) → x'.canceled = true) ∧
      (x'.trace.early = x.trace.early ∨
        f.notifies a ∧ x'.trace.early = (x.trace.early || decide (0 < x.outstanding))) := by
  replace step := act_acts step
  cases step <;> cases subject
  all_goals simp only [List.countP_cons,List.countP_nil]
  all_goals simp_all [Frame.starts,Frame.notifies,Object.witness,Object.invoke,
    Object.answer,Object.decrement,Object.lock,Object.unlock,Object.prepare,Object.clearTimer]

namespace Orderly
variable {thread : Nat} {a : Id} {x x' : Object} {f : Frame} {outcome : Outcome} {frames : List Frame}
  {n : Stage → Nat}

theorem point {p : Frame → Bool} (holds : p f) : [f].countP p = 1 := by
  rw [List.countP_singleton,if_pos holds]

theorem entered (before : Orderly x (counted (Stage.count a) n [f])) : f ≠ .enter a .user := by
  rintro rfl
  have none := before.entering
  simp [counted_cons,counted_nil,Stage.count] at none

/-- With an operation at the step's own point nothing is outstanding and no other is under way. -/
theorem alone (before : Orderly x (counted (Stage.count a) n [f])) (operates : f.operates a) :
    n .operating = 0 ∧ x.outstanding = 0 := by
  have one : n .operating + [f].countP (·.operates a) + x.outstanding ≤ 1 := before.one
  rw [point operates] at one
  omega

/-- What starts an I/O finds no notify under way. -/
theorem unnotified (before : Orderly x (counted (Stage.count a) n [f]))
    (accepts : f = .acceptEx a → outcome = .ok → n .notifying = 0)
    (starts : f.starts a ∨ f = .acceptEx a ∧ outcome = .ok) :
    f.operates a ∧ n .notifying + [f].countP (·.notifies a) = 0 := by
  rcases starts with start | ⟨rfl,rfl⟩
  · have operates : f.operates a := by
      cases f <;> simp_all [Frame.starts,Frame.operates]
    refine ⟨operates,?_⟩
    by_contra some
    have running : x.canceled = false := before.starting (by
      change 0 < n .starting + [f].countP (·.starts a)
      rw [point start]
      exact Nat.succ_pos _)
    have idle : n .operating + [f].countP (·.operates a) = 0 := before.last (Nat.pos_of_ne_zero some) running
    rw [point operates] at idle
    cases idle
  · exact ⟨decide_eq_true rfl,accepts rfl rfl⟩

theorem act_done (before : Orderly x (counted (Stage.count a) n [f])) (subject : f.subject = some a)
    (step : act thread x f outcome = some (x',frames)) (parent : f.kind = some (a,.multiPhase) → x.parent ≠ some a)
    (defers : f = .cancelTarget a → 0 < x.outstanding → x.child ≠ none ∨ x.handle ≠ .invalid ∧ outcome = .ok)
    (accepts : f = .acceptEx a → outcome = .ok → n .notifying = 0)
    (some : 0 < n .notifying + frames.countP (·.notifies a)) : x'.outstanding = 0 := by
  obtain ⟨-,grows,starts⟩ := act_operates subject step
  rcases act_notifies subject step parent with fewer | ⟨-,-,same,operates | rfl | ⟨rfl,child,handle⟩⟩
  · have none : x.outstanding = 0 := before.done (Nat.lt_of_lt_of_le some (Nat.add_le_add_left fewer _))
    rcases Nat.eq_or_lt_of_le grows with same | more
    · exact same.symm.trans none
    · obtain ⟨-,quiet⟩ := before.unnotified accepts (starts more)
      omega
  · exact same.trans (before.alone operates).2
  · exact absurd rfl before.entered
  · rw [same]
    by_contra more
    rcases defers rfl (Nat.pos_of_ne_zero more) with below | cancelled
    · exact below child
    · exact handle cancelled

theorem act_last (before : Orderly x (counted (Stage.count a) n [f])) (subject : f.subject = some a)
    (step : act thread x f outcome = some (x',frames)) (parent : f.kind = some (a,.multiPhase) → x.parent ≠ some a)
    (some : 0 < n .notifying + frames.countP (·.notifies a)) (now : x.canceled = false) :
    n .operating + frames.countP (·.operates a) = 0 := by
  obtain ⟨moves,-,-⟩ := act_operates subject step
  rcases act_notifies subject step parent with fewer | ⟨-,ended,-,operates | rfl | ⟨rfl,-,-⟩⟩
  · have before' : 0 < n .notifying + [f].countP (·.notifies a) :=
      Nat.lt_of_lt_of_le some (Nat.add_le_add_left fewer _)
    have none : x.outstanding = 0 := before.done before'
    have idle : n .operating + [f].countP (·.operates a) = 0 := before.last before' now
    omega
  · rw [ended,(before.alone operates).1]
  · exact absurd rfl before.entered
  · have cancelled : x.canceled = true := before.targeting (by simp [counted_cons,counted_nil,Stage.count])
    rw [now] at cancelled
    cases cancelled

theorem act_starting (before : Orderly x (counted (Stage.count a) n [f])) (subject : f.subject = some a)
    (step : act thread x f outcome = some (x',frames))
    (locked : f = .cancelEnter a → x.available thread → n .starting = 0)
    (some : 0 < n .starting + frames.countP (·.starts a)) : x'.canceled = false := by
  obtain ⟨canceled,starting,-,-⟩ := act_cancels subject step
  rcases Nat.eq_zero_or_pos (frames.countP (·.starts a)) with none | pushed
  · rw [none,Nat.add_zero] at some
    rcases canceled with same | ⟨rfl,available,-⟩
    · rw [same]
      exact before.starting (Nat.lt_of_lt_of_le some (Nat.le_add_right _ _))
    · exact absurd (locked rfl available) (Nat.ne_of_gt some)
  · exact starting pushed

theorem act_targeting (before : Orderly x (counted (Stage.count a) n [f])) (subject : f.subject = some a)
    (step : act thread x f outcome = some (x',frames))
    (some : 0 < n .targeting + frames.countP (· = .cancelTarget a)) : x'.canceled = true := by
  obtain ⟨canceled,-,targeting,-⟩ := act_cancels subject step
  rcases canceled with same | ⟨-,-,now⟩
  · rcases Nat.eq_zero_or_pos (frames.countP (· = .cancelTarget a)) with none | pushed
    · rw [none,Nat.add_zero] at some
      rw [same]
      exact before.targeting (Nat.lt_of_lt_of_le some (Nat.le_add_right _ _))
    · exact targeting pushed
  · exact now

theorem act_early (before : Orderly x (counted (Stage.count a) n [f])) (subject : f.subject = some a)
    (step : act thread x f outcome = some (x',frames)) : x'.trace.early = false := by
  obtain ⟨-,-,-,early⟩ := act_cancels subject step
  rcases early with same | ⟨here,same⟩
  · exact same.trans before.early
  · have none : x.outstanding = 0 := before.done (by
      change 0 < n .notifying + [f].countP (·.notifies a)
      rw [point here]
      exact Nat.succ_pos _)
    rw [same,before.early,none]
    rfl

theorem act (before : Orderly x (counted (Stage.count a) n [f])) (subject : f.subject = some a)
    (step : act thread x f outcome = some (x',frames))
    (locked : f = .cancelEnter a → x.available thread → n .starting = 0)
    (defers : f = .cancelTarget a → 0 < x.outstanding → x.child ≠ none ∨ x.handle ≠ .invalid ∧ outcome = .ok)
    (accepts : f = .acceptEx a → outcome = .ok → n .notifying = 0)
    (parent : f.kind = some (a,.multiPhase) → x.parent ≠ some a) :
    Orderly x' (counted (Stage.count a) n frames) where
  one := by
    have one : n .operating + [f].countP (·.operates a) + x.outstanding ≤ 1 := before.one
    have moves := (act_operates subject step).1
    change n .operating + frames.countP (·.operates a) + x'.outstanding ≤ 1
    omega
  done := before.act_done subject step parent defers accepts
  last := by
    intro some now
    apply before.act_last subject step parent some
    rcases (act_cancels subject step).1 with same | ⟨-,-,now'⟩
    · exact same.symm.trans now
    · rw [now] at now'
      cases now'
  entering := by
    have none : n .entering + [f].countP (· = .enter a .user) = 0 := before.entering
    change n .entering + frames.countP (· = .enter a .user) = 0
    rw [act_outside step,(Nat.add_eq_zero_iff.mp none).1]
  starting := before.act_starting subject step locked
  targeting := before.act_targeting subject step
  early := before.act_early subject step

end Orderly

theorem Orderly.fewer {x : Object} {n n' : Stage → Nat} (orderly : Orderly x n) (le : ∀ i, n' i ≤ n i) :
    Orderly x n' := by
  have operating := le .operating
  have notifying := le .notifying
  have entering := le .entering
  have starting := le .starting
  have targeting := le .targeting
  refine ⟨?_,?_,?_,?_,?_,?_,orderly.early⟩
  · have := orderly.one
    omega
  · exact fun some => orderly.done (by omega)
  · intro some now
    have := orderly.last (by omega) now
    omega
  · have := orderly.entering
    omega
  · exact fun some => orderly.starting (by omega)
  · exact fun some => orderly.targeting (by omega)

theorem Orderly.arise {a : Id} {x x' : Object} {cause : Cause} {frames : List Frame} {n : Stage → Nat}
    (orderly : Orderly x n) (step : arise a x cause = some (x',frames)) :
    Orderly x' (counted (Stage.count a) n frames) := by
  obtain ⟨one,done,last,entering,starting,targeting,early⟩ := orderly
  simp only [Object.outstanding] at one done
  replace step := arise_arises step
  cases step
  all_goals
    refine ⟨?_,?_,?_,entering,starting,targeting,early⟩
    all_goals simp [counted_cons,counted_nil,Stage.count,Object.outstanding,Frame.operates,Frame.notifies]
    all_goals omega

theorem Orderly.counts {x : Object} {n : Stage → Nat} (orderly : Orderly x n) (ref : Int) (held : Nat) :
    Orderly {x with ref := ref, trace.held := held} n :=
  ⟨orderly.one,orderly.done,orderly.last,orderly.entering,orderly.starting,orderly.targeting,orderly.early⟩

theorem Orderly.hands {a : Id} {x : Object} {n : Stage → Nat} (orderly : Orderly x n)
    (idle : n .operating + x.outstanding = 0) (free : n .notifying = 0 ∨ x.canceled = true) (op : Operation)
    (role : Role) (pc : Nat) (last : Option Id) :
    Orderly x (counted (Stage.count a) n [.operation op a,.user role pc last]) := by
  obtain ⟨one,done,last,entering,starting,targeting,early⟩ := orderly
  refine ⟨?_,done,?_,entering,starting,targeting,early⟩
  · simp [counted_cons,counted_nil,Stage.count,Frame.operates]
    omega
  · intro some now
    rcases free with none | canceled
    · exact absurd none (Nat.ne_of_gt some)
    · rw [now] at canceled
      cases canceled

theorem orderly_tracked (a : Id) : Tracked (Stage.count a) a Orderly where
  owner := by
    intro i g counts
    cases i
    case operating =>
      simp only [Stage.count,Frame.operates] at counts
      split at counts <;> simp_all [Frame.owner,Frame.subject]
    case notifying =>
      simp only [Stage.count,Frame.notifies] at counts
      split at counts <;> simp_all [Frame.owner,Frame.subject]
    case starting => exact Frame.holds_owner (Frame.starts_holds counts)
    all_goals
      rw [of_decide_eq_true counts]
      rfl
  cancel := by
    intro i
    cases i <;> rfl
  link := by
    intro i p b
    cases i <;> rfl
  unlink := by
    intro i p b
    cases i <;> rfl
  resume := by
    intro i role pc last pc' last'
    cases i <;> rfl
  store := fun x phase n o => ⟨o.one,o.done,o.last,o.entering,o.starting,o.targeting,o.early⟩
  new := by
    intro kind timed parent _
    cases kind <;> cases timed <;> cases parent <;> constructor <;>
      simp [counted_cons,counted_nil,Stage.count,construct,fresh,
        Object.outstanding,Frame.operates,Frame.notifies,Frame.starts]
  waitNew := by
    intro parent child
    constructor <;>
      simp [counted_cons,counted_nil,Stage.count,construct,freshWait,fresh,
        Object.outstanding,Frame.operates,Frame.notifies,Frame.starts]

structure Used (a : Id) (c : Config) : Prop where
  alone : Alone a c
  monitored : a < c.world.next → Monitored a c
  orderly : a < c.world.next → Orderly (c.world.asyncs a) (c.tallies (Stage.count a))

namespace Used
variable {a : Id} {c c' : Config} {event : Event}

theorem orderly_effect (used : Used a c) (handed : Handed a c event) (deferred : Deferred a c event)
    (effect : Effect c event c') (made : a < c'.world.next) :
    Orderly (c'.world.asyncs a) (c'.tallies (Stage.count a)) := by
  apply (orderly_tracked a).effect used.alone.audited.known (fun _ _ _ => used.alone) effect _ _ _ _ _ used.orderly made
  · rintro thread f outcome x frames n known top rfl subject step before
    have orderly := used.orderly known
    rw [before] at orderly
    apply orderly.act subject step
    · rintro rfl available
      have nobody := (used.monitored known).exclusive top available (by simp [Frame.starts])
      have none : c.tallies (Stage.count a) .starting = 0 := tally_none nobody
      rw [before,counted] at none
      omega
    · rintro rfl
      exact deferred _ top rfl
    · rintro rfl rfl
      have quiet : c.tallies (Stage.count a) .notifying = 0 := deferred _ top rfl rfl
      rw [before,counted] at quiet
      omega
    · intro kind
      exact used.alone.parent top subject (by rw [kind]; rfl)
  · rintro thread role pc last call x frames n known top rfl step before
    have orderly := used.orderly known
    have same : c.tallies (Stage.count a) = n := by
      rw [before]
      funext i
      cases i <;> rfl
    have quiet {frames : List Frame} (apart : ∀ i, frames.countP (Stage.count a i) = 0) :
        counted (Stage.count a) n (frames ++ [.user (role.after a call) (pc + 1) last]) = n := by
      funext i
      rw [counted,List.countP_append,apart]
      cases i <;> rfl
    cases call with
    | notify e => exact absurd rfl handed
    | enter => exact absurd rfl handed
    | operation op =>
      cases step
      obtain ⟨idle,free⟩ := handed rfl
      change c.tallies (Stage.count a) .operating + _ = 0 at idle
      change c.tallies (Stage.count a) .notifying = 0 ∨ _ at free
      rw [same] at orderly idle free
      exact orderly.hands idle free op _ _ _
    | cancel | wait =>
      cases step
      rw [quiet (fun i => by cases i <;> rfl),← same]
      exact orderly
    | addRef =>
      cases step
      rw [quiet (fun i => by cases i <;> rfl),← same]
      exact orderly.counts _ _
    | release =>
      cases request_requests step
      rw [quiet (fun i => by cases i <;> rfl),← same]
      exact orderly.counts _ _
  · intro thread role pc last err n known top _ before
    have orderly := used.orderly known
    rw [before] at orderly
    refine orderly.fewer (fun i => ?_)
    have none : (finish err role).countP (Stage.count a i) = 0 := by
      apply List.countP_eq_zero.mpr
      intro g member
      cases finish_mem member <;> cases i <;> simp [Stage.count,Frame.operates,Frame.notifies,Frame.starts]
    rw [counted,none]
    exact Nat.le_add_right _ _
  · intro cause x frames known _ step
    exact (used.orderly known).arise step
  · intro thread role pc last timed parent _ _ _
    constructor <;> simp [Async.unmade,fresh,Object.outstanding]

theorem effect (used : Used a c) (handed : Handed a c event) (deferred : Deferred a c event)
    (effect : Effect c event c') : Used a c' where
  alone := used.alone.effect effect (fun _ _ _ same => by subst same; exact handed rfl)
  monitored := Monitored.effect used.alone.audited.known effect used.monitored
  orderly := orderly_effect used handed deferred effect

theorem settled (used : Used a c) (made : a < c.world.next) : Settled a c :=
  ⟨(used.orderly made).done,(used.orderly made).early⟩

end Used

theorem reachable_used {a : Id} {c : Config}
    (run : Reachable (fun c event => Handed a c event ∧ Deferred a c event) c) : Used a c := by
  have nothing {p : Prop} (made : a < Config.start.world.next) : p := absurd made (Nat.not_lt_zero a)
  refine run_invariant ?_ run ⟨⟨⟨start_known,fun b made => absurd made (Nat.not_lt_zero b)⟩,
    fun b made => absurd made (Nat.not_lt_zero b)⟩,fun made => nothing made,fun made => nothing made⟩
  intro c c' used step
  obtain ⟨event,⟨handed,deferred⟩,step⟩ := step
  exact used.effect handed deferred (step_effect step)

/-- An async is notified only when nothing is outstanding, in the runs in which `_cancel` and `AcceptEx`
leave an operation its notify. -/
theorem reachable_settled {a : Id} {c : Config}
    (run : Reachable (fun c event => Handed a c event ∧ Deferred a c event) c) (made : a < c.world.next) :
    Settled a c :=
  (reachable_used run).settled made

/-- A receive is cancelled: `CancelIoEx` succeeds and the packet that follows notifies. -/
def cancelledReceive : List Event :=
  [.spawn,.run 0 (.acts (.new .async false none true)),.run 0 (.acts (.call 0 (.operation .receive))),
    .run 0 .ok,.run 0 .ok,.run 0 .ok,.run 0 .ok,.run 0 .ok,.spawn,.run 1 (.acts (.call 0 .cancel)),.run 1 .ok,
    .run 1 .ok,.run 1 .ok,.run 1 .ok,.arise 0 .complete,.arise 0 (.dispatch 995),.run 3 .ok,.run 3 .ok,.run 3 .ok,
    .run 3 .ok,.run 3 .ok]

theorem reachable_settled_receive : ∃ c, Reachable (fun c event => Handed 0 c event ∧ Deferred 0 c event) c ∧
    (c.world.asyncs 0).canceled = true ∧ (c.world.asyncs 0).trace.callbacks = [995] ∧ Settled 0 c := by
  obtain ⟨c,run,holds⟩ : ∃ c, Reachable (fun c event => Handed 0 c event ∧ Deferred 0 c event) c ∧
      decide (0 < c.world.next ∧ (c.world.asyncs 0).canceled = true ∧
        (c.world.asyncs 0).trace.callbacks = [995]) = true :=
    replay_reachable cancelledReceive (by decide)
  obtain ⟨made,canceled,callbacks⟩ := of_decide_eq_true holds
  exact ⟨c,run,canceled,callbacks,reachable_settled run made⟩

/-- A close is cancelled: `DisconnectEx` is pending, but `__xf_socket_close` never sets `io_async.handle`. -/
def cancelledClose : List Event :=
  [.spawn,.run 0 (.acts (.new .async false none true)),.run 0 (.acts (.call 0 (.operation .close))),
    .run 0 .ok,.run 0 .ok,.run 0 .ok,.run 0 .ok,.run 0 .ok,.spawn,.run 1 (.acts (.call 0 .cancel)),.run 1 .ok,
    .run 1 .ok,.run 1 .ok,.run 1 .ok,.run 1 .ok]

theorem close_notified_early : ∃ c, Reachable (Handed 0) c ∧ ¬ Settled 0 c := by
  obtain ⟨c,run,holds⟩ : ∃ c, Reachable (Handed 0) c ∧ decide (0 < c.world.next ∧
      (c.world.asyncs 0).pending = 1 ∧ (c.world.asyncs 0).trace.early = true) = true :=
    replay_reachable cancelledClose (by decide)
  obtain ⟨-,-,early⟩ := of_decide_eq_true holds
  refine ⟨c,run,?_⟩
  intro settled
  rw [settled.early] at early
  cases early

end Xrossfire.Async
