import Xrossfire.Async.Lifetime
import Xrossfire.Async.Tally

/-! Whether an async outlives the start of the operation it is handed to. Its
creator keeps no reference; the one it is made with goes with its notify, which
the timer's cancel sends as well. -/
namespace Xrossfire.Async
open Library Relation

/-- `XF_ERROR`, what `xf_error_windows` makes of every error. -/
def errorWindows : Error := 1

namespace Frame

def prepares (a : Id) : Frame → Bool
  | operation _ b | enter b (.io _) | start b _ | leave b (.notify _) | leave b (.connectPhase1 _) | acceptEx b
  | connectPhase1 b _ | connectAsync b => b = a
  | notify b e | notifyKind b e | asyncNotify b e => b = a ∧ e ≠ errorCancel
  | _ => false

/-- The points of `_cancel` and of an `xf_async_enter` that finds the async cancelled. -/
def cancels (a : Id) : Frame → Bool
  | cancelEnter b | cancelTarget b | unlock b => b = a
  | notify b e | notifyKind b e | asyncNotify b e => b = a ∧ e = errorCancel
  | _ => false

def expires (a : Id) : Frame → Bool
  | timeout b | release b .timer => b = a
  | _ => false

def arrives (a : Id) : Frame → Bool
  | completed b _ => b = a
  | _ => false

def mistakes (a : Id) : Frame → Bool
  | leave b (.notify e) | leave b (.connectPhase1 e) | connectPhase1 b e => b = a ∧ e = errorCancel
  | _ => false

def accesses (a : Id) (started : Bool) : Frame → Bool
  | start b _ | leave b _ => b = a
  | f => started = false ∧ (f.prepares a ∨ f.cancels a)

-- their equations are made here once, and not by each lemma below at its first use
attribute [local simp] prepares cancels expires arrives mistakes accesses

end Frame

/-- How far the operation is that an async is handed to. -/
structure Progress where
  handed : Bool
  started : Bool
deriving DecidableEq

def Event.hands (a : Id) : Event → Bool
  | .run _ (.acts (.call b (.operation _))) => b = a
  | _ => false

def Config.launches (c : Config) (a : Id) : Event → Bool
  | .run thread .ok =>
    match c.top thread with
    | some (.start b io) => b = a ∧ io ≠ .connectPhase1
    | some (.acceptEx b) => b = a
    | _ => false
  | _ => false

def Progress.record (a : Id) (r : Progress) (c : Config) (event : Event) : Progress :=
  ⟨r.handed || event.hands a,r.started || c.launches a event⟩

namespace Config

def preparing (c : Config) (a : Id) : Nat := tally (·.prepares a) c.threads + (c.world.asyncs a).lookups

def cancelling (c : Config) (a : Id) : Nat := tally (·.cancels a) c.threads

def expiring (c : Config) (a : Id) : Nat := tally (·.expires a) c.threads

end Config

/-- `a` is handed to one operation; no call notifies, cancels or enters it and no `xf_async_call` has it
as parent. -/
def Passes (a : Id) (r : Progress) : Action → Prop
  | .call b (.operation _) => b = a → r.handed = false
  | .call b (.notify _) | .call b .cancel | .call b .enter => b ≠ a
  | .new .multiPhase _ (some p) _ => p ≠ a
  | _ => True

instance (a : Id) (r : Progress) (action : Action) : Decidable (Passes a r action) := by
  unfold Passes
  match action with
  | .call _ (.notify _) | .call _ .cancel | .call _ .enter | .call _ .addRef | .call _ .release
  | .call _ (.operation _) | .call _ .wait | .new .multiPhase _ (some _) _ | .new .multiPhase _ none _
  | .new .async .. | .new .wait .. | .waitNew .. | .store _ | .finish _ => infer_instance

/-- Only its timer cancels `a`, and what fails in its operation fails with what `xf_error_windows` returns. -/
def Confined (a : Id) (c : Config) : Outcome → Frame → Prop
  | .fails e,f => f.prepares a → e = errorWindows
  | _,.cancelTarget b => (c.world.asyncs b).child ≠ some a
  | _,_ => True

instance (a : Id) (c : Config) (outcome : Outcome) (f : Frame) : Decidable (Confined a c outcome f) := by
  unfold Confined
  match outcome with
  | .ok | .fails _ | .acts _ =>
    match f with
    | .user .. | .notify .. | .notifyKind .. | .asyncNotify .. | .complete .. | .waitNotify ..
    | .runNextPhase .. | .phaseReturned .. | .errorReturned .. | .release .. | .destroy _ | .unlink ..
    | .link .. | .clear _ | .cancel _ | .cancelEnter _ | .cancelTarget _ | .timeout _ | .enter .. | .unlock _
    | .start .. | .leave .. | .newRef _ | .newArm _ | .wait _ | .operation .. | .acceptEx _ | .connectPhase1 ..
    | .connectAsync _ | .completed .. => infer_instance

def Passed (a : Id) (r : Progress) (c : Config) : Event → Prop
  | .run _ (.acts action) => Passes a r action
  | .run thread outcome => ∀ f ∈ c.top thread, Confined a c outcome f
  | .arise b (.lookup e) => b = a → e = 0 ∨ e = errorWindows
  | _ => True

instance (a : Id) (r : Progress) (c : Config) (event : Event) : Decidable (Passed a r c event) := by
  unfold Passed
  match event with
  | .run _ .ok | .run _ (.fails _) | .run _ (.acts _) | .spawn | .arise _ .expire | .arise _ .complete
  | .arise _ (.dispatch _) | .arise _ (.lookup _) => infer_instance

/-- Until the I/O is started, `async_timeout` drops its reference only when no cancel is under way and the
async is not notified or its operation is over; an enter that finds the async cancelled finds it notified
or the reference of `async_timeout` there. -/
def Waits (a : Id) (r : Progress) (c : Config) : Frame → Prop
  | .release b .timer => b = a → r.started = false → c.cancelling a = 0 ∧
    ((c.world.asyncs a).called = true → r.handed = true ∧ c.preparing a = 0)
  | .enter b _ => b = a → r.started = false → (c.world.asyncs a).canceled = true →
    (c.world.asyncs a).called = true ∨ 0 < c.expiring a
  | _ => True

instance (a : Id) (r : Progress) (c : Config) (f : Frame) : Decidable (Waits a r c f) := by
  unfold Waits
  match f with
  | .user .. | .notify .. | .notifyKind .. | .asyncNotify .. | .complete .. | .waitNotify .. | .runNextPhase ..
  | .phaseReturned .. | .errorReturned .. | .destroy _ | .unlink .. | .link .. | .clear _ | .cancel _
  | .cancelEnter _ | .cancelTarget _ | .timeout _ | .enter .. | .unlock _ | .start .. | .leave .. | .newRef _
  | .newArm _ | .wait _ | .operation .. | .acceptEx _ | .connectPhase1 .. | .connectAsync _ | .completed ..
  | .release _ .completion | .release _ .timer | .release _ .enter | .release _ .user => infer_instance

def Waited (a : Id) (r : Progress) (c : Config) : Event → Prop
  | .run thread .ok => ∀ f ∈ c.top thread, Waits a r c f
  | _ => True

instance (a : Id) (r : Progress) (c : Config) (event : Event) : Decidable (Waited a r c event) := by
  unfold Waited
  match event with
  | .run _ .ok | .run _ (.fails _) | .run _ (.acts _) | .spawn | .arise .. => infer_instance

def Progressing (a : Id) (allowed : Progress → Config → Event → Prop) : Progress × Config → Progress × Config → Prop :=
  Recorded Config.step (Progress.record a) allowed

def Sustained (a : Id) (s : Progress × Config) : Prop :=
  ∀ thread f, s.2.top thread = some f → f.accesses a s.1.started → 0 < (s.2.world.asyncs a).ref

/-! ## What is kept until the I/O is started -/

inductive Hand
  | preparing
  | cancelling
  | expiring
  | completing
  | mistaking
  | entering

def Hand.count (a : Id) : Hand → Frame → Bool
  | preparing => (·.prepares a)
  | cancelling => (·.cancels a)
  | expiring => (·.expires a)
  | completing => (·.arrives a)
  | mistaking => (·.mistakes a)
  | entering => (· = .enter a .user)

/-- `async_timeout` keeps its reference while a cancel is under way, and while a notified async still has
an operation before it; an async that is not notified is in one operation at most. -/
structure Sheltered (handed : Bool) (x : Object) (n : Hand → Nat) : Prop where
  cancelling : 0 < n .cancelling → 0 < n .expiring
  called : x.called = true → handed = false ∨ 0 < n .preparing + x.lookups → 0 < n .expiring
  uncalled : x.called = false → n .preparing + x.lookups ≤ if handed then 1 else 0
  pending : x.pending + x.queued + n .completing = 0
  errors : n .mistaking = 0
  entering : n .entering = 0

section Steps
variable {thread : Nat} {a : Id} {x x' : Object} {f : Frame} {outcome : Outcome} {frames : List Frame}

/-- An own step brings no new operation; the notify that finds the async not called ends one. -/
theorem act_prepares (subject : f.subject = some a) (step : act thread x f outcome = some (x',frames))
    (kind : x.kind = .async) (typed : ∀ k, f.kind = some (a,k) → k = .async) (arrived : f.arrives a = false)
    (mistaken : f.mistakes a = false) (fails : ∀ e, outcome = .fails e → f.prepares a → e ≠ errorCancel) :
    frames.countP (·.prepares a) + x'.lookups ≤ [f].countP (·.prepares a) + x.lookups ∧
      (x'.called = false → x.called = false) ∧ (x'.called = x.called ∨ f.cancels a ∨
        frames.countP (·.prepares a) + x'.lookups < [f].countP (·.prepares a) + x.lookups) := by
  replace step := act_acts step
  cases step <;> cases subject
  all_goals simp only [List.countP_cons,List.countP_nil]
  all_goals simp_all [Frame.arrives,Frame.mistakes,Frame.prepares,Frame.cancels,Frame.kind,Object.witness,
    Object.decrement,Object.lock,Object.unlock,Object.prepare,Object.clearTimer]
  -- left is the notify that sets `called`
  next e _ _ => by_cases same : e = errorCancel <;> simp [same]

/-- Who cancels: the timer, and an enter that finds the async cancelled. -/
theorem act_canceller (subject : f.subject = some a) (step : act thread x f outcome = some (x',frames))
    (kind : x.kind = .async) (typed : ∀ k, f.kind = some (a,k) → k = .async) (uncancelled : f ≠ .cancel a)
    (arrived : f.arrives a = false) (mistaken : f.mistakes a = false)
    (fails : ∀ e, outcome = .fails e → f.prepares a → e ≠ errorCancel)
    (some : 0 < frames.countP (·.cancels a)) :
    f.cancels a ∨ f = .timeout a ∨ ∃ entry, f = .enter a entry ∧ x.canceled = true := by
  replace step := act_acts step
  cases step <;> cases subject
  all_goals simp only [List.countP_cons,List.countP_nil] at some
  all_goals simp_all [Frame.arrives,Frame.mistakes,Frame.prepares,Frame.cancels,Frame.kind]
  -- left is a notify on its way
  all_goals
    by_contra other
    simp [other] at some

/-- `async_timeout` keeps its reference until the release. -/
theorem act_expiring (subject : f.subject = some a) (step : act thread x f outcome = some (x',frames))
    (held : f ≠ .release a .timer) : [f].countP (·.expires a) ≤ frames.countP (·.expires a) := by
  replace step := act_acts step
  cases step <;> cases subject
  all_goals simp_all [Frame.expires]

/-- No I/O comes about without a start, and the errors of an operation are those of its calls. -/
theorem act_pending (subject : f.subject = some a) (step : act thread x f outcome = some (x',frames))
    (idle : ∀ io, f = .start a io → outcome = .ok → io = .connectPhase1) (idle' : f = .acceptEx a → outcome ≠ .ok)
    (fails : ∀ e, outcome = .fails e → f.prepares a → e ≠ errorCancel) :
    x'.pending = x.pending ∧ x'.queued = x.queued ∧ frames.countP (·.arrives a) = 0 ∧
      frames.countP (·.mistakes a) ≤ [f].countP (·.mistakes a) := by
  replace step := act_acts step
  cases step <;> cases subject
  all_goals simp only [List.countP_cons,List.countP_nil]
  all_goals simp_all [Frame.arrives,Frame.mistakes,Frame.prepares,Object.witness,Object.invoke,Object.answer,
    Object.decrement,Object.lock,Object.unlock,Object.prepare,Object.clearTimer]

end Steps

namespace Sheltered
variable {thread : Nat} {a : Id} {handed : Bool} {x x' : Object} {f : Frame} {outcome : Outcome}
  {frames : List Frame} {n : Hand → Nat}

/-- With a point of a cancel at the step itself `async_timeout` holds its reference. -/
theorem held (before : Sheltered handed x (counted (Hand.count a) n [f])) (cancels : f.cancels a) :
    0 < n .expiring + [f].countP (·.expires a) := by
  apply before.cancelling
  simp [counted_cons,counted_nil,Hand.count,cancels]

/-- The step is at none of the points the operation does not reach before its I/O is started. -/
theorem apart (before : Sheltered handed x (counted (Hand.count a) n [f])) :
    f.arrives a = false ∧ f.mistakes a = false ∧ f ≠ .enter a .user := by
  have none {p : Frame → Bool} {m : Nat} (zero : m + [f].countP p = 0) : p f = false := by
    have fewer := List.countP_eq_zero.mp (Nat.add_eq_zero_iff.mp zero).2
    exact Bool.eq_false_iff.mpr (fewer f List.mem_cons_self)
  refine ⟨none (Nat.add_eq_zero_iff.mp before.pending).2,none before.errors,?_⟩
  exact of_decide_eq_false (none (p := (· = .enter a .user)) before.entering)

theorem act_held (before : Sheltered handed x (counted (Hand.count a) n [f])) (subject : f.subject = some a)
    (step : Async.act thread x f outcome = some (x',frames)) (kind : x.kind = .async)
    (typed : ∀ k, f.kind = some (a,k) → k = .async) (uncancelled : f ≠ .cancel a)
    (fails : ∀ e, outcome = .fails e → f.prepares a → e ≠ errorCancel)
    (releases : f = .release a .timer → n .cancelling = 0)
    (enters : ∀ entry, f = .enter a entry → x.canceled = true → x.called = true ∨ 0 < n .expiring)
    (some : 0 < n .cancelling + frames.countP (·.cancels a)) : 0 < n .expiring + frames.countP (·.expires a) := by
  obtain ⟨arrived,mistaken,entered⟩ := before.apart
  have keeps (other : f ≠ .release a .timer) (held : 0 < n .expiring + [f].countP (·.expires a)) :
      0 < n .expiring + frames.countP (·.expires a) :=
    Nat.lt_of_lt_of_le held (Nat.add_le_add_left (act_expiring subject step other) _)
  rcases Nat.eq_zero_or_pos (frames.countP (·.cancels a)) with none | pushed
  · have below : 0 < n .cancelling := by omega
    refine keeps (fun same => absurd (releases same) (Nat.ne_of_gt below)) ?_
    exact before.cancelling (Nat.lt_of_lt_of_le below (Nat.le_add_right _ _))
  · rcases act_canceller subject step kind typed uncancelled arrived mistaken fails pushed with
      cancels | rfl | ⟨entry,rfl,canceled⟩
    · refine keeps ?_ (before.held cancels)
      rintro rfl
      cases cancels
    · exact keeps (fun same => by cases same) (by simp [Frame.expires])
    · refine keeps (fun same => by cases same) ?_
      rcases enters entry rfl canceled with called | held
      · apply before.called called
        cases entry with
        | user => exact absurd rfl entered
        | io io =>
          right
          simp [counted_cons,counted_nil,Hand.count,Frame.prepares]
      · exact Nat.lt_of_lt_of_le held (Nat.le_add_right _ _)

theorem act_called (before : Sheltered handed x (counted (Hand.count a) n [f])) (subject : f.subject = some a)
    (step : Async.act thread x f outcome = some (x',frames)) (kind : x.kind = .async)
    (typed : ∀ k, f.kind = some (a,k) → k = .async)
    (fails : ∀ e, outcome = .fails e → f.prepares a → e ≠ errorCancel)
    (releases : f = .release a .timer → x.called = true → handed = true ∧ n .preparing + x.lookups = 0)
    (now : x'.called = true) (remains : handed = false ∨ 0 < n .preparing + frames.countP (·.prepares a) + x'.lookups) :
    0 < n .expiring + frames.countP (·.expires a) := by
  obtain ⟨arrived,mistaken,-⟩ := before.apart
  obtain ⟨moves,-,sets⟩ := act_prepares subject step kind typed arrived mistaken fails
  have remains' : handed = false ∨ 0 < n .preparing + [f].countP (·.prepares a) + x.lookups := by
    rcases remains with unhanded | some
    · exact Or.inl unhanded
    · exact Or.inr (by omega)
  have keeps (other : f ≠ .release a .timer) (held : 0 < n .expiring + [f].countP (·.expires a)) :
      0 < n .expiring + frames.countP (·.expires a) :=
    Nat.lt_of_lt_of_le held (Nat.add_le_add_left (act_expiring subject step other) _)
  cases called : x.called with
  | true =>
    refine keeps ?_ (before.called called remains')
    rintro rfl
    obtain ⟨passed,ended⟩ := releases rfl called
    rcases remains' with unhanded | some
    · rw [passed] at unhanded
      cases unhanded
    · simp [Frame.prepares] at some
      omega
  | false =>
    rcases sets with same | cancels | fewer
    · rw [now,called] at same
      cases same
    · refine keeps ?_ (before.held cancels)
      rintro rfl
      cases cancels
    · -- the operation's own notify, which was the last of it
      have one : n .preparing + [f].countP (·.prepares a) + x.lookups ≤ _ := before.uncalled called
      rcases remains with unhanded | some
      · rw [unhanded,if_neg Bool.false_ne_true] at one
        omega
      · split at one <;> omega

theorem act (before : Sheltered handed x (counted (Hand.count a) n [f])) (subject : f.subject = some a)
    (step : Async.act thread x f outcome = some (x',frames)) (kind : x.kind = .async)
    (typed : ∀ k, f.kind = some (a,k) → k = .async) (uncancelled : f ≠ .cancel a)
    (fails : ∀ e, outcome = .fails e → f.prepares a → e ≠ errorCancel)
    (idle : ∀ io, f = .start a io → outcome = .ok → io = .connectPhase1) (idle' : f = .acceptEx a → outcome ≠ .ok)
    (releases : f = .release a .timer → n .cancelling = 0 ∧
      (x.called = true → handed = true ∧ n .preparing + x.lookups = 0))
    (enters : ∀ entry, f = .enter a entry → x.canceled = true → x.called = true ∨ 0 < n .expiring) :
    Sheltered handed x' (counted (Hand.count a) n frames) := by
  obtain ⟨arrived,mistaken,-⟩ := before.apart
  obtain ⟨moves,stays,-⟩ := act_prepares subject step kind typed arrived mistaken fails
  obtain ⟨pending,queued,arriving,mistaking⟩ := act_pending subject step idle idle' fails
  refine ⟨?_,?_,?_,?_,?_,?_⟩
  · exact before.act_held subject step kind typed uncancelled fails (fun same => (releases same).1) enters
  · exact before.act_called subject step kind typed fails (fun same => (releases same).2)
  · intro now
    have one := before.uncalled (stays now)
    change n .preparing + [f].countP (·.prepares a) + x.lookups ≤ _ at one
    change n .preparing + frames.countP (·.prepares a) + x'.lookups ≤ _
    omega
  · have none : x.pending + x.queued + (n .completing + [f].countP (·.arrives a)) = 0 := before.pending
    change x'.pending + x'.queued + (n .completing + frames.countP (·.arrives a)) = 0
    omega
  · have none : n .mistaking + [f].countP (·.mistakes a) = 0 := before.errors
    change n .mistaking + frames.countP (·.mistakes a) = 0
    omega
  · have none : n .entering + [f].countP (· = .enter a .user) = 0 := before.entering
    change n .entering + frames.countP (· = .enter a .user) = 0
    rw [act_outside step,(Nat.add_eq_zero_iff.mp none).1]

theorem counts (before : Sheltered handed x n) (ref : Int) (held : Nat) :
    Sheltered handed {x with ref := ref, trace.held := held} n :=
  ⟨before.cancelling,before.called,before.uncalled,before.pending,before.errors,before.entering⟩

theorem later (before : Sheltered handed x n) (more : Bool) : Sheltered (handed || more) x n := by
  obtain ⟨cancelling,called,uncalled,pending,errors,entering⟩ := before
  refine ⟨cancelling,?_,?_,pending,errors,entering⟩
  · intro now remains
    apply called now
    rcases remains with unhanded | some
    · exact Or.inl (Bool.or_eq_false_iff.mp unhanded).1
    · exact Or.inr some
  · intro now
    have one := uncalled now
    cases handed <;> cases more <;> simp at one ⊢ <;> omega

/-- Handing the async on for the first time. -/
theorem hands (before : Sheltered handed x n) (fresh : handed = false) (op : Operation) :
    Sheltered true x (counted (Hand.count a) n [.operation op a]) := by
  obtain ⟨cancelling,called,uncalled,pending,errors,entering⟩ := before
  refine ⟨cancelling,fun now _ => called now (Or.inl fresh),?_,pending,errors,entering⟩
  intro now
  have none := uncalled now
  rw [fresh,if_neg Bool.false_ne_true] at none
  simp [counted_cons,counted_nil,Hand.count,Frame.prepares]
  omega

theorem arise {cause : Cause} (before : Sheltered handed x n) (step : Async.arise a x cause = some (x',frames))
    (lookup : ∀ e, cause = .lookup e → e ≠ errorCancel) : Sheltered handed x' (counted (Hand.count a) n frames) := by
  obtain ⟨cancelling,called,uncalled,pending,errors,entering⟩ := before
  replace step := arise_arises step
  cases step
  case expire =>
    refine ⟨?_,?_,uncalled,pending,errors,entering⟩ <;> simp [counted_cons,counted_nil,Hand.count,Frame.expires]
  case complete | dispatch => omega
  case lookup e _ =>
    have other := lookup e rfl
    refine ⟨cancelling,?_,?_,pending,?_,entering⟩
    · intro now remains
      apply called now
      simp [counted_cons,counted_nil,Hand.count,Frame.prepares] at remains
      omega
    · intro now
      have one := uncalled now
      simp [counted_cons,counted_nil,Hand.count,Frame.prepares]
      omega
    · simp [counted_cons,counted_nil,Hand.count,Frame.mistakes,other,errors]

end Sheltered

theorem hand_owner {a : Id} {i : Hand} {g : Frame} (counts : Hand.count a i g) : g.owner = some a := by
  cases i
  case entering =>
    rw [of_decide_eq_true counts]
    rfl
  case preparing =>
    simp only [Hand.count,Frame.prepares] at counts
    split at counts <;> simp_all [Frame.owner,Frame.subject]
  case cancelling =>
    simp only [Hand.count,Frame.cancels] at counts
    split at counts <;> simp_all [Frame.owner,Frame.subject]
  case expiring =>
    simp only [Hand.count,Frame.expires] at counts
    split at counts <;> simp_all [Frame.owner,Frame.subject]
  case completing =>
    simp only [Hand.count,Frame.arrives] at counts
    split at counts <;> simp_all [Frame.owner,Frame.subject]
  case mistaking =>
    simp only [Hand.count,Frame.mistakes] at counts
    split at counts <;> simp_all [Frame.owner,Frame.subject]

theorem sheltered_tracked (a : Id) (r : Progress) : Tracked (Hand.count a) a
    (fun x n => r.started = false → x.kind = .async → Sheltered r.handed x n) where
  owner := fun i g counts => hand_owner counts
  cancel := by
    intro i
    cases i <;> rfl
  link := by
    intro i p b
    cases i <;> rfl
  unlink := by
    intro i p b
    cases i <;> rfl
  resume := by
    intro i role pc last pc' last'
    cases i <;> rfl
  store := by
    intro x phase n sheltered idle kind
    have before := sheltered idle kind
    exact ⟨before.cancelling,before.called,before.uncalled,before.pending,before.errors,before.entering⟩
  new := by
    intro kind timed parent _ _ _
    cases kind <;> cases timed <;> cases parent <;> constructor <;>
      simp [counted_cons,counted_nil,Hand.count,construct,fresh,
        Frame.prepares,Frame.cancels,Frame.expires,Frame.arrives,Frame.mistakes]
  waitNew := by
    intro parent child _ kind
    cases kind

/-- The references of `a` that are out: the completion's, the timer's, those of open enters and of
users, and those whose release a dropped timer has cut off. -/
def Config.keepers (c : Config) (a : Id) : Int :=
  1 - (c.world.asyncs a).trace.givenDone + c.timer a + c.enters a + c.users a + (c.world.asyncs a).trace.dropped

theorem Accounts.keepers {c : Config} {a : Id} (accounts : Accounts c a) :
    (c.world.asyncs a).ref = c.keepers a := by
  have law := accounts.balanced.references
  have completions := accounts.balanced.completions
  simp only [Config.keepers,Config.timer,Config.enters,Config.users]
  cases armed : (c.world.asyncs a).armed <;>
    simp only [armed,toInt,if_true,Bool.false_eq_true,if_false] at law ⊢ <;> omega

theorem act_releases {thread : Nat} {a : Id} {x x' : Object} {f : Frame} {outcome : Outcome} {frames : List Frame}
    (subject : f.subject = some a) (step : act thread x f outcome = some (x',frames)) :
    (∀ action, outcome ≠ .acts action) ∧
      ∀ share, f = .release a share → outcome = .ok ∧ x'.ref = x.ref - 1 ∧ x'.freed = x.freed := by
  replace step := act_acts step
  cases step <;> cases subject
  all_goals simp_all [Object.decrement]

/-- An async that is not notified, or whose timer or an enter has a reference, is alive. -/
theorem Accounts.alive {c : Config} {a : Id} (accounts : Accounts c a) (kind : (c.world.asyncs a).kind = .async)
    (reason : (c.world.asyncs a).called = false ∨ 0 < c.timer a ∨ 0 < c.enters a) : 0 < (c.world.asyncs a).ref := by
  have law := accounts.keepers
  have given := accounts.given kind
  have completions := accounts.balanced.completions
  rw [law,Config.keepers]
  cases called : (c.world.asyncs a).called <;> simp only [called,toInt,if_true,Bool.false_eq_true,if_false] at given
  · omega
  · rcases reason with same | timer | enters
    · rw [called] at same
      cases same
    · omega
    · omega

theorem accesses_cases {a : Id} {started : Bool} {f : Frame} (accesses : f.accesses a started) :
    f.share = some (a,.enter) ∨ started = false ∧ (f.prepares a ∨ f.cancels a) := by
  unfold Frame.accesses at accesses
  split at accesses
  · exact Or.inl (by rw [of_decide_eq_true accesses]; rfl)
  · exact Or.inl (by rw [of_decide_eq_true accesses]; rfl)
  · exact Or.inr (of_decide_eq_true accesses)

theorem accesses_owner {a : Id} {started : Bool} {f : Frame} (accesses : f.accesses a started) :
    f.owner = some a := by
  rcases accesses_cases accesses with entered | ⟨-,prepares | cancels⟩
  · exact share_owner entered
  · exact hand_owner (i := .preparing) prepares
  · exact hand_owner (i := .cancelling) cancels

structure Underway (a : Id) (s : Progress × Config) : Prop where
  alone : Alone a s.2
  uncancelled : a < s.2.world.next → s.2.Each (fun _ g => g ≠ .cancel a) a
  sheltered : a < s.2.world.next → s.1.started = false → (s.2.world.asyncs a).kind = .async →
    Sheltered s.1.handed (s.2.world.asyncs a) (s.2.tallies (Hand.count a))

theorem uncancelled_each (a : Id) : Each (fun _ g => g ≠ .cancel a) a where
  owner := by
    rintro x g apart rfl
    exact apart rfl
  resume := fun x role pc last pc' last' _ same => by cases same
  after := fun x role b call pc last _ same => by cases same
  store := fun x phase g before => before
  finish := by
    rintro x err role - g member rfl
    cases finish_mem member
  arise := by
    intro x x' frames cause step
    refine ⟨?_,fun g before => before⟩
    rintro g member rfl
    replace step := arise_arises step
    cases step <;> simp at member
  new := by
    rintro kind timed parent g member rfl
    rcases construct_mem member with ⟨p,-,same⟩ | same | ⟨-,same⟩ <;> cases same
  waitNew := by
    rintro parent child g member rfl
    rcases construct_mem member with ⟨p,-,same⟩ | same | ⟨-,same⟩ <;> cases same

/-- Only a `_cancel` that finds `a` as its child goes on to cancel it. -/
theorem act_child_cancel {thread : Nat} {a b : Id} {x x' : Object} {f : Frame} {outcome : Outcome}
    {frames : List Frame} (subject : f.subject = some b) (step : act thread x f outcome = some (x',frames))
    (cancel : .cancel a ∈ frames) : f = .cancelTarget b ∧ x.child = some a ∧ outcome = .ok := by
  replace step := act_acts step
  cases step <;> cases subject
  all_goals simp_all

namespace Underway
variable {a : Id} {s : Progress × Config} {c' : Config} {event : Event}

theorem uncancelled_effect (underway : Underway a s) (passed : Passed a s.1 s.2 event)
    (effect : Effect s.2 event c') (made : a < c'.world.next) : c'.Each (fun _ g => g ≠ .cancel a) a := by
  have library {thread : Nat} {f : Frame} {outcome : Outcome} {b : Id} {x : Object} {frames : List Frame}
      (top : s.2.top thread = some f) (here : event = .run thread outcome) (subject : f.subject = some b)
      (step : act thread (s.2.world.asyncs b) f outcome = some (x,frames)) : ∀ g ∈ frames, g ≠ .cancel a := by
    rintro g member rfl
    obtain ⟨rfl,child,rfl⟩ := act_child_cancel subject step member
    subst here
    exact passed _ top child
  apply (uncancelled_each a).effect underway.alone.audited.known effect _ _ _ underway.uncancelled made
  · exact fun thread f outcome x frames top here subject step => ⟨library top here subject step,fun g _ old => old⟩
  · exact fun thread f outcome b x frames top here _ subject step => library top here subject step
  · rintro thread call x frames rfl step
    refine ⟨?_,fun g _ old => old⟩
    rintro g member rfl
    cases call with
    | cancel => exact passed rfl
    | notify _ | enter | operation _ | wait =>
      cases step
      simp at member
    | addRef =>
      cases step
      cases member
    | release =>
      cases request_requests step
      simp at member

theorem sheltered_effect (underway : Underway a s) (passed : Passed a s.1 s.2 event) (waited : Waited a s.1 s.2 event)
    (effect : Effect s.2 event c') (made : a < c'.world.next)
    (idle : (s.1.record a s.2 event).started = false) (kind : (c'.world.asyncs a).kind = .async) :
    Sheltered (s.1.record a s.2 event).handed (c'.world.asyncs a) (c'.tallies (Hand.count a)) := by
  obtain ⟨unstarted,quiet⟩ := Bool.or_eq_false_iff.mp idle
  revert idle kind
  apply (sheltered_tracked a (s.1.record a s.2 event)).effect underway.alone.audited.known
    (fun _ _ _ => underway.alone) effect _ _ _ _ _ _ made
  · rintro thread f outcome x frames n known top rfl subject step before - kind
    rw [(act_fixed step).2] at kind
    have sheltered := underway.sheltered known unstarted kind
    obtain ⟨library,releases⟩ := act_releases subject step
    have handed : (s.1.record a s.2 (.run thread outcome)).handed = s.1.handed := by
      cases outcome with
      | acts action => exact absurd rfl (library action)
      | ok | fails _ => exact Bool.or_false _
    have tallied (i : Hand) : s.2.tallies (Hand.count a) i = n i + [f].countP (Hand.count a i) := by
      rw [before,counted]
    rw [before] at sheltered
    rw [handed]
    refine sheltered.act subject step kind ?_ ?_ ?_ ?_ ?_ ?_ ?_
    · intro k typed
      exact ((underway.alone.audited.accounts a known).typed f (Config.top_mem top) k typed).symm.trans kind
    · exact underway.uncancelled known f (Config.top_mem top)
    · rintro e rfl prepares same
      rw [passed f top prepares] at same
      cases same
    · rintro io rfl rfl
      by_contra other
      simp [Config.launches,top,other] at quiet
    · rintro rfl rfl
      simp [Config.launches,top] at quiet
    · rintro rfl
      obtain ⟨rfl,-,-⟩ := releases .timer rfl
      obtain ⟨none,called⟩ := waited _ top rfl unstarted
      change s.2.tallies (Hand.count a) .cancelling = 0 at none
      rw [tallied] at none
      refine ⟨(Nat.add_eq_zero_iff.mp none).1,?_⟩
      intro now
      obtain ⟨passed,ended⟩ := called now
      change s.2.tallies (Hand.count a) .preparing + _ = 0 at ended
      rw [tallied] at ended
      exact ⟨passed,by omega⟩
    · rintro entry rfl canceled
      cases outcome with
      | acts action => exact absurd rfl (library action)
      | fails e => cases step
      | ok =>
        rcases waited _ top rfl unstarted canceled with called | held
        · exact Or.inl called
        · change 0 < s.2.tallies (Hand.count a) .expiring at held
          rw [tallied] at held
          exact Or.inr held
  · rintro thread role pc last call x frames n known top rfl step before - kind
    rw [(request_mentions step).2.2.2] at kind
    have sheltered := underway.sheltered known unstarted kind
    have same : s.2.tallies (Hand.count a) = n := by
      rw [before]
      funext i
      cases i <;> rfl
    rw [same] at sheltered
    have quiet {frames : List Frame} (apart : ∀ i, frames.countP (Hand.count a i) = 0) :
        counted (Hand.count a) n (frames ++ [Frame.user (role.after a call) (pc + 1) last]) = n := by
      funext i
      rw [counted,List.countP_append,apart]
      cases i <;> rfl
    cases call with
    | notify e => exact absurd rfl passed
    | cancel => exact absurd rfl passed
    | enter => exact absurd rfl passed
    | operation op =>
      cases step
      have handed : (s.1.record a s.2 (.run thread (.acts (.call a (.operation op))))).handed = true := by
        simp [Progress.record,Event.hands]
      have resumed : counted (Hand.count a) n
          ([Frame.operation op a] ++ [Frame.user (role.after a (.operation op)) (pc + 1) last]) =
            counted (Hand.count a) n [.operation op a] := by
        funext i
        cases i <;> rfl
      rw [handed,resumed]
      exact sheltered.hands (passed rfl) op
    | wait =>
      cases step
      rw [quiet (fun i => by cases i <;> rfl)]
      exact sheltered.later _
    | addRef =>
      cases step
      rw [quiet (fun i => by cases i <;> rfl)]
      exact (sheltered.counts _ _).later _
    | release =>
      cases request_requests step
      rw [quiet (fun i => by cases i <;> rfl)]
      exact (sheltered.counts _ _).later _
  · rintro thread role pc last err n known top rfl before - kind
    have sheltered := underway.sheltered known unstarted kind
    have none (i : Hand) : (finish err role).countP (Hand.count a i) = 0 := by
      apply List.countP_eq_zero.mpr
      intro g member
      cases finish_mem member <;> cases i <;> exact Bool.false_ne_true
    have same : counted (Hand.count a) n (finish err role) = s.2.tallies (Hand.count a) := by
      rw [before]
      funext i
      rw [counted,none]
      cases i <;> rfl
    rw [same]
    exact sheltered.later _
  · rintro cause x frames known rfl step - kind
    rw [(arise_mentions step).2.2.2] at kind
    have sheltered := (underway.sheltered known unstarted kind).arise step (by
      rintro e rfl same
      rcases passed rfl with none | windows
      · rw [none] at same
        cases same
      · rw [windows] at same
        cases same)
    exact sheltered.later _
  · rintro thread role pc last timed parent - rfl - - kind
    cases kind
  · intro known _ kind
    exact (underway.sheltered known unstarted kind).later _

theorem effect (underway : Underway a s) (passed : Passed a s.1 s.2 event) (waited : Waited a s.1 s.2 event)
    (effect : Effect s.2 event c') : Underway a (s.1.record a s.2 event,c') where
  alone := underway.alone.effect effect (fun _ _ _ same => by subst same; exact passed rfl)
  uncancelled := underway.uncancelled_effect passed effect
  sheltered := underway.sheltered_effect passed waited effect

theorem sustained (underway : Underway a s) (kind : (s.2.world.asyncs a).kind = .async) : Sustained a s := by
  intro thread f top accesses
  have member := Config.top_mem top
  have made : a < s.2.world.next :=
    underway.alone.audited.known.frame f member a (owner_mentions (accesses_owner accesses))
  apply (underway.alone.audited.accounts a made).alive kind
  rcases accesses_cases accesses with entered | ⟨unstarted,works⟩
  · exact Or.inr (Or.inr (tally_pos member (decide_eq_true entered)))
  · have sheltered := underway.sheltered made unstarted kind
    cases called : (s.2.world.asyncs a).called with
    | false => exact Or.inl rfl
    | true =>
      right
      left
      have held : 0 < s.2.tallies (Hand.count a) .expiring := by
        rcases works with prepares | cancels
        · apply sheltered.called called
          have some : 0 < s.2.tallies (Hand.count a) .preparing := tally_pos member prepares
          exact Or.inr (Nat.lt_of_lt_of_le some (Nat.le_add_right _ _))
        · exact sheltered.cancelling (tally_pos member cancels)
      obtain ⟨g,inside,expires⟩ := List.countP_pos_iff.mp held
      have share : g.share = some (a,.timer) := by
        cases g with
        | release b share => cases share <;> simp_all [Hand.count,Frame.expires,Frame.share]
        | _ => simp_all [Hand.count,Frame.expires,Frame.share]
      exact Nat.lt_of_lt_of_le (tally_pos inside (decide_eq_true share)) (Nat.le_add_left _ _)

end Underway

/-- An async outlives the start of the operation it is handed to, in the runs in which `async_timeout` does
not drop its reference before. -/
theorem reachable_sustained {a : Id} {s : Progress × Config}
    (run : ReflTransGen (Progressing a (fun r c event => Passed a r c event ∧ Waited a r c event))
      (⟨false,false⟩,Config.start) s) (kind : (s.2.world.asyncs a).kind = .async) : Sustained a s := by
  have underway : Underway a s := by
    refine run_invariant ?_ run ⟨⟨⟨start_known,fun b made => absurd made (Nat.not_lt_zero b)⟩,
      fun b made => absurd made (Nat.not_lt_zero b)⟩,fun made => absurd made (Nat.not_lt_zero a),
      fun made => absurd made (Nat.not_lt_zero a)⟩
    rintro s ⟨r',c'⟩ underway ⟨event,⟨passed,waited⟩,step,rfl⟩
    exact underway.effect passed waited (step_effect step)
  exact underway.sustained kind

/-- The timer expires while a receive is on its way to `xf_async_enter`: its cancel notifies, and the
receive finds the async cancelled before `async_timeout` drops its reference. -/
def expiredReceive : List Event :=
  [.spawn,.run 0 (.acts (.new .async true none true)),.run 0 .ok,.run 0 .ok,
    .run 0 (.acts (.call 0 (.operation .receive))),.run 0 .ok,.arise 0 .expire,.run 1 .ok,.run 1 .ok,.run 1 .ok,
    .run 1 .ok,.run 1 .ok,.run 1 .ok,.run 1 .ok,.run 1 .ok,.run 1 (.acts (.finish 0)),.run 1 .ok,.run 0 .ok,
    .run 0 .ok,.run 0 .ok,.run 0 .ok]

theorem reachable_sustained_receive : ∃ s, ReflTransGen (Progressing 0 (fun r c event => Passed 0 r c event ∧
    Waited 0 r c event)) (⟨false,false⟩,Config.start) s ∧ s.2.top 0 = some (.unlock 0) ∧
      (s.2.world.asyncs 0).trace.callbacks = [errorCancel] ∧ Sustained 0 s := by
  obtain ⟨s,run,holds⟩ : ∃ s, ReflTransGen (Progressing 0 (fun r c event => Passed 0 r c event ∧
      Waited 0 r c event)) (⟨false,false⟩,Config.start) s ∧ decide ((s.2.world.asyncs 0).kind = .async ∧
        s.2.top 0 = some (.unlock 0) ∧ (s.2.world.asyncs 0).trace.callbacks = [errorCancel]) = true :=
    retrace_reachable expiredReceive (by decide)
  obtain ⟨kind,top,callbacks⟩ := of_decide_eq_true holds
  exact ⟨s,run,top,callbacks,reachable_sustained run kind⟩

/-- The timer expires when `xf_async_new` has returned, and `async_timeout` is through before the receive
comes to its `xf_async_enter`. -/
def expiredBefore : List Event :=
  [.spawn,.run 0 (.acts (.new .async true none true)),.run 0 .ok,.run 0 .ok,
    .run 0 (.acts (.call 0 (.operation .receive))),.run 0 .ok,.arise 0 .expire,.run 1 .ok,.run 1 .ok,.run 1 .ok,
    .run 1 .ok,.run 1 .ok,.run 1 .ok,.run 1 .ok,.run 1 .ok,.run 1 (.acts (.finish 0)),.run 1 .ok,.run 1 .ok]

theorem receive_entered_freed : ∃ s, ReflTransGen (Progressing 0 (fun r c event => Passed 0 r c event))
    (⟨false,false⟩,Config.start) s ∧ (s.2.world.asyncs 0).kind = .async ∧ ¬ Sustained 0 s := by
  obtain ⟨s,run,holds⟩ : ∃ s, ReflTransGen (Progressing 0 (fun r c event => Passed 0 r c event))
      (⟨false,false⟩,Config.start) s ∧ decide (s.1.started = false ∧ (s.2.world.asyncs 0).kind = .async ∧
        (s.2.world.asyncs 0).ref = 0 ∧ s.2.top 0 = some (.enter 0 (.io .receive))) = true :=
    retrace_reachable expiredBefore (by decide)
  obtain ⟨unstarted,kind,ref,top⟩ := of_decide_eq_true holds
  refine ⟨s,run,kind,?_⟩
  intro sustained
  have alive := sustained 0 _ top (by rw [unstarted]; decide)
  rw [ref] at alive
  exact absurd alive (Int.lt_irrefl 0)

end Xrossfire.Async
