import Xrossfire.Async.Outstanding
import Xrossfire.Async.Send

/-! Whether a cancellation is heard by what comes after it. The flag is read by
`xf_async_enter` only, and every async has its own. -/
namespace Xrossfire.Async
open Library Relation

/-- `p` itself and the asyncs made with the parent `p` once `n` asyncs were there. -/
def OnBehalf (p n : Id) (w : World) (a : Id) : Prop := a = p ∨ n ≤ a ∧ (w.asyncs a).parent = some p

instance (p n : Id) (w : World) (a : Id) : Decidable (OnBehalf p n w a) := inferInstanceAs (Decidable (_ ∨ _))

def Config.Begins (c : Config) (a : Id) : Event → Prop
  | .run thread .ok => ∃ f ∈ c.top thread, f.starts a ∨ f = .acceptEx a
  | _ => False

instance (c : Config) (a : Id) (event : Event) : Decidable (c.Begins a event) := by
  unfold Config.Begins
  match event with
  | .run _ .ok | .run _ (.fails _) | .run _ (.acts _) | .spawn | .arise .. => infer_instance

def Object.uncompleted (x : Object) : Prop :=
  match x.kind with
  | .async => x.called = false
  | .wait => x.status = false
  | .multiPhase => x.trace.terminals = 0

instance (x : Object) : Decidable x.uncompleted := by
  unfold Object.uncompleted
  split <;> infer_instance

def Heard (allowed : Config → Event → Prop) (p : Id) (c : Config) : Prop :=
  ∀ c' event, ReflTransGen (Step allowed) c c' → allowed c' event → (c'.step event).isSome →
    ∀ a, OnBehalf p c.world.next c'.world a → ¬ c'.Begins a event

/-- A call that a cancelled async has no answer to: an operation on an async that is not cancelled itself,
or an accept, whose `AcceptEx` no `xf_async_enter` guards. -/
def Call.misses (x : Object) : Call → Prop
  | .operation op => op = .accept ∨ x.canceled = false
  | _ => False

instance (x : Object) (call : Call) : Decidable (call.misses x) := by
  unfold Call.misses
  match call with
  | .notify _ | .cancel | .enter | .addRef | .release | .operation _ | .wait => infer_instance

/-- User code calls an operation on an async made for `p` since only if that one is cancelled too, and
calls no accept on these and on `p`. -/
def Withheld (p n : Id) (c : Config) : Event → Prop
  | .run _ (.acts (.call a call)) => OnBehalf p n c.world a → ¬ call.misses (c.world.asyncs a)
  | _ => True

instance (p n : Id) (c : Config) (event : Event) : Decidable (Withheld p n c event) := by
  unfold Withheld
  match event with
  | .run _ .ok | .run _ (.fails _) | .run _ (.acts (.call ..)) | .run _ (.acts (.new ..))
  | .run _ (.acts (.waitNew ..)) | .run _ (.acts (.store _)) | .run _ (.acts (.finish _)) | .spawn | .arise .. =>
    infer_instance

/-- An accept on its way to `AcceptEx`. -/
def Frame.accepts (a : Id) : Frame → Bool
  | operation .accept b | acceptEx b => b = a
  | _ => false

/-! ## The flag of the async itself -/

def Uncancelled (a : Id) (x : Object) (f : Frame) : Prop := f.starts a → x.canceled = false

theorem starts_interior {a : Id} {f : Frame} (starts : f.starts a) : f.owner = some a ∧ f.interior = true := by
  refine ⟨Frame.holds_owner (Frame.starts_holds starts),?_⟩
  unfold Frame.starts at starts
  split at starts
  · rfl
  · cases starts

theorem uncancelled_interior (a : Id) : Interior (Uncancelled a) a where
  point := fun x f apart starts => absurd (starts_interior starts) apart
  arise := by
    intro x x' frames cause step g before starts
    rw [arise_canceled step]
    exact before starts
  store := fun x phase g before => before

structure Flagged (a : Id) (c : Config) : Prop where
  known : Known c
  monitored : a < c.world.next → Monitored a c
  uncancelled : a < c.world.next → c.Each (Uncancelled a) a

theorem Flagged.effect {a : Id} {c c' : Config} {event : Event} (flagged : Flagged a c)
    (effect : Effect c event c') : Flagged a c' where
  known := flagged.known.effect effect
  monitored := Monitored.effect flagged.known effect flagged.monitored
  uncancelled := by
    apply (uncancelled_interior a).effect flagged.known effect _ _ flagged.uncancelled
    · intro thread f outcome x frames top _ subject step
      obtain ⟨canceled,pushed,-,-⟩ := act_cancels subject step
      refine ⟨fun g member starts => pushed (List.countP_pos_iff.mpr ⟨g,member,starts⟩),?_⟩
      intro g member before starts
      rcases canceled with same | ⟨rfl,available,-⟩
      · rw [same]
        exact before starts
      · -- the monitor is free for the cancel, so no operation is inside it
        have made := flagged.known.subject top subject
        exact absurd starts ((flagged.monitored made).exclusive top available Bool.false_ne_true g member)
    · intro thread call x frames _ step g before starts
      rw [request_canceled step]
      exact before starts

theorem reachable_flagged {allowed : Config → Event → Prop} {a : Id} {c : Config} (run : Reachable allowed c) :
    Flagged a c := by
  refine run_invariant ?_ run ⟨start_known,fun made => absurd made (Nat.not_lt_zero a),
    fun made => absurd made (Nat.not_lt_zero a)⟩
  intro c c' flagged step
  obtain ⟨event,-,step⟩ := step
  exact flagged.effect (step_effect step)

/-- No code takes a cancel back. -/
theorem canceled_persists {a : Id} {c c' : Config} {event : Event} (effect : Effect c event c')
    (made : a < c.world.next) (canceled : (c.world.asyncs a).canceled = true) :
    a < c'.world.next ∧ (c'.world.asyncs a).canceled = true := by
  apply object_persists (Q := fun x => x.canceled = true) effect _ _ _ _ made canceled
  · intro thread f outcome x frames _ _ subject step before
    rcases (act_cancels subject step).1 with same | ⟨-,-,now⟩
    · exact same.trans before
    · exact now
  · exact fun x x' call frames step before => (request_canceled step).trans before
  · exact fun x x' cause frames step before => (arise_canceled step).trans before
  · exact fun x phase before => before

/-! ## The asyncs made for it since -/

theorem starts_operates {a : Id} {f : Frame} (starts : f.starts a) : f.operates a := by
  unfold Frame.starts at starts
  split at starts
  · exact starts
  · cases starts

inductive Errand
  | operating
  | accepting

def Errand.count (a : Id) : Errand → Frame → Bool
  | operating => (·.operates a)
  | accepting => (·.accepts a)

/-- No accept is on its way, and an async that is not cancelled is in no operation. -/
structure Resting (x : Object) (n : Errand → Nat) : Prop where
  accepting : n .accepting = 0
  operating : x.canceled = false → n .operating + x.outstanding = 0

theorem act_accepts {thread : Nat} {a : Id} {x x' : Object} {f : Frame} {outcome : Outcome} {frames : List Frame}
    (subject : f.subject = some a) (step : act thread x f outcome = some (x',frames)) :
    frames.countP (·.accepts a) ≤ [f].countP (·.accepts a) := by
  replace step := act_acts step
  cases step <;> cases subject
  all_goals simp [Frame.accepts]

namespace Resting
variable {thread : Nat} {a : Id} {x x' : Object} {f : Frame} {outcome : Outcome} {frames : List Frame}
  {n : Errand → Nat}

theorem act (before : Resting x (counted (Errand.count a) n [f])) (subject : f.subject = some a)
    (step : act thread x f outcome = some (x',frames)) : Resting x' (counted (Errand.count a) n frames) where
  accepting := by
    have none : n .accepting + [f].countP (·.accepts a) = 0 := before.accepting
    have fewer := act_accepts subject step
    change n .accepting + frames.countP (·.accepts a) = 0
    omega
  operating := by
    intro now
    have earlier : x.canceled = false := by
      rcases (act_cancels subject step).1 with same | ⟨-,-,cancelled⟩
      · exact same.symm.trans now
      · rw [now] at cancelled
        cases cancelled
    have none : n .operating + [f].countP (·.operates a) + x.outstanding = 0 := before.operating earlier
    have fewer := (act_operates subject step).1
    change n .operating + frames.countP (·.operates a) + x'.outstanding = 0
    omega

/-- Points that are on no errand do not matter. -/
theorem quiet (resting : Resting x n) (apart : ∀ g ∈ frames, ¬ g.operates a ∧ ¬ g.accepts a) :
    Resting x (counted (Errand.count a) n frames) := by
  have same : counted (Errand.count a) n frames = n := by
    funext i
    rw [counted,List.countP_eq_zero.mpr,Nat.add_zero]
    intro g member
    cases i
    case operating => exact (apart g member).1
    case accepting => exact (apart g member).2
  rw [same]
  exact resting

theorem arise {cause : Cause} (resting : Resting x n) (step : arise a x cause = some (x',frames)) :
    Resting x' (counted (Errand.count a) n frames) := by
  obtain ⟨accepting,operating⟩ := resting
  simp only [Object.outstanding] at operating
  replace step := arise_arises step
  cases step
  all_goals
    refine ⟨by simp [counted_cons,counted_nil,Errand.count,Frame.accepts,accepting],fun now => ?_⟩
    have none := operating now
    simp [counted_cons,counted_nil,Errand.count,Object.outstanding,Frame.operates]
    omega

/-- A call that the cancelled async answers leaves it resting. -/
theorem call {call : Call} (resting : Resting x n) (step : request a x call = some (x',frames))
    (meets : ¬ call.misses x) : Resting x' (counted (Errand.count a) n frames) := by
  replace step := request_requests step
  cases step
  case operation op =>
    obtain ⟨accept,cancelled⟩ := not_or.mp meets
    constructor
    · rw [counted_cons,counted_nil,resting.accepting]
      cases op <;> first | rfl | exact absurd rfl accept
    · exact fun now => absurd now cancelled
  all_goals
    refine quiet ⟨resting.accepting,resting.operating⟩ ?_
    simp [Frame.operates,Frame.accepts]

end Resting

theorem resting_tracked (a : Id) : Tracked (Errand.count a) a Resting where
  owner := by
    intro i g counts
    cases i
    case operating =>
      simp only [Errand.count,Frame.operates] at counts
      split at counts <;> simp_all [Frame.owner,Frame.subject]
    case accepting =>
      simp only [Errand.count,Frame.accepts] at counts
      split at counts <;> simp_all [Frame.owner,Frame.subject]
  cancel := fun i => by cases i <;> rfl
  link := fun i p b => by cases i <;> rfl
  unlink := fun i p b => by cases i <;> rfl
  resume := fun i role pc last pc' last' => by cases i <;> rfl
  store := fun x phase n resting => ⟨resting.accepting,resting.operating⟩
  new := by
    intro kind timed parent _
    cases kind <;> cases timed <;> cases parent <;> constructor <;>
      simp [counted_cons,counted_nil,Errand.count,construct,fresh,Object.outstanding,Frame.operates,Frame.accepts]
  waitNew := by
    intro parent child
    constructor <;>
      simp [counted_cons,counted_nil,Errand.count,construct,freshWait,fresh,Object.outstanding,Frame.operates,
        Frame.accepts]

theorem resting_effect {a : Id} {c c' : Config} {event : Event} (known : Known c) (effect : Effect c event c')
    (meets : a < c.world.next → ∀ thread call, event = .run thread (.acts (.call a call)) →
      ¬ call.misses (c.world.asyncs a))
    (resting : a < c.world.next → Resting (c.world.asyncs a) (c.tallies (Errand.count a))) (made : a < c'.world.next) :
    Resting (c'.world.asyncs a) (c'.tallies (Errand.count a)) := by
  have before_eq {n : Errand → Nat} {frames : List Frame}
      (before : c.tallies (Errand.count a) = counted (Errand.count a) n frames)
      (apart : ∀ i, frames.countP (Errand.count a i) = 0) : c.tallies (Errand.count a) = n := by
    rw [before]
    funext i
    rw [counted,apart,Nat.add_zero]
  refine (resting_tracked a).effect known ?_ effect ?_ ?_ ?_ ?_ ?_ resting made
  · intro i e counts
    cases i <;> cases counts
  · intro thread f outcome x frames n known top _ subject step before
    have now := resting known
    rw [before] at now
    exact now.act subject step
  · intro thread role pc last call x frames n known top same step before
    have now := resting known
    rw [before_eq before (fun i => by cases i <;> rfl)] at now
    have next := now.call step (meets known thread call same)
    rwa [show counted (Errand.count a) n (frames ++ [.user (role.after a call) (pc + 1) last]) =
        counted (Errand.count a) n frames from ?_]
    funext i
    rw [counted,List.countP_append]
    cases i <;> rfl
  · intro thread role pc last err n known top _ before
    have now := resting known
    rw [before_eq before (fun i => by cases i <;> rfl)] at now
    apply now.quiet
    intro g member
    cases finish_mem member <;> simp [Frame.operates,Frame.accepts]
  · exact fun cause x frames known _ step => (resting known).arise step
  · exact fun _ _ _ _ _ _ _ _ _ => ⟨rfl,fun _ => rfl⟩

structure Silent (p n : Id) (c : Config) : Prop where
  flagged : ∀ a, Flagged a c
  canceled : p < c.world.next ∧ (c.world.asyncs p).canceled = true
  resting : ∀ a, a < c.world.next → OnBehalf p n c.world a → Resting (c.world.asyncs a) (c.tallies (Errand.count a))

namespace Silent
variable {p n : Id} {c c' : Config} {event : Event}

theorem effect (silent : Silent p n c) (withheld : Withheld p n c event) (effect : Effect c event c') :
    Silent p n c' where
  flagged := fun a => (silent.flagged a).effect effect
  canceled := canceled_persists effect silent.canceled.1 silent.canceled.2
  resting := by
    intro a made behalf
    have earlier (old : a < c.world.next) : OnBehalf p n c.world a :=
      behalf.imp_right (fun child => ⟨child.1,(effect.parent_kept old).symm.trans child.2⟩)
    refine resting_effect (silent.flagged p).known effect ?_ (fun old => silent.resting a old (earlier old)) made
    rintro old thread call rfl
    exact withheld (earlier old)

/-- An operation that is about to start its I/O is on its way, and has found no cancel. -/
theorem quiet (silent : Silent p n c) {f : Frame} (member : f ∈ c.threads.flatten) {a : Id}
    (behalf : OnBehalf p n c.world a) : ¬ (f.starts a ∨ f = .acceptEx a) := by
  have about : f.starts a ∨ f = .acceptEx a → f.owner = some a := by
    rintro (starts | rfl)
    · exact (starts_interior starts).1
    · rfl
  intro begins
  have made := (silent.flagged a).known.frame f member a (owner_mentions (about begins))
  have resting := silent.resting a made behalf
  have on {i : Errand} (counts : Errand.count a i f) : 0 < c.tallies (Errand.count a) i :=
    tally_pos member counts
  rcases begins with starts | rfl
  · -- what starts has found the flag unset, and then the async would be in no operation
    have running := (silent.flagged a).uncancelled made f member starts
    have none := resting.operating running
    have some := on (i := .operating) (starts_operates starts)
    omega
  · exact absurd resting.accepting (Nat.ne_of_gt (on (i := .accepting) (decide_eq_true rfl)))

end Silent

/-- A cancel of `p` is heard in the runs in which operations are called on asyncs made for it since only when
these are cancelled too, and no accept is under way or called for it. -/
theorem cancel_heard {p : Id} {c : Config} (run : Reachable (fun _ _ => True) c) (made : p < c.world.next)
    (canceled : (c.world.asyncs p).canceled = true) (quiet : ∀ f ∈ c.threads.flatten, ¬ f.accepts p) :
    Heard (Withheld p c.world.next) p c := by
  intro c' event later withheld _ a behalf begins
  have silent : Silent p c.world.next c' := by
    refine run_invariant ?_ later ⟨fun a => reachable_flagged run,⟨made,canceled⟩,?_⟩
    · rintro c c' silent ⟨event,withheld,step⟩
      exact silent.effect withheld (step_effect step)
    · rintro a made (rfl | ⟨since,-⟩)
      · refine ⟨tally_none quiet,fun running => ?_⟩
        rw [canceled] at running
        cases running
      · exact absurd made (Nat.not_lt.mpr since)
  unfold Config.Begins at begins
  split at begins
  · obtain ⟨f,top,starts⟩ := begins
    exact silent.quiet (Config.top_mem top) behalf starts
  · exact begins

/-- The first chunk of a message of two is sent, and its packet has brought its callback. -/
def firstChunkSent : List Event :=
  [.spawn,.run 0 (.acts (.new .async false none true)),.run 0 (.acts (.new .async true (some 0) true)),
    .run 0 .ok,.run 0 .ok,.run 0 .ok,.run 0 (.acts (.call 1 (.operation .send))),.run 0 .ok,.run 0 .ok,.run 0 .ok,
    .run 0 .ok,.run 0 .ok,.arise 1 .complete,.arise 1 (.dispatch 0),.run 2 .ok,.run 2 .ok,.run 2 .ok,.run 2 .ok,
    .run 2 .ok,.run 2 .ok]

def sendCancelled : List Event :=
  [.spawn,.run 3 (.acts (.call 0 .cancel)),.run 3 .ok,.run 3 .ok]

/-- The cancel reaches the first child, which has been notified, and ends there. The callback makes the
child for the second chunk and hands it to a send. -/
def secondChunkSent : List Event :=
  [.run 3 .ok,.run 3 .ok,.run 3 .ok,.run 3 (.fails 1168),.run 3 .ok,.run 3 .ok,.run 3 .ok,.run 3 .ok,.run 3 .ok,
    .run 2 (.acts (.new .async true (some 0) true)),.run 2 .ok,.run 2 .ok,.run 2 .ok,
    .run 2 (.acts (.call 2 (.operation .send))),.run 2 .ok,.run 2 .ok]

theorem cancel_heard_send : ∃ c, Reachable (fun _ _ => True) c ∧ (c.world.asyncs 0).child = some 1 ∧
    Heard (Withheld 0 2) 0 c := by
  obtain ⟨c,run,holds⟩ : ∃ c, Reachable (fun _ _ => True) c ∧ decide (c.world.next = 2 ∧
      (c.world.asyncs 0).canceled = true ∧ (c.world.asyncs 0).child = some 1 ∧
      ∀ f ∈ c.threads.flatten, ¬ f.accepts 0) = true :=
    replay_reachable (firstChunkSent ++ sendCancelled) (by decide)
  obtain ⟨next,canceled,child,quiet⟩ := of_decide_eq_true holds
  have heard := cancel_heard run (by rw [next]; decide) canceled quiet
  rw [next] at heard
  exact ⟨c,run,child,heard⟩

theorem cancel_unheard : ∃ c, Reachable (Sending 1 2 0) c ∧ (c.world.asyncs 0).canceled = true ∧
    (c.world.asyncs 0).uncompleted ∧ ¬ Heard (Sending 1 2 0) 0 c := by
  obtain ⟨c,run,holds⟩ : ∃ c, Reachable (Sending 1 2 0) c ∧ ((decide ((c.world.asyncs 0).canceled = true ∧
      (c.world.asyncs 0).uncompleted) && (replay (Sending 1 2 0) c secondChunkSent).any (fun c' =>
        decide (Sending 1 2 0 c' (.run 2 .ok)) && (c'.step (.run 2 .ok)).isSome &&
          decide (OnBehalf 0 c.world.next c'.world 2 ∧ c'.Begins 2 (.run 2 .ok)))) = true) :=
    replay_reachable (firstChunkSent ++ sendCancelled) (by decide)
  rw [Bool.and_eq_true,decide_eq_true_eq,Option.any_eq_true] at holds
  obtain ⟨⟨canceled,uncompleted⟩,c',later,holds⟩ := holds
  rw [Bool.and_eq_true,Bool.and_eq_true,decide_eq_true_eq,decide_eq_true_eq] at holds
  obtain ⟨⟨fine,steps⟩,behalf,begins⟩ := holds
  exact ⟨c,run,canceled,uncompleted,fun heard => heard c' _ (replay_steps later) fine steps 2 behalf begins⟩

/-- An async that a user keeps is cancelled and then handed to an accept. -/
theorem accept_unheard : ∃ c, Reachable (fun _ _ => True) c ∧ (c.world.asyncs 0).canceled = true ∧
    (c.world.asyncs 0).uncompleted ∧ ¬ Heard (fun _ _ => True) 0 c := by
  obtain ⟨c,run,holds⟩ : ∃ c, Reachable (fun _ _ => True) c ∧ ((decide ((c.world.asyncs 0).canceled = true ∧
      (c.world.asyncs 0).uncompleted) && (replay (fun _ _ => True) c [.run 0 .ok,.run 0 .ok,.run 0 .ok,.run 0 .ok,
        .run 0 .ok,.run 0 .ok,.run 0 (.acts (.finish 0)),.run 0 .ok,
        .run 0 (.acts (.call 0 (.operation .accept))),.run 0 .ok]).any (fun c' =>
          (c'.step (.run 0 .ok)).isSome && decide (c'.Begins 0 (.run 0 .ok)))) = true) :=
    replay_reachable [.spawn,.run 0 (.acts (.new .async false none true)),.run 0 (.acts (.call 0 .addRef)),
      .run 0 (.acts (.call 0 .cancel)),.run 0 .ok,.run 0 .ok] (by decide)
  rw [Bool.and_eq_true,decide_eq_true_eq,Option.any_eq_true] at holds
  obtain ⟨⟨canceled,uncompleted⟩,c',later,holds⟩ := holds
  rw [Bool.and_eq_true,decide_eq_true_eq] at holds
  obtain ⟨steps,begins⟩ := holds
  exact ⟨c,run,canceled,uncompleted,
    fun heard => heard c' _ (replay_steps later) trivial steps 0 (Or.inl rfl) begins⟩

end Xrossfire.Async
