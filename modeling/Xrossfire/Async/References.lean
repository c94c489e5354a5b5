import Xrossfire.Async.Accounting

/-! The reference count of an async that its users keep alive while they call it. -/
namespace Xrossfire.Async
open Library

namespace Config

def completion (c : Config) (a : Id) : Nat :=
  (if (c.world.asyncs a).called then 0 else 1) + c.shares a .completion

/-- The timer's reference is out until a successful `xf_timeout_cancel` or `async_timeout` has released it. -/
def timer (c : Config) (a : Id) : Nat := (if (c.world.asyncs a).armed then 1 else 0) + c.shares a .timer

def enters (c : Config) (a : Id) : Nat := c.shares a .enter

def users (c : Config) (a : Id) : Nat := (c.world.asyncs a).trace.held + c.shares a .user

end Config

/-- The program points of `xf_async_release` after the count has reached 0. -/
def Frame.destroys : Frame → Bool
  | .destroy _ | .unlink _ _ | .clear _ => true
  | _ => false

def Outcome.calls (a : Id) : Outcome → Bool
  | .acts (.call b _) => b = a
  | _ => false

/-- Calls on `a`, and the steps they take, happen while its count is positive. -/
def Alive (a : Id) (c : Config) : Event → Prop
  | .run thread outcome =>
    (∀ f ∈ c.top thread, f.subject = some a → f.destroys = false → 0 < (c.world.asyncs a).ref) ∧
      (outcome.calls a → 0 < (c.world.asyncs a).ref)
  | _ => True

instance (a : Id) (c : Config) (event : Event) : Decidable (Alive a c event) :=
  match event with
  | .run _ _ => inferInstanceAs (Decidable (_ ∧ _))
  | .spawn | .arise _ _ => isTrue trivial

structure Accounted (c : Config) (a : Id) : Prop where
  references : (c.world.asyncs a).ref = c.completion a + c.timer a + c.enters a + c.users a
  completion : c.completion a ≤ 1
  timer : c.timer a ≤ 1
  once : (c.world.asyncs a).trace.callbacks.length ≤ 1
  winner : ∀ e ∈ (c.world.asyncs a).trace.callbacks, (c.world.asyncs a).trace.winner = some e
  /-- With the last reference gone the callback has been called and has returned. -/
  returned : (c.world.asyncs a).ref ≤ 0 → (c.world.asyncs a).trace.callbacks.length = 1 ∧
    ∀ f ∈ c.threads.flatten, ∀ e pc last, f ≠ .complete a e ∧ f ≠ .user (.completed a e) pc last
  /-- An async that is being destroyed has no timer in the tree, nor had one when that began. -/
  destroyed : .destroy a ∈ c.threads.flatten → (c.world.asyncs a).ref ≤ 0 ∧ (c.world.asyncs a).armed = false
  dropped : (c.world.asyncs a).trace.dropped = 0

def Dying (a : Id) (x : Object) (f : Frame) : Prop := f = .destroy a → x.ref ≤ 0

theorem act_ref {thread : Nat} {a : Id} {x x' : Object} {f : Frame} {outcome : Outcome} {frames : List Frame}
    (subject : f.subject = some a) (step : act thread x f outcome = some (x',frames)) :
    (x.ref < x'.ref → f.destroys = false) ∧ (.destroy a ∈ frames → x'.ref ≤ 0) ∧
      (x'.trace.dropped ≠ x.trace.dropped → f = .destroy a ∧ x.armed = true) := by
  replace step := act_acts step
  cases step <;> cases subject
  all_goals simp_all [Frame.destroys,Object.witness,Object.invoke,Object.answer,Object.decrement,Object.lock,
    Object.unlock,Object.prepare,Object.clearTimer]

theorem dying_interior (a : Id) : Interior (Dying a) a where
  point := by
    rintro x f apart rfl
    exact absurd ⟨rfl,rfl⟩ apart
  arise := by
    intro x x' frames cause step g dying destroy
    rw [(arise_trace step).2.2]
    exact dying destroy
  store := fun x phase g dying => dying

def Undropped (x : Object) : Prop := x.kind = .async → x.trace.dropped = 0

structure Lively (a : Id) (c : Config) : Prop where
  audited : Audited c
  dying : a < c.world.next → c.Each (Dying a) a
  undropped : a < c.world.next → Undropped (c.world.asyncs a)

namespace Lively
variable {a : Id} {c c' : Config} {event : Event}

theorem dying_effect (lively : Lively a c) (alive : Alive a c event) (effect : Effect c event c')
    (made : a < c'.world.next) : c'.Each (Dying a) a := by
  apply (dying_interior a).effect lively.audited.known effect _ _ lively.dying made
  · rintro thread f outcome x frames top rfl subject step
    obtain ⟨rises,pushed,-⟩ := act_ref subject step
    refine ⟨fun g member destroy => pushed (destroy ▸ member),?_⟩
    intro g member dying destroy
    have low := dying destroy
    by_contra high
    have positive := alive.1 f top subject (rises (by omega))
    omega
  · rintro thread call x frames rfl step g dying destroy
    have positive := alive.2 (by simp [Outcome.calls])
    have low := dying destroy
    omega

/-- The references of an async that has lost none to a destruction. -/
theorem references (accounts : Accounts c a) (kind : (c.world.asyncs a).kind = .async)
    (dropped : (c.world.asyncs a).trace.dropped = 0) :
    (c.world.asyncs a).ref = c.completion a + c.timer a + c.enters a + c.users a := by
  have law := accounts.balanced.references
  have given := accounts.given kind
  rw [dropped] at law
  simp only [Config.completion,Config.timer,Config.enters,Config.users]
  cases called : (c.world.asyncs a).called <;> cases armed : (c.world.asyncs a).armed <;>
    simp only [called,armed,toInt,if_true,Bool.false_eq_true,if_false] at law given ⊢ <;> omega

theorem undropped_effect (lively : Lively a c) (effect : Effect c event c') (made : a < c'.world.next) :
    Undropped (c'.world.asyncs a) := by
  apply object_effect effect _ _ _ _ _ _ _ lively.undropped made
  · intro thread f outcome x frames top _ subject step undropped kind
    rw [(act_fixed step).2] at kind
    obtain ⟨-,-,drops⟩ := act_ref subject step
    have before := undropped kind
    by_contra changed
    obtain ⟨rfl,armed⟩ := drops (fun same => changed (same.trans before))
    have known := lively.audited.known.subject top subject
    have low := lively.dying known _ (Config.top_mem top) rfl
    have law := references (lively.audited.accounts a known) kind before
    simp only [Config.timer,armed,if_true] at law
    omega
  · intro x x' call frames step undropped kind
    obtain ⟨-,-,-,-,same⟩ := request_trace step
    rw [same]
    exact undropped ((request_mentions step).2.2.2 ▸ kind)
  · intro x x' cause frames step undropped kind
    rw [(arise_trace step).1]
    exact undropped ((arise_mentions step).2.2.2 ▸ kind)
  · exact fun x phase undropped => undropped
  all_goals
    intros
    intro kind
    rfl

theorem effect (lively : Lively a c) (alive : Alive a c event) (effect : Effect c event c') : Lively a c' where
  audited := lively.audited.effect effect
  dying := dying_effect lively alive effect
  undropped := undropped_effect lively effect

theorem accounted (lively : Lively a c) (made : a < c.world.next) (kind : (c.world.asyncs a).kind = .async) :
    Accounted c a := by
  have accounts := lively.audited.accounts a made
  have dropped := lively.undropped made kind
  have law := references accounts kind dropped
  have given := accounts.given kind
  have completions := accounts.balanced.completions
  have timers := accounts.balanced.timers
  have armings := accounts.balanced.armings
  have callbacks := accounts.balanced.callbacks
  refine ⟨law,?_,?_,?_,accounts.winners,?_,?_,dropped⟩
  · simp only [Config.completion]
    cases called : (c.world.asyncs a).called <;>
      simp only [called,toInt,if_true,Bool.false_eq_true,if_false] at given ⊢ <;> omega
  · simp only [Config.timer]
    cases timed : (c.world.asyncs a).trace.timed <;> cases armed : (c.world.asyncs a).armed <;>
      simp only [timed,armed,toInt,if_true,Bool.false_eq_true,if_false] at timers armings ⊢ <;> omega
  · cases called : (c.world.asyncs a).called <;>
      simp only [called,toInt,if_true,Bool.false_eq_true,if_false] at callbacks <;> omega
  · intro low
    have none : c.shares a .completion = 0 := by
      simp only [Config.completion] at law
      omega
    have called : (c.world.asyncs a).called = true := by
      cases called : (c.world.asyncs a).called with
      | true => rfl
      | false =>
        simp only [Config.completion,called,Bool.false_eq_true,if_false] at law
        omega
    have apart {f : Frame} (member : f ∈ c.threads.flatten) (share : f.share = some (a,.completion)) : False :=
      tally_zero none member (by simpa using share)
    refine ⟨?_,?_⟩
    · have quiet : tally (fun f => f.completes a) c.threads = 0 := by
        apply tally_none
        intro f member completes
        cases f with
        | complete b e => exact apart member (by simpa [Frame.share,Frame.completes] using completes)
        | _ => cases completes
      simp only [called,toInt,if_true] at callbacks
      omega
    · intro f member e pc last
      refine ⟨?_,?_⟩ <;> rintro rfl <;> exact apart member rfl
  · intro destroy
    have low := lively.dying made _ destroy rfl
    refine ⟨low,?_⟩
    cases armed : (c.world.asyncs a).armed with
    | false => rfl
    | true =>
      simp only [Config.timer,armed,if_true] at law
      omega

end Lively

/-- Whatever threads do with a plain async that is alive, its count is the number of its references. -/
theorem reachable_accounted {a : Id} {c : Config} (run : Reachable (Alive a) c) (made : a < c.world.next)
    (kind : (c.world.asyncs a).kind = .async) : Accounted c a := by
  have lively : Lively a c := by
    refine run_invariant ?_ run ⟨⟨start_known,fun b made => absurd made (Nat.not_lt_zero b)⟩,?_,?_⟩
    · intro c c' lively step
      obtain ⟨event,alive,step⟩ := step
      exact lively.effect alive (step_effect step)
    · exact fun made => absurd made (Nat.not_lt_zero a)
    · exact fun made => absurd made (Nat.not_lt_zero a)
  exact lively.accounted made kind

/-- A timed async made, given a user's reference, entered and notified under its monitor: the notify has
disarmed the timer and not yet released its reference. -/
def notified : List Event :=
  [.spawn,.run 0 (.acts (.new .async true none true)),.run 0 .ok,.run 0 .ok,.run 0 (.acts (.call 0 .addRef)),
    .run 0 (.acts (.call 0 .enter)),.run 0 .ok,.run 0 (.acts (.call 0 (.notify 7))),.run 0 .ok]

theorem reachable_accounted_notified : ∃ c, Reachable (Alive 0) c ∧ (c.world.asyncs 0).ref = 4 ∧
    c.shares 0 .timer = 1 ∧ Accounted c 0 := by
  obtain ⟨c,run,holds⟩ : ∃ c, Reachable (Alive 0) c ∧ decide (0 < c.world.next ∧
      (c.world.asyncs 0).kind = .async ∧ (c.world.asyncs 0).ref = 4 ∧ c.shares 0 .timer = 1) = true :=
    replay_reachable notified (by decide)
  obtain ⟨made,kind,ref,timer⟩ := of_decide_eq_true holds
  exact ⟨c,run,ref,timer,reachable_accounted run made kind⟩

end Xrossfire.Async
