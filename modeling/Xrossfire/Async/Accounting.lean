import Xrossfire.Async.Account

/-! The reference count of an async against the holders of its references. -/
namespace Xrossfire.Async
open Library

inductive Law
  /-- `ref` counts the shares that are out. -/
  | references
  /-- A timer's reference is taken, and then armed, on its way to a release, or released. -/
  | timers
  /-- At most one timer reference is ever taken. -/
  | armings
  /-- A completion reference is given to one release. -/
  | completions
  /-- The notify that sets `called` calls `completed` once. -/
  | callbacks

/-- `_xf_async_async_notify` about to call `completed` of `a`. -/
def Frame.completes (a : Id) : Frame → Bool
  | .complete b _ => b = a
  | _ => false

def toInt (b : Bool) : Int := if b then 1 else 0

def Law.object (x : Object) : Law → Int
  | references => x.ref + x.trace.given - toInt x.armed - x.trace.dropped - x.trace.held
  | timers => x.trace.timers - x.trace.timersDone - toInt x.armed - x.trace.dropped
  | armings => x.trace.timers - toInt x.trace.timed
  | completions => x.trace.given - x.trace.givenDone
  | callbacks => x.trace.callbacks.length - toInt x.called

def Law.frame (a : Id) : Law → Frame → Int
  | references,f => match f.share with | some (b,_) => if b = a then -1 else 0 | none => 0
  | timers,f => if f.share = some (a,.timer) then -1 else 0
  | armings,f => if f = .newRef a then 1 else 0
  | completions,f => if f.share = some (a,.completion) then -1 else 0
  | callbacks,f => if f.completes a then 1 else 0

def Law.account (l : Law) (a : Id) : Account := ⟨l.object,l.frame a⟩

def Law.start : Law → Int
  | references => 1
  | _ => 0

theorem share_owner {f : Frame} {a : Id} {s : Share} (share : f.share = some (a,s)) : f.owner = some a := by
  unfold Frame.share at share
  split at share <;> cases share <;> rfl

theorem Law.frame_apart {l : Law} {a : Id} {f : Frame} (apart : f.owner ≠ some a) : l.frame a f = 0 := by
  have away (s : Share) : f.share ≠ some (a,s) := fun share => apart (share_owner share)
  cases l
  case references =>
    simp only [frame]
    split
    · next b s share =>
      rw [if_neg]
      exact fun same => away s (same ▸ share)
    · rfl
  case timers => exact if_neg (away .timer)
  case completions => exact if_neg (away .completion)
  case armings =>
    apply if_neg
    rintro rfl
    exact apart rfl
  case callbacks =>
    apply if_neg
    intro completes
    cases f <;> simp_all [Frame.completes,Frame.owner,Frame.subject]

theorem Law.account_about (l : Law) (a : Id) : (l.account a).About a l.start where
  owner := fun g apart => frame_apart apart
  resume := by
    intro role pc last pc' last'
    cases l <;> cases role <;> rfl
  store := by
    intro x phase
    cases l <;> rfl
  finish := by
    intro err role
    cases l <;> cases role <;> simp [account,frame,finish,Frame.share,Frame.completes]
    all_goals split <;> simp [Frame.share,Frame.completes,frame]
  call := by
    intro x x' frames role call step
    replace step := request_requests step
    cases step
    all_goals cases l <;> cases role <;> try rfl
    all_goals simp [Account.of,account,object,frame,Frame.share,Role.after]
    all_goals omega
  arise := by
    intro x x' frames cause step
    replace step := arise_arises step
    cases step
    all_goals cases l <;> simp [Account.of,account,object,frame,Frame.share,Frame.completes,toInt, *]
    all_goals omega
  new := by
    intro kind timed parent made
    cases l <;> cases timed <;> cases parent <;> cases kind <;> try rfl
    all_goals simp [Account.of,account,object,start,frame,construct,fresh,toInt]
  unmade := by
    intro parent
    cases l <;> rfl
  waitNew := by
    intro parent child
    cases l <;> simp [Account.of,account,object,start,frame,Frame.share,Frame.completes,construct,freshWait,fresh,toInt]

theorem Law.account_act {l : Law} {thread : Nat} {a : Id} {x x' : Object} {f : Frame} {outcome : Outcome}
    {frames : List Frame}
    (subject : f.subject = some a) (unarmed : f = .newArm a → x.armed = false)
    (step : act thread x f outcome = some (x',frames)) :
    (l.account a).of x' frames = (l.account a).of x [f] := by
  replace step := act_acts step
  cases step <;> cases subject
  all_goals cases l
  -- most steps leave most balances alone
  all_goals try rfl
  all_goals simp [Account.of,account,object,frame,Frame.share,Frame.completes,Object.witness,
    Object.answer,Object.decrement,Object.lock,Object.clearTimer,toInt, *]
  -- left are the steps that move a reference
  all_goals first
    | omega
    | (split <;> omega)

namespace Config

def shares (c : Config) (a : Id) (share : Share) : Nat := tally (fun f => f.share = some (a,share)) c.threads

end Config

theorem references_shares (a : Id) (threads : List (List Frame)) :
    weigh (Law.references.frame a) threads = -(tally (fun f => f.share = some (a,.completion)) threads +
      tally (fun f => f.share = some (a,.timer)) threads + tally (fun f => f.share = some (a,.enter)) threads +
      tally (fun f => f.share = some (a,.user)) threads) := by
  simp only [weigh,tally]
  induction threads.flatten with
  | nil => rfl
  | cons f points ih =>
    simp only [List.map_cons,List.sum_cons,List.countP_cons,ih,Law.frame]
    cases f.share with
    | none => simp
    | some share =>
      obtain ⟨b,s⟩ := share
      by_cases same : b = a
      · subst same
        cases s <;> simp <;> omega
      · simp [same]

def Balanced (c : Config) (a : Id) : Prop := ∀ l : Law, (l.account a).balance c a = l.start

namespace Balanced
variable {c : Config} {a : Id}

theorem references (balanced : Balanced c a) :
    (c.world.asyncs a).ref + (c.world.asyncs a).trace.given = 1 + toInt (c.world.asyncs a).armed +
      (c.world.asyncs a).trace.dropped + (c.world.asyncs a).trace.held + c.shares a .completion +
      c.shares a .timer + c.shares a .enter + c.shares a .user := by
  have law := balanced .references
  simp only [Account.balance,Law.account,Law.object,Law.start,references_shares] at law
  simp only [Config.shares]
  omega

theorem timers (balanced : Balanced c a) :
    toInt (c.world.asyncs a).armed + (c.world.asyncs a).trace.dropped + c.shares a .timer +
      (c.world.asyncs a).trace.timersDone = (c.world.asyncs a).trace.timers := by
  have law := balanced .timers
  have count : weigh (Law.timers.frame a) c.threads = -1 * c.shares a .timer :=
    weigh_scale (-1) (fun f : Frame => f.share = some (a,.timer)) c.threads
  simp only [Account.balance,Law.account,Law.object,Law.start,count] at law
  omega

theorem completions (balanced : Balanced c a) :
    c.shares a .completion + (c.world.asyncs a).trace.givenDone = (c.world.asyncs a).trace.given := by
  have law := balanced .completions
  have count : weigh (Law.completions.frame a) c.threads = -1 * c.shares a .completion :=
    weigh_scale (-1) (fun f : Frame => f.share = some (a,.completion)) c.threads
  simp only [Account.balance,Law.account,Law.object,Law.start,count] at law
  omega

theorem armings (balanced : Balanced c a) :
    (c.world.asyncs a).trace.timers + tally (fun f => f = .newRef a) c.threads =
      toInt (c.world.asyncs a).trace.timed := by
  have law := balanced .armings
  have count : weigh (Law.armings.frame a) c.threads = 1 * tally (fun f => f = .newRef a) c.threads :=
    weigh_scale 1 (fun f : Frame => f = .newRef a) c.threads
  simp only [Account.balance,Law.account,Law.object,Law.start,count] at law
  omega

theorem callbacks (balanced : Balanced c a) :
    (c.world.asyncs a).trace.callbacks.length + tally (fun f => f.completes a) c.threads =
      toInt (c.world.asyncs a).called := by
  have law := balanced .callbacks
  have count : weigh (Law.callbacks.frame a) c.threads = 1 * tally (fun f => f.completes a) c.threads := by
    have scaled := weigh_scale 1 (fun f : Frame => f.completes a = true) c.threads
    simp only [Bool.decide_eq_true] at scaled
    exact scaled
  simp only [Account.balance,Law.account,Law.object,Law.start,count] at law
  omega

/-- A second timer is never about to be scheduled. -/
theorem unarmed (balanced : Balanced c a) (arming : .newArm a ∈ c.threads.flatten) :
    (c.world.asyncs a).armed = false := by
  have timers := balanced.timers
  have armings := balanced.armings
  have one : 0 < c.shares a .timer := tally_pos arming (by simp [Frame.share])
  cases armed : (c.world.asyncs a).armed with
  | false => rfl
  | true =>
    have timed : toInt (c.world.asyncs a).trace.timed ≤ 1 := by
      unfold toInt
      split <;> decide
    simp only [armed,toInt,if_true] at timers armings timed
    omega

theorem effect {c' : Config} {event : Event} (known : Known c) (effect : Effect c event c')
    (balanced : a < c.world.next → Balanced c a) (made : a < c'.world.next) : Balanced c' a := by
  intro l
  apply (l.account_about a).effect known effect _ _ (fun old => balanced old l) made
  · intro thread f outcome x frames top _ subject step
    apply Law.account_act subject _ step
    rintro rfl
    exact (balanced (known.subject top subject)).unarmed (Config.top_mem top)
  · intro thread f outcome b x frames top _ ne subject step
    apply (l.account_about a).quiet _ _ _ _ ne subject step
    all_goals cases l <;> simp [Law.account,Law.frame,Frame.share,Frame.completes]

end Balanced

/-! ## Kinds and callbacks -/

def Typed (a : Id) (x : Object) (f : Frame) : Prop := ∀ k, f.kind = some (a,k) → x.kind = k

theorem kind_owner {f : Frame} {a : Id} {k : Kind} (kind : f.kind = some (a,k)) : f.owner = some a := by
  unfold Frame.kind at kind
  split at kind <;> cases kind <;> rfl

theorem act_kind {thread : Nat} {a : Id} {x x' : Object} {f : Frame} {outcome : Outcome} {frames : List Frame}
    (subject : f.subject = some a) (step : act thread x f outcome = some (x',frames)) :
    ∀ g ∈ frames, ∀ b k, g.kind = some (b,k) → b = a ∧ (f.kind = some (a,k) ∨ x.kind = k) := by
  replace step := act_acts step
  cases step <;> cases subject
  all_goals simp_all [Frame.kind]

theorem typed_each (a : Id) : Each (Typed a) a where
  owner := fun x g apart k kind => absurd (kind_owner kind) apart
  resume := by
    intro x role pc last pc' last' typed
    cases role <;> exact typed
  after := by
    intro x role b call pc last typed
    cases role <;> cases call <;> exact typed
  store := fun _ _ _ typed => typed
  finish := by
    intro x err role typed g member
    cases finish_mem member with
    | completed | entered =>
      intro k kind
      cases kind
    | failed _ | returned => exact typed
  arise := by
    intro x x' frames cause step
    obtain ⟨-,-,-,kind⟩ := arise_mentions step
    refine ⟨?_,fun g typed k about => kind ▸ typed k about⟩
    replace step := arise_arises step
    cases step
    all_goals simp [Typed,Frame.kind]
  new := by
    intro kind timed parent g member k about
    rcases construct_mem member with ⟨p,-,rfl⟩ | rfl | ⟨multi,rfl⟩
    · cases about
    · cases about
    · cases about
      exact multi
  waitNew := by
    intro parent child g member k about
    rcases construct_mem member with ⟨p,-,rfl⟩ | rfl | ⟨multi,-⟩
    · cases about
    · cases about
    · cases multi

theorem typed_effect {c c' : Config} {event : Event} {a : Id} (known : Known c) (effect : Effect c event c')
    (typed : a < c.world.next → c.Each (Typed a) a) (made : a < c'.world.next) : c'.Each (Typed a) a := by
  apply (typed_each a).effect known effect _ _ _ typed made
  · intro thread f outcome x frames top _ subject step
    obtain ⟨-,kind⟩ := act_fixed step
    refine ⟨?_,fun g _ old k about => kind ▸ old k about⟩
    intro g member k about
    rw [kind]
    obtain ⟨-,origin | here⟩ := act_kind subject step g member a k about
    · exact typed (known.subject top subject) f (Config.top_mem top) k origin
    · exact here
  · intro thread f outcome b x frames top _ ne subject step g member k about
    exact absurd (act_kind subject step g member a k about).1.symm ne
  · intro thread call x frames _ step
    obtain ⟨-,-,-,kind⟩ := request_mentions step
    refine ⟨?_,fun g _ old k about => kind ▸ old k about⟩
    replace step := request_requests step
    cases step
    all_goals simp [Typed,Frame.kind]

theorem act_given {thread : Nat} {a : Id} {x x' : Object} {f : Frame} {outcome : Outcome} {frames : List Frame}
    (subject : f.subject = some a) (typed : Typed a x f) (kind : x.kind = .async)
    (step : act thread x f outcome = some (x',frames)) :
    x'.trace.given - toInt x'.called = x.trace.given - toInt x.called := by
  replace step := act_acts step
  cases step <;> cases subject
  all_goals simp_all [Typed,Frame.kind,Object.witness,Object.decrement,Object.lock,Object.unlock,Object.prepare,
    Object.clearTimer,toInt]

theorem act_winner {thread : Nat} {a : Id} {x x' : Object} {f : Frame} {outcome : Outcome} {frames : List Frame}
    (subject : f.subject = some a) (step : act thread x f outcome = some (x',frames)) :
    (x'.trace.winner = x.trace.winner ∨ x.called = false) ∧
      (∀ e, .complete a e ∈ frames → x'.trace.winner = some e) ∧
      ∀ e ∈ x'.trace.callbacks, e ∈ x.trace.callbacks ∨ f = .complete a e := by
  replace step := act_acts step
  cases step <;> cases subject
  all_goals simp_all [Object.witness,Object.invoke,Object.answer,Object.decrement,Object.lock,
    Object.unlock,Object.prepare,Object.clearTimer]

theorem request_trace {a : Id} {x x' : Object} {call : Call} {frames : List Frame}
    (step : request a x call = some (x',frames)) :
    x'.trace.given = x.trace.given ∧ x'.called = x.called ∧ x'.trace.winner = x.trace.winner ∧
      x'.trace.callbacks = x.trace.callbacks ∧ x'.trace.dropped = x.trace.dropped := by
  replace step := request_requests step
  cases step
  all_goals exact ⟨rfl,rfl,rfl,rfl,rfl⟩

theorem arise_trace {a : Id} {x x' : Object} {cause : Cause} {frames : List Frame}
    (step : arise a x cause = some (x',frames)) : x'.trace = x.trace ∧ x'.called = x.called ∧ x'.ref = x.ref := by
  replace step := arise_arises step
  cases step
  all_goals exact ⟨rfl,rfl,rfl⟩

theorem arise_canceled {a : Id} {x x' : Object} {cause : Cause} {frames : List Frame}
    (step : arise a x cause = some (x',frames)) : x'.canceled = x.canceled := by
  replace step := arise_arises step
  cases step
  all_goals rfl

theorem request_canceled {a : Id} {x x' : Object} {call : Call} {frames : List Frame}
    (step : request a x call = some (x',frames)) : x'.canceled = x.canceled := by
  replace step := request_requests step
  cases step
  all_goals rfl

def Won (a : Id) (x : Object) (f : Frame) : Prop := ∀ e, f = .complete a e → x.trace.winner = some e

theorem won_interior (a : Id) : Interior (Won a) a where
  point := by
    rintro x f apart e rfl
    exact absurd ⟨rfl,rfl⟩ apart
  arise := by
    intro x x' frames cause step g won e complete
    rw [(arise_trace step).1]
    exact won e complete
  store := fun x phase g won => won

def Given (x : Object) : Prop := x.kind = .async → (x.trace.given : Int) = toInt x.called

def Winners (x : Object) : Prop := ∀ e ∈ x.trace.callbacks, x.trace.winner = some e

structure Accounts (c : Config) (a : Id) : Prop where
  balanced : Balanced c a
  typed : c.Each (Typed a) a
  given : Given (c.world.asyncs a)
  won : c.Each (Won a) a
  winners : Winners (c.world.asyncs a)

namespace Accounts
variable {c c' : Config} {event : Event} {a : Id}

/-- Before `called` is set nobody has called `completed` or is about to. -/
theorem uncalled (accounts : Accounts c a) (called : (c.world.asyncs a).called = false) :
    (c.world.asyncs a).trace.callbacks = [] ∧ ∀ e, .complete a e ∉ c.threads.flatten := by
  have law := accounts.balanced.callbacks
  simp only [called,toInt,Bool.false_eq_true,if_false] at law
  have none : tally (fun f => f.completes a) c.threads = 0 := by omega
  refine ⟨List.eq_nil_of_length_eq_zero (by omega),?_⟩
  intro e member
  exact tally_zero none member (by simp [Frame.completes])

/-- Whoever releases the last reference of a plain async does so after its callback was called. -/
theorem last (accounts : Accounts c a) (kind : (c.world.asyncs a).kind = .async) {share : Share}
    (releasing : .release a share ∈ c.threads.flatten) (ref : (c.world.asyncs a).ref ≤ 1) :
    (c.world.asyncs a).trace.callbacks ≠ [] := by
  have law := accounts.balanced.references
  have given := accounts.given kind
  have callbacks := accounts.balanced.callbacks
  have one : 0 < c.shares a share := tally_pos releasing (by simp [Frame.share])
  have inside : tally (fun f => f.completes a) c.threads + tally (fun f => f = .release a .completion) c.threads ≤
      c.shares a .completion := by
    apply tally_add_le
    · intro f completes
      cases f <;> simp_all [Frame.completes,Frame.share]
    · intro f release
      simp_all [Frame.share]
  have armed : 0 ≤ toInt (c.world.asyncs a).armed := by
    unfold toInt
    split <;> decide
  have called : toInt (c.world.asyncs a).called ≤ 1 := by
    unfold toInt
    split <;> decide
  intro empty
  rw [empty,List.length_nil] at callbacks
  cases share with
  | completion =>
    have here : 0 < tally (fun f => f = .release a .completion) c.threads := tally_pos releasing (by simp)
    omega
  | timer | enter | user => omega

theorem given_effect (known : Known c) (effect : Effect c event c')
    (accounts : a < c.world.next → Accounts c a) (made : a < c'.world.next) : Given (c'.world.asyncs a) := by
  apply object_effect effect _ _ _ _ _ _ _ (fun old => (accounts old).given) made
  · intro thread f outcome x frames top _ subject step given kind
    rw [(act_fixed step).2] at kind
    have typed := (accounts (known.subject top subject)).typed f (Config.top_mem top)
    have moved := act_given subject typed kind step
    have before := given kind
    omega
  · intro x x' call frames step given kind
    obtain ⟨same,called,-⟩ := request_trace step
    rw [same,called]
    exact given ((request_mentions step).2.2.2 ▸ kind)
  · intro x x' cause frames step given kind
    obtain ⟨same,called,-⟩ := arise_trace step
    rw [same,called]
    exact given ((arise_mentions step).2.2.2 ▸ kind)
  · exact fun x phase given => given
  · exact fun _ _ _ _ _ => rfl
  · intro parent kind
    cases kind
  · intro parent child kind
    cases kind

theorem won_effect (known : Known c) (effect : Effect c event c')
    (accounts : a < c.world.next → Accounts c a) (made : a < c'.world.next) : c'.Each (Won a) a := by
  apply (won_interior a).effect known effect _ _ (fun old => (accounts old).won) made
  · intro thread f outcome x frames top _ subject step
    obtain ⟨winner,pushed,-⟩ := act_winner subject step
    refine ⟨fun g member e complete => pushed e (complete ▸ member),?_⟩
    intro g member won e complete
    rcases winner with same | called
    · rw [same]
      exact won e complete
    · exact absurd (complete ▸ member) (((accounts (known.subject top subject)).uncalled called).2 e)
  · intro thread call x frames _ step g won e complete
    rw [(request_trace step).2.2.1]
    exact won e complete

theorem winners_effect (known : Known c) (effect : Effect c event c')
    (accounts : a < c.world.next → Accounts c a) (made : a < c'.world.next) : Winners (c'.world.asyncs a) := by
  apply object_effect effect _ _ _ _ _ _ _ (fun old => (accounts old).winners) made
  · intro thread f outcome x frames top _ subject step winners e member
    have accounts := accounts (known.subject top subject)
    obtain ⟨winner,-,origin⟩ := act_winner subject step
    have won : (c.world.asyncs a).trace.winner = some e := by
      rcases origin e member with old | complete
      · exact winners e old
      · exact accounts.won f (Config.top_mem top) e complete
    rcases winner with same | called
    · rw [same,won]
    · obtain ⟨empty,apart⟩ := accounts.uncalled called
      rcases origin e member with old | complete
      · rw [empty] at old
        cases old
      · exact absurd (complete ▸ Config.top_mem top) (apart e)
  · intro x x' call frames step winners
    obtain ⟨-,-,winner,callbacks,-⟩ := request_trace step
    rw [Winners,winner,callbacks]
    exact winners
  · intro x x' cause frames step winners
    rw [Winners,(arise_trace step).1]
    exact winners
  · exact fun x phase winners => winners
  all_goals
    intros
    intro e member
    cases member

theorem effect (known : Known c) (effect : Effect c event c') (accounts : a < c.world.next → Accounts c a)
    (made : a < c'.world.next) : Accounts c' a where
  balanced := Balanced.effect known effect (fun old => (accounts old).balanced) made
  typed := typed_effect known effect (fun old => (accounts old).typed) made
  given := given_effect known effect accounts made
  won := won_effect known effect accounts made
  winners := winners_effect known effect accounts made

end Accounts

structure Audited (c : Config) : Prop where
  known : Known c
  accounts : ∀ a < c.world.next, Accounts c a

theorem Audited.effect {c c' : Config} {event : Event} (audited : Audited c) (effect : Effect c event c') :
    Audited c' :=
  ⟨audited.known.effect effect,fun a made => Accounts.effect audited.known effect (audited.accounts a) made⟩

theorem reachable_audited {allowed : Config → Event → Prop} {c : Config} (run : Reachable allowed c) :
    Audited c := by
  refine run_invariant ?_ run ⟨start_known,fun a made => absurd made (Nat.not_lt_zero a)⟩
  intro c c' audited step
  obtain ⟨event,-,step⟩ := step
  exact audited.effect (step_effect step)

end Xrossfire.Async
