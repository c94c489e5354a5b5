import Xrossfire.Async.Initialization
import Xrossfire.Library.Simulation

/-! The asyncs with the timer tree refine the machine of the asyncs, as long as no cancel finds the timer of
another async: the machine's timers are those in the tree, and each has one reference. -/
namespace Xrossfire.Async
open Library Relation

def World.rearm (w : World) (armed : Id → Bool) : World :=
  ⟨fun a => {w.asyncs a with armed := armed a},w.next⟩

def Config.rearm (c : Config) (armed : Id → Bool) : Config := ⟨c.world.rearm armed,c.threads⟩

variable {w w' : World} {c c' : Config} {armed armed' : Id → Bool}

theorem rearm_set {a : Id} {x : Object} (apart : ∀ b ≠ a, armed' b = armed b) :
    (w.set a x).rearm armed' = (w.rearm armed).set a {x with armed := armed' a} := by
  simp only [World.rearm,World.set,World.mk.injEq,and_true]
  ext b : 1
  by_cases same : b = a
  · subst same
    simp only [Function.update_self]
  · simp only [Function.update_of_ne same,apart b same]

theorem rearm_make {x : Object} (new : x.armed = armed w.next) : (w.make x).rearm armed = (w.rearm armed).make x := by
  simp only [World.rearm,World.make,World.mk.injEq,and_true]
  ext b : 1
  by_cases same : b = w.next
  · subst same
    simp only [Function.update_self,← new]
  · simp only [Function.update_of_ne same]

/-- A step that neither asks for the timer nor arms it is the same whether or not the timer is armed. -/
theorem act_rearm {thread : Nat} {x x' : Object} {f : Frame} {outcome : Outcome} {frames : List Frame}
    (steady : ∀ a, ¬ Fields.Disarms a f ∧ f ≠ .newArm a) (step : act thread x f outcome = some (x',frames))
    (armed : Bool) : act thread {x with armed := armed} f outcome = some ({x' with armed := armed},frames) := by
  replace step := act_acts step
  cases step with
  | notifyArmed _ | notify _ => exact absurd (Or.inl ⟨_,rfl⟩) (steady _).1
  | cancelArmed _ | cancel _ => exact absurd (Or.inr (Or.inl rfl)) (steady _).1
  | destroyChild _ _ | destroy _ _ => exact absurd (Or.inr (Or.inr rfl)) (steady _).1
  | newArm => exact absurd rfl (steady _).2
  | completedFails io failed =>
    rcases io with io | io <;> simp [act,io,failed]
  | completed io failed =>
    clear steady
    cases kind : x.ioType <;> simp_all [act]
  | asyncCalled available _ | asyncNotify available _ | waitNotify available | wait available _
  | cancelEnter available | enterCanceled available _ | enterUser available _ | enterIo available _ =>
    clear steady
    simp_all [act,Object.lock,Object.available]
  | _ =>
    clear steady
    first
      | rfl
      | simp [act,Object.invoke,Object.answer,Object.decrement,Object.prepare, *]

theorem user_rearm {role : Role} {pc : Nat} {last : Option Id} {action : Action} {frames : List Frame}
    (step : user w role pc last action = some (w',frames)) (new : armed w.next = false) :
    user (w.rearm armed) role pc last action = some (w'.rearm armed,frames) := by
  have kept (a : Id) (x : Object) : (w.set a x).rearm armed = (w.rearm armed).set a {x with armed := armed a} :=
    rearm_set (fun _ _ => rfl)
  cases action with
  | call a call =>
    simp only [user,Option.ite_none_right_eq_some] at step
    obtain ⟨known,step⟩ := step
    obtain ⟨⟨x,frames'⟩,inner,result⟩ := Option.bind_eq_some_iff.mp step
    cases result
    have moved : request a ((w.rearm armed).asyncs a) call = some ({x with armed := armed a},frames') := by
      cases request_requests inner <;> simp_all [request,World.rearm]
    simp only [user,moved,kept]
    exact if_pos known
  | new kind timed parent malloc =>
    simp only [user,Option.ite_none_right_eq_some] at step ⊢
    obtain ⟨known,step⟩ := step
    refine ⟨known,?_⟩
    split at step
    · cases step
      rw [if_pos ‹_›,rearm_make new.symm]
      rfl
    · rw [if_neg ‹_›]
      split at step
      · cases step
        rw [if_pos ‹_›,rearm_make new.symm]
      · cases step
        rw [if_neg ‹_›]
  | waitNew parent child =>
    simp only [user,Option.ite_none_right_eq_some] at step ⊢
    obtain ⟨known,step⟩ := step
    cases step
    exact ⟨known,by rw [rearm_make new.symm]; rfl⟩
  | store phase =>
    simp only [user] at step ⊢
    split at step
    · rw [Option.ite_none_right_eq_some] at step
      obtain ⟨known,step⟩ := step
      cases step
      rw [kept]
      exact if_pos known
    · cases step
  | finish err =>
    cases step
    rfl

/-! ## A step of the machine -/

theorem step_here {thread : Nat} {f : Frame} {rest frames : List Frame} {outcome : Outcome}
    (here : c.threads[thread]? = some (f :: rest)) (step : exec thread c.world f outcome = some (w,frames)) :
    c.step (.run thread outcome) = some ⟨w,c.threads.set thread (frames ++ rest)⟩ := by
  simp only [Config.step,here,step]
  rfl

/-- The thread goes on from where it is. -/
theorem step_again {thread : Nat} {f : Frame} {rest frames : List Frame} {outcome : Outcome}
    {threads : List (List Frame)} (length : thread < threads.length)
    (step : exec thread w f outcome = some (w',frames)) :
    Config.step ⟨w,threads.set thread (f :: rest)⟩ (.run thread outcome) =
      some ⟨w',threads.set thread (frames ++ rest)⟩ := by
  have next := step_here (c := ⟨w,threads.set thread (f :: rest)⟩) (List.getElem?_set_self length) step
  rwa [List.set_set] at next

theorem exec_library {thread : Nat} {f : Frame} {outcome : Outcome} {a : Id} {x : Object} {frames : List Frame}
    (subject : f.subject = some a) (known : a < w.next) (step : act thread (w.asyncs a) f outcome = some (x,frames)) :
    exec thread w f outcome = some (w.set a x,frames) := by
  cases f with
  | user _ _ _ => cases subject
  | _ =>
    rw [exec,subject]
    · exact (if_pos known).trans (congrArg (fun r => r.bind fun (p : Object × List Frame) =>
        some (w.set a p.1,p.2)) step)
    · exact fun _ _ _ _ same => by cases same

theorem library_rearm {thread : Nat} {f : Frame} {rest frames : List Frame} {outcome : Outcome} {a : Id} {x : Object}
    (here : c.threads[thread]? = some (f :: rest)) (subject : f.subject = some a) (known : a < c.world.next)
    (step : act thread {c.world.asyncs a with armed := armed a} f outcome = some ({x with armed := armed' a},frames))
    (apart : ∀ b ≠ a, armed' b = armed b) : (c.rearm armed).step (.run thread outcome) =
      some (Config.rearm ⟨c.world.set a x,c.threads.set thread (frames ++ rest)⟩ armed') := by
  have inside : exec thread (c.world.rearm armed) f outcome = some ((c.world.set a x).rearm armed',frames) := by
    rw [rearm_set apart]
    exact exec_library subject known step
  exact step_here (c := c.rearm armed) here inside

theorem arise_rearm {a : Id} {cause : Cause} {x : Object} {frames : List Frame} (known : a < c.world.next)
    (step : arise a {c.world.asyncs a with armed := armed a} cause = some ({x with armed := armed' a},frames))
    (apart : ∀ b ≠ a, armed' b = armed b) : (c.rearm armed).step (.arise a cause) =
      some (Config.rearm ⟨c.world.set a x,c.threads ++ [frames]⟩ armed') := by
  have inside : arise a ((c.world.rearm armed).asyncs a) cause = some ({x with armed := armed' a},frames) := step
  have below : a < (c.world.rearm armed).next := known
  simp only [Config.step,Config.rearm,if_pos below,inside,rearm_set apart]
  rfl

/-- The step of a program point of the library. -/
theorem step_library {thread : Nat} {f : Frame} {outcome : Outcome} {a : Id} (top : c.top thread = some f)
    (subject : f.subject = some a) (step : c.step (.run thread outcome) = some c') :
    ∃ rest x frames, c.threads[thread]? = some (f :: rest) ∧ a < c.world.next ∧
      act thread (c.world.asyncs a) f outcome = some (x,frames) ∧
      c' = ⟨c.world.set a x,c.threads.set thread (frames ++ rest)⟩ := by
  have user {role : Role} {pc : Nat} {last : Option Id} {rest : List Frame}
      (here : c.threads[thread]? = some (.user role pc last :: rest)) : False := by
    rw [Config.top_here here] at top
    cases top
    cases subject
  cases step_effect step with
  | library here subject' known inner =>
    rw [Config.top_here here] at top
    cases top
    cases subject.symm.trans subject'
    exact ⟨_,_,_,here,known,inner,rfl⟩
  | call here below step => exact (user here).elim
  | new here kind below => exact (user here).elim
  | unmade here below => exact (user here).elim
  | refused here => exact (user here).elim
  | waitNew here below below' => exact (user here).elim
  | store here below => exact (user here).elim
  | finish here => exact (user here).elim

end Xrossfire.Async

namespace Xrossfire.Async.Fields
open Library Relation

section
variable {fuel : Nat} {c c1 c' : Config} {t t1 : Timeout.State} {event : Async.Event} {xs ys : List Id}
  {armed armed' : Id → Bool}

theorem Alike.rearm (alike : Alike c c1) : c1.rearm armed = c.rearm armed := by
  obtain ⟨threads,next,asyncs⟩ := alike
  simp only [Config.rearm,World.rearm,threads,next,Config.mk.injEq,World.mk.injEq,and_true]
  ext a : 1
  rw [asyncs a]

/-- A call of `xf_timeout_cancel` that was given the tree's answer leaves the timer unarmed. -/
theorem disarm_rearm {thread : Nat} {outcome : Outcome} {f : Frame} {a : Id} (top : c.top thread = some f)
    (disarms : Disarms a f) (step : (arm c a (armed a)).step (.run thread outcome) = some c')
    (armed' : Id → Bool) (now : armed' a = false) (apart : ∀ b ≠ a, armed' b = armed b) :
    (c.rearm armed).step (.run thread outcome) = some (c'.rearm armed') := by
  have subject : f.subject = some a := by
    rcases disarms with ⟨e,rfl⟩ | rfl | rfl <;> rfl
  obtain ⟨rest,x,frames,here,known,inner,rfl⟩ := step_library
    (((arm_alike c a (armed a)).top thread).trans top) subject step
  rw [← (arm_alike c a (armed a)).rearm]
  apply library_rearm here subject known _ apart
  have answer : ({(arm c a (armed a)).world.asyncs a with armed := armed a} : Object) =
      (arm c a (armed a)).world.asyncs a := by
    simp only [arm,World.set_asyncs_self]
  have unarmed : x.armed = false := by
    replace inner := act_acts inner
    rcases disarms with ⟨e,rfl⟩ | rfl | rfl
    · cases inner with
      | notifyArmed _ => rfl
      | notify armed => exact armed
    · cases inner with
      | cancelArmed _ => rfl
      | cancel armed => exact armed
    · cases inner <;> rfl
  rw [answer,now,inner,← unarmed]

theorem insert_rearm {thread : Nat} {outcome : Outcome} {a : Id} (top : c.top thread = some (.newArm a))
    (step : c.step (.run thread outcome) = some c') (armed' : Id → Bool) (now : armed' a = true)
    (apart : ∀ b ≠ a, armed' b = armed b) :
    (c.rearm armed).step (.run thread outcome) = some (c'.rearm armed') := by
  obtain ⟨rest,x,frames,here,known,inner,rfl⟩ := step_library top rfl step
  apply library_rearm here rfl known _ apart
  replace inner := act_acts inner
  cases inner
  rw [now]
  rfl

theorem expire_rearm {a : Id} (before : armed a = true) (step : (arm c a true).step (.arise a .expire) = some c')
    (armed' : Id → Bool) (now : armed' a = false) (apart : ∀ b ≠ a, armed' b = armed b) :
    (c.rearm armed).step (.arise a .expire) = some (c'.rearm armed') := by
  rw [← (arm_alike c a true).rearm]
  cases step_effect step with
  | arise known inner =>
    apply arise_rearm known _ apart
    replace inner := arise_arises inner
    cases inner
    rw [before,now]
    rfl

/-- A step that asks nothing of the tree. -/
theorem quiet_rearm (steady : ∀ thread outcome f a, event = .run thread outcome → c.top thread = some f →
      ¬ Disarms a f ∧ f ≠ .newArm a) (unexpired : ∀ a, event ≠ .arise a .expire)
    (new : armed c.world.next = false) (step : c.step event = some c') :
    (c.rearm armed).step event = some (c'.rearm armed) := by
  cases event with
  | spawn =>
    cases step
    rfl
  | arise a cause =>
    cases step_effect step with
    | arise known inner =>
      apply arise_rearm known _ (fun _ _ => rfl)
      replace inner := arise_arises inner
      cases inner <;> simp_all [Async.arise]
  | run thread outcome =>
    by_cases library : ∃ f a, c.top thread = some f ∧ f.subject = some a
    · obtain ⟨f,a,top,subject⟩ := library
      obtain ⟨rest,x,frames,here,known,inner,rfl⟩ := step_library top subject step
      apply library_rearm here subject known _ (fun _ _ => rfl)
      exact act_rearm (fun b => steady thread outcome f b rfl top) inner (armed a)
    · have stack : (c.rearm armed).threads[thread]? = c.threads[thread]? := rfl
      simp only [Config.step] at step ⊢
      rw [stack]
      split at step
      · next f rest here =>
        have top := Config.top_here here
        obtain ⟨⟨w,frames⟩,inner,result⟩ := Option.bind_eq_some_iff.mp step
        cases result
        cases f with
        | user role pc last =>
          cases outcome with
          | acts action =>
            have moved : exec thread (c.rearm armed).world (.user role pc last) (.acts action) =
                some (w.rearm armed,frames) := user_rearm inner new
            rw [moved]
            rfl
          | ok | fails _ => cases inner
        | _ => exact (library ⟨_,_,top,rfl⟩).elim
      · cases step

/-! ## The tree's answer -/

def listed (xs : List Id) (a : Id) : Bool := decide (a ∈ xs)

theorem listed_apart {a : Id} (same : ∀ b ≠ a, b ∈ ys ↔ b ∈ xs) : ∀ b ≠ a, listed ys b = listed xs b :=
  fun b other => decide_eq_decide.mpr (same b other)

/-- What a step does in the tree is what the machine does with `armed`. -/
theorem turn_rearm (planted : Planted c t xs)
    (single : ∀ thread outcome f a queue, event = .run thread outcome → c.top thread = some f → Disarms a f →
      Timeout.cancel fuel t.queue a = some (queue,true) → ∀ b ∈ xs, t.queue.key b = t.queue.key a → b = a)
    (tree : turn fuel c t event = some (c1,t1)) (step : c1.step event = some c') :
    ∃ ys, Timeout.Entries t1.queue ys ∧ (c.rearm (listed xs)).step event = some (c'.rearm (listed ys)) := by
  have entries := planted.nodes.entries
  have distinct := entries.distinct
  have new : listed xs c.world.next = false :=
    decide_eq_false (fun member => Nat.lt_irrefl _ (planted.below _ member))
  cases event with
  | spawn =>
    cases tree
    exact ⟨xs,entries,quiet_rearm (fun _ _ _ _ run => by cases run) (fun _ run => by cases run) new step⟩
  | arise a cause =>
    cases cause with
    | expire =>
      obtain ⟨⟨queue,node⟩,run,rest⟩ := Option.bind_eq_some_iff.mp tree
      rw [Option.ite_none_right_eq_some] at rest
      obtain ⟨rfl,result⟩ := rest
      cases result
      obtain ⟨queue',node',returns,result⟩ := Timeout.pick_spec entries t.clock
      cases returns.2 _ ⟨fuel,run⟩
      obtain ⟨-,rest,rfl,after⟩ := result.found a rfl
      have out : a ∉ rest := (List.nodup_cons.mp distinct).1
      refine ⟨rest,after,expire_rearm (decide_eq_true List.mem_cons_self) step _ (decide_eq_false out) ?_⟩
      exact listed_apart (fun b other => (List.mem_cons.trans (or_iff_right other)).symm)
    | complete | dispatch _ | lookup _ =>
      cases tree
      exact ⟨xs,entries,quiet_rearm (fun _ _ _ _ run => by cases run) (fun _ run => by cases run) new step⟩
  | run thread outcome =>
    have cancels {f : Frame} {a : Id} (top : c.top thread = some f) (disarms : Disarms a f)
        (tree : ((Timeout.cancel fuel t.queue a).bind fun r => some (arm c a r.2,t.cancelled a r.1 r.2)) =
          some (c1,t1)) : ∃ ys, Timeout.Entries t1.queue ys ∧
            (c.rearm (listed xs)).step (.run thread outcome) = some (c'.rearm (listed ys)) := by
      obtain ⟨⟨queue,removed⟩,run,result⟩ := Option.bind_eq_some_iff.mp tree
      cases result
      obtain ⟨queue',removed',returns,result⟩ := Timeout.cancel_spec entries a
      cases returns.2 _ ⟨fuel,run⟩
      cases removed with
      | true =>
        obtain ⟨b,low,high,carried,rfl,after⟩ := result.found rfl
        cases single thread outcome f a queue rfl top disarms run b (by simp) carried
        have out : a ∉ low ++ high := (List.nodup_cons.mp (List.perm_middle.nodup_iff.mp distinct)).1
        have before : listed (low ++ a :: high) a = true := decide_eq_true (by simp)
        refine ⟨low ++ high,after,disarm_rearm top disarms (before ▸ step) _ (decide_eq_false out) ?_⟩
        exact listed_apart (fun d other => by simp [other])
      | false =>
        obtain ⟨absent,rfl⟩ := result.missing rfl
        have before : listed xs a = false := decide_eq_false (fun member => absent a member rfl)
        exact ⟨xs,entries,disarm_rearm top disarms (before ▸ step) _ before (fun _ _ => rfl)⟩
    have quiet (steady : ∀ f a, c.top thread = some f → ¬ Disarms a f ∧ f ≠ .newArm a)
        (same : c1.step (.run thread outcome) = some c' → c.step (.run thread outcome) = some c') :
        (c.rearm (listed xs)).step (.run thread outcome) = some (c'.rearm (listed xs)) := by
      refine quiet_rearm ?_ (fun _ run => by cases run) new (same step)
      intro thread' outcome' f a run top
      cases run
      exact steady f a top
    simp only [turn] at tree
    split at tree
    · next a e top => exact cancels top (Or.inl ⟨e,rfl⟩) tree
    · next a top => exact cancels top (Or.inr (Or.inl rfl)) tree
    · next a top => exact cancels top (Or.inr (Or.inr rfl)) tree
    · next a top =>
      rw [Option.ite_none_right_eq_some] at tree
      obtain ⟨begun,tree⟩ := tree
      obtain ⟨⟨queue,wakeup⟩,run,result⟩ := Option.bind_eq_some_iff.mp tree
      cases result
      obtain ⟨low,high,result,after,-⟩ := insert_nodes planted.nodes planted.ids begun run
      refine ⟨low ++ a :: high,after.entries,insert_rearm top step _ (decide_eq_true (by simp)) ?_⟩
      exact listed_apart (fun b other => result.mem.trans (or_iff_right other))
    · next role pc last kind timed parent top =>
      cases tree
      refine ⟨xs,?_,quiet ?_ id⟩
      · exact entries.congr rfl (fun a member => memset_same _ _ a (Nat.ne_of_lt (planted.below a member)))
      · intro f a same
        cases top.symm.trans same
        refine ⟨?_,fun point => by cases point⟩
        intro disarms
        rcases disarms with ⟨e,point⟩ | point | point <;> cases point
    · cases tree
    · cases tree
    · next unnotified uncancelled undestroyed unarmed _ _ _ =>
      cases tree
      refine ⟨xs,entries,quiet ?_ id⟩
      intro f a top
      refine ⟨?_,?_⟩
      · intro disarms
        rcases disarms with ⟨e,rfl⟩ | rfl | rfl
        · exact unnotified _ _ top
        · exact uncancelled _ top
        · exact undestroyed _ top
      · intro point
        exact unarmed a (point ▸ top)

/-! ## Keys tell the timers apart -/

/-- No two asyncs carry the same key, but for the zero-filled ones and those whose timers are being
scheduled. -/
structure Keyed (c : Config) (t : Timeout.State) : Prop where
  ids : ∀ a < c.world.next, a ∉ t.scheduling → t.queue.key a ≠ ⟨0,0⟩ → (t.queue.key a).id < t.queue.seq
  single : ∀ a < c.world.next, ∀ b < c.world.next, a ∉ t.scheduling → b ∉ t.scheduling →
    t.queue.key a ≠ ⟨0,0⟩ → t.queue.key a = t.queue.key b → a = b

namespace Keyed

theorem same (keyed : Keyed c t) (next : c'.world.next = c.world.next) (key : t1.queue.key = t.queue.key)
    (seq : t1.queue.seq = t.queue.seq) (scheduling : t1.scheduling = t.scheduling) : Keyed c' t1 := by
  refine ⟨?_,?_⟩
  · rw [next,key,seq,scheduling]
    exact keyed.ids
  · rw [next,key,scheduling]
    exact keyed.single

/-- One async's key is written: zero-filled, not yet complete, or with a new identifier. -/
theorem write (keyed : Keyed c t) (a : Id) (seq : t.queue.seq ≤ t1.queue.seq)
    (new : a ∈ t1.scheduling ∨ t1.queue.key a = ⟨0,0⟩ ∨
      (t1.queue.key a).id = t.queue.seq ∧ t.queue.seq < t1.queue.seq)
    (old : ∀ b < c'.world.next, b ≠ a → b ∉ t1.scheduling →
      b < c.world.next ∧ b ∉ t.scheduling ∧ t1.queue.key b = t.queue.key b) : Keyed c' t1 := by
  have apart {b : Id} (made : b < c'.world.next) (other : b ≠ a) (out : b ∉ t1.scheduling) (idle : a ∉ t1.scheduling)
      (some : t1.queue.key b ≠ ⟨0,0⟩) : t1.queue.key b ≠ t1.queue.key a := by
    intro equal
    obtain ⟨below,outside,kept⟩ := old b made other out
    rcases new with inside | zero | ⟨id,-⟩
    · exact idle inside
    · exact some (equal.trans zero)
    · have less := keyed.ids b below outside (kept ▸ some)
      rw [← kept,equal,id] at less
      exact Int.lt_irrefl _ less
  refine ⟨?_,?_⟩
  · intro b made out some
    by_cases here : b = a
    · subst here
      rcases new with inside | zero | ⟨id,later⟩
      · exact absurd inside out
      · exact absurd zero some
      · exact id ▸ later
    · obtain ⟨below,outside,kept⟩ := old b made here out
      rw [kept] at some ⊢
      exact Int.lt_of_lt_of_le (keyed.ids b below outside some) seq
  · intro b made d made' out out' some equal
    by_cases here : b = a
    · by_cases there : d = a
      · rw [here,there]
      · subst here
        exact absurd equal.symm (apart made' there out' out (equal ▸ some))
    · by_cases there : d = a
      · subst there
        exact absurd equal (apart made here out out' some)
      · obtain ⟨below,outside,kept⟩ := old b made here out
        obtain ⟨below',outside',kept'⟩ := old d made' there out'
        rw [kept] at some
        rw [kept,kept'] at equal
        exact keyed.single b below d below' outside outside' some equal

theorem schedule (keyed : Keyed c t) (a : Id) (timeout : Int) :
    Keyed c (t.schedule a timeout asyncTimeout a) := by
  have written : Timeout.Written t.queue a (t.clock + timeout) (t.schedule a timeout asyncTimeout a).queue :=
    Timeout.scheduleWrites_spec _ _ _ _ _ _
  apply keyed.write a (Int.le_of_eq written.seq.symm) (Or.inl List.mem_cons_self)
  intro b made other out
  exact ⟨made,fun inside => out (List.mem_cons_of_mem _ inside),(written.same b other).2.2.2⟩

theorem insert {a : Id} {queue : Timeout.Queue} {wakeup : Bool} {low high : List Id} (keyed : Keyed c t)
    (result : Timeout.Scheduled t.queue xs a queue wakeup low high) (next : c'.world.next = c.world.next) :
    Keyed c' (t.scheduled a queue wakeup) := by
  have later : t.queue.seq < queue.seq := result.seq ▸ Int.lt_succ _
  apply keyed.write a (Int.le_of_lt later)
  · refine Or.inr (Or.inr ⟨?_,later⟩)
    change (queue.key a).id = _
    rw [result.key,Function.update_self]
  · intro b made other out
    refine ⟨next ▸ made,fun inside => out ((List.mem_erase_of_ne other).mpr inside),?_⟩
    change queue.key b = _
    rw [result.key,Function.update_of_ne other]

theorem turn (keyed : Keyed c t) (planted : Planted c t xs) (turn : Turn fuel c t event c1 t1)
    (next : c'.world.next = c.world.next) : Keyed c' t1 := by
  cases turn with
  | @cancel thread outcome f a queue removed top disarms run =>
    obtain ⟨queue',removed',returns,result⟩ := Timeout.cancel_spec planted.nodes.entries a
    cases returns.2 _ ⟨fuel,run⟩
    exact keyed.same next result.same.key result.seq rfl
  | insert top begun run =>
    obtain ⟨low,high,result,-,-⟩ := insert_nodes planted.nodes planted.ids begun run
    exact keyed.insert result next
  | @expire a queue run =>
    obtain ⟨queue',node,returns,result⟩ := Timeout.pick_spec planted.nodes.entries t.clock
    cases returns.2 _ ⟨fuel,run⟩
    exact keyed.same next result.same.key result.seq rfl
  | idle quiet => exact keyed.same next rfl rfl rfl

theorem memset {x : Object} {threads : List (List Frame)} (keyed : Keyed c t) :
    Keyed ⟨c.world.make x,threads⟩ {t with queue := memset t.queue c.world.next} := by
  refine keyed.write c.world.next ?_ (Or.inr (Or.inl ?_)) ?_
  · exact Int.le_refl _
  · exact memset_key _ _
  · intro b made other out
    exact ⟨Nat.lt_of_le_of_ne (Nat.le_of_lt_succ made) other,out,(memset_same _ _ b other).2.2.2⟩

/-- `xf_async_wait_new` with a timeout. -/
theorem waitSchedule {x : Object} {threads : List (List Frame)} {ticks timeout : Int} {key : Timeout.Handle}
    {low high : List Id} {queue : Timeout.Queue} {wakeup : Bool} (keyed : Keyed c t)
    (result : Timeout.Scheduled (Timeout.scheduleWrites (garble t.queue c.world.next key) c.world.next ticks timeout
      asyncTimeout c.world.next) xs c.world.next queue wakeup low high) (phase : Timeout.Phase)
    (log : List Timeout.Event) :
    Keyed ⟨c.world.make x,threads⟩ ⟨queue,t.clock,t.scheduling,phase,log⟩ := by
  have later : t.queue.seq < queue.seq := result.seq ▸ Int.lt_succ _
  apply keyed.write c.world.next (Int.le_of_lt later)
  · refine Or.inr (Or.inr ⟨?_,later⟩)
    change (queue.key c.world.next).id = _
    rw [result.key,Function.update_self]
    rfl
  · intro b made other out
    refine ⟨Nat.lt_of_le_of_ne (Nat.le_of_lt_succ made) other,out,?_⟩
    change queue.key b = _
    rw [result.key,Function.update_of_ne other,(Timeout.scheduleWrites_spec _ _ _ _ _ _).same b other |>.2.2.2]
    exact (garble_same _ _ _ b other).2.2.2

end Keyed

/-! ## Runs -/

/-- While a constructor is between the two halves of `xf_timeout_schedule`, the key of its async is not
complete; a cancel of the async must not find another timer by it. `xf_async_wait_new` gets a timeout. -/
def Timely (s : State) : Event → Prop
  | .run (.run thread _) fuel => ∀ f ∈ s.config.top thread, match f with
    | .notify a _ | .cancel a | .destroy a =>
      a ∈ s.timers.scheduling → (Timeout.cancel fuel s.timers.queue a).map Prod.snd ≠ some true
    | _ => True
  | .waitNew _ _ timeout _ _ _ _ => 0 < timeout
  | _ => True

instance (s : State) (event : Event) : Decidable (Timely s event) := by
  unfold Timely
  match event with
  | .run (.run _ _) _ =>
    refine @Option.decidableForallMem _ _ (fun f => ?_) _
    match f with
    | .user .. | .notify .. | .notifyKind .. | .asyncNotify .. | .complete .. | .waitNotify ..
    | .runNextPhase .. | .phaseReturned .. | .errorReturned .. | .release .. | .destroy _ | .unlink ..
    | .link .. | .clear _ | .cancel _ | .cancelEnter _ | .cancelTarget _ | .timeout _ | .enter .. | .unlock _
    | .start .. | .leave .. | .newRef _ | .newArm _ | .wait _ | .operation .. | .acceptEx _ | .connectPhase1 ..
    | .connectAsync _ | .completed .. => infer_instance
  | .run .spawn _ | .run (.arise ..) _ | .schedule .. | .waitNew .. | .tick _ => infer_instance

structure Bound (s : State) (xs : List Id) : Prop where
  wired : Wired s.config s.written
  planted : Planted s.config s.timers xs
  keyed : Keyed s.config s.timers

def Models (s : State) (c : Config) : Prop :=
  ∃ xs, Bound s xs ∧ c = s.config.rearm (listed xs)

/-- The steps of `xf_async_wait_new`. -/
def Constructing (c : Config) : Async.Event → Prop
  | .run _ (.acts (.waitNew ..)) => True
  | .run thread .ok => ∃ b, c.top thread = some (.newRef b) ∨ c.top thread = some (.newArm b)
  | _ => False

namespace Bound
variable {s s' : State}

/-- A cancel finds the timer of its own async only. -/
theorem single (bound : Bound s xs) {thread : Nat} {outcome : Outcome}
    (timely : Timely s (.run (.run thread outcome) fuel))
    {f : Frame} {a : Id} {queue : Timeout.Queue} (top : s.config.top thread = some f) (disarms : Disarms a f)
    (run : Timeout.cancel fuel s.timers.queue a = some (queue,true)) {b : Id} (member : b ∈ xs)
    (carried : s.timers.queue.key b = s.timers.queue.key a) : b = a := by
  have subject : f.subject = some a := by
    rcases disarms with ⟨e,rfl⟩ | rfl | rfl <;> rfl
  have made := bound.wired.known.subject top subject
  have due := bound.planted.nodes.due b member
  have idle : b ∉ s.timers.scheduling := fun inside => bound.planted.nodes.outside b inside member
  have some : s.timers.queue.key b ≠ ⟨0,0⟩ := by
    intro zero
    rw [zero] at due
    exact absurd due (by decide)
  have out : a ∉ s.timers.scheduling := by
    intro inside
    have missed := timely f top
    rcases disarms with ⟨e,rfl⟩ | rfl | rfl <;> exact missed inside (by rw [run]; rfl)
  exact bound.keyed.single b (bound.planted.below b member) a made idle out some carried

theorem run (bound : Bound s xs) {event : Async.Event} (timely : Timely s (.run event fuel))
    (step : s.step (.run event fuel) = some s') :
    ∃ ys, Bound s' ys ∧ (s.config.rearm (listed xs)).step event = some (s'.config.rearm (listed ys)) := by
  obtain ⟨⟨c1,t1⟩,tree,after⟩ := Option.bind_eq_some_iff.mp step
  obtain ⟨c',move,result⟩ := Option.bind_eq_some_iff.mp after
  cases result
  have matched : ∃ ys, Timeout.Entries t1.queue ys ∧
      (s.config.rearm (listed xs)).step event = some (c'.rearm (listed ys)) := by
    refine turn_rearm bound.planted ?_ tree move
    intro thread outcome f a queue same top disarms found b member carried
    subst same
    exact bound.single timely top disarms found member carried
  obtain ⟨ys,entries,matched⟩ := matched
  refine ⟨ys,?_,matched⟩
  cases step_ran tree move with
  | other turn effect next =>
    obtain ⟨zs,planted⟩ := bound.planted.turn bound.wired.known bound.wired.arming turn effect next
    cases entries.unique planted.nodes.entries
    exact ⟨bound.wired.turn turn.alike effect next,planted,bound.keyed.turn bound.planted turn next⟩
  | @made thread role pc last rest kind timed parent here plain known =>
    have effect : Effect s.config (.run thread (.acts (.new kind timed parent true))) _ := .new here plain known
    have planted : Planted ⟨s.config.world.make (fresh kind timed parent none),s.config.threads.set thread
        (construct s.config.world.next kind timed parent ++ [Frame.user role (pc + 1) (some s.config.world.next)] ++
          rest)⟩ {s.timers with queue := memset s.timers.queue s.config.world.next} xs := by
      refine bound.planted.make bound.wired.known rfl (memset_same _ _) rfl rfl rfl ?_ ?_ ?_
      · exact fun a member => mem_keep here (bound.planted.scheduling a member) (fun same => by cases same)
      · exact fun a made => effect.arms made
      · exact fun _ _ => memset_key _ _
    cases entries.unique planted.nodes.entries
    exact ⟨bound.wired.made here plain known,planted,bound.keyed.memset⟩

/-- `xf_async_wait_new` is three steps of the machine. -/
theorem waitNew_rearm {thread : Nat} {role : Role} {pc : Nat} {last : Option Id} {rest : List Frame}
    {parent child : Option Id} (here : c.threads[thread]? = some (.user role pc last :: rest))
    (known : ∀ p ∈ parent, p < c.world.next) (below : ∀ b ∈ child, b < c.world.next)
    (now : armed' c.world.next = true) (apart : ∀ b ≠ c.world.next, armed' b = armed b) :
    ReflTransGen (Async.Step Constructing) (c.rearm armed)
      (Config.rearm ⟨c.world.make (waitObject true parent child),
        c.threads.set thread (.user role (pc + 1) (some c.world.next) :: rest)⟩ armed') := by
  let made := (c.world.rearm armed).make (freshWait parent child)
  let referenced := made.set c.world.next {freshWait parent child with ref := 2, trace.timers := 1}
  let user := Frame.user role (pc + 1) (some c.world.next)
  have length := (List.getElem?_eq_some_iff.mp here).1
  have below' : c.world.next < made.next := Nat.lt_succ_self _
  have construct : exec thread (c.world.rearm armed) (.user role pc last) (.acts (.waitNew parent child)) =
      some (made,[.newRef c.world.next,user]) := by
    change (if _ then _ else _) = _
    exact if_pos ⟨known,below⟩
  have increment : exec thread made (.newRef c.world.next) .ok = some (referenced,[.newArm c.world.next]) := by
    apply exec_library rfl below'
    rw [show made.asyncs c.world.next = freshWait parent child from World.make_asyncs_self _ _]
    rfl
  have scheduled : exec thread referenced (.newArm c.world.next) .ok =
      some (referenced.set c.world.next {waitObject true parent child with armed := true},[]) := by
    apply exec_library rfl (show c.world.next < referenced.next from below')
    rw [show referenced.asyncs c.world.next = _ from World.set_asyncs_self _ _ _]
    rfl
  have whole : referenced.set c.world.next {waitObject true parent child with armed := true} =
      (c.world.make (waitObject true parent child)).rearm armed' := by
    simp only [World.rearm,World.set,World.make,World.mk.injEq,referenced,made,and_true]
    ext b : 1
    by_cases same : b = c.world.next
    · subst same
      simp only [Function.update_self,now]
    · simp only [Function.update_of_ne same,apart b same]
  rw [whole] at scheduled
  have first := step_here (c := c.rearm armed) here construct
  have second : Config.step ⟨made,c.threads.set thread (.newRef c.world.next :: user :: rest)⟩ (.run thread .ok) =
      some ⟨referenced,c.threads.set thread (.newArm c.world.next :: user :: rest)⟩ := step_again length increment
  have third : Config.step ⟨referenced,c.threads.set thread (.newArm c.world.next :: user :: rest)⟩
      (.run thread .ok) = some (Config.rearm ⟨c.world.make (waitObject true parent child),
        c.threads.set thread (user :: rest)⟩ armed') := step_again length scheduled
  have top (w : World) (f : Frame) : Config.top ⟨w,c.threads.set thread (f :: user :: rest)⟩ thread = some f := by
    rw [Config.top,List.getElem?_set_self length]
    rfl
  refine .head ⟨.run thread (.acts (.waitNew parent child)),?_,first⟩
    (.head ⟨.run thread .ok,?_,second⟩ (.single ⟨.run thread .ok,?_,third⟩))
  · trivial
  · exact ⟨_,Or.inl (top _ _)⟩
  · exact ⟨_,Or.inr (top _ _)⟩

theorem waitNew (bound : Bound s xs) {thread : Nat} {ticks timeout : Int} {parent child : Option Id}
    {key : Timeout.Handle} (positive : 0 < timeout)
    (step : s.waitNew thread ticks timeout parent child key fuel = some s') :
    ∃ ys, Bound s' ys ∧ ReflTransGen (Async.Step Constructing) (s.config.rearm (listed xs))
      (s'.config.rearm (listed ys)) := by
  simp only [State.waitNew] at step
  split at step
  · next role pc last rest here =>
    rw [Option.ite_none_right_eq_some] at step
    obtain ⟨⟨known,below,earlier,-⟩,step⟩ := step
    obtain ⟨t1,tree,result⟩ := Option.bind_eq_some_iff.mp step
    cases result
    have fewer (a : Id) : tally (·.arms a) (s.config.threads.set thread
        ([Frame.user role (pc + 1) (some s.config.world.next)] ++ rest)) ≤ tally (·.arms a) s.config.threads :=
      tally_fewer here (Nat.le_of_eq rfl)
    have unarming := fewer s.config.world.next
    rw [bound.wired.known.unarming (Nat.le_refl _)] at unarming
    have garbled : Planted ⟨s.config.world.make (waitObject (0 < timeout) parent child),
        s.config.threads.set thread ([Frame.user role (pc + 1) (some s.config.world.next)] ++ rest)⟩
        {s.timers with queue := garble s.timers.queue s.config.world.next key} xs := by
      refine bound.planted.make bound.wired.known rfl (garble_same _ _ _) rfl rfl rfl ?_ ?_ ?_
      · exact fun a member => mem_keep here (bound.planted.scheduling a member) (fun same => by cases same)
      · exact fun a _ => fewer a
      · exact fun plain => absurd rfl plain
    obtain ⟨out,idle⟩ := bound.planted.apart bound.wired.known
    obtain ⟨ys,planted⟩ := garbled.waitSchedule out idle (Nat.eq_zero_of_le_zero unarming) rfl earlier tree
    rw [waitSchedule,if_pos positive] at tree
    obtain ⟨⟨queue,wakeup⟩,locked,result⟩ := Option.bind_eq_some_iff.mp tree
    cases result
    have written := Timeout.scheduleWrites_spec (garble s.timers.queue s.config.world.next key) s.config.world.next
      ticks timeout asyncTimeout s.config.world.next
    have old {a : Id} (member : a ∈ xs) : a ≠ s.config.world.next := Nat.ne_of_lt (bound.planted.below a member)
    have entries := garbled.nodes.entries.congr written.root (fun a member => written.same a (old member))
    obtain ⟨queue',wakeup',low,high,returns,result⟩ := Timeout.scheduleLocked_spec entries s.config.world.next out
      written.leaf (fun a member => by
        rw [written.id,written.seq]
        exact Int.ne_of_lt (garbled.ids a member))
    cases returns.2 _ ⟨fuel,locked⟩
    cases planted.nodes.entries.unique result.entries
    refine ⟨_,⟨?_,planted,?_⟩,?_⟩
    · exact bound.wired.waitNew here known below id
    · have last : (s.config.world.next :: s.timers.scheduling).erase s.config.world.next = s.timers.scheduling :=
        List.erase_cons_head _ _
      simp only [Timeout.State.scheduled,last]
      exact bound.keyed.waitSchedule result _ _
    · have timed : decide (0 < timeout) = true := decide_eq_true positive
      have member : s.config.world.next ∈ low ++ s.config.world.next :: high := by simp
      rw [timed]
      apply waitNew_rearm here known below (decide_eq_true member)
      exact listed_apart (fun b other => result.mem.trans (or_iff_right other))
  · cases step

/-- The first half of `xf_timeout_schedule` is no step of the machine. -/
theorem scheduled (bound : Bound s xs) {thread : Nat} {timeout : Int}
    (step : s.step (.schedule thread timeout) = some s') : Bound s' xs ∧ s'.config = s.config := by
  simp only [State.step] at step
  split at step
  · next a top =>
    rw [Option.ite_none_right_eq_some] at step
    obtain ⟨⟨positive,idle⟩,result⟩ := step
    cases result
    exact ⟨⟨bound.wired.mark _,bound.planted.schedule bound.wired.known bound.wired.arming top positive idle,
      bound.keyed.schedule a timeout⟩,rfl⟩
  · cases step

theorem ticked (bound : Bound s xs) {now : Int} (step : s.step (.tick now) = some s') :
    Bound s' xs ∧ s'.config = s.config := by
  rw [State.step,Option.ite_none_right_eq_some] at step
  obtain ⟨later,result⟩ := step
  cases result
  obtain ⟨wired,planted,keyed⟩ := bound
  exact ⟨⟨wired,⟨planted.nodes.same rfl rfl later,planted.below,planted.ids,planted.scheduling,
    planted.outside,planted.zero⟩,keyed.same rfl rfl rfl rfl⟩,rfl⟩

/-- A step is a run of the machine. -/
theorem step (bound : Bound s xs) {event : Event} (timely : Timely s event) (step : s.step event = some s') :
    ∃ ys, Bound s' ys ∧ ReflTransGen (Async.Step (fun _ _ => True)) (s.config.rearm (listed xs))
      (s'.config.rearm (listed ys)) := by
  cases event with
  | run event fuel =>
    obtain ⟨ys,after,moved⟩ := bound.run timely step
    exact ⟨ys,after,.single ⟨event,trivial,moved⟩⟩
  | waitNew thread ticks timeout parent child key fuel =>
    obtain ⟨ys,after,moved⟩ := bound.waitNew timely step
    refine ⟨ys,after,ReflTransGen.mono ?_ _ _ moved⟩
    rintro c c' ⟨event,-,step⟩
    exact ⟨event,trivial,step⟩
  | schedule thread timeout =>
    obtain ⟨after,same⟩ := bound.scheduled step
    exact ⟨xs,after,same ▸ .refl⟩
  | tick now =>
    obtain ⟨after,same⟩ := bound.ticked step
    exact ⟨xs,after,same ▸ .refl⟩

end Bound

/-- The asyncs with the timer tree simulate the machine whose timers are the tree's. -/
theorem timely_simulates :
    Simulates (Permitted State.step Timely) (Async.Step (fun _ _ => True)) Models := by
  intro s s' c models step
  obtain ⟨xs,bound,rfl⟩ := models
  obtain ⟨event,timely,step⟩ := step
  obtain ⟨ys,after,run⟩ := bound.step timely step
  exact ⟨_,run,ys,after,rfl⟩

theorem State.Initial.models {s : State} (initial : s.Initial) : Models s Config.start := by
  obtain ⟨wired,planted,-,-⟩ := initial.sound
  refine ⟨[],⟨wired,planted,?_,?_⟩,?_⟩
  · intro a made
    rw [initial.config] at made
    exact absurd made (Nat.not_lt_zero a)
  · intro a made
    rw [initial.config] at made
    exact absurd made (Nat.not_lt_zero a)
  · rw [initial.config]
    rfl

/-- In every timely run the asyncs, with the timers armed that are in the tree, are in a state that the machine
of the asyncs reaches by itself. -/
theorem reachable_refines {s s' : State} (initial : s.Initial)
    (run : ReflTransGen (Permitted State.step Timely) s s') :
    ∃ xs, Timeout.Entries s'.timers.queue xs ∧
      Reachable (fun _ _ => True) (s'.config.rearm (fun a => decide (a ∈ xs))) := by
  obtain ⟨c,reached,xs,bound,rfl⟩ := timely_simulates.run initial.models run
  exact ⟨xs,bound.planted.nodes.entries,reached⟩

def expiredAndCancelled : List Event :=
  [.run .spawn 0,.run (.run 0 (.acts (.new .async true none true))) 0,.run (.run 0 .ok) 0,.schedule 0 30,
    .run (.run 0 .ok) 3,.waitNew 0 100 50 none none ⟨7,7⟩ 3,.tick 140,.run (.arise 0 .expire) 3,
    .run (.run 0 (.acts (.call 1 .cancel))) 0,.run (.run 0 .ok) 3]

theorem reachable_refines_expired : ∃ s xs, ReflTransGen (Permitted State.step Timely) start s ∧
    0 < s.timers.count (Timeout.Event.picks ⟨0,⟨0,130⟩⟩) ∧ 0 < s.timers.count (Timeout.Event.cancels ⟨1,⟨1,150⟩⟩) ∧
    Timeout.Entries s.timers.queue xs ∧ Reachable (fun _ _ => True) (s.config.rearm (fun a => decide (a ∈ xs))) := by
  obtain ⟨s,run,holds⟩ : ∃ s, ReflTransGen (Permitted State.step Timely) start s ∧
      decide (0 < s.timers.count (Timeout.Event.picks ⟨0,⟨0,130⟩⟩) ∧
        0 < s.timers.count (Timeout.Event.cancels ⟨1,⟨1,150⟩⟩)) = true :=
    perform_reachable expiredAndCancelled (by decide)
  obtain ⟨picked,cancelled⟩ := of_decide_eq_true holds
  obtain ⟨xs,entries,reached⟩ := reachable_refines start_initial run
  exact ⟨s,xs,run,picked,cancelled,entries,reached⟩

/-! ## The timer's reference -/

/-- A timer in the tree holds the one reference that was taken for it, and one that has left the tree has
passed the reference on or dropped it. -/
structure TimerHeld (s : State) (a : Id) : Prop where
  inside : s.timers.queue.linked a → (s.config.world.asyncs a).trace.timers = 1 ∧ s.config.shares a .timer = 0 ∧
    (s.config.world.asyncs a).trace.timersDone = 0 ∧ (s.config.world.asyncs a).trace.dropped = 0 ∧
      ((s.config.world.asyncs a).kind = .async → 0 < (s.config.world.asyncs a).ref)
  outside : ¬ s.timers.queue.linked a → (s.config.world.asyncs a).trace.dropped + s.config.shares a .timer +
    (s.config.world.asyncs a).trace.timersDone = (s.config.world.asyncs a).trace.timers ∧
      (s.config.world.asyncs a).trace.timers ≤ 1

theorem reachable_timerHeld {s s' : State} (initial : s.Initial)
    (run : ReflTransGen (Permitted State.step Timely) s s') {a : Id} (made : a < s'.config.world.next) :
    TimerHeld s' a := by
  obtain ⟨c,reached,xs,bound,rfl⟩ := timely_simulates.run initial.models run
  have accounts := (reachable_audited reached).accounts a made
  have timers := accounts.balanced.timers
  have armings := accounts.balanced.armings
  have references := accounts.balanced.references
  have given := accounts.given
  have timed : toInt (s'.config.world.asyncs a).trace.timed ≤ 1 := by
    unfold toInt
    split <;> decide
  have called : toInt (s'.config.world.asyncs a).called ≤ 1 := by
    unfold toInt
    split <;> decide
  have shares (share : Share) : (s'.config.rearm (listed xs)).shares a share = s'.config.shares a share := rfl
  have linked := bound.planted.nodes.entries.linked a
  simp only [shares] at timers references
  simp only [Config.rearm,World.rearm,listed] at timers armings references
  refine ⟨?_,?_⟩
  · intro inside
    rw [decide_eq_true (linked.mp inside)] at timers references
    change (1 : Int) + _ + _ + _ = _ at timers
    refine ⟨by omega,by omega,by omega,by omega,?_⟩
    intro kind
    have given : ((s'.config.world.asyncs a).trace.given : Int) = toInt (s'.config.world.asyncs a).called :=
      accounts.given kind
    change _ = 1 + (1 : Int) + _ + _ + _ + _ + _ + _ at references
    omega
  · intro outside
    rw [decide_eq_false (fun member => outside (linked.mpr member))] at timers
    change (0 : Int) + _ + _ + _ = _ at timers
    exact ⟨by omega,by omega⟩

theorem reachable_timerHeld_expired : ∃ s, ReflTransGen (Permitted State.step Timely) start s ∧
    0 < s.timers.count (Timeout.Event.picks ⟨0,⟨0,130⟩⟩) ∧ 0 < s.timers.count (Timeout.Event.cancels ⟨1,⟨1,150⟩⟩) ∧
    TimerHeld s 0 ∧ TimerHeld s 1 := by
  obtain ⟨s,run,holds⟩ : ∃ s, ReflTransGen (Permitted State.step Timely) start s ∧
      decide (0 < s.timers.count (Timeout.Event.picks ⟨0,⟨0,130⟩⟩) ∧
        0 < s.timers.count (Timeout.Event.cancels ⟨1,⟨1,150⟩⟩) ∧ 1 < s.config.world.next) = true :=
    perform_reachable expiredAndCancelled (by decide)
  obtain ⟨picked,cancelled,made⟩ := of_decide_eq_true holds
  exact ⟨s,run,picked,cancelled,reachable_timerHeld start_initial run (Nat.lt_of_succ_lt made),
    reachable_timerHeld start_initial run made⟩

/-- Async 0 has a timer, 1 has none. Async 2 is made as a child of 1, and is cancelled with it before
`xf_timeout_schedule` has given its key an identifier: so far the key is that of 0. -/
def keyHalf : List Event :=
  [.run .spawn 0,.run .spawn 0,.run (.run 0 (.acts (.new .async true none true))) 0,.run (.run 0 .ok) 0,
    .schedule 0 30,.run (.run 0 .ok) 3,.run (.run 0 (.acts (.new .async false none true))) 0,
    .run (.run 0 (.acts (.new .async true (some 1) true))) 0,.run (.run 0 .ok) 0,.run (.run 0 .ok) 0,
    .schedule 0 30,.run (.run 1 (.acts (.call 1 .cancel))) 0,.run (.run 1 .ok) 3,.run (.run 1 .ok) 0,
    .run (.run 1 .ok) 0,.run (.run 1 .ok) 3]

/-- The timer of 0 is taken out of the tree, and 2 will see its timer's reference released twice. -/
theorem timer_stolen : ∃ s, ReflTransGen (Permitted State.step (fun _ _ => True)) start s ∧
    0 < s.timers.count (Timeout.Event.cancels ⟨2,⟨0,130⟩⟩) ∧ ¬ TimerHeld s 2 := by
  obtain ⟨s,run,holds⟩ : ∃ s, ReflTransGen (Permitted State.step (fun _ _ => True)) start s ∧
      decide (0 < s.timers.count (Timeout.Event.cancels ⟨2,⟨0,130⟩⟩) ∧ s.config.shares 2 .timer = 2 ∧
        (s.config.world.asyncs 2).trace.timers = 1) = true := perform_reachable keyHalf (by decide)
  obtain ⟨taken,shares,timers⟩ := of_decide_eq_true holds
  refine ⟨s,run,taken,?_⟩
  intro held
  by_cases linked : s.timers.queue.linked 2
  · have none := (held.inside linked).2.1
    omega
  · have account := (held.outside linked).1
    omega

end

end Xrossfire.Async.Fields
