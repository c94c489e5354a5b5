import Xrossfire.Async.Fields

/-! The fields of the asyncs are written before they are read, as long as an async of
`xf_async_wait_new` is only used where its constructor or an operation has written the field.
The invariant is in two parts: which fields are written, and which timers are in the tree. -/
namespace Xrossfire.Async
open Library Relation

/-! ## What a step leaves as it was -/

/-- A program point stays until its thread runs it. -/
theorem Effect.keeps {c c' : Config} {event : Event} {g : Frame} (effect : Effect c event c')
    (member : g ∈ c.threads.flatten) :
    g ∈ c'.threads.flatten ∨ ∃ thread outcome, event = .run thread outcome ∧ c.top thread = some g := by
  have set {thread : Nat} {f : Frame} {rest frames : List Frame} {outcome : Outcome}
      (here : c.threads[thread]? = some (f :: rest)) (same : event = .run thread outcome) :
      g ∈ (c.threads.set thread (frames ++ rest)).flatten ∨
        ∃ thread outcome, event = .run thread outcome ∧ c.top thread = some g := by
    by_cases own : g = f
    · subst own
      exact Or.inr ⟨thread,outcome,same,Config.top_here here⟩
    · exact Or.inl (mem_keep here member own)
  cases effect with
  | library here subject below step => exact set here rfl
  | call here below step => exact set here rfl
  | new here kind below => exact set here rfl
  | unmade here below => exact set here rfl
  | refused here => exact set here rfl
  | waitNew here below below' => exact set here rfl
  | store here below => exact set here rfl
  | finish here => exact set here rfl
  | spawn => exact Or.inl (mem_old member)
  | arise below step => exact Or.inl (mem_old member)

/-- Only the constructors make asyncs. -/
theorem Effect.makes {c c' : Config} {event : Event} (effect : Effect c event c') :
    c'.world.next = c.world.next ∨ ∃ thread role pc last action, c.top thread = some (.user role pc last) ∧
      event = .run thread (.acts action) ∧ ((∃ kind timed parent, action = .new kind timed parent true) ∨
        (∃ timed parent, action = .new .multiPhase timed parent false) ∨
          ∃ parent child, action = .waitNew parent child) := by
  cases effect with
  | new here kind below => exact Or.inr ⟨_,_,_,_,_,Config.top_here here,rfl,Or.inl ⟨_,_,_,rfl⟩⟩
  | unmade here below => exact Or.inr ⟨_,_,_,_,_,Config.top_here here,rfl,Or.inr (Or.inl ⟨_,_,rfl⟩)⟩
  | waitNew here below below' =>
    exact Or.inr ⟨_,_,_,_,_,Config.top_here here,rfl,Or.inr (Or.inr ⟨_,_,rfl⟩)⟩
  | library _ _ _ _ | call _ _ _ | store _ _ | refused _ | finish _ | spawn | arise _ _ => exact Or.inl rfl

/-! ## A constructor schedules its timer once -/

theorem act_arms {thread : Nat} {x x' : Object} {f : Frame} {outcome : Outcome} {frames : List Frame} (a : Id)
    (step : act thread x f outcome = some (x',frames)) : frames.countP (·.arms a) ≤ [f].countP (·.arms a) := by
  replace step := act_acts step
  cases step
  all_goals simp [Frame.arms]

theorem request_arms {a : Id} {x x' : Object} {call : Call} {frames : List Frame} (b : Id)
    (step : request a x call = some (x',frames)) : frames.countP (·.arms b) = 0 := by
  replace step := request_requests step
  cases step
  all_goals simp [Frame.arms]

theorem construct_arms (a b : Id) (kind : Kind) (timed : Bool) (parent : Option Id) :
    (construct a kind timed parent).countP (·.arms b) = if a = b then timed.toNat else 0 := by
  cases kind <;> cases timed <;> cases parent <;> simp [construct,Frame.arms,List.countP_cons]

theorem finish_arms (a : Id) (err : Error) (role : Role) : (finish err role).countP (·.arms a) = 0 := by
  apply List.countP_eq_zero.mpr
  intro g member
  cases finish_mem member <;> simp [Frame.arms]

def Arming (c : Config) : Prop :=
  ∀ a < c.world.next, tally (·.arms a) c.threads ≤ (c.world.asyncs a).trace.timed.toNat

theorem arms_owner {a : Id} {f : Frame} (arms : f.arms a = true) : f.owner = some a := by
  cases f <;> simp_all [Frame.arms,Frame.owner,Frame.subject]

theorem Known.unarming {c : Config} (known : Known c) {a : Id} (new : c.world.next ≤ a) :
    tally (·.arms a) c.threads = 0 := by
  apply tally_none
  intro g member arms
  exact absurd (known.frame g member a (owner_mentions (arms_owner arms))) (Nat.not_lt.mpr new)

theorem tally_fewer {c : Config} {thread : Nat} {f : Frame} {rest frames : List Frame} {p : Frame → Bool}
    (here : c.threads[thread]? = some (f :: rest)) (fewer : frames.countP p ≤ [f].countP p) :
    tally p (c.threads.set thread (frames ++ rest)) ≤ tally p c.threads := by
  rw [tally_set p here,tally_top p here]
  omega

theorem Effect.arms {c c' : Config} {event : Event} {a : Id} (effect : Effect c event c') (made : a < c.world.next) :
    tally (·.arms a) c'.threads ≤ tally (·.arms a) c.threads := by
  have user (role : Role) (pc : Nat) (last : Option Id) : [Frame.user role pc last].countP (·.arms a) = 0 := rfl
  cases effect with
  | library here subject below step => exact tally_fewer here (act_arms a step)
  | call here below step =>
    apply tally_fewer here
    rw [List.countP_append,request_arms a step,user,user]
  | new here kind below | waitNew here below below' =>
    apply tally_fewer here
    rw [List.countP_append,construct_arms,if_neg (Nat.ne_of_gt made),user,user]
  | unmade here below => exact tally_fewer here (Nat.le_of_eq rfl)
  | refused here => exact tally_fewer here (Nat.le_of_eq rfl)
  | store here below => exact tally_fewer here (Nat.le_of_eq rfl)
  | finish here =>
    apply tally_fewer here
    rw [finish_arms,user]
  | spawn =>
    rw [tally_spawn,user]
    exact Nat.le_refl _
  | arise below step =>
    rw [tally_spawn]
    replace step := arise_arises step
    cases step <;> exact Nat.le_refl _

/-- The timer is scheduled. -/
theorem Effect.armed {c c' : Config} {thread : Nat} {outcome : Outcome} {a : Id}
    (effect : Effect c (.run thread outcome) c') (top : c.top thread = some (.newArm a)) :
    tally (·.arms a) c'.threads + 1 = tally (·.arms a) c.threads := by
  have user {role : Role} {pc : Nat} {last : Option Id} {rest : List Frame}
      (here : c.threads[thread]? = some (.user role pc last :: rest)) : False := by
    rw [Config.top_here here] at top
    cases top
  cases effect with
  | @library _ f _ _ _ _ _ here subject below step =>
    rw [Config.top_here here] at top
    cases top
    replace step := act_acts step
    cases step
    rw [tally_set _ here,tally_top _ here]
    simp [Frame.arms]
  | call here below step => exact (user here).elim
  | new here kind below => exact (user here).elim
  | unmade here below => exact (user here).elim
  | refused here => exact (user here).elim
  | waitNew here below below' => exact (user here).elim
  | store here below => exact (user here).elim
  | finish here => exact (user here).elim

end Xrossfire.Async

namespace Xrossfire.Async.Fields
open Library Relation

/-! ## The steps of the machine beside the tree -/

/-- The step calls `xf_timeout_cancel`. -/
def Disarms (a : Id) (f : Frame) : Prop := (∃ e, f = .notify a e) ∨ f = .cancel a ∨ f = .destroy a

inductive Turn (fuel : Nat) (c : Config) (t : Timeout.State) : Async.Event → Config → Timeout.State → Prop
  | cancel {thread : Nat} {outcome : Outcome} {f : Frame} {a : Id} {queue : Timeout.Queue} {removed : Bool}
      (top : c.top thread = some f) (disarms : Disarms a f)
      (run : Timeout.cancel fuel t.queue a = some (queue,removed)) :
      Turn fuel c t (.run thread outcome) (arm c a removed) (t.cancelled a queue removed)
  | insert {thread : Nat} {outcome : Outcome} {a : Id} {queue : Timeout.Queue} {wakeup : Bool}
      (top : c.top thread = some (.newArm a)) (begun : a ∈ t.scheduling)
      (run : Timeout.scheduleLocked fuel t.queue a = some (queue,wakeup)) :
      Turn fuel c t (.run thread outcome) c (t.scheduled a queue wakeup)
  | expire {a : Id} {queue : Timeout.Queue} (run : Timeout.pick fuel t.queue t.clock = some (queue,some a)) :
      Turn fuel c t (.arise a .expire) (arm c a true)
        ((t.picked [] t.clock queue a).invoked [] t.clock (t.queue.timer a))
  | idle {event : Async.Event}
      (quiet : ∀ thread outcome a, event = .run thread outcome → c.top thread ≠ some (.newArm a)) :
      Turn fuel c t event c t

/-- A step makes an async with `memset`, or makes none. -/
inductive Ran (fuel : Nat) (c : Config) (t : Timeout.State) : Async.Event → Timeout.State → Config → Prop
  | made {thread : Nat} {role : Role} {pc : Nat} {last : Option Id} {rest : List Frame} {kind : Kind}
      {timed : Bool} {parent : Option Id} (here : c.threads[thread]? = some (.user role pc last :: rest))
      (plain : kind ≠ .wait) (known : ∀ p ∈ parent, p < c.world.next) :
      Ran fuel c t (.run thread (.acts (.new kind timed parent true)))
        {t with queue := memset t.queue c.world.next}
        ⟨c.world.make (fresh kind timed parent none),c.threads.set thread
          (construct c.world.next kind timed parent ++ [Frame.user role (pc + 1) (some c.world.next)] ++ rest)⟩
  | other {event : Async.Event} {c1 c' : Config} {t1 : Timeout.State} (turn : Turn fuel c t event c1 t1)
      (effect : Effect c1 event c') (next : c'.world.next = c.world.next) : Ran fuel c t event t1 c'

theorem step_ran {fuel : Nat} {c c1 c' : Config} {t t1 : Timeout.State} {event : Async.Event}
    (tree : turn fuel c t event = some (c1,t1)) (step : c1.step event = some c') : Ran fuel c t event t1 c' := by
  have effect := step_effect step
  cases event with
  | spawn =>
    cases tree
    cases step
    exact .other (.idle (fun _ _ _ run => by cases run)) effect rfl
  | arise a cause =>
    have kept : c'.world.next = c1.world.next := by
      rcases effect.makes with kept | ⟨_,_,_,_,_,-,run,-⟩
      · exact kept
      · cases run
    cases cause with
    | expire =>
      obtain ⟨⟨queue,node⟩,run,rest⟩ := Option.bind_eq_some_iff.mp tree
      rw [Option.ite_none_right_eq_some] at rest
      obtain ⟨rfl,result⟩ := rest
      cases result
      exact .other (.expire run) effect kept
    | complete | dispatch _ | lookup _ =>
      cases tree
      exact .other (.idle (fun _ _ _ run => by cases run)) effect kept
  | run thread outcome =>
    have library {f : Frame} (top : c1.top thread = some f) (point : ∀ role pc last, f ≠ .user role pc last) :
        c'.world.next = c1.world.next := by
      rcases effect.makes with kept | ⟨_,role,pc,last,_,user,run,-⟩
      · exact kept
      · cases run
        exact absurd (Option.some.inj (top.symm.trans user)) (point role pc last)
    have cancels {f : Frame} {a : Id} (top : c.top thread = some f) (disarms : Disarms a f)
        (point : ∀ role pc last, f ≠ .user role pc last)
        (tree : ((Timeout.cancel fuel t.queue a).bind fun r => some (arm c a r.2,t.cancelled a r.1 r.2)) =
          some (c1,t1)) : Ran fuel c t (.run thread outcome) t1 c' := by
      obtain ⟨⟨queue,removed⟩,run,result⟩ := Option.bind_eq_some_iff.mp tree
      cases result
      exact .other (.cancel top disarms run) effect (library top point)
    simp only [turn] at tree
    split at tree
    · next a e top => exact cancels top (Or.inl ⟨e,rfl⟩) (fun _ _ _ same => by cases same) tree
    · next a top => exact cancels top (Or.inr (Or.inl rfl)) (fun _ _ _ same => by cases same) tree
    · next a top => exact cancels top (Or.inr (Or.inr rfl)) (fun _ _ _ same => by cases same) tree
    · next a top =>
      rw [Option.ite_none_right_eq_some] at tree
      obtain ⟨begun,tree⟩ := tree
      obtain ⟨⟨queue,wakeup⟩,run,result⟩ := Option.bind_eq_some_iff.mp tree
      cases result
      exact .other (.insert top begun run) effect (library top (fun _ _ _ same => by cases same))
    · next role pc last kind timed parent top =>
      cases tree
      cases effect with
      | new here plain known => exact .made here plain known
      | library here subject below step =>
        rw [Config.top_here here] at top
        cases top
        cases subject
    · cases tree
    · cases tree
    · next unarmed unnew uncall unwait =>
      cases tree
      refine .other (.idle ?_) effect ?_
      · intro thread' outcome' a run top
        cases run
        exact unarmed a top
      · rcases effect.makes with kept | ⟨_,role,pc,last,action,top,run,made⟩
        · exact kept
        · cases run
          rcases made with ⟨kind,timed,parent,rfl⟩ | ⟨timed,parent,rfl⟩ | ⟨parent,child,rfl⟩
          · exact (unnew _ _ _ _ _ _ top rfl).elim
          · exact (uncall _ _ _ _ _ top rfl).elim
          · exact (unwait _ _ _ _ _ top rfl).elim

structure Alike (c c1 : Config) : Prop where
  threads : c1.threads = c.threads
  next : c1.world.next = c.world.next
  asyncs : ∀ a, c1.world.asyncs a = {c.world.asyncs a with armed := (c1.world.asyncs a).armed}

theorem Alike.refl (c : Config) : Alike c c := ⟨rfl,rfl,fun _ => rfl⟩

theorem arm_alike (c : Config) (a : Id) (armed : Bool) : Alike c (arm c a armed) := by
  refine ⟨rfl,rfl,?_⟩
  intro b
  by_cases same : b = a
  · subst same
    simp only [arm,World.set_asyncs_self]
  · simp only [arm,World.set_asyncs_of_ne same]

section
variable {fuel : Nat} {c c1 c' : Config} {t t1 : Timeout.State} {event : Async.Event} {xs ys : List Id}

theorem Turn.alike (turn : Turn fuel c t event c1 t1) : Alike c c1 := by
  cases turn with
  | cancel _ _ _ | expire _ => exact arm_alike _ _ _
  | insert _ _ _ | idle _ => exact .refl _

namespace Alike

theorem top (alike : Alike c c1) (thread : Nat) : c1.top thread = c.top thread := by
  rw [Config.top,Config.top,alike.threads]

theorem known (alike : Alike c c1) (known : Known c) : Known c1 := by
  refine ⟨?_,?_⟩
  · rw [alike.threads,alike.next]
    exact known.frame
  · intro a b pointer
    rw [alike.asyncs a] at pointer
    rw [alike.next]
    exact known.object a b pointer

/-- What a step on an async with the tree's answer leaves as it was. -/
theorem fixed (alike : Alike c c1) (effect : Effect c1 event c') {a : Id} (made : a < c.world.next) :
    (c'.world.asyncs a).kind = (c.world.asyncs a).kind ∧ (c'.world.asyncs a).parent = (c.world.asyncs a).parent ∧
      (c'.world.asyncs a).trace.timed = (c.world.asyncs a).trace.timed := by
  rw [← alike.next] at made
  obtain ⟨-,kind,parent,timed⟩ := effect.fixed made
  rw [kind,parent,timed,alike.asyncs a]
  exact ⟨rfl,rfl,rfl⟩

theorem arms (alike : Alike c c1) (effect : Effect c1 event c') {a : Id} (made : a < c.world.next) :
    tally (·.arms a) c'.threads ≤ tally (·.arms a) c.threads := by
  rw [← alike.threads]
  exact effect.arms (alike.next ▸ made)

theorem keeps (alike : Alike c c1) (effect : Effect c1 event c') {g : Frame} (member : g ∈ c.threads.flatten) :
    g ∈ c'.threads.flatten ∨ ∃ thread outcome, event = .run thread outcome ∧ c.top thread = some g := by
  rw [← alike.threads] at member
  rcases effect.keeps member with kept | ⟨thread,outcome,run,top⟩
  · exact Or.inl kept
  · exact Or.inr ⟨thread,outcome,run,alike.top thread ▸ top⟩

end Alike

/-! ## The timers in the tree -/

/-- The timers in the tree were scheduled by their constructors, each once, and the timer of an async made
with `memset` and without a timeout is zero-filled. -/
structure Planted (c : Config) (t : Timeout.State) (xs : List Id) : Prop where
  nodes : Timeout.Nodes t xs
  below : ∀ a ∈ xs, a < c.world.next
  ids : ∀ a ∈ xs, (t.queue.key a).id < t.queue.seq
  scheduling : ∀ a ∈ t.scheduling, .newArm a ∈ c.threads.flatten
  outside : ∀ a ∈ xs, tally (·.arms a) c.threads = 0
  zero : ∀ a < c.world.next, (c.world.asyncs a).kind ≠ .wait → (c.world.asyncs a).trace.timed = false →
    t.queue.key a = ⟨0,0⟩

theorem insert_nodes {a : Id} {queue : Timeout.Queue} {wakeup : Bool} (nodes : Timeout.Nodes t xs)
    (ids : ∀ b ∈ xs, (t.queue.key b).id < t.queue.seq) (begun : a ∈ t.scheduling)
    (run : Timeout.scheduleLocked fuel t.queue a = some (queue,wakeup)) :
    ∃ low high, Timeout.Scheduled t.queue xs a queue wakeup low high ∧
      Timeout.Nodes (t.scheduled a queue wakeup) (low ++ a :: high) ∧
      ∀ b ∈ low ++ a :: high, (queue.key b).id < queue.seq := by
  obtain ⟨queue',wakeup',low,high,returns,result⟩ := Timeout.scheduleLocked_spec nodes.entries a
    (nodes.outside a begun) (nodes.leaf a begun) (fun b member => Int.ne_of_lt (ids b member))
  cases returns.2 _ ⟨fuel,run⟩
  refine ⟨low,high,result,nodes.scheduled begun result,?_⟩
  intro b member
  rw [result.key,result.seq]
  by_cases same : b = a
  · rw [same,Function.update_self]
    exact Int.lt_succ _
  · rw [Function.update_of_ne same]
    exact Int.lt_trans (ids b ((result.mem.mp member).resolve_left same)) (Int.lt_succ _)

namespace Planted

/-- Entries leave the tree, or none does. -/
theorem leave (planted : Planted c t xs) (alike : Alike c c1) (effect : Effect c1 event c')
    (next : c'.world.next = c.world.next)
    (quiet : ∀ thread outcome a, event = .run thread outcome → c.top thread ≠ some (.newArm a)) (sub : ys ⊆ xs)
    (entries : Timeout.Entries t1.queue ys) (same : Timeout.SameBut xs t.queue t1.queue)
    (seq : t1.queue.seq = t.queue.seq) (scheduling : t1.scheduling = t.scheduling) (clock : t1.clock = t.clock) :
    Planted c' t1 ys where
  nodes := planted.nodes.shrink sub entries same scheduling clock
  below := by
    rw [next]
    exact fun a member => planted.below a (sub member)
  ids := by
    rw [same.key,seq]
    exact fun a member => planted.ids a (sub member)
  scheduling := by
    rw [scheduling]
    intro a member
    rcases alike.keeps effect (planted.scheduling a member) with kept | ⟨thread,outcome,run,top⟩
    · exact kept
    · exact absurd top (quiet thread outcome a run)
  outside := by
    intro a member
    have fewer := alike.arms effect (planted.below a (sub member))
    rw [planted.outside a (sub member)] at fewer
    exact Nat.eq_zero_of_le_zero fewer
  zero := by
    rw [next,same.key]
    intro a made
    obtain ⟨kind,-,timed⟩ := alike.fixed effect made
    rw [kind,timed]
    exact planted.zero a made

/-- A point that is to schedule a timer has one, and it is not in the tree yet. -/
theorem arming {thread : Nat} {a : Id} (planted : Planted c t xs) (known : Known c) (arming : Arming c)
    (top : c.top thread = some (.newArm a)) : a < c.world.next ∧ (c.world.asyncs a).trace.timed = true ∧ a ∉ xs := by
  have made := known.subject top rfl
  have some : 0 < tally (·.arms a) c.threads := tally_pos (Config.top_mem top) (decide_eq_true rfl)
  refine ⟨made,?_,?_⟩
  · have most := arming a made
    cases timed : (c.world.asyncs a).trace.timed with
    | true => rfl
    | false =>
      rw [timed] at most
      exact absurd some (Nat.not_lt.mpr most)
  · intro inside
    exact absurd (planted.outside a inside) (Nat.ne_of_gt some)

theorem insert {thread : Nat} {outcome : Outcome} {a : Id} {queue : Timeout.Queue} {wakeup : Bool}
    (planted : Planted c t xs) (known : Known c) (arming : Arming c) (top : c.top thread = some (.newArm a))
    (begun : a ∈ t.scheduling) (run : Timeout.scheduleLocked fuel t.queue a = some (queue,wakeup))
    (effect : Effect c (.run thread outcome) c') (next : c'.world.next = c.world.next) :
    ∃ ys, Planted c' (t.scheduled a queue wakeup) ys := by
  obtain ⟨low,high,result,nodes,ids⟩ := insert_nodes planted.nodes planted.ids begun run
  obtain ⟨made,timed,out⟩ := planted.arming known arming top
  have old {b : Id} (member : b ∈ low ++ a :: high) (other : b ≠ a) : b ∈ xs :=
    (result.mem.mp member).resolve_left other
  refine ⟨low ++ a :: high,nodes,?_,ids,?_,?_,?_⟩
  · rw [next]
    intro b member
    by_cases same : b = a
    · exact same ▸ made
    · exact planted.below b (old member same)
  · intro b member
    obtain ⟨other,member⟩ := planted.nodes.once.mem_erase_iff.mp member
    rcases effect.keeps (planted.scheduling b member) with kept | ⟨thread',outcome',run',top'⟩
    · exact kept
    · cases run'
      cases top.symm.trans top'
      exact absurd rfl other
  · intro b member
    by_cases same : b = a
    · have once := effect.armed top
      have most := arming a made
      rw [timed] at most
      rw [same]
      change _ ≤ 1 at most
      omega
    · have fewer := effect.arms (planted.below b (old member same))
      rw [planted.outside b (old member same)] at fewer
      exact Nat.eq_zero_of_le_zero fewer
  · rw [next]
    intro b below plain untimed
    obtain ⟨-,kind,-,timed'⟩ := effect.fixed below
    rw [kind] at plain
    rw [timed'] at untimed
    have other : b ≠ a := by
      rintro rfl
      rw [timed] at untimed
      cases untimed
    change queue.key b = _
    rw [result.key,Function.update_of_ne other]
    exact planted.zero b below plain untimed

theorem turn (planted : Planted c t xs) (known : Known c) (arming : Arming c) (turn : Turn fuel c t event c1 t1)
    (effect : Effect c1 event c') (next : c'.world.next = c.world.next) : ∃ ys, Planted c' t1 ys := by
  have alike := turn.alike
  cases turn with
  | @cancel thread outcome f a queue removed top disarms run =>
    have quiet : ∀ thread' outcome' b, Async.Event.run thread outcome = .run thread' outcome' →
        c.top thread' ≠ some (.newArm b) := by
      intro thread' outcome' b same other
      cases same
      cases top.symm.trans other
      rcases disarms with ⟨e,point⟩ | point | point <;> cases point
    obtain ⟨queue',removed',returns,result⟩ := Timeout.cancel_spec planted.nodes.entries a
    cases returns.2 _ ⟨fuel,run⟩
    cases removed with
    | true =>
      obtain ⟨b,low,high,-,rfl,entries⟩ := result.found rfl
      refine ⟨low ++ high,planted.leave alike effect next quiet ?_ entries result.same result.seq rfl rfl⟩
      simp
    | false =>
      obtain ⟨-,rfl⟩ := result.missing rfl
      exact ⟨xs,planted.leave alike effect next quiet (List.Subset.refl _) planted.nodes.entries (.refl _ _) rfl
        rfl rfl⟩
  | insert top begun run => exact planted.insert known arming top begun run effect next
  | @expire a queue run =>
    obtain ⟨queue',node,returns,result⟩ := Timeout.pick_spec planted.nodes.entries t.clock
    cases returns.2 _ ⟨fuel,run⟩
    obtain ⟨-,rest,rfl,entries⟩ := result.found a rfl
    exact ⟨rest,planted.leave alike effect next (fun _ _ _ same => by cases same)
      (List.subset_cons_self a rest) entries result.same result.seq rfl rfl⟩
  | idle quiet =>
    exact ⟨xs,planted.leave alike effect next quiet (List.Subset.refl _) planted.nodes.entries (.refl _ _) rfl
      rfl rfl⟩

/-- A timer is written while its constructor has the async. -/
theorem schedule {thread : Nat} {a : Id} {timeout : Int} (planted : Planted c t xs) (known : Known c)
    (arming : Arming c) (top : c.top thread = some (.newArm a)) (positive : 0 < timeout)
    (idle : a ∉ t.scheduling) : Planted c (t.schedule a timeout asyncTimeout a) xs := by
  obtain ⟨-,timed,out⟩ := planted.arming known arming top
  have written : Timeout.Written t.queue a (t.clock + timeout) (t.schedule a timeout asyncTimeout a).queue :=
    Timeout.scheduleWrites_spec _ _ _ _ _ _
  have clock := planted.nodes.clock
  refine ⟨planted.nodes.written out idle written (by omega) rfl rfl,planted.below,?_,?_,planted.outside,?_⟩
  · intro b member
    rw [written.id,written.seq]
    exact planted.ids b member
  · intro b member
    rcases List.mem_cons.mp member with rfl | member
    · exact Config.top_mem top
    · exact planted.scheduling b member
  · intro b below plain untimed
    have other : b ≠ a := by
      rintro rfl
      rw [timed] at untimed
      cases untimed
    rw [(written.same b other).2.2.2]
    exact planted.zero b below plain untimed

/-- A new async is not in the tree, nor on its way there. -/
theorem apart (planted : Planted c t xs) (known : Known c) : c.world.next ∉ xs ∧ c.world.next ∉ t.scheduling := by
  refine ⟨fun member => Nat.lt_irrefl _ (planted.below _ member),?_⟩
  intro member
  have below := known.frame _ (planted.scheduling _ member) c.world.next (List.mem_singleton_self _)
  exact Nat.lt_irrefl _ below

/-- The memory of a new async is filled. -/
theorem make {x : Object} {threads : List (List Frame)} (planted : Planted c t xs)
    (known : Known c) (root : t1.queue.tree.root = t.queue.tree.root)
    (same : ∀ a ≠ c.world.next, t1.queue.tree.nodes.left a = t.queue.tree.nodes.left a ∧
      t1.queue.tree.nodes.right a = t.queue.tree.nodes.right a ∧
      t1.queue.tree.nodes.height a = t.queue.tree.nodes.height a ∧ t1.queue.key a = t.queue.key a)
    (seq : t1.queue.seq = t.queue.seq) (scheduling : t1.scheduling = t.scheduling) (clock : t1.clock = t.clock)
    (kept : ∀ a ∈ t.scheduling, .newArm a ∈ threads.flatten)
    (fewer : ∀ a < c.world.next, tally (·.arms a) threads ≤ tally (·.arms a) c.threads)
    (zero : x.kind ≠ .wait → x.trace.timed = false → t1.queue.key c.world.next = ⟨0,0⟩) :
    Planted ⟨c.world.make x,threads⟩ t1 xs := by
  have old : ∀ a ∈ xs, a ≠ c.world.next := fun a member => Nat.ne_of_lt (planted.below a member)
  obtain ⟨out,idle⟩ := planted.apart known
  refine ⟨planted.nodes.elsewhere out idle root same scheduling clock,?_,?_,scheduling ▸ kept,?_,?_⟩
  · exact fun a member => Nat.lt_succ_of_lt (planted.below a member)
  · intro a member
    rw [(same a (old a member)).2.2.2,seq]
    exact planted.ids a member
  · intro a member
    have none := fewer a (planted.below a member)
    rw [planted.outside a member] at none
    exact Nat.eq_zero_of_le_zero none
  · intro a made plain untimed
    rcases World.make_cases made with ⟨lt,kept⟩ | ⟨rfl,new⟩
    · rw [kept] at plain untimed
      rw [(same a (Nat.ne_of_lt lt)).2.2.2]
      exact planted.zero a lt plain untimed
    · rw [new] at plain untimed
      exact zero plain untimed

/-- `xf_async_wait_new` puts its timer into the tree if it was given a timeout. -/
theorem waitSchedule {x : Object} {threads : List (List Frame)} {ticks timeout : Int}
    (planted : Planted ⟨c.world.make x,threads⟩ t xs) (out : c.world.next ∉ xs) (idle : c.world.next ∉ t.scheduling)
    (unarming : tally (·.arms c.world.next) threads = 0) (wait : x.kind = .wait) (earlier : 0 ≤ ticks)
    (run : Fields.waitSchedule fuel t c.world.next ticks timeout = some t1) :
    ∃ ys, Planted ⟨c.world.make x,threads⟩ t1 ys := by
  by_cases positive : 0 < timeout
  · rw [Fields.waitSchedule,if_pos positive] at run
    let begun : Timeout.State := {t with
      queue := Timeout.scheduleWrites t.queue c.world.next ticks timeout asyncTimeout c.world.next
      scheduling := c.world.next :: t.scheduling}
    have written : Timeout.Written t.queue c.world.next (ticks + timeout) begun.queue :=
      Timeout.scheduleWrites_spec _ _ _ _ _ _
    obtain ⟨⟨queue,wakeup⟩,locked,result⟩ := Option.bind_eq_some_iff.mp run
    cases result
    have nodes : Timeout.Nodes begun xs := planted.nodes.written out idle written (by omega) rfl rfl
    have ids : ∀ b ∈ xs, (begun.queue.key b).id < begun.queue.seq := by
      intro b member
      rw [written.id,written.seq]
      exact planted.ids b member
    obtain ⟨low,high,scheduled,after,later⟩ := insert_nodes nodes ids List.mem_cons_self locked
    have old {b : Id} (member : b ∈ low ++ c.world.next :: high) (other : b ≠ c.world.next) : b ∈ xs :=
      (scheduled.mem.mp member).resolve_left other
    refine ⟨low ++ c.world.next :: high,after,?_,later,?_,?_,?_⟩
    · intro b member
      by_cases same : b = c.world.next
      · rw [same]
        exact Nat.lt_succ_self _
      · exact planted.below b (old member same)
    · intro b member
      have last : (c.world.next :: t.scheduling).erase c.world.next = t.scheduling := List.erase_cons_head _ _
      apply planted.scheduling b
      rw [← last]
      exact member
    · intro b member
      by_cases same : b = c.world.next
      · rw [same]
        exact unarming
      · exact planted.outside b (old member same)
    · intro b made plain untimed
      have other : b ≠ c.world.next := by
        rintro rfl
        rw [World.make_asyncs_self] at plain
        exact plain wait
      change queue.key b = _
      rw [scheduled.key,Function.update_of_ne other]
      rw [(written.same b other).2.2.2]
      exact planted.zero b made plain untimed
  · rw [Fields.waitSchedule,if_neg positive] at run
    cases run
    exact ⟨xs,planted⟩

end Planted

theorem memset_same (q : Timeout.Queue) (a : Id) : ∀ b ≠ a,
    (memset q a).tree.nodes.left b = q.tree.nodes.left b ∧ (memset q a).tree.nodes.right b = q.tree.nodes.right b ∧
      (memset q a).tree.nodes.height b = q.tree.nodes.height b ∧ (memset q a).key b = q.key b :=
  fun _ other => ⟨Function.update_of_ne other _ _,Function.update_of_ne other _ _,
    Function.update_of_ne other _ _,Function.update_of_ne other _ _⟩

theorem memset_key (q : Timeout.Queue) (a : Id) : (memset q a).key a = ⟨0,0⟩ := Function.update_self _ _ _

theorem garble_same (q : Timeout.Queue) (a : Id) (key : Timeout.Handle) : ∀ b ≠ a,
    (garble q a key).tree.nodes.left b = q.tree.nodes.left b ∧
      (garble q a key).tree.nodes.right b = q.tree.nodes.right b ∧
      (garble q a key).tree.nodes.height b = q.tree.nodes.height b ∧ (garble q a key).key b = q.key b :=
  fun _ other => ⟨rfl,rfl,rfl,Function.update_of_ne other _ _⟩

/-! ## The fields that are written -/

theorem mark_old {written : Id → Field → Bool} {a : Id} {field : Field} (fields : List (Id × Field))
    (old : written a field = true) : mark written fields a field = true := by
  rw [mark,old,Bool.true_or]

theorem mark_new {a : Id} {field : Field} {fields : List (Id × Field)} (written : Id → Field → Bool)
    (new : (a,field) ∈ fields) : mark written fields a field = true := by
  rw [mark,decide_eq_true new,Bool.or_true]

/-- The constructors that call `memset` write every field, the timer's key is written with a timeout, and
the child by the constructor of the child. -/
structure Wired (c : Config) (written : Id → Field → Bool) : Prop where
  known : Known c
  typed : ∀ a < c.world.next, c.Each (Typed a) a
  arming : Arming c
  constructed : ∀ a < c.world.next, (c.world.asyncs a).kind ≠ .wait → ∀ field, written a field = true
  keyed : ∀ a < c.world.next, (c.world.asyncs a).trace.timed = true → written a .key = true
  linked : ∀ a b, b < c.world.next → (c.world.asyncs b).kind ≠ .wait → (c.world.asyncs b).parent = some a →
    .link a b ∈ c.threads.flatten ∨ written a .child = true

theorem Alike.typed (alike : Alike c c1) {a : Id} (typed : c.Each (Typed a) a) : c1.Each (Typed a) a := by
  intro f member k about
  rw [alike.asyncs a]
  exact typed f (alike.threads ▸ member) k about

namespace Wired
variable {written : Id → Field → Bool}

theorem mark (wired : Wired c written) (fields : List (Id × Field)) : Wired c (Fields.mark written fields) where
  known := wired.known
  typed := wired.typed
  arming := wired.arming
  constructed := fun a made plain field => mark_old fields (wired.constructed a made plain field)
  keyed := fun a made timed => mark_old fields (wired.keyed a made timed)
  linked := fun a b made plain parent => (wired.linked a b made plain parent).imp_right (mark_old fields)

/-- The child of an earlier async has been stored, is about to be or is stored now. -/
theorem link (wired : Wired c written) (alike : Alike c c1) (effect : Effect c1 event c') {a b : Id}
    (made : b < c.world.next) (plain : (c'.world.asyncs b).kind ≠ .wait)
    (parent : (c'.world.asyncs b).parent = some a) :
    .link a b ∈ c'.threads.flatten ∨ Fields.mark written (writes c event) a .child = true := by
  obtain ⟨kind,same,-⟩ := alike.fixed effect made
  rcases wired.linked a b made (kind ▸ plain) (same ▸ parent) with waiting | done
  · rcases alike.keeps effect waiting with kept | ⟨thread,outcome,rfl,top⟩
    · exact Or.inl kept
    · apply Or.inr (mark_new written _)
      simp only [writes,top,List.mem_singleton]
  · exact Or.inr (mark_old _ done)

/-- No async is made. -/
theorem turn (wired : Wired c written) (alike : Alike c c1) (effect : Effect c1 event c')
    (next : c'.world.next = c.world.next) : Wired c' (Fields.mark written (writes c event)) where
  known := (alike.known wired.known).effect effect
  typed := by
    intro a made
    refine typed_effect (alike.known wired.known) effect (fun below => ?_) made
    exact alike.typed (wired.typed a (alike.next ▸ below))
  arming := by
    intro a made
    rw [next] at made
    rw [(alike.fixed effect made).2.2]
    exact Nat.le_trans (alike.arms effect made) (wired.arming a made)
  constructed := by
    intro a made plain field
    rw [next] at made
    rw [(alike.fixed effect made).1] at plain
    exact mark_old _ (wired.constructed a made plain field)
  keyed := by
    intro a made timed
    rw [next] at made
    rw [(alike.fixed effect made).2.2] at timed
    exact mark_old _ (wired.keyed a made timed)
  linked := by
    intro a b made plain parent
    rw [next] at made
    exact wired.link alike effect made plain parent

/-- `xf_async_new` or `xf_async_call` makes an async. -/
theorem made {thread : Nat} {role : Role} {pc : Nat} {last : Option Id} {rest : List Frame} {kind : Kind}
    {timed : Bool} {parent : Option Id} (wired : Wired c written)
    (here : c.threads[thread]? = some (.user role pc last :: rest)) (plain : kind ≠ .wait)
    (known : ∀ p ∈ parent, p < c.world.next) :
    Wired ⟨c.world.make (fresh kind timed parent none),c.threads.set thread
      (construct c.world.next kind timed parent ++ [Frame.user role (pc + 1) (some c.world.next)] ++ rest)⟩
      (Fields.mark written (writes c (.run thread (.acts (.new kind timed parent true))))) := by
  have effect : Effect c (.run thread (.acts (.new kind timed parent true))) _ := .new here plain known
  have alike := Alike.refl c
  have all (field : Field) : Fields.mark written (writes c (.run thread (.acts (.new kind timed parent true))))
      c.world.next field = true := by
    apply mark_new
    simp only [writes,Config.top_here here]
    cases field <;> simp
  refine ⟨wired.known.effect effect,fun a made => typed_effect wired.known effect (wired.typed a) made,
    ?_,?_,?_,?_⟩
  · intro a made
    rcases World.make_cases made with ⟨lt,same⟩ | ⟨rfl,new⟩
    · rw [same]
      exact Nat.le_trans (effect.arms lt) (wired.arming a lt)
    · have none := wired.known.unarming (Nat.le_refl _)
      rw [tally_top _ here] at none
      have user (pc : Nat) (last : Option Id) : [Frame.user role pc last].countP (·.arms c.world.next) = 0 := rfl
      rw [new,tally_set _ here,List.countP_append,construct_arms,if_pos rfl,user]
      change _ ≤ timed.toNat
      omega
  · intro a made kept field
    rcases World.make_cases made with ⟨lt,same⟩ | ⟨rfl,-⟩
    · rw [same] at kept
      exact mark_old _ (wired.constructed a lt kept field)
    · exact all field
  · intro a made given
    rcases World.make_cases made with ⟨lt,same⟩ | ⟨rfl,-⟩
    · rw [same] at given
      exact mark_old _ (wired.keyed a lt given)
    · exact all .key
  · intro a b made kept points
    rcases World.make_cases made with ⟨lt,-⟩ | ⟨rfl,new⟩
    · exact wired.link alike effect lt kept points
    · rw [new] at points
      cases points
      refine Or.inl (mem_pushed here ?_)
      simp [construct]

/-- `xf_async_wait_new` makes an async. -/
theorem waitNew {thread : Nat} {role : Role} {pc : Nat} {last : Option Id} {rest : List Frame} {timed : Bool}
    {parent child : Option Id} (wired : Wired c written)
    (here : c.threads[thread]? = some (.user role pc last :: rest)) (known : ∀ p ∈ parent, p < c.world.next)
    (below : ∀ b ∈ child, b < c.world.next) {fields : Field → Bool} (key : timed = true → fields .key = true) :
    Wired ⟨c.world.make (waitObject timed parent child),
      c.threads.set thread ([Frame.user role (pc + 1) (some c.world.next)] ++ rest)⟩
      (Function.update written c.world.next fields) := by
  refine ⟨?_,?_,?_,?_,?_,?_⟩
  · apply wired.known.make
    · intro g member b mention
      apply Nat.le_of_lt
      refine wired.known.set_frames here (Nat.le_refl _) ?_ g member b mention
      intro g own
      rw [List.mem_singleton.mp own,user_mentions role pc _ last _]
      exact wired.known.frame _ (mem_top here)
    · intro b pointer
      rcases List.mem_append.mp pointer with inside | inside
      · exact known b (Option.mem_toList.mp inside)
      · exact below b (Option.mem_toList.mp inside)
  · intro a made
    change Config.Each ⟨_,c.threads.set thread ([] ++ [Frame.user role (pc + 1) (some c.world.next)] ++ rest)⟩ _ a
    apply (typed_each a).make wired.known (wired.typed a) here _ _ made
    · exact fun g member => absurd member List.not_mem_nil
    · exact fun _ g member => absurd member List.not_mem_nil
  · intro a made
    have fewer : tally (·.arms a) (c.threads.set thread ([Frame.user role (pc + 1) (some c.world.next)] ++ rest)) ≤
        tally (·.arms a) c.threads := tally_fewer here (Nat.le_of_eq rfl)
    rcases World.make_cases made with ⟨lt,same⟩ | ⟨rfl,-⟩
    · rw [same]
      exact Nat.le_trans fewer (wired.arming a lt)
    · rw [wired.known.unarming (Nat.le_refl _)] at fewer
      exact Nat.le_trans fewer (Nat.zero_le _)
  · intro a made plain field
    rcases World.make_cases made with ⟨lt,same⟩ | ⟨rfl,new⟩
    · rw [same] at plain
      rw [Function.update_of_ne (Nat.ne_of_lt lt)]
      exact wired.constructed a lt plain field
    · rw [new] at plain
      exact absurd rfl plain
  · intro a made given
    rcases World.make_cases made with ⟨lt,same⟩ | ⟨rfl,new⟩
    · rw [same] at given
      rw [Function.update_of_ne (Nat.ne_of_lt lt)]
      exact wired.keyed a lt given
    · rw [new] at given
      rw [Function.update_self]
      exact key given
  · intro a b made plain points
    rcases World.make_cases made with ⟨lt,same⟩ | ⟨rfl,new⟩
    · rw [same] at plain points
      have old : a < c.world.next := wired.known.object b a (by simp [Object.pointers,points])
      rw [Function.update_of_ne (Nat.ne_of_lt old)]
      exact (wired.linked a b lt plain points).imp_left (fun waiting =>
        mem_keep here waiting (fun same => by cases same))
    · rw [new] at plain
      exact absurd rfl plain

end Wired

/-! ## Runs -/

def Taken (c : Config) (log : List Timeout.Event) : Prop :=
  ∀ timer, .cancelled timer true ∈ log →
    timer.node < c.world.next ∧ (c.world.asyncs timer.node).trace.timed = true

structure Sound (s : State) (xs : List Id) : Prop where
  wired : Wired s.config s.written
  planted : Planted s.config s.timers xs
  unset : s.unset = []
  taken : Taken s.config s.timers.log

/-- An allowed step reads fields that are written. -/
theorem Wired.reading {s : State} {event : Async.Event} {fuel : Nat} (wired : Wired s.config s.written)
    (allowed : Allowed s (.run event fuel)) : ∀ r ∈ reads s.config event, s.written r.1 r.2 = true := by
  cases event with
  | spawn | arise _ _ => exact fun r member => absurd member List.not_mem_nil
  | run thread outcome =>
    have multi {f : Frame} {a : Id} (top : s.config.top thread = some f) (subject : f.subject = some a)
        (kind : f.kind = some (a,.multiPhase)) (field : Field) : s.written a field = true := by
      have made := wired.known.subject top subject
      have typed := wired.typed a made f (Config.top_mem top) _ kind
      apply wired.constructed a made _ field
      rw [typed]
      exact fun same => by cases same
    have keyed {f : Frame} {a : Id} (top : s.config.top thread = some f) (subject : f.subject = some a)
        (given : (s.config.world.asyncs a).kind = .wait → (s.config.world.asyncs a).trace.timed = true) :
        s.written a .key = true := by
      have made := wired.known.subject top subject
      by_cases wait : (s.config.world.asyncs a).kind = .wait
      · exact wired.keyed a made (given wait)
      · exact wired.constructed a made wait .key
    intro r member
    simp only [reads] at member
    split at member
    · next a e top =>
      rw [List.mem_singleton.mp member]
      exact keyed top rfl (allowed _ top)
    · next a top =>
      rw [List.mem_singleton.mp member]
      exact keyed top rfl (allowed _ top)
    · next a top =>
      have all := wired.constructed a (wired.known.subject top rfl) (allowed _ top)
      rcases List.mem_cons.mp member with rfl | member
      · exact all .key
      · rw [List.mem_singleton.mp member]
        exact all .parent
    · next a top =>
      rw [List.mem_singleton.mp member]
      by_cases wait : (s.config.world.asyncs a).kind = .wait
      · obtain ⟨b,made,plain,parent,stored⟩ := allowed _ top wait
        exact (wired.linked a b made plain parent).resolve_left stored
      · exact wired.constructed a (wired.known.subject top rfl) wait .child
    · next a err handed top =>
      split at member
      · rw [List.mem_singleton.mp member]
        exact multi top rfl rfl .parent
      · cases member
    · next a err top =>
      rw [List.mem_singleton.mp member]
      exact multi top rfl rfl .parent
    · cases member

/-- A cancel that finds a timer is of an async that was given one. -/
theorem Planted.given {thread : Nat} {outcome : Outcome} {fuel fuel' : Nat} {f : Frame} {a : Id} {s : State}
    {xs : List Id} {queue : Timeout.Queue} (planted : Planted s.config s.timers xs) (known : Known s.config)
    (allowed : Allowed s (.run (.run thread outcome) fuel')) (top : s.config.top thread = some f)
    (disarms : Disarms a f) (run : Timeout.cancel fuel s.timers.queue a = some (queue,true)) :
    a < s.config.world.next ∧ (s.config.world.asyncs a).trace.timed = true := by
  have condition := allowed f top
  have subject : f.subject = some a := by
    rcases disarms with ⟨e,rfl⟩ | rfl | rfl <;> rfl
  have made := known.subject top subject
  refine ⟨made,?_⟩
  cases timed : (s.config.world.asyncs a).trace.timed with
  | true => rfl
  | false =>
    have plain : (s.config.world.asyncs a).kind ≠ .wait := by
      intro wait
      rcases disarms with ⟨e,rfl⟩ | rfl | rfl
      · exact Bool.false_ne_true (timed.symm.trans (condition wait))
      · exact Bool.false_ne_true (timed.symm.trans (condition wait))
      · exact condition wait
    obtain ⟨queue',removed,returns,result⟩ := Timeout.cancel_spec planted.nodes.entries a
    cases returns.2 _ ⟨fuel,run⟩
    obtain ⟨b,low,high,carried,rfl,-⟩ := result.found rfl
    -- the key is zero-filled, and no timer is due at tick 0
    have due := planted.nodes.due b (by simp)
    rw [carried,planted.zero a made plain timed] at due
    exact absurd due (by decide)

theorem Taken.mono {c c' : Config} {log log' : List Timeout.Event} (taken : Taken c log)
    (next : c.world.next ≤ c'.world.next) (fixed : ∀ a < c.world.next,
      (c'.world.asyncs a).trace.timed = (c.world.asyncs a).trace.timed)
    (old : ∀ timer, .cancelled timer true ∈ log' → .cancelled timer true ∈ log) : Taken c' log' := by
  intro timer member
  obtain ⟨made,timed⟩ := taken timer (old timer member)
  rw [fixed _ made]
  exact ⟨Nat.lt_of_lt_of_le made next,timed⟩

theorem waitSchedule_log {a : Id} {ticks timeout : Int} {timer : Timeout.Timer}
    (run : waitSchedule fuel t a ticks timeout = some t1) (member : .cancelled timer true ∈ t1.log) :
    .cancelled timer true ∈ t.log := by
  by_cases positive : 0 < timeout
  · rw [waitSchedule,if_pos positive] at run
    obtain ⟨⟨queue,wakeup⟩,-,result⟩ := Option.bind_eq_some_iff.mp run
    cases result
    exact (List.mem_cons.mp member).resolve_left (fun same => by cases same)
  · rw [waitSchedule,if_neg positive] at run
    cases run
    exact member

namespace Sound
variable {s s' : State} {xs : List Id}

theorem unread (sound : Sound s xs) {event : Async.Event} {fuel : Nat} (allowed : Allowed s (.run event fuel)) :
    (reads s.config event).filter (fun r => !s.written r.1 r.2) ++ s.unset = [] := by
  rw [sound.unset,List.append_nil,List.filter_eq_nil_iff]
  intro r member
  rw [sound.wired.reading allowed r member]
  exact Bool.false_ne_true

/-- What the tree's log gains in a step that makes no async. -/
theorem taken_turn (sound : Sound s xs) {event : Async.Event} {fuel : Nat} {c1 c' : Config}
    {t1 : Timeout.State} (allowed : Allowed s (.run event fuel)) (turn : Turn fuel s.config s.timers event c1 t1)
    (effect : Effect c1 event c') (next : c'.world.next = s.config.world.next) : Taken c' t1.log := by
  have alike := turn.alike
  have fixed : ∀ a < s.config.world.next,
      (c'.world.asyncs a).trace.timed = (s.config.world.asyncs a).trace.timed :=
    fun a made => (alike.fixed effect made).2.2
  have kept {log : List Timeout.Event}
      (old : ∀ timer, .cancelled timer true ∈ log → .cancelled timer true ∈ s.timers.log) : Taken c' log :=
    sound.taken.mono (Nat.le_of_eq next.symm) fixed old
  cases turn with
  | @cancel thread outcome f a queue removed top disarms run =>
    intro timer member
    rcases List.mem_cons.mp member with same | old
    · cases same
      obtain ⟨made,timed⟩ := sound.planted.given sound.wired.known allowed top disarms run
      change a < _ ∧ (c'.world.asyncs a).trace.timed = true
      rw [next,fixed a made]
      exact ⟨made,timed⟩
    · exact kept (fun _ => id) timer old
  | insert _ _ _ =>
    exact kept (fun timer member => (List.mem_cons.mp member).resolve_left (fun same => by cases same))
  | expire _ =>
    refine kept (fun timer member => ?_)
    have picked := (List.mem_cons.mp member).resolve_left (fun same => by cases same)
    exact (List.mem_cons.mp picked).resolve_left (fun same => by cases same)
  | idle _ => exact kept (fun _ => id)

theorem run (sound : Sound s xs) {event : Async.Event} {fuel : Nat} (allowed : Allowed s (.run event fuel))
    (step : s.step (.run event fuel) = some s') : ∃ ys, Sound s' ys := by
  obtain ⟨⟨c1,t1⟩,tree,rest⟩ := Option.bind_eq_some_iff.mp step
  obtain ⟨c',move,result⟩ := Option.bind_eq_some_iff.mp rest
  cases result
  have unread := sound.unread allowed
  cases step_ran tree move with
  | other turn effect next =>
    obtain ⟨ys,planted⟩ := sound.planted.turn sound.wired.known sound.wired.arming turn effect next
    exact ⟨ys,sound.wired.turn turn.alike effect next,planted,unread,sound.taken_turn allowed turn effect next⟩
  | @made thread role pc last rest kind timed parent here plain known =>
    have effect : Effect s.config (.run thread (.acts (.new kind timed parent true))) _ := .new here plain known
    refine ⟨xs,sound.wired.made here plain known,?_,unread,?_⟩
    · refine sound.planted.make sound.wired.known rfl (memset_same _ _) rfl rfl rfl ?_ ?_ ?_
      · exact fun a member => mem_keep here (sound.planted.scheduling a member) (fun same => by cases same)
      · exact fun a made => effect.arms made
      · exact fun _ _ => memset_key _ _
    · exact sound.taken.mono (Nat.le_succ _) (fun a made => (effect.fixed made).2.2.2) (fun _ => id)

theorem waitNew (sound : Sound s xs) {thread : Nat} {ticks timeout : Int} {parent child : Option Id}
    {key : Timeout.Handle} {fuel : Nat} (step : s.waitNew thread ticks timeout parent child key fuel = some s') :
    ∃ ys, Sound s' ys := by
  simp only [State.waitNew] at step
  split at step
  · next role pc last rest here =>
    rw [Option.ite_none_right_eq_some] at step
    obtain ⟨⟨known,below,earlier,-⟩,step⟩ := step
    obtain ⟨t1,tree,result⟩ := Option.bind_eq_some_iff.mp step
    cases result
    have fewer (a : Id) : tally (·.arms a) (s.config.threads.set thread
        ([Frame.user role (pc + 1) (some s.config.world.next)] ++ rest)) ≤ tally (·.arms a) s.config.threads :=
      tally_fewer here (Nat.le_of_eq rfl)
    have unarming := fewer s.config.world.next
    rw [sound.wired.known.unarming (Nat.le_refl _)] at unarming
    have garbled : Planted ⟨s.config.world.make (waitObject (0 < timeout) parent child),
        s.config.threads.set thread ([Frame.user role (pc + 1) (some s.config.world.next)] ++ rest)⟩
        {s.timers with queue := garble s.timers.queue s.config.world.next key} xs := by
      refine sound.planted.make sound.wired.known rfl (garble_same _ _ _) rfl rfl rfl ?_ ?_ ?_
      · exact fun a member => mem_keep here (sound.planted.scheduling a member) (fun same => by cases same)
      · exact fun a _ => fewer a
      · exact fun plain => absurd rfl plain
    have log (timer : Timeout.Timer) (member : .cancelled timer true ∈ t1.log) :
        .cancelled timer true ∈ s.timers.log := by
      have old := waitSchedule_log tree member
      exact old
    obtain ⟨out,idle⟩ := sound.planted.apart sound.wired.known
    obtain ⟨ys,planted⟩ := garbled.waitSchedule out idle (Nat.eq_zero_of_le_zero unarming) rfl earlier tree
    refine ⟨ys,sound.wired.waitNew here known below ?_,planted,sound.unset,?_⟩
    · exact id
    · refine sound.taken.mono (Nat.le_succ _) ?_ log
      intro a made
      exact congrArg (fun x : Object => x.trace.timed) (World.make_asyncs_of_lt made)
  · cases step

/-- An allowed step. -/
theorem step (sound : Sound s xs) {event : Event} (allowed : Allowed s event) (step : s.step event = some s') :
    ∃ ys, Sound s' ys := by
  cases event with
  | run event fuel => exact sound.run allowed step
  | waitNew thread ticks timeout parent child key fuel => exact sound.waitNew step
  | schedule thread timeout =>
    simp only [State.step] at step
    split at step
    · next a top =>
      rw [Option.ite_none_right_eq_some] at step
      obtain ⟨⟨positive,idle⟩,result⟩ := step
      cases result
      exact ⟨xs,sound.wired.mark _,sound.planted.schedule sound.wired.known sound.wired.arming top positive idle,
        sound.unset,sound.taken⟩
    · cases step
  | tick now =>
    rw [State.step,Option.ite_none_right_eq_some] at step
    obtain ⟨later,result⟩ := step
    cases result
    have planted := sound.planted
    exact ⟨xs,sound.wired,⟨planted.nodes.same rfl rfl later,planted.below,planted.ids,planted.scheduling,
      planted.outside,planted.zero⟩,sound.unset,sound.taken⟩

theorem initialized (sound : Sound s xs) : s.Initialized :=
  ⟨sound.unset,fun timer member => (sound.taken timer member).2⟩

end Sound

theorem State.Initial.sound {s : State} (initial : s.Initial) : Sound s [] := by
  have none : s.config.world.next = 0 := by
    rw [initial.config]
    rfl
  have new (a : Id) (made : a < s.config.world.next) : False := by
    rw [none] at made
    exact Nat.not_lt_zero a made
  have known : Known s.config := by
    rw [initial.config]
    exact start_known
  refine ⟨⟨known,?_,?_,?_,?_,?_⟩,⟨initial.timers.good.nodes,?_,?_,?_,?_,?_⟩,initial.unset,?_⟩
  · exact fun a made => (new a made).elim
  · exact fun a made => (new a made).elim
  · exact fun a made => (new a made).elim
  · exact fun a made => (new a made).elim
  · exact fun a b made => (new b made).elim
  · exact fun a member => absurd member List.not_mem_nil
  · exact fun a member => absurd member List.not_mem_nil
  · rw [initial.timers.scheduling]
    exact fun a member => absurd member List.not_mem_nil
  · exact fun a member => absurd member List.not_mem_nil
  · exact fun a made => (new a made).elim
  · rw [Taken,initial.timers.log]
    exact fun timer member => absurd member List.not_mem_nil

/-- No unset field is read, and no async without a timer takes one out of the tree, in the runs all of whose
steps are allowed. -/
theorem reachable_initialized (s s' : State) (initial : s.Initial)
    (run : ReflTransGen (Permitted State.step Allowed) s s') : s'.Initialized := by
  have keeps (c c' : State) (before : ∃ xs, Sound c xs) (step : Permitted State.step Allowed c c') :
      ∃ xs, Sound c' xs := by
    obtain ⟨xs,sound⟩ := before
    obtain ⟨event,allowed,step⟩ := step
    exact sound.step allowed step
  obtain ⟨xs,sound⟩ := run_invariant keeps run ⟨[],initial.sound⟩
  exact sound.initialized

def start : State := ⟨Config.start,Timeout.idle,fun _ _ => false,[]⟩

theorem start_initial : start.Initial := ⟨rfl,⟨⟨Timeout.emptyQueue,rfl⟩,by decide,rfl,rfl,rfl⟩,rfl⟩

def childCancelled : List Event :=
  [.run .spawn 0,.waitNew 0 100 50 none none ⟨7,7⟩ 3,.run (.run 0 (.acts (.new .async true (some 0) true))) 0,
    .run (.run 0 .ok) 0,.run (.run 0 .ok) 0,.schedule 0 30,.run (.run 0 .ok) 3,
    .run (.run 0 (.acts (.call 0 .cancel))) 0,.run (.run 0 .ok) 3,.run (.run 0 .ok) 0,.run (.run 0 .ok) 0,
    .run (.run 0 .ok) 0,.run (.run 0 .ok) 3]

theorem reachable_initialized_child : ∃ s, ReflTransGen (Permitted State.step Allowed) start s ∧
    0 < s.timers.count (Timeout.Event.cancels ⟨0,⟨0,150⟩⟩) ∧
    0 < s.timers.count (Timeout.Event.cancels ⟨1,⟨1,130⟩⟩) ∧ s.Initialized := by
  obtain ⟨s,run,holds⟩ : ∃ s, ReflTransGen (Permitted State.step Allowed) start s ∧
      decide (0 < s.timers.count (Timeout.Event.cancels ⟨0,⟨0,150⟩⟩) ∧
        0 < s.timers.count (Timeout.Event.cancels ⟨1,⟨1,130⟩⟩)) = true :=
    perform_reachable childCancelled (by decide)
  obtain ⟨own,child⟩ := of_decide_eq_true holds
  exact ⟨s,run,own,child,reachable_initialized start s start_initial run⟩

/-- Async 0 has a timer. Async 1 waits without one, and `malloc` left the key of 0 in it; it is cancelled and
destroyed. -/
def keyLeft : List Event :=
  [.run .spawn 0,.run (.run 0 (.acts (.new .async true none true))) 0,.run (.run 0 .ok) 0,.schedule 0 30,
    .run (.run 0 .ok) 3,.waitNew 0 100 0 none none ⟨0,130⟩ 0,.run (.run 0 (.acts (.call 1 .cancel))) 0,
    .run (.run 0 .ok) 3,.run (.run 0 .ok) 0,.run (.run 0 .ok) 3]

theorem unset_read : start.Initial ∧
    ∃ s, ReflTransGen (Permitted State.step (fun _ _ => True)) start s ∧ (1,.key) ∈ s.unset ∧
      (1,.parent) ∈ s.unset ∧ 0 < s.timers.count (Timeout.Event.cancels ⟨1,⟨0,130⟩⟩) ∧
      (s.config.world.asyncs 1).trace.timed = false ∧ ¬ s.Initialized := by
  refine ⟨start_initial,?_⟩
  obtain ⟨s,run,holds⟩ : ∃ s, ReflTransGen (Permitted State.step (fun _ _ => True)) start s ∧
      decide ((1,.key) ∈ s.unset ∧ (1,.parent) ∈ s.unset ∧
        0 < s.timers.count (Timeout.Event.cancels ⟨1,⟨0,130⟩⟩) ∧
        (s.config.world.asyncs 1).trace.timed = false) = true := perform_reachable keyLeft (by decide)
  obtain ⟨key,parent,taken,untimed⟩ := of_decide_eq_true holds
  refine ⟨s,run,key,parent,taken,untimed,?_⟩
  intro initialized
  rw [initialized.unset] at key
  cases key

end

end Xrossfire.Async.Fields
