import Xrossfire.Async.Phases

/-! Whether the timer of a call that goes through phases stays armed until the call ends. Every notify of the
call takes it out, and so does the first completion of an I/O. -/
namespace Xrossfire.Async
open Library Relation

structure Stopped where
  cancelled : Bool
  expired : Bool
deriving DecidableEq

def Stopped.record (a : Id) (r : Stopped) (c : Config) : Event → Stopped
  | .run thread .ok => if c.top thread = some (.cancel a) then {r with cancelled := true} else r
  | .arise b .expire => if b = a then {r with expired := true} else r
  | _ => r

/-- `xf_timeout_schedule` is still to come. -/
def Frame.arms (a : Id) : Frame → Bool
  | newRef b | newArm b => b = a
  | _ => false

/-- What makes someone notify a call: user code does, an I/O or a name lookup of it ends, an operation on it
fails, or a call it is the parent of ends. -/
def Disturbs (a : Id) (c : Config) : Event → Prop
  | .run _ (.acts (.call b (.notify _))) => b = a
  | .run thread (.fails e) => e ≠ 0 ∧ ∃ f ∈ c.top thread, f.subject = some a
  | .run thread .ok => ∃ f ∈ c.top thread, match f with
    | .phaseReturned b err _ =>
      err = 0 ∧ (c.world.asyncs b).nextPhase = phaseExit ∧ (c.world.asyncs b).parent = some a
    | .errorReturned b _ => (c.world.asyncs b).parent = some a
    | _ => False
  | .arise b (.dispatch _) => b = a
  | .arise b (.lookup e) => b = a ∧ e ≠ 0
  | _ => False

def Undisturbed (a : Id) (r : Stopped) (c : Config) (event : Event) : Prop :=
  (c.world.asyncs a).trace.terminals = 0 → r.cancelled = false → r.expired = false → ¬ Disturbs a c event

instance (a : Id) (c : Config) (event : Event) : Decidable (Disturbs a c event) := by
  unfold Disturbs
  match event with
  | .run _ .ok =>
    refine @Option.decidableExistsMem _ _ (fun f => ?_) _
    match f with
    | .user .. | .notify .. | .notifyKind .. | .asyncNotify .. | .complete .. | .waitNotify ..
    | .runNextPhase .. | .phaseReturned .. | .errorReturned .. | .release .. | .destroy _ | .unlink ..
    | .link .. | .clear _ | .cancel _ | .cancelEnter _ | .cancelTarget _ | .timeout _ | .enter .. | .unlock _
    | .start .. | .leave .. | .newRef _ | .newArm _ | .wait _ | .operation .. | .acceptEx _ | .connectPhase1 ..
    | .connectAsync _ | .completed .. => infer_instance
  | .run _ (.fails _) | .run _ (.acts (.call _ (.notify _))) | .run _ (.acts (.call _ .cancel))
  | .run _ (.acts (.call _ .enter)) | .run _ (.acts (.call _ .addRef)) | .run _ (.acts (.call _ .release))
  | .run _ (.acts (.call _ (.operation _))) | .run _ (.acts (.call _ .wait)) | .run _ (.acts (.new ..))
  | .run _ (.acts (.waitNew ..)) | .run _ (.acts (.store _)) | .run _ (.acts (.finish _)) | .spawn
  | .arise _ .expire | .arise _ .complete | .arise _ (.dispatch _) | .arise _ (.lookup _) => infer_instance

instance (a : Id) (r : Stopped) (c : Config) (event : Event) : Decidable (Undisturbed a r c event) := by
  unfold Undisturbed
  infer_instance

/-! ## A call that has not ended is not destroyed -/

def Ended (a : Id) (x : Object) (f : Frame) : Prop :=
  x.kind = .multiPhase → x.trace.timed = true → f.ends a ∨ f = .destroy a → 0 < x.trace.terminals

def Answered (x : Object) : Prop :=
  x.kind = .multiPhase → x.trace.timed = true → 0 < x.trace.given → 0 < x.trace.terminals

theorem ends_owner {a : Id} {f : Frame} (last : f.ends a ∨ f = .destroy a) : f.owner = some a := by
  rcases last with ends | rfl
  · exact part_owner (i := .ending) ends
  · rfl

theorem ended_each (a : Id) : Each (Ended a) a where
  owner := fun x g apart _ _ last => absurd (ends_owner last) apart
  resume := by
    intro x role pc last pc' last' before kind timed ends
    apply before kind timed
    cases role <;> exact Or.inl (ends.resolve_right (fun same => by cases same))
  after := by
    intro x role b call pc last before kind timed ends
    apply before kind timed
    cases role <;> cases call <;> exact Or.inl (ends.resolve_right (fun same => by cases same))
  store := fun x phase g before => before
  finish := by
    intro x err role before g member kind timed ends
    apply before kind timed
    cases finish_mem member with
    | failed failed => simpa [Frame.ends,failed] using ends
    | completed | returned | entered => simp [Frame.ends] at ends
  arise := by
    intro x x' frames cause step
    have kind := (arise_mentions step).2.2.2
    have trace := (arise_trace step).1
    refine ⟨?_,?_⟩
    · intro g member _ _ ends
      replace step := arise_arises step
      cases step
      all_goals simp_all [Frame.ends]
    · intro g before
      unfold Ended
      rw [kind,trace]
      exact before
  new := by
    intro kind timed parent g member _ _ ends
    rcases construct_mem member with ⟨p,-,rfl⟩ | rfl | ⟨-,rfl⟩ <;> simp [Frame.ends] at ends
  waitNew := by
    intro parent child g member kind
    cases kind

/-- Who ends a call, and what a step records of it. -/
theorem act_ended {thread : Nat} {a : Id} {x x' : Object} {f : Frame} {outcome : Outcome} {frames : List Frame}
    (subject : f.subject = some a) (step : act thread x f outcome = some (x',frames)) :
    x.trace.terminals ≤ x'.trace.terminals ∧ x'.trace.timed = x.trace.timed ∧
      (0 < frames.countP (·.ends a) → 0 < x'.trace.terminals ∨ f.ends a) ∧
      (.destroy a ∈ frames → x.ref ≤ 1 ∧ ∃ share, f = .release a share) ∧
      (x'.trace.given = x.trace.given ∨ 0 < x'.trace.terminals ∨ f.ends a ∨ ∃ e, f = .asyncNotify a e) := by
  replace step := act_acts step
  cases step <;> cases subject
  all_goals simp only [List.countP_cons,List.countP_nil]
  all_goals simp_all [Frame.ends,Object.witness,Object.invoke,Object.answer,Object.decrement,Object.lock,
    Object.unlock,Object.prepare,Object.clearTimer]
  -- left is the invocation, which may be a terminal one
  split <;> omega

theorem request_ended {a : Id} {x x' : Object} {call : Call} {frames : List Frame}
    (step : request a x call = some (x',frames)) :
    x'.kind = x.kind ∧ x'.trace.timed = x.trace.timed ∧ x'.trace.terminals = x.trace.terminals ∧
      x'.trace.given = x.trace.given ∧ x'.trace.timersDone = x.trace.timersDone ∧
      x'.trace.dropped = x.trace.dropped ∧
      ∀ g ∈ frames, g.ends a = false ∧ g ≠ .destroy a ∧ g ≠ .release a .timer ∧ g ≠ .timeout a := by
  replace step := request_requests step
  cases step
  all_goals simp [Frame.ends]

theorem Effect.fixed {c c' : Config} {event : Event} {a : Id} (effect : Effect c event c') (made : a < c.world.next) :
    a < c'.world.next ∧ (c'.world.asyncs a).kind = (c.world.asyncs a).kind ∧
      (c'.world.asyncs a).parent = (c.world.asyncs a).parent ∧
      (c'.world.asyncs a).trace.timed = (c.world.asyncs a).trace.timed := by
  refine object_persists (Q := fun x => x.kind = (c.world.asyncs a).kind ∧ x.parent = (c.world.asyncs a).parent ∧
    x.trace.timed = (c.world.asyncs a).trace.timed) effect ?_ ?_ ?_ ?_ made ⟨rfl,rfl,rfl⟩
  · intro thread f outcome x frames _ _ subject step _
    obtain ⟨parent,kind⟩ := act_fixed step
    exact ⟨kind,parent,(act_ended subject step).2.1⟩
  · intro x x' call frames step same
    obtain ⟨-,parent,-,kind⟩ := request_mentions step
    rw [kind,parent,(request_ended step).2.1]
    exact same
  · intro x x' cause frames step same
    obtain ⟨-,parent,-,kind⟩ := arise_mentions step
    rw [kind,parent,(arise_trace step).1]
    exact same
  · exact fun x phase same => same

theorem Effect.terminals {c c' : Config} {event : Event} {a : Id} (effect : Effect c event c')
    (made : a < c.world.next) : (c.world.asyncs a).trace.terminals ≤ (c'.world.asyncs a).trace.terminals := by
  refine (object_persists (Q := fun x => (c.world.asyncs a).trace.terminals ≤ x.trace.terminals) effect ?_ ?_ ?_ ?_
    made (Nat.le_refl _)).2
  · exact fun thread f outcome x frames _ _ subject step before => Nat.le_trans before (act_ended subject step).1
  · exact fun x x' call frames step before => (request_ended step).2.2.1 ▸ before
  · exact fun x x' cause frames step before => (arise_trace step).1 ▸ before
  · exact fun x phase before => before

/-- A release before the end of the call is not that of the last reference. -/
theorem Accounts.lasting {c : Config} {a : Id} (accounts : Accounts c a) {share : Share}
    (releasing : .release a share ∈ c.threads.flatten) (given : (c.world.asyncs a).trace.given = 0) :
    1 < (c.world.asyncs a).ref := by
  have law := accounts.balanced.references
  have one : 0 < c.shares a share := tally_pos releasing (by simp [Frame.share])
  have armed : 0 ≤ toInt (c.world.asyncs a).armed := by
    unfold toInt
    split <;> decide
  cases share <;> omega

/-! ## What has taken the timer out of the tree -/

def Frame.heralds (a : Id) : Frame → Bool
  | notify b _ | completed b _ | leave b (.notify _) | cancelEnter b | cancelTarget b | timeout b => b = a
  | connectPhase1 b e | leave b (.connectPhase1 e) => b = a && e ≠ 0
  | _ => false

def Released (a : Id) (r : Stopped) (x : Object) (f : Frame) : Prop :=
  f = .release a .timer → x.kind = .multiPhase → x.trace.timed = true → x.trace.terminals = 0 →
    r.cancelled = true ∨ r.expired = true

def Intact (r : Stopped) (x : Object) : Prop :=
  x.kind = .multiPhase → x.trace.timed = true → x.trace.terminals = 0 → r.cancelled = false → r.expired = false →
    x.trace.timersDone = 0 ∧ x.trace.dropped = 0 ∧ x.canceled = false

def Unheralded (a : Id) (s : Stopped × Config) : Prop :=
  (s.2.world.asyncs a).kind = .multiPhase → (s.2.world.asyncs a).trace.timed = true →
    (s.2.world.asyncs a).trace.terminals = 0 → s.1.cancelled = false → s.1.expired = false →
      ∀ f ∈ s.2.threads.flatten, f.heralds a = false

structure Guarding (a : Id) (s : Stopped × Config) : Prop where
  audited : Audited s.2
  answered : a < s.2.world.next → Answered (s.2.world.asyncs a)
  ended : a < s.2.world.next → s.2.Each (Ended a) a
  unheralded : Unheralded a s
  timeouts : .timeout a ∈ s.2.threads.flatten → s.1.expired = true
  released : a < s.2.world.next → s.2.Each (Released a s.1) a
  intact : a < s.2.world.next → Intact s.1 (s.2.world.asyncs a)

/-- `async_timeout` is called by the poll thread alone. -/
theorem timeout_expires {c c' : Config} {event : Event} {a : Id} (effect : Effect c event c')
    (member : .timeout a ∈ c'.threads.flatten) : .timeout a ∈ c.threads.flatten ∨ event = .arise a .expire := by
  cases effect with
  | library here subject below step =>
    rcases mem_set here member with new | old
    · have acts := act_acts step
      cases acts <;> simp at new
    · exact Or.inl old
  | call here below step =>
    rcases mem_set here member with new | old
    · rcases List.mem_append.mp new with own | user
      · cases request_owner step _ own
        exact absurd rfl ((request_ended step).2.2.2.2.2.2 _ own).2.2.2
      · simp at user
    · exact Or.inl old
  | new here kind below | waitNew here below below' =>
    rcases mem_set here member with new | old
    · rcases List.mem_append.mp new with own | user
      · rcases construct_mem own with ⟨p,-,same⟩ | same | ⟨-,same⟩ <;> cases same
      · simp at user
    · exact Or.inl old
  | unmade here below | refused here | store here below =>
    rcases mem_set here member with new | old
    · simp at new
    · exact Or.inl old
  | @finish thread role pc last rest err here =>
    rcases mem_set here member with new | old
    · cases finish_mem new
    · exact Or.inl old
  | spawn =>
    rcases mem_spawn member with new | old
    · simp at new
    · exact Or.inl old
  | @arise b cause x frames below step =>
    rcases mem_spawn member with new | old
    · replace step := arise_arises step
      cases step
      all_goals simp at new
      rw [new]
      exact Or.inr rfl
    · exact Or.inl old

theorem Frame.heralds_mentions {a : Id} {f : Frame} (heralds : f.heralds a = true) : a ∈ f.mentions := by
  unfold Frame.heralds at heralds
  split at heralds <;> simp_all [Frame.mentions,Frame.subject]

/-- What drops the timer. -/
theorem act_drops {thread : Nat} {a : Id} {x x' : Object} {f : Frame} {outcome : Outcome} {frames : List Frame}
    (subject : f.subject = some a) (step : act thread x f outcome = some (x',frames)) :
    (x'.trace.timersDone = x.trace.timersDone ∨ f = .release a .timer) ∧
      (x'.trace.dropped = x.trace.dropped ∨ f = .destroy a) ∧
      (.release a .timer ∈ frames → outcome = .ok ∧
        (x.armed = true ∧ (∃ e, f = .notify a e) ∨ f = .cancel a ∨ f = .timeout a)) := by
  replace step := act_acts step
  cases step <;> cases subject
  all_goals simp_all [Object.witness,Object.invoke,Object.answer,Object.decrement,Object.lock,
    Object.unlock,Object.prepare,Object.clearTimer]
  all_goals exact (Decidable.em _).symm

/-- A cancel on its way sets the flag. -/
theorem act_canceled {thread : Nat} {a : Id} {x x' : Object} {f : Frame} {outcome : Outcome} {frames : List Frame}
    (subject : f.subject = some a) (step : act thread x f outcome = some (x',frames)) :
    x'.canceled = x.canceled ∨ f.heralds a = true := by
  replace step := act_acts step
  cases step <;> cases subject
  all_goals simp_all [Frame.heralds,Object.witness,Object.invoke,Object.answer,Object.decrement,Object.lock,
    Object.unlock,Object.prepare,Object.clearTimer]

/-- Where a notify of a call comes from. -/
theorem act_heralds {thread : Nat} {a b : Id} {x x' : Object} {f : Frame} {outcome : Outcome} {frames : List Frame}
    (subject : f.subject = some b) (step : act thread x f outcome = some (x',frames)) :
    ∀ g ∈ frames, g.heralds a = true →
      b = a ∧ (f.heralds a = true ∨ x.canceled = true ∨ f = .cancel a ∧ outcome = .ok ∨
        ∃ e ≠ 0, outcome = .fails e) ∨
      outcome = .ok ∧ x.parent = some a ∧ ((∃ handed, f = .phaseReturned b 0 handed ∧ x.nextPhase = phaseExit) ∨
        ∃ err, f = .errorReturned b err) := by
  replace step := act_acts step
  cases step <;> cases subject
  all_goals simp_all [Frame.heralds]

/-- A notify of a call is led to by another point, by a cancel or the expiry, or by what disturbs the call. -/
theorem Effect.heralds {c c' : Config} {event : Event} {a : Id} {g : Frame} (effect : Effect c event c')
    (known : Known c) (member : g ∈ c'.threads.flatten) (heralds : g.heralds a = true) :
    (∃ f ∈ c.threads.flatten, f.heralds a = true) ∨
      a < c.world.next ∧ ((c.world.asyncs a).canceled = true ∨ Disturbs a c event) ∨
      (∃ thread, event = .run thread .ok ∧ c.top thread = some (.cancel a)) ∨ event = .arise a .expire := by
  have user {role : Role} {pc : Nat} {last : Option Id} (new : g ∈ [Frame.user role pc last]) : False := by
    rw [List.mem_singleton.mp new] at heralds
    cases heralds
  cases effect with
  | @library thread f rest outcome b x frames here subject below step =>
    have top := Config.top_here here
    rcases mem_set here member with new | old
    · rcases act_heralds subject step g new heralds with ⟨rfl,leads | canceled | ⟨rfl,rfl⟩ | ⟨e,failed,rfl⟩⟩ | parent
      · exact Or.inl ⟨f,mem_top here,leads⟩
      · exact Or.inr (Or.inl ⟨below,Or.inl canceled⟩)
      · exact Or.inr (Or.inr (Or.inl ⟨thread,rfl,top⟩))
      · exact Or.inr (Or.inl ⟨below,Or.inr ⟨failed,f,top,subject⟩⟩)
      · obtain ⟨rfl,parent,ends⟩ := parent
        have made := known.object b a (by simp [Object.pointers,parent])
        refine Or.inr (Or.inl ⟨made,Or.inr ⟨f,top,?_⟩⟩)
        rcases ends with ⟨handed,rfl,exit⟩ | ⟨err,rfl⟩
        · exact ⟨rfl,exit,parent⟩
        · exact parent
    · exact Or.inl ⟨g,old,heralds⟩
  | @call thread role pc last rest b call x frames here below step =>
    rcases mem_set here member with new | old
    · rcases List.mem_append.mp new with own | last
      · replace step := request_requests step
        cases step <;> simp only [List.mem_singleton,List.not_mem_nil] at own <;> subst own <;>
          simp only [Frame.heralds,Bool.false_eq_true,decide_eq_true_eq] at heralds
        subst heralds
        exact Or.inr (Or.inl ⟨below,Or.inr rfl⟩)
      · exact (user last).elim
    · exact Or.inl ⟨g,old,heralds⟩
  | new here kind below | waitNew here below below' =>
    rcases mem_set here member with new | old
    · rcases List.mem_append.mp new with own | last
      · rcases construct_mem own with ⟨p,-,rfl⟩ | rfl | ⟨-,rfl⟩ <;> cases heralds
      · exact (user last).elim
    · exact Or.inl ⟨g,old,heralds⟩
  | unmade here below | refused here | store here below =>
    rcases mem_set here member with new | old
    · exact (user new).elim
    · exact Or.inl ⟨g,old,heralds⟩
  | finish here =>
    rcases mem_set here member with new | old
    · cases finish_mem new <;> cases heralds
    · exact Or.inl ⟨g,old,heralds⟩
  | spawn =>
    rcases mem_spawn member with new | old
    · exact (user new).elim
    · exact Or.inl ⟨g,old,heralds⟩
  | @arise b cause x frames below step =>
    rcases mem_spawn member with new | old
    · replace step := arise_arises step
      cases step <;> simp only [List.mem_singleton,List.not_mem_nil] at new <;> subst new <;>
        simp only [Frame.heralds,Bool.and_eq_true,decide_eq_true_eq] at heralds
      · subst heralds
        exact Or.inr (Or.inr (Or.inr rfl))
      · subst heralds
        exact Or.inr (Or.inl ⟨below,Or.inr rfl⟩)
      · obtain ⟨rfl,failed⟩ := heralds
        exact Or.inr (Or.inl ⟨below,Or.inr ⟨rfl,failed⟩⟩)
    · exact Or.inl ⟨g,old,heralds⟩

/-- A flag that is set stays set. -/
theorem Stopped.record_mono {a : Id} {r : Stopped} {c : Config} {event : Event} :
    (r.cancelled = true → (r.record a c event).cancelled = true) ∧
      (r.expired = true → (r.record a c event).expired = true) := by
  cases event with
  | run thread outcome =>
    cases outcome with
    | ok =>
      simp only [Stopped.record]
      split <;> simp
    | fails _ | acts _ => exact ⟨id,id⟩
  | spawn => exact ⟨id,id⟩
  | arise b cause =>
    cases cause with
    | expire =>
      simp only [Stopped.record]
      split <;> simp
    | complete | dispatch _ | lookup _ => exact ⟨id,id⟩

theorem released_each (a : Id) (r : Stopped) : Each (Released a r) a where
  owner := by
    rintro x g apart rfl
    exact absurd rfl apart
  resume := fun x role pc last pc' last' _ same => by cases same
  after := fun x role b call pc last _ same => by cases same
  store := fun x phase g before => before
  finish := by
    rintro x err role - g member rfl
    cases finish_mem member
  arise := by
    intro x x' frames cause step
    have kind := (arise_mentions step).2.2.2
    have trace := (arise_trace step).1
    refine ⟨?_,?_⟩
    · rintro g member rfl
      replace step := arise_arises step
      cases step <;> simp at member
    · intro g before
      unfold Released
      rw [kind,trace]
      exact before
  new := by
    rintro kind timed parent g member rfl
    rcases construct_mem member with ⟨p,-,same⟩ | same | ⟨-,same⟩ <;> cases same
  waitNew := by
    rintro parent child g member rfl
    rcases construct_mem member with ⟨p,-,same⟩ | same | ⟨-,same⟩ <;> cases same

namespace Guarding
variable {a : Id} {s : Stopped × Config} {c' : Config} {event : Event}

/-- Before the end of a call its completion reference is there, and none of its points is the last. -/
theorem lasting (guarding : Guarding a s) (made : a < s.2.world.next)
    (kind : (s.2.world.asyncs a).kind = .multiPhase) (timed : (s.2.world.asyncs a).trace.timed = true)
    {share : Share} (releasing : .release a share ∈ s.2.threads.flatten)
    (ref : (s.2.world.asyncs a).ref ≤ 1) : 0 < (s.2.world.asyncs a).trace.terminals := by
  by_contra none
  have given : (s.2.world.asyncs a).trace.given = 0 := by
    have answered := guarding.answered made kind timed
    omega
  have lasting := (guarding.audited.accounts a made).lasting releasing given
  omega

theorem answered_effect (guarding : Guarding a s) (effect : Effect s.2 event c') (made : a < c'.world.next) :
    Answered (c'.world.asyncs a) := by
  apply object_effect effect _ _ _ _ _ _ _ guarding.answered made
  · intro thread f outcome x frames top _ subject step answered kind timed given
    rw [(act_fixed step).2] at kind
    obtain ⟨grows,same,-,-,gives⟩ := act_ended subject step
    rw [same] at timed
    have known := guarding.audited.known.subject top subject
    rcases gives with kept | terminal | ends | ⟨e,rfl⟩
    · exact Nat.lt_of_lt_of_le (answered kind timed (kept ▸ given)) grows
    · exact terminal
    · exact Nat.lt_of_lt_of_le (guarding.ended known f (Config.top_mem top) kind timed (Or.inl ends)) grows
    · have typed := (guarding.audited.accounts a known).typed _ (Config.top_mem top) .async rfl
      rw [kind] at typed
      cases typed
  · intro x x' call frames step
    obtain ⟨kind,timed,terminals,given,-⟩ := request_ended step
    unfold Answered
    rw [kind,timed,terminals,given]
    exact id
  · intro x x' cause frames step
    unfold Answered
    rw [(arise_mentions step).2.2.2,(arise_trace step).1]
    exact id
  · exact fun x phase answered => answered
  · intro kind timed parent _ _ _ given
    exact absurd given (Nat.lt_irrefl 0)
  · intro parent _ timed
    cases timed
  · intro parent child kind
    cases kind

theorem ended_effect (guarding : Guarding a s) (effect : Effect s.2 event c') (made : a < c'.world.next) :
    c'.Each (Ended a) a := by
  apply (ended_each a).effect guarding.audited.known effect _ _ _ guarding.ended made
  · intro thread f outcome x frames top _ subject step
    obtain ⟨grows,same,ends,destroys,-⟩ := act_ended subject step
    have known := guarding.audited.known.subject top subject
    have kept (g : Frame) (before : Ended a (s.2.world.asyncs a) g) : Ended a x g := by
      intro kind timed last
      rw [(act_fixed step).2] at kind
      rw [same] at timed
      exact Nat.lt_of_lt_of_le (before kind timed last) grows
    refine ⟨?_,fun g _ before => kept g before⟩
    intro g member kind timed last
    rcases last with last | rfl
    · rcases ends (List.countP_pos_iff.mpr ⟨g,member,last⟩) with terminal | here
      · exact terminal
      · exact kept f (guarding.ended known f (Config.top_mem top)) kind timed (Or.inl here)
    · obtain ⟨ref,share,rfl⟩ := destroys member
      rw [(act_fixed step).2] at kind
      rw [same] at timed
      exact Nat.lt_of_lt_of_le (guarding.lasting known kind timed (Config.top_mem top) ref) grows
  · intro thread f outcome b x frames top _ ne subject step g member kind timed last
    rcases act_foreign ne subject step g member (ends_owner last) with ⟨e,-,-,rfl⟩ | ⟨-,rfl⟩ <;>
      simp [Frame.ends] at last
  · intro thread call x frames _ step
    obtain ⟨kind,timed,terminals,-,-,-,apart⟩ := request_ended step
    refine ⟨?_,?_⟩
    · intro g member _ _ last
      obtain ⟨unending,undestroyed,-⟩ := apart g member
      rw [unending] at last
      rcases last with last | last
      · cases last
      · exact absurd last undestroyed
    · intro g _ before
      unfold Ended
      rw [kind,timed,terminals]
      exact before

theorem unheralded_effect (guarding : Guarding a s) (undisturbed : Undisturbed a s.1 s.2 event)
    (effect : Effect s.2 event c') : Unheralded a (s.1.record a s.2 event,c') := by
  intro kind timed terminals calm asleep g member
  obtain ⟨cancelled,expired⟩ := @Stopped.record_mono a s.1 s.2 event
  have calm' : s.1.cancelled = false := Bool.eq_false_iff.mpr (fun flag => Bool.eq_false_iff.mp calm (cancelled flag))
  have asleep' : s.1.expired = false := Bool.eq_false_iff.mpr (fun flag => Bool.eq_false_iff.mp asleep (expired flag))
  -- the call went on before the step
  have going (made : a < s.2.world.next) : (s.2.world.asyncs a).kind = .multiPhase ∧
      (s.2.world.asyncs a).trace.timed = true ∧ (s.2.world.asyncs a).trace.terminals = 0 := by
    obtain ⟨-,kind',-,timed'⟩ := effect.fixed made
    refine ⟨kind' ▸ kind,timed' ▸ timed,Nat.eq_zero_of_le_zero ?_⟩
    exact terminals ▸ effect.terminals made
  rw [Bool.eq_false_iff]
  intro heralds
  rcases effect.heralds guarding.audited.known member heralds with ⟨f,old,leads⟩ | ⟨made,flag | disturbs⟩ | stops
  · have made := guarding.audited.known.frame f old a (Frame.heralds_mentions leads)
    obtain ⟨kind,timed,terminals⟩ := going made
    rw [guarding.unheralded kind timed terminals calm' asleep' f old] at leads
    cases leads
  · obtain ⟨kind,timed,terminals⟩ := going made
    rw [(guarding.intact made kind timed terminals calm' asleep').2.2] at flag
    cases flag
  · exact undisturbed (going made).2.2 calm' asleep' disturbs
  · rcases stops with ⟨thread,rfl,top⟩ | rfl
    · simp [Stopped.record,top] at calm
    · simp [Stopped.record] at asleep

theorem released_effect (guarding : Guarding a s) (effect : Effect s.2 event c') (made : a < c'.world.next) :
    c'.Each (Released a (s.1.record a s.2 event)) a := by
  obtain ⟨cancelled,expired⟩ := @Stopped.record_mono a s.1 s.2 event
  have later {x : Object} {g : Frame} (before : Released a s.1 x g) : Released a (s.1.record a s.2 event) x g :=
    fun same kind timed terminals => (before same kind timed terminals).imp cancelled expired
  apply (released_each a _).effect guarding.audited.known effect _ _ _ (fun known g member =>
    later (guarding.released known g member)) made
  · rintro thread f outcome x frames top rfl subject step
    obtain ⟨grows,timed,-⟩ := act_ended subject step
    obtain ⟨-,-,releases⟩ := act_drops subject step
    refine ⟨?_,?_⟩
    · rintro g member rfl kind timed' terminals
      obtain ⟨rfl,⟨-,e,rfl⟩ | rfl | rfl⟩ := releases member
      · -- nobody notifies a call that goes on
        rw [(act_fixed step).2] at kind
        refine (Bool.eq_false_or_eq_true s.1.cancelled).imp cancelled (fun calm => expired ?_)
        refine (Bool.eq_false_or_eq_true s.1.expired).resolve_right (fun asleep => ?_)
        have none := guarding.unheralded kind (timed ▸ timed') (Nat.eq_zero_of_le_zero (terminals ▸ grows)) calm asleep
          _ (Config.top_mem top)
        simp [Frame.heralds] at none
      · left
        simp [Stopped.record,top]
      · exact Or.inr (expired (guarding.timeouts (Config.top_mem top)))
    · intro g _ before same kind timed' terminals
      rw [(act_fixed step).2] at kind
      exact before same kind (timed ▸ timed') (Nat.eq_zero_of_le_zero (terminals ▸ grows))
  · rintro thread f outcome b x frames top - ne subject step g member rfl
    rcases act_foreign ne subject step _ member rfl with ⟨e,-,-,same⟩ | ⟨-,same⟩ <;> cases same
  · intro thread call x frames _ step
    obtain ⟨kind,timed,terminals,-,-,-,apart⟩ := request_ended step
    refine ⟨fun g member same => absurd same (apart g member).2.2.1,?_⟩
    intro g _ before
    unfold Released
    rw [kind,timed,terminals]
    exact before

theorem intact_effect (guarding : Guarding a s) (effect : Effect s.2 event c') (made : a < c'.world.next) :
    Intact (s.1.record a s.2 event) (c'.world.asyncs a) := by
  obtain ⟨cancelled,expired⟩ := @Stopped.record_mono a s.1 s.2 event
  have before (uncancelled : (s.1.record a s.2 event).cancelled = false)
      (unexpired : (s.1.record a s.2 event).expired = false) : s.1.cancelled = false ∧ s.1.expired = false := by
    refine ⟨Bool.eq_false_iff.mpr ?_,Bool.eq_false_iff.mpr ?_⟩
    · intro flag
      rw [cancelled flag] at uncancelled
      cases uncancelled
    · intro flag
      rw [expired flag] at unexpired
      cases unexpired
  apply object_effect effect _ _ _ _ _ _ _ _ made
  · intro thread f outcome x frames top _ subject step intact kind timed terminals uncancelled unexpired
    rw [(act_fixed step).2] at kind
    obtain ⟨grows,same,-⟩ := act_ended subject step
    rw [same] at timed
    have known := guarding.audited.known.subject top subject
    have none : (s.2.world.asyncs a).trace.terminals = 0 := by omega
    obtain ⟨calm,asleep⟩ := before uncancelled unexpired
    obtain ⟨done,dropped,canceled⟩ := intact kind timed none uncancelled unexpired
    obtain ⟨releases,destroys,-⟩ := act_drops subject step
    refine ⟨?_,?_,?_⟩
    · rcases releases with kept | rfl
      · rw [kept,done]
      · rcases guarding.released known _ (Config.top_mem top) rfl kind timed none with flag | flag
        · rw [calm] at flag
          cases flag
        · rw [asleep] at flag
          cases flag
    · rcases destroys with kept | rfl
      · rw [kept,dropped]
      · have some := guarding.ended known _ (Config.top_mem top) kind timed (Or.inr rfl)
        omega
    · rcases act_canceled subject step with kept | leads
      · rw [kept,canceled]
      · rw [guarding.unheralded kind timed none calm asleep f (Config.top_mem top)] at leads
        cases leads
  · intro x x' call frames step
    obtain ⟨kind,timed,terminals,-,done,dropped,-⟩ := request_ended step
    unfold Intact
    rw [kind,timed,terminals,done,dropped,request_canceled step]
    exact id
  · intro x x' cause frames step
    unfold Intact
    rw [(arise_mentions step).2.2.2,(arise_trace step).1,arise_canceled step]
    exact id
  · exact fun x phase intact => intact
  · exact fun kind timed parent _ _ _ _ _ _ => ⟨rfl,rfl,rfl⟩
  · exact fun parent _ _ _ _ _ => ⟨rfl,rfl,rfl⟩
  · intro parent child kind
    cases kind
  · intro known kind timed terminals uncancelled unexpired
    obtain ⟨calm,asleep⟩ := before uncancelled unexpired
    exact guarding.intact known kind timed terminals calm asleep

theorem effect (guarding : Guarding a s) (undisturbed : Undisturbed a s.1 s.2 event)
    (effect : Effect s.2 event c') : Guarding a (s.1.record a s.2 event,c') where
  audited := guarding.audited.effect effect
  answered := guarding.answered_effect effect
  ended := guarding.ended_effect effect
  timeouts := by
    intro member
    rcases timeout_expires effect member with old | rfl
    · exact s.1.record_mono.2 (guarding.timeouts old)
    · simp [Stopped.record]
  unheralded := guarding.unheralded_effect undisturbed effect
  released := guarding.released_effect effect
  intact := guarding.intact_effect effect

/-- The timer reference that is neither released nor about to be is that of the tree. -/
theorem watched (guarding : Guarding a s) (made : a < s.2.world.next)
    (kind : (s.2.world.asyncs a).kind = .multiPhase) (timed : (s.2.world.asyncs a).trace.timed = true)
    (armings : tally (·.arms a) s.2.threads = 0) (terminals : (s.2.world.asyncs a).trace.terminals = 0)
    (calm : s.1.cancelled = false) (asleep : s.1.expired = false) : (s.2.world.asyncs a).armed = true := by
  have balanced := (guarding.audited.accounts a made).balanced
  have timers := balanced.timers
  have taken := balanced.armings
  obtain ⟨done,dropped,-⟩ := guarding.intact made kind timed terminals calm asleep
  have apart (p : Frame → Bool) (within : ∀ g, p g → g.arms a) : tally p s.2.threads = 0 := by
    apply tally_none
    intro g member holds
    exact tally_zero armings member (within g holds)
  have newRef : tally (fun f => f = .newRef a) s.2.threads = 0 := by
    apply apart
    intro g same
    rw [of_decide_eq_true same]
    exact decide_eq_true rfl
  have shares : s.2.shares a .timer = 0 := by
    apply tally_none
    intro g member share
    have share := of_decide_eq_true share
    have flagged : s.1.cancelled = true ∨ s.1.expired = true ∨ g.arms a := by
      cases g with
      | release b share' =>
        cases share
        exact (guarding.released made _ member rfl kind timed terminals).imp_right Or.inl
      | timeout b =>
        cases share
        exact Or.inr (Or.inl (guarding.timeouts member))
      | newArm b =>
        cases share
        exact Or.inr (Or.inr (decide_eq_true rfl))
      | user role => cases role <;> cases share
      | _ => cases share
    rw [calm,asleep] at flagged
    rcases flagged with flag | flag | arming
    · cases flag
    · cases flag
    · exact tally_zero armings member arming
  rw [timed] at taken
  cases armed : (s.2.world.asyncs a).armed with
  | true => rfl
  | false =>
    simp only [armed,toInt,Bool.false_eq_true,if_false,if_true] at timers taken
    omega

end Guarding

theorem start_guarding (a : Id) : Guarding a (⟨false,false⟩,Config.start) where
  audited := ⟨start_known,fun b made => absurd made (Nat.not_lt_zero b)⟩
  answered := fun made => absurd made (Nat.not_lt_zero a)
  ended := fun made => absurd made (Nat.not_lt_zero a)
  unheralded := fun _ _ _ _ _ _ member => absurd member List.not_mem_nil
  timeouts := fun member => absurd member List.not_mem_nil
  released := fun made => absurd made (Nat.not_lt_zero a)
  intact := fun made => absurd made (Nat.not_lt_zero a)

end Xrossfire.Async
