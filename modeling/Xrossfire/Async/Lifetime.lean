import Xrossfire.Async.References
import Xrossfire.Async.Send

/-! Whether a parent outlives the asyncs made for it. A child points to its
parent without taking a reference, so that depends on who else holds one. -/
namespace Xrossfire.Async
open Library

def Config.parenting (c : Config) (p : Id) : Prop :=
  ∃ a < c.world.next, (c.world.asyncs a).parent = some p ∧ (c.world.asyncs a).freed = false

instance (c : Config) (p : Id) : Decidable (c.parenting p) :=
  inferInstanceAs (Decidable (∃ a, a < c.world.next ∧ _))

/-- The step gives the completion reference away: it is that of the notify that wins, or the end of a call. -/
def Frame.gives (x : Object) : Frame → Bool
  | asyncNotify .. => !x.called
  | phaseReturned _ err _ => err = 0 ∧ x.nextPhase = phaseExit
  | errorReturned .. => true
  | _ => false

def Object.backed (x : Object) : Prop := x.trace.given ≤ x.trace.held

instance (x : Object) : Decidable x.backed := inferInstanceAs (Decidable (_ ≤ _))

def Object.spare (x : Object) : Prop := x.trace.given < x.trace.held

instance (x : Object) : Decidable x.spare := inferInstanceAs (Decidable (_ < _))

/-- An async is made only for a parent that is not completed or that users hold on to. While one that was made for
`p` is not destroyed, `p` is completed and a user gives a reference of `p` back only if users hold on to it further. -/
def Provides (c : Config) : Event → Prop
  | .run thread .ok => ∀ f ∈ c.top thread, ∀ p ∈ f.subject, f.gives (c.world.asyncs p) → c.parenting p →
    (c.world.asyncs p).spare
  | .run _ (.acts (.call p .release)) => c.parenting p → (c.world.asyncs p).spare
  | .run _ (.acts (.new _ _ (some p) true)) | .run _ (.acts (.waitNew (some p) _)) => (c.world.asyncs p).backed
  | _ => True

instance (c : Config) (event : Event) : Decidable (Provides c event) := by
  unfold Provides
  split <;> infer_instance

/-- Every async that is not destroyed has a parent that is alive, and so has the write to
`parent->child_async` that precedes its end. -/
structure ParentsAlive (c : Config) : Prop where
  parent : ∀ p, c.parenting p → 0 < (c.world.asyncs p).ref
  write : ∀ p a, .unlink p a ∈ c.threads.flatten → (c.world.asyncs a).freed = false → 0 < (c.world.asyncs p).ref

theorem act_counts {thread : Nat} {a : Id} {x x' : Object} {f : Frame} {outcome : Outcome} {frames : List Frame}
    (subject : f.subject = some a) (step : act thread x f outcome = some (x',frames)) :
    (x.freed = true → x'.freed = true) ∧ x'.trace.held = x.trace.held ∧
      (x'.trace.given = x.trace.given ∨
        outcome = .ok ∧ f.gives x = true ∧ x'.trace.given = x.trace.given + 1) := by
  replace step := act_acts step
  cases step <;> cases subject
  all_goals simp_all [Frame.gives,Object.witness,Object.invoke,Object.answer,Object.decrement,Object.lock,
    Object.unlock,Object.prepare,Object.clearTimer]

theorem request_counts {a : Id} {x x' : Object} {call : Call} {frames : List Frame}
    (step : request a x call = some (x',frames)) :
    x'.freed = x.freed ∧ x'.trace.given = x.trace.given ∧
      (x.trace.held ≤ x'.trace.held ∨ call = .release ∧ x.trace.held = x'.trace.held + 1) := by
  replace step := request_requests step
  cases step
  case addRef => exact ⟨rfl,rfl,Or.inl (Nat.le_succ _)⟩
  case release held => exact ⟨rfl,rfl,Or.inr ⟨rfl,(Nat.sub_add_cancel held).symm⟩⟩
  all_goals exact ⟨rfl,rfl,Or.inl (Nat.le_refl _)⟩

def Unlinks (a : Id) (x : Object) (f : Frame) : Prop := ∀ p, f = .unlink p a → x.parent = some p

theorem act_unlinks {thread : Nat} {a : Id} {x x' : Object} {f : Frame} {outcome : Outcome} {frames : List Frame}
    (subject : f.subject = some a) (step : act thread x f outcome = some (x',frames)) :
    ∀ p, .unlink p a ∈ frames → x.parent = some p := by
  replace step := act_acts step
  cases step <;> cases subject
  all_goals simp_all

theorem unlinks_interior (a : Id) : Interior (Unlinks a) a where
  point := by
    rintro x f apart p rfl
    exact absurd ⟨rfl,rfl⟩ apart
  arise := by
    intro x x' frames cause step g unlinks p unlink
    rw [(arise_mentions step).2.1]
    exact unlinks p unlink
  store := fun x phase g unlinks => unlinks

theorem unlinks_effect {c c' : Config} {event : Event} {a : Id} (known : Known c) (effect : Effect c event c')
    (unlinks : a < c.world.next → c.Each (Unlinks a) a) (made : a < c'.world.next) : c'.Each (Unlinks a) a := by
  apply (unlinks_interior a).effect known effect _ _ unlinks made
  · intro thread f outcome x frames top _ subject step
    obtain ⟨parent,-⟩ := act_fixed step
    refine ⟨?_,?_⟩
    · intro g member p unlink
      rw [parent]
      exact act_unlinks subject step p (unlink ▸ member)
    · intro g _ unlinks p unlink
      rw [parent]
      exact unlinks p unlink
  · intro thread call x frames _ step g unlinks p unlink
    rw [(request_mentions step).2.1]
    exact unlinks p unlink

structure Writing (c : Config) : Prop where
  audited : Audited c
  unlinks : ∀ a < c.world.next, c.Each (Unlinks a) a

theorem Writing.effect {c c' : Config} {event : Event} (writing : Writing c) (effect : Effect c event c') :
    Writing c' :=
  ⟨writing.audited.effect effect,
    fun a made => unlinks_effect writing.audited.known effect (writing.unlinks a) made⟩

theorem reachable_writing {allowed : Config → Event → Prop} {c : Config} (run : Reachable allowed c) :
    Writing c := by
  refine run_invariant ?_ run ⟨⟨start_known,fun a made => absurd made (Nat.not_lt_zero a)⟩,
    fun a made => absurd made (Nat.not_lt_zero a)⟩
  intro c c' writing step
  obtain ⟨event,-,step⟩ := step
  exact writing.effect (step_effect step)

theorem arise_freed {a : Id} {x x' : Object} {cause : Cause} {frames : List Frame}
    (step : arise a x cause = some (x',frames)) : x'.freed = x.freed := by
  replace step := arise_arises step
  cases step
  all_goals rfl

section Steps
variable {c : Config} {threads : List (List Frame)} {a p : Id} {x : Object}

theorem parenting_set (parent : x.parent = (c.world.asyncs a).parent)
    (freed : (c.world.asyncs a).freed = true → x.freed = true)
    (parenting : Config.parenting ⟨c.world.set a x,threads⟩ p) : c.parenting p := by
  obtain ⟨b,made,points,live⟩ := parenting
  refine ⟨b,made,?_⟩
  by_cases same : b = a
  · subst same
    rw [World.set_asyncs_self] at points live
    refine ⟨parent ▸ points,?_⟩
    cases gone : (c.world.asyncs b).freed with
    | false => rfl
    | true => exact (freed gone).symm.trans live
  · rw [World.set_asyncs_of_ne same] at points live
    exact ⟨points,live⟩

def Backed (c : Config) : Prop := ∀ p, c.parenting p → (c.world.asyncs p).backed

theorem backed_set (backed : Backed c) (parent : x.parent = (c.world.asyncs a).parent)
    (freed : (c.world.asyncs a).freed = true → x.freed = true) (own : c.parenting a → x.backed) :
    Backed ⟨c.world.set a x,threads⟩ := by
  intro p parenting
  have old := parenting_set parent freed parenting
  by_cases same : p = a
  · subst same
    rw [World.set_asyncs_self]
    exact own old
  · rw [World.set_asyncs_of_ne same]
    exact backed p old

theorem backed_make (known : Known c) (backed : Backed c) (below : ∀ p ∈ x.parent, p < c.world.next)
    (own : ∀ p ∈ x.parent, x.freed = false → (c.world.asyncs p).backed) : Backed ⟨c.world.make x,threads⟩ := by
  rintro p ⟨b,made,points,live⟩
  rcases World.make_cases made with ⟨lt,same⟩ | ⟨rfl,new⟩
  · rw [same] at points live
    have inside : p < c.world.next := known.object b p (by simp [Object.pointers,points])
    rw [World.make_asyncs_of_lt inside]
    exact backed p ⟨b,lt,points,live⟩
  · rw [new] at points live
    rw [World.make_asyncs_of_lt (below p points)]
    exact own p points live

end Steps

theorem Backed.effect {c c' : Config} {event : Event} (backed : Backed c) (known : Known c)
    (provides : Provides c event) (effect : Effect c event c') : Backed c' := by
  cases effect with
  | @library thread f rest outcome a x frames here subject below step =>
    obtain ⟨freed,held,given⟩ := act_counts subject step
    refine backed_set backed (act_fixed step).1 freed (fun parenting => ?_)
    have before := backed a parenting
    rw [Object.backed,held]
    rcases given with same | ⟨rfl,gives,more⟩
    · rw [same]
      exact before
    · rw [more]
      exact provides f (Config.top_here here) a subject gives parenting
  | @call thread role pc last rest a call x frames here below step =>
    obtain ⟨freed,given,held⟩ := request_counts step
    refine backed_set backed (request_mentions step).2.1 (fun gone => freed.trans gone) (fun parenting => ?_)
    rw [Object.backed,given]
    rcases held with more | ⟨rfl,fewer⟩
    · exact Nat.le_trans (backed a parenting) more
    · have spare : (c.world.asyncs a).spare := provides parenting
      exact Nat.le_of_lt_succ (Nat.lt_of_lt_of_eq spare fewer)
  | new here made below =>
    refine backed_make known backed below ?_
    rintro p rfl -
    exact provides
  | unmade here below =>
    refine backed_make known backed below ?_
    intro p _ live
    cases live
  | waitNew here below inside =>
    refine backed_make known backed below ?_
    rintro p rfl -
    exact provides
  | store here below => exact backed_set backed rfl id (backed _)
  | refused here | finish here => exact backed
  | spawn => exact backed
  | arise below step =>
    refine backed_set backed (arise_mentions step).2.1 (fun gone => (arise_freed step).trans gone) ?_
    rw [Object.backed,(arise_trace step).1]
    exact backed _

/-- The references that users keep beyond the completions are counted. -/
theorem Accounts.backs {c : Config} {a : Id} (accounts : Accounts c a) (backed : (c.world.asyncs a).backed) :
    0 < (c.world.asyncs a).ref := by
  have law := accounts.balanced.references
  have completions := accounts.balanced.completions
  have held : (c.world.asyncs a).trace.given ≤ (c.world.asyncs a).trace.held := backed
  cases armed : (c.world.asyncs a).armed <;>
    simp only [armed,toInt,if_true,Bool.false_eq_true,if_false] at law <;> omega

/-- Parents outlive their children in the runs that provide for them. -/
theorem reachable_parentsAlive {c : Config} (run : Reachable Provides c) : ParentsAlive c := by
  have writing := reachable_writing run
  have backed : Backed c := by
    induction run with
    | refl =>
      rintro p ⟨a,made,-⟩
      exact absurd made (Nat.not_lt_zero a)
    | tail before last ih =>
      obtain ⟨event,provides,step⟩ := last
      have earlier := reachable_writing before
      exact (ih earlier).effect earlier.audited.known provides (step_effect step)
  have alive (p : Id) (parenting : c.parenting p) : 0 < (c.world.asyncs p).ref := by
    obtain ⟨a,made,points,-⟩ := id parenting
    have known : p < c.world.next := writing.audited.known.object a p (by simp [Object.pointers,points])
    exact (writing.audited.accounts p known).backs (backed p parenting)
  refine ⟨alive,?_⟩
  intro p a member live
  have made : a < c.world.next := writing.audited.known.frame _ member a (by simp [Frame.mentions])
  exact alive p ⟨a,made,writing.unlinks a made _ member p rfl,live⟩

/-- A parent whose user holds a reference is notified by its child's callback and lives on. -/
def keptRun : List Event :=
  [.spawn,.run 0 (.acts (.new .async false none true)),.run 0 (.acts (.call 0 .addRef)),
    .run 0 (.acts (.new .async false (some 0) true)),.run 0 .ok,.run 0 (.acts (.call 1 (.notify 0))),
    .run 0 .ok,.run 0 .ok,.run 0 .ok,.run 0 .ok,.run 0 (.acts (.call 0 (.notify 0))),.run 0 .ok,.run 0 .ok,
    .run 0 .ok,.run 0 .ok,.run 0 (.acts (.finish 0)),.run 0 .ok]

theorem reachable_parentsAlive_kept : ∃ c, Reachable Provides c ∧ c.parenting 0 ∧
    (c.world.asyncs 0).trace.givenDone = 1 ∧ ParentsAlive c := by
  obtain ⟨c,run,holds⟩ : ∃ c, Reachable Provides c ∧ decide (c.parenting 0 ∧
      (c.world.asyncs 0).trace.givenDone = 1) = true :=
    replay_reachable keptRun (by decide)
  obtain ⟨parenting,given⟩ := of_decide_eq_true holds
  exact ⟨c,run,parenting,given,reachable_parentsAlive run⟩

/-- A message of one chunk: the callback of its child notifies the parent, whose last reference is
released before the child's. -/
def oneChunk : List Event :=
  [.spawn,.run 0 (.acts (.new .async false none true)),
    .run 0 (.acts (.new .async true (some 0) true)),.run 0 .ok,.run 0 .ok,.run 0 .ok,
    .run 0 (.acts (.call 1 (.operation .send))),.run 0 .ok,.run 0 .ok,.run 0 .ok,.run 0 .ok,.run 0 .ok,
    .arise 1 .complete,.arise 1 (.dispatch 0),.run 2 .ok,.run 2 .ok,.run 2 .ok,.run 2 .ok,.run 2 .ok,.run 2 .ok,
    .run 2 (.acts (.call 0 (.notify 0))),.run 2 .ok,.run 2 .ok,.run 2 .ok,.run 2 .ok,.run 2 (.acts (.finish 0)),
    .run 2 .ok]

theorem parent_outlived : ∃ c, Reachable (Sending 1 1 0) c ∧ ¬ ParentsAlive c := by
  obtain ⟨c,run,holds⟩ : ∃ c, Reachable (Sending 1 1 0) c ∧ decide (1 < c.world.next ∧
      (c.world.asyncs 1).parent = some 0 ∧ (c.world.asyncs 1).freed = false ∧
      (c.world.asyncs 0).ref = 0) = true :=
    replay_reachable oneChunk (by decide)
  obtain ⟨made,parent,live,ref⟩ := of_decide_eq_true holds
  refine ⟨c,run,fun alive => ?_⟩
  have positive := alive.parent 0 ⟨1,made,parent,live⟩
  omega

end Xrossfire.Async
