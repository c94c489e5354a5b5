import Xrossfire.Async.Accounting

/-! Properties of an async together with the numbers of program points of
several kinds about it. -/
namespace Xrossfire.Async
open Library

/-- No call of `xf_async_call` notifies `a` when it ends. -/
def Childless (a : Id) (c : Config) : Prop :=
  ∀ b < c.world.next, (c.world.asyncs b).parent = some a → (c.world.asyncs b).kind ≠ .multiPhase

namespace Childless
variable {a : Id} {c c' : Config} {event : Event}

theorem set (childless : Childless a c) {b : Id} {x : Object} (parent : x.parent = (c.world.asyncs b).parent)
    (kind : x.kind = (c.world.asyncs b).kind) (threads : List (List Frame)) :
    Childless a ⟨c.world.set b x,threads⟩ := by
  intro b' made points
  by_cases same : b' = b
  · subst same
    rw [World.set_asyncs_self] at points ⊢
    rw [kind]
    exact childless b' made (parent ▸ points)
  · rw [World.set_asyncs_of_ne same] at points ⊢
    exact childless b' made points

theorem make (childless : Childless a c) {x : Object} (new : x.parent = some a → x.kind ≠ .multiPhase)
    (threads : List (List Frame)) : Childless a ⟨c.world.make x,threads⟩ := by
  intro b made points
  rcases World.make_cases made with ⟨lt,same⟩ | ⟨rfl,last⟩
  · rw [same] at points ⊢
    exact childless b lt points
  · rw [last] at points ⊢
    exact new points

theorem effect (childless : Childless a c) (effect : Effect c event c')
    (orphan : ∀ thread timed malloc, event ≠ .run thread (.acts (.new .multiPhase timed (some a) malloc))) :
    Childless a c' := by
  cases effect with
  | library here subject below step => exact childless.set (act_fixed step).1 (act_fixed step).2 _
  | call here below step =>
    obtain ⟨-,parent,-,kind⟩ := request_mentions step
    exact childless.set parent kind _
  | new here made below =>
    apply childless.make
    rintro rfl rfl
    exact orphan _ _ _ rfl
  | unmade here below =>
    apply childless.make
    rintro rfl _
    exact orphan _ _ _ rfl
  | waitNew here below below' => exact childless.make (fun _ kind => by cases kind) _
  | @store _ b _ _ _ _ _ _ _ here below =>
    refine childless.set (b := b) ?_ ?_ _
    · rfl
    · rfl
  | refused here | finish here | spawn => exact childless
  | arise below step =>
    obtain ⟨-,parent,-,kind⟩ := arise_mentions step
    exact childless.set parent kind _

end Childless

theorem kind_subject {f : Frame} {b : Id} {k : Kind} (kind : f.kind.map Prod.snd = some k)
    (subject : f.subject = some b) : f.kind = some (b,k) := by
  cases f <;> simp_all [Frame.kind,Frame.subject]

structure Alone (a : Id) (c : Config) : Prop where
  audited : Audited c
  childless : Childless a c

namespace Alone
variable {a : Id} {c c' : Config} {event : Event}

theorem effect (alone : Alone a c) (effect : Effect c event c')
    (orphan : ∀ thread timed malloc, event ≠ .run thread (.acts (.new .multiPhase timed (some a) malloc))) :
    Alone a c' :=
  ⟨alone.audited.effect effect,alone.childless.effect effect orphan⟩

theorem parent (alone : Alone a c) {thread : Nat} {f : Frame} {b : Id} (top : c.top thread = some f)
    (subject : f.subject = some b) (kind : f.kind.map Prod.snd = some .multiPhase) :
    (c.world.asyncs b).parent ≠ some a := by
  intro parent
  have made := alone.audited.known.subject top subject
  have typed := (alone.audited.accounts b made).typed f (Config.top_mem top) _ (kind_subject kind subject)
  exact alone.childless b made parent typed

end Alone

/-- Only user code enters an async for itself. -/
theorem act_outside {thread : Nat} {a : Id} {x x' : Object} {f : Frame} {outcome : Outcome} {frames : List Frame}
    (step : act thread x f outcome = some (x',frames)) : frames.countP (· = .enter a .user) = 0 := by
  replace step := act_acts step
  cases step
  all_goals simp

def Config.tallies {ι : Type} (c : Config) (count : ι → Frame → Bool) (i : ι) : Nat := tally (count i) c.threads

def counted {ι : Type} (count : ι → Frame → Bool) (n : ι → Nat) (frames : List Frame) (i : ι) : Nat :=
  n i + frames.countP (count i)

theorem counted_nil {ι : Type} (count : ι → Frame → Bool) (n : ι → Nat) (i : ι) : counted count n [] i = n i := rfl

theorem counted_cons {ι : Type} (count : ι → Frame → Bool) (n : ι → Nat) (f : Frame) (frames : List Frame) (i : ι) :
    counted count n (f :: frames) i = counted count n frames i + if count i f then 1 else 0 := by
  simp only [counted,List.countP_cons]
  omega

structure Tracked {ι : Type} (count : ι → Frame → Bool) (a : Id) (J : Object → (ι → Nat) → Prop) : Prop where
  owner : ∀ i g, count i g → g.owner = some a
  cancel : ∀ i, count i (.cancel a) = false
  link : ∀ i p b, count i (.link p b) = false
  unlink : ∀ i p b, count i (.unlink p b) = false
  resume : ∀ i role pc last pc' last', count i (.user role pc last) = count i (.user role pc' last')
  store : ∀ x phase n, J x n → J {x with nextPhase := phase} n
  new : ∀ kind timed parent, kind ≠ .wait →
    J (fresh kind timed parent none) (counted count (fun _ => 0) (construct a kind timed parent))
  waitNew : ∀ parent child, J (freshWait parent child) (counted count (fun _ => 0) (construct a .wait true none))

namespace Tracked
variable {ι : Type} {count : ι → Frame → Bool} {a : Id} {J : Object → (ι → Nat) → Prop} {c c' : Config}
  {event : Event}

theorem foreign (tracked : Tracked count a J) {frames : List Frame} (apart : ∀ g ∈ frames, g.owner ≠ some a)
    (i : ι) : frames.countP (count i) = 0 :=
  List.countP_eq_zero.mpr (fun g member counts => apart g member (tracked.owner i g counts))

/-- User code goes on after a step that adds the points `frames`. -/
theorem resumed (tracked : Tracked count a J) {thread : Nat} {role : Role} {pc : Nat} {last : Option Id}
    {rest : List Frame} (here : c.threads[thread]? = some (.user role pc last :: rest)) (w : World)
    (frames : List Frame) (pc' : Nat) (last' : Option Id) :
    Config.tallies ⟨w,c.threads.set thread (frames ++ [Frame.user role pc' last'] ++ rest)⟩ count =
      counted count (c.tallies count) frames := by
  funext i
  simp only [Config.tallies,counted]
  rw [tally_set _ here,tally_top _ here,List.countP_append,List.countP_singleton,List.countP_singleton,
    tracked.resume i role pc' last' pc last]
  omega

theorem make (tracked : Tracked count a J) (known : Known c) {thread : Nat} {role : Role} {pc : Nat}
    {last last' : Option Id} {rest frames : List Frame} {x : Object}
    (here : c.threads[thread]? = some (.user role pc last :: rest))
    (owners : ∀ g ∈ frames, g.owner = some c.world.next)
    (value : a = c.world.next → J x (counted count (fun _ => 0) frames))
    (holds : a < c.world.next → J (c.world.asyncs a) (c.tallies count)) (made : a < c.world.next + 1) :
    J ((c.world.make x).asyncs a) (Config.tallies ⟨c.world.make x,c.threads.set thread
      (frames ++ [Frame.user role (pc + 1) last'] ++ rest)⟩ count) := by
  rw [tracked.resumed here]
  rcases Nat.lt_or_eq_of_le (Nat.le_of_lt_succ made) with lt | rfl
  · rw [World.make_asyncs_of_lt lt]
    have apart (g : Frame) (member : g ∈ frames) : g.owner ≠ some a := by
      rw [owners g member]
      exact fun same => absurd (Option.some.inj same) (Nat.ne_of_gt lt)
    have same : counted count (c.tallies count) frames = c.tallies count := by
      funext i
      rw [counted,tracked.foreign apart,Nat.add_zero]
    rw [same]
    exact holds lt
  · rw [World.make_asyncs_self]
    have none : c.tallies count = fun _ => 0 := by
      funext i
      apply tally_none
      intro g member counts
      exact absurd (known.frame g member _ (owner_mentions (tracked.owner i g counts))) (Nat.lt_irrefl _)
    rw [none]
    exact value rfl

/-- A step on another async leaves the numbers alone; notifies of `a` count only if no call's end sends one. -/
theorem others (tracked : Tracked count a J) (alone : ∀ i e, count i (.notify a e) → Alone a c) {thread : Nat}
    {f : Frame} {outcome : Outcome} {b : Id} {x : Object} {frames : List Frame} {n : ι → Nat}
    (top : c.top thread = some f) (ne : b ≠ a)
    (subject : f.subject = some b) (step : act thread (c.world.asyncs b) f outcome = some (x,frames)) :
    counted count n frames = counted count n [f] := by
  funext i
  have apart : ¬ count i f := by
    intro counts
    cases f with
    | link p q => exact Bool.false_ne_true ((tracked.link i p q).symm.trans counts)
    | unlink p q => exact Bool.false_ne_true ((tracked.unlink i p q).symm.trans counts)
    | user => cases subject
    | _ => exact ne (Option.some.inj (subject.symm.trans (tracked.owner i _ counts)))
  have quiet : frames.countP (count i) = 0 := by
    apply List.countP_eq_zero.mpr
    intro g member counts
    rcases act_foreign ne subject step g member (tracked.owner i g counts) with ⟨e,parent,kind,rfl⟩ | ⟨-,rfl⟩
    · exact (alone i e counts).parent top subject kind parent
    · exact Bool.false_ne_true ((tracked.cancel i).symm.trans counts)
  rw [counted,counted,quiet,List.countP_singleton,if_neg apart]

/-- The property survives a step when it survives what that step does to the async and to the points. -/
theorem effect (tracked : Tracked count a J) (known : Known c)
    (alone : ∀ i e, count i (.notify a e) → Alone a c) (effect : Effect c event c')
    (own : ∀ thread f outcome x frames n, a < c.world.next → c.top thread = some f → event = .run thread outcome →
      f.subject = some a → act thread (c.world.asyncs a) f outcome = some (x,frames) →
      c.tallies count = counted count n [f] → J x (counted count n frames))
    (call : ∀ thread role pc last call x frames n, a < c.world.next → c.top thread = some (.user role pc last) →
      event = .run thread (.acts (.call a call)) → request a (c.world.asyncs a) call = some (x,frames) →
      c.tallies count = counted count n [.user role pc last] →
      J x (counted count n (frames ++ [Frame.user (role.after a call) (pc + 1) last])))
    (finish : ∀ thread role pc last err n, a < c.world.next → c.top thread = some (.user role pc last) →
      event = .run thread (.acts (.finish err)) → c.tallies count = counted count n [.user role pc last] →
      J (c.world.asyncs a) (counted count n (Async.finish err role)))
    (arise : ∀ cause x frames, a < c.world.next → event = .arise a cause →
      Async.arise a (c.world.asyncs a) cause = some (x,frames) →
      J x (counted count (c.tallies count) frames))
    (unmade : ∀ thread role pc last timed parent, c.top thread = some (.user role pc last) →
      event = .run thread (.acts (.new .multiPhase timed parent false)) → a = c.world.next →
      J (Async.unmade parent) (fun _ => 0))
    (holds : a < c.world.next → J (c.world.asyncs a) (c.tallies count)) (made : a < c'.world.next) :
    J (c'.world.asyncs a) (c'.tallies count) := by
  have split {thread : Nat} {f : Frame} {rest : List Frame} (here : c.threads[thread]? = some (f :: rest)) :
      c.top thread = some f ∧ ∃ n, c.tallies count = counted count n [f] ∧ ∀ w frames,
        Config.tallies ⟨w,c.threads.set thread (frames ++ rest)⟩ count = counted count n frames := by
    refine ⟨Config.top_here here,fun i => tally (count i) (c.threads.set thread rest),?_,?_⟩
    · funext i
      exact tally_top _ here
    · intro w frames
      funext i
      exact tally_set _ here frames
  have nothing : counted count (c.tallies count) [] = c.tallies count := rfl
  cases effect with
  | @library thread f rest outcome b x frames here subject below step =>
    obtain ⟨top,n,before,after⟩ := split here
    rw [after]
    by_cases same : b = a
    · subst same
      change J ((c.world.set b x).asyncs b) _
      rw [World.set_asyncs_self]
      exact own thread f outcome x frames n made top rfl subject step before
    · change J ((c.world.set b x).asyncs a) _
      rw [World.set_asyncs_of_ne (Ne.symm same),tracked.others alone top same subject step,← before]
      exact holds made
  | @call thread role pc last rest b call' x frames here below step =>
    by_cases same : b = a
    · subst same
      obtain ⟨top,n,before,after⟩ := split here
      rw [after]
      change J ((c.world.set b x).asyncs b) _
      rw [World.set_asyncs_self]
      exact call thread role pc last call' x frames n made top rfl step before
    · change J ((c.world.set b x).asyncs a) _
      rw [World.set_asyncs_of_ne (Ne.symm same)]
      have apart (g : Frame) (member : g ∈ frames) : g.owner ≠ some a := by
        rw [request_owner step g member]
        exact fun eq => same (Option.some.inj eq)
      have kept : Config.tallies ⟨c.world.set b x,c.threads.set thread
          (frames ++ [Frame.user (role.after b call') (pc + 1) last] ++ rest)⟩ count = c.tallies count := by
        obtain ⟨-,n,before,after⟩ := split here
        rw [after,before]
        funext i
        have resumed : count i (.user (role.after b call') (pc + 1) last) = count i (.user role pc last) := by
          by_cases owner : (Frame.user role pc last).owner = some a
          · rw [after_owner call' owner same,tracked.resume i role (pc + 1) last pc last]
          · have owner' : (Frame.user (role.after b call') (pc + 1) last).owner ≠ some a := by
              cases role <;> cases call' <;> exact owner
            rw [Bool.eq_false_iff.mpr (fun counts => owner (tracked.owner i _ counts)),
              Bool.eq_false_iff.mpr (fun counts => owner' (tracked.owner i _ counts))]
        rw [counted,counted,List.countP_append,tracked.foreign apart,List.countP_singleton,List.countP_singleton,
          resumed,Nat.zero_add]
      rw [kept]
      exact holds made
  | new here kind below =>
    apply tracked.make known here construct_owner _ holds made
    rintro rfl
    exact tracked.new _ _ _ kind
  | @unmade thread role pc last rest timed parent here below =>
    change J _ (Config.tallies ⟨_,c.threads.set _ ([] ++ [Frame.user role (pc + 1) none] ++ rest)⟩ count)
    apply tracked.make known here (fun g member => absurd member List.not_mem_nil) _ holds made
    exact unmade thread role pc last timed parent (split here).1 rfl
  | @refused thread role pc last rest timed parent here =>
    have kept := tracked.resumed here c.world [] (pc + 1) none
    change J (c.world.asyncs a) (Config.tallies ⟨c.world,c.threads.set thread
      ([] ++ [Frame.user role (pc + 1) none] ++ rest)⟩ count)
    rw [kept]
    exact holds made
  | waitNew here below below' =>
    apply tracked.make known here construct_owner _ holds made
    rintro rfl
    exact tracked.waitNew _ _
  | @store thread b phase phase' e handed pc last rest here below =>
    have kept := tracked.resumed here (c.world.set b {c.world.asyncs b with nextPhase := phase'}) [] (pc + 1) last
    have before := holds made
    rw [List.nil_append,nothing] at kept
    rw [kept]
    by_cases same : b = a
    · subst same
      change J ((c.world.set b _).asyncs b) _
      rw [World.set_asyncs_self]
      exact tracked.store _ _ _ before
    · change J ((c.world.set b _).asyncs a) _
      rw [World.set_asyncs_of_ne (Ne.symm same)]
      exact before
  | @finish thread role pc last rest err here =>
    obtain ⟨top,n,before,after⟩ := split here
    rw [after]
    exact finish thread role pc last err n made top rfl before
  | spawn =>
    have kept : Config.tallies ⟨c.world,c.threads ++ [[.user .main 0 none]]⟩ count = c.tallies count := by
      funext i
      simp only [Config.tallies]
      rw [tally_spawn,tracked.foreign _ i,Nat.add_zero]
      intro g member
      rw [List.mem_singleton.mp member]
      exact fun owner => by cases owner
    rw [kept]
    exact holds made
  | @arise b cause x frames below step =>
    have moved : Config.tallies ⟨c.world.set b x,c.threads ++ [frames]⟩ count =
        counted count (c.tallies count) frames := by
      funext i
      exact tally_spawn _ frames
    rw [moved]
    by_cases same : b = a
    · subst same
      change J ((c.world.set b x).asyncs b) _
      rw [World.set_asyncs_self]
      exact arise cause x frames made rfl step
    · change J ((c.world.set b x).asyncs a) _
      have apart (g : Frame) (member : g ∈ frames) : g.owner ≠ some a := by
        rw [arise_owner step g member]
        exact fun eq => same (Option.some.inj eq)
      have kept : counted count (c.tallies count) frames = c.tallies count := by
        funext i
        rw [counted,tracked.foreign apart,Nat.add_zero]
      rw [World.set_asyncs_of_ne (Ne.symm same),kept]
      exact holds made

end Tracked

end Xrossfire.Async
