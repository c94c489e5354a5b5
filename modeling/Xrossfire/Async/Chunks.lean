import Xrossfire.Async.Lifetime

/-! Whether the parent of a message that is sent in chunks knows the child in
flight. The pointer is set by a new child and cleared by the end of any child. -/
namespace Xrossfire.Async
open Library

/-- The child of `p` made last is the one `p` points to, from the end of that write until its
completed callback is called. -/
def ChildKnown (p : Id) (c : Config) : Prop :=
  ∀ a < c.world.next, (c.world.asyncs a).parent = some p →
    (∀ b < c.world.next, (c.world.asyncs b).parent = some p → b ≤ a) →
    (c.world.asyncs a).trace.callbacks = [] → .link p a ∉ c.threads.flatten →
    (c.world.asyncs p).child = some a

def Ends (a : Id) (x : Object) (f : Frame) : Prop :=
  (f = .destroy a ∨ ∃ p, f = .unlink p a) → x.kind = .async → x.trace.callbacks ≠ []

def Links (a : Id) (x : Object) (f : Frame) : Prop := ∀ p, f = .link p a → x.parent = some p

theorem act_ends {thread : Nat} {a : Id} {x x' : Object} {f : Frame} {outcome : Outcome} {frames : List Frame}
    (subject : f.subject = some a) (step : act thread x f outcome = some (x',frames)) :
    (x'.trace.callbacks = [] → x.trace.callbacks = []) ∧
      (.destroy a ∈ frames → ∃ share, f = .release a share ∧ x.ref ≤ 1) ∧
      (∀ p, .unlink p a ∈ frames → f = .destroy a) ∧ (∀ p b, .link p b ∉ frames) ∧
      ((x'.child ≠ x.child → (∃ b, f = .link a b ∧ x'.child = some b) ∨ ∃ b, f = .unlink a b)) := by
  replace step := act_acts step
  cases step <;> cases subject
  all_goals simp_all [Object.witness,Object.invoke,Object.answer,Object.decrement,Object.lock,
    Object.unlock,Object.prepare,Object.clearTimer]

theorem request_stays {a : Id} {x x' : Object} {call : Call} {frames : List Frame}
    (step : request a x call = some (x',frames)) : ∀ p b, .link p b ∉ frames := by
  replace step := request_requests step
  cases step
  all_goals simp

theorem arise_stays {a : Id} {x x' : Object} {cause : Cause} {frames : List Frame}
    (step : arise a x cause = some (x',frames)) : ∀ p b, .link p b ∉ frames := by
  replace step := arise_arises step
  cases step
  all_goals simp

theorem ends_interior (a : Id) : Interior (Ends a) a where
  point := by
    intro x f apart ends
    rcases ends with rfl | ⟨p,rfl⟩ <;> exact absurd ⟨rfl,rfl⟩ apart
  arise := by
    intro x x' frames cause step g ended ends kind
    rw [(arise_trace step).1]
    exact ended ends ((arise_mentions step).2.2.2 ▸ kind)
  store := fun x phase g ended => ended

theorem links_each (a : Id) : Each (Links a) a where
  owner := by
    rintro x g apart p rfl
    exact absurd rfl apart
  resume := fun x role pc last pc' last' _ p link => by cases link
  after := fun x role b call pc last _ p link => by cases link
  store := fun x phase g links => links
  finish := by
    intro x err role _ g member p link
    subst link
    cases finish_mem member
  arise := by
    intro x x' frames cause step
    refine ⟨?_,?_⟩
    · intro g member p link
      exact absurd (link ▸ member) (arise_stays step p a)
    · intro g links p link
      rw [(arise_mentions step).2.1]
      exact links p link
  new := by
    intro kind timed parent g member p link
    rcases construct_mem member with ⟨q,here,rfl⟩ | rfl | ⟨-,rfl⟩ <;> cases link
    exact here
  waitNew := by
    intro parent child g member p link
    rcases construct_mem member with ⟨q,here,-⟩ | rfl | ⟨-,rfl⟩
    · cases here
    · cases link
    · cases link

structure Pointing (c : Config) : Prop where
  writing : Writing c
  ends : ∀ a < c.world.next, c.Each (Ends a) a
  links : ∀ a < c.world.next, c.Each (Links a) a

namespace Pointing
variable {c c' : Config} {event : Event} {a : Id}

theorem ends_effect (pointing : Pointing c) (effect : Effect c event c') (made : a < c'.world.next) :
    c'.Each (Ends a) a := by
  have known := pointing.writing.audited.known
  apply (ends_interior a).effect known effect _ _ (pointing.ends a) made
  · intro thread f outcome x frames top _ subject step
    have made := known.subject top subject
    have accounts := pointing.writing.audited.accounts a made
    obtain ⟨callbacks,destroys,unlinks,-⟩ := act_ends subject step
    obtain ⟨-,same⟩ := act_fixed step
    refine ⟨?_,?_⟩
    · intro g member ends kind empty
      rw [same] at kind
      rcases ends with rfl | ⟨p,rfl⟩
      · obtain ⟨share,rfl,ref⟩ := destroys member
        exact accounts.last kind (Config.top_mem top) ref (callbacks empty)
      · exact pointing.ends a made f (Config.top_mem top) (Or.inl (unlinks p member)) kind (callbacks empty)
    · intro g _ ended ends kind empty
      exact ended ends (same ▸ kind) (callbacks empty)
  · intro thread call x frames _ step g ended ends kind
    rw [(request_trace step).2.2.2.1]
    exact ended ends ((request_mentions step).2.2.2 ▸ kind)

theorem links_effect (pointing : Pointing c) (effect : Effect c event c') (made : a < c'.world.next) :
    c'.Each (Links a) a := by
  have known := pointing.writing.audited.known
  apply (links_each a).effect known effect _ _ _ (pointing.links a) made
  · intro thread f outcome x frames top _ subject step
    obtain ⟨-,-,-,links,-⟩ := act_ends subject step
    refine ⟨fun g member p link => absurd (link ▸ member) (links p a),?_⟩
    intro g _ old p link
    rw [(act_fixed step).1]
    exact old p link
  · intro thread f outcome b x frames top _ ne subject step g member p link
    exact absurd (link ▸ member) ((act_ends subject step).2.2.2.1 p a)
  · intro thread call x frames _ step
    refine ⟨fun g member p link => absurd (link ▸ member) (request_stays step p a),?_⟩
    intro g _ old p link
    rw [(request_mentions step).2.1]
    exact old p link

theorem effect (pointing : Pointing c) (effect : Effect c event c') : Pointing c' :=
  ⟨pointing.writing.effect effect,fun _ made => pointing.ends_effect effect made,
    fun _ made => pointing.links_effect effect made⟩

end Pointing

/-! ## A message of one chunk -/

structure Single (p : Id) (c : Config) : Prop where
  pointing : Pointing c
  child : ∀ a < c.world.next, (c.world.asyncs a).parent = some p →
    (c.world.asyncs a).kind = .async
  unique : ∀ a < c.world.next, ∀ b < c.world.next, (c.world.asyncs a).parent = some p →
    (c.world.asyncs b).parent = some p → a = b
  known : ∀ a < c.world.next, (c.world.asyncs a).parent = some p → (c.world.asyncs a).trace.callbacks = [] →
    .link p a ∈ c.threads.flatten ∨ (c.world.asyncs p).child = some a

theorem sendPh2_nothing {p : Id} {e err : Error} {malloc malloc' timed : Bool} {pc : Nat}
    {last parent : Option Id} {kind : Kind} : sendPh2 0 p e malloc err pc last ≠ .new kind timed parent malloc' := by
  unfold sendPh2
  split
  · split <;> simp
  · simp only [Nat.lt_irrefl,if_false]
    split <;> simp

theorem sendPh2_wait {length : Nat} {p : Id} {e err : Error} {malloc : Bool} {pc : Nat}
    {last parent child : Option Id} : sendPh2 length p e malloc err pc last ≠ .waitNew parent child := by
  unfold sendPh2
  split
  · split <;> simp
  · split
    · unfold sendPh1
      split <;> simp
    · split <;> simp

/-- The one chunk leaves nothing to send. -/
theorem sendLength_fits {limit length : Nat} (fits : length ≤ limit) {p a : Id} {w : World}
    (points : (w.asyncs a).parent = some p) : sendLength limit length p w a = 0 := by
  have one : 1 ≤ (List.range (a + 1)).countP (fun b => (w.asyncs b).parent = some p) :=
    List.countP_pos_iff.mpr ⟨a,List.mem_range.mpr (Nat.lt_succ_self a),by simpa using points⟩
  have whole := Nat.mul_le_mul_left limit one
  simp only [sendLength]
  omega

/-- With one chunk no code makes a second child. -/
theorem no_second {limit length : Nat} {p : Id} {c : Config} (fits : length ≤ limit)
    {thread : Nat} {role : Role} {pc : Nat}
    {last : Option Id} {rest : List Frame} {kind : Kind} {timed malloc : Bool}
    (here : c.threads[thread]? = some (.user role pc last :: rest))
    (allowed : Sending limit length p c (.run thread (.acts (.new kind timed (some p) malloc)))) :
    kind = .async ∧ ∀ a < c.world.next, (c.world.asyncs a).parent ≠ some p := by
  have top : c.top thread = some (.user role pc last) := Config.top_here here
  have outside (start : Outside p c.world (.new kind timed (some p) malloc)) :
      kind = .async ∧ ∀ a < c.world.next, (c.world.asyncs a).parent ≠ some p := by
    obtain ⟨async,-,none⟩ := start rfl
    exact ⟨async,none⟩
  have code := allowed _ top
  cases role with
  | main | procedure _ _ _ _ | entered _ => exact outside code
  | completed a e =>
    simp only [Code] at code
    split at code
    · next points =>
      rw [sendLength_fits fits points] at code
      exact absurd code.symm sendPh2_nothing
    · exact outside code

namespace Single
variable {limit length : Nat} {p : Id} {c c' : Config} {event : Event}

/-- A step on one async keeps what holds of the only child. -/
theorem set (single : Single p c) {b : Id} {x : Object} {threads : List (List Frame)}
    (pointing : Pointing ⟨c.world.set b x,threads⟩) (parent : x.parent = (c.world.asyncs b).parent)
    (kind : x.kind = (c.world.asyncs b).kind)
    (callbacks : x.trace.callbacks = [] → (c.world.asyncs b).trace.callbacks = [])
    (known : ∀ a < c.world.next, (c.world.asyncs a).parent = some p → (c.world.asyncs a).trace.callbacks = [] →
      .link p a ∈ c.threads.flatten ∨ (c.world.asyncs p).child = some a →
      .link p a ∈ threads.flatten ∨ ((c.world.set b x).asyncs p).child = some a) :
    Single p ⟨c.world.set b x,threads⟩ := by
  have same (a : Id) : ((c.world.set b x).asyncs a).parent = (c.world.asyncs a).parent ∧
      ((c.world.set b x).asyncs a).kind = (c.world.asyncs a).kind ∧
      (((c.world.set b x).asyncs a).trace.callbacks = [] → (c.world.asyncs a).trace.callbacks = []) := by
    by_cases here : a = b
    · subst here
      rw [World.set_asyncs_self]
      exact ⟨parent,kind,callbacks⟩
    · rw [World.set_asyncs_of_ne here]
      exact ⟨rfl,rfl,id⟩
  refine ⟨pointing,?_,?_,?_⟩
  · intro a made points
    obtain ⟨parent,kind,-⟩ := same a
    rw [kind]
    exact single.child a made (parent ▸ points)
  · intro a made a' made' points points'
    exact single.unique a made a' made' ((same a).1 ▸ points) ((same a').1 ▸ points')
  · intro a made points none
    obtain ⟨parent,-,callbacks⟩ := same a
    rw [parent] at points
    exact known a made points (callbacks none) (single.known a made points (callbacks none))

theorem make (single : Single p c) {x : Object} {threads : List (List Frame)}
    (pointing : Pointing ⟨c.world.make x,threads⟩)
    (child : x.parent = some p → p < c.world.next ∧ x.kind = .async ∧
      (∀ a < c.world.next, (c.world.asyncs a).parent ≠ some p) ∧ .link p c.world.next ∈ threads.flatten)
    (links : ∀ a, .link p a ∈ c.threads.flatten → .link p a ∈ threads.flatten) :
    Single p ⟨c.world.make x,threads⟩ := by
  refine ⟨pointing,?_,?_,?_⟩
  · intro a made points
    rcases World.make_cases made with ⟨lt,same⟩ | ⟨rfl,new⟩
    · rw [same] at points ⊢
      exact single.child a lt points
    · rw [new] at points ⊢
      exact (child points).2.1
  · intro a made a' made' points points'
    rcases World.make_cases made with ⟨lt,same⟩ | ⟨rfl,new⟩ <;>
      rcases World.make_cases made' with ⟨lt',same'⟩ | ⟨rfl,new'⟩
    · exact single.unique a lt a' lt' (same ▸ points) (same' ▸ points')
    · exact absurd (same ▸ points) ((child (new' ▸ points')).2.2.1 a lt)
    · exact absurd (same' ▸ points') ((child (new ▸ points)).2.2.1 a' lt')
    · rfl
  · intro a made points none
    rcases World.make_cases made with ⟨lt,same⟩ | ⟨rfl,new⟩
    · rw [same] at points none
      have inside : p < c.world.next :=
        single.pointing.writing.audited.known.object a p (by simp [Object.pointers,points])
      change _ ∨ ((c.world.make x).asyncs p).child = some a
      rw [World.make_asyncs_of_lt inside]
      exact (single.known a lt points none).imp_left (links a)
    · exact Or.inl (child (new ▸ points)).2.2.2

theorem effect (single : Single p c) (fits : length ≤ limit) (allowed : Sending limit length p c event)
    (effect : Effect c event c') : Single p c' := by
  have next := single.pointing.effect effect
  have known := single.pointing.writing.audited.known
  have pushed {thread : Nat} {role : Role} {pc : Nat} {last : Option Id} {rest frames : List Frame}
      (here : c.threads[thread]? = some (.user role pc last :: rest)) (a : Id)
      (link : .link p a ∈ c.threads.flatten) : .link p a ∈ (c.threads.set thread (frames ++ rest)).flatten :=
    mem_keep here link (by simp)
  have still {a b : Id} {x : Object} (child : x.child = (c.world.asyncs b).child)
      (pointed : (c.world.asyncs p).child = some a) : ((c.world.set b x).asyncs p).child = some a := by
    by_cases same : p = b
    · subst same
      rw [World.set_asyncs_self,child,pointed]
    · rw [World.set_asyncs_of_ne same,pointed]
  cases effect with
  | @library thread f rest outcome b x frames here subject below step =>
    obtain ⟨callbacks,-,-,-,child⟩ := act_ends subject step
    obtain ⟨parent,kind⟩ := act_fixed step
    apply single.set next parent kind callbacks
    intro a made points none old
    by_cases link : f = .link p a
    · subst link
      cases subject
      right
      rw [World.set_asyncs_self]
      cases outcome <;> cases step
      rfl
    · rcases old with waiting | pointed
      · exact Or.inl (mem_keep here waiting (Ne.symm link))
      · right
        by_cases same : p = b
        · subst same
          rw [World.set_asyncs_self]
          by_contra changed
          have only (b' : Id) (made' : b' < c.world.next) (points' : (c.world.asyncs b').parent = some p) : b' = a :=
            single.unique b' made' a made points' points
          rcases child (fun same => changed (same.trans pointed)) with ⟨b',rfl,new⟩ | ⟨b',rfl⟩
          · have made' := known.frame _ (mem_top here) b' (by simp [Frame.mentions])
            rw [only b' made' (single.pointing.links b' made' _ (mem_top here) p rfl)] at new
            exact changed new
          · have made' := known.frame _ (mem_top here) b' (by simp [Frame.mentions])
            have same := only b' made' (single.pointing.writing.unlinks b' made' _ (mem_top here) p rfl)
            subst same
            exact single.pointing.ends b' made _ (mem_top here) (Or.inr ⟨p,rfl⟩) (single.child b' made points) none
        · rwa [World.set_asyncs_of_ne same]
  | @call thread role pc last rest b call x frames here below step =>
    obtain ⟨-,parent,child,kind⟩ := request_mentions step
    have callbacks := (request_trace step).2.2.2.1
    apply single.set next parent kind (fun none => callbacks ▸ none)
    intro a _ _ _ old
    exact old.imp (pushed here a) (still child)
  | @new thread role pc last rest kind timed parent here made below =>
    apply single.make next _ (pushed here)
    intro points
    cases (points : parent = some p)
    obtain ⟨async,none⟩ := no_second fits here allowed
    exact ⟨below p rfl,async,none,mem_pushed here (by simp [construct])⟩
  | @unmade thread role pc last rest timed parent here below =>
    apply single.make next _ (pushed here)
    intro points
    cases (points : parent = some p)
    cases (no_second fits here allowed).1
  | @refused thread role pc last rest timed parent here =>
    exact ⟨next,single.child,single.unique,fun a made points none =>
      (single.known a made points none).imp_left (pushed here a)⟩
  | @waitNew thread role pc last rest parent child here below inside =>
    apply single.make next _ (pushed here)
    intro points
    cases (points : parent = some p)
    have top : c.top thread = some (.user role pc last) := Config.top_here here
    have code := allowed _ top
    cases role with
    | main | procedure _ _ _ _ | entered _ => exact absurd rfl code
    | completed a e =>
      simp only [Code] at code
      split at code
      · exact absurd code.symm sendPh2_wait
      · exact absurd rfl code
  | @store thread b phase phase' e handed pc last rest here below =>
    apply single.set next rfl rfl id
    intro a _ _ _ old
    exact old.imp (pushed here a) (still rfl)
  | @finish thread role pc last rest err here =>
    exact ⟨next,single.child,single.unique,fun a made points none =>
      (single.known a made points none).imp_left (pushed here a)⟩
  | spawn =>
    exact ⟨next,single.child,single.unique,fun a made points none =>
      (single.known a made points none).imp_left mem_old⟩
  | @arise b cause x frames below step =>
    obtain ⟨-,parent,child,kind⟩ := arise_mentions step
    have trace := (arise_trace step).1
    apply single.set next parent kind (fun none => trace ▸ none)
    intro a _ _ _ old
    exact old.imp mem_old (still child)

end Single

theorem single_childKnown {p : Id} {c : Config} (single : Single p c) : ChildKnown p c := by
  intro a made points _ none linked
  exact (single.known a made points none).resolve_left linked

theorem reachable_single {limit length : Nat} (fits : length ≤ limit) {p : Id} {c : Config}
    (run : Reachable (Sending limit length p) c) : Single p c := by
  have nothing {a : Id} {q : Prop} (made : a < Config.start.world.next) : q := absurd made (Nat.not_lt_zero a)
  refine run_invariant ?_ run ⟨⟨⟨⟨start_known,fun _ made => nothing made⟩,fun _ made => nothing made⟩,
    fun _ made => nothing made,fun _ made => nothing made⟩,fun _ made => nothing made,fun _ made => nothing made,
    fun _ made => nothing made⟩
  intro c c' single step
  obtain ⟨event,allowed,step⟩ := step
  exact single.effect fits allowed (step_effect step)

/-! ## A message of several chunks -/

def sendRun : List Event :=
  [.spawn,.run 0 (.acts (.new .async false none true)),
    .run 0 (.acts (.new .async true (some 0) true)),.run 0 .ok,.run 0 .ok,.run 0 .ok,
    .run 0 (.acts (.call 1 (.operation .send))),.run 0 .ok,.run 0 .ok,.run 0 .ok,.run 0 .ok,.run 0 .ok,
    .arise 1 .complete,.arise 1 (.dispatch 0),.run 2 .ok,.run 2 .ok,.run 2 .ok,.run 2 .ok,.run 2 .ok,.run 2 .ok,
    .run 2 (.acts (.new .async true (some 0) true)),.run 2 .ok,.run 2 .ok,.run 2 .ok,
    .run 2 (.acts (.call 2 (.operation .send))),.run 2 .ok,.run 2 .ok,.run 2 .ok,.run 2 .ok,.run 2 .ok,
    .run 2 (.acts (.finish 0)),.run 2 .ok,.run 2 .ok,.run 2 .ok]

/-- The only callback of a child that runs is that of the first child. -/
def Opening (p : Id) (c : Config) : Event → Prop
  | .run thread (.acts _) => ∀ f ∈ c.top thread, ∀ a ∈ f.owner, (c.world.asyncs a).parent = some p →
    (List.range (a + 1)).countP (fun b => (c.world.asyncs b).parent = some p) = 1
  | _ => True

instance (p : Id) (c : Config) (event : Event) : Decidable (Opening p c event) :=
  match event with
  | .run _ (.acts _) => inferInstanceAs (Decidable (∀ f ∈ _, ∀ a ∈ _, _))
  | .run _ .ok | .run _ (.fails _) | .spawn | .arise _ _ => isTrue trivial

theorem sendPh2_pos {length length' : Nat} (pos : 0 < length) (pos' : 0 < length') :
    sendPh2 length = sendPh2 length' := by
  funext p e malloc err pc last
  simp only [sendPh2,pos,pos']

/-- A first callback is the same for every message of more than one chunk. -/
theorem opening_sending {limit length : Nat} (long : limit < length) {p : Id} {c : Config} {event : Event}
    (sending : Sending 1 2 p c event) (opening : Opening p c event) : Sending limit length p c event := by
  cases event with
  | spawn | arise _ _ => trivial
  | run thread outcome =>
    cases outcome with
    | ok | fails _ => trivial
    | acts action =>
      intro f top
      have code := sending f top
      have first := opening f top
      cases f with
      | user role pc last =>
        cases role with
        | completed a e =>
          simp only [Code] at code ⊢
          split at code
          · next points =>
            rw [if_pos points]
            have one := first a rfl points
            have same : sendPh2 (sendLength limit length p c.world a) = sendPh2 (sendLength 1 2 p c.world a) := by
              apply sendPh2_pos <;> rw [sendLength,one] <;> omega
            rw [same]
            exact code
          · next points =>
            rw [if_neg points]
            exact code
        | main | procedure _ _ _ _ | entered _ => exact code
      | _ => exact code

theorem long_unknown {limit length : Nat} (long : limit < length) :
    ∃ c, Reachable (Sending limit length 0) c ∧ ¬ ChildKnown 0 c := by
  obtain ⟨c,run,holds⟩ : ∃ c, Reachable (fun c event => Sending 1 2 0 c event ∧ Opening 0 c event) c ∧
      decide (c.world.next = 3 ∧ (c.world.asyncs 2).parent = some 0 ∧ (c.world.asyncs 2).trace.callbacks = [] ∧
        .link 0 2 ∉ c.threads.flatten ∧ (c.world.asyncs 0).child = none) = true :=
    replay_reachable sendRun (by decide)
  obtain ⟨made,points,none,linked,child⟩ := of_decide_eq_true holds
  refine ⟨c,run.mono (fun c event both => opening_sending long both.1 both.2),?_⟩
  intro known
  have last : ∀ b < c.world.next, (c.world.asyncs b).parent = some 0 → b ≤ 2 := by
    intro b below _
    rw [made] at below
    exact Nat.le_of_lt_succ below
  have pointed := known 2 (made ▸ by decide) points last none linked
  rw [child] at pointed
  cases pointed

/-- The parent knows its running child in all runs of a send exactly when the message fits one chunk. -/
theorem childKnown_iff (limit length : Nat) :
    (∀ p c, Reachable (Sending limit length p) c → ChildKnown p c) ↔ length ≤ limit := by
  constructor
  · intro known
    by_contra long
    obtain ⟨c,run,unknown⟩ := long_unknown (Nat.lt_of_not_le long)
    exact unknown (known 0 c run)
  · intro fits p c run
    exact single_childKnown (reachable_single fits run)

theorem child_unknown : ∃ c, Reachable (Sending 1 2 0) c ∧ ¬ ChildKnown 0 c := long_unknown (by decide)

end Xrossfire.Async
