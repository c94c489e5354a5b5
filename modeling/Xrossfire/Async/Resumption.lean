import Xrossfire.Async.Phases
import Xrossfire.Async.Phasing

/-! Whether a call goes on with the phase that was chosen for it. The invocation
that starts an I/O stores `next_phase` while the packet of the I/O may already be
on its way. -/
namespace Xrossfire.Async
open Library Relation

/-- Only an invocation without an error that has not yet done so hands the async on. -/
def Opened (a : Id) (c : Config) : Event → Prop
  | .run thread (.acts (.call b (.operation _))) => b = a →
    ∀ f ∈ c.top thread, match f with | .user role _ _ => role.opens a = true | _ => True
  | _ => True

instance (a : Id) (c : Config) (event : Event) : Decidable (Opened a c event) := by
  unfold Opened
  match event with
  | .run _ (.acts (.call _ (.operation _))) =>
    refine @instDecidableForall _ _ _ (@Option.decidableForallMem _ _ (fun f => ?_) _)
    match f with
    | .user .. | .notify .. | .notifyKind .. | .asyncNotify .. | .complete .. | .waitNotify ..
    | .runNextPhase .. | .phaseReturned .. | .errorReturned .. | .release .. | .destroy _ | .unlink ..
    | .link .. | .clear _ | .cancel _ | .cancelEnter _ | .cancelTarget _ | .timeout _ | .enter .. | .unlock _
    | .start .. | .leave .. | .newRef _ | .newArm _ | .wait _ | .operation .. | .acceptEx _ | .connectPhase1 ..
    | .connectAsync _ | .completed .. => infer_instance
  | .run _ .ok | .run _ (.fails _) | .run _ (.acts (.call _ (.notify _))) | .run _ (.acts (.call _ .cancel))
  | .run _ (.acts (.call _ .enter)) | .run _ (.acts (.call _ .addRef)) | .run _ (.acts (.call _ .release))
  | .run _ (.acts (.call _ .wait)) | .run _ (.acts (.new ..)) | .run _ (.acts (.waitNew ..))
  | .run _ (.acts (.store _)) | .run _ (.acts (.finish _)) | .spawn | .arise .. => infer_instance

/-- An invocation without an error stores a phase as long as no later one has begun; one with an error
stores only as the last invocation, when none without an error is running or still to come. -/
def Timely (a : Id) (r : Phasing) (c : Config) : Event → Prop
  | .run thread (.acts (.store _)) =>
    match c.threads[thread]? with
    | some (.user (.procedure b _ e _) _ _ :: rest) => b = a →
      if e = 0 then r.index (thread,rest.length) = r.latest
      else r.index (thread,rest.length) + 1 = r.begun ∧ tally (·.proceeds a) c.threads = 0 ∧
        tally (·.resumes a) c.threads + (c.world.asyncs a).outstanding = 0
    | _ => True
  | _ => True

instance (a : Id) (r : Phasing) (c : Config) (event : Event) : Decidable (Timely a r c event) := by
  unfold Timely
  split
  · split <;> infer_instance
  · infer_instance

def Phased (a : Id) (allowed : Phasing → Config → Event → Prop) : Phasing × Config → Phasing × Config → Prop :=
  Recorded Config.step (Phasing.record a) allowed

/-! ## At most one phase to come -/

inductive Expectation
  | resuming
  | proceeding

def Expectation.count (a : Id) : Expectation → Frame → Bool
  | resuming => (·.resumes a)
  | proceeding => (·.proceeds a)

/-- At most one phase without an error is still to be run; after a store with an error none is, and no
invocation without an error runs. -/
structure Awaiting (failed : Bool) (x : Object) (n : Expectation → Nat) : Prop where
  one : n .resuming + x.outstanding ≤ 1
  none : failed = true → 0 < x.trace.invocations → n .resuming + x.outstanding + n .proceeding = 0

/-- A step of the call brings no phase that was not to come. -/
theorem act_resumes {thread : Nat} {a : Id} {x x' : Object} {f : Frame} {outcome : Outcome} {frames : List Frame}
    (subject : f.subject = some a) (step : act thread x f outcome = some (x',frames))
    (parent : f.kind.map Prod.snd = some .multiPhase → x.parent ≠ some a) :
    frames.countP (·.resumes a) + x'.outstanding ≤ [f].countP (·.resumes a) + x.outstanding := by
  replace step := act_acts step
  cases step <;> cases subject
  all_goals simp only [List.countP_cons,List.countP_nil]
  all_goals simp_all [Frame.resumes,Frame.kind,Object.outstanding,Object.witness,Object.invoke,Object.answer,
    Object.decrement,Object.lock,Object.unlock,Object.prepare,Object.clearTimer,errorCancel]
  all_goals first | omega | (split <;> omega)

/-- An invocation without an error begins where one was to come. -/
theorem act_proceeds {thread : Nat} {a : Id} {x x' : Object} {f : Frame} {outcome : Outcome} {frames : List Frame}
    (subject : f.subject = some a) (step : act thread x f outcome = some (x',frames))
    (some : 0 < frames.countP (·.proceeds a)) : f = .runNextPhase a 0 := by
  replace step := act_acts step
  cases step <;> cases subject
  all_goals simp only [List.countP_cons,List.countP_nil] at some
  all_goals simp_all [Frame.proceeds]

theorem act_nextPhase {thread : Nat} {x x' : Object} {f : Frame} {outcome : Outcome} {frames : List Frame}
    (step : act thread x f outcome = some (x',frames)) : x'.nextPhase = x.nextPhase := by
  replace step := act_acts step
  cases step
  all_goals rfl

namespace Awaiting
variable {a : Id} {failed : Bool} {x x' : Object} {n : Expectation → Nat}

theorem act {thread : Nat} {f : Frame} {outcome : Outcome} {frames : List Frame}
    (before : Awaiting failed x (counted (Expectation.count a) n [f])) (subject : f.subject = some a)
    (step : Async.act thread x f outcome = some (x',frames))
    (parent : f.kind.map Prod.snd = some .multiPhase → x.parent ≠ some a)
    (invoked : failed = true → 0 < x.trace.invocations) :
    Awaiting failed x' (counted (Expectation.count a) n frames) := by
  obtain ⟨one,none⟩ := before
  have moves := act_resumes subject step parent
  simp only [counted,Expectation.count] at one none
  refine ⟨?_,?_⟩
  · simp only [counted,Expectation.count]
    omega
  · intro now _
    have zero := none now (invoked now)
    have quiet : frames.countP (·.proceeds a) = 0 := by
      by_contra some
      have resuming := act_proceeds subject step (Nat.pos_of_ne_zero some)
      subst resuming
      simp [Frame.resumes] at zero
    simp only [counted,Expectation.count]
    omega

theorem arise {cause : Cause} {frames : List Frame} (before : Awaiting failed x n)
    (step : Async.arise a x cause = some (x',frames)) :
    Awaiting failed x' (counted (Expectation.count a) n frames) := by
  obtain ⟨one,none⟩ := before
  simp only [Object.outstanding] at one none
  replace step := arise_arises step
  cases step
  all_goals
    refine ⟨?_,fun now invoked => ?_⟩
    · simp [counted_cons,counted_nil,Expectation.count,Object.outstanding,Frame.resumes]
      omega
    · have zero := none now invoked
      simp [counted_cons,counted_nil,Expectation.count,Object.outstanding,Frame.resumes,Frame.proceeds]
      omega

/-- Fewer points keep the property. -/
theorem fewer {n' : Expectation → Nat} (before : Awaiting failed x n) (le : ∀ i, n' i ≤ n i) :
    Awaiting failed x n' := by
  have resuming := le .resuming
  have proceeding := le .proceeding
  refine ⟨?_,fun now invoked => ?_⟩
  · have one := before.one
    omega
  · have zero := before.none now invoked
    omega

theorem counts (before : Awaiting failed x n) (ref : Int) (held : Nat) :
    Awaiting failed {x with ref := ref, trace.held := held} n :=
  ⟨before.one,before.none⟩

end Awaiting

theorem expectation_owner {a : Id} {i : Expectation} {g : Frame} (counts : Expectation.count a i g) :
    g.owner = some a := by
  cases i
  · simp only [Expectation.count,Frame.resumes] at counts
    split at counts <;> simp_all [Frame.owner,Frame.subject]
  · simp only [Expectation.count,Frame.proceeds] at counts
    split at counts <;> simp_all [Frame.owner]

theorem awaiting_tracked (a : Id) (failed : Bool) : Tracked (Expectation.count a) a (Awaiting failed) where
  owner := fun i g counts => expectation_owner counts
  cancel := by
    intro i
    cases i <;> rfl
  link := by
    intro i p b
    cases i <;> rfl
  unlink := by
    intro i p b
    cases i <;> rfl
  resume := by
    intro i role pc last pc' last'
    cases i <;> cases role <;> rfl
  store := fun x phase n before => ⟨before.one,before.none⟩
  new := by
    intro kind timed parent _
    cases kind <;> cases timed <;> cases parent <;> constructor <;>
      simp [counted_cons,counted_nil,Expectation.count,construct,fresh,Object.outstanding,Frame.resumes]
  waitNew := by
    intro parent child
    constructor <;> simp [counted_cons,counted_nil,Expectation.count,construct,freshWait,
      fresh,Object.outstanding,Frame.resumes]

structure Numbered (a : Id) (s : Phasing × Config) : Prop where
  alone : Alone a s.2
  awaiting : a < s.2.world.next → Awaiting s.1.failed (s.2.world.asyncs a) (s.2.tallies (Expectation.count a))
  places : Stacks (s.1.Places a) s.2.threads
  kept : a < s.2.world.next → s.1.Kept (s.2.world.asyncs a)
  unmade : s.2.world.next ≤ a → ∀ x : Object, x.trace.invocations = 0 → s.1.Kept x

theorem act_invocations {thread : Nat} {a : Id} {x x' : Object} {f : Frame} {outcome : Outcome}
    {frames : List Frame} (subject : f.subject = some a) (step : act thread x f outcome = some (x',frames)) :
    (∃ e terminal phase, f = .runNextPhase a e ∧ outcome = .ok ∧ x' = x.invoke terminal ∧
      frames = [.user (.procedure a phase e false) 0 none]) ∨
    (∀ e, f ≠ .runNextPhase a e) ∧ x'.trace.invocations = x.trace.invocations ∧
      ∀ g ∈ frames, ∀ b phase e handed pc last, g ≠ .user (.procedure b phase e handed) pc last := by
  replace step := act_acts step
  cases step <;> cases subject
  case runError | runPhase => exact Or.inl ⟨_,_,_,rfl,rfl,rfl,rfl⟩
  all_goals
    refine Or.inr ⟨fun e same => (by cases same),rfl,?_⟩
    rintro g member b phase e handed pc last rfl
    simp at member

theorem request_invocations {a : Id} {x x' : Object} {call : Call} {frames : List Frame}
    (step : request a x call = some (x',frames)) :
    x'.trace.invocations = x.trace.invocations ∧ x'.nextPhase = x.nextPhase := by
  replace step := request_requests step
  cases step
  all_goals exact ⟨rfl,rfl⟩

theorem arise_nextPhase {a : Id} {x x' : Object} {cause : Cause} {frames : List Frame}
    (step : arise a x cause = some (x',frames)) : x'.nextPhase = x.nextPhase := by
  replace step := arise_arises step
  cases step
  all_goals rfl

theorem request_subject {a : Id} {x x' : Object} {call : Call} {frames : List Frame}
    (step : request a x call = some (x',frames)) : ∀ g ∈ frames, g.subject = some a := by
  replace step := request_requests step
  cases step
  all_goals simp [Frame.subject]

theorem arise_subject {a : Id} {x x' : Object} {cause : Cause} {frames : List Frame}
    (step : arise a x cause = some (x',frames)) : ∀ g ∈ frames, g.subject = some a := by
  replace step := arise_arises step
  cases step
  all_goals simp [Frame.subject]

theorem finish_subject {err : Error} {role : Role} : ∀ g ∈ finish err role, g.subject.isSome := by
  intro g member
  cases finish_mem member <;> rfl

/-- Library code sets no flag. -/
theorem Phasing.library_failed {a b : Id} {r : Phasing} {c : Config} {thread : Nat} {f : Frame} {rest : List Frame}
    {outcome : Outcome} {x : Object} {frames : List Frame} (here : c.threads[thread]? = some (f :: rest))
    (subject : f.subject = some b) (step : act thread (c.world.asyncs b) f outcome = some (x,frames)) :
    (r.record a c (.run thread outcome)).failed = r.failed := by
  by_cases runs : ∃ e, f = .runNextPhase a e
  · obtain ⟨e,rfl⟩ := runs
    cases subject
    rcases act_invocations rfl step with ⟨-,-,-,-,rfl,-,-⟩ | ⟨other,-,-⟩
    · rw [Phasing.record_begin here]
      rfl
    · exact absurd rfl (other e)
  · rw [Phasing.record_library here subject (fun e same => runs ⟨e,same⟩)]

namespace Numbered
variable {a : Id} {s : Phasing × Config} {c' : Config} {event : Event}

/-- While a phase without an error runs or is to come, no store with an error has been. -/
theorem unfailed (numbered : Numbered a s) (made : a < s.2.world.next) {f : Frame}
    (member : f ∈ s.2.threads.flatten) (open' : f.resumes a ∨ f.proceeds a) : s.1.failed = false := by
  by_contra failed
  have kept := numbered.kept made
  have now := Bool.not_eq_false _ ▸ failed
  have zero := (numbered.awaiting made).none now (kept.count ▸ kept.failed now)
  rcases open' with resumes | proceeds
  · have some : 0 < s.2.tallies (Expectation.count a) .resuming := tally_pos member resumes
    omega
  · have some : 0 < s.2.tallies (Expectation.count a) .proceeding := tally_pos member proceeds
    omega

theorem kept_effect (numbered : Numbered a s) (opened : Opened a s.2 event) (timely : Timely a s.1 s.2 event)
    (effect : Effect s.2 event c') (made : a < s.2.world.next) :
    (s.1.record a s.2 event).Kept (c'.world.asyncs a) := by
  have kept := numbered.kept made
  have set {b : Id} {x : Object} {r' : Phasing} (value : b = a → r'.Kept x) (other : b ≠ a → r' = s.1) :
      r'.Kept ((s.2.world.set b x).asyncs a) := by
    by_cases same : b = a
    · subst same
      rw [World.set_asyncs_self]
      exact value rfl
    · rw [World.set_asyncs_of_ne (Ne.symm same),other same]
      exact kept
  have make (x : Object) : s.1.Kept ((s.2.world.make x).asyncs a) := by
    rw [World.make_asyncs_of_lt made]
    exact kept
  cases effect with
  | @library thread f rest outcome b x frames here subject below step =>
    apply set
    · rintro rfl
      rcases act_invocations subject step with ⟨e,terminal,phase,rfl,rfl,rfl,rfl⟩ | ⟨other,invocations,-⟩
      · rw [Phasing.record_begin here]
        by_cases passed : e = 0
        · subst passed
          exact kept.begin_phase (numbered.unfailed made (mem_top here) (Or.inl (decide_eq_true ⟨rfl,rfl⟩))) terminal _
        · exact kept.begin_error passed terminal _
      · rw [Phasing.record_library here subject other]
        exact kept.object invocations (act_nextPhase step)
    · intro apart
      apply Phasing.record_library here subject
      rintro e rfl
      exact apart (Option.some.inj subject).symm
  | @call thread role pc last rest b call x frames here below step =>
    apply set
    · rintro rfl
      obtain ⟨invocations,phase⟩ := request_invocations step
      apply Phasing.Kept.object _ invocations phase
      cases call with
      | operation op =>
        obtain ⟨stage,rfl⟩ := opens_role (opened rfl _ (Config.top_here here))
        obtain ⟨bound,opens⟩ := (numbered.places thread _ here).1 _ _ _ _ _ rfl
        rw [Phasing.record_hands here]
        exact kept.hands (opens rfl rfl) bound
      | notify _ | cancel | enter | addRef | release | wait =>
        rw [Phasing.record_call here (fun _ op same => by cases same)]
        exact kept
    · exact fun apart => Phasing.record_call here (fun same => absurd same apart)
  | new here kind below =>
    rw [Phasing.record_new here]
    exact make _
  | unmade here below =>
    rw [Phasing.record_new here]
    exact make _
  | waitNew here below below' =>
    rw [Phasing.record_waitNew here]
    exact make _
  | @store thread b phase phase' e handed pc last rest here below =>
    rw [Phasing.record_store here]
    apply set
    · rintro rfl
      rw [if_pos rfl]
      have bound := ((numbered.places thread _ here).1 _ _ _ _ _ rfl).1
      have timely' := timely
      simp only [Timely,here] at timely'
      apply kept.store _ bound
      split
      · next passed =>
        have now := timely' trivial
        rw [if_pos passed] at now
        exact ⟨now,numbered.unfailed made (mem_top here) (Or.inr (decide_eq_true ⟨rfl,passed⟩))⟩
      · next failed =>
        have now := timely' trivial
        rw [if_neg failed] at now
        exact now.1
    · exact fun apart => if_neg apart
  | refused here =>
    rw [Phasing.record_new here]
    exact kept
  | finish here =>
    rcases Phasing.record_finish here with same | ⟨returned,same⟩
    · rw [same]
      exact kept
    · rw [same]
      exact kept.returns returned
  | spawn => exact kept
  | @arise b cause x frames below step =>
    apply set
    · rintro rfl
      exact kept.object (congrArg Trace.invocations (arise_trace step).1) (arise_nextPhase step)
    · exact fun _ => rfl

theorem unmade_effect (numbered : Numbered a s) (effect : Effect s.2 event c') (later : c'.world.next ≤ a)
    (x : Object) (unused : x.trace.invocations = 0) : (s.1.record a s.2 event).Kept x := by
  have known {b : Id} (below : b < s.2.world.next) (le : s.2.world.next ≤ a) : b ≠ a :=
    Nat.ne_of_lt (Nat.lt_of_lt_of_le below le)
  cases effect with
  | library here subject below step =>
    rw [Phasing.record_library here subject]
    · exact numbered.unmade later x unused
    · rintro e rfl
      exact known below later (Option.some.inj subject).symm
  | call here below step =>
    rw [Phasing.record_call here (fun same => absurd same (known below later))]
    exact numbered.unmade later x unused
  | new here kind below =>
    rw [Phasing.record_new here]
    exact numbered.unmade (Nat.le_of_succ_le later) x unused
  | unmade here below =>
    rw [Phasing.record_new here]
    exact numbered.unmade (Nat.le_of_succ_le later) x unused
  | waitNew here below below' =>
    rw [Phasing.record_waitNew here]
    exact numbered.unmade (Nat.le_of_succ_le later) x unused
  | store here below =>
    rw [Phasing.record_store here,if_neg (known below later)]
    exact numbered.unmade later x unused
  | refused here =>
    rw [Phasing.record_new here]
    exact numbered.unmade later x unused
  | finish here =>
    rcases Phasing.record_finish here with same | ⟨returned,same⟩
    · rw [same]
      exact numbered.unmade later x unused
    · rw [same]
      exact (numbered.unmade later x unused).returns returned
  | spawn => exact numbered.unmade later x unused
  | arise below step => exact numbered.unmade later x unused

/-- Where a phase is about to be run, no other is to come. -/
theorem alone_resumes (numbered : Numbered a s) {thread : Nat} {f : Frame} {rest : List Frame}
    (here : s.2.threads[thread]? = some (f :: rest)) (resumes : f.resumes a) (made : a < s.2.world.next) :
    Stacks (fun _ stack => ∀ g ∈ stack, ¬ g.resumes a) (s.2.threads.set thread rest) := by
  have one : tally (·.resumes a) s.2.threads + _ ≤ 1 := (numbered.awaiting made).one
  have top := tally_top (fun g => g.resumes a) here
  rw [List.countP_singleton,if_pos resumes] at top
  have zero : tally (·.resumes a) (s.2.threads.set thread rest) = 0 := by omega
  intro j stack found g member
  exact tally_zero zero (List.mem_flatten.mpr ⟨stack,List.mem_of_getElem? found,member⟩)

theorem places_begin (numbered : Numbered a s) {thread : Nat} {rest : List Frame} {e : Error} {phase phase' : Int}
    (here : s.2.threads[thread]? = some (.runNextPhase a e :: rest)) :
    Stacks ((s.1.begin (thread,rest.length) e phase).Places a)
      (s.2.threads.set thread ([Frame.user (.procedure a phase' e false) 0 none] ++ rest)) := by
  have made := numbered.alone.audited.known.subject (Config.top_here here) rfl
  have others (stack : List Frame) (j : Nat) (found : (s.2.threads.set thread rest)[j]? = some stack) :
      (s.1.begin (thread,rest.length) e phase).latest = s.1.latest ∨ ∀ g ∈ stack, ¬ g.resumes a := by
    by_cases passed : e = 0
    · subst passed
      exact Or.inr (numbered.alone_resumes here (decide_eq_true ⟨rfl,rfl⟩) made j stack found)
    · exact Or.inl (if_neg passed)
  obtain ⟨bound,-⟩ := List.getElem?_eq_some_iff.mp here
  intro j stack found
  by_cases same : j = thread
  · subst same
    rw [List.getElem?_set_self bound,Option.some.injEq] at found
    subst found
    refine ⟨?_,Phasing.places_later (numbered.places j _ here).2 ?_ (Nat.le_succ _)
      (others rest j (List.getElem?_set_self bound))⟩
    · intro stage err handed pc last own
      cases own
      have number : (s.1.begin (j,rest.length) e phase).index (j,rest.length) = s.1.begun := Function.update_self ..
      change (s.1.begin (j,rest.length) e phase).index (j,rest.length) < _ ∧
        (_ → _ → (s.1.begin (j,rest.length) e phase).index (j,rest.length) = _)
      rw [number]
      exact ⟨Nat.lt_succ_self _,fun passed _ => (if_pos passed).symm⟩
    · intro i below
      exact Function.update_of_ne (fun eq => absurd (congrArg Prod.snd eq) (Nat.ne_of_lt below)) _ _
  · rw [List.getElem?_set_ne (Ne.symm same)] at found
    refine Phasing.places_later (numbered.places j stack found) ?_ (Nat.le_succ _) (others stack j ?_)
    · intro i _
      exact Function.update_of_ne (fun eq => same (congrArg Prod.fst eq)) _ _
    · rw [List.getElem?_set_ne (Ne.symm same)]
      exact found

/-- A thread goes on while the numbers stay. -/
theorem places_set (numbered : Numbered a s) {r : Phasing} (index : r.index = s.1.index) (begun : r.begun = s.1.begun)
    (latest : r.latest = s.1.latest) {thread : Nat} {stack : List Frame} (own : s.1.Places a thread stack) :
    Stacks (r.Places a) (s.2.threads.set thread stack) := by
  have quiet (j : Nat) (stack : List Frame) (places : s.1.Places a j stack) : r.Places a j stack :=
    Phasing.places_later places (fun i _ => by rw [index]) (Nat.le_of_eq begun.symm) (Or.inl latest)
  exact (numbered.places.imp quiet).set (fun _ _ _ places => places) (quiet thread stack own)

theorem places_effect (numbered : Numbered a s) (effect : Effect s.2 event c') :
    Stacks ((s.1.record a s.2 event).Places a) c'.threads := by
  have constructs {d : Id} {kind : Kind} {timed : Bool} {parent : Option Id} (g : Frame)
      (member : g ∈ construct d kind timed parent) (phase : Int) (e : Error) (handed : Bool) (pc : Nat)
      (last : Option Id) : g ≠ .user (.procedure a phase e handed) pc last := by
    rintro rfl
    rcases construct_mem member with ⟨p,-,same⟩ | same | ⟨-,same⟩ <;> cases same
  have resumes {thread : Nat} {role : Role} {pc pc' : Nat} {last last' : Option Id} {rest : List Frame}
      (here : s.2.threads[thread]? = some (.user role pc last :: rest)) :
      s.1.Places a thread ([] ++ [Frame.user role pc' last'] ++ rest) :=
    Phasing.places_resumed (numbered.places thread _ here) (fun g member => absurd member List.not_mem_nil)
      (fun _ _ handed same => ⟨handed,same,id⟩)
  cases effect with
  | @library thread f rest outcome b x frames here subject below step =>
    rcases act_invocations subject step with ⟨e,terminal,phase,rfl,rfl,rfl,rfl⟩ | ⟨other,-,quiet⟩
    · by_cases same : b = a
      · subst same
        rw [Phasing.record_begin here]
        exact numbered.places_begin here
      · rw [Phasing.record_library here subject (fun e eq => same (by cases eq; rfl))]
        apply numbered.places_set rfl rfl rfl
        refine Phasing.places_append ?_ (numbered.places thread _ here).2
        intro g member stage err handed pc last eq
        rw [List.mem_singleton.mp member] at eq
        cases eq
        exact same rfl
    · have apart (e : Error) : f ≠ .runNextPhase a e := by
        rintro rfl
        exact other e (by rw [Option.some.inj subject])
      rw [Phasing.record_library here subject apart]
      apply numbered.places_set rfl rfl rfl
      exact Phasing.places_append (fun g member => quiet g member a) (numbered.places thread _ here).2
  | @call thread role pc last rest b call x frames here below step =>
    have own : s.1.Places a thread (frames ++ [Frame.user (role.after b call) (pc + 1) last] ++ rest) := by
      apply Phasing.places_resumed (numbered.places thread _ here)
      · rintro g member stage e handed pc last rfl
        cases request_subject step _ member
      · intro stage e handed same
        cases role with
        | procedure d phase err before =>
          cases call <;> simp only [Role.after,Role.procedure.injEq] at same <;>
            obtain ⟨rfl,rfl,rfl,rfl⟩ := same
          case operation => exact ⟨before,rfl,fun unhanded => (Bool.or_eq_false_iff.mp unhanded).1⟩
          all_goals exact ⟨_,rfl,id⟩
        | main | completed _ _ | entered _ => cases same
    by_cases hands : b = a ∧ ∃ op, call = .operation op
    · obtain ⟨rfl,op,rfl⟩ := hands
      rw [Phasing.record_hands here]
      refine numbered.places_set ?_ ?_ ?_ own <;> rfl
    · rw [Phasing.record_call here (fun same op eq => hands ⟨same,op,eq⟩)]
      exact numbered.places_set rfl rfl rfl own
  | new here kind below =>
    rw [Phasing.record_new here]
    apply numbered.places_set rfl rfl rfl
    exact Phasing.places_resumed (numbered.places _ _ here) constructs (fun _ _ handed same => ⟨handed,same,id⟩)
  | unmade here below =>
    rw [Phasing.record_new here]
    exact numbered.places_set rfl rfl rfl (resumes here)
  | waitNew here below below' =>
    rw [Phasing.record_waitNew here]
    apply numbered.places_set rfl rfl rfl
    exact Phasing.places_resumed (numbered.places _ _ here) constructs (fun _ _ handed same => ⟨handed,same,id⟩)
  | store here below =>
    rw [Phasing.record_store here]
    split
    · refine numbered.places_set ?_ ?_ ?_ (resumes here) <;> rfl
    · exact numbered.places_set rfl rfl rfl (resumes here)
  | refused here =>
    rw [Phasing.record_new here]
    exact numbered.places_set rfl rfl rfl (resumes here)
  | @finish thread role pc last rest err here =>
    have own : s.1.Places a thread (finish err role ++ rest) := by
      refine Phasing.places_append ?_ (numbered.places thread _ here).2
      rintro g member stage e handed pc last rfl
      cases finish_subject _ member
    rcases Phasing.record_finish here with same | ⟨returned,same⟩
    · rw [same]
      exact numbered.places_set rfl rfl rfl own
    · rw [same]
      refine numbered.places_set ?_ ?_ ?_ own <;> rfl
  | spawn =>
    refine numbered.places.spawn ⟨?_,trivial⟩
    intro stage e handed pc last same
    cases same
  | @arise b cause x frames below step =>
    refine numbered.places.spawn ?_
    rw [← List.append_nil frames]
    refine Phasing.places_append ?_ trivial
    rintro g member stage e handed pc last rfl
    cases arise_subject step _ member

/-- Only a store with an error changes the flag, and it finds no phase without an error left. -/
theorem awaiting_later (numbered : Numbered a s) (timely : Timely a s.1 s.2 event) (effect : Effect s.2 event c')
    (made : a < s.2.world.next) :
    Awaiting (s.1.record a s.2 event).failed (s.2.world.asyncs a) (s.2.tallies (Expectation.count a)) := by
  have awaiting := numbered.awaiting made
  cases effect with
  | @library thread f rest outcome b x frames here subject below step =>
    rw [Phasing.library_failed here subject step]
    exact awaiting
  | @call thread role pc last rest b call x frames here below step =>
    by_cases hands : b = a ∧ ∃ op, call = .operation op
    · obtain ⟨rfl,op,rfl⟩ := hands
      rw [Phasing.record_hands here]
      exact awaiting
    · rw [Phasing.record_call here (fun same op eq => hands ⟨same,op,eq⟩)]
      exact awaiting
  | new here kind below =>
    rw [Phasing.record_new here]
    exact awaiting
  | unmade here below =>
    rw [Phasing.record_new here]
    exact awaiting
  | waitNew here below below' =>
    rw [Phasing.record_waitNew here]
    exact awaiting
  | @store thread b phase phase' e handed pc last rest here below =>
    rw [Phasing.record_store here]
    simp only [Timely,here] at timely
    split
    · next same =>
      refine ⟨awaiting.one,?_⟩
      intro failed invoked
      by_cases passed : e = 0
      · apply awaiting.none _ invoked
        subst passed
        exact (Bool.or_false _).symm.trans failed
      · have now := timely same
        rw [if_neg passed] at now
        change tally (·.resumes a) s.2.threads + _ + tally (·.proceeds a) s.2.threads = 0
        omega
    · exact awaiting
  | refused here =>
    rw [Phasing.record_new here]
    exact awaiting
  | finish here =>
    rcases Phasing.record_finish here with same | ⟨returned,same⟩
    · rw [same]
      exact awaiting
    · rw [same]
      exact awaiting
  | spawn => exact awaiting
  | arise below step => exact awaiting

theorem awaiting_effect (numbered : Numbered a s) (left : Left a s.2 event) (opened : Opened a s.2 event)
    (timely : Timely a s.1 s.2 event) (effect : Effect s.2 event c') (made : a < c'.world.next) :
    Awaiting (s.1.record a s.2 event).failed (c'.world.asyncs a) (c'.tallies (Expectation.count a)) := by
  have later := numbered.awaiting_later timely effect
  apply (awaiting_tracked a (s.1.record a s.2 event).failed).effect numbered.alone.audited.known
    (fun _ _ _ => numbered.alone) effect _ _ _ _ _ later made
  · rintro thread f outcome x frames n known top rfl subject step before
    have awaiting := later known
    rw [before] at awaiting
    apply awaiting.act subject step (numbered.alone.parent top subject)
    intro failed
    obtain ⟨stack,here,head⟩ := Option.bind_eq_some_iff.mp top
    obtain ⟨rest,rfl⟩ := List.head?_eq_some_iff.mp head
    rw [Phasing.library_failed here subject step] at failed
    have kept := numbered.kept known
    rw [← kept.count]
    exact kept.failed failed
  · rintro thread role pc last call x frames n known top rfl step before
    have awaiting := later known
    rw [before] at awaiting
    cases call with
    | notify e => exact absurd rfl left
    | enter => exact absurd rfl left
    | operation op =>
      cases step
      obtain ⟨phase,rfl⟩ := opens_role (opened rfl _ top)
      refine awaiting.fewer (fun i => Nat.le_of_eq ?_)
      cases i <;> simp [counted_cons,counted_nil,Expectation.count,Role.after,Frame.resumes,Frame.proceeds]
    | cancel | wait =>
      cases step
      exact awaiting.fewer (fun i => by cases i <;> cases role <;> exact Nat.le_refl _)
    | addRef =>
      cases step
      exact (awaiting.counts _ _).fewer (fun i => by cases i <;> cases role <;> exact Nat.le_refl _)
    | release =>
      cases request_requests step
      exact (awaiting.counts _ _).fewer (fun i => by cases i <;> cases role <;> exact Nat.le_refl _)
  · rintro thread role pc last err n known top rfl before
    have awaiting := later known
    rw [before] at awaiting
    refine awaiting.fewer (fun i => ?_)
    have none : (finish err role).countP (Expectation.count a i) = 0 := by
      apply List.countP_eq_zero.mpr
      intro g member
      cases finish_mem member <;> cases i <;> exact Bool.false_ne_true
    rw [counted,none]
    exact Nat.le_add_right _ _
  · rintro cause x frames known rfl step
    exact (later known).arise step
  · intro thread role pc last timed parent _ _ _
    constructor <;> simp [Async.unmade,fresh,Object.outstanding]

/-- A new async has no invocation yet. -/
theorem kept_made (numbered : Numbered a s) (opened : Opened a s.2 event) (timely : Timely a s.1 s.2 event)
    (effect : Effect s.2 event c') (made : a < c'.world.next) :
    (s.1.record a s.2 event).Kept (c'.world.asyncs a) := by
  by_cases old : a < s.2.world.next
  · exact numbered.kept_effect opened timely effect old
  · have make {x : Object} (made : a < s.2.world.next + 1) (unused : x.trace.invocations = 0) :
        s.1.Kept ((s.2.world.make x).asyncs a) := by
      have same : a = s.2.world.next := Nat.le_antisymm (Nat.le_of_lt_succ made) (Nat.not_lt.mp old)
      rw [same,World.make_asyncs_self]
      exact numbered.unmade (Nat.not_lt.mp old) x unused
    cases effect with
    | new here kind below =>
      rw [Phasing.record_new here]
      exact make made rfl
    | unmade here below =>
      rw [Phasing.record_new here]
      exact make made rfl
    | waitNew here below below' =>
      rw [Phasing.record_waitNew here]
      exact make made rfl
    | library _ _ _ _ | call _ _ _ | store _ _ | refused _ | finish _ | spawn | arise _ _ => exact absurd made old

theorem effect (numbered : Numbered a s) (left : Left a s.2 event) (opened : Opened a s.2 event)
    (timely : Timely a s.1 s.2 event) (effect : Effect s.2 event c') :
    Numbered a (s.1.record a s.2 event,c') where
  alone := numbered.alone.effect effect (fun _ _ _ same => by subst same; exact left rfl)
  awaiting := numbered.awaiting_effect left opened timely effect
  places := numbered.places_effect effect
  kept := numbered.kept_made opened timely effect
  unmade := numbered.unmade_effect effect

end Numbered

/-- A call goes on with the phase that was stored for it, in the runs in which a phase is stored before the
next invocation begins. -/
theorem reachable_resumes {a : Id} {s : Phasing × Config}
    (run : ReflTransGen (Phased a (fun r c event => Left a c event ∧ Opened a c event ∧ Timely a r c event))
      (Phasing.start,Config.start) s) : Resumes s.1 := by
  have numbered : Numbered a s := by
    refine run_invariant ?_ run ⟨⟨⟨start_known,fun b made => absurd made (Nat.not_lt_zero b)⟩,
      fun b made => absurd made (Nat.not_lt_zero b)⟩,fun made => absurd made (Nat.not_lt_zero a),
      fun i stack found => by simp [Config.start] at found,fun made => absurd made (Nat.not_lt_zero a),
      fun _ x unused => Phasing.Kept.start unused⟩
    rintro s ⟨r',c'⟩ numbered ⟨event,⟨left,opened,timely⟩,step,rfl⟩
    exact numbered.effect left opened timely (step_effect step)
  obtain ⟨x,kept⟩ : ∃ x, s.1.Kept x := by
    by_cases made : a < s.2.world.next
    · exact ⟨_,numbered.kept made⟩
    · exact ⟨fresh .async false none none,numbered.unmade (Nat.not_lt.mp made) _ rfl⟩
  exact ⟨fun k n m _ stored resumed => kept.phase k n m stored resumed,kept.order⟩

theorem reachable_resumes_phases : ∃ s, ReflTransGen (Phased 1 (fun r c event => Left 1 c event ∧ Opened 1 c event ∧
    Timely 1 r c event)) (Phasing.start,Config.start) s ∧ s.1.stored 0 = some 1 ∧ s.1.resumed 0 = some 1 ∧
      Resumes s.1 := by
  obtain ⟨s,run,holds⟩ : ∃ s, ReflTransGen (Phased 1 (fun r c event => Left 1 c event ∧ Opened 1 c event ∧
      Timely 1 r c event)) (Phasing.start,Config.start) s ∧
        decide (s.1.stored 0 = some 1 ∧ s.1.resumed 0 = some 1) = true :=
    retrace_reachable (firstPhase ++ lastPhase) (by decide)
  obtain ⟨stored,resumed⟩ := of_decide_eq_true holds
  exact ⟨s,run,stored,resumed,reachable_resumes run⟩

/-- Phase 0 starts a receive whose packet is there before it stores the phase to go on with: phase 0 is
run again for it. -/
def packetFirst : List Event :=
  [.spawn,.run 0 (.acts (.new .async false none true)),.run 0 (.acts (.new .multiPhase false (some 0) true)),
    .run 0 .ok,.run 0 .ok,.run 0 (.acts (.call 1 (.operation .receive))),.run 0 .ok,.run 0 .ok,.run 0 .ok,
    .run 0 .ok,.run 0 .ok,.arise 1 .complete,.arise 1 (.dispatch 0),.run 2 .ok,.run 2 .ok,.run 2 .ok,.run 2 .ok,
    .run 0 (.acts (.store 1)),.run 0 (.acts (.finish 0))]

theorem phase_repeated : ∃ s, ReflTransGen (Phased 1 (fun _ c event => Left 1 c event ∧ Opened 1 c event))
    (Phasing.start,Config.start) s ∧ ¬ Resumes s.1 := by
  obtain ⟨s,run,holds⟩ : ∃ s, ReflTransGen (Phased 1 (fun _ c event => Left 1 c event ∧ Opened 1 c event))
      (Phasing.start,Config.start) s ∧
        decide (s.1.returned 0 = true ∧ s.1.stored 0 = some 1 ∧ s.1.resumed 0 = some 0) = true :=
    retrace_reachable packetFirst (by decide)
  obtain ⟨returned,stored,resumed⟩ := of_decide_eq_true holds
  refine ⟨s,run,?_⟩
  intro resumes
  exact absurd (resumes.phase 0 1 0 returned stored resumed) (by decide)

end Xrossfire.Async
