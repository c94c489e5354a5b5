import Xrossfire.Async.Effect

/-! The invocations of the procedure of a call, by number: what each stored and
what it was answered with. -/
namespace Xrossfire.Async
open Library

structure Phasing where
  begun : Nat
  /-- The last invocation without an error. -/
  latest : Nat
  /-- The invocation that runs at a place of a thread's stack. -/
  index : Nat × Nat → Nat
  /-- The invocation that handed the async on, until a phase is run for that. -/
  starter : Option Nat
  /-- What each invocation stored last, whether it returned 0, and the phase that was run for what it started. -/
  stored : Nat → Option Int
  returned : Nat → Bool
  resumed : Nat → Option Int
  /-- Whether an invocation with an error has stored a phase. -/
  failed : Bool
  /-- Whether a store came after one of a later invocation. -/
  overridden : Bool

namespace Phasing

def start : Phasing := ⟨0,0,fun _ => 0,none,fun _ => none,fun _ => false,fun _ => none,false,false⟩

def begin (r : Phasing) (place : Nat × Nat) (e : Error) (phase : Int) : Phasing :=
  {r with
    begun := r.begun + 1
    latest := if e = 0 then r.begun else r.latest
    index := Function.update r.index place r.begun
    starter := if e = 0 then none else r.starter
    resumed :=
      match r.starter with
      | some k => if e = 0 then Function.update r.resumed k (some phase) else r.resumed
      | none => r.resumed}

def store (r : Phasing) (k : Nat) (e : Error) (phase : Int) : Phasing :=
  {r with
    stored := Function.update r.stored k (some phase)
    failed := r.failed || decide (e ≠ 0)
    overridden := r.overridden || (List.range r.begun).any (fun l => k < l && (r.stored l).isSome)}

def record (a : Id) (r : Phasing) (c : Config) : Event → Phasing
  | .run thread outcome =>
    match c.threads[thread]?,outcome with
    | some (.runNextPhase b e :: rest),.ok =>
      if b = a then r.begin (thread,rest.length) e (c.world.asyncs a).nextPhase else r
    | some (.user (.procedure b _ e _) _ _ :: rest),.acts (.store phase) =>
      if b = a then r.store (r.index (thread,rest.length)) e phase else r
    | some (.user _ _ _ :: rest),.acts (.call b (.operation _)) =>
      if b = a then {r with starter := some (r.index (thread,rest.length))} else r
    | some (.user (.procedure b _ _ _) _ _ :: rest),.acts (.finish err) =>
      if b = a then
        {r with returned := Function.update r.returned (r.index (thread,rest.length)) (err = 0)}
      else r
    | _,_ => r
  | _ => r

end Phasing

/-- What an invocation started is answered with the phase it stored, and no store comes after one of a
later invocation. -/
structure Resumes (r : Phasing) : Prop where
  phase : ∀ k n m, r.returned k = true → r.stored k = some n → r.resumed k = some m → m = n
  order : r.overridden = false

namespace Frame

def resumes (a : Id) : Frame → Bool
  | operation _ b | enter b (.io _) | start b _ | leave b (.connectPhase1 _) | acceptEx b | connectPhase1 b _
  | connectAsync b | completed b _ => b = a
  | leave b (.notify e) | notify b e | notifyKind b e | runNextPhase b e => b = a ∧ e = 0
  | user (.procedure b _ e handed) _ _ => b = a ∧ e = 0 ∧ handed = false
  | _ => false

def proceeds (a : Id) : Frame → Bool
  | user (.procedure b _ e _) _ _ => b = a ∧ e = 0
  | _ => false

end Frame

/-! ## Invocations and their places -/

namespace Phasing

/-- Each invocation at a place of the stack has begun; one without an error that has not handed the async
on is the latest. -/
def Places (a : Id) (r : Phasing) (thread : Nat) : List Frame → Prop
  | [] => True
  | f :: rest => (∀ phase e handed pc last, f = .user (.procedure a phase e handed) pc last →
      r.index (thread,rest.length) < r.begun ∧
        (e = 0 → handed = false → r.index (thread,rest.length) = r.latest)) ∧ Places a r thread rest

variable {a : Id} {r r' : Phasing} {thread : Nat}

theorem places_append {frames rest : List Frame}
    (quiet : ∀ g ∈ frames, ∀ phase e handed pc last, g ≠ .user (.procedure a phase e handed) pc last)
    (places : r.Places a thread rest) : r.Places a thread (frames ++ rest) := by
  induction frames with
  | nil => exact places
  | cons g frames ih =>
    refine ⟨?_,ih (fun h member => quiet h (List.mem_cons_of_mem _ member))⟩
    intro phase e handed pc last same
    exact absurd same (quiet g List.mem_cons_self phase e handed pc last)

/-- An invocation goes on. -/
theorem places_resumed {frames rest : List Frame} {role role' : Role} {pc pc' : Nat} {last last' : Option Id}
    (places : r.Places a thread (.user role pc last :: rest))
    (quiet : ∀ g ∈ frames, ∀ phase e handed pc last, g ≠ .user (.procedure a phase e handed) pc last)
    (same : ∀ phase e handed, role' = .procedure a phase e handed →
      ∃ handed', role = .procedure a phase e handed' ∧ (handed = false → handed' = false)) :
    r.Places a thread (frames ++ [Frame.user role' pc' last'] ++ rest) := by
  rw [List.append_assoc]
  refine places_append quiet ⟨?_,places.2⟩
  intro phase e handed pc'' last'' here
  cases here
  obtain ⟨handed',rfl,before⟩ := same _ _ _ rfl
  obtain ⟨bound,opens⟩ := places.1 _ _ _ _ _ rfl
  exact ⟨bound,fun passed unhanded => opens passed (before unhanded)⟩

/-- An invocation that begins elsewhere leaves the places alone, when it comes with an error or none that
has not handed the async on is here. -/
theorem places_later {stack : List Frame} (places : r.Places a thread stack)
    (index : ∀ i < stack.length, r'.index (thread,i) = r.index (thread,i)) (begun : r.begun ≤ r'.begun)
    (latest : r'.latest = r.latest ∨ ∀ g ∈ stack, ¬ g.resumes a) : r'.Places a thread stack := by
  induction stack with
  | nil => trivial
  | cons f rest ih =>
    obtain ⟨here,below⟩ := places
    refine ⟨?_,ih below (fun i bound => index i (Nat.lt_succ_of_lt bound)) ?_⟩
    · intro phase e handed pc last same
      obtain ⟨bound,opens⟩ := here phase e handed pc last same
      rw [index rest.length (Nat.lt_succ_self _)]
      refine ⟨Nat.lt_of_lt_of_le bound begun,?_⟩
      rintro rfl rfl
      rcases latest with keeps | quiet
      · rw [keeps]
        exact opens rfl rfl
      · subst same
        exact absurd (decide_eq_true ⟨rfl,rfl,rfl⟩) (quiet _ List.mem_cons_self)
    · rcases latest with keeps | quiet
      · exact Or.inl keeps
      · exact Or.inr (fun g member => quiet g (List.mem_cons_of_mem _ member))

theorem stored_self {k : Nat} {e : Error} {v : Int} : (r.store k e v).stored k = some v := by
  simp only [store,Function.update_self]

theorem stored_of_ne {k l : Nat} {e : Error} {v : Int} (ne : l ≠ k) : (r.store k e v).stored l = r.stored l := by
  simp only [store,Function.update_of_ne ne]

structure Kept (r : Phasing) (x : Object) : Prop where
  count : r.begun = x.trace.invocations
  latest : r.latest < r.begun ∨ r.begun = 0 ∧ r.latest = 0
  starter : ∀ k, r.starter = some k → k = r.latest ∧ k < r.begun
  written : r.failed = false → ∀ v, r.stored r.latest = some v → x.nextPhase = v
  below : r.failed = false → ∀ k, r.stored k ≠ none → k ≤ r.latest
  bound : ∀ k, r.stored k ≠ none → k < r.begun
  failed : r.failed = true → 0 < r.begun
  answered : ∀ k, r.resumed k ≠ none → k < r.latest
  phase : ∀ k n m, r.stored k = some n → r.resumed k = some m → m = n
  order : r.overridden = false

namespace Kept
variable {x x' : Object} {e : Error} {place : Nat × Nat} {k : Nat}

theorem start (unused : x.trace.invocations = 0) : Phasing.start.Kept x := by
  constructor <;> simp [Phasing.start,unused]

theorem object (kept : r.Kept x) (invocations : x'.trace.invocations = x.trace.invocations)
    (phase : x'.nextPhase = x.nextPhase) : r.Kept x' := by
  refine ⟨?_,kept.latest,kept.starter,?_,kept.below,kept.bound,kept.failed,kept.answered,kept.phase,kept.order⟩
  · rw [invocations]
    exact kept.count
  · rw [phase]
    exact kept.written

theorem begin_error (kept : r.Kept x) (failed : e ≠ 0) (terminal : Bool) (place : Nat × Nat) :
    (r.begin place e x.nextPhase).Kept (x.invoke terminal) := by
  have same : r.begin place e x.nextPhase =
      {r with begun := r.begun + 1, index := Function.update r.index place r.begun} := by
    unfold Phasing.begin
    cases r.starter <;> simp only [if_neg failed]
  rw [same]
  refine ⟨?_,?_,?_,kept.written,kept.below,?_,fun _ => Nat.succ_pos _,kept.answered,kept.phase,kept.order⟩
  · simp only [Object.invoke,kept.count]
  · have latest := kept.latest
    simp only
    omega
  · intro k started
    obtain ⟨last,bound⟩ := kept.starter k started
    exact ⟨last,Nat.lt_succ_of_lt bound⟩
  · exact fun k stored => Nat.lt_succ_of_lt (kept.bound k stored)

/-- A phase is run for what the latest invocation started: it is the one that invocation stored. -/
theorem begin_phase (kept : r.Kept x) (unfailed : r.failed = false) (terminal : Bool) (place : Nat × Nat) :
    (r.begin place 0 x.nextPhase).Kept (x.invoke terminal) := by
  have old (k : Nat) (resumed : r.resumed k ≠ none) : k < r.begun := by
    have answered := kept.answered k resumed
    have latest := kept.latest
    omega
  have bare : r.begin place 0 x.nextPhase =
      {r with
        begun := r.begun + 1, latest := r.begun, index := Function.update r.index place r.begun, starter := none
        resumed := (r.begin place 0 x.nextPhase).resumed} := rfl
  have resumed (k : Nat) : (r.begin place 0 x.nextPhase).resumed k = r.resumed k ∨
      r.starter = some k ∧ (r.begin place 0 x.nextPhase).resumed k = some x.nextPhase := by
    unfold Phasing.begin
    cases starter : r.starter with
    | none => exact Or.inl rfl
    | some l =>
      by_cases same : k = l
      · subst same
        exact Or.inr ⟨rfl,by simp⟩
      · exact Or.inl (by simp [Function.update_of_ne same])
  generalize (r.begin place 0 x.nextPhase).resumed = answers at resumed bare
  rw [bare]
  refine ⟨?_,Or.inl (Nat.lt_succ_self _),fun k started => (nomatch started),?_,?_,?_,fun _ => Nat.succ_pos _,?_,?_,
    kept.order⟩
  · simp only [Object.invoke,kept.count]
  · intro _ v stored
    exact absurd (kept.bound r.begun (by rw [stored]; exact Option.some_ne_none v)) (Nat.lt_irrefl _)
  · exact fun _ k stored => Nat.le_of_lt (kept.bound k stored)
  · exact fun k stored => Nat.lt_succ_of_lt (kept.bound k stored)
  · intro k answered
    rcases resumed k with same | ⟨started,-⟩
    · exact old k (same ▸ answered)
    · exact (kept.starter k started).2
  · intro k n m stored answered
    rcases resumed k with same | ⟨started,now⟩
    · exact kept.phase k n m stored (same.symm.trans answered)
    · have last := (kept.starter k started).1
      rw [last] at stored
      have written := kept.written unfailed n stored
      exact (Option.some.inj (now.symm.trans answered)).symm.trans written

theorem store (kept : r.Kept x) {v : Int}
    (timely : if e = 0 then k = r.latest ∧ r.failed = false else k + 1 = r.begun) (bound : k < r.begun) :
    (r.store k e v).Kept {x with nextPhase := v} := by
  have unanswered : r.resumed k = none := by
    by_contra answered
    have before := kept.answered k answered
    have latest := kept.latest
    split at timely <;> omega
  have stored (l : Nat) (some : (r.store k e v).stored l ≠ none) : l = k ∨ r.stored l ≠ none := by
    by_cases same : l = k
    · exact Or.inl same
    · right
      rwa [stored_of_ne same] at some
  refine ⟨kept.count,kept.latest,kept.starter,?_,?_,?_,fun _ => Nat.lt_of_le_of_lt (Nat.zero_le k) bound,kept.answered,
    ?_,?_⟩
  · intro unfailed w here
    obtain ⟨-,passed⟩ := Bool.or_eq_false_iff.mp unfailed
    rw [if_pos (by simpa using passed)] at timely
    have same : (r.store k e v).stored r.latest = some v := by
      rw [← timely.1,stored_self]
    exact Option.some.inj (same.symm.trans here)
  · intro unfailed l some
    obtain ⟨before,passed⟩ := Bool.or_eq_false_iff.mp unfailed
    rw [if_pos (by simpa using passed)] at timely
    rcases stored l some with rfl | old
    · exact Nat.le_of_eq timely.1
    · exact kept.below before l old
  · intro l some
    rcases stored l some with rfl | old
    · exact bound
    · exact kept.bound l old
  · intro l n m here answered
    have apart : l ≠ k := by
      rintro rfl
      exact absurd (unanswered.symm.trans answered) (by simp)
    rw [stored_of_ne apart] at here
    exact kept.phase l n m here answered
  · have none : ∀ l < r.begun, k < l → r.stored l = none := by
      intro l below after
      by_contra some
      split at timely
      · obtain ⟨rfl,unfailed⟩ := timely
        exact absurd (kept.below unfailed l some) (Nat.not_le.mpr after)
      · omega
    simp only [Phasing.store,kept.order,Bool.false_or,List.any_eq_false,List.mem_range,Bool.and_eq_true,
      decide_eq_true_eq,not_and]
    intro l below after
    rw [none l below after]
    exact Bool.false_ne_true

theorem hands (kept : r.Kept x) (last : k = r.latest) (bound : k < r.begun) :
    {r with starter := some k}.Kept x := by
  refine ⟨kept.count,kept.latest,?_,kept.written,kept.below,kept.bound,kept.failed,kept.answered,kept.phase,kept.order⟩
  intro l started
  cases started
  exact ⟨last,bound⟩

theorem returns (kept : r.Kept x) (returned : Nat → Bool) : {r with returned := returned}.Kept x :=
  ⟨kept.count,kept.latest,kept.starter,kept.written,kept.below,kept.bound,
    kept.failed,kept.answered,kept.phase,kept.order⟩

end Kept

section Records
variable {c : Config} {f : Frame} {rest : List Frame} {role : Role} {pc : Nat} {last : Option Id} {outcome : Outcome}

theorem record_begin {e : Error} (here : c.threads[thread]? = some (.runNextPhase a e :: rest)) :
    r.record a c (.run thread .ok) = r.begin (thread,rest.length) e (c.world.asyncs a).nextPhase := by
  unfold record
  dsimp only
  rw [here]
  exact if_pos rfl

theorem record_library {b : Id} (here : c.threads[thread]? = some (f :: rest)) (subject : f.subject = some b)
    (apart : ∀ e, f ≠ .runNextPhase a e) : r.record a c (.run thread outcome) = r := by
  cases f
  case user => cases subject
  case runNextPhase d e =>
    have other : d ≠ a := by
      rintro rfl
      exact apart e rfl
    cases outcome
    case ok =>
      unfold record
      dsimp only
      rw [here]
      exact if_neg other
    all_goals
      unfold record
      dsimp only
      rw [here]
  all_goals
    unfold record
    dsimp only
    rw [here]

theorem record_call {b : Id} {call : Call} (here : c.threads[thread]? = some (.user role pc last :: rest))
    (other : b = a → ∀ op, call ≠ .operation op) : r.record a c (.run thread (.acts (.call b call))) = r := by
  cases call
  case operation op =>
    have apart : b ≠ a := fun same => other same op rfl
    unfold record
    dsimp only
    rw [here]
    cases role <;> exact if_neg apart
  all_goals
    unfold record
    dsimp only
    rw [here]
    cases role <;> rfl

theorem record_hands {op : Operation} (here : c.threads[thread]? = some (.user role pc last :: rest)) :
    r.record a c (.run thread (.acts (.call a (.operation op)))) =
      {r with starter := some (r.index (thread,rest.length))} := by
  unfold record
  dsimp only
  rw [here]
  cases role <;> exact if_pos rfl

theorem record_new {kind : Kind} {timed malloc : Bool} {parent : Option Id}
    (here : c.threads[thread]? = some (.user role pc last :: rest)) :
    r.record a c (.run thread (.acts (.new kind timed parent malloc))) = r := by
  unfold record
  dsimp only
  rw [here]
  cases role <;> rfl

theorem record_waitNew {parent child : Option Id}
    (here : c.threads[thread]? = some (.user role pc last :: rest)) :
    r.record a c (.run thread (.acts (.waitNew parent child))) = r := by
  unfold record
  dsimp only
  rw [here]
  cases role <;> rfl

theorem record_store {b : Id} {phase v : Int} {e : Error} {handed : Bool}
    (here : c.threads[thread]? = some (.user (.procedure b phase e handed) pc last :: rest)) :
    r.record a c (.run thread (.acts (.store v))) =
      if b = a then r.store (r.index (thread,rest.length)) e v else r := by
  unfold record
  dsimp only
  rw [here]

theorem record_finish {err : Error} (here : c.threads[thread]? = some (.user role pc last :: rest)) :
    r.record a c (.run thread (.acts (.finish err))) = r ∨
      ∃ returned, r.record a c (.run thread (.acts (.finish err))) = {r with returned := returned} := by
  unfold record
  dsimp only
  rw [here]
  cases role with
  | procedure b phase e handed =>
    by_cases own : b = a
    · exact Or.inr ⟨_,if_pos own⟩
    · exact Or.inl (if_neg own)
  | main | completed _ _ | entered _ => exact Or.inl rfl

end Records

end Phasing

end Xrossfire.Async
