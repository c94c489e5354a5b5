import Xrossfire.Async.Monitor
import Xrossfire.Async.Tally

/-! Whether threads can come to wait for each other, for a parent and its child.
`_cancel` holds the parent's monitor while it cancels the child, and
`xf_async_enter` holds the child's while its callback notifies the parent. -/
namespace Xrossfire.Async
open Library Relation

namespace Frame

def wants : Frame → Option Id
  | asyncNotify a _ | waitNotify a _ | wait a | destroy a | cancelEnter a | enter a _ => some a
  | _ => none

/-- The points at `xf_timeout_cancel` and `xf_timeout_schedule`, which go through the poll lock. -/
def polls : Frame → Bool
  | notify .. | cancel _ | newArm _ => true
  | _ => false

/-- `xf_async_release` calls `xf_timeout_cancel` under the monitor. -/
def erases : Frame → Bool
  | destroy _ => true
  | _ => false

end Frame

/-! ## The poll lock -/

structure Polled where
  config : Config
  poll : Option Nat

inductive Turn
  | event (event : Event)
  /-- `xf_poll_enter`. -/
  | enter (thread : Nat)

inductive Lock
  | monitor (a : Id)
  | poll

namespace Polled

/-- A step that works on the timer tree ends with `xf_poll_leave`. -/
def step (s : Polled) : Turn → Option Polled
  | .enter thread =>
    if s.poll = none ∧ (s.config.top thread).any Frame.polls then some {s with poll := some thread} else none
  | .event (.run thread outcome) =>
    if (s.config.top thread).any Frame.polls then
      if s.poll = some thread then (s.config.step (.run thread outcome)).map (⟨·,none⟩) else none
    else if (s.config.top thread).any Frame.erases ∧ s.poll ≠ none then none
    else (s.config.step (.run thread outcome)).map (⟨·,s.poll⟩)
  | .event (.arise a cause) =>
    -- the poll thread takes the timer out of the tree and leaves the lock before it calls `async_timeout`
    if cause = .expire ∧ s.poll ≠ none then none else (s.config.step (.arise a cause)).map (⟨·,s.poll⟩)
  | .event .spawn => (s.config.step .spawn).map (⟨·,s.poll⟩)

def holder (s : Polled) : Lock → Option Nat
  | .monitor a => (s.config.world.asyncs a).owner
  | .poll => s.poll

def Waits (s : Polled) (thread : Nat) : Lock → Prop
  | .monitor a => ∃ f ∈ s.config.top thread, f.wants = some a ∧ (s.config.world.asyncs a).available thread = false
  | .poll => ∃ f ∈ s.config.top thread, (f.polls ∨ f.erases) ∧ s.poll ≠ none ∧ s.poll ≠ some thread

/-- Each of some threads waits for a lock that one of them holds. -/
def Deadlocked (s : Polled) : Prop :=
  ∃ threads : List Nat, threads ≠ [] ∧ ∀ t ∈ threads, ∃ lock, s.Waits t lock ∧ ∃ o ∈ threads, s.holder lock = some o

def start : Polled := ⟨Config.start,none⟩

def Steps (allowed : Config → Event → Prop) (s s' : Polled) : Prop :=
  ∃ turn, (∀ event, turn = .event event → allowed s.config event) ∧ s.step turn = some s'

end Polled

/-! ## A parent and its child -/

/-- Threads make the parent 0 and its child 1, and all code makes the calls it likes on both; the callback
of the child notifies the parent. -/
def PairCode (w : World) (action : Action) : Frame → Prop
  | .user (.completed 1 _) _ _ =>
    match action with
    | .call b (.notify _) => b = 0
    | .finish _ => True
    | _ => False
  | .user .. =>
    match action with
    | .new kind _ parent malloc =>
      malloc ∧ (w.next = 0 ∧ parent = none ∨ w.next = 1 ∧ kind = .async ∧ parent = some 0)
    | .waitNew parent child => w.next = 0 ∧ parent = none ∧ child = none
    | _ => True
  | _ => True

instance (w : World) (action : Action) (f : Frame) : Decidable (PairCode w action f) := by
  unfold PairCode
  split
  case h_3 => infer_instance
  all_goals split <;> infer_instance

def Paired (c : Config) : Event → Prop
  | .run thread (.acts action) => ∀ f ∈ c.top thread, PairCode c.world action f
  | _ => True

instance (c : Config) (event : Event) : Decidable (Paired c event) := by
  unfold Paired
  match event with
  | .run _ .ok | .run _ (.fails _) | .run _ (.acts _) | .spawn | .arise .. => infer_instance

def crosses (a b : Id) : List Frame → Bool
  | [] => false
  | f :: rest => f.owner = some b ∧ (∃ h ∈ rest, h.holds a) ∨ crosses a b rest

/-- The async that the step of a thread goes on to: user code calls a function on it, or `_cancel` has come
to the child. -/
def Config.turn (c : Config) (thread : Nat) : Outcome → Option Id
  | .acts (.call b _) => some b
  | .ok =>
    match c.top thread with
    | some (.cancelTarget a) => (c.world.asyncs a).child
    | _ => none
  | _ => none

/-- No thread goes on from inside the monitor of one async to a function on the other while another thread
has done so the other way round. -/
def KeptApart (c : Config) : Event → Prop
  | .run thread outcome => ∀ b ∈ c.turn thread outcome, ∀ stack ∈ c.threads[thread]?, ∀ h ∈ stack, ∀ a ∈ h.owner,
    h.holds a → a ≠ b → ∀ other ∈ c.threads.eraseIdx thread, ¬ crosses b a other
  | _ => True

instance (c : Config) (event : Event) : Decidable (KeptApart c event) := by
  unfold KeptApart
  match event with
  | .run .. | .spawn | .arise .. => infer_instance

/-! ## The stacks -/

theorem crosses_append {a b : Id} {frames rest : List Frame} : crosses a b (frames ++ rest) = true ↔
    crosses a b frames = true ∨ crosses a b rest = true ∨
      (∃ g ∈ frames, g.owner = some b) ∧ ∃ h ∈ rest, h.holds a = true := by
  induction frames with
  | nil => simp [crosses]
  | cons f frames ih =>
    simp only [List.cons_append,crosses,decide_eq_true_eq,ih,List.mem_append,List.exists_mem_cons_iff,or_and_right,
      exists_or]
    grind

theorem crosses_members {a b : Id} {stack : List Frame} (crosses : crosses a b stack = true) :
    (∃ h ∈ stack.tail, h.holds a = true) ∧ ∃ g ∈ stack, g.owner = some b := by
  induction stack with
  | nil => cases crosses
  | cons f rest ih =>
    rw [Async.crosses,decide_eq_true_eq] at crosses
    rcases crosses with ⟨owner,holds⟩ | deep
    · exact ⟨holds,f,List.mem_cons_self,owner⟩
    · obtain ⟨⟨h,member,holds⟩,g,inside,owner⟩ := ih deep
      exact ⟨⟨h,List.mem_of_mem_tail member,holds⟩,g,List.mem_cons_of_mem _ inside,owner⟩

/-! ## One step -/

structure Pair (c : Config) : Prop where
  next : c.world.next ≤ 2
  parent : ∀ a p, (c.world.asyncs a).parent = some p → a = 1 ∧ p = 0
  child : ∀ a b, (c.world.asyncs a).child = some b → a = 0 ∧ b = 1
  kind : 1 < c.world.next → (c.world.asyncs 1).kind = .async
  link : ∀ p a, .link p a ∈ c.threads.flatten → p = 0 ∧ a = 1

section Acts
variable {thread : Nat} {a : Id} {x x' : Object} {f : Frame} {outcome : Outcome} {frames : List Frame}

/-- A step stays with its async, but for a cancel of the child from the parent. -/
theorem act_stays (subject : f.subject = some a) (step : act thread x f outcome = some (x',frames))
    (parent : ∀ p, x.parent = some p → a = 1 ∧ p = 0) (child : ∀ b, x.child = some b → a = 0 ∧ b = 1)
    (kind : f.kind ≠ some (1,.multiPhase)) :
    ∀ g ∈ frames, g.owner = f.owner ∨ a = 0 ∧ f = .cancelTarget 0 ∧ x.child = some 1 ∧ g = .cancel 1 := by
  intro g member
  rcases act_owner step g member with same | ⟨p,e,here,multi,rfl⟩ | ⟨b,here,rfl⟩
  · exact Or.inl same
  · obtain ⟨rfl,rfl⟩ := parent p here
    exact absurd (kind_subject multi subject) kind
  · obtain ⟨rfl,rfl⟩ := child b here
    right
    replace step := act_acts step
    cases step <;> cases subject
    all_goals simp_all

/-- Only `_cancel` leaves a locked section of one async below a point of another. -/
theorem act_crosses {b d : Id} (step : act thread x f outcome = some (x',frames)) (apart : b ≠ d)
    (crosses : crosses b d frames = true) : f = .cancelTarget b ∧ outcome = .ok ∧ x.child = some d := by
  replace step := act_acts step
  cases step
  all_goals simp_all [Async.crosses,Frame.owner,Frame.subject,Frame.holds]
  all_goals exact apart (crosses.2.symm.trans crosses.1)

theorem act_child (step : act thread x f outcome = some (x',frames)) :
    (x'.child = x.child ∨ x'.child = none ∨ ∃ p b, f = .link p b ∧ x'.child = some b) ∧
      ∀ p b, .link p b ∉ frames := by
  replace step := act_acts step
  cases step
  all_goals simp [Object.witness,Object.invoke,Object.answer,Object.decrement,Object.lock,Object.unlock,
    Object.prepare,Object.clearTimer]

end Acts

section Codes
variable {w : World} {role : Role} {pc : Nat} {last : Option Id}

theorem code_new {kind : Kind} {timed malloc : Bool} {parent : Option Id}
    (code : PairCode w (.new kind timed parent malloc) (.user role pc last)) : malloc = true ∧
      (w.next = 0 ∧ parent = none ∨ w.next = 1 ∧ kind = .async ∧ parent = some 0) := by
  unfold PairCode at code
  split at code
  · exact absurd code not_false
  · exact code
  · next other => exact absurd rfl (other role pc last)

theorem code_waitNew {parent child : Option Id} (code : PairCode w (.waitNew parent child) (.user role pc last)) :
    w.next = 0 ∧ parent = none ∧ child = none := by
  unfold PairCode at code
  split at code
  · exact absurd code not_false
  · exact code
  · next other => exact absurd rfl (other role pc last)

end Codes

namespace Pair
variable {c c' : Config} {event : Event}

theorem set (pair : Pair c) {a : Id} {x : Object} {threads : List (List Frame)}
    (parent : x.parent = (c.world.asyncs a).parent) (kind : x.kind = (c.world.asyncs a).kind)
    (child : ∀ b, x.child = some b → a = 0 ∧ b = 1) (link : ∀ p b, .link p b ∈ threads.flatten → p = 0 ∧ b = 1) :
    Pair ⟨c.world.set a x,threads⟩ := by
  refine ⟨pair.next,?_,?_,?_,link⟩
  · intro b p here
    by_cases same : b = a
    · subst same
      rw [World.set_asyncs_self,parent] at here
      exact pair.parent b p here
    · rw [World.set_asyncs_of_ne same] at here
      exact pair.parent b p here
  · intro b b' here
    by_cases same : b = a
    · subst same
      rw [World.set_asyncs_self] at here
      exact child b' here
    · rw [World.set_asyncs_of_ne same] at here
      exact pair.child b b' here
  · intro made
    by_cases same : 1 = a
    · subst same
      rw [World.set_asyncs_self,kind]
      exact pair.kind made
    · rw [World.set_asyncs_of_ne same]
      exact pair.kind made

theorem make (pair : Pair c) {x : Object} {threads : List (List Frame)}
    (new : c.world.next = 0 ∧ x.parent = none ∨ c.world.next = 1 ∧ x.kind = .async ∧ x.parent = some 0)
    (child : x.child = none) (link : ∀ p b, .link p b ∈ threads.flatten → p = 0 ∧ b = 1) :
    Pair ⟨c.world.make x,threads⟩ := by
  refine ⟨?_,?_,?_,?_,link⟩
  · rcases new with ⟨next,-⟩ | ⟨next,-⟩ <;> simp [World.make,next]
  · intro a p here
    by_cases same : a = c.world.next
    · subst same
      rw [World.make_asyncs_self] at here
      rcases new with ⟨-,parent⟩ | ⟨next,-,parent⟩
      · rw [parent] at here
        cases here
      · rw [parent] at here
        cases here
        exact ⟨next,rfl⟩
    · exact pair.parent a p (by simpa only [World.make,Function.update_of_ne same] using here)
  · intro a b here
    by_cases same : a = c.world.next
    · subst same
      rw [World.make_asyncs_self,child] at here
      cases here
    · exact pair.child a b (by simpa only [World.make,Function.update_of_ne same] using here)
  · intro made
    rcases new with ⟨next,-⟩ | ⟨next,kind,-⟩
    · rw [World.make_next,next] at made
      exact absurd made (by decide)
    · rw [← next,World.make_asyncs_self]
      exact kind

/-- Points other than those of a constructor. -/
theorem links (pair : Pair c) {thread : Nat} {f : Frame} {rest frames : List Frame}
    (here : c.threads[thread]? = some (f :: rest)) (none : ∀ p b, .link p b ∉ frames) :
    ∀ p b, .link p b ∈ (c.threads.set thread (frames ++ rest)).flatten → p = 0 ∧ b = 1 := by
  intro p b member
  rcases mem_set here member with new | old
  · exact absurd new (none p b)
  · exact pair.link p b old

theorem effect (pair : Pair c) (paired : Paired c event) (effect : Effect c event c') : Pair c' := by
  cases effect with
  | @library thread f rest outcome a x frames here subject below step =>
    obtain ⟨parent,kind⟩ := act_fixed step
    obtain ⟨children,none⟩ := act_child step
    refine pair.set parent kind ?_ (pair.links here none)
    intro b child
    rcases children with same | gone | ⟨p,b',rfl,new⟩
    · exact pair.child a b (same.symm.trans child)
    · rw [gone] at child
      cases child
    · rw [new] at child
      cases child
      obtain ⟨rfl,rfl⟩ := pair.link p b (mem_top here)
      cases subject
      exact ⟨rfl,rfl⟩
  | @call thread role pc last rest a call x frames here below step =>
    obtain ⟨pushed,parent,child,kind⟩ := request_mentions step
    refine pair.set parent kind (fun b here => pair.child a b (child ▸ here)) (pair.links here ?_)
    intro p b member
    rcases List.mem_append.mp member with lib | own
    · have two := pushed _ lib
      simp [Frame.mentions] at two
    · cases List.mem_singleton.mp own
  | new here made below =>
    obtain ⟨-,new⟩ := code_new (paired _ (Config.top_here here))
    refine pair.make new rfl ?_
    intro p b member
    rcases mem_set here member with pushed | old
    · rcases List.mem_append.mp pushed with lib | own
      · rcases construct_mem lib with ⟨p',parent,same⟩ | same | ⟨-,same⟩
        · cases same
          rcases new with ⟨-,none⟩ | ⟨next,-,some⟩
          · rw [none] at parent
            cases parent
          · rw [some] at parent
            cases parent
            exact ⟨rfl,next⟩
        · cases same
        · cases same
      · cases List.mem_singleton.mp own
    · exact pair.link p b old
  | unmade here below =>
    obtain ⟨malloc,-⟩ := code_new (paired _ (Config.top_here here))
    cases malloc
  | refused here =>
    obtain ⟨malloc,-⟩ := code_new (paired _ (Config.top_here here))
    cases malloc
  | @waitNew thread role pc last rest parent child here below below' =>
    obtain ⟨next,rfl,rfl⟩ := code_waitNew (paired _ (Config.top_here here))
    refine pair.make (Or.inl ⟨next,rfl⟩) rfl (pair.links here ?_)
    intro p b member
    rcases List.mem_append.mp member with lib | own
    · rcases construct_mem lib with ⟨p',parent,-⟩ | same | ⟨-,same⟩
      · cases parent
      · cases same
      · cases same
    · cases List.mem_singleton.mp own
  | @store thread a phase phase' e handed pc last rest here below =>
    refine pair.set (a := a) rfl rfl (pair.child a) (pair.links here ?_)
    intro p b member
    cases List.mem_singleton.mp member
  | @finish thread role pc last rest err here =>
    refine ⟨pair.next,pair.parent,pair.child,pair.kind,pair.links here ?_⟩
    intro p b member
    cases finish_mem member
  | spawn =>
    refine ⟨pair.next,pair.parent,pair.child,pair.kind,?_⟩
    intro p b member
    rcases mem_spawn member with new | old
    · cases List.mem_singleton.mp new
    · exact pair.link p b old
  | @arise a cause x frames below step =>
    obtain ⟨pushed,parent,child,kind⟩ := arise_mentions step
    refine pair.set parent kind (fun b here => pair.child a b (child ▸ here)) ?_
    intro p b member
    rcases mem_spawn member with new | old
    · have two := pushed _ new
      simp [Frame.mentions] at two
    · exact pair.link p b old

/-- The child's code is not that of a call. -/
theorem single (pair : Pair c) (audited : Audited c) {f : Frame} (member : f ∈ c.threads.flatten) :
    f.kind ≠ some (1,.multiPhase) := by
  intro kind
  have made := audited.known.frame f member 1 (owner_mentions (kind_owner kind))
  have typed := (audited.accounts 1 made).typed f member _ kind
  rw [pair.kind made] at typed
  cases typed

end Pair

/-! ## The stacks after a step -/

/-- User code that goes on has what it calls above it. -/
theorem call_crosses {a b d : Id} {role : Role} {pc : Nat} {last : Option Id} {call : Call} {x x' : Object}
    {frames rest : List Frame} (step : request a x call = some (x',frames)) (apart : b ≠ d)
    (after : crosses b d (frames ++ [Frame.user (role.after a call) (pc + 1) last] ++ rest) = true) :
    crosses b d (Frame.user role pc last :: rest) = true ∨
      d = a ∧ ∃ h ∈ Frame.user role pc last :: rest, h.holds b = true := by
  have owner : (Frame.user (role.after a call) (pc + 1) last).owner = (Frame.user role pc last).owner := by
    cases role <;> cases call <;> rfl
  have holds : (Frame.user (role.after a call) (pc + 1) last).holds b = (Frame.user role pc last).holds b := by
    cases role <;> cases call <;> rfl
  have resumed : crosses b d (Frame.user (role.after a call) (pc + 1) last :: rest) =
      crosses b d (Frame.user role pc last :: rest) := by
    simp only [crosses,owner]
  rw [List.append_assoc,List.singleton_append] at after
  rcases crosses_append.mp after with inner | deep | ⟨⟨g,member,about⟩,h,below,inside⟩
  · obtain ⟨⟨h,member,holds⟩,g,member',about⟩ := crosses_members inner
    have same := Frame.holds_owner holds
    rw [request_owner step h (List.mem_of_mem_tail member)] at same
    rw [request_owner step g member'] at about
    exact absurd ((Option.some.inj same).symm.trans (Option.some.inj about)) apart
  · exact Or.inl (resumed ▸ deep)
  · rw [request_owner step g member] at about
    refine Or.inr ⟨(Option.some.inj about).symm,?_⟩
    rcases List.mem_cons.mp below with rfl | old
    · exact ⟨_,List.mem_cons_self,holds ▸ inside⟩
    · exact ⟨h,List.mem_cons_of_mem _ old,inside⟩

theorem finish_crosses {b d : Id} {err : Error} {role : Role} {pc : Nat} {last : Option Id} {rest : List Frame}
    (after : crosses b d (finish err role ++ rest) = true) : crosses b d (Frame.user role pc last :: rest) = true := by
  rw [crosses,decide_eq_true_eq]
  cases role with
  | main => exact Or.inr after
  | completed a e | entered a =>
    rw [finish,List.singleton_append,crosses,decide_eq_true_eq] at after
    exact after
  | procedure a phase e handed =>
    simp only [finish] at after
    split at after <;>
      rw [List.singleton_append,crosses,decide_eq_true_eq] at after <;> exact after

structure Locking (c : Config) : Prop where
  audited : Audited c
  monitored : ∀ a < c.world.next, Monitored a c
  pair : Pair c
  apart : ∀ (i j : Nat) (si sj : List Frame), c.threads[i]? = some si → c.threads[j]? = some sj →
    ∀ a b, a ≠ b → crosses a b si = true → crosses b a sj = true → i = j

namespace Locking
variable {c c' : Config} {event : Event}

/-- A thread goes on with another stack. -/
theorem apart_set (locking : Locking c) {thread : Nat} {old new : List Frame} {w : World}
    (here : c.threads[thread]? = some old)
    (after : ∀ a b, a ≠ b → crosses a b new = true →
      crosses a b old = true ∨ ∀ other ∈ c.threads.eraseIdx thread, ¬ crosses b a other = true)
    (i j : Nat) (si sj : List Frame)
    (first : (Config.threads ⟨w,c.threads.set thread new⟩)[i]? = some si)
    (second : (Config.threads ⟨w,c.threads.set thread new⟩)[j]? = some sj)
    (a b : Id) (ne : a ≠ b) (one : crosses a b si = true) (two : crosses b a sj = true) : i = j := by
  have others {k : Nat} {stack : List Frame} (apart : k ≠ thread)
      (found : (c.threads.set thread new)[k]? = some stack) :
      c.threads[k]? = some stack ∧ stack ∈ c.threads.eraseIdx thread := by
    rw [List.getElem?_set_ne (Ne.symm apart)] at found
    exact ⟨found,List.mem_eraseIdx_iff_getElem?.mpr ⟨k,apart,found⟩⟩
  have own {stack : List Frame} (found : (c.threads.set thread new)[thread]? = some stack) : stack = new := by
    rw [List.getElem?_set_self (List.getElem?_eq_some_iff.mp here).1] at found
    exact (Option.some.inj found).symm
  by_cases here' : i = thread
  · by_cases there : j = thread
    · rw [here',there]
    · subst here'
      cases own first
      obtain ⟨found,inside⟩ := others there second
      rcases after a b ne one with before | none
      · exact locking.apart i j _ sj here found a b ne before two
      · exact absurd two (none sj inside)
  · obtain ⟨found,inside⟩ := others here' first
    by_cases there : j = thread
    · subst there
      cases own second
      rcases after b a (Ne.symm ne) two with before | none
      · exact locking.apart i j si _ found here a b ne one before
      · exact absurd one (none si inside)
    · exact locking.apart i j si sj found (others there second).1 a b ne one two

theorem apart_spawn (locking : Locking c) {points : List Frame} {w : World} (single : points.tail = [])
    (i j : Nat) (si sj : List Frame)
    (first : (Config.threads ⟨w,c.threads ++ [points]⟩)[i]? = some si)
    (second : (Config.threads ⟨w,c.threads ++ [points]⟩)[j]? = some sj)
    (a b : Id) (ne : a ≠ b) (one : crosses a b si = true) (two : crosses b a sj = true) : i = j := by
  have old {k : Nat} {stack : List Frame} {a b : Id} (found : (c.threads ++ [points])[k]? = some stack)
      (crosses : crosses a b stack = true) : c.threads[k]? = some stack := by
    rcases Nat.lt_or_ge k c.threads.length with low | high
    · rwa [List.getElem?_append_left low] at found
    · rw [List.getElem?_append_right high,List.getElem?_singleton,Option.ite_none_right_eq_some] at found
      obtain ⟨⟨h,member,-⟩,-⟩ := crosses_members crosses
      rw [← Option.some.inj found.2,single] at member
      cases member
  exact locking.apart i j si sj (old first one) (old second two) a b ne one two

/-- What a library step makes of the stack of its thread. -/
theorem library_crosses (locking : Locking c) {thread : Nat} {f : Frame} {rest frames : List Frame}
    {outcome : Outcome} {a : Id} {x : Object} (here : c.threads[thread]? = some (f :: rest))
    (kept : KeptApart c (.run thread outcome)) (subject : f.subject = some a)
    (step : act thread (c.world.asyncs a) f outcome = some (x,frames)) (b d : Id) (apart : b ≠ d)
    (after : crosses b d (frames ++ rest) = true) :
    crosses b d (f :: rest) = true ∨ ∀ other ∈ c.threads.eraseIdx thread, ¬ crosses d b other = true := by
  have top := Config.top_here here
  -- `_cancel` turns to the child of `e` with the thread inside the monitor of `b`
  have turned {e : Id} (same : f = .cancelTarget e) (fine : outcome = .ok)
      (child : (c.world.asyncs a).child = some d) {h : Frame} (member : h ∈ f :: rest) (holds : h.holds b = true) :
      ∀ other ∈ c.threads.eraseIdx thread, ¬ crosses d b other = true := by
    subst same fine
    cases subject
    have turn : c.turn thread .ok = some d := by
      rw [Config.turn,top]
      exact child
    exact kept d turn _ here h member b (Frame.holds_owner holds) holds apart
  rw [crosses,decide_eq_true_eq]
  rcases crosses_append.mp after with inner | deep | ⟨⟨g,member,about⟩,h,below,holds⟩
  · obtain ⟨rfl,fine,child⟩ := act_crosses step apart inner
    exact Or.inr (turned rfl fine child List.mem_cons_self (decide_eq_true rfl))
  · exact Or.inl (Or.inr deep)
  · rcases act_stays subject step (locking.pair.parent a) (locking.pair.child a)
      (locking.pair.single locking.audited (mem_top here)) g member with same | ⟨rfl,rfl,child,rfl⟩
    · exact Or.inl (Or.inl ⟨same ▸ about,h,below,holds⟩)
    · cases about
      have fine : outcome = .ok := by
        replace step := act_acts step
        cases step <;> simp_all
      exact Or.inr (turned rfl fine child (List.mem_cons_of_mem _ below) holds)

/-- While there is one async at most, no thread is between two. -/
theorem uncrossed (locking : Locking c) (few : c.world.next ≤ 1) {thread : Nat} {a b : Id} (apart : a ≠ b) :
    ∀ other ∈ c.threads.eraseIdx thread, ¬ crosses a b other = true := by
  intro other member crosses
  have inside := List.mem_of_mem_eraseIdx member
  have made {g : Frame} {e : Id} (deep : g ∈ other) (owner : g.owner = some e) : e = 0 :=
    Nat.lt_one_iff.mp (Nat.lt_of_lt_of_le
      (locking.audited.known.frame g (List.mem_flatten.mpr ⟨other,inside,deep⟩) e (owner_mentions owner)) few)
  obtain ⟨⟨h,deep,holds⟩,g,deep',owner⟩ := crosses_members crosses
  exact apart ((made (List.mem_of_mem_tail deep) (Frame.holds_owner holds)).trans (made deep' owner).symm)

theorem apart_effect (locking : Locking c) (paired : Paired c event) (kept : KeptApart c event)
    (effect : Effect c event c') (i j : Nat) (si sj : List Frame) (first : c'.threads[i]? = some si)
    (second : c'.threads[j]? = some sj) (a b : Id) (ne : a ≠ b) (one : crosses a b si = true)
    (two : crosses b a sj = true) : i = j := by
  cases effect with
  | library here subject below step =>
    exact locking.apart_set here (locking.library_crosses here kept subject step) i j si sj first second a b ne one two
  | @call thread role pc last rest d call x frames here below step =>
    refine locking.apart_set here ?_ i j si sj first second a b ne one two
    intro b e apart after
    rcases call_crosses step apart after with before | ⟨rfl,h,member,holds⟩
    · exact Or.inl before
    · exact Or.inr (kept e rfl _ here h member b (Frame.holds_owner holds) holds apart)
  | new here made below =>
    obtain ⟨-,new⟩ := code_new (paired _ (Config.top_here here))
    have few : c.world.next ≤ 1 := new.elim (fun first => first.1 ▸ Nat.zero_le 1) (fun second => Nat.le_of_eq second.1)
    exact locking.apart_set here (fun _ _ apart _ => Or.inr (locking.uncrossed few apart.symm)) i j si sj first second
      a b ne one two
  | unmade here below =>
    obtain ⟨malloc,-⟩ := code_new (paired _ (Config.top_here here))
    cases malloc
  | refused here =>
    obtain ⟨malloc,-⟩ := code_new (paired _ (Config.top_here here))
    cases malloc
  | waitNew here below below' =>
    obtain ⟨none,-,-⟩ := code_waitNew (paired _ (Config.top_here here))
    have few : c.world.next ≤ 1 := none ▸ Nat.zero_le 1
    exact locking.apart_set here (fun _ _ apart _ => Or.inr (locking.uncrossed few apart.symm)) i j si sj first second
      a b ne one two
  | @store thread d phase phase' e handed pc last rest here below =>
    refine locking.apart_set here ?_ i j si sj first second a b ne one two
    intro b e apart after
    rw [List.singleton_append,crosses,decide_eq_true_eq] at after
    rw [crosses,decide_eq_true_eq]
    exact Or.inl after
  | finish here =>
    exact locking.apart_set here (fun _ _ _ after => Or.inl (finish_crosses after)) i j si sj first second a b ne one
      two
  | spawn => exact locking.apart_spawn rfl i j si sj first second a b ne one two
  | arise below step =>
    refine locking.apart_spawn ?_ i j si sj first second a b ne one two
    replace step := arise_arises step
    cases step <;> rfl

theorem effect (locking : Locking c) (paired : Paired c event) (kept : KeptApart c event)
    (effect : Effect c event c') : Locking c' where
  audited := locking.audited.effect effect
  monitored := fun a made => Monitored.effect locking.audited.known effect (locking.monitored a) made
  pair := locking.pair.effect paired effect
  apart := locking.apart_effect paired kept effect

end Locking

/-! ## No deadlock -/

theorem Object.owned_available {x : Object} {thread : Nat} (owner : x.owner = some thread) :
    x.available thread = true := by
  simp [available,owner]

theorem Frame.wants_subject {f : Frame} {a : Id} (wants : f.wants = some a) :
    f.subject = some a ∧ f.owner = some a ∧ f.polls = false := by
  cases f <;> simp_all [Frame.wants,Frame.subject,Frame.owner,Frame.polls]

/-- A thread that owns one monitor and waits for another has gone from the first to the second. -/
theorem Locking.left {c : Config} (locking : Locking c) {a b : Id} {o : Nat} {f : Frame} (made : a < c.world.next)
    (owner : (c.world.asyncs a).owner = some o) (top : c.top o = some f) (wants : f.wants = some b)
    (blocked : (c.world.asyncs b).available o = false) :
    b ≠ a ∧ ∃ stack, c.threads[o]? = some stack ∧ crosses a b stack = true := by
  have apart : b ≠ a := by
    rintro rfl
    rw [Object.owned_available owner] at blocked
    cases blocked
  refine ⟨apart,?_⟩
  obtain ⟨stack,here,head⟩ := Option.bind_eq_some_iff.mp top
  cases stack with
  | nil => cases head
  | cons g rest =>
    cases head
    refine ⟨_,here,?_⟩
    obtain ⟨-,about,-⟩ := Frame.wants_subject wants
    have monitored := locking.monitored a made
    have count := (monitored.stack o _ here).entered
    have entered : 0 < (c.world.asyncs a).depth := by
      by_contra zero
      have free := monitored.owned.mpr (Nat.eq_zero_of_not_pos zero)
      rw [owner] at free
      cases free
    rw [Object.entered,if_pos owner] at count
    obtain ⟨h,member,holds⟩ := List.countP_pos_iff.mp (count ▸ entered)
    rw [crosses,decide_eq_true_eq]
    refine Or.inl ⟨about,h,?_,holds⟩
    rcases List.mem_cons.mp member with rfl | deep
    · exact absurd (Option.some.inj (about.symm.trans (Frame.holds_owner holds))) apart
    · exact deep

/-- The invariant with the poll lock, which its owner leaves with its next step. -/
structure Polling (s : Polled) : Prop where
  locking : Locking s.config
  poll : ∀ t, s.poll = some t → ∃ f, s.config.top t = some f ∧ f.polls = true

theorem step_top {c c' : Config} {event : Event} (effect : Effect c event c') {t : Nat} {f : Frame}
    (other : ∀ outcome, event ≠ .run t outcome) (top : c.top t = some f) : c'.top t = some f := by
  have set {thread : Nat} {w : World} {stack : List Frame} (ne : thread ≠ t) :
      Config.top ⟨w,c.threads.set thread stack⟩ t = some f := by
    rw [Config.top,List.getElem?_set_ne ne]
    exact top
  have spawn {w : World} {points : List Frame} : Config.top ⟨w,c.threads ++ [points]⟩ t = some f := by
    obtain ⟨stack,here,head⟩ := Option.bind_eq_some_iff.mp top
    rw [Config.top,List.getElem?_append_left (List.getElem?_eq_some_iff.mp here).1,here]
    exact head
  cases effect with
  | spawn => exact spawn
  | arise _ _ => exact spawn
  | _ =>
    apply set
    rintro rfl
    exact other _ rfl

namespace Polling
variable {s s' : Polled}

theorem advance (polling : Polling s) {event : Event} {c : Config} (paired : Paired s.config event)
    (kept : KeptApart s.config event) (step : s.config.step event = some c)
    (other : ∀ t outcome, event = .run t outcome → s.poll ≠ some t) : Polling ⟨c,s.poll⟩ where
  locking := polling.locking.effect paired kept (step_effect step)
  poll := by
    intro t inside
    obtain ⟨f,top,polls⟩ := polling.poll t inside
    exact ⟨f,step_top (step_effect step) (fun outcome same => other t outcome same inside) top,polls⟩

theorem step (polling : Polling s)
    (steps : Polled.Steps (fun c event => Paired c event ∧ KeptApart c event) s s') : Polling s' := by
  obtain ⟨turn,allowed,step⟩ := steps
  unfold Polled.step at step
  split at step
  · next thread =>
    rw [Option.ite_none_right_eq_some] at step
    obtain ⟨⟨-,polls⟩,same⟩ := step
    cases same
    refine ⟨polling.locking,?_⟩
    rintro t same
    cases same
    obtain ⟨f,top,polls⟩ := (Option.any_eq_true ..).mp polls
    exact ⟨f,top,polls⟩
  · next thread outcome =>
    obtain ⟨paired,kept⟩ := allowed _ rfl
    split at step
    · rw [Option.ite_none_right_eq_some] at step
      obtain ⟨-,step⟩ := step
      obtain ⟨c,inner,rfl⟩ := Option.map_eq_some_iff.mp step
      exact ⟨polling.locking.effect paired kept (step_effect inner),fun t same => by cases same⟩
    · next passes =>
      rw [Option.ite_none_left_eq_some] at step
      obtain ⟨c,inner,rfl⟩ := Option.map_eq_some_iff.mp step.2
      apply polling.advance paired kept inner
      rintro t outcome same inside
      cases same
      obtain ⟨f,top,polls⟩ := polling.poll _ inside
      exact passes ((Option.any_eq_true ..).mpr ⟨f,top,polls⟩)
  · obtain ⟨paired,kept⟩ := allowed _ rfl
    rw [Option.ite_none_left_eq_some] at step
    obtain ⟨c,inner,rfl⟩ := Option.map_eq_some_iff.mp step.2
    exact polling.advance paired kept inner (fun t outcome same => by cases same)
  · obtain ⟨paired,kept⟩ := allowed _ rfl
    obtain ⟨c,inner,rfl⟩ := Option.map_eq_some_iff.mp step
    exact polling.advance paired kept inner (fun t outcome same => by cases same)

theorem undeadlocked (polling : Polling s) : ¬ s.Deadlocked := by
  rintro ⟨threads,some,waits⟩
  -- whoever is inside the poll lock waits for nothing, so all wait for monitors
  have waits (t : Nat) (member : t ∈ threads) : ∃ a f,
      s.config.top t = Option.some f ∧ f.wants = Option.some a ∧
      (s.config.world.asyncs a).available t = false ∧
      ∃ o ∈ threads, (s.config.world.asyncs a).owner = Option.some o := by
    obtain ⟨lock,blocked,o,inside,holder⟩ := waits t member
    cases lock with
    | monitor a =>
      obtain ⟨f,top,wants,blocked⟩ := blocked
      exact ⟨a,f,top,wants,blocked,o,inside,holder⟩
    | poll =>
      obtain ⟨f,top,polls⟩ := polling.poll o holder
      obtain ⟨lock,blocked,-⟩ := waits o inside
      cases lock with
      | monitor a =>
        obtain ⟨g,top',wants,-⟩ := blocked
        cases top.symm.trans top'
        have none := (Frame.wants_subject wants).2.2
        rw [polls] at none
        cases none
      | poll =>
        obtain ⟨-,-,-,-,other⟩ := blocked
        exact absurd holder other
  have two {t : Nat} {f : Frame} {a : Id} (top : s.config.top t = Option.some f) (wants : f.wants = Option.some a) :
      a < s.config.world.next ∧ (a = 0 ∨ a = 1) := by
    have made := polling.locking.audited.known.subject top (Frame.wants_subject wants).1
    refine ⟨made,?_⟩
    rcases Nat.le_one_iff_eq_zero_or_eq_one.mp (Nat.le_of_lt_succ (Nat.lt_of_lt_of_le made polling.locking.pair.next))
      with zero | one
    · exact Or.inl zero
    · exact Or.inr one
  obtain ⟨t,member⟩ := List.exists_mem_of_ne_nil threads some
  obtain ⟨a,f,top,wants,-,o,inside,owner⟩ := waits t member
  obtain ⟨a',f',top',wants',blocked',o',inside',owner'⟩ := waits o inside
  obtain ⟨a'',f'',top'',wants'',blocked'',-⟩ := waits o' inside'
  obtain ⟨made,which⟩ := two top wants
  obtain ⟨made',which'⟩ := two top' wants'
  obtain ⟨-,which''⟩ := two top'' wants''
  obtain ⟨apart,stack,found,crosses⟩ := polling.locking.left made owner top' wants' blocked'
  obtain ⟨apart',stack',found',crosses'⟩ := polling.locking.left made' owner' top'' wants'' blocked''
  have back : a'' = a := by
    rcases which with rfl | rfl
    · cases which'.resolve_left apart
      exact which''.resolve_right apart'
    · cases which'.resolve_right apart
      exact which''.resolve_left apart'
  subst back
  have same := polling.locking.apart o o' stack stack' found found' a'' a' (Ne.symm apart) crosses crosses'
  subst same
  rw [Object.owned_available owner'] at blocked'
  cases blocked'

end Polling

theorem start_polling : Polling Polled.start := by
  have pair : Pair Config.start := by
    refine ⟨by decide,?_,?_,?_,?_⟩
    · intro a p parent
      cases parent
    · intro a b child
      cases child
    · exact fun made => absurd made (Nat.not_lt_zero 1)
    · intro p a member
      cases member
  refine ⟨⟨⟨start_known,?_⟩,?_,pair,?_⟩,?_⟩
  · exact fun a made => absurd made (Nat.not_lt_zero a)
  · exact fun a made => absurd made (Nat.not_lt_zero a)
  · intro i j si sj found
    cases found
  · intro t inside
    cases inside

/-- The monitors of a parent and its child and the poll lock never deadlock in the runs in which threads do not
cross from one to the other in both directions. -/
theorem reachable_undeadlocked {s : Polled}
    (run : ReflTransGen (Polled.Steps (fun c event => Paired c event ∧ KeptApart c event)) Polled.start s) :
    ¬ s.Deadlocked :=
  (run_invariant (fun _ _ polling steps => polling.step steps) run start_polling).undeadlocked

namespace Polled

def replay (allowed : Config → Event → Prop) [∀ c event, Decidable (allowed c event)] (s : Polled) :
    List Turn → Option Polled
  | [] => some s
  | .enter thread :: turns => (s.step (.enter thread)).bind (replay allowed · turns)
  | .event event :: turns =>
    if allowed s.config event then (s.step (.event event)).bind (replay allowed · turns) else none

theorem replay_steps {allowed : Config → Event → Prop} [∀ c event, Decidable (allowed c event)]
    {turns : List Turn} {s s' : Polled} (run : replay allowed s turns = some s') :
    ReflTransGen (Steps allowed) s s' := by
  induction turns generalizing s with
  | nil =>
    cases run
    exact .refl
  | cons turn turns ih =>
    cases turn with
    | enter thread =>
      obtain ⟨next,step,rest⟩ := Option.bind_eq_some_iff.mp run
      refine .head ⟨.enter thread,?_,step⟩ (ih rest)
      intro event same
      cases same
    | event event =>
      simp only [replay,Option.ite_none_right_eq_some] at run
      obtain ⟨fine,run⟩ := run
      obtain ⟨next,step,rest⟩ := Option.bind_eq_some_iff.mp run
      refine .head ⟨.event event,?_,step⟩ (ih rest)
      intro event' same
      cases same
      exact fine

end Polled

/-- The parent 0 and the child 1 are made. Code inside `xf_async_enter` of the child notifies the parent,
whose monitor another thread has entered. -/
def parentNotified : List Turn :=
  [.event .spawn,.event (.run 0 (.acts (.new .async false none true))),
    .event (.run 0 (.acts (.new .async false (some 0) true))),.event (.run 0 .ok),
    .event .spawn,.event (.run 1 (.acts (.call 1 .enter))),.event (.run 1 .ok),
    .event .spawn,.event (.run 2 (.acts (.call 0 .enter))),.event (.run 2 .ok),
    .event (.run 1 (.acts (.call 0 (.notify 0)))),.enter 1,.event (.run 1 .ok),.event (.run 1 .ok)]

theorem reachable_undeadlocked_entered : ∃ s, ReflTransGen (Polled.Steps (fun c event => Paired c event ∧
    KeptApart c event)) Polled.start s ∧ s.config.top 1 = some (.asyncNotify 0 0) ∧
    (s.config.world.asyncs 1).owner = some 1 ∧ (s.config.world.asyncs 0).owner = some 2 ∧ ¬ s.Deadlocked := by
  obtain ⟨s,run,holds⟩ := (Option.any_eq_true ..).mp
    (show (Polled.start.replay (fun c event => Paired c event ∧ KeptApart c event) parentNotified).any (fun s =>
      decide (s.config.top 1 = some (.asyncNotify 0 0) ∧ (s.config.world.asyncs 1).owner = some 1 ∧
        (s.config.world.asyncs 0).owner = some 2)) = true by decide)
  obtain ⟨waits,child,parent⟩ := of_decide_eq_true holds
  exact ⟨s,Polled.replay_steps run,waits,child,parent,reachable_undeadlocked (Polled.replay_steps run)⟩

/-- The parent 0 and the child 1 are made, and a thread in `_cancel` of the parent has cancelled the child
and is about to notify it. -/
def childCancelled : List Turn :=
  [.event .spawn,.event (.run 0 (.acts (.new .async false none true))),
    .event (.run 0 (.acts (.new .async false (some 0) true))),.event (.run 0 .ok),
    .event (.run 0 (.acts (.call 0 .cancel))),.enter 0,.event (.run 0 .ok),.event (.run 0 .ok),.event (.run 0 .ok),
    .enter 0,.event (.run 0 .ok),.event (.run 0 .ok),.event (.run 0 .ok),.event (.run 0 .ok)]

/-- Another thread enters the child, wins its notify and has its callback notify the parent; the first
goes on to notify the child. -/
def childEntered : List Turn :=
  [.event .spawn,.event (.run 1 (.acts (.call 1 .enter))),.event (.run 1 .ok),.enter 1,.event (.run 1 .ok),
    .event (.run 1 .ok),.event (.run 1 .ok),.event (.run 1 .ok),.event (.run 1 (.acts (.call 0 (.notify errorCancel)))),
    .enter 1,.event (.run 1 .ok),.event (.run 1 .ok),.enter 0,.event (.run 0 .ok),.event (.run 0 .ok)]

theorem pair_deadlocked : ∃ s, ReflTransGen (Polled.Steps Paired) Polled.start s ∧ s.Deadlocked := by
  obtain ⟨s,run,holds⟩ := (Option.any_eq_true ..).mp
    (show (Polled.start.replay Paired (childCancelled ++ childEntered)).any (fun s => decide
      (s.config.top 0 = some (.asyncNotify 1 errorCancel) ∧ s.config.top 1 = some (.asyncNotify 0 errorCancel) ∧
        (s.config.world.asyncs 1).owner = some 1 ∧ (s.config.world.asyncs 0).owner = some 0 ∧
        (s.config.world.asyncs 1).available 0 = false ∧
          (s.config.world.asyncs 0).available 1 = false)) = true by decide)
  obtain ⟨top,top',owner,owner',blocked,blocked'⟩ := of_decide_eq_true holds
  refine ⟨s,Polled.replay_steps run,[0,1],List.cons_ne_nil _ _,?_⟩
  intro t member
  rcases List.mem_cons.mp member with rfl | member
  · exact ⟨.monitor 1,⟨_,top,rfl,blocked⟩,1,by simp,owner⟩
  · cases List.mem_singleton.mp member
    exact ⟨.monitor 0,⟨_,top',rfl,blocked'⟩,0,by simp,owner'⟩

end Xrossfire.Async
