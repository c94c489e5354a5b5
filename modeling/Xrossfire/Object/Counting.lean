import Xrossfire.Object.Heap

/-! The objects are counted: in every run an object's `ref` is the number of its references, and the
object is destroyed when the last one goes. -/
namespace Xrossfire.Object
open Library Relation

section
variable {s : State} {thread : Nat} {a c : Id} {x x' : XfObject} {f : Frame} {rest frames : List Frame} {b : Option Id}

theorem tally_step (frames : List Frame) (p : Frame → Bool) (here : s.threads[thread]? = some (f :: rest)) :
    tally p (s.threads.set thread (frames ++ rest)) + [f].countP p = tally p s.threads + frames.countP p := by
  rw [tally_set p here,tally_top p here]
  omega

theorem holds_subject (holds : f.holds a = true) : f.subject = some a := by
  cases f <;> simp_all [Frame.holds,Frame.subject]

namespace Counted

/-- A step on one object. -/
theorem moves (counted : Counted s) (here : s.threads[thread]? = some (f :: rest)) (inside : a < s.next)
    (moves : Moves a (s.objects a) f x b frames) :
    Counted {s.set a x with threads := s.threads.set thread (frames ++ rest), lost := lose s.lost b} := by
  have write (P : Id → XfObject → Prop) (here : P a x) (others : ∀ c ≠ a, P c (s.objects c)) :
      ∀ c, P c (Function.update s.objects a x c) := (Function.forall_update_iff _ _).mpr ⟨here,others⟩
  constructor
  case below =>
    intro g point c named
    rcases mem_set here point with new | old
    · rcases moves.subjects g new c named with same | body
      · exact same ▸ inside
      · exact Nat.lt_trans (counted.bases a inside c body) inside
    · exact counted.below g old c named
  case bases =>
    apply write (fun c y => c < s.next → ∀ d, y.body = .sslSocket (some d) → d < c)
    · exact fun _ d body => counted.bases a inside d (moves.bases d body)
    · exact fun c _ => counted.bases c
  case lost =>
    intro c out
    have none : s.lost c = 0 := counted.lost c out
    have other : b ≠ some c := by
      intro lost
      have below : c < s.next := by
        rcases moves.lost c lost with body | ⟨rfl,-⟩
        · exact Nat.lt_trans (counted.bases a inside c body) inside
        · exact inside
      exact absurd below (Nat.not_lt.mpr out)
    change s.lost c + _ = 0
    rw [none,if_neg other]
  case leaks =>
    intro c made
    change 0 < s.lost c + _ ↔ 0 < (Function.update s.objects a x c).trace.handshakes
    have before := counted.leaks c made
    by_cases lost : b = some c
    · rw [if_pos lost]
      refine iff_of_true (Nat.succ_pos _) ?_
      rcases moves.lost c lost with body | ⟨rfl,some⟩
      · have apart : c ≠ a := Nat.ne_of_lt (counted.bases a inside c body)
        rw [Function.update_of_ne apart]
        exact before.mp (counted.based a inside c body)
      · rwa [Function.update_self]
    · rw [if_neg lost,Nat.add_zero,before]
      by_cases same : c = a
      · subst same
        rw [Function.update_self]
        rcases moves.shakes with kept | ⟨own,-⟩
        · rw [kept]
        · exact absurd own lost
      · rw [Function.update_of_ne same]
  case based =>
    have more (c : Id) : s.lost c ≤ lose s.lost b c := Nat.le_add_right _ _
    apply write (fun c y => c < s.next → ∀ d, y.body = .sslSocket (some d) → 0 < lose s.lost b d)
    · exact fun _ d body => Nat.lt_of_lt_of_le (counted.based a inside d (moves.bases d body)) (more d)
    · exact fun c _ made d body => Nat.lt_of_lt_of_le (counted.based c made d body) (more d)
  case ledger =>
    intro c made
    have ledger := counted.ledger c made
    have moved := shares_write x frames (lose s.lost b) here inside c
    have delta := moves.shares c
    have lost : (lose s.lost b c : Int) - s.lost c = ((if b = some c then 1 else 0 : Nat) : Int) := by
      rw [lose]
      omega
    rw [moved,lost]
    simp only [State.set]
    by_cases same : c = a
    · subst same
      rw [if_pos rfl] at delta
      rw [Function.update_self]
      omega
    · rw [if_neg same] at delta
      rw [Function.update_of_ne same]
      omega
  case dying =>
    intro c made
    have free := tally_step frames (· = .free c) here
    have dying := counted.dying c made
    by_cases same : c = a
    · subst same
      have dies := moves.dies
      simp only [State.set,Function.update_self]
      omega
    · obtain ⟨⟨none,old⟩,-⟩ := moves.apart c same
      simp only [State.set,Function.update_of_ne same]
      omega
  case destroying =>
    intro c made
    have free := tally_step frames (· = .destroy c) here
    have destroying := counted.destroying c made
    by_cases same : c = a
    · subst same
      have destroys := moves.destroys
      simp only [State.set,Function.update_self]
      omega
    · obtain ⟨-,none,old⟩ := moves.apart c same
      simp only [State.set,Function.update_of_ne same]
      omega
  case passed =>
    apply write (fun c y => c < s.next → y.trace.passed = true → 0 < y.trace.destroyed)
    · exact fun _ => moves.passed
    · exact fun c _ => counted.passed c
  case handed =>
    apply write (fun c y => c < s.next → 0 < y.trace.destroyed → ∀ b, y.body = .sslSocket (some b) →
      y.trace.passed = true)
    · exact fun _ => moves.handed
    · exact fun c _ => counted.handed c
  case released =>
    intro c point
    rcases mem_set here point with new | old
    · obtain ⟨rfl,noted⟩ := moves.released c new
      exact (congrArg (fun y : XfObject => y.trace.passed) (Function.update_self _ _ _)).trans noted
    · exact write (fun c y => (s.objects c).trace.passed = true → y.trace.passed = true) moves.lasting
        (fun _ _ => id) c (counted.released c old)
  case closing =>
    intro c point
    rcases mem_set here point with new | old
    · obtain ⟨rfl,noted⟩ := moves.closed c new
      simp only [State.set,Function.update_self]
      exact noted
    · exact write (fun c y => 0 < (s.objects c).trace.destroyed → 0 < y.trace.destroyed)
        (fun before => Nat.lt_of_lt_of_le before moves.later) (fun _ _ => id) c (counted.closing c old)
  case server =>
    apply write (fun c y => c < s.next → ∀ socket, y.body = .serverSocket socket →
      y.trace.closed = y.trace.destroyed ∧ (socket = none → 0 < y.trace.destroyed))
    · exact fun _ => moves.server
    · exact fun c _ => counted.server c
  case nested =>
    exact counted.nested.set (fun _ _ _ paired => paired) (moves.nested rest (counted.nested thread _ here))

theorem alive (counted : Counted s) (inside : a < s.next) (shares : 0 < s.shares a) : 0 < (s.objects a).ref := by
  rw [counted.ledger a inside]
  exact Int.natCast_pos.mpr shares

/-- Whoever has a reference keeps the object. -/
theorem owner (counted : Counted s) (member : f ∈ s.threads.flatten) (holds : f.holds a = true) :
    0 < (s.objects a).ref := by
  apply counted.alive (counted.below f member a (holds_subject holds))
  have one := tally_pos (p := (·.holds a)) member holds
  rw [State.shares]
  omega

theorem held (counted : Counted s) (inside : a < s.next) (held : 0 < (s.objects a).trace.held) :
    0 < (s.objects a).ref := by
  apply counted.alive inside
  rw [State.shares]
  omega

theorem base (counted : Counted s) (inside : a < s.next) (body : (s.objects a).body = .sslSocket (some c))
    (own : (s.objects a).trace.passed = false) : 0 < (s.objects c).ref := by
  apply counted.alive (Nat.lt_trans (counted.bases a inside c body) inside)
  have one := le_total (refers c) s.objects inside
  rw [refers,if_pos ⟨body,own⟩] at one
  rw [State.shares]
  omega

theorem intact (counted : Counted s) (inside : a < s.next) (alive : 0 < (s.objects a).ref) :
    (s.objects a).trace.destroyed = 0 ∧ (s.objects a).freed = false ∧ (s.objects a).trace.passed = false := by
  have destroying := counted.destroying a inside
  have dying := counted.dying a inside
  rw [if_pos alive] at destroying dying
  have none : (s.objects a).trace.destroyed = 0 := by omega
  refine ⟨none,?_,?_⟩
  · cases freed : (s.objects a).freed with
    | false => rfl
    | true =>
      rw [freed] at dying
      cases dying
  · cases passed : (s.objects a).trace.passed with
    | false => rfl
    | true => exact absurd (counted.passed a inside passed) (by omega)

theorem destroys (counted : Counted s) (member : .destroy a ∈ s.threads.flatten) :
    (s.objects a).trace.destroyed = 0 ∧ (s.objects a).trace.passed = false := by
  have inside := counted.below _ member a rfl
  have destroying := counted.destroying a inside
  have one := tally_pos (p := (· = .destroy a)) member (decide_eq_true rfl)
  have none : (s.objects a).trace.destroyed = 0 := by
    split at destroying <;> omega
  refine ⟨none,?_⟩
  cases passed : (s.objects a).trace.passed with
  | false => rfl
  | true => exact absurd (counted.passed a inside passed) (by omega)

theorem frees (counted : Counted s) (member : .free a ∈ s.threads.flatten) : (s.objects a).freed = false := by
  have dying := counted.dying a (counted.below _ member a rfl)
  have one := tally_pos (p := (· = .free a)) member (decide_eq_true rfl)
  cases freed : (s.objects a).freed with
  | false => rfl
  | true =>
    rw [freed] at dying
    change _ + 1 = _ at dying
    split at dying <;> omega

theorem placed (counted : Counted s) (member : f ∈ s.threads.flatten) (subject : f.subject = some a) :
    Placed a (s.objects a) f := by
  have inside := counted.below f member a subject
  refine ⟨subject,counted.owner member,?_,?_,?_,?_,?_,counted.handed a inside,counted.passed a inside,
    counted.server a inside⟩
  · exact fun point => counted.frees (point ▸ member)
  · exact fun point => (counted.destroys (point ▸ member)).1
  · intro point
    rcases point with point | point
    · exact (counted.destroys (point ▸ member)).2
    · exact (counted.intact inside (counted.owner member (by rw [point]; exact decide_eq_true rfl))).2.2
  · exact fun point => counted.released a (point ▸ member)
  · exact fun point => counted.closing a (point ▸ member)

theorem spawn (counted : Counted s) : Counted {s with threads := s.threads ++ [[Frame.user]]} := by
  have same (p : Frame → Bool) (user : p Frame.user = false) :
      tally p (s.threads ++ [[Frame.user]]) = tally p s.threads := by
    rw [tally_spawn,List.countP_singleton,user]
    rfl
  have old {g : Frame} (other : g ≠ .user) (member : g ∈ (s.threads ++ [[Frame.user]]).flatten) :
      g ∈ s.threads.flatten :=
    (mem_spawn member).resolve_left (fun new => other (List.mem_singleton.mp new))
  refine ⟨?_,counted.bases,counted.lost,counted.leaks,counted.based,?_,?_,?_,counted.passed,counted.handed,?_,?_,
    counted.server,?_⟩
  · intro g member a named
    exact counted.below g (old (fun same => by rw [same] at named; cases named) member) a named
  · intro a inside
    have law := counted.ledger a inside
    simp only [State.shares,same (Frame.holds a) rfl] at law ⊢
    exact law
  · intro a inside
    rw [same _ rfl]
    exact counted.dying a inside
  · intro a inside
    rw [same _ rfl]
    exact counted.destroying a inside
  · exact fun a member => counted.released a (old (fun same => by cases same) member)
  · exact fun a member => counted.closing a (old (fun same => by cases same) member)
  · exact counted.nested.spawn trivial

def given (s : State) (base : Option Id) (c : Id) : XfObject :=
  {s.objects c with trace.held := (s.objects c).trace.held - if base = some c then 1 else 0}

def made (s : State) (body : Body) (base : Option Id) (threads : List (List Frame)) : State :=
  ⟨Function.update (given s base) s.next (.fresh body),s.next + 1,threads,s.lost⟩

theorem given_some (s : State) (body : Body) (base : Id) : made s body (some base) s.threads =
    State.make (s.set base {s.objects base with trace.held := (s.objects base).trace.held - 1}) body := by
  have same : given s (some base) = Function.update s.objects base
      {s.objects base with trace.held := (s.objects base).trace.held - 1} := by
    ext c : 1
    by_cases own : c = base
    · subst own
      simp only [given,if_true,Function.update_self]
    · have other : ¬ some base = some c := fun equal => own (Option.some.inj equal).symm
      simp only [given,if_neg other,Nat.sub_zero,Function.update_of_ne own]
  rw [made,same]
  rfl

theorem made_self (s : State) (body : Body) (base : Option Id) (threads : List (List Frame)) :
    (made s body base threads).objects s.next = .fresh body := Function.update_self _ _ _

theorem made_old (body : Body) (base : Option Id) (threads : List (List Frame)) (other : c ≠ s.next) :
    (made s body base threads).objects c = given s base c := Function.update_of_ne other _ _

theorem make (counted : Counted s) {body : Body} {base : Option Id}
    (taken : ∀ c, body = .sslSocket (some c) ↔ base = some c)
    (known : ∀ c, base = some c → c < s.next ∧ 0 < (s.objects c).trace.held ∧ 0 < s.lost c)
    (open' : body ≠ .serverSocket none) : Counted (made s body base s.threads) := by
  have unpointed (p : Frame → Bool) (named : ∀ g, p g = true → g.subject = some s.next) : tally p s.threads = 0 := by
    apply tally_none
    intro g member holds
    exact absurd (counted.below g member s.next (named g holds)) (Nat.lt_irrefl _)
  have write (P : Id → XfObject → Prop) (here : P s.next (.fresh body))
      (others : ∀ c < s.next, P c (given s base c)) :
      ∀ c < s.next + 1, P c ((made s body base s.threads).objects c) := by
    intro c below
    by_cases same : c = s.next
    · subst same
      rw [made_self]
      exact here
    · rw [made_old _ _ _ same]
      exact others c (Nat.lt_of_le_of_ne (Nat.le_of_lt_succ below) same)
  constructor
  case below =>
    exact fun g member a named => Nat.lt_succ_of_lt (counted.below g member a named)
  case bases =>
    refine write (fun c y => ∀ d, y.body = .sslSocket (some d) → d < c) ?_ (fun c below => counted.bases c below)
    exact fun d own => (known d ((taken d).mp own)).1
  case lost => exact fun a out => counted.lost a (Nat.le_of_succ_le out)
  case leaks =>
    refine write (fun c y => 0 < s.lost c ↔ 0 < y.trace.handshakes) ?_ (fun c below => counted.leaks c below)
    rw [counted.lost _ (Nat.le_refl _)]
    rfl
  case based =>
    refine write (fun c y => ∀ d, y.body = .sslSocket (some d) → 0 < s.lost d) ?_ (fun c below => counted.based c below)
    exact fun d own => (known d ((taken d).mp own)).2.2
  case ledger =>
    have refs (c : Id) : total (refers c) (Function.update (given s base) s.next (.fresh body)) (s.next + 1) =
        total (refers c) s.objects s.next + if base = some c then 1 else 0 := by
      have same : refers c (.fresh body) = if base = some c then 1 else 0 := by
        simp only [refers,XfObject.fresh,and_true]
        exact if_congr (taken c) rfl rfl
      rw [total_append,same]
      rfl
    intro c below
    have shares : (made s body base s.threads).shares c =
        ((made s body base s.threads).objects c).trace.held +
          tally (·.holds c) s.threads + (total (refers c) s.objects s.next + if base = some c then 1 else 0) +
          s.lost c := by
      rw [← refs]
      rfl
    rw [shares]
    by_cases same : c = s.next
    · subst same
      have unheld := unpointed (Frame.holds s.next) (fun g holds => holds_subject holds)
      have unknown : base ≠ some s.next := fun own => Nat.lt_irrefl _ (known _ own).1
      have unreferred : total (refers s.next) s.objects s.next = 0 := by
        apply total_zero
        intro d inside
        apply if_neg
        intro own
        exact Nat.lt_asymm inside (counted.bases d inside _ own.1)
      rw [made_self,unheld,unreferred,if_neg unknown,counted.lost _ (Nat.le_refl _)]
      rfl
    · have inside : c < s.next := Nat.lt_of_le_of_ne (Nat.le_of_lt_succ below) same
      have law := counted.ledger c inside
      rw [State.shares] at law
      rw [made_old _ _ _ same]
      simp only [given]
      split
      · next own =>
        have some := (known c own).2.1
        omega
      · omega
  case dying =>
    refine write (fun c y => tally (· = .free c) s.threads + y.freed.toNat = if 0 < y.ref then 0 else 1) ?_
      (fun c below => counted.dying c below)
    rw [unpointed]
    · rfl
    · exact fun g point => (of_decide_eq_true point) ▸ rfl
  case destroying =>
    refine write (fun c y => tally (· = .destroy c) s.threads + y.trace.destroyed = if 0 < y.ref then 0 else 1) ?_
      (fun c below => counted.destroying c below)
    rw [unpointed]
    · rfl
    · exact fun g point => (of_decide_eq_true point) ▸ rfl
  case passed =>
    refine write (fun c y => y.trace.passed = true → 0 < y.trace.destroyed) ?_ (fun c below => counted.passed c below)
    exact fun passed => by cases passed
  case handed =>
    refine write (fun c y => 0 < y.trace.destroyed → ∀ b, y.body = .sslSocket (some b) → y.trace.passed = true) ?_
      (fun c below => counted.handed c below)
    exact fun some => absurd some (Nat.lt_irrefl 0)
  case released =>
    intro c member
    rw [made_old _ _ _ (Nat.ne_of_lt (counted.below _ member c rfl))]
    exact counted.released c member
  case closing =>
    intro c member
    rw [made_old _ _ _ (Nat.ne_of_lt (counted.below _ member c rfl))]
    exact counted.closing c member
  case server =>
    refine write (fun c y => ∀ socket, y.body = .serverSocket socket →
      y.trace.closed = y.trace.destroyed ∧ (socket = none → 0 < y.trace.destroyed)) ?_
      (fun c below => counted.server c below)
    intro socket own
    refine ⟨rfl,?_⟩
    rintro rfl
    exact absurd own open'
  case nested =>
    exact counted.nested

/-- The user code of a thread goes on. -/
theorem resumed (here : s.threads[thread]? = some (.user :: rest)) :
    s.threads.set thread ([] ++ [.user] ++ rest) = s.threads := by
  obtain ⟨bound,entry⟩ := List.getElem?_eq_some_iff.mp here
  rw [List.nil_append,List.singleton_append,← entry,List.set_getElem_self]

/-- The reference that a handshake takes is lost. -/
theorem handshake (counted : Counted s) (here : s.threads[thread]? = some (.user :: rest)) (inside : a < s.next)
    (held : 0 < (s.objects a).trace.held) : Counted (s.handshake a) := by
  have alive := counted.held inside held
  have moves : Moves a (s.objects a) .user {s.objects a with
      ref := (s.objects a).ref + 1
      trace.handshakes := (s.objects a).trace.handshakes + 1} (some a) ([] ++ [.user]) :=
    call_moves true alive (by simp; omega) rfl rfl rfl rfl rfl (counted.passed a inside) (counted.handed a inside)
      (counted.server a inside) (Or.inl rfl) (Nat.succ_pos _) (by simp)
  have moved := counted.moves here inside moves
  rw [resumed here] at moved
  exact moved

theorem handshake_held (s : State) (b : Id) :
    ((s.handshake b).objects b).trace.held = (s.objects b).trace.held := by
  simp only [State.handshake,State.set,Function.update_self]

/-- A call of a user. -/
theorem call {s' : State} {c : Call} (counted : Counted s) (here : s.threads[thread]? = some (.user :: rest))
    (step : call s c = some (s',frames)) :
    Counted {s' with threads := s.threads.set thread (frames ++ [.user] ++ rest)} := by
  have write {s : State} (counted : Counted s) (here : s.threads[thread]? = some (.user :: rest)) {a : Id}
      {x : XfObject} (inside : a < s.next) (held : 0 < (s.objects a).trace.held)
      (moved : Moves a (s.objects a) .user x none (frames ++ [.user])) :
      Counted {s.set a x with threads := s.threads.set thread (frames ++ [.user] ++ rest)} :=
    counted.moves here inside moved
  have drop {s : State} (counted : Counted s) (here : s.threads[thread]? = some (.user :: rest)) {a : Id}
      (inside : a < s.next) (held : 0 < (s.objects a).trace.held)
      (pushed : frames = [.release a] ∨ frames = [.close a]) :
      Counted {s.set a {s.objects a with trace.held := (s.objects a).trace.held - 1} with
        threads := s.threads.set thread (frames ++ [.user] ++ rest)} := by
    have alive := counted.held inside held
    have one : frames.length = 1 := by rcases pushed with rfl | rfl <;> rfl
    apply write counted here inside held
    exact call_moves false alive alive rfl rfl rfl rfl rfl (counted.passed a inside)
      (counted.handed a inside) (counted.server a inside) (Or.inr pushed) rfl (by simp [one]; omega)
  have plain {body : Body} (taken : ∀ c, body ≠ .sslSocket (some c)) (open' : body ≠ .serverSocket none)
      {result : Made} :
      Counted {if result = .made then s.make body else s with
        threads := s.threads.set thread ([] ++ [.user] ++ rest)} := by
    rw [resumed here]
    split
    · exact counted.make (fun c => iff_of_false (taken c) (fun own => by cases own))
        (fun c own => absurd own.symm (Option.some_ne_none c)) open'
    · exact counted
  cases c with
  | new body result =>
    cases body with
    | tcpSocket =>
      cases step
      exact plain (fun c same => by cases same) (fun same => by cases same)
    | serverSocket socket =>
      cases socket with
      | none => cases step
      | some n =>
        cases step
        exact plain (fun c same => by cases same) (fun same => by cases same)
    | sslSocket base =>
      cases base with
      | none => cases step
      | some b =>
        simp only [Object.call,Option.ite_none_right_eq_some] at step
        obtain ⟨⟨inside,held⟩,result⟩ := step
        have shaken := counted.handshake here inside ((handshake_held s b) ▸ held)
        split at result
        · cases result
          have new : Counted (made (s.handshake b) (.sslSocket (some b)) (some b) (s.handshake b).threads) := by
            apply shaken.make (by simp) _ (fun same => by cases same)
            intro c own
            cases own
            refine ⟨inside,held,?_⟩
            change 0 < s.lost b + _
            rw [if_pos rfl]
            exact Nat.succ_pos _
          rw [given_some] at new
          rw [resumed here]
          exact new
        · cases result
        · cases result
          exact drop shaken here inside held (Or.inl rfl)
  | addRef a =>
    simp only [Object.call,Option.ite_none_right_eq_some] at step
    obtain ⟨⟨inside,held⟩,result⟩ := step
    cases result
    have alive := counted.held inside held
    apply write counted here inside held
    exact call_moves false alive (by simp; omega) rfl rfl rfl rfl rfl (counted.passed a inside)
      (counted.handed a inside) (counted.server a inside) (Or.inl rfl) rfl (by simp)
  | release a =>
    simp only [Object.call,Option.ite_none_right_eq_some] at step
    obtain ⟨⟨inside,held⟩,result⟩ := step
    cases result
    exact drop counted here inside held (Or.inl rfl)
  | close a =>
    simp only [Object.call] at step
    split at step
    · rw [Option.ite_none_right_eq_some] at step
      obtain ⟨⟨inside,held⟩,result⟩ := step
      cases result
      exact drop counted here inside held (Or.inr rfl)
    · cases step
  | setData a data =>
    simp only [Object.call,Option.ite_none_right_eq_some] at step
    obtain ⟨⟨inside,held⟩,result⟩ := step
    cases result
    have alive := counted.held inside held
    apply write counted here inside held
    exact call_moves false alive alive rfl rfl rfl rfl rfl (counted.passed a inside)
      (counted.handed a inside) (counted.server a inside) (Or.inl rfl) rfl (by simp)

theorem step {s' : State} {event : Event} (counted : Counted s) (step : step s event = some s') : Counted s' := by
  cases event with
  | spawn =>
    cases step
    exact counted.spawn
  | run thread =>
    simp only [Object.step] at step
    split at step
    · next f rest here =>
      obtain ⟨a,subject,step⟩ := Option.bind_eq_some_iff.mp step
      obtain ⟨⟨x,b,frames⟩,inner,result⟩ := Option.bind_eq_some_iff.mp step
      cases result
      have member := mem_top here
      exact counted.moves here (counted.below f member a subject)
        (act_moves (counted.placed member subject) (act_acts inner))
    · cases step
  | calls thread c =>
    simp only [Object.step] at step
    split at step
    · next rest here =>
      obtain ⟨⟨s',frames⟩,inner,result⟩ := Option.bind_eq_some_iff.mp step
      cases result
      exact counted.call here inner
    · cases step

end Counted

theorem start_counted : Counted start := by
  refine ⟨?_,?_,fun _ _ => rfl,?_,?_,?_,?_,?_,?_,?_,?_,?_,?_,?_⟩
  · exact fun f member => absurd member List.not_mem_nil
  · exact fun a made => absurd made (Nat.not_lt_zero a)
  · exact fun a made => absurd made (Nat.not_lt_zero a)
  · exact fun a made => absurd made (Nat.not_lt_zero a)
  · exact fun a made => absurd made (Nat.not_lt_zero a)
  · exact fun a made => absurd made (Nat.not_lt_zero a)
  · exact fun a made => absurd made (Nat.not_lt_zero a)
  · exact fun a made => absurd made (Nat.not_lt_zero a)
  · exact fun a made => absurd made (Nat.not_lt_zero a)
  · exact fun a member => absurd member List.not_mem_nil
  · exact fun a member => absurd member List.not_mem_nil
  · exact fun a made => absurd made (Nat.not_lt_zero a)
  · exact fun i stack here => by cases here

theorem reachable_counted (run : Reachable s) : Counted s := by
  refine run_invariant ?_ run start_counted
  intro s s' counted step
  obtain ⟨event,-,step⟩ := step
  exact counted.step step

/-! ## What an object goes through -/

theorem paired_free (paired : Paired frames) (member : f ∈ frames)
    (inner : f = .destroy a ∨ f = .closed a ∨ f = .released a) : .free a ∈ frames := by
  induction frames with
  | nil => cases member
  | cons g rest ih =>
    rcases List.mem_cons.mp member with rfl | later
    · have next : rest.head? = some (.free a) := by
        rcases inner with rfl | rfl | rfl <;> exact paired.1
      exact List.mem_cons_of_mem _ (List.mem_of_mem_head? next)
    · refine List.mem_cons_of_mem _ (ih ?_ later)
      cases g with
      | destroy _ | closed _ | released _ => exact paired.2
      | _ => exact paired

theorem Counted.freeing (counted : Counted s) (member : f ∈ s.threads.flatten)
    (inner : f = .destroy a ∨ f = .closed a ∨ f = .released a) : .free a ∈ s.threads.flatten := by
  obtain ⟨stack,found,inside⟩ := List.mem_flatten.mp member
  obtain ⟨i,bound,here⟩ := List.mem_iff_getElem.mp found
  have paired := counted.nested i stack (by rw [List.getElem?_eq_getElem bound,here])
  exact List.mem_flatten.mpr ⟨stack,found,paired_free paired inside inner⟩

/-- The memory of an object is there for whoever works on it. -/
theorem Counted.there (counted : Counted s) (member : f ∈ s.threads.flatten) (subject : f.subject = some a) :
    (s.objects a).freed = false := by
  have inside := counted.below f member a subject
  have owner (holds : f.holds a = true) := (counted.intact inside (counted.owner member holds)).2.1
  cases f with
  | user => cases subject
  | release _ | close _ | overwrite _ => exact owner (decide_eq_true (Option.some.inj subject))
  | free _ =>
    cases subject
    exact counted.frees member
  | destroy _ =>
    cases subject
    exact counted.frees (counted.freeing member (Or.inl rfl))
  | closed _ =>
    cases subject
    exact counted.frees (counted.freeing member (Or.inr (Or.inl rfl)))
  | released _ =>
    cases subject
    exact counted.frees (counted.freeing member (Or.inr (Or.inr rfl)))

theorem Counted.freed (counted : Counted s) (inside : a < s.next) (freed : (s.objects a).freed = true) :
    (s.objects a).trace.destroyed = 1 ∧ (s.objects a).ref ≤ 0 := by
  have dying := counted.dying a inside
  have destroying := counted.destroying a inside
  rw [freed] at dying
  change _ + 1 = _ at dying
  have last : ¬ 0 < (s.objects a).ref := by
    intro alive
    rw [if_pos alive] at dying
    omega
  rw [if_neg last] at dying destroying
  have unfreeing : tally (· = .free a) s.threads = 0 := by omega
  have undestroying : tally (· = .destroy a) s.threads = 0 := by
    apply tally_none
    intro g member point
    have free := counted.freeing member (Or.inl (of_decide_eq_true point))
    exact tally_zero unfreeing free (decide_eq_true rfl)
  exact ⟨by omega,by omega⟩

/-- An object with references is whole: it was sent no DESTROY, and its listening socket is open. Without
references it gets one DESTROY, in which a listening socket is closed, and then its memory is freed. -/
structure Lives (s : State) (a : Id) : Prop where
  counted : (s.objects a).ref = s.shares a
  whole : 0 < s.shares a → (s.objects a).trace.destroyed = 0 ∧ (s.objects a).freed = false
  once : (s.objects a).trace.destroyed ≤ 1
  last : (s.objects a).freed = true → s.shares a = 0 ∧ (s.objects a).trace.destroyed = 1
  socket : ∀ socket, (s.objects a).body = .serverSocket socket →
    (s.objects a).trace.closed = (s.objects a).trace.destroyed

theorem Counted.lives (counted : Counted s) (made : a < s.next) : Lives s a := by
  have ledger := counted.ledger a made
  refine ⟨ledger,?_,?_,?_,fun socket body => (counted.server a made socket body).1⟩
  · intro shares
    obtain ⟨undestroyed,unfreed,-⟩ := counted.intact made (counted.alive made shares)
    exact ⟨undestroyed,unfreed⟩
  · have destroying := counted.destroying a made
    split at destroying <;> omega
  · intro freed
    obtain ⟨once,last⟩ := counted.freed made freed
    exact ⟨by omega,once⟩

structure Quiet (s : State) : Prop where
  idle : ∀ f ∈ s.threads.flatten, f = .user
  released : ∀ a < s.next, (s.objects a).trace.held = 0

/-- Without references nothing is left of an object in a quiet state. -/
theorem Counted.gone (counted : Counted s) (quiet : Quiet s) (inside : a < s.next) (unshared : s.shares a = 0) :
    (s.objects a).freed = true := by
  have dying := counted.dying a inside
  rw [counted.ledger a inside,unshared] at dying
  have none : tally (· = .free a) s.threads = 0 := by
    apply tally_none
    intro g member point
    rw [quiet.idle g member] at point
    cases point
  rw [none] at dying
  cases freed : (s.objects a).freed with
  | true => rfl
  | false =>
    rw [freed] at dying
    cases dying

theorem call_lost {s' : State} {c : Call} (step : call s c = some (s',frames)) : s.lost a ≤ s'.lost a := by
  have made (result : Made) (body : Body) : s.lost a ≤ (if result = .made then s.make body else s).lost a := by
    split <;> exact Nat.le_refl _
  cases c with
  | new body result =>
    cases body with
    | tcpSocket =>
      cases step
      exact made result _
    | serverSocket socket =>
      cases socket with
      | none => cases step
      | some n =>
        cases step
        exact made result _
    | sslSocket base =>
      cases base with
      | none => cases step
      | some b =>
        simp only [Object.call,Option.ite_none_right_eq_some] at step
        obtain ⟨-,step⟩ := step
        split at step <;> cases step <;> exact Nat.le_add_right _ _
  | close b =>
    simp only [Object.call] at step
    split at step
    · rw [Option.ite_none_right_eq_some] at step
      cases step.2
      exact Nat.le_refl _
    · cases step
  | addRef b | release b | setData b _ =>
    simp only [Object.call,Option.ite_none_right_eq_some] at step
    cases step.2
    exact Nat.le_refl _

/-- What an SSL socket has overwritten stays lost. -/
theorem step_lost {s' : State} {event : Event} (step : step s event = some s') : s.lost a ≤ s'.lost a := by
  cases event with
  | spawn =>
    cases step
    exact Nat.le_refl _
  | run thread =>
    simp only [Object.step] at step
    split at step
    · obtain ⟨b,-,step⟩ := Option.bind_eq_some_iff.mp step
      obtain ⟨⟨x,c,frames⟩,-,result⟩ := Option.bind_eq_some_iff.mp step
      cases result
      exact Nat.le_add_right _ _
    · cases step
  | calls thread c =>
    simp only [Object.step] at step
    split at step
    · obtain ⟨⟨s'',frames⟩,inner,result⟩ := Option.bind_eq_some_iff.mp step
      cases result
      change s.lost a ≤ s''.lost a
      exact call_lost inner
    · cases step

/-- `xf_socket_close` on an SSL socket takes the base socket's last way to its DESTROY. -/
theorem closed_leaks {s' s'' : State} {base : Id} (run : Reachable s)
    (here : s.threads[thread]? = some (.overwrite a :: rest)) (body : (s.objects a).body = .sslSocket (some base))
    (step : step s (.run thread) = some s') (later : ReflTransGen Step s' s'') :
    (s''.objects base).trace.destroyed = 0 ∧ (s''.objects base).freed = false := by
  have before : 0 < s'.lost base := by
    simp only [Object.step,here] at step
    obtain ⟨b,subject,step⟩ := Option.bind_eq_some_iff.mp step
    cases subject
    obtain ⟨⟨x,c,frames⟩,inner,result⟩ := Option.bind_eq_some_iff.mp step
    cases result
    cases act_acts inner with
    | overwrite own =>
      cases own.symm.trans body
      change 0 < s.lost base + if some base = some base then 1 else 0
      rw [if_pos rfl]
      exact Nat.succ_pos _
  have keeps (t t' : State) (some : 0 < t.lost base) (step : Step t t') : 0 < t'.lost base := by
    obtain ⟨event,-,step⟩ := step
    exact Nat.lt_of_lt_of_le some (step_lost step)
  have lost : 0 < s''.lost base := run_invariant keeps later before
  have all : Reachable s'' := (run.tail ⟨_,trivial,step⟩).trans later
  have counted := reachable_counted all
  have made : base < s''.next := by
    by_contra out
    exact absurd (counted.lost base (Nat.le_of_not_lt out)) (Nat.ne_of_gt lost)
  apply (counted.lives made).whole
  rw [State.shares]
  omega

/-- An SSL socket is closed, and then released. -/
theorem closed_leaks_released : ∃ s s' s'', Reachable s ∧ step s (.run 0) = some s' ∧ ReflTransGen Step s' s'' ∧
    (s''.objects 1).freed = true ∧ (s''.objects 0).trace.destroyed = 0 ∧ (s''.objects 0).freed = false := by
  obtain ⟨s,run,holds⟩ : ∃ s, Reachable s ∧ decide (s.threads[0]? = some [Frame.overwrite 1,Frame.user] ∧
      (s.objects 1).body = .sslSocket (some 0) ∧ ((step s (.run 0)).bind (fun s' => perform step (fun _ _ => True) s'
        [.calls 0 (.release 1),.run 0,.run 0,.run 0])).any (fun s'' => (s''.objects 1).freed) = true) = true :=
    perform_reachable [.spawn,.calls 0 (.new .tcpSocket .made),.calls 0 (.new (.sslSocket (some 0)) .made),
      .calls 0 (.close 1),.run 0] (by decide)
  obtain ⟨here,body,freed⟩ := of_decide_eq_true holds
  obtain ⟨s'',after,freed⟩ := (Option.any_eq_true ..).mp freed
  obtain ⟨s',step,after⟩ := Option.bind_eq_some_iff.mp after
  have later : ReflTransGen Step s' s'' := perform_steps after
  exact ⟨s,s',s'',run,step,later,freed,closed_leaks run here body step later⟩

end

end Xrossfire.Object
