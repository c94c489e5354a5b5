import Xrossfire.Async.Object
import Xrossfire.Library.Run
import Xrossfire.Library.Table

/-! `xf_async_wait` on one async, by any number of threads. `xf_monitor_wait` gives the monitor up and takes it
again; `xf_monitor_notify` wakes one of the threads inside, and the others sleep on for their ten seconds. -/
namespace Xrossfire.Async.Wait
open Library Relation

/-- Where a call is, a point standing before what it is named after. -/
inductive Point
  -- xf_async_wait
  | enter
  | test
  /-- In `SleepConditionVariableCS` since this tick, and awake but without the monitor. -/
  | asleep (since : Int)
  | awake
  | leave
  /-- `return self->u.wait.error`, after `xf_monitor_leave`. -/
  | read
  | returned (e : Error)
  -- another locked section on the async, as that of `xf_async_enter`, with the notification it makes inside
  | sectionEnter (e : Option Error)
  | locked (e : Option Error)
  -- _xf_async_wait_notify, `inner` when the thread owns the monitor already
  | notifyEnter (e : Error) (inner : Bool)
  | writeStatus (e : Error) (inner : Bool)
  | writeError (e : Error) (inner : Bool)
  | wake (inner : Bool)
  | notifyLeave (inner : Bool)
  | done
deriving DecidableEq

structure State where
  clock : Int
  /-- `u.wait`. -/
  status : Int
  error : Error
  owner : Option Nat
  calls : List Point
  /-- The errors that notifications brought and when they set `status`, the newest first. -/
  notes : List (Error × Int)
deriving DecidableEq

namespace Point

def inside : Point → Bool
  | test | leave | locked _ | writeStatus .. | writeError .. | wake _ | notifyLeave _ => true
  | notifyEnter _ inner => inner
  | enter | asleep _ | awake | read | returned _ | sectionEnter _ | done => false

def sleeps : Point → Bool
  | asleep _ => true
  | _ => false

end Point

def State.put (s : State) (t : Nat) (point : Point) : State := {s with calls := s.calls.set t point}

/-- A call moves on; `woken` is the thread that `xf_monitor_notify` wakes, if any sleeps. -/
def advance (s : State) (t : Nat) (woken : Option Nat) : Point → Option State
  | .enter | .awake => if s.owner = none then some {s.put t .test with owner := some t} else none
  | .test =>
    if s.status = 0 then some {s.put t (.asleep s.clock) with owner := none} else some (s.put t .leave)
  | .asleep _ => some (s.put t .awake)
  | .leave => some {s.put t .read with owner := none}
  | .read => some (s.put t (.returned s.error))
  | .sectionEnter e => if s.owner = none then some {s.put t (.locked e) with owner := some t} else none
  | .locked (some e) => some (s.put t (.notifyEnter e true))
  | .locked none => some {s.put t .done with owner := none}
  | .notifyEnter e false =>
    if s.owner = none then some {s.put t (.writeStatus e false) with owner := some t} else none
  | .notifyEnter e true => some (s.put t (.writeStatus e true))
  | .writeStatus e inner =>
    some {s.put t (.writeError e inner) with status := 1, notes := (e,s.clock) :: s.notes}
  | .writeError e inner => some {s.put t (.wake inner) with error := e}
  | .wake inner =>
    match woken with
    | some u =>
      if (s.calls[u]?).any Point.sleeps then some ((s.put t (.notifyLeave inner)).put u .awake) else none
    | none => if ∀ point ∈ s.calls, point.sleeps = false then some (s.put t (.notifyLeave inner)) else none
  | .notifyLeave true => some (s.put t (.locked none))
  | .notifyLeave false => some {s.put t .done with owner := none}
  | .returned _ | .done => none

inductive Event
  | tick (now : Int)
  /-- Some thread calls `xf_async_wait`, notifies the async or enters another locked section on it. -/
  | wait
  | notify (e : Error)
  | lock (e : Option Error)
  | turn (t : Nat) (woken : Option Nat)
deriving DecidableEq

def step (s : State) : Event → Option State
  | .tick now => if s.clock ≤ now then some {s with clock := now} else none
  | .wait => some {s with calls := s.calls ++ [.enter]}
  | .notify e => some {s with calls := s.calls ++ [.notifyEnter e false]}
  | .lock e => some {s with calls := s.calls ++ [.sectionEnter e]}
  | .turn t woken => s.calls[t]?.bind (advance s t woken)

/-- After `xf_async_wait_new`. -/
def start (clock : Int) : State := ⟨clock,0,0,none,[],[]⟩

def Reachable (s : State) : Prop := ∃ clock, ReflTransGen (Permitted step (fun _ _ => True)) (start clock) s

/-! ## What holds in every run -/

def State.noted (s : State) : Prop := ∃ note ∈ s.notes, note.1 = s.error

def Knows (s : State) : Point → Prop
  | .asleep since => since ≤ s.clock ∧ ∀ note ∈ s.notes, since ≤ note.2
  | .leave | .read => s.noted
  | .returned e => ∃ note ∈ s.notes, note.1 = e
  | .writeError e _ => s.status ≠ 0 ∧ ∃ note ∈ s.notes, note.1 = e
  | _ => True

structure Sound (s : State) : Prop where
  owned : ∀ t point, s.calls[t]? = some point → (point.inside = true ↔ s.owner = some t)
  owner : ∀ t, s.owner = some t → t < s.calls.length
  fresh : s.status = 0 → s.notes = []
  known : s.status ≠ 0 → s.noted ∨ ∃ e inner, .writeError e inner ∈ s.calls
  knows : ∀ point ∈ s.calls, Knows s point

structure Later (s s' : State) : Prop where
  clock : s.clock ≤ s'.clock
  old : ∀ note ∈ s.notes, note ∈ s'.notes
  new : ∀ note ∈ s'.notes, note ∈ s.notes ∨ s.clock ≤ note.2
  noted : s.noted → s'.noted
  status : s.status ≠ 0 → s'.status ≠ 0

section
variable {s s' : State} {t u : Nat} {p point : Point} {woken : Option Nat}

theorem Later.same (clock : s'.clock = s.clock) (notes : s'.notes = s.notes) (error : s'.error = s.error)
    (status : s'.status = s.status) : Later s s' where
  clock := clock.ge
  old := by
    rw [notes]
    exact fun _ member => member
  new := by
    rw [notes]
    exact fun _ member => Or.inl member
  noted := by
    simp only [State.noted,notes,error]
    exact id
  status := by rw [status]; exact id

theorem Knows.later (knows : Knows s p) (later : Later s s') : Knows s' p := by
  cases p with
  | asleep since =>
    obtain ⟨before,all⟩ := knows
    refine ⟨before.trans later.clock,?_⟩
    intro note member
    rcases later.new note member with old | new
    · exact all note old
    · exact before.trans new
  | leave | read => exact later.noted knows
  | returned e =>
    obtain ⟨note,member,same⟩ := knows
    exact ⟨note,later.old note member,same⟩
  | writeError e inner =>
    obtain ⟨status,note,member,same⟩ := knows
    exact ⟨later.status status,note,later.old note member,same⟩
  | _ => trivial

theorem get_put (here : s.calls[t]? = some p) (u : Nat) :
    (s.put t point).calls[u]? = if t = u then some point else s.calls[u]? := by
  have bound := (List.getElem?_eq_some_iff.mp here).1
  simp only [State.put,List.getElem?_set,bound,if_true]

/-- A call moves on, taking the monitor or giving it up. -/
theorem Sound.move (sound : Sound s) (here : s.calls[t]? = some p) (later : Later s s')
    (calls : s'.calls = (s.put t point).calls)
    (owner : s'.owner = if point.inside then some t else if p.inside then none else s.owner)
    (free : point.inside = true → p.inside = true ∨ s.owner = none)
    (fresh : s'.status = 0 → s'.notes = [])
    (known : s'.noted ∨ (∃ e inner, point = .writeError e inner) ∨
      (∀ e inner, p ≠ .writeError e inner) ∧ s'.status = s.status)
    (own : Knows s' point) : Sound s' where
  owned u q found := by
    have mine := sound.owned t p here
    rw [calls,get_put here] at found
    rw [owner]
    split at found
    next same =>
      subst same
      cases found
      cases inside : point.inside with
      | true => simp
      | false =>
        cases before : p.inside with
        | true => simp
        | false =>
          rw [before] at mine
          simpa using mine
    next apart =>
      have other := sound.owned u q found
      cases inside : point.inside with
      | true =>
        have idle : s.owner ≠ some u := by
          rcases free inside with before | none
          · rw [mine.mp before]
            simpa using apart
          · rw [none]
            simp
        simp [other,idle,apart]
      | false =>
        cases before : p.inside with
        | true =>
          rw [mine.mp before] at other
          simpa [apart] using other
        | false => simpa using other
  owner u held := by
    have size : s'.calls.length = s.calls.length := by rw [calls,State.put,List.length_set]
    have inside := (List.getElem?_eq_some_iff.mp here).1
    rw [size]
    rw [owner] at held
    split at held
    · cases held
      exact inside
    · split at held
      · cases held
      · exact sound.owner u held
  fresh := fresh
  known set := by
    rcases known with noted | ⟨e,inner,rfl⟩ | ⟨different,same⟩
    · exact Or.inl noted
    · refine Or.inr ⟨e,inner,?_⟩
      rw [calls]
      exact List.mem_set (List.getElem?_eq_some_iff.mp here).1 _
    · rw [same] at set
      rcases sound.known set with noted | ⟨e,inner,member⟩
      · exact Or.inl (later.noted noted)
      · refine Or.inr ⟨e,inner,?_⟩
        obtain ⟨u,found⟩ := List.mem_iff_getElem?.mp member
        apply List.mem_iff_getElem?.mpr
        refine ⟨u,?_⟩
        rw [calls,get_put here,if_neg]
        · exact found
        · intro same
          rw [same,found] at here
          exact different e inner (Option.some.inj here).symm
  knows q member := by
    rw [calls] at member
    rcases List.mem_or_eq_of_mem_set member with old | rfl
    · exact (sound.knows q old).later later
    · exact own

/-- A move that neither writes a field nor takes the monitor. -/
theorem Sound.go (sound : Sound s) (here : s.calls[t]? = some p) (inside : point.inside = p.inside)
    (different : ∀ e inner, p ≠ .writeError e inner) (own : Knows s point) : Sound (s.put t point) := by
  have later : Later s (s.put t point) := .same rfl rfl rfl rfl
  apply sound.move here later rfl
  · have mine := sound.owned t p here
    change s.owner = _
    rw [inside]
    split
    next held => exact mine.mp held
    next => rfl
  · exact fun held => Or.inl (inside ▸ held)
  · exact sound.fresh
  · exact Or.inr (Or.inr ⟨different,rfl⟩)
  · exact own.later (.same rfl rfl rfl rfl)

theorem Sound.spawn (sound : Sound s) (outside : p.inside = false) (own : Knows s p) :
    Sound {s with calls := s.calls ++ [p]} where
  owned u q found := by
    rcases Nat.lt_or_ge u s.calls.length with old | new
    · rw [List.getElem?_append_left old] at found
      exact sound.owned u q found
    · have last := List.mem_of_getElem? found
      rw [List.getElem?_append_right new,List.getElem?_singleton,Option.ite_none_right_eq_some] at found
      obtain ⟨-,here⟩ := found
      cases here
      rw [outside]
      refine ⟨fun absurd => Bool.noConfusion absurd,?_⟩
      intro held
      exact absurd (sound.owner u held) (Nat.not_lt_of_ge new)
  owner u held := by
    have inside := sound.owner u held
    simp only [List.length_append]
    omega
  fresh := sound.fresh
  known set := by
    rcases sound.known set with noted | ⟨e,inner,member⟩
    · exact Or.inl noted
    · exact Or.inr ⟨e,inner,List.mem_append_left _ member⟩
  knows q member := by
    rcases List.mem_append.mp member with old | new
    · exact (sound.knows q old).later (.same rfl rfl rfl rfl)
    · cases List.mem_singleton.mp new
      exact own.later (.same rfl rfl rfl rfl)

/-- The monitor is free or this thread's, so no other notification is half done. -/
theorem Sound.noted (sound : Sound s) (here : s.calls[t]? = some p) (inside : p.inside = true)
    (different : ∀ e inner, p ≠ .writeError e inner) (set : s.status ≠ 0) : s.noted := by
  rcases sound.known set with noted | ⟨e,inner,member⟩
  · exact noted
  · obtain ⟨u,found⟩ := List.mem_iff_getElem?.mp member
    have other := (sound.owned u _ found).mp rfl
    have mine := (sound.owned t p here).mp inside
    rw [mine] at other
    cases other
    rw [here] at found
    exact absurd (Option.some.inj found) (different e inner)

theorem Sound.advance (sound : Sound s) (here : s.calls[t]? = some p) (run : advance s t woken p = some s') :
    Sound s' := by
  have member := List.mem_of_getElem? here
  have knows := sound.knows p member
  cases p with
  | enter =>
    obtain ⟨free,run⟩ := Option.ite_none_right_eq_some.mp run
    cases run
    exact sound.move here (.same rfl rfl rfl rfl) rfl rfl (fun _ => Or.inr free) sound.fresh
      (Or.inr (Or.inr ⟨by simp,rfl⟩)) trivial
  | awake =>
    obtain ⟨free,run⟩ := Option.ite_none_right_eq_some.mp run
    cases run
    exact sound.move here (.same rfl rfl rfl rfl) rfl rfl (fun _ => Or.inr free) sound.fresh
      (Or.inr (Or.inr ⟨by simp,rfl⟩)) trivial
  | test =>
    simp only [Wait.advance] at run
    split at run
    next unset =>
      cases run
      refine sound.move here (.same rfl rfl rfl rfl) rfl rfl (fun absurd => Bool.noConfusion absurd) sound.fresh
        (Or.inr (Or.inr ⟨by simp,rfl⟩)) ⟨le_refl _,?_⟩
      intro note noted
      change note ∈ s.notes at noted
      rw [sound.fresh unset] at noted
      cases noted
    next set =>
      cases run
      exact sound.go here rfl (by simp) (sound.noted here rfl (by simp) set)
  | asleep since =>
    cases run
    exact sound.go here rfl (by simp) trivial
  | leave =>
    cases run
    exact sound.move here (.same rfl rfl rfl rfl) rfl rfl (fun absurd => Bool.noConfusion absurd) sound.fresh
      (Or.inr (Or.inr ⟨by simp,rfl⟩)) knows
  | read =>
    cases run
    exact sound.go here rfl (by simp) knows
  | sectionEnter e =>
    obtain ⟨free,run⟩ := Option.ite_none_right_eq_some.mp run
    cases run
    exact sound.move here (.same rfl rfl rfl rfl) rfl rfl (fun _ => Or.inr free) sound.fresh
      (Or.inr (Or.inr ⟨by simp,rfl⟩)) trivial
  | locked e =>
    cases e with
    | some e =>
      cases run
      exact sound.go here rfl (by simp) trivial
    | none =>
      cases run
      exact sound.move here (.same rfl rfl rfl rfl) rfl rfl (fun absurd => Bool.noConfusion absurd) sound.fresh
        (Or.inr (Or.inr ⟨by simp,rfl⟩)) trivial
  | notifyEnter e inner =>
    cases inner with
    | true =>
      cases run
      exact sound.go here rfl (by simp) trivial
    | false =>
      obtain ⟨free,run⟩ := Option.ite_none_right_eq_some.mp run
      cases run
      exact sound.move here (.same rfl rfl rfl rfl) rfl rfl (fun _ => Or.inr free) sound.fresh
        (Or.inr (Or.inr ⟨by simp,rfl⟩)) trivial
  | writeStatus e inner =>
    cases run
    have later : Later s {s.put t (.writeError e inner) with status := 1, notes := (e,s.clock) :: s.notes} := by
      refine ⟨le_refl _,fun note old => List.mem_cons_of_mem _ old,?_,?_,fun _ => Int.one_ne_zero⟩
      · intro note new
        rcases List.mem_cons.mp new with rfl | old
        · exact Or.inr (le_refl _)
        · exact Or.inl old
      · intro noted
        obtain ⟨note,old,same⟩ := noted
        exact ⟨note,List.mem_cons_of_mem _ old,same⟩
    exact sound.move here later rfl ((sound.owned t _ here).mp rfl) (fun _ => Or.inl rfl)
      (fun absurd => by cases absurd) (Or.inr (Or.inl ⟨e,inner,rfl⟩))
      ⟨Int.one_ne_zero,(e,s.clock),List.mem_cons_self,rfl⟩
  | writeError e inner =>
    cases run
    obtain ⟨set,note,noted,same⟩ := knows
    have brought : State.noted {s.put t (.wake inner) with error := e} := ⟨note,noted,same⟩
    exact sound.move here ⟨le_refl _,fun _ old => old,fun _ old => Or.inl old,fun _ => brought,fun set => set⟩ rfl
      ((sound.owned t _ here).mp rfl) (fun _ => Or.inl rfl) sound.fresh (Or.inl brought) trivial
  | wake inner =>
    simp only [Wait.advance] at run
    cases woken with
    | none =>
      obtain ⟨-,run⟩ := Option.ite_none_right_eq_some.mp run
      cases run
      exact sound.go here rfl (by simp) trivial
    | some u =>
      obtain ⟨sleeper,run⟩ := Option.ite_none_right_eq_some.mp run
      cases run
      obtain ⟨q,there,sleeps⟩ := (Option.any_eq_true ..).mp sleeper
      cases q with
      | asleep since =>
        have gone : Sound (s.put t (.notifyLeave inner)) := sound.go here rfl (by simp) trivial
        have apart : t ≠ u := by
          intro same
          rw [← same,here] at there
          cases there
        have there' : (s.put t (.notifyLeave inner)).calls[u]? = some (.asleep since) := by
          rw [get_put here,if_neg apart]
          exact there
        exact gone.go there' rfl (by simp) trivial
      | _ => cases sleeps
  | notifyLeave inner =>
    cases inner with
    | true =>
      cases run
      exact sound.go here rfl (by simp) trivial
    | false =>
      cases run
      exact sound.move here (.same rfl rfl rfl rfl) rfl rfl (fun absurd => Bool.noConfusion absurd) sound.fresh
        (Or.inr (Or.inr ⟨by simp,rfl⟩)) trivial
  | returned e | done => cases run

theorem Sound.step {event : Event} (sound : Sound s) (run : Wait.step s event = some s') : Sound s' := by
  cases event with
  | tick now =>
    obtain ⟨later,run⟩ := Option.ite_none_right_eq_some.mp run
    cases run
    have ticks : Later s {s with clock := now} :=
      ⟨later,fun _ old => old,fun _ old => Or.inl old,fun noted => noted,fun set => set⟩
    exact ⟨sound.owned,sound.owner,sound.fresh,sound.known,fun q member => (sound.knows q member).later ticks⟩
  | wait | notify e | lock e =>
    cases run
    exact sound.spawn rfl trivial
  | turn t woken =>
    obtain ⟨p,here,run⟩ := Option.bind_eq_some_iff.mp run
    exact sound.advance here run

theorem sound_start (clock : Int) : Sound (start clock) where
  owned t p found := by cases found
  owner t held := by cases held
  fresh _ := rfl
  known set := absurd rfl set
  knows p member := by cases member

theorem Reachable.sound (reach : Reachable s) : Sound s := by
  obtain ⟨clock,run⟩ := reach
  apply run_invariant _ run (sound_start clock)
  intro s s' sound next
  obtain ⟨event,-,next⟩ := next
  exact sound.step next

/-- One thread at a time is inside. Every wait that has returned brought an error that some notification gave; and
whoever still sleeps after a notification has slept since before it, so that its ten seconds run out. -/
structure Answered (s : State) : Prop where
  exclusive : ∀ (t u : Nat) (p q : Point), s.calls[t]? = some p → s.calls[u]? = some q →
    p.inside = true → q.inside = true → t = u
  returned : ∀ e, .returned e ∈ s.calls → ∃ note ∈ s.notes, note.1 = e
  asleep : ∀ since, .asleep since ∈ s.calls → ∀ note ∈ s.notes, since ≤ note.2

theorem reachable_answered (reach : Reachable s) : Answered s where
  exclusive t u p q here there inside inside' := by
    have first := (reach.sound.owned t p here).mp inside
    have second := (reach.sound.owned u q there).mp inside'
    exact Option.some.inj (first.symm.trans second)
  returned e member := reach.sound.knows _ member
  asleep since member := (reach.sound.knows _ member).2

/-! ## Every wait ends -/

def Point.left : Point → Nat
  | asleep _ => 5
  | enter | awake => 4
  | test => 3
  | leave => 2
  | read => 1
  | sectionEnter _ => 9
  | locked (some _) => 8
  | notifyEnter .. => 7
  | writeStatus .. => 6
  | writeError .. => 5
  | wake _ => 4
  | notifyLeave _ => 3
  | locked none => 2
  | returned _ | done => 0

def State.left (s : State) : Nat := (s.calls.map Point.left).sum

def Event.turns : Event → Bool
  | turn .. => true
  | _ => false

def Event.quiet : Event → Bool
  | tick _ | turn .. => true
  | _ => false

theorem left_less (here : s.calls[t]? = some p) (calls : s'.calls = (s.put t point).calls)
    (less : point.left < p.left) : s'.left < s.left := by
  rw [State.left,State.left,calls,State.put,sum_set Point.left here,sum_entry Point.left here]
  omega

theorem advance_left (here : s.calls[t]? = some p) (set : s.status ≠ 0) (run : advance s t woken p = some s') :
    s'.left < s.left ∧ s'.status ≠ 0 := by
  cases p with
  | enter | awake | sectionEnter e =>
    obtain ⟨-,run⟩ := Option.ite_none_right_eq_some.mp run
    cases run
    refine ⟨left_less here rfl ?_,set⟩
    first | decide | (cases e <;> simp [Point.left])
  | test =>
    rw [advance,if_neg set] at run
    cases run
    exact ⟨left_less here rfl (by decide),set⟩
  | asleep since | leave | read =>
    cases run
    exact ⟨left_less here rfl (by simp [Point.left]),set⟩
  | locked e =>
    cases e <;> cases run <;> exact ⟨left_less here rfl (by simp [Point.left]),set⟩
  | notifyEnter e inner =>
    cases inner with
    | true =>
      cases run
      exact ⟨left_less here rfl (by simp [Point.left]),set⟩
    | false =>
      obtain ⟨-,run⟩ := Option.ite_none_right_eq_some.mp run
      cases run
      exact ⟨left_less here rfl (by simp [Point.left]),set⟩
  | writeStatus e inner =>
    cases run
    exact ⟨left_less here rfl (by simp [Point.left]),Int.one_ne_zero⟩
  | writeError e inner =>
    cases run
    exact ⟨left_less here rfl (by simp [Point.left]),set⟩
  | wake inner =>
    simp only [advance] at run
    have first : (s.put t (.notifyLeave inner)).left < s.left := left_less here rfl (by simp [Point.left])
    cases woken with
    | none =>
      obtain ⟨-,run⟩ := Option.ite_none_right_eq_some.mp run
      cases run
      exact ⟨first,set⟩
    | some u =>
      obtain ⟨sleeper,run⟩ := Option.ite_none_right_eq_some.mp run
      cases run
      obtain ⟨q,there,sleeps⟩ := (Option.any_eq_true ..).mp sleeper
      cases q with
      | asleep since =>
        have apart : t ≠ u := by
          intro same
          rw [← same,here] at there
          cases there
        have there' : (s.put t (.notifyLeave inner)).calls[u]? = some (.asleep since) := by
          rw [get_put here,if_neg apart]
          exact there
        have second : ((s.put t (.notifyLeave inner)).put u .awake).left < (s.put t (.notifyLeave inner)).left :=
          left_less there' rfl (by simp [Point.left])
        exact ⟨second.trans first,set⟩
      | _ => cases sleeps
  | notifyLeave inner =>
    cases inner <;> cases run <;> exact ⟨left_less here rfl (by simp [Point.left]),set⟩
  | returned e | done => cases run

/-- A call that has the monitor, or could take it, moves on. -/
theorem advance_enabled (here : s.calls[t]? = some p) (free : p.inside = true ∨ s.owner = none)
    (going : p ≠ .done ∧ ∀ e, p ≠ .returned e) : ∃ woken s', Wait.step s (.turn t woken) = some s' := by
  have turn : ∀ woken {s'}, advance s t woken p = some s' → ∃ woken s', Wait.step s (.turn t woken) = some s' := by
    intro woken s' run
    refine ⟨woken,s',?_⟩
    simp only [Wait.step,here,Option.bind_some,run]
  cases p with
  | enter | awake | sectionEnter e =>
    have idle := free.resolve_left Bool.false_ne_true
    exact turn none (if_pos idle)
  | test =>
    apply turn none
    rw [advance,← apply_ite some]
  | asleep since | leave | read | writeStatus e inner | writeError e inner => exact turn none rfl
  | locked e => cases e <;> exact turn none rfl
  | notifyEnter e inner =>
    cases inner with
    | true => exact turn none rfl
    | false =>
      have idle := free.resolve_left Bool.false_ne_true
      exact turn none (if_pos idle)
  | wake inner =>
    by_cases sleepers : ∀ q ∈ s.calls, q.sleeps = false
    · exact turn none (if_pos sleepers)
    · simp only [not_forall] at sleepers
      obtain ⟨q,member,sleeps⟩ := sleepers
      obtain ⟨u,there⟩ := List.mem_iff_getElem?.mp member
      have sleeper : (s.calls[u]?).any Point.sleeps = true := by simpa [there] using sleeps
      exact turn (some u) (if_pos sleeper)
  | notifyLeave inner => cases inner <;> exact turn none rfl
  | returned e => exact absurd rfl (going.2 e)
  | done => exact absurd rfl going.1

/-- The thread that has the monitor can go on, and without one all can. -/
theorem Sound.stuck (sound : Sound s) (stuck : ∀ t woken, Wait.step s (.turn t woken) = none) :
    ∀ p ∈ s.calls, p = .done ∨ ∃ e, p = .returned e := by
  have still : ∀ (t : Nat) (p : Point), s.calls[t]? = some p → p.inside = true ∨ s.owner = none →
      p = .done ∨ ∃ e, p = .returned e := by
    intro t p here free
    by_contra going
    obtain ⟨ended,returned⟩ := not_or.mp going
    obtain ⟨woken,s',run⟩ := advance_enabled here free ⟨ended,fun e same => returned ⟨e,same⟩⟩
    rw [stuck] at run
    cases run
  have idle : s.owner = none := by
    by_contra owned
    obtain ⟨u,held⟩ := Option.ne_none_iff_exists'.mp owned
    have here := List.getElem?_eq_getElem (sound.owner u held)
    have inside := (sound.owned u _ here).mpr held
    rcases still u _ here (Or.inl inside) with ended | ⟨e,ended⟩ <;> rw [ended] at inside <;> cases inside
  intro p member
  obtain ⟨t,here⟩ := List.mem_iff_getElem?.mp member
  exact still t p here (Or.inr idle)

theorem Sound.bounded {events : List Event} (sound : Sound s) (set : s.status ≠ 0)
    (run : perform Wait.step (fun _ event => event.quiet = true) s events = some s') :
    events.countP Event.turns + s'.left ≤ s.left ∧ Sound s' := by
  induction events generalizing s with
  | nil =>
    cases run
    exact ⟨by simp,sound⟩
  | cons event events ih =>
    obtain ⟨quiet,run⟩ := Option.ite_none_right_eq_some.mp run
    obtain ⟨c,next,rest⟩ := Option.bind_eq_some_iff.mp run
    have good := sound.step next
    cases event with
    | tick now =>
      obtain ⟨-,next⟩ := Option.ite_none_right_eq_some.mp next
      cases next
      obtain ⟨bound,sound'⟩ := ih good set rest
      refine ⟨?_,sound'⟩
      rw [List.countP_cons_of_neg Bool.false_ne_true]
      exact bound
    | turn t woken =>
      obtain ⟨p,here,next⟩ := Option.bind_eq_some_iff.mp next
      obtain ⟨less,set'⟩ := advance_left here set next
      obtain ⟨bound,sound'⟩ := ih good set' rest
      refine ⟨?_,sound'⟩
      rw [List.countP_cons_of_pos rfl]
      omega
    | wait | notify e | lock e => cases quiet

/-- Once a notification has set `status`, the calls under way take a bounded number of steps, and when none of them
can take another, every wait has returned. -/
theorem waits_end {events : List Event} (reach : Reachable s) (set : s.status ≠ 0)
    (run : perform Wait.step (fun _ event => event.quiet = true) s events = some s') :
    events.countP Event.turns + s'.left ≤ s.left ∧
      ((∀ t woken, Wait.step s' (.turn t woken) = none) → ∀ p ∈ s'.calls, p = .done ∨ ∃ e, p = .returned e) := by
  obtain ⟨bound,sound⟩ := reach.sound.bounded set run
  exact ⟨bound,sound.stuck⟩

end

/-! Two threads wait and one is notified; the other sleeps until its ten seconds are over. -/

def notified : State :=
  ⟨100,1,0,some 2,[.asleep 100,.asleep 100,.writeError 5 false],[(5,100)]⟩

def ended : State := ⟨10100,1,5,none,[.returned 5,.returned 5,.done],[(5,100)]⟩

theorem notified_reachable : Reachable notified := by
  have run : perform step (fun _ _ => True) (start 100)
      [.wait,.turn 0 none,.turn 0 none,.wait,.turn 1 none,.turn 1 none,.notify 5,.turn 2 none,.turn 2 none] =
      some notified := by decide
  exact ⟨100,perform_steps run⟩

theorem reachable_answered_notified : Answered notified := reachable_answered notified_reachable

def finishes : List Event :=
  List.flatten [[.turn 2 none,.turn 2 (some 0),.turn 2 none],List.replicate 4 (.turn 0 none),[.tick 10100],
    List.replicate 5 (.turn 1 none)]

theorem waits_end_notified : finishes.countP Event.turns + ended.left ≤ notified.left ∧
    ((∀ t woken, step ended (.turn t woken) = none) → ∀ p ∈ ended.calls, p = .done ∨ ∃ e, p = .returned e) := by
  have run : perform step (fun _ event => event.quiet = true) notified finishes = some ended := by decide
  exact waits_end notified_reachable (by decide) run

end Xrossfire.Async.Wait
