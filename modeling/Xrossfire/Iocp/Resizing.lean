import Xrossfire.Iocp.Workers
import Xrossfire.Library.Simulation

/-! The worker pool while `xf_io_set_max_workers` is called at any time. A registration does not take the lock
that those calls take, so that each of its reads of the two variables is a step of its own here. -/
namespace Xrossfire.Iocp
open Library Relation

inductive Spot
  | stands (point : Point)
  /-- In `g_current_workers < g_max_workers` and `g_max_workers < g_current_workers` after the first read. -/
  | below (current : Int)
  | above (max : Int)
  /-- Before `i = g_max_workers`. -/
  | first
deriving DecidableEq

structure Pool where
  maxWorkers : Int
  currentWorkers : Int
  exited : Bool
  starting : Nat
  workers : Nat
  leaving : Nat
  exits : Nat
  registrations : List Spot
deriving DecidableEq

namespace Pool

def put (p : Pool) (t : Nat) (spot : Spot) : Pool := {p with registrations := p.registrations.set t spot}

def advance (p : Pool) (t : Nat) (ok : Bool) : Spot → Option Pool
  | .stands .associate => some (p.put t (.stands (if ok then .below else .returned true)))
  | .stands .below => some (p.put t (.below p.currentWorkers))
  | .below current => some (p.put t (.stands (if current < p.maxWorkers then .count else .above)))
  | .stands .count => some (p.put t (.stands (.spawning p.currentWorkers)))
  | .stands (.spawning i) =>
    if i < p.maxWorkers then
      if ok then some {p.put t (.stands (.spawning (i + 1))) with starting := p.starting + 1}
      else some (p.put t (.stands (.returned true)))
    else some (p.put t (.stands (.returned false)))
  | .stands .above => some (p.put t (.above p.maxWorkers))
  | .above max => some (p.put t (if max < p.currentWorkers then .first else .stands (.returned false)))
  | .first => some (p.put t (.stands (.testing p.maxWorkers)))
  | .stands (.testing i) => some (p.put t (.stands (if i < p.currentWorkers then .posting i else .returned false)))
  | .stands (.posting i) =>
    some {p.put t (.stands (.testing (i + 1))) with exits := if ok then p.exits + 1 else p.exits}
  | .stands (.returned _) => none

inductive Event
  | register
  | turn (t : Nat) (ok : Bool)
  | start
  | take
  | decide
  /-- `xf_io_set_max_workers`. -/
  | resize (maxWorkers : Int)
deriving DecidableEq

def step (p : Pool) : Event → Option Pool
  | .register => some {p with registrations := p.registrations ++ [.stands .associate]}
  | .turn t ok => p.registrations[t]?.bind (advance p t ok)
  | .start =>
    if 0 < p.starting then
      some {p with
        starting := p.starting - 1, currentWorkers := p.currentWorkers + 1, workers := p.workers + 1}
    else none
  | .take =>
    if 0 < p.exits ∧ p.leaving < p.workers then
      some {p with exits := p.exits - 1, leaving := p.leaving + 1}
    else none
  | .decide =>
    if 0 < p.leaving then
      if p.currentWorkers > p.maxWorkers ∨ p.exited then
        some {p with
          currentWorkers := p.currentWorkers - 1, leaving := p.leaving - 1, workers := p.workers - 1}
      else some {p with leaving := p.leaving - 1}
    else none
  | .resize maxWorkers => some {p with maxWorkers}

def initial (maxWorkers : Int) : Pool := ⟨maxWorkers,0,false,0,0,0,0,[]⟩

def Above (m : Int) (_ : Pool) : Event → Prop
  | .resize maxWorkers => m ≤ maxWorkers
  | _ => True

instance (m : Int) (p : Pool) (event : Event) : Decidable (Above m p event) :=
  match event with
  | .resize maxWorkers => inferInstanceAs (Decidable (m ≤ maxWorkers))
  | .register | .turn _ _ | .start | .take | .decide => isTrue trivial

structure Manned (p : Pool) : Prop where
  counted : p.currentWorkers = p.workers
  leaving : p.leaving ≤ p.workers
  running : p.exited = false

/-- A registration changes neither the size nor the workers. -/
theorem advance_keeps {p p' : Pool} {t : Nat} {ok : Bool} {spot : Spot} (run : p.advance t ok spot = some p') :
    p'.maxWorkers = p.maxWorkers ∧ p'.currentWorkers = p.currentWorkers ∧ p'.exited = p.exited ∧
      p'.workers = p.workers ∧ p'.leaving = p.leaving := by
  revert run
  fun_cases advance p t ok spot <;> intro run <;> simp only [Option.some.injEq,reduceCtorEq] at run
  all_goals
    subst run
    exact ⟨rfl,rfl,rfl,rfl,rfl⟩

theorem Manned.step {p p' : Pool} {event : Event} (manned : Manned p) (run : p.step event = some p') :
    Manned p' := by
  obtain ⟨counted,leaving,running⟩ := manned
  cases event with
  | register =>
    cases run
    exact ⟨counted,leaving,running⟩
  | turn t ok =>
    obtain ⟨spot,-,run⟩ := Option.bind_eq_some_iff.mp run
    obtain ⟨-,current,exited,workers,left⟩ := advance_keeps run
    refine ⟨?_,?_,exited.trans running⟩
    · rw [current,workers,counted]
    · rw [left,workers]
      exact leaving
  | start =>
    obtain ⟨-,run⟩ := Option.ite_none_right_eq_some.mp run
    cases run
    refine ⟨?_,Nat.le_succ_of_le leaving,running⟩
    simp only [counted,Nat.cast_add,Nat.cast_one]
  | take =>
    obtain ⟨⟨-,free⟩,run⟩ := Option.ite_none_right_eq_some.mp run
    cases run
    exact ⟨counted,free,running⟩
  | decide =>
    obtain ⟨some,run⟩ := Option.ite_none_right_eq_some.mp run
    split at run <;> cases run
    · refine ⟨?_,Nat.sub_le_sub_right leaving 1,running⟩
      dsimp only
      omega
    · exact ⟨counted,(Nat.sub_le _ _).trans leaving,running⟩
  | resize maxWorkers =>
    cases run
    exact ⟨counted,leaving,running⟩

/-- A worker leaves only a pool that is too large. -/
theorem least_step {p p' : Pool} {event : Event} {m : Int} (manned : Manned p) (size : m ≤ p.maxWorkers)
    (above : Above m p event) (run : p.step event = some p') :
    m ≤ p'.maxWorkers ∧ min m p.currentWorkers ≤ p'.currentWorkers := by
  cases event with
  | register =>
    cases run
    exact ⟨size,min_le_right ..⟩
  | turn t ok =>
    obtain ⟨spot,-,run⟩ := Option.bind_eq_some_iff.mp run
    obtain ⟨max,current,-⟩ := advance_keeps run
    rw [max,current]
    exact ⟨size,min_le_right ..⟩
  | start =>
    obtain ⟨-,run⟩ := Option.ite_none_right_eq_some.mp run
    cases run
    refine ⟨size,?_⟩
    dsimp only
    omega
  | take =>
    obtain ⟨-,run⟩ := Option.ite_none_right_eq_some.mp run
    cases run
    exact ⟨size,min_le_right ..⟩
  | decide =>
    obtain ⟨-,run⟩ := Option.ite_none_right_eq_some.mp run
    split at run
    next leaves =>
      cases run
      rw [manned.running] at leaves
      have more : p.maxWorkers < p.currentWorkers := leaves.resolve_right Bool.false_ne_true
      refine ⟨size,?_⟩
      dsimp only
      omega
    next =>
      cases run
      exact ⟨size,min_le_right ..⟩
  | resize maxWorkers =>
    cases run
    exact ⟨above,min_le_right ..⟩

theorem manned_initial (maxWorkers : Int) : Manned (initial maxWorkers) := ⟨rfl,Nat.le_refl 0,rfl⟩

theorem run_manned {p p' : Pool} {allowed : Pool → Event → Prop} (manned : Manned p)
    (run : ReflTransGen (Permitted step allowed) p p') : Manned p' := by
  apply run_invariant _ run manned
  intro s s' manned next
  obtain ⟨event,-,next⟩ := next
  exact manned.step next

/-- However the size changes, the workers are counted right; and while no size below `m` is set the pool does not
fall below `m`, or below what it was. -/
theorem resized_least {size m : Int} {p p' : Pool}
    (before : ReflTransGen (Permitted step (fun _ _ => True)) (initial size) p) (low : m ≤ p.maxWorkers)
    (run : ReflTransGen (Permitted step (Above m)) p p') :
    p'.currentWorkers = p'.workers ∧ p'.leaving ≤ p'.workers ∧ min m p.currentWorkers ≤ p'.currentWorkers := by
  have manned := run_manned (manned_initial size) before
  have keeps : ∀ q q', Manned q ∧ m ≤ q.maxWorkers ∧ min m p.currentWorkers ≤ q.currentWorkers →
      Permitted step (Above m) q q' →
      Manned q' ∧ m ≤ q'.maxWorkers ∧ min m p.currentWorkers ≤ q'.currentWorkers := by
    intro q q' holds next
    obtain ⟨manned,low,least⟩ := holds
    obtain ⟨event,above,next⟩ := next
    obtain ⟨low',least'⟩ := least_step manned low above next
    have kept : min m p.currentWorkers ≤ q'.currentWorkers := by omega
    exact ⟨manned.step next,low',kept⟩
  have start : min m p.currentWorkers ≤ p.currentWorkers := min_le_right _ _
  obtain ⟨manned',-,least⟩ := run_invariant keeps run ⟨manned,low,start⟩
  exact ⟨manned'.counted,manned'.leaving,least⟩

/-! The size is raised, and lowered again while the registration that is to start a worker is on its way. -/

def staffed : Pool := ⟨2,2,false,0,2,0,0,[.stands (.returned false)]⟩

def resizes : List Event :=
  List.flatten [[.resize 3,.register],List.replicate 5 (.turn 1 true),[.resize 2,.turn 1 true,.start,.register],
    List.replicate 8 (.turn 2 true),[.take,.decide]]

theorem resized_least_lowered : ∃ p : Pool, p.exits = 0 ∧ p.currentWorkers = p.workers ∧ p.leaving ≤ p.workers ∧
    min 2 staffed.currentWorkers ≤ p.currentWorkers := by
  have before : perform step (fun _ _ => True) (initial 2) (.register :: List.replicate 7 (.turn 0 true) ++
      [.start,.start]) = some staffed := by decide
  have run : (perform step (Above 2) staffed resizes).any (fun p => p.exits = 0) = true := by decide
  obtain ⟨p,run,done⟩ := perform_reachable resizes run
  have least := resized_least (perform_steps before) (Int.le_refl 2) run
  exact ⟨p,of_decide_eq_true done,least⟩

/-! ## Without a change of the size -/

def point (max : Int) : Spot → Point
  | .stands point => point
  | .below current => if current < max then .count else .above
  | .above _ => .above
  | .first => .testing max

def merged (p : Pool) : State :=
  ⟨p.maxWorkers,p.currentWorkers,p.exited,p.starting,p.workers,p.leaving,p.exits,
    p.registrations.map (point p.maxWorkers)⟩

def Event.merged : Event → Option Iocp.Event
  | .register => some .register
  | .turn t ok => some (.turn t ok)
  | .start => some .start
  | .take => some .take
  | .decide => some .decide
  | .resize _ => none

def Merges (p : Pool) (s : State) : Prop :=
  p.merged = s ∧ ∀ max, .above max ∈ p.registrations → max = p.maxWorkers

def Merged (P : Iocp.Event → Bool) (_ : Pool) (event : Event) : Prop := event.merged.any P = true

instance (P : Iocp.Event → Bool) (p : Pool) (event : Event) : Decidable (Merged P p event) :=
  inferInstanceAs (Decidable (_ = true))

theorem merged_put (p : Pool) (t : Nat) (spot : Spot) :
    (p.put t spot).merged = p.merged.put t (point p.maxWorkers spot) := by
  simp only [merged,put,State.put,List.map_set]

theorem merged_stands (p : Pool) (t : Nat) (stop : Point) : p.merged.put t stop = (p.put t (.stands stop)).merged :=
  (merged_put p t (.stands stop)).symm

/-- A registration that moves on does so in the coarser machine, now or when it has read the other variable. -/
theorem advance_merges {p p' : Pool} {t : Nat} {ok : Bool} {spot : Spot} (here : p.registrations[t]? = some spot)
    (kept : ∀ max, .above max ∈ p.registrations → max = p.maxWorkers) (run : p.advance t ok spot = some p') :
    p'.merged = p.merged ∨ Iocp.advance p.merged t ok (point p.maxWorkers spot) = some p'.merged := by
  have member := List.mem_of_getElem? here
  have idle : ∀ spot', point p.maxWorkers spot' = point p.maxWorkers spot → (p.put t spot').merged = p.merged := by
    intro spot' same
    have found : p.merged.registrations[t]? = some (point p.maxWorkers spot) := by
      simp only [merged,List.getElem?_map,here,Option.map_some]
    obtain ⟨inside,value⟩ := List.getElem?_eq_some_iff.mp found
    rw [merged_put,same,State.put,← value,List.set_getElem_self]
  cases spot with
  | stands stop =>
    cases stop with
    | below =>
      cases run
      exact Or.inr (congrArg some (merged_put p t (.below p.currentWorkers)).symm)
    | above =>
      cases run
      exact Or.inl (idle _ rfl)
    | spawning i =>
      refine Or.inr ?_
      simp only [advance] at run
      simp only [point,Iocp.advance]
      change (if i < p.maxWorkers then _ else _) = _
      split at run
      next more =>
        rw [if_pos more]
        split at run
        next started =>
          rw [if_pos started]
          cases run
          simp only [merged,put,State.put,List.map_set,point]
        next failed =>
          rw [if_neg failed]
          cases run
          exact congrArg some (merged_stands ..)
      next done =>
        rw [if_neg done]
        cases run
        exact congrArg some (merged_stands ..)
    | posting i =>
      refine Or.inr ?_
      cases run
      simp only [Iocp.advance,merged,put,State.put,List.map_set,point]
    | returned error => cases run
    | associate | count | testing i =>
      cases run
      exact Or.inr (congrArg some (merged_stands ..))
  | below current =>
    cases run
    exact Or.inl (idle _ rfl)
  | above max =>
    cases run
    have same := kept max member
    subst same
    refine Or.inr ?_
    rw [merged_put]
    simp only [point,Iocp.advance]
    change some
      (p.merged.put t (if p.maxWorkers < p.currentWorkers then .testing p.maxWorkers else .returned false)) = _
    split <;> rfl
  | first =>
    cases run
    exact Or.inl (idle _ rfl)

theorem advance_reads {p p' : Pool} {t : Nat} {ok : Bool} {spot : Spot} {max : Int}
    (run : p.advance t ok spot = some p') (member : .above max ∈ p'.registrations) :
    .above max ∈ p.registrations ∨ max = p.maxWorkers := by
  revert run
  fun_cases advance p t ok spot <;> intro run <;> simp only [Option.some.injEq,reduceCtorEq] at run
  all_goals
    subst run
    rcases List.mem_or_eq_of_mem_set member with old | new
    · exact Or.inl old
    · grind

/-- While the size stays, the coarser machine does all that the registrations and workers do. -/
theorem merged_simulates (P : Iocp.Event → Bool) :
    Simulates (Permitted step (Merged P)) (Permitted Iocp.step (fun _ e => P e = true)) Merges := by
  intro p p' s merges next
  obtain ⟨rfl,kept⟩ := merges
  obtain ⟨event,allowed,next⟩ := next
  obtain ⟨e,same,fine⟩ := (Option.any_eq_true ..).mp allowed
  cases event with
  | turn t ok =>
    cases same
    obtain ⟨spot,here,run⟩ := Option.bind_eq_some_iff.mp next
    have max := (advance_keeps run).1
    have kept' : ∀ max, .above max ∈ p'.registrations → max = p'.maxWorkers := by
      intro size member
      rcases advance_reads run member with old | new
      · exact (kept size old).trans max.symm
      · exact new.trans max.symm
    rcases advance_merges here kept run with idle | move
    · exact ⟨p.merged,.refl,idle,kept'⟩
    · refine ⟨p'.merged,.single ⟨.turn t ok,fine,?_⟩,rfl,kept'⟩
      have found : p.merged.registrations[t]? = some (point p.maxWorkers spot) := by
        simp only [merged,List.getElem?_map,here,Option.map_some]
      simp only [Iocp.step,found,Option.bind_some,move]
  | resize maxWorkers => cases same
  | register =>
    cases same
    cases next
    refine ⟨_,.single ⟨.register,fine,rfl⟩,?_,?_⟩
    · simp only [merged,List.map_append,List.map_cons,List.map_nil,point]
    · intro max member
      exact kept max ((List.mem_append.mp member).resolve_right (by simp))
  | start =>
    cases same
    obtain ⟨some,next⟩ := Option.ite_none_right_eq_some.mp next
    cases next
    exact ⟨_,.single ⟨.start,fine,if_pos some⟩,rfl,kept⟩
  | take =>
    cases same
    obtain ⟨some,next⟩ := Option.ite_none_right_eq_some.mp next
    cases next
    exact ⟨_,.single ⟨.take,fine,if_pos some⟩,rfl,kept⟩
  | decide =>
    cases same
    obtain ⟨some,next⟩ := Option.ite_none_right_eq_some.mp next
    refine ⟨p'.merged,.single ⟨.decide,fine,?_⟩,rfl,?_⟩
    · simp only [Iocp.step]
      change (if 0 < p.leaving then if p.currentWorkers > p.maxWorkers ∨ p.exited = true then _ else _ else _) = _
      rw [if_pos some]
      split at next <;> cases next
      · rw [if_pos ‹_›]
        rfl
      · rw [if_neg ‹_›]
        rfl
    · split at next <;> cases next <;> exact kept

end Pool

end Xrossfire.Iocp
