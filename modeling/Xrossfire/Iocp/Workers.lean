import Xrossfire.Library.Run

/-! The worker threads of `io_completion_port.c`: registrations that start
threads or post `XF_IO_TYPE_EXIT` packets, and the workers that count themselves
in and take those packets. No lock is held where a registration reads the count. -/
namespace Xrossfire.Iocp
open Relation

/-- Where a call of `xf_io_completion_port_register` is; `spawning`, `testing` and `posting` have the loop's `i`. -/
inductive Point
  | associate
  /-- Before `g_current_workers < g_max_workers`. -/
  | below
  /-- Before `i = g_current_workers`. -/
  | count
  | spawning (i : Int)
  /-- Before `g_max_workers < g_current_workers`. -/
  | above
  | testing (i : Int)
  | posting (i : Int)
  | returned (error : Bool)
deriving DecidableEq

structure State where
  maxWorkers : Int
  currentWorkers : Int
  exited : Bool
  /-- Threads of `xf_thread_start` that have not counted themselves in. -/
  starting : Nat
  /-- Workers in the loop, and those of them that have taken an `XF_IO_TYPE_EXIT` packet. -/
  workers : Nat
  leaving : Nat
  /-- `XF_IO_TYPE_EXIT` packets in the queue. -/
  exits : Nat
  registrations : List Point
deriving DecidableEq

def State.put (s : State) (t : Nat) (point : Point) : State :=
  {s with registrations := s.registrations.set t point}

/-- A registration moves on; `ok` is the outcome of the system call it makes. -/
def advance (s : State) (t : Nat) (ok : Bool) : Point → Option State
  | .associate => some (s.put t (if ok then .below else .returned true))
  | .below => some (s.put t (if s.currentWorkers < s.maxWorkers then .count else .above))
  | .count => some (s.put t (.spawning s.currentWorkers))
  | .spawning i =>
    if i < s.maxWorkers then
      if ok then some {s.put t (.spawning (i + 1)) with starting := s.starting + 1}
      else some (s.put t (.returned true))
    else some (s.put t (.returned false))
  | .above => some (s.put t (if s.maxWorkers < s.currentWorkers then .testing s.maxWorkers else .returned false))
  | .testing i => some (s.put t (if i < s.currentWorkers then .posting i else .returned false))
  | .posting i => some {s.put t (.testing (i + 1)) with exits := if ok then s.exits + 1 else s.exits}
  | .returned _ => none

inductive Event
  /-- Some thread calls `xf_io_completion_port_register`. -/
  | register
  | turn (t : Nat) (ok : Bool)
  /-- A thread that was started counts itself in. -/
  | start
  /-- A worker gets an `XF_IO_TYPE_EXIT` packet. -/
  | take
  /-- It decides under the lock whether to leave. -/
  | decide
deriving DecidableEq

def step (s : State) : Event → Option State
  | .register => some {s with registrations := s.registrations ++ [.associate]}
  | .turn t ok => s.registrations[t]?.bind (advance s t ok)
  | .start =>
    if 0 < s.starting then
      some {s with
        starting := s.starting - 1, currentWorkers := s.currentWorkers + 1, workers := s.workers + 1}
    else none
  | .take =>
    if 0 < s.exits ∧ s.leaving < s.workers then
      some {s with exits := s.exits - 1, leaving := s.leaving + 1}
    else none
  | .decide =>
    if 0 < s.leaving then
      if s.currentWorkers > s.maxWorkers ∨ s.exited then
        some {s with
          currentWorkers := s.currentWorkers - 1, leaving := s.leaving - 1, workers := s.workers - 1}
      else some {s with leaving := s.leaving - 1}
    else none

def initial (maxWorkers : Int) : State := ⟨maxWorkers,0,false,0,0,0,0,[]⟩

structure Settled (s : State) : Prop where
  some : s.registrations ≠ []
  finished : ∀ point ∈ s.registrations, ∃ error, point = .returned error
  starting : s.starting = 0
  exits : s.exits = 0

def Spawns (s : State) (point : Point) : Prop := ∃ i < s.maxWorkers, point = .spawning i

/-- The count that a registration begins its loop with takes in every thread started or to be
started, and a registration fails only beside another one or after one that did not. -/
inductive Counted (s : State) : Event → Prop
  | counts (t : Nat) (ok : Bool) (here : s.registrations[t]? = some .count)
      (counted : s.currentWorkers < s.maxWorkers →
        s.starting = 0 ∧ ∀ point ∈ s.registrations, ¬Spawns s point) : Counted s (.turn t ok)
  | other (t : Nat) (ok : Bool) (point : Point) (here : s.registrations[t]? = some point)
      (elsewhere : point ≠ .count)
      (fails : ok = false → point = .associate ∨ Spawns s point →
        (∃ t' ≠ t, ∃ other, s.registrations[t']? = some other ∧ ∀ error, other ≠ .returned error) ∨
          .returned false ∈ s.registrations) : Counted s (.turn t ok)
  | register : Counted s .register
  | start : Counted s .start
  | take : Counted s .take
  | decide : Counted s .decide

def Step : State → State → Prop := Library.Permitted step Counted

/-! ## What holds in every such run -/

def Full (s : State) (point : Point) : Prop :=
  point = .returned false ∨ point = .above ∨ ∃ i ≥ s.maxWorkers, point = .spawning i

/-- Threads started never exceed the size; a loop with threads left to start is the only one, and
brings them up to the size; and no registration has come to post a packet. -/
structure Sound (s : State) : Prop where
  workers : (s.workers : Int) = s.currentWorkers
  bound : s.currentWorkers + s.starting ≤ s.maxWorkers
  spawner : ∀ (t : Nat) (i : Int), s.registrations[t]? = some (.spawning i) → i < s.maxWorkers →
    s.currentWorkers + s.starting + (s.maxWorkers - i) = s.maxWorkers ∧
    ∀ (t' : Nat) (point : Point), s.registrations[t']? = some point → Spawns s point → t' = t
  full : ∀ point ∈ s.registrations, Full s point → s.currentWorkers + s.starting = s.maxWorkers
  quiet : ∀ i, .testing i ∉ s.registrations ∧ .posting i ∉ s.registrations
  exits : s.exits = 0
  leaving : s.leaving = 0
  answered : s.registrations ≠ [] → (∀ point ∈ s.registrations, ∃ error, point = .returned error) →
    .returned false ∈ s.registrations

section
variable {s : State} {t : Nat} {p point : Point}

theorem get_put (here : s.registrations[t]? = some p) (t' : Nat) :
    (s.put t point).registrations[t']? = if t = t' then some point else s.registrations[t']? := by
  have bound := (List.getElem?_eq_some_iff.mp here).1
  simp only [State.put,List.getElem?_set,bound,if_true]

theorem mem_put {other : Point} (member : other ∈ (s.put t point).registrations) :
    other ∈ s.registrations ∨ other = point := List.mem_or_eq_of_mem_set member

theorem put_mem (here : s.registrations[t]? = some p) : point ∈ (s.put t point).registrations :=
  List.mem_set (List.getElem?_eq_some_iff.mp here).1 point

theorem kept_mem {other : Point} (here : s.registrations[t]? = some p) (member : other ∈ s.registrations)
    (different : other ≠ p) : other ∈ (s.put t point).registrations := by
  obtain ⟨u,found⟩ := List.mem_iff_getElem?.mp member
  apply List.mem_iff_getElem?.mpr
  refine ⟨u,?_⟩
  rw [get_put here,if_neg]
  · exact found
  · rintro rfl
    rw [here] at found
    exact different (Option.some.inj found).symm

/-- A registration moves to a point from which it neither starts threads nor posts packets. -/
theorem Sound.put (sound : Sound s) (here : s.registrations[t]? = some p)
    (moving : ∀ error, p ≠ .returned error) (rests : ¬Spawns s point)
    (full : Full s point → s.currentWorkers + s.starting = s.maxWorkers)
    (quiet : ∀ i, point ≠ .testing i ∧ point ≠ .posting i)
    (answered : point = .returned true → (∃ t' ≠ t, ∃ other, s.registrations[t']? = some other ∧
      ∀ error, other ≠ .returned error) ∨ .returned false ∈ s.registrations) : Sound (s.put t point) where
  workers := sound.workers
  bound := sound.bound
  spawner t' i found left := by
    rw [get_put here] at found
    split at found
    · cases found
      exact absurd ⟨i,left,rfl⟩ rests
    · obtain ⟨total,unique⟩ := sound.spawner t' i found left
      refine ⟨total,?_⟩
      intro u other found' spawns
      rw [get_put here] at found'
      split at found'
      · cases found'
        exact absurd spawns rests
      · exact unique u other found' spawns
  full other member done := by
    rcases mem_put member with old | rfl
    · exact sound.full other old done
    · exact full done
  quiet i := by
    refine ⟨?_,?_⟩
    · intro member
      rcases mem_put member with old | same
      · exact (sound.quiet i).1 old
      · exact (quiet i).1 same.symm
    · intro member
      rcases mem_put member with old | same
      · exact (sound.quiet i).2 old
      · exact (quiet i).2 same.symm
  exits := sound.exits
  leaving := sound.leaving
  answered _ all := by
    obtain ⟨error,rfl⟩ := all point (put_mem here)
    cases error with
    | false => exact put_mem here
    | true =>
      rcases answered rfl with ⟨u,apart,other,found,going⟩ | old
      · have inside : other ∈ (s.put t (.returned true)).registrations := by
          apply List.mem_iff_getElem?.mpr
          exact ⟨u,by rw [get_put here,if_neg (Ne.symm apart)]; exact found⟩
        obtain ⟨error,same⟩ := all other inside
        exact absurd same (going error)
      · exact kept_mem here old (Ne.symm (moving false))

/-- A registration goes on, or begins, with threads left to start; `starting` threads are on their way. -/
theorem Sound.spawn {i : Int} {starting : Nat} (sound : Sound s) (here : s.registrations[t]? = some p)
    (total : i < s.maxWorkers → s.currentWorkers + starting + (s.maxWorkers - i) = s.maxWorkers)
    (bound : s.currentWorkers + starting ≤ s.maxWorkers)
    (last : s.maxWorkers ≤ i → s.currentWorkers + starting = s.maxWorkers)
    (alone : ∀ (t' : Nat) (point : Point), s.registrations[t']? = some point → Spawns s point → t' = t)
    (unfinished : ∀ point ∈ s.registrations, ¬Full s point ∨ s.starting = starting) :
    Sound {s.put t (.spawning i) with starting := starting} where
  workers := sound.workers
  bound := bound
  spawner t' j found left := by
    change (s.put t (.spawning i)).registrations[t']? = _ at found
    rw [get_put here] at found
    have unique : ∀ (u : Nat) (point : Point),
        (s.put t (.spawning i)).registrations[u]? = some point → Spawns s point → u = t := by
      intro u other found' spawns
      rw [get_put here] at found'
      split at found'
      · exact Eq.symm ‹_›
      · exact alone u other found' spawns
    split at found
    · cases found
      refine ⟨total left,?_⟩
      rename_i same
      rw [← same]
      exact unique
    · exact absurd (alone t' _ found ⟨j,left,rfl⟩).symm ‹_›
  full other member done := by
    change Full s other at done
    rcases mem_put member with old | rfl
    · have before := sound.full other old done
      rcases unfinished other old with impossible | same
      · exact absurd done impossible
      · change s.currentWorkers + starting = s.maxWorkers
        omega
    · apply last
      simpa [Full] using done
  quiet j := by
    refine ⟨?_,?_⟩
    · intro member
      exact (sound.quiet j).1 ((mem_put member).resolve_right (by simp))
    · intro member
      exact (sound.quiet j).2 ((mem_put member).resolve_right (by simp))
  exits := sound.exits
  leaving := sound.leaving
  answered _ all := by
    obtain ⟨error,impossible⟩ := all (.spawning i) (put_mem here)
    cases impossible

theorem Sound.advance {ok : Bool} {s' : State} (sound : Sound s) (here : s.registrations[t]? = some p)
    (counted : p = .count → s.currentWorkers < s.maxWorkers →
      s.starting = 0 ∧ ∀ point ∈ s.registrations, ¬Spawns s point)
    (fails : ok = false → p = .associate ∨ Spawns s p →
      (∃ t' ≠ t, ∃ other, s.registrations[t']? = some other ∧ ∀ error, other ≠ .returned error) ∨
        .returned false ∈ s.registrations)
    (run : Iocp.advance s t ok p = some s') : Sound s' := by
  have member := List.mem_of_getElem? here
  have bound := sound.bound
  cases p with
  | associate =>
    cases run
    apply sound.put here
    · simp
    · cases ok <;> simp [Spawns]
    · cases ok <;> simp [Full]
    · cases ok <;> simp
    · intro error
      apply fails _ (Or.inl rfl)
      by_contra fine
      simp [fine] at error
  | below =>
    cases run
    apply sound.put here
    · simp
    · split <;> simp [Spawns]
    · split
      · simp [Full]
      · intro _
        omega
    · split <;> simp
    · split <;> simp
  | count =>
    cases run
    by_cases left : s.currentWorkers < s.maxWorkers
    · obtain ⟨none,idle⟩ := counted rfl left
      refine sound.spawn here ?_ bound ?_ ?_ (fun _ _ => Or.inr rfl)
      · intro _
        omega
      · intro
        omega
      · intro t' other found spawns
        exact absurd spawns (idle other (List.mem_of_getElem? found))
    · apply sound.put here
      · simp
      · simp only [Spawns,Point.spawning.injEq]
        omega
      · intro _
        omega
      · simp
      · simp
  | spawning i =>
    simp only [Iocp.advance] at run
    by_cases left : i < s.maxWorkers
    · obtain ⟨total,unique⟩ := sound.spawner t i here left
      rw [if_pos left] at run
      cases ok with
      | true =>
        cases run
        refine sound.spawn here ?_ ?_ ?_ unique ?_
        · intro _
          push_cast
          omega
        · push_cast
          omega
        · intro _
          push_cast
          omega
        · intro other old
          refine Or.inl ?_
          intro done
          have before := sound.full other old done
          omega
      | false =>
        cases run
        apply sound.put here
        · simp
        · simp [Spawns]
        · simp [Full]
        · simp
        · intro _
          exact fails rfl (Or.inr ⟨i,left,rfl⟩)
    · rw [if_neg left] at run
      have full := sound.full _ member (Or.inr (Or.inr ⟨i,by omega,rfl⟩))
      cases run
      apply sound.put here
      · simp
      · simp [Spawns]
      · intro _
        exact full
      · simp
      · simp
  | above =>
    have full := sound.full _ member (Or.inr (Or.inl rfl))
    cases run
    rw [if_neg (by omega)]
    apply sound.put here
    · simp
    · simp [Spawns]
    · intro _
      exact full
    · simp
    · simp
  | testing i => exact absurd member (sound.quiet i).1
  | posting i => exact absurd member (sound.quiet i).2
  | returned error => cases run

end

theorem Sound.step {s s' : State} {event : Event} (sound : Sound s) (counted : Counted s event)
    (run : Iocp.step s event = some s') : Sound s' := by
  cases counted with
  | counts t ok here counted =>
    simp only [Iocp.step,here,Option.bind_some] at run
    exact sound.advance here (fun _ => counted) (by simp [Spawns]) run
  | other t ok point here elsewhere fails =>
    simp only [Iocp.step,here,Option.bind_some] at run
    exact sound.advance here (fun same => absurd same elsewhere) fails run
  | register =>
    cases run
    have old : ∀ (t : Nat) (point : Point), (s.registrations ++ [Point.associate])[t]? = some point →
        s.registrations[t]? = some point ∨ point = .associate := by
      intro t point found
      rw [List.getElem?_append] at found
      split at found
      · exact Or.inl found
      · rw [List.getElem?_singleton] at found
        split at found
        · cases found
          exact Or.inr rfl
        · cases found
    refine ⟨sound.workers,sound.bound,?_,?_,?_,sound.exits,sound.leaving,?_⟩
    · intro t i found left
      obtain ⟨total,unique⟩ := sound.spawner t i ((old t _ found).resolve_right (by simp)) left
      refine ⟨total,?_⟩
      intro u point found' spawns
      rcases old u point found' with before | rfl
      · exact unique u point before spawns
      · obtain ⟨j,-,impossible⟩ := spawns
        cases impossible
    · intro point member done
      rcases List.mem_append.mp member with before | new
      · exact sound.full point before done
      · cases List.mem_singleton.mp new
        simp [Full] at done
    · intro i
      simpa using sound.quiet i
    · intro _ all
      obtain ⟨error,impossible⟩ := all .associate (by simp)
      cases impossible
  | start =>
    simp only [Iocp.step,Option.ite_none_right_eq_some,Option.some.injEq] at run
    obtain ⟨some,rfl⟩ := run
    have workers := sound.workers
    have bound := sound.bound
    have same : s.currentWorkers + 1 + ((s.starting - 1 : Nat) : Int) = s.currentWorkers + s.starting := by
      omega
    refine ⟨?_,?_,?_,?_,sound.quiet,sound.exits,sound.leaving,sound.answered⟩
    · push_cast
      omega
    · rw [same]
      exact bound
    · intro t i found left
      rw [same]
      exact sound.spawner t i found left
    · intro point member done
      rw [same]
      exact sound.full point member done
  | take =>
    have exits := sound.exits
    simp only [Iocp.step,exits,Nat.lt_irrefl,false_and,if_false] at run
    cases run
  | decide =>
    have leaving := sound.leaving
    simp only [Iocp.step,leaving,Nat.lt_irrefl,if_false] at run
    cases run

theorem sound_initial {maxWorkers : Int} (positive : 0 < maxWorkers) : Sound (initial maxWorkers) where
  workers := rfl
  bound := by
    change 0 + ((0 : Nat) : Int) ≤ maxWorkers
    omega
  spawner _ _ found := by cases found
  full _ member := by cases member
  quiet _ := ⟨List.not_mem_nil,List.not_mem_nil⟩
  exits := rfl
  leaving := rfl
  answered impossible := absurd rfl impossible

theorem step_maxWorkers {s s' : State} {event : Event} (run : step s event = some s') :
    s'.maxWorkers = s.maxWorkers := by
  cases event with
  | register =>
    cases run
    rfl
  | turn t ok =>
    obtain ⟨p,-,run⟩ := Option.bind_eq_some_iff.mp run
    cases p with
    | spawning i =>
      simp only [advance] at run
      split_ifs at run <;> cases run <;> rfl
    | _ => cases run <;> rfl
  | start | take | decide =>
    simp only [step] at run
    split_ifs at run <;> cases run <;> rfl

structure Sized (s : State) (maxWorkers : Int) : Prop where
  workers : (s.workers : Int) = maxWorkers
  counted : s.currentWorkers = maxWorkers

theorem runs_sized {maxWorkers : Int} (positive : 0 < maxWorkers) {s : State}
    (run : ReflTransGen Step (initial maxWorkers) s) (settled : Settled s) : Sized s maxWorkers := by
  have keeps : ∀ s s', Sound s ∧ s.maxWorkers = maxWorkers → Step s s' →
      Sound s' ∧ s'.maxWorkers = maxWorkers := by
    rintro s s' ⟨sound,same⟩ ⟨event,counted,run⟩
    exact ⟨sound.step counted run,(step_maxWorkers run).trans same⟩
  obtain ⟨sound,size⟩ := Library.run_invariant keeps run ⟨sound_initial positive,rfl⟩
  have full := sound.full _ (sound.answered settled.some settled.finished) (Or.inl rfl)
  have workers := sound.workers
  have starting := settled.starting
  constructor <;> omega

/-! Two workers are configured, and two registrations run side by side. -/

def Point.next : Point → Option Int
  | .spawning i => some i
  | _ => none

theorem spawns_iff (s : State) (point : Point) : (∃ i ∈ point.next, i < s.maxWorkers) ↔ Spawns s point := by
  cases point <;> simp [Point.next,Spawns]

instance (s : State) (point : Point) : Decidable (Spawns s point) := decidable_of_iff _ (spawns_iff s point)

def Unhurried (s : State) : Event → Prop
  | .turn t ok => ok = true ∧
      (s.registrations[t]? = some .count → s.starting = 0 ∧ ∀ point ∈ s.registrations, ¬Spawns s point)
  | _ => True

instance (s : State) (event : Event) : Decidable (Unhurried s event) :=
  match event with
  | .turn _ _ => inferInstanceAs (Decidable (_ ∧ _))
  | .register | .start | .take | .decide => isTrue trivial

theorem unhurried_step {s s' : State} (moved : Library.Permitted step Unhurried s s') : Step s s' := by
  obtain ⟨event,calm,run⟩ := moved
  refine ⟨event,?_,run⟩
  cases event with
  | turn t ok =>
    obtain ⟨rfl,begins⟩ := calm
    obtain ⟨point,here,-⟩ := Option.bind_eq_some_iff.mp run
    by_cases counts : point = .count
    · subst counts
      exact .counts t true here (fun _ => begins here)
    · exact .other t true point here counts (fun failed => by cases failed)
  | register => exact .register
  | start => exact .start
  | take => exact .take
  | decide => exact .decide

/-- The second registration finds one thread too few, and none when it comes to its loop. -/
def pair : List Event :=
  [.register,.register,.turn 1 true,.turn 0 true,.turn 0 true,.turn 0 true,.turn 0 true,.turn 0 true,.start,
    .turn 1 true,.start,.turn 0 true,.turn 1 true,.turn 1 true]

theorem runs_sized_pair : ∃ s, Settled s ∧ s.registrations = [.returned false,.returned false] ∧ Sized s 2 := by
  have events : Library.perform step Unhurried (initial 2) pair =
      some ⟨2,2,false,0,2,0,0,[.returned false,.returned false]⟩ := by decide
  have run : ReflTransGen Step (initial 2) ⟨2,2,false,0,2,0,0,[.returned false,.returned false]⟩ :=
    (Library.perform_steps events).lift id (fun _ _ => unhurried_step)
  have settled : Settled ⟨2,2,false,0,2,0,0,[.returned false,.returned false]⟩ := ⟨by simp,by simp,rfl,rfl⟩
  exact ⟨_,settled,rfl,runs_sized (by decide) run settled⟩

/-- Both registrations count before the thread of the first has counted itself in. -/
theorem registered_twice : ∃ s, ReflTransGen (Library.Permitted step (fun _ _ => True)) (initial 1) s ∧
    Settled s ∧ ¬Sized s 1 := by
  have run : Library.perform step (fun _ _ => True) (initial 1)
      (.register :: List.replicate 5 (.turn 0 true) ++ .register :: List.replicate 5 (.turn 1 true) ++
        [.start,.start]) = some ⟨1,2,false,0,2,0,0,[.returned false,.returned false]⟩ := by decide
  refine ⟨_,Library.perform_steps run,⟨by simp,by simp,rfl,rfl⟩,?_⟩
  intro sized
  exact absurd sized.counted (by decide)

end Xrossfire.Iocp
