import Xrossfire.Iocp.Resizing

/-! How the pool comes to a size that has been changed. A registration fills a pool that is too small. In one that is
too large it counts the packets to post against a count that the leaving workers lower at the same time, so that only
half of the workers too many need leave. -/
namespace Xrossfire.Iocp
open Library Relation

/-- Every call that a registration makes succeeds, and none begins. -/
def alone : Event → Bool
  | .register => false
  | .turn _ ok => ok
  | .start | .take | .decide => true

def Others (t : Nat) (s : State) : Prop :=
  ∀ u ≠ t, ∀ point, s.registrations[u]? = some point → ∃ error, point = .returned error

section
variable {s s' : State} {t u : Nat} {ok : Bool} {point : Point} {m c : Int}

/-- The registration that moves on is the one under way, and succeeds in what it calls. -/
theorem Others.turn (others : Others t s) (fine : alone (.turn u ok) = true) (run : step s (.turn u ok) = some s') :
    u = t ∧ ok = true ∧ ∃ point, s.registrations[t]? = some point ∧ advance s t true point = some s' := by
  obtain ⟨point,here,run⟩ := Option.bind_eq_some_iff.mp run
  have good : ok = true := fine
  by_cases own : u = t
  · subst own
    subst good
    exact ⟨rfl,rfl,point,here,run⟩
  · obtain ⟨error,rfl⟩ := others u own point here
    cases run

theorem Others.put (others : Others t s) (set : s'.registrations = (s.put t point).registrations) : Others t s' := by
  intro u apart point' found
  rw [set,State.put,List.getElem?_set_ne (Ne.symm apart)] at found
  exact others u apart point' found

/-! ## A pool that is too small -/

def Grows (m c : Int) (s : State) : Point → Prop
  | .associate | .below => s.currentWorkers = c ∧ s.starting = 0
  | .count => s.currentWorkers = c ∧ s.starting = 0 ∧ c < m
  | .spawning i => s.currentWorkers + s.starting = i ∧ i ≤ m
  | .above => s.currentWorkers = m ∧ s.starting = 0
  | .returned error => error = false ∧ s.currentWorkers + s.starting = m
  | .testing _ | .posting _ => False

structure Filling (m c : Int) (t : Nat) (s : State) : Prop where
  size : s.maxWorkers = m
  exits : s.exits = 0
  leaving : s.leaving = 0
  others : Others t s
  own : ∃ point, s.registrations[t]? = some point ∧ Grows m c s point

/-- A thread that counts itself in is one fewer on its way. -/
theorem Grows.start {p : Point} (grows : Grows m c s p) (some : 0 < s.starting) :
    Grows m c {s with
      starting := s.starting - 1, currentWorkers := s.currentWorkers + 1, workers := s.workers + 1} p := by
  cases p with
  | returned error =>
    obtain ⟨fine,total⟩ := grows
    refine ⟨fine,?_⟩
    dsimp only
    omega
  | testing i | posting i => exact absurd grows id
  | _ =>
    simp only [Grows] at grows ⊢
    omega

theorem Grows.advance {p : Point} (low : c ≤ m) (size : s.maxWorkers = m) (here : s.registrations[t]? = some p)
    (grows : Grows m c s p) (run : advance s t true p = some s') :
    ∃ point, s'.registrations = (s.put t point).registrations ∧ Grows m c s' point ∧
      s'.maxWorkers = s.maxWorkers ∧ s'.exits = s.exits ∧ s'.leaving = s.leaving := by
  cases p with
  | associate =>
    cases run
    exact ⟨.below,rfl,grows,rfl,rfl,rfl⟩
  | below =>
    cases run
    obtain ⟨current,idle⟩ := grows
    refine ⟨_,rfl,?_,rfl,rfl,rfl⟩
    by_cases less : s.currentWorkers < s.maxWorkers
    · rw [if_pos less]
      exact ⟨current,idle,by omega⟩
    · rw [if_neg less]
      refine ⟨?_,idle⟩
      change s.currentWorkers = m
      omega
  | count =>
    cases run
    obtain ⟨current,idle,less⟩ := grows
    refine ⟨_,rfl,⟨?_,?_⟩,rfl,rfl,rfl⟩
    · change s.currentWorkers + (s.starting : Int) = s.currentWorkers
      omega
    · omega
  | spawning i =>
    obtain ⟨total,inside⟩ := grows
    simp only [Iocp.advance,if_true] at run
    by_cases more : i < s.maxWorkers
    · rw [if_pos more] at run
      cases run
      refine ⟨_,rfl,⟨?_,by omega⟩,rfl,rfl,rfl⟩
      dsimp only
      push_cast
      change s.currentWorkers + _ = _
      omega
    · rw [if_neg more] at run
      cases run
      refine ⟨_,rfl,⟨rfl,?_⟩,rfl,rfl,rfl⟩
      change s.currentWorkers + (s.starting : Int) = m
      omega
  | above =>
    cases run
    obtain ⟨full,idle⟩ := grows
    refine ⟨.returned false,?_,⟨rfl,?_⟩,rfl,rfl,rfl⟩
    · rw [if_neg (by omega)]
    · change s.currentWorkers + (s.starting : Int) = m
      omega
  | testing i | posting i => exact absurd grows id
  | returned error => cases run

theorem Filling.step (low : c ≤ m) {event : Event} (filling : Filling m c t s) (fine : alone event = true)
    (run : Iocp.step s event = some s') : Filling m c t s' := by
  obtain ⟨size,exits,leaving,others,p,here,grows⟩ := filling
  cases event with
  | register => cases fine
  | turn u ok =>
    obtain ⟨-,-,p',here',run⟩ := others.turn fine run
    rw [here] at here'
    cases here'
    obtain ⟨point,set,grows,size',exits',leaving'⟩ := grows.advance low size here run
    have own : s'.registrations[t]? = some point := by
      rw [set,get_put here,if_pos rfl]
    exact ⟨size'.trans size,exits'.trans exits,leaving'.trans leaving,others.put set,point,own,grows⟩
  | start =>
    obtain ⟨some,run⟩ := Option.ite_none_right_eq_some.mp run
    cases run
    exact ⟨size,exits,leaving,others,p,here,grows.start some⟩
  | take =>
    obtain ⟨some,-⟩ := Option.ite_none_right_eq_some.mp run
    omega
  | decide =>
    obtain ⟨some,-⟩ := Option.ite_none_right_eq_some.mp run
    omega

/-! ## A pool that is too large -/

def State.posted (s : State) (c : Int) : Int := s.exits + s.leaving + (c - s.currentWorkers)

def Thins (m c : Int) (s : State) : Point → Prop
  | .associate | .below | .above => s.posted c = 0
  | .testing i => s.posted c = i - m ∧ i ≤ c
  | .posting i => s.posted c = i - m ∧ i < c
  | .returned error => error = false ∧ s.posted c ≤ c - m ∧ c - m ≤ 2 * s.posted c
  | .count | .spawning _ => False

structure Thinning (m c : Int) (t : Nat) (s : State) : Prop where
  size : s.maxWorkers = m
  running : s.exited = false
  starting : s.starting = 0
  least : m ≤ s.currentWorkers
  most : s.currentWorkers ≤ c
  others : Others t s
  own : ∃ point, s.registrations[t]? = some point ∧ Thins m c s point

theorem Thins.posted {p : Point} (thins : Thins m c s p) (more : m < c) : s.posted c ≤ c - m := by
  cases p <;> simp only [Thins] at thins <;> omega

theorem Thins.congr {p : Point} (thins : Thins m c s p) (same : s'.posted c = s.posted c) : Thins m c s' p := by
  cases p <;> simp only [Thins,same] at thins ⊢ <;> exact thins

theorem Thins.advance {p : Point} (more : m < c) (thinning : Thinning m c t s) (thins : Thins m c s p)
    (run : advance s t true p = some s') :
    ∃ point, s'.registrations = (s.put t point).registrations ∧ Thins m c s' point ∧ s'.maxWorkers = s.maxWorkers ∧
      s'.exited = s.exited ∧ s'.starting = s.starting ∧ s'.currentWorkers = s.currentWorkers := by
  obtain ⟨size,-,-,least,most,-,-⟩ := thinning
  cases p with
  | associate =>
    cases run
    exact ⟨.below,rfl,thins,rfl,rfl,rfl,rfl⟩
  | below =>
    cases run
    refine ⟨.above,?_,thins,rfl,rfl,rfl,rfl⟩
    rw [if_neg (by omega)]
  | above =>
    cases run
    have none : s.posted c = 0 := thins
    refine ⟨.testing m,?_,⟨?_,by omega⟩,rfl,rfl,rfl,rfl⟩
    · have large : s.maxWorkers < s.currentWorkers := by
        simp only [State.posted] at none
        omega
      rw [if_pos large,size]
    · change s.posted c = m - m
      omega
  | testing i =>
    cases run
    obtain ⟨posted,inside⟩ := thins
    refine ⟨_,rfl,?_,rfl,rfl,rfl,rfl⟩
    by_cases left : i < s.currentWorkers
    · rw [if_pos left]
      exact ⟨posted,by omega⟩
    · rw [if_neg left]
      -- the workers that have left are among those that the packets were posted for
      have gone : c - s.currentWorkers ≤ s.posted c := by
        simp only [State.posted]
        omega
      refine ⟨rfl,?_,?_⟩
      · change s.posted c ≤ c - m
        omega
      · change c - m ≤ 2 * s.posted c
        omega
  | posting i =>
    cases run
    obtain ⟨posted,inside⟩ := thins
    refine ⟨.testing (i + 1),rfl,⟨?_,by omega⟩,rfl,rfl,rfl,rfl⟩
    simp only [State.posted,State.put,if_true] at posted ⊢
    push_cast
    omega
  | count | spawning i => exact absurd thins id
  | returned error => cases run

theorem Thinning.step (more : m < c) {event : Event} (thinning : Thinning m c t s) (fine : alone event = true)
    (run : Iocp.step s event = some s') : Thinning m c t s' := by
  obtain ⟨size,running,starting,least,most,others,p,here,thins⟩ := thinning
  cases event with
  | register => cases fine
  | turn u ok =>
    obtain ⟨-,-,p',here',run⟩ := others.turn fine run
    rw [here] at here'
    cases here'
    obtain ⟨point,set,thins,size',exited,starting',current⟩ :=
      thins.advance more ⟨size,running,starting,least,most,others,p,here,thins⟩ run
    have own : s'.registrations[t]? = some point := by
      rw [set,get_put here,if_pos rfl]
    exact ⟨size'.trans size,exited.trans running,starting'.trans starting,least.trans_eq current.symm,
      current.trans_le most,others.put set,point,own,thins⟩
  | start =>
    obtain ⟨some,-⟩ := Option.ite_none_right_eq_some.mp run
    omega
  | take =>
    obtain ⟨⟨some,-⟩,run⟩ := Option.ite_none_right_eq_some.mp run
    cases run
    refine ⟨size,running,starting,least,most,others,p,here,thins.congr ?_⟩
    simp only [State.posted]
    omega
  | decide =>
    obtain ⟨some,run⟩ := Option.ite_none_right_eq_some.mp run
    have bound := thins.posted more
    -- as many packets as there are workers too many, so none is left for a pool of the right size
    have large : s.currentWorkers > s.maxWorkers := by
      simp only [State.posted] at bound
      omega
    rw [if_pos (Or.inl large)] at run
    cases run
    refine ⟨size,running,starting,?_,?_,others,p,here,thins.congr ?_⟩
    · dsimp only
      omega
    · dsimp only
      omega
    · simp only [State.posted]
      omega

end

/-! ## One registration after another -/

structure Quiet (s : State) : Prop where
  finished : ∀ point ∈ s.registrations, ∃ error, point = .returned error
  starting : s.starting = 0
  exits : s.exits = 0
  leaving : s.leaving = 0
  running : s.exited = false

section
variable {s s' : State} {p p' : Pool}

theorem Quiet.others (quiet : Quiet s) : Others s.registrations.length
    {s with registrations := s.registrations ++ [.associate]} := by
  intro u apart point found
  change (s.registrations ++ [Point.associate])[u]? = some point at found
  rcases Nat.lt_or_gt_of_ne apart with old | new
  · rw [List.getElem?_append_left old] at found
    exact quiet.finished point (List.mem_of_getElem? found)
  · rw [List.getElem?_eq_none] at found
    · cases found
    · simp only [List.length_append,List.length_singleton]
      omega

theorem quiet_round (quiet : Quiet s)
    (run : ReflTransGen (Permitted step (fun _ e => alone e = true))
      {s with registrations := s.registrations ++ [.associate]} s') (quiet' : Quiet s') :
    s'.maxWorkers = s.maxWorkers ∧ s.maxWorkers ≤ s'.currentWorkers ∧
      2 * (s'.currentWorkers - s.maxWorkers) ≤ max 0 (s.currentWorkers - s.maxWorkers) := by
  have own : (s.registrations ++ [Point.associate])[s.registrations.length]? = some .associate :=
    List.getElem?_concat_length
  rcases lt_or_ge s.maxWorkers s.currentWorkers with more | low
  · have keeps : ∀ q q', Thinning s.maxWorkers s.currentWorkers s.registrations.length q →
        Permitted step (fun _ e => alone e = true) q q' →
        Thinning s.maxWorkers s.currentWorkers s.registrations.length q' := by
      intro q q' thinning next
      obtain ⟨event,fine,next⟩ := next
      exact thinning.step more fine next
    have none : State.posted {s with registrations := s.registrations ++ [.associate]} s.currentWorkers = 0 := by
      simp only [State.posted,quiet.exits,quiet.leaving]
      omega
    obtain ⟨size,-,-,least,-,-,point,here,thins⟩ := run_invariant keeps run
      ⟨rfl,quiet.running,quiet.starting,Int.le_of_lt more,Int.le_refl _,quiet.others,.associate,own,none⟩
    obtain ⟨error,rfl⟩ := quiet'.finished point (List.mem_of_getElem? here)
    obtain ⟨-,-,half⟩ := thins
    refine ⟨size,least,?_⟩
    simp only [State.posted,quiet'.exits,quiet'.leaving] at half
    omega
  · have keeps : ∀ q q', Filling s.maxWorkers s.currentWorkers s.registrations.length q →
        Permitted step (fun _ e => alone e = true) q q' →
        Filling s.maxWorkers s.currentWorkers s.registrations.length q' := by
      intro q q' filling next
      obtain ⟨event,fine,next⟩ := next
      exact filling.step low fine next
    obtain ⟨size,-,-,-,point,here,grows⟩ := run_invariant keeps run
      ⟨rfl,quiet.exits,quiet.leaving,quiet.others,.associate,own,rfl,quiet.starting⟩
    obtain ⟨error,rfl⟩ := quiet'.finished point (List.mem_of_getElem? here)
    obtain ⟨-,total⟩ := grows
    have starting := quiet'.starting
    refine ⟨size,?_,?_⟩ <;> omega

namespace Pool

structure Quiet (p : Pool) : Prop where
  finished : ∀ spot ∈ p.registrations, ∃ error, spot = .stands (.returned error)
  starting : p.starting = 0
  exits : p.exits = 0
  leaving : p.leaving = 0
  running : p.exited = false

/-- A registration begins, and everything comes to rest again; its calls succeed. -/
def Round (p p' : Pool) : Prop :=
  ∃ q, p.step .register = some q ∧ ReflTransGen (Permitted step (Merged alone)) q p' ∧ Quiet p'

theorem Quiet.merged (quiet : Quiet p) : Iocp.Quiet p.merged where
  finished point member := by
    obtain ⟨spot,inside,rfl⟩ := List.mem_map.mp member
    obtain ⟨error,rfl⟩ := quiet.finished spot inside
    exact ⟨error,rfl⟩
  starting := quiet.starting
  exits := quiet.exits
  leaving := quiet.leaving
  running := quiet.running

theorem round_nearer (quiet : Quiet p) (round : Round p p') :
    p'.maxWorkers = p.maxWorkers ∧ p.maxWorkers ≤ p'.currentWorkers ∧
      2 * (p'.currentWorkers - p.maxWorkers) ≤ max 0 (p.currentWorkers - p.maxWorkers) := by
  obtain ⟨q,began,run,quiet'⟩ := round
  cases began
  have fresh : Merges {p with registrations := p.registrations ++ [.stands .associate]}
      {p.merged with registrations := p.merged.registrations ++ [.associate]} := by
    refine ⟨?_,?_⟩
    · simp only [merged,List.map_append,List.map_cons,List.map_nil,point]
    · intro max member
      rcases List.mem_append.mp member with old | new
      · obtain ⟨error,impossible⟩ := quiet.finished _ old
        cases impossible
      · simp at new
  obtain ⟨s',run,rfl,-⟩ := (merged_simulates alone).run fresh run
  exact quiet_round quiet.merged run quiet'.merged

/-- One registration after another brings the pool to its size: it is at least that large after the first, and the
workers too many are halved by each. -/
theorem rounds_converge (pools : Nat → Pool) (k : Nat) (quiet : Quiet (pools 0)) (some : 0 < k)
    (rounds : ∀ i < k, Round (pools i) (pools (i + 1))) :
    (pools k).maxWorkers = (pools 0).maxWorkers ∧ (pools 0).maxWorkers ≤ (pools k).currentWorkers ∧
      2 ^ k * ((pools k).currentWorkers - (pools 0).maxWorkers) ≤
        max 0 ((pools 0).currentWorkers - (pools 0).maxWorkers) := by
  have quiet' : ∀ i ≤ k, Quiet (pools i) := by
    intro i inside
    cases i with
    | zero => exact quiet
    | succ i =>
      obtain ⟨-,-,-,quiet'⟩ := rounds i inside
      exact quiet'
  induction k, some using Nat.le_induction with
  | base => simpa using round_nearer quiet (rounds 0 Nat.zero_lt_one)
  | succ k some ih =>
    obtain ⟨size,low,bound⟩ := ih (fun i inside => rounds i (Nat.lt_succ_of_lt inside))
      (fun i inside => quiet' i (Nat.le_succ_of_le inside))
    obtain ⟨size',low',half⟩ := round_nearer (quiet' k (Nat.le_succ k)) (rounds k (Nat.lt_succ_self k))
    rw [size] at size' low' half
    refine ⟨size',low',?_⟩
    rw [max_eq_right (Int.sub_nonneg_of_le low)] at half
    calc 2 ^ (k + 1) * ((pools (k + 1)).currentWorkers - (pools 0).maxWorkers)
        = 2 ^ k * (2 * ((pools (k + 1)).currentWorkers - (pools 0).maxWorkers)) := by ring
      _ ≤ 2 ^ k * ((pools k).currentWorkers - (pools 0).maxWorkers) := by gcongr
      _ ≤ _ := bound

/-! Five workers where one is wanted: two leave while the registration still counts, so that it posts two packets
and not four. -/

def crowded : Pool := ⟨1,5,false,0,5,0,0,[]⟩

def thinned : Pool := ⟨1,3,false,0,3,0,0,[.stands (.returned false)]⟩

def thins : List Event :=
  List.flatten [List.replicate 8 (.turn 0 true),[.take,.decide],List.replicate 2 (.turn 0 true),
    [.take,.decide,.turn 0 true]]

theorem crowded_round : Round crowded thinned := by
  have run : perform step (Merged alone) {crowded with registrations := [.stands .associate]} thins = some thinned := by
    decide
  exact ⟨_,rfl,perform_steps run,⟨by simp [thinned],rfl,rfl,rfl,rfl⟩⟩

theorem rounds_converge_thinned :
    thinned.maxWorkers = 1 ∧ 1 ≤ thinned.currentWorkers ∧ 2 ^ 1 * (thinned.currentWorkers - 1) ≤ max 0 (5 - 1) := by
  apply rounds_converge (fun i => if i = 0 then crowded else thinned) 1 ⟨by simp [crowded],rfl,rfl,rfl,rfl⟩ Nat.one_pos
  intro i inside
  obtain rfl := Nat.lt_one_iff.mp inside
  exact crowded_round

end Pool

end

end Xrossfire.Iocp
