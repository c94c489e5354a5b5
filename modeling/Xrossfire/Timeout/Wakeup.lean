import Xrossfire.Timeout.Consumed

/-! The poll thread never sleeps past a deadline.
While it sleeps unnotified, only entries that are not the first have come in,
so the wait it computed still ends before every deadline in the tree. -/
namespace Xrossfire.Timeout
open Avltree Library Event

def NotBefore (s : State) (bound : Int) : Prop :=
  ∀ a, s.queue.linked a → bound ≤ (s.queue.key a).timestamp

def Waits (s : State) : Phase → Prop
  | .waitTimeout todo minTimeout t0 =>
    minTimeout ≤ 300 * 1000 ∧ (.timer ∈ todo ∨ NotBefore s (t0 + minTimeout))
  | .asleep t0 timeout woken =>
    1 ≤ timeout ∧ timeout ≤ 300 * 1000 ∧ (woken = false → NotBefore s (t0 + timeout))
  | _ => True

theorem toInt_exact {timeout : Int} (positive : 1 ≤ timeout) (bounded : timeout ≤ 300 * 1000) :
    toInt timeout = timeout := by
  rw [toInt,Int.bmod_eq_of_le]
  · omega
  · omega

theorem NotBefore.congr {s s' : State} {bound : Int} (early : NotBefore s bound)
    (linked : ∀ a, s'.queue.linked a → s.queue.linked a)
    (key : ∀ a, s.queue.linked a → s'.queue.key a = s.queue.key a) : NotBefore s' bound := by
  intro a here
  rw [key a (linked a here)]
  exact early a (linked a here)

/-- The promise survives while the entries do not grow. -/
theorem Waits.congr {s s' : State} {phase : Phase} (waits : Waits s phase)
    (linked : ∀ a, s'.queue.linked a → s.queue.linked a)
    (key : ∀ a, s.queue.linked a → s'.queue.key a = s.queue.key a) : Waits s' phase := by
  cases phase with
  | waitTimeout todo minTimeout t0 =>
    obtain ⟨bounded,answered⟩ := waits
    refine ⟨bounded,answered.imp_right ?_⟩
    intro early
    exact early.congr linked key
  | asleep t0 timeout woken =>
    obtain ⟨positive,bounded,quiet⟩ := waits
    refine ⟨positive,bounded,?_⟩
    intro unwoken
    exact (quiet unwoken).congr linked key
  | _ => trivial

/-- A new entry that is not the first is later than one already there. -/
theorem Waits.scheduled {s : State} {xs low high : List Addr} {self : Addr} {queue : Queue} {wakeup : Bool}
    (waits : Waits s s.phase) (good : Good s xs) (free : s.phase.free)
    (kept : Good (s.scheduled self queue wakeup) (low ++ self :: high))
    (result : Scheduled s.queue xs self queue wakeup low high) :
    Waits (s.scheduled self queue wakeup) (s.scheduled self queue wakeup).phase := by
  have later : ∀ bound, wakeup = false → NotBefore s bound →
      NotBefore (s.scheduled self queue wakeup) bound := by
    intro bound unwoken early a here
    rw [kept.nodes.entries.linked] at here
    have nonempty : low ≠ [] := by
      intro first
      rw [result.wakeup.mpr first] at unwoken
      cases unwoken
    obtain ⟨b,bs,rfl⟩ := List.exists_cons_of_ne_nil nonempty
    have member : b ∈ xs := by
      rw [result.old]
      exact List.mem_cons_self
    have other : b ≠ self := by
      rintro rfl
      have apart := (List.nodup_cons.mp (List.perm_middle.nodup_iff.mp kept.nodes.entries.distinct)).1
      exact apart List.mem_cons_self
    have least := kept.nodes.entries.head_le (a := b) rfl a here
    rw [key_scheduled result b other] at least
    exact le_trans (early b ((good.nodes.entries.linked b).mpr member)) least
  cases here : s.phase with
  | asleep t0 timeout woken =>
    rw [here] at waits
    obtain ⟨positive,bounded,quiet⟩ := waits
    cases wakeup with
    | true =>
      simp only [State.scheduled,here,Phase.wakeup,if_true]
      refine ⟨positive,bounded,?_⟩
      intro woken
      cases woken
    | false =>
      simp only [State.scheduled,here,Bool.false_eq_true,if_false]
      refine ⟨positive,bounded,?_⟩
      intro unwoken
      exact later _ rfl (quiet unwoken)
  | waitTimeout todo minTimeout t0 =>
    rw [here] at free
    cases free
  | _ =>
    cases wakeup <;> simp only [State.scheduled,here,Phase.wakeup,Bool.false_eq_true,if_true,if_false] <;>
      trivial

/-- The timer procedure's answer is within the time to every deadline. -/
theorem notBefore_answer {s : State} {xs : List Addr} {timeout : Int} (good : Good s xs)
    (run : Yields (fun fuel => getWaitTimeout fuel s.queue s.clock) timeout) :
    NotBefore s (s.clock + timeout) := by
  have answer := (getWaitTimeout_spec good.nodes.entries s.clock).2 _ run
  intro a here
  rw [good.nodes.entries.linked] at here
  cases head : xs.head? with
  | none =>
    rw [List.head?_eq_none_iff] at head
    rw [head] at here
    cases here
  | some b =>
    have least := good.nodes.entries.head_le head a here
    rw [answer,head]
    simp only
    omega

theorem Waits.turn {pollings : List Polling} {s s' : State} {xs : List Addr} (waits : Waits s s.phase)
    (good : Good s xs) (registered : .timer ∈ pollings) (turn : Turn pollings s s') :
    Waits s' s'.phase := by
  have begin : ∀ t0, Waits s (.waitTimeout pollings (300 * 1000) t0) :=
    fun t0 => ⟨le_refl _,Or.inl registered⟩
  cases turn with
  | enter here => exact begin _
  | answerTimer todo minTimeout t0 timeout here run =>
    rw [here] at waits
    obtain ⟨bounded,-⟩ := waits
    have early := notBefore_answer good run
    refine ⟨?_,Or.inr ?_⟩
    · split_ifs <;> omega
    · intro a linked
      have bound := early a linked
      change s.clock + _ ≤ (s.queue.key a).timestamp
      split_ifs <;> omega
  | answerOther index todo minTimeout t0 timeout here =>
    rw [here] at waits
    obtain ⟨bounded,answered⟩ := waits
    refine ⟨?_,?_⟩
    · split_ifs <;> omega
    · rcases answered with member | early
      · exact Or.inl ((List.mem_cons.mp member).resolve_left (by simp))
      · refine Or.inr ?_
        intro a linked
        have bound := early a linked
        change t0 + _ ≤ (s.queue.key a).timestamp
        split_ifs <;> omega
  | sleep minTimeout t0 here positive =>
    rw [here] at waits
    obtain ⟨bounded,answered⟩ := waits
    rw [toInt_exact positive bounded]
    exact ⟨positive,bounded,fun _ => answered.resolve_left (by simp)⟩
  | wake t0 timeout woken here => exact begin _
  | process minTimeout t0 here due => trivial
  | processOther index todo here => trivial
  | otherReturns todo here => trivial
  | processTimer todo here => trivial
  | processed here => exact begin _
  | pick todo ticks queue node here run => trivial
  | pickNone todo ticks queue here run => trivial
  | invoke todo ticks timer here => trivial
  | returned todo ticks here => trivial

theorem Waits.step {pollings : List Polling} {s s' : State} {xs : List Addr} (waits : Waits s s.phase)
    (good : Good s xs) (registered : .timer ∈ pollings) (step : Step pollings s s') :
    Waits s' s'.phase := by
  cases step with
  | tick now later => exact waits.congr (fun _ here => here) (fun _ _ => rfl)
  | schedule self timeout procedure context positive outside idle =>
    rw [good.nodes.entries.linked] at outside
    have written : Written s.queue self (s.clock + timeout)
        (s.schedule self timeout procedure context).queue := scheduleWrites_spec _ _ _ _ _ _
    have kept := good.schedule self timeout procedure context positive outside idle
    apply waits.congr
    · intro a here
      rw [good.nodes.entries.linked]
      exact (kept.nodes.entries.linked a).mp here
    · intro a here
      rw [good.nodes.entries.linked] at here
      apply (written.same a _).2.2.2
      rintro rfl
      exact outside here
  | scheduled self queue wakeup begun free run =>
    obtain ⟨low,high,result,kept⟩ := good.scheduledRun begun run
    exact waits.scheduled good free kept result
  | cancel self queue result known free run =>
    obtain ⟨after,removed,returns,spec⟩ := cancel_spec good.nodes.entries self
    cases returns.2 _ run
    have exactly := good.cancelExact known run
    apply waits.congr
    · intro a here
      rcases exactly with ⟨-,-,left⟩ | ⟨-,-,same⟩
      · exact ((left a).mp here).1
      · rw [same] at here
        exact here
    · intro a _
      exact congrFun spec.same.key a
  | poll _ turn => exact waits.turn good registered turn

theorem reachable_waits {pollings : List Polling} (registered : .timer ∈ pollings) {s : State}
    (reach : Reachable pollings s) : Waits s s.phase := by
  obtain ⟨start,initial,run⟩ := reach
  have keeps : ∀ s s', (∃ xs, Good s xs) ∧ Waits s s.phase → Step pollings s s' →
      (∃ xs, Good s' xs) ∧ Waits s' s'.phase := by
    rintro s s' ⟨⟨xs,good⟩,waits⟩ step
    exact ⟨good.step step,waits.step good registered step⟩
  refine (run_invariant keeps run ⟨⟨[],initial.good⟩,?_⟩).2
  rw [initial.phase]
  trivial

/-- The sleep of the poll thread against the entries of the tree. -/
structure NeverLate (pollings : List Polling) (s : State) : Prop where
  bounded : ∀ t0 timeout woken, s.phase = .asleep t0 timeout woken → 1 ≤ timeout ∧ timeout ≤ 300 * 1000
  deadlines : ∀ t0 timeout, s.phase = .asleep t0 timeout false → ∀ a, s.queue.linked a →
    t0 + timeout ≤ (s.queue.key a).timestamp
  cast : ∀ minTimeout t0, s.phase = .waitTimeout [] minTimeout t0 → minTimeout > 0 →
    toInt minTimeout = minTimeout
  due : ∀ minTimeout t0, s.phase = .waitTimeout [] minTimeout t0 →
    (∃ a, s.queue.linked a ∧ (s.queue.key a).timestamp ≤ t0) →
    (∃ s', Turn pollings s s') ∧ ∀ s', Turn pollings s s' → s'.phase = .process pollings

/-- With the timer procedure registered, the poll thread sleeps at most until the first deadline, and
does not sleep when one has come. -/
theorem reachable_neverLate (pollings : List Polling) (registered : .timer ∈ pollings) (s : State)
    (reach : Reachable pollings s) : NeverLate pollings s := by
  obtain ⟨xs,good⟩ := reach.good
  have waits := reachable_waits registered reach
  refine ⟨?_,?_,?_,?_⟩
  · intro t0 timeout woken here
    rw [here] at waits
    exact ⟨waits.1,waits.2.1⟩
  · intro t0 timeout here
    rw [here] at waits
    exact waits.2.2 rfl
  · intro minTimeout t0 here positive
    rw [here] at waits
    exact toInt_exact positive waits.1
  · rintro minTimeout t0 here ⟨a,linked,past⟩
    refine ⟨good.live.poll,?_⟩
    rw [here] at waits
    have early := (waits.2.resolve_left (by simp)) a linked
    intro s' turn
    cases turn with
    | process minTimeout t0 here' due => rfl
    | sleep minTimeout t0 here' positive =>
      cases here.symm.trans here'
      omega
    | enter here' | answerTimer _ _ _ _ here' _ | answerOther _ _ _ _ _ here' | wake _ _ _ here'
    | processOther _ _ here' | otherReturns _ here' | processTimer _ here' | processed here'
    | pick _ _ _ _ here' _ | pickNone _ _ _ here' _ | invoke _ _ _ here' | returned _ _ here' =>
      exact absurd (here.symm.trans here') (by simp)

def asleep : State := {armed with phase := .asleep 100 50 false}

theorem asleep_reachable : Reachable [.timer] asleep := by
  obtain ⟨start,initial,run⟩ := armed_reachable [.timer]
  refine ⟨start,initial,.tail (.tail (.tail run (.poll _ _ (.enter _ rfl)))
    (.poll _ _ (.answerTimer _ [] (300 * 1000) 100 50 rfl ⟨1,rfl⟩))) (.poll _ _ ?_)⟩
  exact .sleep _ 50 100 rfl (by decide)

theorem reachable_neverLate_asleep : NeverLate [.timer] asleep :=
  reachable_neverLate [.timer] (by decide) asleep asleep_reachable

end Xrossfire.Timeout
