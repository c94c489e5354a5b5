import Xrossfire.Ssl.Handshake

/-! A handshake with the cancels of its async, whose I/O it makes itself. `CancelIoEx` may find the I/O that
is under way; otherwise, as while the name is looked up, `_cancel` notifies the async. -/
namespace Xrossfire.Ssl
open Async (phaseError errorCancel)

/-- The multi-phase async of `xf_ssl_socket_new`, and whether the I/O of its last phase is not over. -/
structure Attempt where
  handshake : Handshake
  pending : Bool
  canceled : Bool

inductive Occurrence
  /-- The I/O completes. -/
  | complete (round : Round)
  /-- `_cancel`, of the caller or of `async_timeout`; `notifies` unless `CancelIoEx` succeeds. -/
  | cancel (notifies : Bool) (responses : Responses)

namespace Attempt

/-- Once a phase has returned, its I/O is under way. On a cancelled async `xf_async_enter` has notified
instead. -/
def proceed (stale : Bool) (s : Attempt) (r : Responses) : Attempt :=
  if s.handshake.running = true ∧ s.canceled = true then
    {s with handshake := runError stale s.handshake errorCancel r, pending := false}
  else {s with pending := s.handshake.running}

/-- After `xf_abort` nothing happens any more. -/
def aborted (s : Attempt) : Bool := !s.handshake.running && s.handshake.context.isSome

def step (stale : Bool) (s : Attempt) : Occurrence → Option Attempt
  | .complete round =>
    if s.pending = true then
      let handshake := runNextPhase stale (s.handshake.completes round) round.err round.responses
      some ({s with handshake := handshake}.proceed stale round.responses)
    else none
  | .cancel notifies r =>
    if s.aborted = true then none
    else if notifies = true then
      some {s with handshake := runError stale s.handshake errorCancel r, canceled := true}
    else if s.pending = true then some {s with canceled := true}
    else none

/-- A completion comes while the handshake goes on, and its phase does not fail by itself; a cancel that
notifies comes while the handshake goes on. -/
def Sound (s : Attempt) : Occurrence → Prop
  | .complete round => s.handshake.running = true ∧ Succeeds s.handshake round
  | .cancel notifies _ => notifies = true → s.handshake.running = true

end Attempt

/-- The context is freed before the parent is told, once, and not passed on after that; `*self` is set
exactly when the parent is notified with 0. -/
structure FreedOnce (trace : List HandshakeEvent) : Prop where
  once : ∀ before err after, trace = before ++ .notify err :: after → before.count .free = 1
  unused : ∀ before after, trace = before ++ .free :: after → .free ∉ after ∧ ∀ phase, .invoke phase ∉ after
  self : .setSelf ∈ trace ↔ .notify 0 ∈ trace

/-- `xf_ssl_socket_new` and what happens to its async, as long as it can. -/
def attempt (stale : Bool) (r : Responses) (occurrences : List Occurrence) : Option Attempt :=
  occurrences.foldlM (Attempt.step stale) ⟨handshakeStart stale r,true,false⟩

def Spoiled (trace : List HandshakeEvent) : Prop :=
  ∃ before after phase, trace = before ++ .free :: after ∧ .invoke phase ∈ after

section Traces
variable {t tail : List HandshakeEvent}

theorem early_split (early : ∀ e ∈ t, e.early) {e : HandshakeEvent} {before after : List HandshakeEvent}
    (late : e.early = false) (same : t ++ tail = before ++ e :: after) :
    ∃ middle, before = t ++ middle ∧ tail = middle ++ e :: after := by
  induction t generalizing before with
  | nil => exact ⟨before,rfl,same⟩
  | cons first t ih =>
    cases before with
    | nil =>
      cases same
      rw [early e List.mem_cons_self] at late
      cases late
    | cons other before =>
      simp only [List.cons_append,List.cons.injEq] at same
      obtain ⟨rfl,same⟩ := same
      obtain ⟨middle,rfl,rest⟩ := ih (fun e member => early e (List.mem_cons_of_mem _ member)) same
      exact ⟨middle,rfl,rest⟩

theorem early_count (early : ∀ e ∈ t, e.early) : t.count .free = 0 := by
  rw [List.count_eq_zero]
  intro member
  cases early _ member

/-- What happens before the end does not matter. -/
theorem freedOnce_append (early : ∀ e ∈ t, e.early) : FreedOnce (t ++ tail) ↔ FreedOnce tail := by
  have apart {e : HandshakeEvent} (late : e.early = false) : e ∈ t ++ tail ↔ e ∈ tail := by
    rw [List.mem_append,or_iff_right]
    intro member
    rw [early e member] at late
    cases late
  constructor
  · rintro ⟨once,unused,self⟩
    refine ⟨?_,?_,?_⟩
    · rintro before err after rfl
      have count := once (t ++ before) err after (List.append_assoc ..).symm
      rwa [List.count_append,early_count early,Nat.zero_add] at count
    · rintro before after rfl
      exact unused (t ++ before) after (List.append_assoc ..).symm
    · rwa [apart rfl,apart rfl] at self
  · rintro ⟨once,unused,self⟩
    refine ⟨?_,?_,?_⟩
    · intro before err after same
      obtain ⟨middle,rfl,rest⟩ := early_split early rfl same
      rw [List.count_append,early_count early,once middle err after rest]
    · intro before after same
      obtain ⟨middle,rfl,rest⟩ := early_split early rfl same
      exact unused middle after rest
    · rw [apart rfl,apart rfl]
      exact self

theorem freedOnce_early (early : ∀ e ∈ t, e.early) : FreedOnce t := by
  rw [← List.append_nil t,freedOnce_append early]
  exact ⟨fun before err after same => by simp at same,fun before after same => by simp at same,by simp⟩

theorem freedOnce_exit : FreedOnce [.setSelf,.free,.notify 0] := by
  refine ⟨?_,?_,by simp⟩
  · intro before err after same
    simp [List.cons_eq_append_iff] at same
    obtain ⟨rfl,-⟩ := same
    rfl
  · intro before after same
    simp [List.cons_eq_append_iff] at same
    obtain ⟨-,rfl⟩ := same
    simp

theorem freedOnce_error {stale : Bool} {context : Option HandshakeContext} {err : Int} (failed : err ≠ 0) :
    FreedOnce (contextFree stale context ++ [HandshakeEvent.notify err]) := by
  rcases contextFree_cases stale context with same | same
  all_goals
    rw [same]
    refine ⟨?_,?_,by simp [failed.symm]⟩
    · intro before err after same
      simp [List.cons_eq_append_iff] at same
      obtain ⟨rfl,-⟩ := same
      rfl
    · intro before after same
      simp [List.cons_eq_append_iff] at same
      obtain ⟨-,rfl⟩ := same
      simp

theorem Spoiled.not_freedOnce (spoiled : Spoiled t) : ¬ FreedOnce t := by
  obtain ⟨before,after,phase,rfl,member⟩ := spoiled
  exact fun freed => (freed.unused before after rfl).2 phase member

theorem Spoiled.append (spoiled : Spoiled t) (more : List HandshakeEvent) : Spoiled (t ++ more) := by
  obtain ⟨before,after,phase,rfl,member⟩ := spoiled
  exact ⟨before,after ++ more,phase,by simp,List.mem_append_left _ member⟩

theorem spoiled_invoke (freed : .free ∈ t) (phase : Int) (more : List HandshakeEvent) :
    Spoiled (t ++ .invoke phase :: more) := by
  obtain ⟨before,after,rfl⟩ := List.append_of_mem freed
  exact ⟨before,after ++ .invoke phase :: more,phase,by simp,List.mem_append_right _ List.mem_cons_self⟩

theorem free_mem_contextFree (stale : Bool) (context : Option HandshakeContext) :
    .free ∈ contextFree stale context := by
  rcases contextFree_cases stale context with same | same <;> rw [same] <;> exact List.mem_cons_self

end Traces

section Steps
variable {stale : Bool} {s : Handshake} {round : Round}

structure Ended (s : Handshake) : Prop where
  stopped : s.running = false
  context : s.context = none
  freed : FreedOnce s.trace
  gone : .free ∈ s.trace

/-- A run of the procedure is on record. -/
theorem runError_invokes (stale : Bool) (s : Handshake) (err : Int) (r : Responses) :
    ∃ phase more, (runError stale s err r).trace = s.trace ++ .invoke phase :: more := by
  rw [runError_eq]
  exact ⟨phaseError,contextFree stale s.context ++ [.notify err],by simp⟩

theorem runNextPhase_invokes (stale : Bool) (s : Handshake) (err : Int) (r : Responses) :
    ∃ phase more, (runNextPhase stale s err r).trace = s.trace ++ .invoke phase :: more := by
  unfold runNextPhase
  split
  · exact runError_invokes stale s err r
  · generalize handshakeProcedure stale s.context s.nextPhase 0 r = ret
    simp only
    split
    · exact ⟨s.nextPhase,ret.events,by simp⟩
    · split
      · obtain ⟨phase,more,same⟩ := runError_invokes stale ⟨ret.nextPhase.getD s.nextPhase,!ret.aborts,ret.context,
          ret.self,s.trace ++ [.invoke s.nextPhase] ++ ret.events⟩ ret.err r
        exact ⟨s.nextPhase,ret.events ++ .invoke phase :: more,by rw [same]; simp⟩
      · split
        · exact ⟨s.nextPhase,ret.events ++ [.notify 0],by simp⟩
        · exact ⟨s.nextPhase,ret.events,by simp⟩

/-- An error ends a handshake that goes on. -/
theorem Waiting.ends (waiting : Waiting s) (stale : Bool) {err : Int} (failed : err ≠ 0) (r : Responses) :
    Ended (runError stale s err r) := by
  rw [runError_eq,List.append_assoc]
  refine ⟨rfl,rfl,?_,?_⟩
  · rw [freedOnce_append (early_append waiting.early (invoke_early (fun e member => absurd member List.not_mem_nil) _))]
    exact freedOnce_error failed
  · exact List.mem_append_right _ (List.mem_append_left _ (free_mem_contextFree stale s.context))

/-- What the completion of an I/O comes to. -/
theorem next_stage (stale : Bool) (waiting : Waiting s) (round : Round) :
    Succeeds s round ∧ (Waiting (s.next stale round) ∨ Ended (s.next stale round) ∨
      (s.next stale round).running = false ∧ (s.next stale round).context ≠ none ∧
        FreedOnce (s.next stale round).trace) ∨
      ¬ Succeeds s round ∧ Spoiled (s.next stale round).trace := by
  by_cases passed : round.err = 0
  · obtain ⟨c,-,advance⟩ := next_advance stale waiting passed
    have before := early_append (waiting.completes round).1.early (invoke_early (entry_early s.nextPhase) s.nextPhase)
    have inside {more : List HandshakeEvent} (inner : ∀ e ∈ more, e.exchange) :=
      early_append before (fun e member => exchange_early (inner e member))
    cases advance with
    | @waits c phase more same fine socket next buffer inner =>
      rw [same]
      exact Or.inl ⟨fine,Or.inl ⟨rfl,⟨c,rfl,buffer⟩,Or.inr next,inside inner⟩⟩
    | @aborts c phase more same fine inner =>
      rw [same]
      exact Or.inl ⟨fine,Or.inr (Or.inr ⟨rfl,Option.some_ne_none c,freedOnce_early (inside inner)⟩)⟩
    | exits same fine inner =>
      rw [same]
      refine Or.inl ⟨fine,Or.inr (Or.inl ⟨rfl,rfl,?_,?_⟩)⟩
      · exact (freedOnce_append (inside inner)).mpr freedOnce_exit
      · exact List.mem_append_right _ (List.mem_cons_of_mem _ List.mem_cons_self)
    | @fails c phase err more same broken inner =>
      rw [same]
      refine Or.inr ⟨broken,?_⟩
      rw [← List.append_assoc]
      exact spoiled_invoke (List.mem_append_right _ (free_mem_contextFree stale (some c))) phaseError _
  · have ended := (waiting.completes round).1.ends stale passed round.responses
    rw [Handshake.next,if_pos waiting.running,runNextPhase,if_pos passed]
    exact Or.inl ⟨fun _ none => absurd none passed,Or.inr (Or.inl ended)⟩

end Steps

namespace Attempt
variable {stale : Bool} {s s' : Attempt} {o : Occurrence}

/-- Nothing has gone wrong with the context: the handshake waits for its I/O, is over, or has aborted. -/
inductive Sane (s : Attempt) : Prop
  | waits (waiting : Waiting s.handshake)
  | ended (ended : Ended s.handshake)
  | aborts (stopped : s.handshake.running = false) (context : s.handshake.context ≠ none) (quiet : s.pending = false)
    (freed : FreedOnce s.handshake.trace)

theorem Sane.freedOnce (sane : Sane s) : FreedOnce s.handshake.trace := by
  cases sane with
  | waits waiting => exact freedOnce_early waiting.early
  | ended ended => exact ended.freed
  | aborts _ _ _ freed => exact freed

theorem errorCancel_ne : errorCancel ≠ 0 := by decide

theorem proceed_extends (stale : Bool) (s : Attempt) (r : Responses) :
    ∃ more, (s.proceed stale r).handshake.trace = s.handshake.trace ++ more := by
  unfold proceed
  split
  · obtain ⟨phase,more,same⟩ := runError_invokes stale s.handshake errorCancel r
    exact ⟨_,same⟩
  · exact ⟨[],(List.append_nil _).symm⟩

theorem proceed_stopped (stopped : s.handshake.running = false) (r : Responses) :
    s.proceed stale r = {s with pending := false} := by
  rw [Attempt.proceed,if_neg (fun both => Bool.false_ne_true (stopped.symm.trans both.1)),stopped]

theorem proceed_sane (waiting : Waiting s.handshake) (r : Responses) : Sane (s.proceed stale r) := by
  unfold proceed
  split
  · exact .ended (waiting.ends stale errorCancel_ne r)
  · exact .waits waiting

theorem completes_extends (s : Handshake) (round : Round) : ∃ more, (s.completes round).trace = s.trace ++ more := by
  unfold Handshake.completes
  split
  · split
    · exact ⟨[],(List.append_nil _).symm⟩
    · split
      · exact ⟨_,rfl⟩
      · split
        · exact ⟨_,rfl⟩
        · exact ⟨[],(List.append_nil _).symm⟩
  · exact ⟨[],(List.append_nil _).symm⟩

/-- The record only grows. -/
theorem step_extends (step : s.step stale o = some s') :
    ∃ more, s'.handshake.trace = s.handshake.trace ++ more := by
  cases o with
  | complete round =>
    simp only [Attempt.step,Option.ite_none_right_eq_some,Option.some.injEq] at step
    obtain ⟨-,rfl⟩ := step
    obtain ⟨first,same⟩ := completes_extends s.handshake round
    obtain ⟨phase,second,same'⟩ := runNextPhase_invokes stale (s.handshake.completes round) round.err round.responses
    obtain ⟨third,same''⟩ := proceed_extends stale
      {s with handshake := runNextPhase stale (s.handshake.completes round) round.err round.responses} round.responses
    exact ⟨first ++ .invoke phase :: second ++ third,by rw [same'',same',same]; simp⟩
  | cancel notifies r =>
    simp only [Attempt.step] at step
    split at step
    · cases step
    · split at step
      · cases step
        obtain ⟨phase,more,same⟩ := runError_invokes stale s.handshake errorCancel r
        exact ⟨_,same⟩
      · simp only [Option.ite_none_right_eq_some,Option.some.injEq] at step
        obtain ⟨-,rfl⟩ := step
        exact ⟨[],(List.append_nil _).symm⟩

/-- A completed I/O either finds its phase fit to go on, or leads to a call of the procedure with freed memory. -/
theorem complete_sane (sane : Sane s) {round : Round} (step : s.step stale (.complete round) = some s') :
    s.Sound (.complete round) ∧ Sane s' ∨ ¬ s.Sound (.complete round) ∧ Spoiled s'.handshake.trace := by
  simp only [Attempt.step,Option.ite_none_right_eq_some,Option.some.injEq] at step
  obtain ⟨pending,rfl⟩ := step
  cases sane with
  | waits waiting =>
    have stage := next_stage stale waiting round
    rw [Handshake.next,if_pos waiting.running] at stage
    generalize runNextPhase stale (s.handshake.completes round) round.err round.responses = next at stage ⊢
    rcases stage with ⟨fine,again | ended | ⟨stopped,context,freed⟩⟩ | ⟨broken,spoiled⟩
    · exact Or.inl ⟨⟨waiting.running,fine⟩,proceed_sane again round.responses⟩
    · refine Or.inl ⟨⟨waiting.running,fine⟩,.ended ?_⟩
      rw [proceed_stopped ended.stopped]
      exact ended
    · refine Or.inl ⟨⟨waiting.running,fine⟩,?_⟩
      rw [proceed_stopped stopped]
      exact .aborts stopped context rfl freed
    · obtain ⟨more,same⟩ := proceed_extends stale {s with handshake := next} round.responses
      refine Or.inr ⟨fun sound => broken sound.2,?_⟩
      rw [same]
      exact spoiled.append more
  | ended ended =>
    refine Or.inr ⟨fun sound => Bool.false_ne_true (ended.stopped.symm.trans sound.1),?_⟩
    have same : s.handshake.completes round = s.handshake := by
      simp only [Handshake.completes,ended.context]
    rw [same]
    obtain ⟨phase,more,same⟩ := runNextPhase_invokes stale s.handshake round.err round.responses
    obtain ⟨last,same'⟩ := proceed_extends stale
      {s with handshake := runNextPhase stale s.handshake round.err round.responses} round.responses
    rw [same',same]
    exact (spoiled_invoke ended.gone phase more).append last
  | aborts _ _ quiet _ => exact absurd (quiet.symm.trans pending) Bool.false_ne_true

/-- So does a cancel that notifies. -/
theorem cancel_sane (sane : Sane s) {notifies : Bool} {r : Responses}
    (step : s.step stale (.cancel notifies r) = some s') :
    s.Sound (.cancel notifies r) ∧ Sane s' ∨ ¬ s.Sound (.cancel notifies r) ∧ Spoiled s'.handshake.trace := by
  simp only [Attempt.step] at step
  split at step
  · cases step
  · next going =>
    split at step
    · next notified =>
      cases step
      cases sane with
      | waits waiting => exact Or.inl ⟨fun _ => waiting.running,.ended (waiting.ends stale errorCancel_ne r)⟩
      | ended ended =>
        refine Or.inr ⟨fun sound => Bool.false_ne_true (ended.stopped.symm.trans (sound notified)),?_⟩
        obtain ⟨phase,more,same⟩ := runError_invokes stale s.handshake errorCancel r
        change Spoiled (runError stale s.handshake errorCancel r).trace
        rw [same]
        exact spoiled_invoke ended.gone phase more
      | aborts stopped context _ _ =>
        refine absurd ?_ going
        rw [Attempt.aborted,stopped,Option.isSome_iff_ne_none.mpr context]
        rfl
    · next quiet =>
      simp only [Option.ite_none_right_eq_some,Option.some.injEq] at step
      obtain ⟨pending,rfl⟩ := step
      refine Or.inl ⟨fun notified => absurd notified quiet,?_⟩
      cases sane with
      | waits waiting => exact .waits waiting
      | ended ended => exact .ended ended
      | aborts _ _ unused _ => exact absurd (unused.symm.trans pending) Bool.false_ne_true

theorem step_sane (sane : Sane s) (step : s.step stale o = some s') :
    s.Sound o ∧ Sane s' ∨ ¬ s.Sound o ∧ Spoiled s'.handshake.trace := by
  cases o with
  | complete round => exact complete_sane sane step
  | cancel notifies r => exact cancel_sane sane step

/-- What has gone wrong stays so. -/
theorem run_spoiled {occurrences : List Occurrence} (spoiled : Spoiled s.handshake.trace)
    (run : occurrences.foldlM (Attempt.step stale) s = some s') : Spoiled s'.handshake.trace := by
  induction occurrences generalizing s with
  | nil =>
    cases run
    exact spoiled
  | cons o occurrences ih =>
    rw [List.foldlM_cons] at run
    obtain ⟨next,step,rest⟩ := Option.bind_eq_some_iff.mp run
    obtain ⟨more,same⟩ := step_extends step
    refine ih ?_ rest
    rw [same]
    exact spoiled.append more

/-- From a sane handshake on, the context is freed once exactly if every occurrence is sound. -/
theorem run_freed {occurrences : List Occurrence} (sane : Sane s)
    (run : occurrences.foldlM (Attempt.step stale) s = some s') : FreedOnce s'.handshake.trace ↔
      ∀ i, ∀ o ∈ occurrences[i]?, ∀ before ∈ (occurrences.take i).foldlM (Attempt.step stale) s, before.Sound o := by
  induction occurrences generalizing s with
  | nil =>
    cases run
    exact iff_of_true sane.freedOnce (fun i o found => by cases found)
  | cons o occurrences ih =>
    rw [List.foldlM_cons] at run
    obtain ⟨next,step,rest⟩ := Option.bind_eq_some_iff.mp run
    have split : (∀ i, ∀ o' ∈ (o :: occurrences)[i]?,
        ∀ before ∈ ((o :: occurrences).take i).foldlM (Attempt.step stale) s, before.Sound o') ↔
        s.Sound o ∧ ∀ i, ∀ o' ∈ occurrences[i]?,
          ∀ before ∈ (occurrences.take i).foldlM (Attempt.step stale) next, before.Sound o' := by
      constructor
      · refine fun all => ⟨all 0 o rfl s rfl,fun i o' found before here => all (i + 1) o' found before ?_⟩
        rw [List.take_succ_cons,List.foldlM_cons,step]
        exact here
      · rintro ⟨first,others⟩ i o' found before here
        cases i with
        | zero =>
          cases found
          cases here
          exact first
        | succ i =>
          rw [List.take_succ_cons,List.foldlM_cons,step] at here
          exact others i o' found before here
    rw [split]
    rcases step_sane sane step with ⟨sound,again⟩ | ⟨broken,spoiled⟩
    · rw [ih again rest,and_iff_right sound]
    · exact iff_of_false (run_spoiled spoiled rest).not_freedOnce (fun all => broken all.1)

end Attempt

/-- The context of a handshake is freed once exactly if no phase fails by itself, and no I/O completes and no cancel
notifies once the handshake is over. -/
theorem attempt_freed_iff {stale : Bool} {r : Responses} {occurrences : List Occurrence} {s : Attempt}
    (run : attempt stale r occurrences = some s) : FreedOnce s.handshake.trace ↔
      ∀ i, ∀ o ∈ occurrences[i]?, ∀ before ∈ attempt stale r (occurrences.take i), before.Sound o :=
  Attempt.run_freed (.waits (handshakeStart_waiting stale r)) run

section Decisions

instance (c : HandshakeContext) (r : Responses) : Decidable (Proceeds c r) := by
  unfold Proceeds
  infer_instance

instance (c : HandshakeContext) (r : Responses) : Decidable (Initializes c r) := by
  unfold Initializes
  infer_instance

instance (s : Handshake) (round : Round) : Decidable (Succeeds s round) := by
  unfold Succeeds
  infer_instance

instance (s : Attempt) (o : Occurrence) : Decidable (s.Sound o) := by
  unfold Attempt.Sound
  split <;> infer_instance

end Decisions

def greeting : Responses :=
  ⟨secOk,fun input => if input.isSome = true then ⟨secOk,[]⟩ else ⟨continueNeeded,[1]⟩,some [],0⟩

/-- The last cancel finds the receive, and the answer of the server is already there. -/
def accepting : List Occurrence :=
  [.complete ⟨0,[],greeting⟩,.complete ⟨0,[],greeting⟩,.cancel false greeting,.complete ⟨0,[7],greeting⟩]

theorem attempt_freed_iff_accepting : ∃ s, attempt false greeting accepting = some s ∧
    .notify 0 ∈ s.handshake.trace ∧ s.canceled = true ∧ FreedOnce s.handshake.trace := by
  have holds : (attempt false greeting accepting).any
      (fun s => decide (.notify 0 ∈ s.handshake.trace ∧ s.canceled = true)) = true := by decide
  obtain ⟨s,run,holds⟩ := (Option.any_eq_true ..).mp holds
  obtain ⟨told,canceled⟩ := of_decide_eq_true holds
  refine ⟨s,run,told,canceled,(attempt_freed_iff run).mpr ?_⟩
  have sound : ∀ i < 4, ∀ o ∈ accepting[i]?, ∀ before ∈ attempt false greeting (accepting.take i),
      before.Sound o := by decide
  intro i o found
  exact sound i (List.getElem?_eq_some_iff.mp found).1 o found

/-- The socket is connected and `AcquireCredentialsHandle` fails. -/
def unacquired : Responses := ⟨-2146893039,fun _ => ⟨continueNeeded,[]⟩,none,0⟩

/-- A phase that fails by itself, and a cancel that finds the handshake looking up the name. -/
theorem context_freed_twice :
    (∃ s, attempt false unacquired [.complete ⟨0,[],unacquired⟩] = some s ∧ ¬ FreedOnce s.handshake.trace) ∧
    ∃ s, attempt false unacquired [.cancel true unacquired,.complete ⟨error,[],unacquired⟩] = some s ∧
      ¬ FreedOnce s.handshake.trace := by
  have acquires : (attempt false unacquired [.complete ⟨0,[],unacquired⟩]).map (·.handshake.trace) =
      some ([.invoke 0,.create,.invoke 1,.addRef] ++ .free :: [.release,.invoke phaseError,.free,.notify error]) := by
    decide
  have looks : (attempt false unacquired [.cancel true unacquired,.complete ⟨error,[],unacquired⟩]).map
      (·.handshake.trace) = some ([.invoke 0,.invoke phaseError] ++
        .free :: [.notify errorCancel,.invoke phaseError,.free,.notify error]) := by decide
  obtain ⟨s,run,trace⟩ := Option.map_eq_some_iff.mp acquires
  obtain ⟨s',run',trace'⟩ := Option.map_eq_some_iff.mp looks
  refine ⟨⟨s,run,?_⟩,s',run',?_⟩
  · exact Spoiled.not_freedOnce ⟨_,_,phaseError,trace,by simp⟩
  · exact Spoiled.not_freedOnce ⟨_,_,phaseError,trace',by simp⟩

end Xrossfire.Ssl
