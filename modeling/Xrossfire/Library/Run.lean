import Mathlib

/-! Runs of a step relation and the properties every step preserves, runs of a
machine on events, and these kept together with a record of what has happened. -/
namespace Xrossfire.Library
open Relation

section Invariants
variable {σ : Type} {step : σ → σ → Prop}

/-- What each step keeps holds after every run. -/
theorem run_invariant {inv : σ → Prop} (keeps : ∀ s s', inv s → step s s' → inv s') {s s' : σ}
    (run : ReflTransGen step s s') (start : inv s) : inv s' := by
  induction run with
  | refl => exact start
  | tail _ last ih => exact keeps _ _ ih last

end Invariants

section Machines
variable {σ ε : Type} (step : σ → ε → Option σ) (allowed : σ → ε → Prop)

/-- One step of a machine, on an event allowed there. -/
def Permitted (s s' : σ) : Prop := ∃ event, allowed s event ∧ step s event = some s'

def perform [∀ s event, Decidable (allowed s event)] (s : σ) : List ε → Option σ
  | [] => some s
  | event :: events => if allowed s event then (step s event).bind (fun s' => perform s' events) else none

variable {step allowed}

theorem perform_steps [∀ s event, Decidable (allowed s event)] {events : List ε} {s s' : σ}
    (run : perform step allowed s events = some s') : ReflTransGen (Permitted step allowed) s s' := by
  induction events generalizing s with
  | nil =>
    cases run
    exact .refl
  | cons event events ih =>
    simp only [perform,Option.ite_none_right_eq_some] at run
    obtain ⟨fine,run⟩ := run
    obtain ⟨c,here,rest⟩ := Option.bind_eq_some_iff.mp run
    exact .head ⟨event,fine,here⟩ (ih rest)

/-- A run that ends in a state with the property. -/
theorem perform_reachable [∀ s event, Decidable (allowed s event)] (events : List ε) {s : σ} {p : σ → Bool}
    (run : (perform step allowed s events).any p = true) :
    ∃ s', ReflTransGen (Permitted step allowed) s s' ∧ p s' = true := by
  obtain ⟨s',here,holds⟩ := (Option.any_eq_true ..).mp run
  exact ⟨s',perform_steps here,holds⟩

end Machines

section Records
variable {σ ε ρ : Type} (step : σ → ε → Option σ) (record : ρ → σ → ε → ρ) (allowed : ρ → σ → ε → Prop)

def Recorded (s s' : ρ × σ) : Prop :=
  ∃ event, allowed s.1 s.2 event ∧ step s.2 event = some s'.2 ∧ s'.1 = record s.1 s.2 event

def retrace [∀ r c event, Decidable (allowed r c event)] (s : ρ × σ) : List ε → Option (ρ × σ)
  | [] => some s
  | event :: events =>
    if allowed s.1 s.2 event then
      (step s.2 event).bind (fun c => retrace (record s.1 s.2 event,c) events)
    else none

variable {step record allowed}

theorem retrace_steps [∀ r c event, Decidable (allowed r c event)] {events : List ε} {s s' : ρ × σ}
    (run : retrace step record allowed s events = some s') : ReflTransGen (Recorded step record allowed) s s' := by
  induction events generalizing s with
  | nil =>
    cases run
    exact .refl
  | cons event events ih =>
    simp only [retrace,Option.ite_none_right_eq_some] at run
    obtain ⟨fine,run⟩ := run
    obtain ⟨c,here,rest⟩ := Option.bind_eq_some_iff.mp run
    exact .head ⟨event,fine,here,rfl⟩ (ih rest)

/-- A recorded run that ends in a state with the property. -/
theorem retrace_reachable [∀ r c event, Decidable (allowed r c event)] (events : List ε) {s : ρ × σ}
    {p : ρ × σ → Bool} (run : (retrace step record allowed s events).any p = true) :
    ∃ s', ReflTransGen (Recorded step record allowed) s s' ∧ p s' = true := by
  obtain ⟨s',here,holds⟩ := (Option.any_eq_true ..).mp run
  exact ⟨s',retrace_steps here,holds⟩

end Records

end Xrossfire.Library
