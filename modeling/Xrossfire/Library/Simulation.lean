import Xrossfire.Library.Run

/-! Two transition systems, one of which is matched by runs of the other. What
holds in all runs of the second is then known in the runs of the first. -/
namespace Xrossfire.Library
open Relation

variable {σ τ : Type} {step : σ → σ → Prop} {spec : τ → τ → Prop} {rel : σ → τ → Prop}

/-- Each step is matched by a run of the other system, which may be empty. -/
def Simulates (step : σ → σ → Prop) (spec : τ → τ → Prop) (rel : σ → τ → Prop) : Prop :=
  ∀ s s' t, rel s t → step s s' → ∃ t', ReflTransGen spec t t' ∧ rel s' t'

theorem Simulates.run (sim : Simulates step spec rel) {s s' : σ} {t : τ} (start : rel s t)
    (run : ReflTransGen step s s') : ∃ t', ReflTransGen spec t t' ∧ rel s' t' := by
  induction run with
  | refl => exact ⟨t,.refl,start⟩
  | tail _ last ih =>
    obtain ⟨t',before,here⟩ := ih
    obtain ⟨t'',after,there⟩ := sim _ _ t' here last
    exact ⟨t'',before.trans after,there⟩

/-- An invariant of the matching system, read in the first. -/
theorem Simulates.invariant (sim : Simulates step spec rel) {inv : τ → Prop}
    (keeps : ∀ t t', inv t → spec t t' → inv t') {s s' : σ} {t : τ} (start : rel s t) (holds : inv t)
    (run : ReflTransGen step s s') : ∃ t', rel s' t' ∧ inv t' := by
  obtain ⟨t',matching,there⟩ := sim.run start run
  exact ⟨t',there,run_invariant keeps matching holds⟩

end Xrossfire.Library
