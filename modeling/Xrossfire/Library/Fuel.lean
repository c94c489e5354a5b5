import Mathlib

/-! Recursions bounded by fuel, read as results that do not depend on the fuel. -/
namespace Xrossfire.Library

variable {β : Type}

def Yields (f : Nat → Option β) (r : β) : Prop := ∃ fuel, f fuel = some r

/-- The computation ends, and `r` is its result at whatever fuel suffices. -/
def Returns (f : Nat → Option β) (r : β) : Prop := Yields f r ∧ ∀ r', Yields f r' → r' = r

def Settles (f : Nat → Option β) : Prop := ∀ fuel r, f fuel = some r → f (fuel + 1) = some r

theorem Settles.le {f : Nat → Option β} (settles : Settles f) {low high : Nat} (le : low ≤ high) {r : β}
    (run : f low = some r) : f high = some r := by
  induction le with
  | refl => exact run
  | step _ ih => exact settles _ r ih

theorem Settles.unique {f : Nat → Option β} (settles : Settles f) {r r' : β} (first : Yields f r)
    (second : Yields f r') : r = r' := by
  obtain ⟨low,run⟩ := first
  obtain ⟨high,run'⟩ := second
  have one := settles.le (Nat.le_max_left low high) run
  have two := settles.le (Nat.le_max_right low high) run'
  exact Option.some.inj (one.symm.trans two)

theorem Settles.returns {f : Nat → Option β} (settles : Settles f) {r : β} (run : Yields f r) :
    Returns f r := ⟨run,fun _ other => settles.unique other run⟩

theorem Settles.map {γ : Type} {f : Nat → Option β} (settles : Settles f) (g : β → γ) :
    Settles (fun fuel => (f fuel).map g) := by
  intro fuel r run
  obtain ⟨x,call,rfl⟩ := Option.map_eq_some_iff.mp run
  exact Option.map_eq_some_iff.mpr ⟨x,settles fuel x call,rfl⟩

theorem Settles.const (r : Option β) : Settles (fun _ => r) := fun _ _ run => run

theorem Yields.const (r : β) : Yields (fun _ => some r) r := ⟨0,rfl⟩

theorem Settles.bind {γ : Type} {f : Nat → Option β} {g : β → Nat → Option γ} (settles : Settles f)
    (next : ∀ x, Settles (g x)) : Settles (fun fuel => (f fuel).bind (fun x => g x fuel)) := by
  intro fuel r run
  obtain ⟨x,call,rest⟩ := Option.bind_eq_some_iff.mp run
  exact Option.bind_eq_some_iff.mpr ⟨x,settles fuel x call,next x fuel r rest⟩

theorem Yields.bind {γ : Type} {f : Nat → Option β} {g : β → Nat → Option γ} {x : β} {y : γ}
    (first : Yields f x) (second : Yields (g x) y) (settles : Settles f) (next : Settles (g x)) :
    Yields (fun fuel => (f fuel).bind (fun x => g x fuel)) y := by
  obtain ⟨low,run⟩ := first
  obtain ⟨high,rest⟩ := second
  exact ⟨max low high,Option.bind_eq_some_iff.mpr ⟨x,settles.le (Nat.le_max_left low high) run,
    next.le (Nat.le_max_right low high) rest⟩⟩

theorem Returns.map {γ : Type} {f : Nat → Option β} {r : β} (run : Returns f r) (settles : Settles f)
    (g : β → γ) : Returns (fun fuel => (f fuel).map g) (g r) := by
  obtain ⟨⟨fuel,call⟩,-⟩ := run
  exact (settles.map g).returns ⟨fuel,by simp only [call,Option.map_some]⟩

end Xrossfire.Library
