import Xrossfire.Library.Run

/-! A service that hands out what is first among the entries it holds, under any relation, and the order in which
entries come out over a whole run. -/
namespace Xrossfire.Library
open Relation

/-- What happens to an entry: it is given to the service, handed out in its turn, or withdrawn. -/
inductive Change (κ : Type)
  | added (k : κ)
  | taken (k : κ)
  | dropped (k : κ)

structure Service (κ : Type) where
  pending : Set κ
  /-- The newest change first. -/
  log : List (Change κ)

section
variable {κ : Type} (before : κ → κ → Prop)

inductive Serves : Service κ → Service κ → Prop
  | add (s : Service κ) (k : κ) (fresh : .added k ∉ s.log) : Serves s ⟨insert k s.pending,.added k :: s.log⟩
  | take (s : Service κ) (k : κ) (held : k ∈ s.pending) (first : ∀ j ∈ s.pending, ¬before j k) :
      Serves s ⟨s.pending \ {k},.taken k :: s.log⟩
  | drop (s : Service κ) (k : κ) (held : k ∈ s.pending) : Serves s ⟨s.pending \ {k},.dropped k :: s.log⟩

/-- Whatever was there and comes before an entry that is handed out has left already. -/
def Unovertaken (log : List (Change κ)) : Prop :=
  ∀ later earlier k, log = later ++ .taken k :: earlier → ∀ j, before j k → .added j ∈ earlier →
    .taken j ∈ earlier ∨ .dropped j ∈ earlier

def Held (s : Service κ) : Prop :=
  ∀ k, .added k ∈ s.log → k ∈ s.pending ∨ .taken k ∈ s.log ∨ .dropped k ∈ s.log

variable {before}

theorem Unovertaken.cons {log : List (Change κ)} {change : Change κ} (unovertaken : Unovertaken before log)
    (turn : ∀ k, change = .taken k → ∀ j, before j k → .added j ∈ log → .taken j ∈ log ∨ .dropped j ∈ log) :
    Unovertaken before (change :: log) := by
  intro later earlier k split
  cases later with
  | nil =>
    obtain ⟨here,rfl⟩ := List.cons_eq_cons.mp split
    exact turn k here
  | cons c later => exact unovertaken later earlier k (List.cons_eq_cons.mp split).2

theorem Held.remove {s : Service κ} {k : κ} {change : Change κ} (held : Held s)
    (leaves : change = .taken k ∨ change = .dropped k) : Held ⟨s.pending \ {k},change :: s.log⟩ := by
  intro j given
  have old : .added j ∈ s.log := by
    rcases List.mem_cons.mp given with new | old
    · rcases leaves with rfl | rfl <;> cases new
    · exact old
  by_cases same : j = k
  · subst same
    rcases leaves with rfl | rfl <;> simp
  · rcases held j old with there | taken | dropped
    · exact Or.inl ⟨there,same⟩
    · exact Or.inr (Or.inl (List.mem_cons_of_mem _ taken))
    · exact Or.inr (Or.inr (List.mem_cons_of_mem _ dropped))

theorem Serves.step {s s' : Service κ} (held : Held s) (unovertaken : Unovertaken before s.log)
    (serves : Serves before s s') : Held s' ∧ Unovertaken before s'.log := by
  cases serves with
  | add k fresh =>
    refine ⟨?_,unovertaken.cons (fun _ impossible => by cases impossible)⟩
    intro j given
    rcases List.mem_cons.mp given with new | old
    · cases new
      exact Or.inl (Set.mem_insert ..)
    · rcases held j old with there | taken | dropped
      · exact Or.inl (Set.mem_insert_of_mem _ there)
      · exact Or.inr (Or.inl (List.mem_cons_of_mem _ taken))
      · exact Or.inr (Or.inr (List.mem_cons_of_mem _ dropped))
  | take k here first =>
    refine ⟨held.remove (Or.inl rfl),unovertaken.cons ?_⟩
    intro i same j sooner given
    cases same
    rcases held j given with there | gone
    · exact absurd sooner (first j there)
    · exact gone
  | drop k here =>
    exact ⟨held.remove (Or.inr rfl),unovertaken.cons (fun _ impossible => by cases impossible)⟩

theorem served_unovertaken {s : Service κ} (run : ReflTransGen (Serves before) ⟨∅,[]⟩ s) :
    Unovertaken before s.log := by
  have start : Held (⟨∅,[]⟩ : Service κ) ∧ Unovertaken before [] := by
    constructor
    · intro k given
      cases given
    · intro later earlier k split
      simp at split
  have keeps : ∀ s s' : Service κ, Held s ∧ Unovertaken before s.log → Serves before s s' →
      Held s' ∧ Unovertaken before s'.log := fun _ _ holds serves => serves.step holds.1 holds.2
  exact (run_invariant keeps run start).2

end

end Xrossfire.Library
