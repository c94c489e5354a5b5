import Xrossfire.Async.Cancellation

/-! Mutual exclusion by the monitors of the asyncs, over every run of the library. -/
namespace Xrossfire.Async
open Library

/-- One thread at a time is inside the locked sections of an async, as often as the monitor counts; and between
`xf_async_enter` and the start of an I/O no cancel comes. -/
structure Exclusive (a : Id) (c : Config) : Prop where
  one : ∀ (t u : Nat) (stack stack' : List Frame), c.threads[t]? = some stack → c.threads[u]? = some stack' →
    ∀ f ∈ stack, ∀ g ∈ stack', f.holds a = true → g.holds a = true → t = u
  depth : ∀ (t : Nat) (stack : List Frame), c.threads[t]? = some stack → (c.world.asyncs a).owner = some t →
    (c.world.asyncs a).depth = stack.countP (·.holds a)
  free : (c.world.asyncs a).owner = none ↔ ∀ f ∈ c.threads.flatten, f.holds a = false
  uncancelled : ∀ f ∈ c.threads.flatten, f.starts a = true → (c.world.asyncs a).canceled = false

section
variable {a : Id} {c : Config} {t : Nat} {stack : List Frame} {f : Frame}

/-- Who is inside a locked section owns the monitor. -/
theorem Monitored.inside (monitored : Monitored a c) (here : c.threads[t]? = some stack) (member : f ∈ stack)
    (holds : f.holds a = true) : (c.world.asyncs a).owner = some t := by
  have some : 0 < stack.countP (·.holds a) := List.countP_pos_iff.mpr ⟨f,member,holds⟩
  rw [(monitored.stack t stack here).entered,Object.entered] at some
  by_contra other
  rw [if_neg other] at some
  exact Nat.lt_irrefl 0 some

theorem Monitored.owner_inside (monitored : Monitored a c) (owner : (c.world.asyncs a).owner = some t) :
    ∃ stack, c.threads[t]? = some stack ∧ 0 < stack.countP (·.holds a) := by
  have deep : 0 < (c.world.asyncs a).depth := by
    apply Nat.pos_of_ne_zero
    intro zero
    rw [monitored.owned.mpr zero] at owner
    cases owner
  have entered : (c.world.asyncs a).entered t = (c.world.asyncs a).depth := if_pos owner
  have bound : t < c.threads.length := by
    by_contra beyond
    have none := monitored.outside t (Nat.le_of_not_lt beyond)
    omega
  have here := List.getElem?_eq_getElem bound
  refine ⟨_,here,?_⟩
  rw [(monitored.stack t _ here).entered,entered]
  exact deep

theorem Monitored.free (monitored : Monitored a c) :
    (c.world.asyncs a).owner = none ↔ ∀ f ∈ c.threads.flatten, f.holds a = false := by
  constructor
  · intro none f member
    obtain ⟨stack,inside,member⟩ := List.mem_flatten.mp member
    obtain ⟨t,here⟩ := List.mem_iff_getElem?.mp inside
    by_contra holds
    have owner := monitored.inside here member (Bool.not_eq_false _ ▸ holds)
    rw [none] at owner
    cases owner
  · intro outside
    cases owner : (c.world.asyncs a).owner with
    | none => rfl
    | some t =>
      obtain ⟨stack,here,some⟩ := monitored.owner_inside owner
      obtain ⟨f,member,holds⟩ := List.countP_pos_iff.mp some
      have none := outside f (List.mem_flatten.mpr ⟨stack,List.mem_of_getElem? here,member⟩)
      rw [none] at holds
      cases holds

theorem reachable_exclusive {allowed : Config → Event → Prop} (run : Reachable allowed c) (made : a < c.world.next) :
    Exclusive a c := by
  have flagged : Flagged a c := reachable_flagged run
  have monitored := flagged.monitored made
  refine ⟨?_,?_,monitored.free,fun f member starts => flagged.uncancelled made f member starts⟩
  · intro t u stack stack' here there f member g member' holds holds'
    have first := monitored.inside here member holds
    have second := monitored.inside there member' holds'
    exact Option.some.inj (first.symm.trans second)
  · intro t stack here owner
    rw [(monitored.stack t stack here).entered]
    exact (if_pos owner).symm

end

/-- A receive is about to start while another thread asks for a cancel. -/
def startingReceive : List Event :=
  [.spawn,.run 0 (.acts (.new .async false none true)),.run 0 (.acts (.call 0 (.operation .receive))),
    .run 0 .ok,.run 0 .ok,.spawn,.run 1 (.acts (.call 0 .cancel)),.run 1 .ok]

theorem reachable_exclusive_starting : ∃ c, Reachable (fun _ _ => True) c ∧
    (∃ f ∈ c.threads.flatten, f.starts 0 = true) ∧ Exclusive 0 c := by
  obtain ⟨c,run,holds⟩ : ∃ c, Reachable (fun _ _ => True) c ∧
      decide (0 < c.world.next ∧ ∃ f ∈ c.threads.flatten, f.starts 0 = true) = true :=
    replay_reachable startingReceive (by decide)
  obtain ⟨made,starts⟩ := of_decide_eq_true holds
  exact ⟨c,run,starts,reachable_exclusive run made⟩

end Xrossfire.Async
