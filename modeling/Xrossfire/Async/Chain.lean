import Xrossfire.Async.Object
import Xrossfire.Timeout.Pass

/-! `xf_async_cancel` down a chain of child asyncs, over the timer tree it takes
their timers from. The timer of an async is the tree node at its own address.
The traversal ends with what it does at the end of the chain. -/
namespace Xrossfire.Async.Chain
open Avltree Library

/-- What the traversal reads and writes of an `xf_async_t` beside its timer. -/
structure Cell where
  handle : Handle
  ioType : Io
  ref : Int
  canceled : Bool
  parent : Option Addr
  child : Option Addr
  freed : Bool
deriving DecidableEq

structure State where
  queue : Timeout.Queue
  asyncs : Addr → Cell

def State.update (s : State) (a : Addr) (x : Cell) : State := {s with asyncs := Function.update s.asyncs a x}

/-- The call on `io_async` or the notify that ends the traversal. -/
inductive Directive
  | cancelIo (a : Addr)
  | notify (a : Addr) (error : Error)
deriving DecidableEq

/-- `xf_timeout_cancel(&self->timeout)`. Memory that was freed is not read. -/
def timeoutCancel (fuel : Nat) (s : State) (self : Addr) : Option (State × Bool) :=
  if (s.asyncs self).freed then none
  else (Timeout.cancel fuel s.queue self).map (fun (queue,removed) => ({s with queue := queue},removed))

/-- `xf_io_async_clear`, as far as it writes to the handle. -/
def clear (x : Cell) : Cell :=
  match x.ioType with
  | .connectPhase1 => {x with handle := .invalid}
  | _ => x

def forget (s : State) : Option Addr → Option State
  | none => some s
  | some parent =>
    if (s.asyncs parent).freed then none
    else some (s.update parent {s.asyncs parent with child := none})

def release (fuel : Nat) (s : State) (self : Addr) : Option State := do
  if (s.asyncs self).freed then none
  let x := {s.asyncs self with ref := (s.asyncs self).ref - 1}
  let s := s.update self x
  if x.ref > 0 then return s
  let (s,_) ← timeoutCancel fuel s self
  let s ← forget s x.parent
  return s.update self {clear (s.asyncs self) with freed := true}

/-- What `_cancel` does with an async that has no child; `canceled` is the answer of `xf_io_async_cancel`. -/
def directives (canceled : Bool) (x : Cell) (self : Addr) : List Directive :=
  if x.handle ≠ .invalid then
    if canceled then [.cancelIo self] else [.cancelIo self,.notify self errorCancel]
  else [.notify self errorCancel]

def _cancel (canceled : Bool) (cancel : State → Addr → Option (State × List Directive)) (s : State)
    (self : Addr) : Option (State × List Directive) :=
  let x := {s.asyncs self with canceled := true}
  if x.freed then none
  else match x.child with
  | some child => cancel (s.update self x) child
  | none => some (s.update self x,directives canceled x self)

/-- `xf_async_cancel`. -/
def cancel (canceled : Bool) : Nat → State → Addr → Option (State × List Directive)
  | 0,_,_ => none
  | fuel + 1,s,self => do
    let (s,armed) ← timeoutCancel fuel s self
    let s ← if armed then release fuel s self else some s
    _cancel canceled (cancel canceled fuel) s self

def visited (s : State) (self : Addr) (queue : Timeout.Queue) (armed : Bool) : State where
  queue := queue
  asyncs := Function.update s.asyncs self {s.asyncs self with
    canceled := true, ref := (s.asyncs self).ref - if armed then 1 else 0}

def following (canceled : Bool) (fuel : Nat) (s : State) (x : Cell) (self : Addr) :
    Option (State × List Directive) :=
  match x.child with
  | some child => cancel canceled fuel s child
  | none => some (s,directives canceled x self)

section
variable {canceled : Bool} {fuel : Nat} {s : State} {self : Addr}

theorem cancel_visit {queue : Timeout.Queue} {armed : Bool} (live : (s.asyncs self).freed = false)
    (run : Timeout.cancel fuel s.queue self = some (queue,armed))
    (shared : armed = true → 1 < (s.asyncs self).ref) :
    cancel canceled (fuel + 1) s self =
      following canceled fuel (visited s self queue armed) (s.asyncs self) self := by
  cases armed with
  | false => simp [cancel,timeoutCancel,_cancel,following,visited,State.update,live,run,directives]
  | true =>
    have kept := shared rfl
    simp [cancel,timeoutCancel,release,_cancel,following,visited,State.update,live,run,kept,directives]

/-- The release of the last reference frees the async. -/
theorem release_last {s' : State} (last : (s.asyncs self).ref ≤ 1) (run : release fuel s self = some s') :
    (s'.asyncs self).freed = true := by
  simp only [release] at run
  split at run
  · cases run
  · rw [if_neg (by simp only [gt_iff_lt,not_lt]; omega)] at run
    obtain ⟨⟨after,armed⟩,-,run⟩ := Option.bind_eq_some_iff.mp run
    obtain ⟨after,-,run⟩ := Option.bind_eq_some_iff.mp run
    cases run
    simp [State.update]

theorem _cancel_freed {cancel : State → Addr → Option (State × List Directive)}
    (freed : (s.asyncs self).freed = true) : _cancel canceled cancel s self = none := by
  simp [_cancel,freed]

/-- A traversal that has a result has visited `self` and gone on from there. -/
theorem cancel_cases {r : State × List Directive} (run : cancel canceled (fuel + 1) s self = some r) :
    ∃ queue armed, Timeout.cancel fuel s.queue self = some (queue,armed) ∧
      (s.asyncs self).freed = false ∧ (armed = true → 1 < (s.asyncs self).ref) ∧
      following canceled fuel (visited s self queue armed) (s.asyncs self) self = some r := by
  have whole := run
  obtain ⟨⟨taken,armed⟩,first,run⟩ := Option.bind_eq_some_iff.mp run
  simp only [timeoutCancel] at first
  split at first
  · cases first
  · rename_i live
    obtain ⟨⟨queue,removed⟩,call,same⟩ := Option.map_eq_some_iff.mp first
    cases same
    have live := eq_false_of_ne_true live
    have shared : removed = true → 1 < (s.asyncs self).ref := by
      intro here
      by_contra last
      subst here
      obtain ⟨after,freeing,run⟩ := Option.bind_eq_some_iff.mp run
      have freed := release_last (s := {s with queue := queue}) (not_lt.mp last) freeing
      have stuck := (_cancel_freed freed).symm.trans run
      cases stuck
    refine ⟨queue,removed,call,live,shared,?_⟩
    rw [← cancel_visit live call shared]
    exact whole

theorem cancel_settles (canceled : Bool) (s : State) (self : Addr) :
    Settles (fun fuel => cancel canceled fuel s self) := by
  intro fuel
  induction fuel generalizing s self with
  | zero =>
    intro r run
    cases run
  | succ fuel ih =>
    intro r run
    obtain ⟨queue,armed,call,live,shared,rest⟩ := cancel_cases run
    have more := Timeout.cancel_settles s.queue self fuel _ call
    simp only [cancel_visit live more shared]
    cases child : (s.asyncs self).child with
    | none =>
      simp only [following,child] at rest ⊢
      exact rest
    | some next =>
      simp only [following,child] at rest ⊢
      exact ih _ next r rest

end

/-! ## Chains -/

def Links (asyncs : Addr → Cell) : Addr → List Addr → Prop
  | c,[] => (asyncs c).child = none
  | c,d :: rest => (asyncs c).child = some d ∧ Links asyncs d rest

structure Held (s : State) (chain : List Addr) : Prop where
  live : ∀ c ∈ chain, (s.asyncs c).freed = false
  completion : ∀ c ∈ chain, 1 ≤ (s.asyncs c).ref
  timer : ∀ c ∈ chain, s.queue.linked c → 2 ≤ (s.asyncs c).ref

/-- The asyncs of the chain are cancelled and their timers gone, and nothing else has changed. -/
structure ChainCancelled (s s' : State) (chain : List Addr) : Prop where
  armed : ∀ c ∈ chain, s.queue.linked c →
    s'.asyncs c = {s.asyncs c with canceled := true, ref := (s.asyncs c).ref - 1}
  unarmed : ∀ c ∈ chain, ¬s.queue.linked c → s'.asyncs c = {s.asyncs c with canceled := true}
  gone : ∀ c ∈ chain, ¬s'.queue.linked c
  others : ∀ a ∉ chain, s'.asyncs a = s.asyncs a
  timers : ∀ a ∉ chain, s'.queue.linked a ↔ s.queue.linked a
  key : s'.queue.key = s.queue.key
  procedure : s'.queue.procedure = s.queue.procedure
  context : s'.queue.context = s.queue.context

/-- `xf_async_cancel(c)` reaches the end of the chain, and calls on there only. -/
def Obeyed (canceled : Bool) (s : State) (c : Addr) (rest : List Addr) : Prop :=
  ∃ s', Returns (fun fuel => cancel canceled fuel s c)
      (s',directives canceled (s.asyncs ((c :: rest).getLast (List.cons_ne_nil c rest)))
        ((c :: rest).getLast (List.cons_ne_nil c rest))) ∧
    ChainCancelled s s' (c :: rest)

/-- A timer of the chain that is out of the tree has the key of no entry, but of a timer that
is cancelled before it. -/
def Unshared (s : State) (chain : List Addr) : Prop :=
  ∀ low c high, chain = low ++ c :: high → ¬s.queue.linked c →
    ∀ a, s.queue.linked a → s.queue.key a = s.queue.key c → a ∈ low

theorem following_settles (canceled : Bool) (s : State) (x : Cell) (self : Addr) :
    Settles (fun fuel => following canceled fuel s x self) := by
  unfold following
  split
  · exact cancel_settles _ _ _
  · exact .const _

structure Visit (s s' : State) (c : Addr) : Prop where
  entries : ∃ ys, Timeout.Entries s'.queue ys
  linked : ∀ a, s'.queue.linked a ↔ s.queue.linked a ∧ a ≠ c
  armed : s.queue.linked c → s'.asyncs c = {s.asyncs c with canceled := true, ref := (s.asyncs c).ref - 1}
  unarmed : ¬s.queue.linked c → s'.asyncs c = {s.asyncs c with canceled := true}
  others : ∀ a ≠ c, s'.asyncs a = s.asyncs a
  key : s'.queue.key = s.queue.key
  procedure : s'.queue.procedure = s.queue.procedure
  context : s'.queue.context = s.queue.context

section
variable {s : State} {xs : List Addr} {c : Addr}

/-- The cancel of `c`'s timer finds that timer, or finds nothing. -/
theorem cancelled_own {queue : Timeout.Queue} {removed : Bool} (entries : Timeout.Entries s.queue xs)
    (clean : ¬s.queue.linked c → ∀ a, s.queue.linked a → s.queue.key a ≠ s.queue.key c)
    (result : Timeout.Cancelled s.queue xs c queue removed) : Visit s (visited s c queue removed) c := by
  have same := result.same
  have distinct := entries.distinct
  have others : ∀ a ≠ c, (visited s c queue removed).asyncs a = s.asyncs a :=
    fun a other => Function.update_of_ne other _ _
  cases removed with
  | true =>
    obtain ⟨a,low,high,carried,rfl,left⟩ := result.found rfl
    have inside : s.queue.linked a := (entries.linked a).mpr (by simp)
    have own : s.queue.linked c := by
      by_contra out
      exact clean out a inside carried
    have same' : a = c := entries.keys (by simp) ((entries.linked c).mp own) carried
    subst same'
    have apart := (List.nodup_cons.mp (List.perm_middle.nodup_iff.mp distinct)).1
    refine ⟨⟨low ++ high,left⟩,?_,?_,?_,others,same.key,same.procedure,same.context⟩
    · intro b
      change queue.linked b ↔ _
      rw [left.linked,entries.linked]
      simp only [List.mem_append,List.mem_cons] at apart ⊢
      constructor
      · intro member
        refine ⟨by tauto,?_⟩
        rintro rfl
        exact apart member
      · rintro ⟨member,other⟩
        tauto
    · intro _
      simp [visited]
    · intro out
      exact absurd own out
  | false =>
    obtain ⟨absent,rfl⟩ := result.missing rfl
    have out : ¬s.queue.linked c := by
      intro own
      exact absent c ((entries.linked c).mp own) rfl
    refine ⟨⟨xs,entries⟩,?_,?_,?_,others,rfl,rfl,rfl⟩
    · intro b
      change s.queue.linked b ↔ _
      constructor
      · intro member
        refine ⟨member,?_⟩
        rintro rfl
        exact out member
      · exact And.left
    · intro own
      exact absurd own out
    · intro _
      simp [visited]

variable (canceled : Bool)

/-- The traversal from `c` is the visit of `c` and what follows it. -/
theorem cancel_following {queue : Timeout.Queue} {armed : Bool} (live : (s.asyncs c).freed = false)
    (returns : Returns (fun fuel => Timeout.cancel fuel s.queue c) (queue,armed))
    (shared : armed = true → 1 < (s.asyncs c).ref) (r : State × List Directive) :
    Yields (fun fuel => cancel canceled fuel s c) r ↔
      Yields (fun fuel => following canceled fuel (visited s c queue armed) (s.asyncs c) c) r := by
  constructor
  · rintro ⟨fuel,run⟩
    cases fuel with
    | zero => cases run
    | succ fuel =>
      obtain ⟨after,removed,call,-,-,rest⟩ := cancel_cases run
      cases returns.2 _ ⟨fuel,call⟩
      exact ⟨fuel,rest⟩
  · rintro ⟨low,run⟩
    obtain ⟨high,call⟩ := returns.1
    refine ⟨max low high + 1,?_⟩
    have enough := (Timeout.cancel_settles s.queue c).le (Nat.le_max_right low high) call
    simp only [cancel_visit live enough shared]
    exact (following_settles canceled _ _ c).le (Nat.le_max_left low high) run

theorem visit (entries : Timeout.Entries s.queue xs) (live : (s.asyncs c).freed = false)
    (timer : s.queue.linked c → 2 ≤ (s.asyncs c).ref)
    (clean : ¬s.queue.linked c → ∀ a, s.queue.linked a → s.queue.key a ≠ s.queue.key c) :
    ∃ s', Visit s s' c ∧ ∀ r, Yields (fun fuel => cancel canceled fuel s c) r ↔
      Yields (fun fuel => following canceled fuel s' (s.asyncs c) c) r := by
  obtain ⟨queue,removed,returns,result⟩ := Timeout.cancel_spec entries c
  refine ⟨visited s c queue removed,cancelled_own entries clean result,?_⟩
  apply cancel_following canceled live returns
  rintro rfl
  obtain ⟨a,low,high,carried,rfl,-⟩ := result.found rfl
  have own : s.queue.linked c := by
    by_contra out
    exact clean out a ((entries.linked a).mpr (by simp)) carried
  have := timer own
  omega

end

theorem Links.congr {asyncs asyncs' : Addr → Cell} {c : Addr} {rest : List Addr} (links : Links asyncs c rest)
    (same : ∀ a ∈ c :: rest, (asyncs' a).child = (asyncs a).child) : Links asyncs' c rest := by
  induction rest generalizing c with
  | nil => exact (same c List.mem_cons_self).trans links
  | cons d rest ih =>
    exact ⟨(same c List.mem_cons_self).trans links.1,
      ih links.2 (fun a member => same a (List.mem_cons_of_mem _ member))⟩

theorem Links.others {asyncs asyncs' : Addr → Cell} {c d : Addr} {rest : List Addr}
    (links : Links asyncs d rest) (apart : c ∉ d :: rest) (same : ∀ a ≠ c, asyncs' a = asyncs a) :
    Links asyncs' d rest := by
  apply links.congr
  intro a member
  rw [same a]
  rintro rfl
  exact apart member

section
variable {canceled : Bool} {s s' : State} {xs : List Addr} {c d : Addr} {rest : List Addr}

/-- A traversal changes asyncs of its chain only. -/
theorem cancel_foreign {fuel : Nat} {r : State × List Directive} (links : Links s.asyncs c rest)
    (distinct : (c :: rest).Nodup) (run : cancel canceled fuel s c = some r) :
    ∀ a ∉ c :: rest, r.1.asyncs a = s.asyncs a := by
  induction rest generalizing s c fuel with
  | nil =>
    intro a out
    cases fuel with
    | zero => cases run
    | succ fuel =>
      obtain ⟨queue,armed,-,-,-,rest⟩ := cancel_cases run
      have none : (s.asyncs c).child = none := links
      simp only [following,none] at rest
      cases rest
      exact Function.update_of_ne (List.ne_of_not_mem_cons out) _ _
  | cons d rest ih =>
    intro a out
    cases fuel with
    | zero => cases run
    | succ fuel =>
      obtain ⟨queue,armed,-,-,-,rest⟩ := cancel_cases run
      obtain ⟨next,links⟩ := links
      simp only [following,next] at rest
      have others : ∀ b ≠ c, (visited s c queue armed).asyncs b = s.asyncs b :=
        fun b other => Function.update_of_ne other _ _
      obtain ⟨apart,distinct⟩ := List.nodup_cons.mp distinct
      rw [ih (links.others apart others) distinct rest a (List.not_mem_of_not_mem_cons out)]
      exact others a (List.ne_of_not_mem_cons out)

/-- A timer that is not in the tree but carries the key of one that is takes that one out. -/
theorem not_obeyed (entries : Timeout.Entries s.queue xs) (links : Links s.asyncs c rest)
    (distinct : (c :: rest).Nodup) (out : ¬s.queue.linked c) {a : Addr} (inside : s.queue.linked a)
    (carried : s.queue.key a = s.queue.key c) : ¬Obeyed canceled s c rest := by
  rintro ⟨s',⟨⟨fuel,run⟩,-⟩,done⟩
  obtain ⟨queue,removed,returns,result⟩ := Timeout.cancel_spec entries c
  have found : removed = true := by
    by_contra missing
    exact (result.missing (eq_false_of_ne_true missing)).1 a ((entries.linked a).mp inside) carried
  subst found
  cases fuel with
  | zero => cases run
  | succ fuel =>
    obtain ⟨after,armed,call,-,-,more⟩ := cancel_cases run
    cases returns.2 _ ⟨fuel,call⟩
    have own : s'.asyncs c = (visited s c queue true).asyncs c := by
      cases rest with
      | nil =>
        have none : (s.asyncs c).child = none := links
        simp only [following,none] at more
        cases more
        rfl
      | cons d rest =>
        obtain ⟨next,links⟩ := links
        simp only [following,next] at more
        obtain ⟨apart,distinct⟩ := List.nodup_cons.mp distinct
        have others : ∀ b ≠ c, (visited s c queue true).asyncs b = s.asyncs b :=
          fun b other => Function.update_of_ne other _ _
        exact cancel_foreign (links.others apart others) distinct more c apart
    have kept := done.unarmed c List.mem_cons_self out
    rw [own] at kept
    have ref := congrArg Cell.ref kept
    simp only [visited,Function.update_self,if_true] at ref
    omega

/-- With a timer out of the tree that has the key of one in it, neither holds. -/
theorem shared_iff (entries : Timeout.Entries s.queue xs) (links : Links s.asyncs c rest)
    (distinct : (c :: rest).Nodup) (out : ¬s.queue.linked c) {a : Addr} (inside : s.queue.linked a)
    (carried : s.queue.key a = s.queue.key c) : Obeyed canceled s c rest ↔ Unshared s (c :: rest) := by
  refine iff_of_false (not_obeyed entries links distinct out inside carried) ?_
  intro clean
  exact absurd (clean [] c rest rfl out a inside carried) List.not_mem_nil

theorem ChainCancelled.visit {s'' : State} (visit : Visit s s' c) (apart : c ∉ d :: rest) :
    ChainCancelled s s'' (c :: d :: rest) ↔ ChainCancelled s' s'' (d :: rest) := by
  have other : ∀ a ∈ d :: rest, a ≠ c := by
    rintro a member rfl
    exact apart member
  constructor
  · intro done
    refine ⟨?_,?_,?_,?_,?_,?_,?_,?_⟩
    · intro a member armed
      rw [visit.others a (other a member)]
      exact done.armed a (List.mem_cons_of_mem _ member) ((visit.linked a).mp armed).1
    · intro a member out
      rw [visit.others a (other a member)]
      apply done.unarmed a (List.mem_cons_of_mem _ member)
      intro inside
      exact out ((visit.linked a).mpr ⟨inside,other a member⟩)
    · intro a member
      exact done.gone a (List.mem_cons_of_mem _ member)
    · intro a out
      by_cases same : a = c
      · subst same
        by_cases armed : s.queue.linked a
        · rw [visit.armed armed,done.armed a List.mem_cons_self armed]
        · rw [visit.unarmed armed,done.unarmed a List.mem_cons_self armed]
      · rw [visit.others a same]
        exact done.others a (List.not_mem_cons_of_ne_of_not_mem same out)
    · intro a out
      rw [visit.linked]
      by_cases same : a = c
      · subst same
        have gone := done.gone a List.mem_cons_self
        tauto
      · rw [done.timers a (List.not_mem_cons_of_ne_of_not_mem same out)]
        tauto
    · rw [done.key,visit.key]
    · rw [done.procedure,visit.procedure]
    · rw [done.context,visit.context]
  · intro done
    have fixed := done.others c apart
    refine ⟨?_,?_,?_,?_,?_,?_,?_,?_⟩
    · intro a member armed
      rcases List.mem_cons.mp member with rfl | member
      · rw [fixed,visit.armed armed]
      · rw [← visit.others a (other a member)]
        exact done.armed a member ((visit.linked a).mpr ⟨armed,other a member⟩)
    · intro a member out
      rcases List.mem_cons.mp member with rfl | member
      · rw [fixed,visit.unarmed out]
      · rw [← visit.others a (other a member)]
        exact done.unarmed a member (fun inside => out ((visit.linked a).mp inside).1)
    · intro a member
      rcases List.mem_cons.mp member with rfl | member
      · rw [done.timers a apart,visit.linked]
        exact fun both => both.2 rfl
      · exact done.gone a member
    · intro a out
      rw [done.others a (List.not_mem_of_not_mem_cons out),visit.others a (List.ne_of_not_mem_cons out)]
    · intro a out
      rw [done.timers a (List.not_mem_of_not_mem_cons out),visit.linked]
      have := List.ne_of_not_mem_cons out
      tauto
    · rw [done.key,visit.key]
    · rw [done.procedure,visit.procedure]
    · rw [done.context,visit.context]

theorem Held.visit (held : Held s (c :: d :: rest)) (visit : Visit s s' c) (apart : c ∉ d :: rest) :
    Held s' (d :: rest) := by
  have same : ∀ a ∈ d :: rest, s'.asyncs a = s.asyncs a := by
    intro a member
    apply visit.others
    rintro rfl
    exact apart member
  refine ⟨?_,?_,?_⟩
  · intro a member
    rw [same a member]
    exact held.live a (List.mem_cons_of_mem _ member)
  · intro a member
    rw [same a member]
    exact held.completion a (List.mem_cons_of_mem _ member)
  · intro a member armed
    rw [same a member]
    exact held.timer a (List.mem_cons_of_mem _ member) ((visit.linked a).mp armed).1

/-- Whether the rest of the chain is free of foreign keys is the same question after the visit. -/
theorem Unshared.visit (visit : Visit s s' c) (apart : c ∉ rest) : Unshared s (c :: rest) ↔
    (¬s.queue.linked c → ∀ a, s.queue.linked a → s.queue.key a ≠ s.queue.key c) ∧ Unshared s' rest := by
  constructor
  · intro clean
    refine ⟨?_,?_⟩
    · intro out a inside same
      exact absurd (clean [] c rest rfl out a inside same) List.not_mem_nil
    · rintro low b high rfl out a inside same
      obtain ⟨inside,different⟩ := (visit.linked a).mp inside
      have outside : ¬s.queue.linked b := by
        intro linked
        apply out ((visit.linked b).mpr ⟨linked,_⟩)
        rintro rfl
        exact apart (by simp)
      rw [visit.key] at same
      have earlier := clean (c :: low) b high rfl outside a inside same
      exact List.mem_of_ne_of_mem different earlier
  · rintro ⟨first,clean⟩ low b high split out a inside same
    cases low with
    | nil =>
      cases split
      exact absurd same (first out a inside)
    | cons e low =>
      cases split
      by_cases here : a = c
      · exact List.mem_cons.mpr (Or.inl here)
      · refine List.mem_cons_of_mem _ (clean low b high rfl ?_ a ((visit.linked a).mpr ⟨inside,here⟩) ?_)
        · intro linked
          exact out ((visit.linked b).mp linked).1
        · rw [visit.key]
          exact same

end

section
variable {canceled : Bool} {s s' : State} {c d : Addr} {rest : List Addr}

/-- An async without child is the end of the traversal. -/
theorem obeyed_last (visit : Visit s s' c) (last : (s.asyncs c).child = none)
    (follows : ∀ r, Yields (fun fuel => cancel canceled fuel s c) r ↔
      Yields (fun fuel => following canceled fuel s' (s.asyncs c) c) r) : Obeyed canceled s c [] := by
  refine ⟨s',(cancel_settles canceled s c).returns ((follows _).mpr ⟨0,?_⟩),?_⟩
  · simp only [following,last]
    rfl
  · refine ⟨?_,?_,?_,?_,?_,visit.key,visit.procedure,visit.context⟩
    · intro a member
      cases List.mem_singleton.mp member
      exact visit.armed
    · intro a member
      cases List.mem_singleton.mp member
      exact visit.unarmed
    · intro a member
      cases List.mem_singleton.mp member
      rw [visit.linked]
      exact fun both => both.2 rfl
    · intro a out
      exact visit.others a (List.ne_of_not_mem_cons out)
    · intro a out
      rw [visit.linked]
      have := List.ne_of_not_mem_cons out
      tauto

/-- An async with a child hands the traversal on to it. -/
theorem obeyed_next (visit : Visit s s' c) (next : (s.asyncs c).child = some d) (apart : c ∉ d :: rest)
    (follows : ∀ r, Yields (fun fuel => cancel canceled fuel s c) r ↔
      Yields (fun fuel => following canceled fuel s' (s.asyncs c) c) r) :
    Obeyed canceled s c (d :: rest) ↔ Obeyed canceled s' d rest := by
  have handed : ∀ r, Yields (fun fuel => cancel canceled fuel s c) r ↔
      Yields (fun fuel => cancel canceled fuel s' d) r := by
    simpa only [following,next] using follows
  have last : s'.asyncs ((d :: rest).getLast (List.cons_ne_nil d rest)) =
      s.asyncs ((d :: rest).getLast (List.cons_ne_nil d rest)) := by
    apply visit.others
    intro same
    apply apart
    rw [← same]
    exact List.getLast_mem _
  have results : ∀ s'', Returns (fun fuel => cancel canceled fuel s c)
      (s'',directives canceled (s.asyncs ((d :: rest).getLast (List.cons_ne_nil d rest)))
        ((d :: rest).getLast (List.cons_ne_nil d rest))) ↔
      Returns (fun fuel => cancel canceled fuel s' d)
      (s'',directives canceled (s.asyncs ((d :: rest).getLast (List.cons_ne_nil d rest)))
        ((d :: rest).getLast (List.cons_ne_nil d rest))) := by
    intro s''
    simp only [Returns,handed]
  simp only [Obeyed,List.getLast_cons (List.cons_ne_nil d rest),last,results,
    ChainCancelled.visit visit apart]

end

/-- The traversal cancels the chain and nothing else exactly when no timer of it that is out of
the tree carries another timer's key. -/
theorem chain_cancelled_iff (canceled : Bool) (s : State) (c : Addr) (rest : List Addr)
    (tree : ∃ xs, Timeout.Entries s.queue xs) (links : Links s.asyncs c rest)
    (acyclic : (c :: rest).Nodup) (held : Held s (c :: rest)) :
    Obeyed canceled s c rest ↔ Unshared s (c :: rest) := by
  obtain ⟨xs,entries⟩ := tree
  induction rest generalizing s c xs with
  | nil =>
    by_cases first : ¬s.queue.linked c → ∀ a, s.queue.linked a → s.queue.key a ≠ s.queue.key c
    · obtain ⟨s',visit,follows⟩ := visit canceled entries (held.live c List.mem_cons_self)
        (held.timer c List.mem_cons_self) first
      have clean : Unshared s' [] := by
        rintro low b high absurd
        simp at absurd
      exact iff_of_true (obeyed_last visit links follows)
        ((Unshared.visit visit List.not_mem_nil).mpr ⟨first,clean⟩)
    · push Not at first
      obtain ⟨out,a,inside,carried⟩ := first
      exact shared_iff entries links acyclic out inside carried
  | cons d rest ih =>
    by_cases first : ¬s.queue.linked c → ∀ a, s.queue.linked a → s.queue.key a ≠ s.queue.key c
    · obtain ⟨s',visit,follows⟩ := visit canceled entries (held.live c List.mem_cons_self)
        (held.timer c List.mem_cons_self) first
      obtain ⟨apart,distinct⟩ := List.nodup_cons.mp acyclic
      obtain ⟨next,links⟩ := links
      obtain ⟨ys,left⟩ := visit.entries
      rw [obeyed_next visit next apart follows,Unshared.visit visit apart,
        ih s' d (links.others apart visit.others) distinct (held.visit visit apart) ys left]
      exact ⟨fun clean => ⟨first,clean⟩,And.right⟩
    · push Not at first
      obtain ⟨out,a,inside,carried⟩ := first
      exact shared_iff entries links acyclic out inside carried

/-! Asyncs 1 and 2 are a chain and 3 stands alone, all three with armed timers. -/

def member (child : Option Addr) : Cell := ⟨.invalid,.connectPhase1,2,false,none,child,false⟩

def pair : State := ⟨Timeout.three,fun a => member (if a = 1 then some 2 else none)⟩

theorem chain_cancelled_pair : Obeyed true pair 1 [2] := by
  have armed : ∀ c ∈ [1,2], pair.queue.linked c := by
    intro c inside
    exact (Timeout.three_numbered.entries.linked c).mpr (by simp only [List.mem_cons] at inside ⊢; tauto)
  refine (chain_cancelled_iff true pair 1 [2] ⟨_,Timeout.three_numbered.entries⟩ ⟨rfl,rfl⟩ (by decide)
    ⟨fun _ _ => rfl,?_,?_⟩).mpr ?_
  · intro c _
    exact (by decide : (1 : Int) ≤ 2)
  · intro c _ _
    exact le_refl _
  · intro low c high split out
    exact absurd (armed c (by rw [split]; simp)) out

/-- Async 4 waits without a timer; what `malloc` left in its `timeout.key` is the key of timer 3. -/
def unset : State where
  queue := {Timeout.three with
    tree := {Timeout.three.tree with nodes := Timeout.setKey Timeout.three.tree.nodes 4 ⟨2,30⟩}}
  asyncs := fun a => {member none with ref := if a = 4 then 1 else 2}

theorem other_timer_cancelled : (∃ xs, Timeout.Entries unset.queue xs) ∧ Links unset.asyncs 4 [] ∧
    Held unset [4] ∧ unset.queue.linked 3 ∧ ¬Obeyed true unset 4 [] := by
  have entries : Timeout.Entries unset.queue [1,2,3] := by
    refine Timeout.three_numbered.entries.congr rfl ?_
    intro a inside
    refine ⟨rfl,rfl,rfl,Function.update_of_ne ?_ _ _⟩
    rintro rfl
    simp at inside
  have out : ¬unset.queue.linked 4 := by
    rw [entries.linked]
    decide
  have inside : unset.queue.linked 3 := (entries.linked 3).mpr (by decide)
  refine ⟨⟨_,entries⟩,rfl,⟨?_,?_,?_⟩,inside,?_⟩
  · intro c _
    rfl
  · intro c last
    cases List.mem_singleton.mp last
    decide
  · intro c last armed
    cases List.mem_singleton.mp last
    exact absurd armed out
  · exact not_obeyed entries rfl (by decide) out inside rfl

/-- Timers that were scheduled before, or are still zero-filled, share no key. -/
theorem reachable_unshared {pollings : List Timeout.Polling} {timers : Timeout.State}
    (reach : Timeout.Reachable pollings timers) {s : State} (queue : s.queue = timers.queue)
    {chain : List Addr} (known : ∀ c ∈ chain, timers.known c) :
    (∃ xs, Timeout.Entries s.queue xs) ∧ Unshared s chain := by
  obtain ⟨xs,good⟩ := reach.good
  have entries := good.nodes.entries
  rw [← queue] at entries
  refine ⟨⟨xs,entries⟩,?_⟩
  rintro low c high rfl out a inside same
  have member := (entries.linked a).mp inside
  rw [queue] at same
  have own := good.owner (known c (by simp)) member same
  exact absurd (own ▸ inside) out

end Xrossfire.Async.Chain
