import Xrossfire.Library.Run
import Xrossfire.Library.Table

/-! The strings of `string.c`, shared by any number of threads. A release looks at the count and decrements it in two
steps, so that others may come between. -/
namespace Xrossfire.Strings
open Library Relation

abbrev Id := Nat

/-- `struct xf_string`, and whether `free` was called for it. -/
structure XfString where
  ref : Int
  length : Int
  buf : List UInt16
  freed : Bool
deriving DecidableEq

/-- Where a call is; a point stands before the read or write it is named after. -/
inductive Point
  | addRef (a : Id)
  | increment (a : Id)
  | release (a : Id)
  | decrement (a : Id)
  | free (a : Id)
  | done
deriving DecidableEq

structure State where
  strings : Id → XfString
  next : Id
  /-- The strings of `XF_STRING_INITIALIZER` come first; the first of them is `_empty`. -/
  statics : Nat
  /-- References that users have, and the characters a string was made of; no code reads them. -/
  held : Id → Nat
  texts : Id → List UInt16
  calls : List Point

/-- The value of a `LONG`. -/
def toLong (n : Int) : Int := n.bmod (2 ^ 32)

/-- `XF_STRING_INITIALIZER`. -/
def initializer (text : List UInt16) : XfString := ⟨-1,text.length,text ++ [0],false⟩

/-- What `xf_string_new` writes to a new block. -/
def fresh (text : List UInt16) : XfString := ⟨1,text.length,text ++ [0],false⟩

/-- `xf_string_equals`; `none` is NULL. -/
def equals (s : State) (self other : Option Id) : Bool :=
  if self = other then true
  else
    match self,other with
    | some a,some b =>
      if (s.strings a).length ≠ (s.strings b).length then false
      else (s.strings a).buf.take (s.strings a).length.toNat = (s.strings b).buf.take (s.strings a).length.toNat
    | _,_ => false

def advance (x : XfString) : Point → Option (XfString × Nat × Point)
  | .addRef a => some (if x.ref < 0 then (x,2,.done) else (x,0,.increment a))
  | .increment _ => some ({x with ref := toLong (x.ref + 1)},2,.done)
  | .release a => some (x,0,if x.ref < 0 then .done else .decrement a)
  | .decrement a =>
    some ({x with ref := toLong (x.ref - 1)},0,if toLong (x.ref - 1) ≤ 0 then .free a else .done)
  | .free _ => some ({x with freed := true},0,.done)
  | .done => none

def Point.subject : Point → Option Id
  | addRef a | increment a | release a | decrement a | free a => some a
  | done => none

inductive Event
  /-- `xf_string_new`, and whether `malloc` succeeds. -/
  | new (chars : List UInt16) (length : Int) (malloc : Bool)
  | addRef (self : Option Id)
  | release (self : Option Id)
  | turn (t : Nat)
deriving DecidableEq

/-- The user has a reference of the string, which the call takes over until it returns. -/
def lend (s : State) (a : Id) (point : Point) : Option State :=
  if a < s.statics then some {s with calls := s.calls ++ [point]}
  else if a < s.next ∧ 0 < s.held a then
    some {s with held := Function.update s.held a (s.held a - 1), calls := s.calls ++ [point]}
  else none

def step (s : State) : Event → Option State
  | .new chars length malloc =>
    if length ≤ 0 then some s
    else if (chars.length : Int) < length then none
    else if malloc then
      let text := chars.take length.toNat
      some {s with
        strings := Function.update s.strings s.next (fresh text)
        texts := Function.update s.texts s.next text
        held := Function.update s.held s.next 1
        next := s.next + 1}
    else some s
  | .addRef self => self.elim (some s) (fun a => lend s a (.addRef a))
  | .release self => self.elim (some s) (fun a => lend s a (.release a))
  | .turn t => do
    let p ← s.calls[t]?
    let a ← p.subject
    let (x,given,point) ← advance (s.strings a) p
    return {s with
      strings := Function.update s.strings a x
      held := Function.update s.held a (s.held a + given)
      calls := s.calls.set t point}

def start (texts : List (List UInt16)) : State where
  strings a := initializer (texts.getD a [])
  next := texts.length
  statics := texts.length
  held _ := 0
  texts a := texts.getD a []
  calls := []

/-! ## Who has references -/

namespace Point

/-- The references that a call has of the string, those it is about to add included, and its calls of `free`. -/
def uses (a : Id) : Point → Nat
  | addRef b | increment b | release b | decrement b => if b = a then 1 else 0
  | free _ | done => 0

def claims (a : Id) : Point → Nat
  | addRef b | increment b => if b = a then 2 else 0
  | release b | decrement b => if b = a then 1 else 0
  | free _ | done => 0

def frees (a : Id) : Point → Nat
  | free b => if b = a then 1 else 0
  | _ => 0

def counts : Point → Option Id
  | increment a | decrement a | free a => some a
  | addRef _ | release _ | done => none

end Point

namespace State

def uses (s : State) (a : Id) : Nat := s.held a + (s.calls.map (Point.uses a)).sum

def claims (s : State) (a : Id) : Nat := s.held a + (s.calls.map (Point.claims a)).sum

def frees (s : State) (a : Id) : Nat := (s.calls.map (Point.frees a)).sum

end State

/-- No string gets more references than a `LONG` counts. -/
def Countable (s : State) : Event → Prop
  | .addRef (some a) => s.statics ≤ a → s.claims a + 1 < 2 ^ 31
  | _ => True

instance (s : State) (event : Event) : Decidable (Countable s event) :=
  match event with
  | .addRef (some _) => inferInstanceAs (Decidable (_ → _))
  | .addRef none | .new _ _ _ | .release _ | .turn _ => isTrue trivial

def Reachable (texts : List (List UInt16)) (s : State) : Prop :=
  ReflTransGen (Permitted step Countable) (start texts) s

/-! ## What holds in every run -/

structure Intact (x : XfString) (text : List UInt16) : Prop where
  length : x.length = text.length
  buf : x.buf = text ++ [0]

structure Balanced (x : XfString) (uses claims frees : Nat) : Prop where
  bound : claims < 2 ^ 31
  alive : 0 < uses → x.ref = uses ∧ frees = 0 ∧ x.freed = false
  dead : uses = 0 → x.ref ≤ 0 ∧ frees + x.freed.toNat = 1

structure Counted (s : State) : Prop where
  statics : ∀ a < s.statics, (s.strings a).ref = -1 ∧ (s.strings a).freed = false
  intact : ∀ a < s.next, Intact (s.strings a) (s.texts a)
  below : s.statics ≤ s.next
  subjects : ∀ p ∈ s.calls, ∀ a, p.subject = some a → a < s.next
  counts : ∀ p ∈ s.calls, ∀ a, p.counts = some a → s.statics ≤ a
  heap : ∀ a, s.statics ≤ a → a < s.next → Balanced (s.strings a) (s.uses a) (s.claims a) (s.frees a)
  fresh : ∀ a, s.next ≤ a → s.held a = 0

section
variable {s s' : State} {t given : Nat} {a b : Id} {p point : Point} {x x' : XfString} {event : Event}

theorem toLong_exact {n : Nat} (small : n < 2 ^ 31) : toLong n = n := by
  simp only [toLong,Int.bmod]
  omega

theorem uses_le (a : Id) (p : Point) : p.uses a ≤ p.claims a := by
  cases p <;> simp only [Point.uses,Point.claims] <;> (try split) <;> omega

/-- What a call does to the string it works on; the other references are `held` and those of other calls. -/
theorem Balanced.advance {held uses claims frees : Nat} (subject : p.subject = some a) (low : uses ≤ claims)
    (balanced : Balanced x (held + (p.uses a + uses)) (held + (p.claims a + claims)) (p.frees a + frees))
    (run : advance x p = some (x',given,point)) :
    Balanced x' (held + given + (point.uses a + uses)) (held + given + (point.claims a + claims))
      (point.frees a + frees) := by
  obtain ⟨bound,alive,dead⟩ := balanced
  cases p with
  | addRef b =>
    cases subject
    simp only [Point.uses,Point.claims,Point.frees,if_true] at bound alive dead
    obtain ⟨ref,frees,freed⟩ := alive (by omega)
    rw [Strings.advance,if_neg (by omega)] at run
    cases run
    simp only [Point.uses,Point.claims,Point.frees,if_true]
    exact ⟨bound,alive,dead⟩
  | increment b =>
    cases subject
    simp only [Point.uses,Point.claims,Point.frees,if_true] at bound alive
    obtain ⟨ref,frees,freed⟩ := alive (by omega)
    cases run
    have counted : toLong (x.ref + 1) = (held + 2 + uses : Nat) := by
      rw [ref,← toLong_exact (n := held + 2 + uses) (by omega)]
      congr 1
      push_cast
      ring
    simp only [Point.uses,Point.claims,Point.frees,counted]
    refine ⟨by omega,fun _ => ⟨by push_cast; ring,frees,freed⟩,fun none => ?_⟩
    omega
  | release b =>
    cases subject
    simp only [Point.uses,Point.claims,Point.frees,if_true] at bound alive dead
    obtain ⟨ref,frees,freed⟩ := alive (by omega)
    rw [Strings.advance,if_neg (by omega)] at run
    cases run
    simp only [Point.uses,Point.claims,Point.frees,if_true]
    exact ⟨bound,alive,dead⟩
  | decrement b =>
    cases subject
    simp only [Point.uses,Point.claims,Point.frees,if_true] at bound alive
    obtain ⟨ref,none,freed⟩ := alive (by omega)
    have counted : toLong (x.ref - 1) = (held + uses : Nat) := by
      rw [ref,← toLong_exact (n := held + uses) (by omega)]
      congr 1
      push_cast
      ring
    rw [Strings.advance,counted] at run
    cases run
    by_cases last : held + uses = 0
    · rw [if_pos (by omega)]
      simp only [Point.uses,Point.claims,Point.frees,if_true,freed]
      refine ⟨by omega,fun some => by omega,fun _ => ⟨?_,?_⟩⟩
      · change ((held + uses : Nat) : Int) ≤ 0
        omega
      · rw [Bool.toNat_false]
        omega
    · rw [if_neg (by omega)]
      simp only [Point.uses,Point.claims,Point.frees,freed]
      exact ⟨by omega,fun _ => ⟨by push_cast; ring,by omega,rfl⟩,fun none => by omega⟩
  | free b =>
    cases subject
    simp only [Point.uses,Point.claims,Point.frees,if_true] at bound alive dead
    have unused : held + (0 + uses) = 0 := by
      by_contra some
      have none := (alive (Nat.pos_of_ne_zero some)).2.1
      omega
    obtain ⟨ref,once⟩ := dead unused
    cases run
    simp only [Point.uses,Point.claims,Point.frees]
    refine ⟨by omega,fun some => by omega,fun _ => ⟨ref,?_⟩⟩
    simp only [Bool.toNat_true]
    omega
  | done => cases subject

structure Moves (a : Id) (x : XfString) (p : Point) (x' : XfString) (point : Point) : Prop where
  length : x'.length = x.length
  buf : x'.buf = x.buf
  subject : ∀ b, point.subject = some b → b = a
  counts : ∀ b, point.counts = some b → b = a ∧ (x.ref < 0 → p.counts = some a)
  static : x.ref < 0 → p.counts = none → x' = x

theorem advance_moves (subject : p.subject = some a) (run : advance x p = some (x',given,point)) :
    Moves a x p x' point := by
  cases p with
  | addRef b | release b =>
    cases subject
    simp only [advance] at run
    split at run <;> cases run <;> constructor <;> simp_all [Point.subject,Point.counts]
  | increment b | free b =>
    cases subject
    cases run
    constructor <;> simp [Point.subject,Point.counts]
  | decrement b =>
    cases subject
    cases run
    refine ⟨rfl,rfl,?_,?_,fun _ past => absurd past (by simp [Point.counts])⟩
    · split <;> simp [Point.subject]
    · split <;> simp [Point.counts]
  | done => cases subject

/-- A call weighs nothing for other strings. -/
theorem weightless (other : p.subject ≠ some b) : p.uses b = 0 ∧ p.claims b = 0 ∧ p.frees b = 0 := by
  cases p <;> simp_all [Point.subject,Point.uses,Point.claims,Point.frees]

theorem weightless_sums (other : ∀ p ∈ s.calls, p.subject ≠ some b) :
    (s.calls.map (Point.uses b)).sum = 0 ∧ (s.calls.map (Point.claims b)).sum = 0 ∧
      (s.calls.map (Point.frees b)).sum = 0 := by
  have none : ∀ w : Point → Nat, (∀ p ∈ s.calls, w p = 0) → (s.calls.map w).sum = 0 := by
    intro w zero
    apply List.sum_eq_zero
    intro n member
    obtain ⟨p,inside,rfl⟩ := List.mem_map.mp member
    exact zero p inside
  exact ⟨none _ fun p inside => (weightless (other p inside)).1,
    none _ fun p inside => (weightless (other p inside)).2.1,
    none _ fun p inside => (weightless (other p inside)).2.2⟩

theorem Counted.turn (counted : Counted s) (here : s.calls[t]? = some p) (subject : p.subject = some a)
    (run : advance (s.strings a) p = some (x',given,point)) :
    Counted {s with
      strings := Function.update s.strings a x'
      held := Function.update s.held a (s.held a + given)
      calls := s.calls.set t point} := by
  have moves := advance_moves subject run
  have member := List.mem_of_getElem? here
  have inside := counted.subjects p member a subject
  have kept : ∀ q ∈ s.calls.set t point, q ∈ s.calls ∨ q = point := fun q set => List.mem_or_eq_of_mem_set set
  refine ⟨?_,?_,counted.below,?_,?_,?_,?_⟩
  case refine_1 =>
    intro b low
    dsimp only at low ⊢
    by_cases same : b = a
    · subst same
      obtain ⟨ref,freed⟩ := counted.statics b low
      have before : p.counts = none := by
        by_contra past
        obtain ⟨c,counts⟩ := Option.ne_none_iff_exists'.mp past
        have own : c = b := by
          cases p <;> simp_all [Point.counts,Point.subject]
        have high := counted.counts p member c counts
        rw [own] at high
        omega
      rw [Function.update_self,moves.static (by omega) before]
      exact ⟨ref,freed⟩
    · rw [Function.update_of_ne same]
      exact counted.statics b low
  case refine_2 =>
    intro b low
    dsimp only at low ⊢
    have whole := counted.intact b low
    by_cases same : b = a
    · subst same
      rw [Function.update_self]
      exact ⟨moves.length.trans whole.length,moves.buf.trans whole.buf⟩
    · rw [Function.update_of_ne same]
      exact whole
  case refine_3 =>
    intro q set b own
    rcases kept q set with old | rfl
    · exact counted.subjects q old b own
    · rw [moves.subject b own]
      exact inside
  case refine_4 =>
    intro q set b own
    rcases kept q set with old | rfl
    · exact counted.counts q old b own
    · obtain ⟨rfl,was⟩ := moves.counts b own
      by_contra low
      obtain ⟨ref,-⟩ := counted.statics b (Nat.lt_of_not_le low)
      exact low (counted.counts p member b (was (by omega)))
  case refine_5 =>
    intro b high low
    dsimp only at high low ⊢
    have balanced := counted.heap b high low
    simp only [State.uses,State.claims,State.frees,sum_entry (Point.uses b) here,sum_entry (Point.claims b) here,
      sum_entry (Point.frees b) here] at balanced
    simp only [State.uses,State.claims,State.frees,sum_set (Point.uses b) here,sum_set (Point.claims b) here,
      sum_set (Point.frees b) here]
    by_cases same : b = a
    · subst same
      rw [Function.update_self,Function.update_self]
      exact balanced.advance subject (sum_mono (fun q _ => uses_le b q)) run
    · rw [Function.update_of_ne same,Function.update_of_ne same]
      have old : p.subject ≠ some b := by
        rw [subject]
        exact fun equal => same (Option.some.inj equal).symm
      have new : point.subject ≠ some b := fun own => same (moves.subject b own)
      obtain ⟨uses,claims,frees⟩ := weightless old
      obtain ⟨uses',claims',frees'⟩ := weightless new
      rw [uses',claims',frees']
      rw [uses,claims,frees] at balanced
      exact balanced
  case refine_6 =>
    intro b high
    dsimp only at high ⊢
    have apart : b ≠ a := fun same => Nat.not_lt_of_le high (same ▸ inside)
    rw [Function.update_of_ne apart]
    exact counted.fresh b high

/-- A call begins with a reference that its user has. -/
theorem Counted.lend (counted : Counted s) (subject : point.subject = some a) (before : point.counts = none)
    (room : s.statics ≤ a → a < s.next → s.claims a + (point.claims a - 1) < 2 ^ 31) (one : point.uses a = 1)
    (most : 1 ≤ point.claims a) (none : point.frees a = 0) (run : lend s a point = some s') : Counted s' := by
  have added : ∀ b, point.subject = some b → b = a := fun b own => by
    rw [subject] at own
    exact (Option.some.inj own).symm
  have sums : ∀ w : Point → Nat, ((s.calls ++ [point]).map w).sum = (s.calls.map w).sum + w point := by
    intro w
    simp only [List.map_append,List.sum_append,List.map_cons,List.map_nil,List.sum_cons,List.sum_nil,Nat.add_zero]
  have others : ∀ b ≠ a, point.uses b = 0 ∧ point.claims b = 0 ∧ point.frees b = 0 :=
    fun b apart => weightless (fun own => apart (added b own))
  simp only [Strings.lend] at run
  have counts : ∀ q ∈ s.calls ++ [point], ∀ b, q.counts = some b → s.statics ≤ b := by
    intro q member b own
    rcases List.mem_append.mp member with old | new
    · exact counted.counts q old b own
    · cases List.mem_singleton.mp new
      rw [before] at own
      cases own
  have subjects : a < s.next → ∀ q ∈ s.calls ++ [point], ∀ b, q.subject = some b → b < s.next := by
    intro inside q member b own
    rcases List.mem_append.mp member with old | new
    · exact counted.subjects q old b own
    · cases List.mem_singleton.mp new
      rw [added b own]
      exact inside
  split at run
  next static =>
    cases run
    refine ⟨counted.statics,counted.intact,counted.below,subjects (Nat.lt_of_lt_of_le static counted.below),counts,?_,
      counted.fresh⟩
    intro b high low
    have balanced := counted.heap b high low
    obtain ⟨uses,claims,frees⟩ := others b (fun same => Nat.not_lt_of_le high (same ▸ static))
    simp only [State.uses,State.claims,State.frees,sums,uses,claims,frees,Nat.add_zero] at balanced ⊢
    exact balanced
  next heap =>
    obtain ⟨⟨inside,held⟩,run⟩ := Option.ite_none_right_eq_some.mp run
    cases run
    refine ⟨counted.statics,counted.intact,counted.below,subjects inside,counts,?_,?_⟩
    · intro b high low
      have balanced := counted.heap b high low
      by_cases same : b = a
      · subst same
        have free := room high low
        simp only [State.uses,State.claims,State.frees,sums,one,none,Function.update_self] at balanced free ⊢
        obtain ⟨bound,alive,dead⟩ := balanced
        have uses : s.held b - 1 + ((s.calls.map (Point.uses b)).sum + 1) =
          s.held b + (s.calls.map (Point.uses b)).sum := by
          omega
        rw [uses]
        exact ⟨by omega,alive,dead⟩
      · obtain ⟨uses,claims,frees⟩ := others b same
        simp only [State.uses,State.claims,State.frees,sums,uses,claims,frees,Nat.add_zero,
          Function.update_of_ne same] at balanced ⊢
        exact balanced
    · intro b high
      dsimp only at high ⊢
      have apart : b ≠ a := fun same => Nat.not_lt_of_le high (same ▸ inside)
      rw [Function.update_of_ne apart]
      exact counted.fresh b high

theorem Counted.new (counted : Counted s) (text : List UInt16) : Counted {s with
    strings := Function.update s.strings s.next (Strings.fresh text)
    texts := Function.update s.texts s.next text
    held := Function.update s.held s.next 1
    next := s.next + 1} := by
  have apart : ∀ b < s.next, b ≠ s.next := fun b low => Nat.ne_of_lt low
  refine ⟨?_,?_,Nat.le_succ_of_le counted.below,?_,counted.counts,?_,?_⟩
  · intro b low
    dsimp only at low ⊢
    rw [Function.update_of_ne (apart b (Nat.lt_of_lt_of_le low counted.below))]
    exact counted.statics b low
  · intro b low
    dsimp only at low ⊢
    rcases Nat.lt_succ_iff_lt_or_eq.mp low with old | rfl
    · rw [Function.update_of_ne (apart b old),Function.update_of_ne (apart b old)]
      exact counted.intact b old
    · rw [Function.update_self,Function.update_self]
      exact ⟨rfl,rfl⟩
  · intro q member b own
    exact Nat.lt_succ_of_lt (counted.subjects q member b own)
  · intro b high low
    dsimp only at low high ⊢
    rcases Nat.lt_succ_iff_lt_or_eq.mp low with old | rfl
    · simp only [State.uses,State.claims,State.frees,Function.update_of_ne (apart b old)]
      exact counted.heap b high old
    · have unused : ∀ p ∈ s.calls, p.subject ≠ some s.next := by
        intro p member own
        exact Nat.lt_irrefl _ (counted.subjects p member _ own)
      obtain ⟨uses,claims,frees⟩ := weightless_sums unused
      simp only [State.uses,State.claims,State.frees,Function.update_self,uses,claims,frees]
      exact ⟨by omega,fun _ => ⟨rfl,rfl,rfl⟩,fun none => by omega⟩
  · intro b high
    dsimp only at high ⊢
    rw [Function.update_of_ne (Nat.ne_of_gt high)]
    exact counted.fresh b (Nat.le_of_succ_le high)

theorem Counted.step (counted : Counted s) (countable : Countable s event) (run : Strings.step s event = some s') :
    Counted s' := by
  cases event with
  | new chars length malloc =>
    simp only [Strings.step] at run
    split at run
    · cases run
      exact counted
    · obtain ⟨-,run⟩ := Option.ite_none_left_eq_some.mp run
      split at run
      · cases run
        exact counted.new _
      · cases run
        exact counted
  | addRef self =>
    cases self with
    | none =>
      cases run
      exact counted
    | some a =>
      have uses : (Point.addRef a).uses a = 1 := if_pos rfl
      have claims : (Point.addRef a).claims a = 2 := if_pos rfl
      refine counted.lend rfl rfl (fun high _ => ?_) uses (by omega) rfl run
      rw [claims]
      exact countable high
  | release self =>
    cases self with
    | none =>
      cases run
      exact counted
    | some a =>
      have uses : (Point.release a).uses a = 1 := if_pos rfl
      have claims : (Point.release a).claims a = 1 := if_pos rfl
      refine counted.lend rfl rfl (fun high low => ?_) uses (by omega) rfl run
      rw [claims]
      exact (counted.heap a high low).bound
  | turn t =>
    obtain ⟨p,here,run⟩ := Option.bind_eq_some_iff.mp run
    obtain ⟨a,subject,run⟩ := Option.bind_eq_some_iff.mp run
    obtain ⟨⟨x',given,point⟩,move,run⟩ := Option.bind_eq_some_iff.mp run
    cases run
    exact counted.turn here subject move

theorem start_counted (texts : List (List UInt16)) : Counted (start texts) where
  statics _ _ := ⟨rfl,rfl⟩
  intact _ _ := ⟨rfl,rfl⟩
  below := Nat.le_refl _
  subjects _ member := absurd member List.not_mem_nil
  counts _ member := absurd member List.not_mem_nil
  heap _ high low := absurd low (Nat.not_lt_of_le high)
  fresh _ _ := rfl

theorem Counted.run (counted : Counted s) (run : ReflTransGen (Permitted Strings.step Countable) s s') : Counted s' :=
  run_invariant (fun _ _ inv ⟨_,countable,step⟩ => inv.step countable step) run counted

theorem reachable_counted {texts : List (List UInt16)} (run : Reachable texts s) : Counted s :=
  (start_counted texts).run run

/-! ## The life of a string -/

structure Lives (s : State) (a : Id) : Prop where
  whole : 0 < s.uses a → (s.strings a).ref = s.uses a ∧ (s.strings a).freed = false
  freed : s.uses a = 0 → s.frees a + (s.strings a).freed.toNat = 1

/-- The strings of the heap come and go with their references, the static ones stay, and no call works on freed
memory. -/
structure Sound (s : State) : Prop where
  heap : ∀ a, s.statics ≤ a → a < s.next → Lives s a
  statics : ∀ a < s.statics, s.strings a = initializer (s.texts a)
  untouched : ∀ p ∈ s.calls, ∀ a, p.subject = some a → (s.strings a).freed = false

theorem uses_or_frees (subject : p.subject = some a) : 0 < p.uses a + p.frees a := by
  cases p <;> cases subject <;> simp [Point.uses,Point.frees]

theorem Counted.untouched (counted : Counted s) (member : p ∈ s.calls) (subject : p.subject = some a) :
    (s.strings a).freed = false := by
  have inside := counted.subjects p member a subject
  by_cases static : a < s.statics
  · exact (counted.statics a static).2
  · have balanced := counted.heap a (Nat.le_of_not_lt static) inside
    obtain ⟨t,here⟩ := List.mem_iff_getElem?.mp member
    have uses := sum_entry (Point.uses a) here
    have frees := sum_entry (Point.frees a) here
    have some := uses_or_frees subject
    by_cases used : s.uses a = 0
    · have once := (balanced.dead used).2
      rw [State.uses] at used
      rw [State.frees] at once
      cases freed : (s.strings a).freed with
      | false => rfl
      | true =>
        rw [freed,Bool.toNat_true] at once
        omega
    · exact (balanced.alive (Nat.pos_of_ne_zero used)).2.2

theorem reachable_sound {texts : List (List UInt16)} (run : Reachable texts s) : Sound s := by
  have counted := reachable_counted run
  refine ⟨?_,?_,fun p member a subject => counted.untouched member subject⟩
  · intro a high low
    have balanced := counted.heap a high low
    refine ⟨fun used => ?_,fun unused => (balanced.dead unused).2⟩
    obtain ⟨ref,-,unfreed⟩ := balanced.alive used
    exact ⟨ref,unfreed⟩
  · intro a low
    obtain ⟨length,buf⟩ := counted.intact a (Nat.lt_of_lt_of_le low counted.below)
    obtain ⟨ref,unfreed⟩ := counted.statics a low
    rw [initializer,← length,← buf,← ref,← unfreed]

/-- Of two users of a string both release it, and the second `free` is due when the first has returned. -/
def sharedAndReleased : List Event :=
  [.new [120,121] 2 true,.addRef (some 1),.turn 0,.turn 0,.release (some 1),.release (some 1),.turn 1,.turn 2,.turn 2,
    .turn 1]

theorem reachable_sound_released : ∃ s, Reachable [[]] s ∧ s.frees 1 = 1 ∧ Sound s := by
  obtain ⟨s,run,holds⟩ : ∃ s, Reachable [[]] s ∧ decide (s.frees 1 = 1) = true :=
    perform_reachable sharedAndReleased (by decide)
  exact ⟨s,run,of_decide_eq_true holds,reachable_sound run⟩

/-! ## Texts -/

/-- No step changes what a string was made of. -/
theorem step_texts (step : step s event = some s') : s.next ≤ s'.next ∧ ∀ a < s.next, s'.texts a = s.texts a := by
  cases event with
  | new chars length malloc =>
    simp only [Strings.step] at step
    split at step
    · cases step
      exact ⟨Nat.le_refl _,fun _ _ => rfl⟩
    · obtain ⟨-,step⟩ := Option.ite_none_left_eq_some.mp step
      split at step
      · cases step
        exact ⟨Nat.le_succ _,fun a low => Function.update_of_ne (Nat.ne_of_lt low) _ _⟩
      · cases step
        exact ⟨Nat.le_refl _,fun _ _ => rfl⟩
  | addRef self | release self =>
    cases self with
    | none =>
      cases step
      exact ⟨Nat.le_refl _,fun _ _ => rfl⟩
    | some a =>
      change lend s a _ = some s' at step
      simp only [lend] at step
      split at step
      · cases step
        exact ⟨Nat.le_refl _,fun _ _ => rfl⟩
      · obtain ⟨-,step⟩ := Option.ite_none_right_eq_some.mp step
        cases step
        exact ⟨Nat.le_refl _,fun _ _ => rfl⟩
  | turn t =>
    obtain ⟨p,-,step⟩ := Option.bind_eq_some_iff.mp step
    obtain ⟨a,-,step⟩ := Option.bind_eq_some_iff.mp step
    obtain ⟨⟨x',given,point⟩,-,step⟩ := Option.bind_eq_some_iff.mp step
    cases step
    exact ⟨Nat.le_refl _,fun _ _ => rfl⟩

theorem run_texts (run : ReflTransGen (Permitted step Countable) s s') :
    s.next ≤ s'.next ∧ ∀ a < s.next, s'.texts a = s.texts a := by
  induction run with
  | refl => exact ⟨Nat.le_refl _,fun _ _ => rfl⟩
  | tail _ last ih =>
    obtain ⟨event,-,last⟩ := last
    obtain ⟨more,same⟩ := step_texts last
    exact ⟨ih.1.trans more,fun a low => (same a (Nat.lt_of_lt_of_le low ih.1)).trans (ih.2 a low)⟩

theorem equals_texts (self other : Option Id) (intact : ∀ a, self = some a ∨ other = some a →
    Intact (s.strings a) (s.texts a)) : equals s self other = true ↔ self.map s.texts = other.map s.texts := by
  unfold equals
  by_cases same : self = other
  · rw [if_pos same,same]
    exact ⟨fun _ => rfl,fun _ => rfl⟩
  · rw [if_neg same]
    cases self with
    | none =>
      cases other with
      | none => exact absurd rfl same
      | some b => simp
    | some a =>
      cases other with
      | none => simp
      | some b =>
        have left := intact a (Or.inl rfl)
        have right := intact b (Or.inr rfl)
        simp only [left.length,left.buf,right.length,right.buf,Int.toNat_natCast,Option.map_some,Option.some.injEq]
        split
        next differ =>
          refine ⟨fun no => absurd no Bool.false_ne_true,fun texts => absurd ?_ differ⟩
          rw [texts]
        next agree =>
          have length : (s.texts a).length = (s.texts b).length := by omega
          rw [List.take_left,length,List.take_left,decide_eq_true_iff]

def Usable (s : State) (a : Id) : Prop := s.statics ≤ a → 0 < s.uses a

/-- Strings in use are equal if they were made of the same characters, whatever happened in between. -/
theorem reachable_equals {texts : List (List UInt16)} {self other : Option Id} (run : Reachable texts s)
    (made : ∀ a, self = some a ∨ other = some a → a < s.next) (later : ReflTransGen (Permitted step Countable) s s')
    (usable : ∀ a, self = some a ∨ other = some a → Usable s' a) :
    (∀ a, self = some a ∨ other = some a → (s'.strings a).freed = false) ∧
      (equals s' self other = true ↔ self.map s.texts = other.map s.texts) := by
  have counted := (reachable_counted run).run later
  obtain ⟨more,same⟩ := run_texts later
  constructor
  · intro a given
    by_cases static : a < s'.statics
    · exact (counted.statics a static).2
    · have high := Nat.le_of_not_lt static
      have inside := Nat.lt_of_lt_of_le (made a given) more
      exact ((counted.heap a high inside).alive (usable a given high)).2.2
  · rw [equals_texts self other fun a given => counted.intact a (Nat.lt_of_lt_of_le (made a given) more)]
    have kept : ∀ p : Option Id, (∀ a, p = some a → a < s.next) → p.map s'.texts = p.map s.texts := by
      intro p low
      cases p with
      | none => rfl
      | some a =>
        rw [Option.map_some,Option.map_some,same a (low a rfl)]
    rw [kept self fun a own => made a (Or.inl own),kept other fun a own => made a (Or.inr own)]

/-- Two strings with a zero inside, one of them in use a second time. -/
theorem reachable_equals_shared : ∃ s s', Reachable [[]] s ∧ ReflTransGen (Permitted step Countable) s s' ∧
    s'.claims 1 = 3 ∧ equals s' (some 1) (some 2) = true := by
  obtain ⟨s,run,holds⟩ : ∃ s, Reachable [[]] s ∧ decide (s.next = 3 ∧ s.texts 1 = s.texts 2 ∧
      (perform step Countable s [.addRef (some 1),.turn 0,.turn 0,.addRef (some 1)]).any (fun s' =>
        decide (s'.claims 1 = 3 ∧ 0 < s'.uses 1 ∧ 0 < s'.uses 2)) = true) = true :=
    perform_reachable [.new [120,0,121] 3 true,.new [120,0,121,122] 3 true] (by decide)
  obtain ⟨three,texts,holds⟩ := of_decide_eq_true holds
  obtain ⟨s',after,holds⟩ := (Option.any_eq_true ..).mp holds
  obtain ⟨claims,first,second⟩ := of_decide_eq_true holds
  have later : ReflTransGen (Permitted step Countable) s s' := perform_steps after
  have made : ∀ a, some 1 = some a ∨ some 2 = some a → a < s.next := by
    intro a given
    rw [three]
    rcases given with own | own <;> cases own <;> decide
  have usable : ∀ a, some 1 = some a ∨ some 2 = some a → Usable s' a := by
    intro a given
    rcases given with own | own <;> cases own
    · exact fun _ => first
    · exact fun _ => second
  exact ⟨s,s',run,later,claims,(reachable_equals run made later usable).2.mpr (congrArg some texts)⟩

end

end Xrossfire.Strings
