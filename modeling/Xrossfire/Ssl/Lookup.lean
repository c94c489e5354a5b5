import Xrossfire.Ssl.Handshake
import Xrossfire.Tcp.Context

/-! A handshake with the `context` of its async. All of its I/O is on that one async, so what connecting leaves in the
union is there when the sends and the receives begin. -/
namespace Xrossfire.Ssl.Lookup
open Library Relation
open Async (Operation)
open Tcp.Context (State Point)

def operation (s : Handshake) : Option Operation :=
  if s.running = false then none
  else if s.nextPhase = 1 then some .connect
  else if s.nextPhase = 3 then some .send
  else if s.nextPhase = 4 then some .receive
  else none

structure Connection where
  handshake : Handshake
  context : State
  /-- The I/O of the last phase has begun. -/
  begun : Bool

/-- `CancelIoEx` finds the I/O; while the name is looked up it does not. -/
def found : Point → Bool
  | .connecting | .sending | .receiving => true
  | _ => false

inductive Event
  /-- The phase has returned. -/
  | begin
  /-- A step of the I/O. If it is the notify, `round` is the invocation that follows. -/
  | turn (ok : Bool) (transfered : Int) (round : Round)
  /-- A `_cancel`, of the caller or of `async_timeout`, whose `CancelIoEx` succeeds. -/
  | cancel
  /-- The last release, after the handshake. -/
  | destroy

def step (stale : Bool) (c : Connection) : Event → Option Connection
  | .begin => do
    let op ← operation c.handshake
    if c.begun = true then none
    else
      let context ← Tcp.Context.step c.context (.begin op true)
      return {c with context := context, begun := true}
  | .turn ok transfered round => do
    let context ← Tcp.Context.step c.context (.turn ok transfered)
    if context.point = .idle then
      let answer ← context.answers.head?
      if answer.ok = true ↔ round.err = 0 then return ⟨c.handshake.next stale round,context,false⟩ else none
    else return {c with context := context}
  | .cancel =>
    if found c.context.point = true then do
      let context ← Tcp.Context.step c.context .cancel
      return {c with context := context}
    else none
  | .destroy =>
    if c.handshake.running = true then none
    else do
      let context ← Tcp.Context.step c.context .destroy
      return {c with context := context}

/-- `xf_ssl_socket_new` has made the async and called the procedure. -/
def start (stale : Bool) (r : Responses) : Connection := ⟨handshakeStart stale r,Tcp.Context.start,false⟩

def Reachable (stale : Bool) (r : Responses) (c : Connection) : Prop :=
  ReflTransGen (Permitted (step stale) (fun _ _ => True)) (start stale r) c

/-- The handshake looks up one name, and the list is freed only if no send and no receive has set `io_type`; a
handshake that has heard from the server never frees it. -/
structure Lost (c : Connection) : Prop where
  lists : c.context.lists = [] ∨ c.context.lists = [1]
  freed : c.context.freed = true → 1 ∈ c.context.lists →
    (.addrs 1 ∈ c.context.listsFreed ↔ ∀ p ∈ c.context.starts, p.1 = 1)
  heard : ∀ bytes, .received bytes ∈ c.handshake.trace →
    c.context.lists = [1] ∧ .addrs 1 ∉ c.context.listsFreed

/-! ## The I/O under way -/

/-- The last operation that has set `io_type` is not the connect. -/
def Moved (t : State) : Prop := ∃ p, t.starts.head? = some p ∧ p.1 ≠ 1

/-- The list is there, and only the connect has set `io_type`, or another operation last. -/
structure Looked (t : State) : Prop where
  lists : t.lists = [1]
  ordered : (t.starts ≠ [] ∧ ∀ p ∈ t.starts, p.1 = 1) ∨ Moved t

structure Connecting (t : State) : Prop where
  own : t.own = 1
  starts : ∀ p ∈ t.starts, p.1 = 1
  point :
    match t.point with
    | .lookupEnter => t.lists = []
    | .lookup => t.lists = [] ∧ t.starts ≠ []
    | .socket | .connectEnter | .connecting | .ending true => t.lists = [1] ∧ t.starts ≠ []
    | .ending false => t.lists = [] ∨ t.lists = [1] ∧ t.starts ≠ []
    | _ => False

structure Exchanging (t : State) : Prop extends Looked t where
  later : 2 ≤ t.own
  point :
    match t.point with
    | .sendStore | .receiveEnter | .ending false => True
    | .sendEnter | .sending | .receiving | .ending true => Moved t
    | _ => False

section Turns
variable {t t' : State} {ok : Bool} {transfered : Int}

theorem connecting_turn (h : Connecting t) (run : Tcp.Context.turn t ok transfered = some t') :
    t'.point ≠ .idle ∧ Connecting t' ∨ t'.point = .idle ∧ t'.own = 1 ∧ (t'.lists = [] ∨ Looked t') ∧
      ∃ a, t'.answers.head? = some a ∧ (a.ok = true → Looked t') := by
  obtain ⟨own,starts,point⟩ := h
  cases here : t.point with
  | lookupEnter =>
    simp only [Tcp.Context.turn,here,Option.some.injEq,State.enter] at run point
    subst run
    split
    · exact .inr ⟨rfl,own,.inl point,_,rfl,Bool.noConfusion⟩
    · exact .inl ⟨Point.noConfusion,own,List.forall_mem_cons.mpr ⟨own,starts⟩,point,List.cons_ne_nil _ _⟩
  | lookup =>
    simp only [Tcp.Context.turn,here,Option.some.injEq] at run point
    subst run
    split
    · refine .inl ⟨Point.noConfusion,own,starts,?_,point.2⟩
      exact (congrArg (t.own :: ·) point.1).trans (by rw [own])
    · exact .inl ⟨Point.noConfusion,own,starts,.inl point.1⟩
  | socket =>
    simp only [Tcp.Context.turn,here,Option.some.injEq] at run point
    subst run
    cases ok with
    | false => exact .inl ⟨Point.noConfusion,own,starts,.inr point⟩
    | true => exact .inl ⟨Point.noConfusion,own,starts,point⟩
  | connectEnter =>
    simp only [Tcp.Context.turn,here,Option.some.injEq,State.enter] at run point
    subst run
    split
    · exact .inr ⟨rfl,own,.inr ⟨point.1,.inl ⟨point.2,starts⟩⟩,_,rfl,Bool.noConfusion⟩
    · have starts' : ∀ p ∈ (t.own,Async.Io.connectPhase2) :: t.starts, p.1 = 1 :=
        List.forall_mem_cons.mpr ⟨own,starts⟩
      cases ok with
      | false => exact .inl ⟨Point.noConfusion,own,starts',.inr ⟨point.1,List.cons_ne_nil _ _⟩⟩
      | true => exact .inl ⟨Point.noConfusion,own,starts',point.1,List.cons_ne_nil _ _⟩
  | connecting =>
    simp only [Tcp.Context.turn,here,Option.some.injEq] at run point
    subst run
    split
    · exact .inl ⟨Point.noConfusion,own,starts,point⟩
    · exact .inl ⟨Point.noConfusion,own,starts,.inr point⟩
  | ending ended =>
    simp only [Tcp.Context.turn,here,Option.some.injEq] at run
    subst run
    rw [here] at point
    cases ended with
    | false =>
      refine .inr ⟨rfl,own,point.imp_right ?_,_,rfl,Bool.noConfusion⟩
      exact fun found => ⟨found.1,.inl ⟨found.2,starts⟩⟩
    | true => exact .inr ⟨rfl,own,.inr ⟨point.1,.inl ⟨point.2,starts⟩⟩,_,rfl,fun _ => ⟨point.1,.inl ⟨point.2,starts⟩⟩⟩
  | _ =>
    rw [here] at point
    exact point.elim

theorem exchanging_turn (h : Exchanging t) (run : Tcp.Context.turn t ok transfered = some t') :
    (Moved t → Moved t') ∧ (t'.point ≠ .idle ∧ Exchanging t' ∨ t'.point = .idle ∧ Looked t' ∧ 1 ≤ t'.own ∧
      ∃ a, t'.answers.head? = some a ∧ (a.ok = true → Moved t')) := by
  obtain ⟨looked,later,point⟩ := h
  have other : t.own ≠ 1 := by omega
  cases here : t.point with
  | sendStore =>
    simp only [Tcp.Context.turn,here,Option.some.injEq] at run
    subst run
    have moved : ∃ p, some (t.own,Async.Io.send) = some p ∧ p.1 ≠ 1 := ⟨_,rfl,other⟩
    exact ⟨fun _ => moved,.inl ⟨Point.noConfusion,⟨looked.lists,.inr moved⟩,later,moved⟩⟩
  | sendEnter =>
    simp only [Tcp.Context.turn,here,Option.some.injEq,State.enter] at run point
    subst run
    split
    · exact ⟨id,.inr ⟨rfl,⟨looked.lists,looked.ordered⟩,Nat.le_of_succ_le later,_,rfl,Bool.noConfusion⟩⟩
    · cases ok with
      | false => exact ⟨id,.inl ⟨Point.noConfusion,⟨looked.lists,looked.ordered⟩,later,trivial⟩⟩
      | true => exact ⟨id,.inl ⟨Point.noConfusion,⟨looked.lists,looked.ordered⟩,later,point⟩⟩
  | sending =>
    simp only [Tcp.Context.turn,here,Option.some.injEq] at run point
    subst run
    cases ok with
    | false => exact ⟨id,.inl ⟨Point.noConfusion,⟨looked.lists,looked.ordered⟩,later,trivial⟩⟩
    | true => exact ⟨id,.inl ⟨Point.noConfusion,⟨looked.lists,looked.ordered⟩,later,point⟩⟩
  | receiveEnter =>
    simp only [Tcp.Context.turn,here,Option.some.injEq,State.enter] at run
    subst run
    have moved : ∃ p, some (t.own,Async.Io.receive) = some p ∧ p.1 ≠ 1 := ⟨_,rfl,other⟩
    split
    · exact ⟨id,.inr ⟨rfl,⟨looked.lists,looked.ordered⟩,Nat.le_of_succ_le later,_,rfl,Bool.noConfusion⟩⟩
    · cases ok with
      | false => exact ⟨fun _ => moved,.inl ⟨Point.noConfusion,⟨looked.lists,.inr moved⟩,later,trivial⟩⟩
      | true => exact ⟨fun _ => moved,.inl ⟨Point.noConfusion,⟨looked.lists,.inr moved⟩,later,moved⟩⟩
  | receiving =>
    simp only [Tcp.Context.turn,here,Option.some.injEq] at run point
    subst run
    split
    · split
      · exact ⟨id,.inl ⟨Point.noConfusion,⟨looked.lists,looked.ordered⟩,later,point⟩⟩
      · exact ⟨id,.inl ⟨Point.noConfusion,⟨looked.lists,looked.ordered⟩,later,point⟩⟩
    · exact ⟨id,.inl ⟨Point.noConfusion,⟨looked.lists,looked.ordered⟩,later,trivial⟩⟩
  | ending ended =>
    simp only [Tcp.Context.turn,here,Option.some.injEq] at run
    subst run
    rw [here] at point
    cases ended with
    | false => exact ⟨id,.inr ⟨rfl,⟨looked.lists,looked.ordered⟩,Nat.le_of_succ_le later,_,rfl,Bool.noConfusion⟩⟩
    | true => exact ⟨id,.inr ⟨rfl,⟨looked.lists,looked.ordered⟩,Nat.le_of_succ_le later,_,rfl,fun _ => point⟩⟩
  | _ =>
    rw [here] at point
    exact point.elim

end Turns

/-! ## What the handshake hears -/

section Handshakes
variable {stale : Bool} {s : Handshake} {round : Round} {bytes : List Byte}

theorem received_contextFree (context : Option HandshakeContext) : .received bytes ∉ contextFree stale context := by
  cases context with
  | none =>
    rw [contextFree]
    split <;> simp
  | some c =>
    rw [contextFree]
    split <;> simp

theorem received_entry (phase : Int) : .received bytes ∉ entry phase := by
  rw [entry]
  split <;> simp

theorem received_completes (waiting : Waiting s) (member : .received bytes ∈ (s.completes round).trace) :
    .received bytes ∈ s.trace ∨ s.nextPhase = 4 ∧ round.err = 0 := by
  obtain ⟨c,context,-⟩ := waiting.context
  simp only [Handshake.completes,context] at member
  split at member
  · exact .inl member
  · next passed =>
    split at member
    · exact .inl (by simpa using member)
    · split at member
      · next fourth => exact .inr ⟨fourth,Decidable.not_not.mp passed⟩
      · exact .inl member

/-- What the handshake has heard, a receive without an error has read. -/
theorem next_heard (waiting : Waiting s) (member : .received bytes ∈ (s.next stale round).trace) :
    .received bytes ∈ s.trace ∨ s.nextPhase = 4 ∧ round.err = 0 := by
  by_cases passed : round.err = 0
  · obtain ⟨c,-,advance⟩ := next_advance stale waiting passed
    refine received_completes waiting ?_
    have before {more : List HandshakeEvent} (inner : ∀ e ∈ more, e.exchange) (member : .received bytes ∈
        (s.completes round).trace ++ HandshakeEvent.invoke s.nextPhase :: entry s.nextPhase ++ more) :
        .received bytes ∈ (s.completes round).trace := by
      rcases List.mem_append.mp member with here | here
      · rcases List.mem_append.mp here with here | here
        · exact here
        · rcases List.mem_cons.mp here with same | here
          · cases same
          · exact absurd here (received_entry _)
      · cases inner _ here
    cases advance with
    | waits same fine socket next buffer inner =>
      rw [same] at member
      exact before inner member
    | aborts same fine inner =>
      rw [same] at member
      exact before inner member
    | exits same fine inner =>
      rw [same] at member
      rcases List.mem_append.mp member with here | here
      · exact before inner here
      · simp at here
    | fails same broken inner =>
      rw [same] at member
      rcases List.mem_append.mp member with here | here
      · exact before inner here
      · simp [received_contextFree] at here
  · obtain ⟨c,-,same⟩ := next_failed stale waiting passed
    rw [same] at member
    simp only [List.mem_append,List.mem_singleton,reduceCtorEq,or_false,received_contextFree] at member
    exact .inl member

/-- The handshake waits for a send or a receive, or it is over. -/
theorem next_waits (waiting : Waiting s) (round : Round) :
    Waiting (s.next stale round) ∧ ((s.next stale round).nextPhase = 3 ∨ (s.next stale round).nextPhase = 4) ∧
      round.err = 0 ∨ (s.next stale round).running = false := by
  by_cases passed : round.err = 0
  · rcases next_going stale waiting round with again | stopped
    · refine .inl ⟨again,?_,passed⟩
      have running := again.running
      obtain ⟨c,-,advance⟩ := next_advance stale waiting passed
      cases advance with
      | waits same fine socket next buffer inner =>
        rw [same]
        exact next
      | aborts same fine inner =>
        rw [same] at running
        cases running
      | exits same fine inner =>
        rw [same] at running
        cases running
      | fails same broken inner =>
        rw [same] at running
        cases running
    · exact .inr stopped
  · obtain ⟨c,-,same⟩ := next_failed stale waiting passed
    rw [same]
    exact .inr rfl

end Handshakes

/-! ## Both together -/

section Contexts
variable {t t' : State}

theorem step_turn {ok : Bool} {transfered : Int} (run : Tcp.Context.step t (.turn ok transfered) = some t') :
    Tcp.Context.turn t ok transfered = some t' := by
  simp only [Tcp.Context.step] at run
  split at run
  · cases run
  · exact run

theorem step_begin {op : Operation} (run : Tcp.Context.step t (.begin op true) = some t') : t' = t.begin op true := by
  simp only [Tcp.Context.step] at run
  split at run
  · cases run
  · split at run
    · cases run
      rfl
    · cases run

theorem step_cancel (run : Tcp.Context.step t .cancel = some t') : t' = {t with canceled := true} := by
  simp only [Tcp.Context.step] at run
  split at run <;> cases run
  rfl

theorem step_destroy (run : Tcp.Context.step t .destroy = some t') : t' = t.destroy := by
  simp only [Tcp.Context.step] at run
  split at run <;> cases run
  rfl

theorem turn_busy {ok : Bool} {transfered : Int} (run : Tcp.Context.turn t ok transfered = some t') :
    t.point ≠ .idle := by
  intro idle
  rw [Tcp.Context.turn,idle] at run
  cases run

theorem destroy_point (t : State) : t.destroy.point = t.point := by
  cases here : t.io.ioType <;> simp [State.destroy,State.clear,here]

theorem Moved.congr (h : Moved t) (starts : t'.starts = t.starts) : Moved t' := by
  rw [Moved,starts]
  exact h

theorem Looked.congr (h : Looked t) (lists : t'.lists = t.lists) (starts : t'.starts = t.starts) : Looked t' := by
  refine ⟨lists.trans h.lists,?_⟩
  rw [starts]
  exact h.ordered.imp_right (fun moved => moved.congr starts)

end Contexts

inductive Joined (c : Connection) : Prop
  | fresh (waiting : Waiting c.handshake) (first : c.handshake.nextPhase = 1) (begun : c.begun = false)
      (unheard : ∀ bytes, .received bytes ∉ c.handshake.trace) (own : c.context.own = 0)
      (idle : c.context.point = .idle) (starts : c.context.starts = []) (lists : c.context.lists = [])
  | connecting (waiting : Waiting c.handshake) (first : c.handshake.nextPhase = 1) (begun : c.begun = true)
      (unheard : ∀ bytes, .received bytes ∉ c.handshake.trace) (connecting : Connecting c.context)
  | between (waiting : Waiting c.handshake) (later : c.handshake.nextPhase = 3 ∨ c.handshake.nextPhase = 4)
      (begun : c.begun = false) (heard : ∀ bytes, .received bytes ∈ c.handshake.trace → Moved c.context)
      (own : 1 ≤ c.context.own) (idle : c.context.point = .idle) (looked : Looked c.context)
  | exchanging (waiting : Waiting c.handshake) (later : c.handshake.nextPhase = 3 ∨ c.handshake.nextPhase = 4)
      (begun : c.begun = true) (heard : ∀ bytes, .received bytes ∈ c.handshake.trace → Moved c.context)
      (exchanging : Exchanging c.context)
  | ended (stopped : c.handshake.running = false)
      (heard : ∀ bytes, .received bytes ∈ c.handshake.trace → Looked c.context ∧ Moved c.context)
      (idle : c.context.point = .idle) (lists : c.context.lists = [] ∨ Looked c.context)

section Steps
variable {stale : Bool} {c c' : Connection}

inductive Stepped (stale : Bool) (c : Connection) : Event → Connection → Prop
  | begun {op : Operation} {context : State} (found : operation c.handshake = some op) (unbegun : c.begun ≠ true)
      (inside : Tcp.Context.step c.context (.begin op true) = some context) :
      Stepped stale c .begin {c with context := context, begun := true}
  | notified {ok : Bool} {transfered : Int} {round : Round} {context : State} {answer : Tcp.Context.Answer}
      (inside : Tcp.Context.step c.context (.turn ok transfered) = some context) (idle : context.point = .idle)
      (last : context.answers.head? = some answer) (agree : answer.ok = true ↔ round.err = 0) :
      Stepped stale c (.turn ok transfered round) ⟨c.handshake.next stale round,context,false⟩
  | turned {ok : Bool} {transfered : Int} {round : Round} {context : State}
      (inside : Tcp.Context.step c.context (.turn ok transfered) = some context) (busy : context.point ≠ .idle) :
      Stepped stale c (.turn ok transfered round) {c with context := context}
  | canceled {context : State} (inside : Tcp.Context.step c.context .cancel = some context) :
      Stepped stale c .cancel {c with context := context}
  | destroyed {context : State} (stopped : c.handshake.running ≠ true)
      (inside : Tcp.Context.step c.context .destroy = some context) :
      Stepped stale c .destroy {c with context := context}

theorem step_stepped {event : Event} (run : step stale c event = some c') : Stepped stale c event c' := by
  cases event with
  | begin =>
    simp only [step] at run
    obtain ⟨op,found,run⟩ := Option.bind_eq_some_iff.mp run
    split at run
    · cases run
    next unbegun =>
    obtain ⟨context,inside,run⟩ := Option.bind_eq_some_iff.mp run
    cases run
    exact .begun found unbegun inside
  | turn ok transfered round =>
    simp only [step] at run
    obtain ⟨context,inside,run⟩ := Option.bind_eq_some_iff.mp run
    split at run
    · next idle =>
      obtain ⟨answer,last,run⟩ := Option.bind_eq_some_iff.mp run
      split at run
      · next agree =>
        cases run
        exact .notified inside idle last agree
      · cases run
    · next busy =>
      cases run
      exact .turned inside busy
  | cancel =>
    simp only [step,Option.ite_none_right_eq_some] at run
    obtain ⟨context,inside,run⟩ := Option.bind_eq_some_iff.mp run.2
    cases run
    exact .canceled inside
  | destroy =>
    simp only [step] at run
    split at run
    · cases run
    next stopped =>
    obtain ⟨context,inside,run⟩ := Option.bind_eq_some_iff.mp run
    cases run
    exact .destroyed stopped inside

/-- A step of the connection is one of its context. -/
theorem context_step {event : Event} (run : step stale c event = some c') :
    ∃ inner, Tcp.Context.step c.context inner = some c'.context := by
  cases step_stepped run with
  | begun found unbegun inside => exact ⟨_,inside⟩
  | notified inside idle last agree => exact ⟨_,inside⟩
  | turned inside busy => exact ⟨_,inside⟩
  | canceled inside => exact ⟨_,inside⟩
  | destroyed stopped inside => exact ⟨_,inside⟩

theorem joined_begin (h : Joined c) {op : Operation} (found : operation c.handshake = some op)
    (unbegun : c.begun ≠ true) : Joined {c with context := c.context.begin op true, begun := true} := by
  cases h with
  | fresh waiting first begun unheard own idle starts lists =>
    simp only [operation,waiting.running,first,Bool.true_eq_false,if_false,if_true,Option.some.injEq] at found
    subst found
    refine .connecting waiting first rfl unheard ⟨congrArg (· + 1) own,?_,lists⟩
    intro p member
    change p ∈ c.context.starts at member
    rw [starts] at member
    cases member
  | connecting waiting first begun => exact absurd begun unbegun
  | between waiting later begun heard own idle looked =>
    refine .exchanging waiting later rfl heard ⟨⟨looked.lists,looked.ordered⟩,Nat.succ_le_succ own,?_⟩
    rcases later with phase | phase <;> simp [operation,waiting.running,phase] at found <;> subst found <;> trivial
  | exchanging waiting later begun => exact absurd begun unbegun
  | ended stopped => simp [operation,stopped] at found

/-- The notify that ends the I/O, and the invocation after it. -/
theorem joined_notify (h : Joined c) {ok : Bool} {transfered : Int} {round : Round} {context : State}
    {answer : Tcp.Context.Answer} (inside : Tcp.Context.turn c.context ok transfered = some context)
    (notified : context.point = .idle) (last : context.answers.head? = some answer)
    (agree : answer.ok = true ↔ round.err = 0) : Joined ⟨c.handshake.next stale round,context,false⟩ := by
  cases h with
  | fresh waiting first begun unheard own idle => exact absurd idle (turn_busy inside)
  | connecting waiting first begun unheard connecting =>
    rcases connecting_turn connecting inside with ⟨busy,-⟩ | ⟨-,own,lists,a,same,looked⟩
    · exact absurd notified busy
    cases last.symm.trans same
    have unheard' (bytes : List Byte) : .received bytes ∉ (c.handshake.next stale round).trace := by
      intro member
      rcases next_heard waiting member with old | ⟨fourth,-⟩
      · exact unheard bytes old
      · rw [first] at fourth
        exact absurd fourth (by decide)
    rcases next_waits waiting round with ⟨again,later,passed⟩ | stopped
    · exact .between again later rfl (fun bytes member => absurd member (unheard' bytes)) own.ge notified
        (looked (agree.mpr passed))
    · exact .ended stopped (fun bytes member => absurd member (unheard' bytes)) notified lists
  | between waiting later begun heard own idle => exact absurd idle (turn_busy inside)
  | exchanging waiting later begun heard exchanging =>
    obtain ⟨moved,⟨busy,-⟩ | ⟨-,looked,own,a,same,told⟩⟩ := exchanging_turn exchanging inside
    · exact absurd notified busy
    cases last.symm.trans same
    have heard' (bytes : List Byte) (member : .received bytes ∈ (c.handshake.next stale round).trace) :
        Moved context := by
      rcases next_heard waiting member with old | ⟨-,passed⟩
      · exact moved (heard bytes old)
      · exact told (agree.mpr passed)
    rcases next_waits waiting round with ⟨again,later,-⟩ | stopped
    · exact .between again later rfl heard' own notified looked
    · exact .ended stopped (fun bytes member => ⟨looked,heard' bytes member⟩) notified (.inr looked)
  | ended stopped heard idle => exact absurd idle (turn_busy inside)

theorem joined_turn (h : Joined c) {ok : Bool} {transfered : Int} {context : State}
    (inside : Tcp.Context.turn c.context ok transfered = some context) (busy : context.point ≠ .idle) :
    Joined {c with context := context} := by
  cases h with
  | fresh waiting first begun unheard own idle => exact absurd idle (turn_busy inside)
  | connecting waiting first begun unheard connecting =>
    rcases connecting_turn connecting inside with ⟨-,again⟩ | ⟨idle,-⟩
    · exact .connecting waiting first begun unheard again
    · exact absurd idle busy
  | between waiting later begun heard own idle => exact absurd idle (turn_busy inside)
  | exchanging waiting later begun heard exchanging =>
    obtain ⟨moved,⟨-,again⟩ | ⟨idle,-⟩⟩ := exchanging_turn exchanging inside
    · exact .exchanging waiting later begun (fun bytes member => moved (heard bytes member)) again
    · exact absurd idle busy
  | ended stopped heard idle => exact absurd idle (turn_busy inside)

theorem joined_cancel (h : Joined c) : Joined {c with context := {c.context with canceled := true}} := by
  cases h with
  | fresh waiting first begun unheard own idle starts lists =>
    exact .fresh waiting first begun unheard own idle starts lists
  | connecting waiting first begun unheard connecting =>
    exact .connecting waiting first begun unheard ⟨connecting.own,connecting.starts,connecting.point⟩
  | between waiting later begun heard own idle looked =>
    exact .between waiting later begun heard own idle ⟨looked.lists,looked.ordered⟩
  | exchanging waiting later begun heard exchanging =>
    exact .exchanging waiting later begun heard
      ⟨⟨exchanging.lists,exchanging.ordered⟩,exchanging.later,exchanging.point⟩
  | ended stopped heard idle lists =>
    exact .ended stopped (fun bytes member => ⟨(heard bytes member).1.congr rfl rfl,(heard bytes member).2⟩) idle
      (lists.imp_right (fun looked => looked.congr rfl rfl))

theorem joined_destroy (h : Joined c) (stopped : c.handshake.running ≠ true) :
    Joined {c with context := c.context.destroy} := by
  obtain ⟨lists',-,starts'⟩ := Tcp.Context.destroy_same c.context
  cases h with
  | fresh waiting => exact absurd waiting.running stopped
  | connecting waiting => exact absurd waiting.running stopped
  | between waiting => exact absurd waiting.running stopped
  | exchanging waiting => exact absurd waiting.running stopped
  | ended stopped heard idle lists =>
    refine .ended stopped (fun bytes member => ?_) ((destroy_point _).trans idle) ?_
    · exact ⟨(heard bytes member).1.congr lists' starts',(heard bytes member).2.congr starts'⟩
    · exact lists.imp lists'.trans (fun looked => looked.congr lists' starts')

theorem joined_step (h : Joined c) {event : Event} (run : step stale c event = some c') : Joined c' := by
  cases step_stepped run with
  | begun found unbegun inside =>
    rw [step_begin inside]
    exact joined_begin h found unbegun
  | notified inside idle last agree => exact joined_notify h (step_turn inside) idle last agree
  | turned inside busy => exact joined_turn h (step_turn inside) busy
  | canceled inside =>
    rw [step_cancel inside]
    exact joined_cancel h
  | destroyed stopped inside =>
    rw [step_destroy inside]
    exact joined_destroy h stopped

theorem start_joined (stale : Bool) (r : Responses) : Joined (start stale r) := by
  refine .fresh (handshakeStart_waiting stale r) rfl rfl ?_ rfl rfl rfl rfl
  intro bytes member
  cases List.mem_singleton.mp member

theorem joined_lists (h : Joined c) : c.context.lists = [] ∨ Looked c.context := by
  cases h with
  | fresh waiting first begun unheard own idle starts lists => exact .inl lists
  | connecting waiting first begun unheard connecting =>
    obtain ⟨own,starts,point⟩ := connecting
    have looked (h : c.context.lists = [1] ∧ c.context.starts ≠ []) : Looked c.context := ⟨h.1,.inl ⟨h.2,starts⟩⟩
    split at point
    · exact .inl point
    · exact .inl point.1
    · exact .inr (looked point)
    · exact .inr (looked point)
    · exact .inr (looked point)
    · exact .inr (looked point)
    · exact point.imp_right looked
    · exact point.elim
  | between waiting later begun heard own idle looked => exact .inr looked
  | exchanging waiting later begun heard exchanging => exact .inr exchanging.toLooked
  | ended stopped heard idle lists => exact lists

theorem joined_heard (h : Joined c) {bytes : List Byte} (member : .received bytes ∈ c.handshake.trace) :
    Looked c.context ∧ Moved c.context := by
  cases h with
  | fresh waiting first begun unheard => exact absurd member (unheard bytes)
  | connecting waiting first begun unheard => exact absurd member (unheard bytes)
  | between waiting later begun heard own idle looked => exact ⟨looked,heard bytes member⟩
  | exchanging waiting later begun heard exchanging => exact ⟨exchanging.toLooked,heard bytes member⟩
  | ended stopped heard => exact heard bytes member

theorem moved_last {t : State} (moved : Moved t) : ¬t.Last 1 := by
  intro last
  obtain ⟨p,head,other⟩ := moved
  obtain ⟨io,head'⟩ := last
  cases head.symm.trans head'
  exact other rfl

theorem reachable_lost {r : Responses} (run : Reachable stale r c) : Lost c := by
  have keeps (c c' : Connection) (h : Joined c ∧ Tcp.Context.Reachable c.context)
      (next : Permitted (step stale) (fun _ _ => True) c c') : Joined c' ∧ Tcp.Context.Reachable c'.context := by
    obtain ⟨event,-,next⟩ := next
    obtain ⟨inner,inside⟩ := context_step next
    exact ⟨joined_step h.1 next,h.2.tail ⟨inner,trivial,inside⟩⟩
  obtain ⟨joined,reached⟩ := run_invariant keeps run ⟨start_joined stale r,.refl⟩
  have cleared := Tcp.Context.reachable_cleared reached
  constructor
  · exact (joined_lists joined).imp_right Looked.lists
  · intro freed member
    rcases joined_lists joined with none | looked
    · rw [none] at member
      cases member
    rw [(cleared.lists freed 1 member).2]
    rcases looked.ordered with ⟨some,first⟩ | moved
    · refine iff_of_true ?_ first
      obtain ⟨p,rest,starts⟩ := List.exists_cons_of_ne_nil some
      have own : p.1 = 1 := first p (by rw [starts]; exact List.mem_cons_self)
      exact ⟨p.2,by rw [starts,← own]; rfl⟩
    · refine iff_of_false (moved_last moved) ?_
      intro first
      obtain ⟨p,head,other⟩ := moved
      exact other (first p (List.mem_of_head? head))
  · intro bytes member
    obtain ⟨looked,moved⟩ := joined_heard joined member
    refine ⟨looked.lists,fun free => ?_⟩
    cases freed : c.context.freed with
    | false =>
      rw [(cleared.live freed).1] at free
      cases free
    | true =>
      have listed : 1 ∈ c.context.lists := by
        rw [looked.lists]
        exact List.mem_singleton_self 1
      exact moved_last moved ((cleared.lists freed 1 listed).2.mp free)

end Steps

/-! A token to the server, its answer, and no second one. -/

def greets : Responses :=
  ⟨secOk,fun input => if input.isSome = true then ⟨secOk,[]⟩ else ⟨continueNeeded,[1]⟩,some [],0⟩

def greeted : List Event :=
  let on := Event.turn true 1 ⟨0,[7],greets⟩
  .begin :: List.replicate 6 on ++ .begin :: List.replicate 4 on ++ .begin :: List.replicate 3 on ++ [.destroy]

theorem reachable_lost_greeted : ∃ c, Reachable false greets c ∧ .notify 0 ∈ c.handshake.trace ∧
    c.context.freed = true ∧ c.context.lists = [1] ∧ c.context.listsFreed = [] ∧ Lost c := by
  obtain ⟨c,run,holds⟩ : ∃ c, Reachable false greets c ∧ decide (.notify 0 ∈ c.handshake.trace ∧
      c.context.freed = true ∧ c.context.lists = [1] ∧ c.context.listsFreed = []) = true :=
    perform_reachable greeted (by decide)
  obtain ⟨told,freed,lists,listsFreed⟩ := of_decide_eq_true holds
  exact ⟨c,run,told,freed,lists,listsFreed,reachable_lost run⟩

end Xrossfire.Ssl.Lookup
