import Xrossfire.Ssl.Handshake

/-! The references to the TCP socket below an SSL socket, from its creation in the
handshake to the end of the SSL object. -/
namespace Xrossfire.Ssl
open Async (phaseError phaseExit)

/-- A call on the SSL object; a send and a receive need not come to a call on `base_socket`. -/
inductive SocketCall
  | send (uses : Bool)
  | receive (uses : Bool)
  | close
deriving DecidableEq

inductive BaseEvent
  | take
  | drop
  | use
deriving DecidableEq

def HandshakeEvent.base : HandshakeEvent → Option BaseEvent
  | .create | .addRef => some .take
  | .release => some .drop
  | .send _ => some .use
  | _ => none

/-- A call on the SSL object: whether `base_socket` is still set, and what is done to it. A call on a NULL
`base_socket` is undefined. -/
def baseCall (socket : Bool) : SocketCall → Option (Bool × List BaseEvent)
  | .send uses | .receive uses =>
    if uses then if socket then some (socket,[.use]) else none
    else some (socket,[])
  | .close => if socket then some (false,[.use]) else none

/-- The calls on the SSL object, then `XF_MESSAGE_OBJECT_DESTROY`. -/
def baseLife (socket : Bool) : List SocketCall → Option (List BaseEvent)
  | [] => some (if socket then [.drop] else [])
  | call :: calls => do
    let (socket,events) ← baseCall socket call
    return events ++ (← baseLife socket calls)

def baseTrace (s : Handshake) (calls : List SocketCall) : Option (List BaseEvent) :=
  match s.self with
  | some data => (baseLife data.baseSocket calls).map (s.trace.filterMap HandshakeEvent.base ++ ·)
  | none => some (s.trace.filterMap HandshakeEvent.base)

/-- The references taken are released, and the socket is used only while there is one. -/
structure Conserved (trace : List BaseEvent) : Prop where
  balance : trace.count .drop = trace.count .take
  alive : ∀ before after, trace = before ++ .use :: after → before.count .drop < before.count .take

def Finished (s : Handshake) (calls : List SocketCall) : Prop := s.context = none ∧ baseTrace s calls ≠ none

instance (s : Handshake) (calls : List SocketCall) : Decidable (Finished s calls) :=
  inferInstanceAs (Decidable (_ ∧ _))

/-- `xf_tcp_socket_new` completes with an error. -/
def ConnectFails (rounds : List Round) : Prop := ∃ round ∈ rounds.head?, round.err ≠ 0

/-! ## Two references and at most one release -/

def takes (trace : List HandshakeEvent) : Nat := trace.countP (fun e => e.base == some .take)
def drops (trace : List HandshakeEvent) : Nat := trace.countP (fun e => e.base == some .drop)

theorem takes_append (t t' : List HandshakeEvent) : takes (t ++ t') = takes t + takes t' := List.countP_append
theorem drops_append (t t' : List HandshakeEvent) : drops (t ++ t') = drops t + drops t' := List.countP_append

theorem exchange_base {t : List HandshakeEvent} (inner : ∀ e ∈ t, e.exchange) : takes t = 0 ∧ drops t = 0 := by
  have apart (e : HandshakeEvent) (member : e ∈ t) : e.base = none ∨ e.base = some .use := by
    have exchange := inner e member
    cases e <;> first | exact Or.inl rfl | exact Or.inr rfl | cases exchange
  constructor <;>
  · apply List.countP_eq_zero.mpr
    intro e member
    rcases apart e member with same | same <;> simp [same]

/-- A connected handshake with its two references; the second may be released once, by the end without an
SSL object. -/
structure Held (s : Handshake) : Prop where
  taken : takes s.trace = 2
  waiting : s.running = true → Waiting s ∧ s.nextPhase ≠ 1 ∧ drops s.trace = 0
  once : drops s.trace ≤ 1
  moved : s.self ≠ none → drops s.trace = 0

theorem contextFree_drops (context : Option HandshakeContext) :
    takes (contextFree false context) = 0 ∧ drops (contextFree false context) ≤ if context.isSome then 1 else 0 := by
  cases context with
  | none => exact ⟨rfl,Nat.le_refl 0⟩
  | some c => cases set : c.baseSocket <;> simp [contextFree,set,takes,drops,HandshakeEvent.base]

/-- An I/O without error keeps the two references, and releases one of them at most. -/
theorem advance_held {socket : Bool} {fine : Prop} {start : List HandshakeEvent} {s : Handshake}
    (early : ∀ e ∈ start, e.early) (taken : takes start = 2) (kept : drops start = 0)
    (advance : Advance false socket fine start s) : Held s := by
  have inside {more : List HandshakeEvent} (inner : ∀ e ∈ more, e.exchange) :
      takes (start ++ more) = 2 ∧ drops (start ++ more) = 0 := by
    obtain ⟨takes,drops⟩ := exchange_base inner
    rw [takes_append,drops_append]
    omega
  cases advance with
  | @waits c phase more same fine socket next buffer inner =>
    obtain ⟨two,zero⟩ := inside inner
    subst same
    refine ⟨two,fun _ => ⟨⟨rfl,⟨c,rfl,buffer⟩,Or.inr next,?_⟩,?_,zero⟩,zero.trans_le (Nat.zero_le 1),fun _ => zero⟩
    · exact early_append early (fun e member => exchange_early (inner e member))
    · intro first
      rcases next with third | fourth
      · exact absurd (third.symm.trans first) (by decide)
      · exact absurd (fourth.symm.trans first) (by decide)
  | aborts same fine inner =>
    obtain ⟨two,zero⟩ := inside inner
    subst same
    exact ⟨two,(fun running => by cases running),zero.trans_le (Nat.zero_le 1),fun _ => zero⟩
  | @exits body more same fine inner =>
    obtain ⟨two,zero⟩ := inside inner
    subst same
    have last : drops (start ++ more ++ [HandshakeEvent.setSelf,.free,.notify 0]) = 0 := by
      rw [drops_append,zero]
      rfl
    refine ⟨?_,(fun running => by cases running),last.trans_le (Nat.zero_le 1),fun _ => last⟩
    rw [takes_append,two]
    rfl
  | @fails c phase err more same broken inner =>
    obtain ⟨two,zero⟩ := inside inner
    obtain ⟨untaken,once⟩ := contextFree_drops (some c)
    subst same
    have again (e : Int) : takes (.invoke phaseError :: (contextFree false none ++ [HandshakeEvent.notify e])) = 0 ∧
        drops (.invoke phaseError :: (contextFree false none ++ [HandshakeEvent.notify e])) = 0 := ⟨rfl,rfl⟩
    refine ⟨?_,(fun running => by cases running),?_,fun made => absurd rfl made⟩
    · rw [takes_append,two,takes_append,untaken,(again err).1]
    · rw [drops_append,zero,drops_append,(again err).2,Nat.zero_add]
      exact once

theorem held_next {s : Handshake} (held : Held s) (round : Round) : Held (s.next false round) := by
  by_cases running : s.running = true
  · obtain ⟨waiting,later,kept⟩ := held.waiting running
    have taken := held.taken
    by_cases passed : round.err = 0
    · obtain ⟨c,-,advance⟩ := next_advance false waiting passed
      have received : takes (s.completes round).trace = 2 ∧ drops (s.completes round).trace = 0 := by
        obtain ⟨c,context,-⟩ := waiting.context
        simp only [Handshake.completes,context,ne_eq,passed,not_true_eq_false,if_false,later]
        split
        · exact ⟨by rw [takes_append,taken]; rfl,by rw [drops_append,kept]; rfl⟩
        · exact ⟨taken,kept⟩
      refine advance_held ?_ ?_ ?_ advance
      · exact early_append (waiting.completes round).1.early (invoke_early (entry_early s.nextPhase) s.nextPhase)
      · rw [takes_append,received.1,entry,if_neg later]
        rfl
      · rw [drops_append,received.2,entry,if_neg later]
        rfl
    · obtain ⟨c,-,same⟩ := next_failed false waiting passed
      obtain ⟨untaken,once⟩ := contextFree_drops (some c)
      rw [same]
      refine ⟨?_,(fun running => by cases running),?_,fun made => absurd rfl made⟩
      · rw [takes_append,takes_append,takes_append,taken,untaken]
        rfl
      · have one : drops [.invoke phaseError] = 0 ∧ drops [.notify round.err] = 0 := ⟨rfl,rfl⟩
        rw [drops_append,drops_append,drops_append,kept,one.1,one.2,Nat.zero_add,Nat.add_zero]
        exact once
  · rw [Handshake.next,if_neg running]
    exact held

/-- Once the socket is connected phase 1 takes the second reference. -/
theorem held_connected {r : Responses} {round : Round} (passed : round.err = 0) :
    Held ((handshakeStart false r).next false round) := by
  obtain ⟨c,-,advance⟩ := next_advance false (handshakeStart_waiting false r) passed
  refine advance_held ?_ ?_ ?_ advance
  · exact early_append ((handshakeStart_waiting false r).completes round).1.early (invoke_early (entry_early _) _)
  · simp [Handshake.completes,handshakeStart,runNextPhase,handshakeProcedure,passed,entry,takes,
      HandshakeEvent.base,phaseExit]
  · simp [Handshake.completes,handshakeStart,runNextPhase,handshakeProcedure,passed,entry,drops,
      HandshakeEvent.base,phaseExit]

theorem held_rounds {s : Handshake} (held : Held s) (rounds : List Round) :
    Held (rounds.foldl (Handshake.next false) s) := by
  induction rounds generalizing s with
  | nil => exact held
  | cons round rounds ih => exact ih (held_next held round)

/-- The life of an SSL object takes no reference and releases one at most. -/
theorem baseLife_counts {socket : Bool} {calls : List SocketCall} {events : List BaseEvent}
    (life : baseLife socket calls = some events) : events.count .take = 0 ∧ events.count .drop ≤ 1 := by
  induction calls generalizing socket events with
  | nil =>
    cases socket <;> cases life <;> decide
  | cons call calls ih =>
    obtain ⟨⟨socket',first⟩,called,life⟩ := Option.bind_eq_some_iff.mp life
    obtain ⟨rest,later,life⟩ := Option.bind_eq_some_iff.mp life
    cases life
    have one : first = [] ∨ first = [.use] := by
      cases call with
      | send uses | receive uses =>
        simp only [baseCall] at called
        split at called
        · split at called <;> cases called
          exact Or.inr rfl
        · cases called
          exact Or.inl rfl
      | close =>
        simp only [baseCall] at called
        split at called <;> cases called
        exact Or.inr rfl
    obtain ⟨untaken,once⟩ := ih later
    rcases one with rfl | rfl
    · exact ⟨untaken,once⟩
    · exact ⟨untaken,once⟩

/-- A socket that is connected is not released for good. -/
theorem Held.leaks {s : Handshake} (held : Held s) {calls : List SocketCall} {trace : List BaseEvent}
    (run : baseTrace s calls = some trace) : trace.count .drop < trace.count .take := by
  have counts (e : BaseEvent) : (s.trace.filterMap HandshakeEvent.base).count e =
      s.trace.countP (fun g => g.base == some e) := List.count_filterMap
  have taken : (s.trace.filterMap HandshakeEvent.base).count .take = 2 := (counts .take).trans held.taken
  have dropped : (s.trace.filterMap HandshakeEvent.base).count .drop = drops s.trace := counts .drop
  unfold baseTrace at run
  cases made : s.self with
  | none =>
    rw [made] at run
    cases run
    have once := held.once
    omega
  | some data =>
    rw [made] at run
    obtain ⟨life,lived,rfl⟩ := Option.map_eq_some_iff.mp run
    have none := held.moved (by rw [made]; exact Option.some_ne_none data)
    obtain ⟨untaken,once⟩ := baseLife_counts lived
    rw [List.count_append,List.count_append]
    omega

/-- A connect that fails leaves no socket. -/
theorem unconnected_trace {stale : Bool} {r : Responses} {round : Round} (failed : round.err ≠ 0)
    (rounds : List Round) (calls : List SocketCall) :
    baseTrace (handshake stale r (round :: rounds)) calls = some [] := by
  obtain ⟨c,context,same⟩ := next_failed stale (handshakeStart_waiting stale r) failed
  cases context
  rw [handshake,List.foldl_cons,same,next_stopped rfl]
  rfl

/-- Over a handshake and the life of its SSL object, whatever freed memory holds, the references to the TCP
socket are conserved exactly when the socket could not be connected. -/
theorem baseSocket_conserved_iff {r : Responses} {rounds : List Round} {calls : List SocketCall}
    (finished : ∀ stale, Finished (handshake stale r rounds) calls) :
    (∀ stale trace, baseTrace (handshake stale r rounds) calls = some trace → Conserved trace) ↔
      ConnectFails rounds := by
  cases rounds with
  | nil => cases (finished false).1
  | cons round rounds =>
    by_cases passed : round.err = 0
    · refine iff_of_false ?_ ?_
      · intro conserved
        obtain ⟨trace,run⟩ := Option.ne_none_iff_exists'.mp (finished false).2
        have held : Held (handshake false r (round :: rounds)) := held_rounds (held_connected passed) rounds
        exact absurd (conserved false trace run).balance (Nat.ne_of_lt (held.leaks run))
      · rintro ⟨round',head,failed⟩
        cases head
        exact failed passed
    · refine iff_of_true ?_ ⟨round,rfl,passed⟩
      intro stale trace run
      cases (unconnected_trace passed rounds calls).symm.trans run
      exact ⟨rfl,fun before after same => by simp at same⟩

def refused : Round := ⟨1,[],⟨0,fun _ => ⟨0,[]⟩,none,0⟩⟩

theorem baseSocket_conserved_refused : (∀ stale trace,
    baseTrace (handshake stale refused.responses [refused]) [] = some trace → Conserved trace) ↔
      ConnectFails [refused] :=
  baseSocket_conserved_iff (fun stale => by cases stale <;> decide)

def accepted : List Round :=
  [⟨0,[],⟨secOk,fun _ => ⟨continueNeeded,[1]⟩,none,0⟩⟩,⟨0,[],⟨secOk,fun _ => ⟨secOk,[]⟩,some [0],0⟩⟩,
    ⟨0,[2],⟨secOk,fun _ => ⟨secOk,[]⟩,none,0⟩⟩]

theorem baseSocket_leaked : (∀ stale, Finished (handshake stale refused.responses accepted) [.send true]) ∧
    ¬ ∀ stale trace, baseTrace (handshake stale refused.responses accepted) [.send true] = some trace →
      Conserved trace := by
  refine ⟨fun stale => by cases stale <;> decide,?_⟩
  intro conserved
  have run : baseTrace (handshake false refused.responses accepted) [.send true] =
      some [.take,.take,.use,.use,.drop] := by decide
  exact absurd (conserved false _ run).balance (by decide)

end Xrossfire.Ssl
