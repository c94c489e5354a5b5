import Xrossfire.Library.Run
import Xrossfire.Async.Object

/-! The `context` of an async, a union that the operations on it fill in turn: what their completions write through
it and use of it, and what `xf_io_async_clear` frees of it at the end. -/
namespace Xrossfire.Tcp.Context
open Library Relation
open Async (Io Operation)

/-- A pointer, by what it points to. The operations of an async are counted from 1; each has its out parameter and
the socket it was called on, and one that allocates makes one list or buffer. -/
inductive Word
  | null
  | out (n : Nat)
  | socket (n : Nat)
  | addrs (n : Nat)
  | buffer (n : Nat)
deriving DecidableEq

/-- `xf_io_async_t`, as far as the operations keep pointers in it. In `context` the first word is `connect.addrs`,
`disconnect.self` and `accept.out_accepted_socket`, the second `connect.self`, `receive.transfered` and `accept.self`,
and the fourth `accept.buf`. -/
structure IoAsync where
  ioType : Io
  first : Word
  second : Word
  buf : Word
deriving DecidableEq

inductive Result
  | socket (n : Nat)
  | length (transfered : Int)
deriving DecidableEq

/-- Where the operation is; a point stands before the call or the write it is named after. -/
inductive Point
  | idle
  -- xf_socket_connect_tcp, socket_connect_async and xf_io_completed_socket_connect_phase2
  | lookupEnter
  | lookup
  | socket
  | connectEnter
  | connecting
  -- __xf_socket_receive and xf_io_completed_socket_receive
  | receiveEnter
  | receiving
  -- __xf_socket_send and xf_io_completed_socket_send
  | sendStore
  | sendEnter
  | sending
  -- __xf_socket_close and xf_io_completed_socket_disconnect
  | ioctl
  | closeEnter
  | closing
  -- __xf_server_socket_accept and xf_io_completed_server_socket_accept
  | acceptSocket
  | acceptStore
  | acceptAlloc
  | accept
  | accepting
  | accepted
  /-- At `xf_async_notify`, with 0 or an error. -/
  | ending (ok : Bool)
deriving DecidableEq

structure Answer where
  op : Nat
  wanted : Bool
  ok : Bool
deriving DecidableEq

structure State where
  io : IoAsync
  point : Point
  /-- The operation at `point`, or the last one, and whether it has an out parameter. -/
  own : Nat
  wanted : Bool
  canceled : Bool
  freed : Bool
  /-- The address lists and the buffers allocated, and what `FreeAddrInfoExW` and `free` were called with. -/
  lists : List Nat
  buffers : List Nat
  listsFreed : List Word
  buffersFreed : List Word
  /-- The writes through `context`, and the pointers in it that a completion has used. -/
  writes : List (Word × Result)
  uses : List (Nat × Word)
  /-- The operations that have set `io_type`, the last one first, what the operations came to, and their notifies. -/
  starts : List (Nat × Io)
  reports : List (Nat × Result)
  answers : List Answer
deriving DecidableEq

namespace State

def go (s : State) (point : Point) : State := {s with point := point}

def attempt (s : State) (ok : Bool) (point : Point) : State := s.go (if ok = true then point else .ending false)

/-- The operation sets `io_type`, with the words of `context` as given. -/
def store (s : State) (io : IoAsync) : State := {s with io := io, starts := (s.own,io.ioType) :: s.starts}

def answer (s : State) (ok : Bool) : State := {s.go .idle with answers := ⟨s.own,s.wanted,ok⟩ :: s.answers}

def deliver (s : State) (pointer : Word) (result : Result) : State :=
  {s with writes := (pointer,result) :: s.writes, reports := (s.own,result) :: s.reports}

/-- `xf_async_enter`; `inside` runs under the lock. -/
def enter (s : State) (inside : State → State) : State := if s.canceled = true then s.answer false else inside s

/-- `xf_io_async_clear`. -/
def clear (s : State) : State :=
  match s.io.ioType with
  | .connectPhase1 | .connectPhase2 =>
    {s with listsFreed := s.io.first :: s.listsFreed, io := {s.io with first := .null}}
  | .accept => {s with buffersFreed := s.io.buf :: s.buffersFreed, io := {s.io with buf := .null}}
  | .disconnect | .receive | .send => s

def destroy (s : State) : State := {s.clear with freed := true}

end State

def entry : Operation → Point
  | .connect => .lookupEnter
  | .receive => .receiveEnter
  | .send => .sendStore
  | .close => .ioctl
  | .accept => .acceptSocket

/-- The operation has an out parameter; a receive may be called without `receive_length`. -/
def wants (op : Operation) (receiveLength : Bool) : Bool :=
  match op with
  | .connect | .accept => true
  | .receive => receiveLength
  | .send | .close => false

def State.begin (s : State) (op : Operation) (receiveLength : Bool) : State :=
  {s.go (entry op) with own := s.own + 1, wanted := wants op receiveLength}

/-- The operation moves on; `ok` is how the calls and the I/O it was at come out. -/
def turn (s : State) (ok : Bool) (transfered : Int) : Option State :=
  match s.point with
  | .idle => none
  | .lookupEnter =>
    -- memset(io_async, 0, sizeof(xf_io_async_t))
    some (s.enter (fun s => (s.store ⟨.connectPhase1,.null,.out s.own,.null⟩).go .lookup))
  | .lookup =>
    some (if ok = true then
      {s.go .socket with io := {s.io with first := .addrs s.own}, lists := s.own :: s.lists}
    else s.go (.ending false))
  | .socket => some (s.attempt ok .connectEnter)
  | .connectEnter => some (s.enter (fun s => (s.store {s.io with ioType := .connectPhase2}).attempt ok .connecting))
  | .connecting => some (if ok = true then (s.deliver s.io.second (.socket s.own)).go (.ending true)
      else s.go (.ending false))
  | .receiveEnter =>
    some (s.enter (fun s => (s.store {s.io with
      ioType := .receive
      second := if s.wanted = true then .out s.own else .null}).attempt ok .receiving))
  | .receiving =>
    some (if ok = true then
      (if s.io.second ≠ .null then s.deliver s.io.second (.length transfered) else s).go (.ending true)
    else s.go (.ending false))
  | .sendStore => some ((s.store {s.io with ioType := .send}).go .sendEnter)
  | .sendEnter => some (s.enter (fun s => s.attempt ok .sending))
  | .sending => some (s.go (.ending ok))
  | .ioctl => some (s.attempt ok .closeEnter)
  | .closeEnter =>
    some (s.enter (fun s => (s.store {s.io with ioType := .disconnect, first := .socket s.own}).attempt ok .closing))
  | .closing => some {s.go (.ending ok) with uses := (s.own,s.io.first) :: s.uses}
  | .acceptSocket => some (s.attempt ok .acceptStore)
  | .acceptStore =>
    some ((s.store {s.io with ioType := .accept, first := .out s.own, second := .socket s.own}).go .acceptAlloc)
  | .acceptAlloc =>
    some (if ok = true then {s.go .accept with io := {s.io with buf := .buffer s.own}, buffers := s.own :: s.buffers}
      else s.go (.ending false))
  | .accept => some (s.attempt ok .accepting)
  | .accepting =>
    some (if ok = true then {s.go .accepted with uses := (s.own,s.io.second) :: (s.own,s.io.buf) :: s.uses}
      else s.go (.ending false))
  | .accepted => some (if ok = true then (s.deliver s.io.first (.socket s.own)).go (.ending true)
      else s.go (.ending false))
  | .ending ok => some (s.answer ok)

inductive Event
  | begin (op : Operation) (receiveLength : Bool)
  | turn (ok : Bool) (transfered : Int)
  /-- A `_cancel`, as far as `context` goes. -/
  | cancel
  | destroy
deriving DecidableEq

/-- Freed memory has no result. -/
def step (s : State) (event : Event) : Option State :=
  if s.freed = true then none
  else
    match event with
    | .begin op receiveLength =>
      if s.point = .idle then some (s.begin op receiveLength) else none
    | .turn ok transfered => turn s ok transfered
    | .cancel => some {s with canceled := true}
    | .destroy => some s.destroy

def start : State where
  io := ⟨.connectPhase1,.null,.null,.null⟩
  point := .idle
  own := 0
  wanted := false
  canceled := false
  freed := false
  lists := []
  buffers := []
  listsFreed := []
  buffersFreed := []
  writes := []
  uses := []
  starts := []
  reports := []
  answers := []

def Reachable (s : State) : Prop := ReflTransGen (Permitted step (fun _ _ => True)) start s

/-! ## What the operations deliver -/

def Placed (s : State) : Point → Prop
  | .idle | .receiveEnter => True
  | .lookupEnter | .acceptSocket | .acceptStore => s.wanted = true
  | .lookup | .socket | .connectEnter | .connecting => s.wanted = true ∧ s.io.second = .out s.own
  | .receiving => s.io.second = if s.wanted = true then .out s.own else .null
  | .sendStore | .sendEnter | .sending | .ioctl | .closeEnter => s.wanted = false
  | .closing => s.wanted = false ∧ s.io.first = .socket s.own
  | .acceptAlloc => s.wanted = true ∧ s.io.first = .out s.own ∧ s.io.second = .socket s.own
  | .accept | .accepting | .accepted =>
    s.wanted = true ∧ s.io.first = .out s.own ∧ s.io.second = .socket s.own ∧ s.io.buf = .buffer s.own
  | .ending ok => s.wanted = true → (ok = true ↔ s.own ∈ s.reports.map Prod.fst)

structure Served (s : State) : Prop where
  writes : s.writes = s.reports.map (fun r => (.out r.1,r.2))
  once : (s.reports.map Prod.fst).Nodup
  uses : ∀ u ∈ s.uses, u.2 = .socket u.1 ∨ u.2 = .buffer u.1
  answered : (s.answers.map Answer.op).Nodup
  told : ∀ a ∈ s.answers, a.wanted = true → (a.ok = true ↔ a.op ∈ s.reports.map Prod.fst)

structure Serving (s : State) : Prop extends Served s where
  reports : ∀ n ∈ s.reports.map Prod.fst, n ≤ s.own ∧ (n = s.own → s.point = .idle ∨ s.point = .ending true)
  answers : ∀ n ∈ s.answers.map Answer.op, n ≤ s.own ∧ (n = s.own → s.point = .idle)
  placed : Placed s s.point

def Point.working : Point → Bool
  | idle | ending _ => false
  | _ => true

theorem Point.working_busy {point : Point} (working : point.working = true) : point ≠ .idle := by
  rintro rfl
  cases working

structure Quiet (s s' : State) : Prop where
  own : s'.own = s.own
  writes : s'.writes = s.writes
  reports : s'.reports = s.reports
  answers : s'.answers = s.answers

namespace Serving
variable {s s' : State} {ok : Bool} {point : Point}

theorem unreported (h : Serving s) (working : s.point.working = true) : s.own ∉ s.reports.map Prod.fst := by
  intro member
  rcases (h.reports _ member).2 rfl with here | here <;> simp [here,Point.working] at working

theorem unanswered (h : Serving s) (busy : s.point ≠ .idle) : s.own ∉ s.answers.map Answer.op :=
  fun member => busy ((h.answers _ member).2 rfl)

/-- An operation that has not reported is over with a failure. -/
theorem failed (h : Serving s) (working : s.point.working = true) : false = true ↔ s.own ∈ s.reports.map Prod.fst :=
  ⟨Bool.noConfusion,fun member => absurd member (h.unreported working)⟩

theorem quiet (h : Serving s) (working : s.point.working = true) (same : Quiet s s')
    (uses : ∀ u ∈ s'.uses, u.2 = .socket u.1 ∨ u.2 = .buffer u.1) (placed : Placed s' s'.point) : Serving s' := by
  constructor
  · constructor
    · rw [same.writes,same.reports]
      exact h.writes
    · rw [same.reports]
      exact h.once
    · exact uses
    · rw [same.answers]
      exact h.answered
    · rw [same.answers,same.reports]
      exact h.told
  · rw [same.reports,same.own]
    intro n member
    refine ⟨(h.reports n member).1,fun own => absurd (own ▸ member) (h.unreported working)⟩
  · rw [same.answers,same.own]
    intro n member
    refine ⟨(h.answers n member).1,fun own => absurd (own ▸ member) (h.unanswered (Point.working_busy working))⟩
  · exact placed

/-- The operation goes on, or is over without a result. -/
theorem go (h : Serving s) (working : s.point.working = true) (placed : Placed s point) : Serving (s.go point) :=
  h.quiet working ⟨rfl,rfl,rfl,rfl⟩ h.uses (by cases point <;> exact placed)

theorem fail (h : Serving s) (working : s.point.working = true) : Serving (s.go (.ending false)) :=
  h.go working (fun _ => h.failed working)

theorem attempt (h : Serving s) (working : s.point.working = true) (placed : Placed s point) :
    Serving (s.attempt ok point) := by
  cases ok with
  | false => exact h.fail working
  | true => exact h.go working placed

theorem answer (h : Serving s) (busy : s.point ≠ .idle)
    (told : s.wanted = true → (ok = true ↔ s.own ∈ s.reports.map Prod.fst)) : Serving (s.answer ok) := by
  constructor
  · refine ⟨h.writes,h.once,h.uses,List.nodup_cons.mpr ⟨h.unanswered busy,h.answered⟩,?_⟩
    intro a member
    rcases List.mem_cons.mp member with rfl | member
    · exact told
    · exact h.told a member
  · exact fun n member => ⟨(h.reports n member).1,fun _ => .inl rfl⟩
  · intro n member
    rcases List.mem_cons.mp member with rfl | member
    · exact ⟨le_rfl,fun _ => rfl⟩
    · exact ⟨(h.answers n member).1,fun _ => rfl⟩
  · trivial

theorem enter (h : Serving s) (working : s.point.working = true) {inside : State → State}
    (serving : Serving (inside s)) : Serving (s.enter inside) := by
  rw [State.enter]
  split
  · exact h.answer (Point.working_busy working) (fun _ => h.failed working)
  · exact serving

theorem deliver (h : Serving s) (working : s.point.working = true) {pointer : Word} (own : pointer = .out s.own)
    (result : Result) : Serving ((s.deliver pointer result).go (.ending true)) := by
  constructor
  · refine ⟨?_,List.nodup_cons.mpr ⟨h.unreported working,h.once⟩,h.uses,h.answered,?_⟩
    · rw [own]
      exact congrArg (List.cons (.out s.own,result)) h.writes
    · intro a member wanted
      have other : a.op ≠ s.own := by
        intro same
        exact h.unanswered (Point.working_busy working) (same ▸ List.mem_map_of_mem member)
      change _ ↔ a.op ∈ s.own :: s.reports.map Prod.fst
      rw [List.mem_cons,or_iff_right other]
      exact h.told a member wanted
  · intro n member
    rcases List.mem_cons.mp member with rfl | member
    · exact ⟨le_rfl,fun _ => .inr rfl⟩
    · exact ⟨(h.reports n member).1,fun _ => .inr rfl⟩
  · intro n member
    exact ⟨(h.answers n member).1,fun own => absurd (own ▸ member) (h.unanswered (Point.working_busy working))⟩
  · exact fun _ => ⟨fun _ => List.mem_cons_self,fun _ => rfl⟩

end Serving

theorem serving_turn {s s' : State} (h : Serving s) {ok : Bool} {transfered : Int}
    (run : turn s ok transfered = some s') : Serving s' := by
  have placed := h.placed
  have works {point : Point} (here : s.point = point) (working : point.working = true) : s.point.working = true :=
    here ▸ working
  cases here : s.point with
  | idle => simp [turn,here] at run
  | lookupEnter =>
    simp only [turn,here,Option.some.injEq] at run placed
    subst run
    exact h.enter (works here rfl) (h.quiet (works here rfl) ⟨rfl,rfl,rfl,rfl⟩ h.uses ⟨placed,rfl⟩)
  | lookup =>
    simp only [turn,here,Option.some.injEq] at run placed
    subst run
    split
    · exact h.quiet (works here rfl) ⟨rfl,rfl,rfl,rfl⟩ h.uses placed
    · exact h.fail (works here rfl)
  | connectEnter =>
    simp only [turn,here,Option.some.injEq] at run placed
    subst run
    refine h.enter (works here rfl) ?_
    cases ok with
    | false =>
      exact h.quiet (works here rfl) ⟨rfl,rfl,rfl,rfl⟩ h.uses (h.fail (works here rfl)).placed
    | true => exact h.quiet (works here rfl) ⟨rfl,rfl,rfl,rfl⟩ h.uses placed
  | receiveEnter =>
    simp only [turn,here,Option.some.injEq] at run placed
    subst run
    refine h.enter (works here rfl) ?_
    cases ok with
    | false =>
      exact h.quiet (works here rfl) ⟨rfl,rfl,rfl,rfl⟩ h.uses (h.fail (works here rfl)).placed
    | true => exact h.quiet (works here rfl) ⟨rfl,rfl,rfl,rfl⟩ h.uses rfl
  | closeEnter =>
    simp only [turn,here,Option.some.injEq] at run placed
    subst run
    refine h.enter (works here rfl) ?_
    cases ok with
    | false =>
      exact h.quiet (works here rfl) ⟨rfl,rfl,rfl,rfl⟩ h.uses (h.fail (works here rfl)).placed
    | true => exact h.quiet (works here rfl) ⟨rfl,rfl,rfl,rfl⟩ h.uses ⟨placed,rfl⟩
  | sendEnter =>
    simp only [turn,here,Option.some.injEq] at run placed
    subst run
    exact h.enter (works here rfl) (h.attempt (works here rfl) placed)
  | socket | ioctl | acceptSocket | accept =>
    simp only [turn,here,Option.some.injEq] at run placed
    subst run
    exact h.attempt (works here rfl) placed
  | sendStore =>
    simp only [turn,here,Option.some.injEq] at run placed
    subst run
    exact h.quiet (works here rfl) ⟨rfl,rfl,rfl,rfl⟩ h.uses placed
  | acceptStore =>
    simp only [turn,here,Option.some.injEq] at run placed
    subst run
    exact h.quiet (works here rfl) ⟨rfl,rfl,rfl,rfl⟩ h.uses ⟨placed,rfl,rfl⟩
  | acceptAlloc =>
    simp only [turn,here,Option.some.injEq] at run placed
    subst run
    split
    · exact h.quiet (works here rfl) ⟨rfl,rfl,rfl,rfl⟩ h.uses ⟨placed.1,placed.2.1,placed.2.2,rfl⟩
    · exact h.fail (works here rfl)
  | connecting =>
    simp only [turn,here,Option.some.injEq] at run placed
    subst run
    split
    · exact h.deliver (works here rfl) placed.2 _
    · exact h.fail (works here rfl)
  | accepted =>
    simp only [turn,here,Option.some.injEq] at run placed
    subst run
    split
    · exact h.deliver (works here rfl) placed.2.1 _
    · exact h.fail (works here rfl)
  | receiving =>
    simp only [turn,here,Option.some.injEq] at run placed
    subst run
    split
    · rw [Placed] at placed
      rw [placed]
      split
      · exact h.deliver (works here rfl) rfl _
      · refine h.go (works here rfl) ?_
        intro wanted
        contradiction
    · exact h.fail (works here rfl)
  | sending =>
    simp only [turn,here,Option.some.injEq] at run placed
    subst run
    exact h.go (works here rfl) (fun wanted => absurd (placed.symm.trans wanted) (by decide))
  | closing =>
    simp only [turn,here,Option.some.injEq] at run placed
    subst run
    refine h.quiet (works here rfl) ⟨rfl,rfl,rfl,rfl⟩ ?_ (fun wanted => absurd (placed.1.symm.trans wanted) (by decide))
    intro u member
    rcases List.mem_cons.mp member with rfl | member
    · exact .inl placed.2
    · exact h.uses u member
  | accepting =>
    simp only [turn,here,Option.some.injEq] at run placed
    subst run
    split
    · refine h.quiet (works here rfl) ⟨rfl,rfl,rfl,rfl⟩ ?_ placed
      intro u member
      rcases List.mem_cons.mp member with rfl | member
      · exact .inl placed.2.2.1
      rcases List.mem_cons.mp member with rfl | member
      · exact .inr placed.2.2.2
      · exact h.uses u member
    · exact h.fail (works here rfl)
  | ending ended =>
    simp only [turn,here,Option.some.injEq] at run placed
    subst run
    exact h.answer (by rw [here]; exact Point.noConfusion) placed

/-! ## What the union holds -/

/-- `xf_io_async_clear` frees a list. -/
def IoAsync.lists (io : IoAsync) : Bool := io.ioType = .connectPhase1 ∨ io.ioType = .connectPhase2

namespace Point

def fresh : Point → Bool
  | lookupEnter | receiveEnter | sendStore | ioctl | closeEnter | acceptSocket | acceptStore => true
  | _ => false

def looks : Point → Bool
  | lookup | socket | connectEnter | connecting | ending _ | idle => true
  | _ => false

def finds : Point → Bool
  | socket | connectEnter | connecting | ending _ | idle => true
  | _ => false

def allocates : Point → Bool
  | accept | accepting | accepted | ending _ | idle => true
  | _ => false

def Leads (p p' : Point) : Prop :=
  (p'.fresh = true → p.fresh = true) ∧ (p.looks = true → p'.looks = true) ∧ (p.finds = true → p'.finds = true) ∧
    (p.allocates = true → p'.allocates = true)

instance (p p' : Point) : Decidable (p.Leads p') := inferInstanceAs (Decidable ((_ → _) ∧ _))

theorem leads_ending (p : Point) (ok : Bool) : p.Leads (.ending ok) := ⟨nofun,fun _ => rfl,fun _ => rfl,fun _ => rfl⟩

theorem leads_idle (p : Point) : p.Leads .idle := ⟨nofun,fun _ => rfl,fun _ => rfl,fun _ => rfl⟩

end Point

def State.Last (s : State) (n : Nat) : Prop := ∃ io, s.starts.head? = some (n,io)

def State.Unwritten (s : State) (n : Nat) : Prop :=
  (∀ m ∈ s.buffers, m ≤ n) ∧ ∀ m, (m,.connectPhase1) ∈ s.starts → m < n

def Found (s : State) : Point → Prop
  | .lookup => s.Last s.own ∧ s.io.lists = true
  | .socket | .connectEnter => s.own ∈ s.lists ∧ s.io.first = .addrs s.own
  | _ => True

structure Keeping (s : State) : Prop where
  starts : ∀ p ∈ s.starts, p.1 ≤ s.own ∧ (p.1 = s.own → s.point.fresh = false)
  looked : ∀ n, (n,.connectPhase1) ∈ s.starts → n = s.own → s.point.looks = true
  found : ∀ n ∈ s.lists, n ≤ s.own ∧ (n = s.own → s.point.finds = true)
  allocated : ∀ n ∈ s.buffers, n ≤ s.own ∧ (n = s.own → s.point.allocates = true)
  accepts : s.io.ioType = .accept ↔ ∃ n, s.starts.head? = some (n,.accept)
  first : s.io.lists = true → s.io.first = .null ∨ ∃ n ∈ s.lists, s.io.first = .addrs n
  lists : ∀ n ∈ s.lists, s.io.lists = true ∧ s.io.first = .addrs n ↔ s.Last n
  buf : s.io.buf = .null ∨ ∃ n ∈ s.buffers, s.io.buf = .buffer n
  buffers : ∀ n ∈ s.buffers, s.io.buf = .buffer n ↔ s.Unwritten n
  here : Found s s.point

structure Still (s s' : State) : Prop where
  own : s'.own = s.own
  io : s'.io = s.io
  lists : s'.lists = s.lists
  buffers : s'.buffers = s.buffers
  starts : s'.starts = s.starts

section Numbers
variable {n own : Nat}

/-- What is of no later operation, and not of this one, is of an earlier one. -/
theorem own_before {mine : Bool} (known : n ≤ own ∧ (n = own → mine = true)) (other : mine = false) : n < own := by
  refine lt_of_le_of_ne known.1 (fun same => ?_)
  rw [known.2 same] at other
  cases other

theorem own_begin {mine : Prop} (bound : n ≤ own) : n ≤ own + 1 ∧ (n = own + 1 → mine) :=
  ⟨Nat.le_succ_of_le bound,fun same => absurd same (Nat.ne_of_lt (Nat.lt_succ_of_le bound))⟩

end Numbers

namespace Keeping
variable {s s' : State} {ok : Bool} {point : Point}

theorem still (h : Keeping s) (same : Still s s') (leads : s.point.Leads s'.point) (here : Found s' s'.point) :
    Keeping s' := by
  obtain ⟨own,io,lists,buffers,starts⟩ := same
  constructor
  · rw [starts,own]
    refine fun p member => ⟨(h.starts p member).1,fun same => ?_⟩
    have started := (h.starts p member).2 same
    cases fresh : s'.point.fresh with
    | false => rfl
    | true => rw [leads.1 fresh] at started; cases started
  · rw [starts,own]
    exact fun n member same => leads.2.1 (h.looked n member same)
  · rw [lists,own]
    exact fun n member => ⟨(h.found n member).1,fun same => leads.2.2.1 ((h.found n member).2 same)⟩
  · rw [buffers,own]
    exact fun n member => ⟨(h.allocated n member).1,fun same => leads.2.2.2 ((h.allocated n member).2 same)⟩
  · rw [io,starts]
    exact h.accepts
  · rw [io,lists]
    exact h.first
  · rw [lists]
    intro n member
    rw [io,State.Last,starts]
    exact h.lists n member
  · rw [io,buffers]
    exact h.buf
  · rw [buffers]
    intro n member
    rw [io,State.Unwritten,starts,buffers]
    exact h.buffers n member
  · exact here

theorem idle_point (h : Keeping s) (fresh : s.point.fresh = true) :
    s.own ∉ s.starts.map Prod.fst ∧ s.own ∉ s.lists ∧ s.own ∉ s.buffers := by
  refine ⟨?_,?_,?_⟩
  · intro member
    obtain ⟨p,member,same⟩ := List.mem_map.mp member
    rw [(h.starts p member).2 same] at fresh
    cases fresh
  · intro member
    exact absurd ((h.found _ member).2 rfl) (by cases here : s.point <;> simp_all [Point.fresh,Point.finds])
  · intro member
    exact absurd ((h.allocated _ member).2 rfl) (by cases here : s.point <;> simp_all [Point.fresh,Point.allocates])

/-- The operation sets `io_type`, and not to that of a connect. -/
theorem store (h : Keeping s) (fresh : s.point.fresh = true) {io : IoAsync} (other : io.lists = false)
    (buf : io.buf = s.io.buf) (busy : point.fresh = false) (here : Found (s.store io) point) :
    Keeping ((s.store io).go point) := by
  obtain ⟨unstarted,unlisted,unbuffered⟩ := h.idle_point fresh
  have other' : io.ioType ≠ .connectPhase1 := by
    intro same
    simp [IoAsync.lists,same] at other
  constructor
  · intro p member
    rcases List.mem_cons.mp member with rfl | member
    · exact ⟨le_rfl,fun _ => busy⟩
    · exact ⟨(h.starts p member).1,fun _ => busy⟩
  · intro n member own
    rcases List.mem_cons.mp member with same | member
    · exact absurd (Prod.mk.inj same).2.symm other'
    · exact absurd (List.mem_map.mpr ⟨_,member,own⟩) unstarted
  · exact fun n member => ⟨(h.found n member).1,fun own => absurd (own ▸ member) unlisted⟩
  · exact fun n member => ⟨(h.allocated n member).1,fun own => absurd (own ▸ member) unbuffered⟩
  · constructor
    · exact fun accept => ⟨s.own,congrArg (fun t => some (s.own,t)) accept⟩
    · intro ⟨n,last⟩
      exact (Prod.mk.inj (Option.some.inj last)).2
  · intro lists
    rw [show ((s.store io).go point).io = io from rfl,other] at lists
    cases lists
  · intro n member
    constructor
    · intro ⟨lists,_⟩
      rw [show ((s.store io).go point).io = io from rfl,other] at lists
      cases lists
    · intro ⟨_,last⟩
      rw [← (Prod.mk.inj (Option.some.inj last)).1] at member
      exact absurd member unlisted
  · have kept := h.buf
    rwa [← buf] at kept
  · intro n member
    have kept := h.buffers n member
    rw [← buf] at kept
    refine kept.trans (and_congr_right (fun _ => forall_congr' (fun m => ?_)))
    change _ ↔ (m,.connectPhase1) ∈ (s.own,io.ioType) :: s.starts → _
    rw [List.mem_cons,or_iff_right]
    intro same
    exact other' (Prod.mk.inj same).2.symm
  · cases point <;> exact here

/-- `memset` and the first store of a connect. -/
theorem look (h : Keeping s) (here : s.point = .lookupEnter) :
    Keeping ((s.store ⟨.connectPhase1,.null,.out s.own,.null⟩).go .lookup) := by
  obtain ⟨_,unlisted,unbuffered⟩ := h.idle_point (by rw [here]; rfl)
  constructor
  · intro p member
    rcases List.mem_cons.mp member with rfl | member
    · exact ⟨le_rfl,fun _ => rfl⟩
    · exact ⟨(h.starts p member).1,fun _ => rfl⟩
  · exact fun _ _ _ => rfl
  · exact fun n member => ⟨(h.found n member).1,fun own => absurd (own ▸ member) unlisted⟩
  · exact fun n member => ⟨(h.allocated n member).1,fun own => absurd (own ▸ member) unbuffered⟩
  · constructor
    · intro accept
      cases accept
    · intro ⟨n,last⟩
      cases (Prod.mk.inj (Option.some.inj last)).2
  · exact fun _ => .inl rfl
  · intro n member
    constructor
    · intro ⟨_,first⟩
      cases first
    · intro ⟨_,last⟩
      rw [← (Prod.mk.inj (Option.some.inj last)).1] at member
      exact absurd member unlisted
  · exact .inl rfl
  · intro n member
    constructor
    · intro buf
      cases buf
    · intro unwritten
      exact absurd (unwritten.2 s.own List.mem_cons_self) (Nat.not_lt.mpr (h.allocated n member).1)
  · exact ⟨⟨_,rfl⟩,rfl⟩

/-- The lookup has left its list. -/
theorem find (h : Keeping s) (here : s.point = .lookup) :
    Keeping {s.go .socket with io := {s.io with first := .addrs s.own}, lists := s.own :: s.lists} := by
  have placed := h.here
  rw [here] at placed
  obtain ⟨⟨io,last⟩,lists⟩ := placed
  constructor
  · exact fun p member => ⟨(h.starts p member).1,fun _ => rfl⟩
  · exact fun _ _ _ => rfl
  · intro n member
    rcases List.mem_cons.mp member with rfl | member
    · exact ⟨le_rfl,fun _ => rfl⟩
    · exact ⟨(h.found n member).1,fun _ => rfl⟩
  · intro n member
    have earlier := own_before (h.allocated n member) (by rw [here]; rfl)
    exact ⟨earlier.le,fun own => absurd own earlier.ne⟩
  · exact h.accepts
  · exact fun _ => .inr ⟨s.own,List.mem_cons_self,rfl⟩
  · intro n member
    constructor
    · intro ⟨_,first⟩
      rw [← Word.addrs.inj first]
      exact ⟨io,last⟩
    · intro ⟨_,last'⟩
      rw [← (Prod.mk.inj (Option.some.inj (last.symm.trans last'))).1]
      exact ⟨lists,rfl⟩
  · exact h.buf
  · exact h.buffers
  · exact ⟨List.mem_cons_self,rfl⟩

/-- The second store of a connect. -/
theorem connect (h : Keeping s) (here : s.point = .connectEnter) (busy : point.fresh = false)
    (finds : point.finds = true) (looks : point.looks = true)
    (found : Found (s.store {s.io with ioType := .connectPhase2}) point) :
    Keeping ((s.store {s.io with ioType := .connectPhase2}).go point) := by
  have placed := h.here
  rw [here] at placed
  obtain ⟨listed,first⟩ := placed
  constructor
  · intro p member
    rcases List.mem_cons.mp member with rfl | member
    · exact ⟨le_rfl,fun _ => busy⟩
    · exact ⟨(h.starts p member).1,fun _ => busy⟩
  · exact fun _ _ _ => looks
  · exact fun n member => ⟨(h.found n member).1,fun _ => finds⟩
  · intro n member
    have earlier := own_before (h.allocated n member) (by rw [here]; rfl)
    exact ⟨earlier.le,fun own => absurd own earlier.ne⟩
  · constructor
    · intro accept
      cases accept
    · intro ⟨n,last⟩
      cases (Prod.mk.inj (Option.some.inj last)).2
  · exact fun _ => .inr ⟨s.own,listed,first⟩
  · intro n member
    constructor
    · intro ⟨_,first'⟩
      rw [← Word.addrs.inj (first.symm.trans first')]
      exact ⟨_,rfl⟩
    · intro ⟨_,last⟩
      rw [← (Prod.mk.inj (Option.some.inj last)).1]
      exact ⟨rfl,first⟩
  · exact h.buf
  · intro n member
    refine (h.buffers n member).trans (and_congr_right (fun _ => forall_congr' (fun m => ?_)))
    change _ ↔ (m,.connectPhase1) ∈ (s.own,.connectPhase2) :: s.starts → _
    rw [List.mem_cons,or_iff_right]
    intro same
    cases (Prod.mk.inj same).2
  · cases point <;> exact found

/-- The buffer of an accept. -/
theorem allocate (h : Keeping s) (here : s.point = .acceptAlloc) :
    Keeping {s.go .accept with io := {s.io with buf := .buffer s.own}, buffers := s.own :: s.buffers} := by
  have unlooked (n : Nat) (member : (n,.connectPhase1) ∈ s.starts) : n < s.own :=
    own_before ⟨(h.starts _ member).1,h.looked n member⟩ (by rw [here]; rfl)
  have unbuffered (n : Nat) (member : n ∈ s.buffers) : n < s.own :=
    own_before (h.allocated n member) (by rw [here]; rfl)
  constructor
  · exact fun p member => ⟨(h.starts p member).1,fun _ => rfl⟩
  · exact fun n member own => absurd own (unlooked n member).ne
  · intro n member
    have earlier := own_before (h.found n member) (by rw [here]; rfl)
    exact ⟨earlier.le,fun own => absurd own earlier.ne⟩
  · intro n member
    rcases List.mem_cons.mp member with rfl | member
    · exact ⟨le_rfl,fun _ => rfl⟩
    · exact ⟨(h.allocated n member).1,fun _ => rfl⟩
  · exact h.accepts
  · exact h.first
  · exact h.lists
  · exact .inr ⟨s.own,List.mem_cons_self,rfl⟩
  · intro n member
    constructor
    · intro buf
      rw [← Word.buffer.inj buf]
      refine ⟨fun m member => ?_,unlooked⟩
      rcases List.mem_cons.mp member with rfl | member
      · exact le_rfl
      · exact (unbuffered m member).le
    · intro unwritten
      have bound := unwritten.1 s.own List.mem_cons_self
      rcases List.mem_cons.mp member with rfl | member
      · rfl
      · exact absurd bound (Nat.not_le.mpr (unbuffered n member))
  · trivial

end Keeping

theorem keeping_turn {s s' : State} (h : Keeping s) {ok : Bool} {transfered : Int}
    (run : turn s ok transfered = some s') : Keeping s' := by
  have enter {inside : State → State} (keeps : Keeping (inside s)) : Keeping (s.enter inside) := by
    rw [State.enter]
    split
    · exact h.still ⟨rfl,rfl,rfl,rfl,rfl⟩ s.point.leads_idle trivial
    · exact keeps
  have fail : Keeping (s.go (.ending false)) := h.still ⟨rfl,rfl,rfl,rfl,rfl⟩ (s.point.leads_ending false) trivial
  have attempt {point : Point} (leads : s.point.Leads point) (found : Found s point) :
      Keeping (s.attempt ok point) := by
    cases ok with
    | false => exact fail
    | true => exact h.still ⟨rfl,rfl,rfl,rfl,rfl⟩ leads (by cases point <;> exact found)
  have placed := h.here
  cases here : s.point with
  | idle => simp [turn,here] at run
  | lookupEnter =>
    simp only [turn,here,Option.some.injEq] at run
    subst run
    exact enter (h.look here)
  | lookup =>
    simp only [turn,here,Option.some.injEq] at run
    subst run
    split
    · exact h.find here
    · exact fail
  | socket =>
    simp only [turn,here,Option.some.injEq] at run placed
    subst run
    exact attempt (by rw [here]; decide) placed
  | connectEnter =>
    simp only [turn,here,Option.some.injEq] at run
    subst run
    refine enter ?_
    cases ok with
    | false => exact h.connect here rfl rfl rfl trivial
    | true => exact h.connect here rfl rfl rfl trivial
  | receiveEnter | closeEnter =>
    simp only [turn,here,Option.some.injEq] at run
    subst run
    refine enter ?_
    cases ok with
    | false => exact h.store (by rw [here]; rfl) rfl rfl rfl trivial
    | true => exact h.store (by rw [here]; rfl) rfl rfl rfl trivial
  | sendStore | acceptStore =>
    simp only [turn,here,Option.some.injEq] at run
    subst run
    exact h.store (by rw [here]; rfl) rfl rfl rfl trivial
  | sendEnter =>
    simp only [turn,here,Option.some.injEq] at run
    subst run
    exact enter (attempt (by rw [here]; decide) trivial)
  | ioctl | acceptSocket | accept =>
    simp only [turn,here,Option.some.injEq] at run
    subst run
    exact attempt (by rw [here]; decide) trivial
  | acceptAlloc =>
    simp only [turn,here,Option.some.injEq] at run
    subst run
    split
    · exact h.allocate here
    · exact fail
  | connecting | accepted =>
    simp only [turn,here,Option.some.injEq] at run
    subst run
    split
    · exact h.still ⟨rfl,rfl,rfl,rfl,rfl⟩ (s.point.leads_ending true) trivial
    · exact fail
  | receiving =>
    simp only [turn,here,Option.some.injEq] at run
    subst run
    split
    · split
      · exact h.still ⟨rfl,rfl,rfl,rfl,rfl⟩ (s.point.leads_ending true) trivial
      · exact h.still ⟨rfl,rfl,rfl,rfl,rfl⟩ (s.point.leads_ending true) trivial
    · exact fail
  | sending | closing =>
    simp only [turn,here,Option.some.injEq] at run
    subst run
    exact h.still ⟨rfl,rfl,rfl,rfl,rfl⟩ (s.point.leads_ending ok) trivial
  | accepting =>
    simp only [turn,here,Option.some.injEq] at run
    subst run
    split
    · refine h.still ⟨rfl,rfl,rfl,rfl,rfl⟩ ?_ trivial
      rw [here]
      exact (by decide : Point.accepting.Leads .accepted)
    · exact fail
  | ending ended =>
    simp only [turn,here,Option.some.injEq] at run
    subst run
    exact h.still ⟨rfl,rfl,rfl,rfl,rfl⟩ s.point.leads_idle trivial

/-! ## Every run -/

structure Held (s : State) : Prop where
  serving : Serving s
  keeping : Keeping s
  live : s.freed = false
  unfreed : s.listsFreed = [] ∧ s.buffersFreed = []

theorem enter_frees {s : State} {inside : State → State}
    (same : (inside s).freed = s.freed ∧ (inside s).listsFreed = s.listsFreed ∧
      (inside s).buffersFreed = s.buffersFreed) :
    (s.enter inside).freed = s.freed ∧ (s.enter inside).listsFreed = s.listsFreed ∧
      (s.enter inside).buffersFreed = s.buffersFreed := by
  rw [State.enter]
  split
  · exact ⟨rfl,rfl,rfl⟩
  · exact same

theorem turn_frees {s s' : State} {ok : Bool} {transfered : Int} (run : turn s ok transfered = some s') :
    s'.freed = s.freed ∧ s'.listsFreed = s.listsFreed ∧ s'.buffersFreed = s.buffersFreed := by
  rw [turn] at run
  split at run
  · cases run
  all_goals
    cases run
    first
    | exact ⟨rfl,rfl,rfl⟩
    | exact enter_frees ⟨rfl,rfl,rfl⟩
    | (split <;> exact ⟨rfl,rfl,rfl⟩)
    | (split <;> first | exact ⟨rfl,rfl,rfl⟩ | (split <;> exact ⟨rfl,rfl,rfl⟩))

theorem serving_begin {s : State} (h : Serving s) (op : Operation) (receiveLength : Bool) :
    Serving (s.begin op receiveLength) where
  toServed := ⟨h.writes,h.once,h.uses,h.answered,h.told⟩
  reports n member := own_begin (h.reports n member).1
  answers n member := own_begin (h.answers n member).1
  placed := by cases op <;> trivial

theorem keeping_begin {s : State} (h : Keeping s) (op : Operation) (receiveLength : Bool) :
    Keeping (s.begin op receiveLength) where
  starts p member := own_begin (h.starts p member).1
  looked _ member := (own_begin (h.starts _ member).1).2
  found n member := own_begin (h.found n member).1
  allocated n member := own_begin (h.allocated n member).1
  accepts := h.accepts
  first := h.first
  lists := h.lists
  buf := h.buf
  buffers := h.buffers
  here := by cases op <;> trivial

theorem start_held : Held start := by
  constructor
  · constructor
    · exact ⟨rfl,List.nodup_nil,nofun,List.nodup_nil,nofun⟩
    · exact nofun
    · exact nofun
    · trivial
  · constructor
    · exact nofun
    · exact nofun
    · exact nofun
    · exact nofun
    · constructor
      · exact nofun
      · exact nofun
    · exact fun _ => .inl rfl
    · exact nofun
    · exact .inl rfl
    · exact nofun
    · trivial
  · rfl
  · exact ⟨rfl,rfl⟩

theorem held_step {s s' : State} (h : Held s) {event : Event} (run : step s event = some s') :
    Held s' ∨ s' = s.destroy := by
  have alive : ¬s.freed = true := by
    rw [h.live]
    exact Bool.false_ne_true
  simp only [step,if_neg alive] at run
  cases event with
  | begin op receiveLength =>
    simp only [Option.ite_none_right_eq_some,Option.some.injEq] at run
    obtain ⟨_,rfl⟩ := run
    exact .inl ⟨serving_begin h.serving op receiveLength,keeping_begin h.keeping op receiveLength,h.live,h.unfreed⟩
  | turn ok transfered =>
    obtain ⟨freed,lists,buffers⟩ := turn_frees run
    refine .inl ⟨serving_turn h.serving run,keeping_turn h.keeping run,freed.trans h.live,?_⟩
    rw [lists,buffers]
    exact h.unfreed
  | cancel =>
    cases run
    refine .inl ⟨?_,?_,h.live,h.unfreed⟩
    · exact ⟨⟨h.serving.writes,h.serving.once,h.serving.uses,h.serving.answered,h.serving.told⟩,h.serving.reports,
        h.serving.answers,h.serving.placed⟩
    · exact h.keeping.still ⟨rfl,rfl,rfl,rfl,rfl⟩ ⟨id,id,id,id⟩ h.keeping.here
  | destroy =>
    cases run
    exact .inr rfl

/-- A live async, or what its destruction has left of one. -/
theorem reachable_held {s : State} (run : Reachable s) : ∃ t, Held t ∧ (s = t ∨ s = t.destroy) := by
  have keeps (s s' : State) (h : ∃ t, Held t ∧ (s = t ∨ s = t.destroy)) (next : Permitted step (fun _ _ => True) s s') :
      ∃ t, Held t ∧ (s' = t ∨ s' = t.destroy) := by
    obtain ⟨t,h,rfl | rfl⟩ := h
    · obtain ⟨event,-,next⟩ := next
      rcases held_step h next with held | rfl
      · exact ⟨s',held,.inl rfl⟩
      · exact ⟨s,h,.inr rfl⟩
    · obtain ⟨event,-,next⟩ := next
      cases next
  exact run_invariant keeps run ⟨start,start_held,.inl rfl⟩

theorem clear_served {s : State} (h : Served s) : Served s.destroy := by
  cases here : s.io.ioType <;> simp only [State.destroy,State.clear,here] <;>
    exact ⟨h.writes,h.once,h.uses,h.answered,h.told⟩

theorem reachable_served {s : State} (run : Reachable s) : Served s := by
  obtain ⟨t,h,rfl | rfl⟩ := reachable_held run
  · exact h.serving.toServed
  · exact clear_served h.serving.toServed

/-- A connect and a receive, and the end of the async. -/
def connectedAndReceived : List Event :=
  .begin .connect true :: List.replicate 6 (.turn true 0) ++ .begin .receive true ::
    [.turn true 0,.turn true 5,.turn true 0,.destroy]

theorem reachable_served_received :
    ∃ s, Reachable s ∧ s.writes = [(.out 2,.length 5),(.out 1,.socket 1)] ∧ Served s := by
  obtain ⟨s,run,holds⟩ : ∃ s, Reachable s ∧ decide (s.writes = [(.out 2,.length 5),(.out 1,.socket 1)]) = true :=
    perform_reachable connectedAndReceived (by decide)
  exact ⟨s,run,of_decide_eq_true holds,reachable_served run⟩

/-- What becomes of the lists and the buffers. A list is freed if no later operation has set `io_type`, a buffer if the
last operation that did is an accept and its own pointer is still there. -/
structure Cleared (s : State) : Prop where
  live : s.freed = false → s.listsFreed = [] ∧ s.buffersFreed = []
  lists : s.freed = true → ∀ n ∈ s.lists,
    s.listsFreed.count (.addrs n) ≤ 1 ∧ (.addrs n ∈ s.listsFreed ↔ s.Last n)
  buffers : s.freed = true → ∀ n ∈ s.buffers,
    s.buffersFreed.count (.buffer n) ≤ 1 ∧
      (.buffer n ∈ s.buffersFreed ↔ (∃ m, s.starts.head? = some (m,.accept)) ∧ s.Unwritten n)
  allocated : ∀ w, w ∈ s.listsFreed ∨ w ∈ s.buffersFreed →
    w = .null ∨ (∃ n ∈ s.lists, w = .addrs n) ∨ ∃ n ∈ s.buffers, w = .buffer n

/-- What the destruction of a live async frees. -/
theorem destroy_frees {s : State} (h : Held s) :
    s.destroy.listsFreed = (if s.io.lists = true then [s.io.first] else []) ∧
      s.destroy.buffersFreed = if s.io.ioType = .accept then [s.io.buf] else [] := by
  obtain ⟨lists,buffers⟩ := h.unfreed
  cases here : s.io.ioType <;> simp [State.destroy,State.clear,IoAsync.lists,here,lists,buffers]

/-- It changes nothing else that is told of. -/
theorem destroy_same (s : State) :
    s.destroy.lists = s.lists ∧ s.destroy.buffers = s.buffers ∧ s.destroy.starts = s.starts := by
  cases here : s.io.ioType <;> simp [State.destroy,State.clear,here]

theorem reachable_cleared {s : State} (run : Reachable s) : Cleared s := by
  obtain ⟨t,h,rfl | rfl⟩ := reachable_held run
  · refine ⟨fun _ => h.unfreed,?_,?_,?_⟩
    · intro freed
      rw [h.live] at freed
      cases freed
    · intro freed
      rw [h.live] at freed
      cases freed
    · rw [h.unfreed.1,h.unfreed.2]
      intro w member
      rcases member with member | member <;> cases member
  · obtain ⟨listsFreed,buffersFreed⟩ := destroy_frees h
    obtain ⟨lists,buffers,starts⟩ := destroy_same t
    constructor
    · intro freed
      cases freed
    · intro _ n member
      rw [lists] at member
      rw [listsFreed,State.Last,starts]
      have last := h.keeping.lists n member
      constructor
      · split
        · exact List.count_le_length
        · exact Nat.zero_le _
      · rw [← State.Last,← last]
        split
        · rename_i kind
          rw [List.mem_singleton,and_iff_right kind,eq_comm]
        · rename_i kind
          simp [kind]
    · intro _ n member
      rw [buffers] at member
      rw [buffersFreed,State.Unwritten,starts,buffers]
      have unwritten := h.keeping.buffers n member
      constructor
      · split
        · exact List.count_le_length
        · exact Nat.zero_le _
      · rw [← State.Unwritten,← unwritten,← h.keeping.accepts]
        split
        · rename_i kind
          rw [List.mem_singleton,and_iff_right kind,eq_comm]
        · rename_i kind
          simp [kind]
    · rw [listsFreed,buffersFreed,lists,buffers]
      intro w member
      rcases member with member | member
      · split at member
        · rename_i kind
          rw [List.mem_singleton] at member
          subst member
          exact (h.keeping.first kind).imp_right .inl
        · cases member
      · split at member
        · rw [List.mem_singleton] at member
          subst member
          exact h.keeping.buf.imp_right .inr
        · cases member

theorem reachable_cleared_received :
    ∃ s, Reachable s ∧ s.freed = true ∧ s.lists = [1] ∧ s.listsFreed = [] ∧ Cleared s := by
  obtain ⟨s,run,holds⟩ : ∃ s, Reachable s ∧ decide (s.freed = true ∧ s.lists = [1] ∧ s.listsFreed = []) = true :=
    perform_reachable connectedAndReceived (by decide)
  obtain ⟨freed,lists,listsFreed⟩ := of_decide_eq_true holds
  exact ⟨s,run,freed,lists,listsFreed,reachable_cleared run⟩

end Xrossfire.Tcp.Context
