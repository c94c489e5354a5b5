import Xrossfire.Library.Pool
import Xrossfire.Library.Run
import Xrossfire.Library.Table

/-! The objects of `object.c` in memory, with what DESTROY does in the three kinds of socket. The steps of
`xf_object_release`, of the DESTROY branches and of `xf_socket_close` on an SSL socket are those between which
other threads may run. The completions of I/O, which look at objects too, are not among them. -/
namespace Xrossfire.Object
open Library Relation

abbrev Id := Nat

/-- The body of an object, by its procedure: `data->socket` of a server socket and `data->base_socket` of an
SSL socket, where `none` is `INVALID_SOCKET` or NULL. The handle of a TCP socket is not about references. -/
inductive Body
  | tcpSocket
  | serverSocket (socket : Option Nat)
  | sslSocket (baseSocket : Option Id)
deriving DecidableEq

/-- What has happened to an object; no code reads it. -/
structure Trace where
  /-- References of users that are not yet released. -/
  held : Nat
  /-- DESTROY messages, and calls of `closesocket` in them. -/
  destroyed : Nat
  closed : Nat
  /-- DESTROY has handed the reference to the base socket to a release. -/
  passed : Bool
  /-- TLS handshakes over this TCP socket. -/
  handshakes : Nat
deriving DecidableEq

/-- `struct xf_object` and the body behind it. -/
structure XfObject where
  ref : Int
  data : Nat
  body : Body
  freed : Bool
  trace : Trace
deriving DecidableEq

inductive Frame
  | user
  /-- `xf_object_release` at its decrement, at the call of the procedure, and at `free`. -/
  | release (a : Id)
  | destroy (a : Id)
  | free (a : Id)
  /-- DESTROY of a server socket after `closesocket`, and of an SSL socket after `xf_socket_release`. -/
  | closed (a : Id)
  | released (a : Id)
  /-- `__xf_socket_close` of an SSL socket at `xf_socket_close`, and at the write of NULL. -/
  | close (a : Id)
  | overwrite (a : Id)
deriving DecidableEq

inductive Made
  | made
  /-- `malloc` fails. -/
  | refused
  /-- A call after it fails; for an SSL socket an I/O of the handshake. -/
  | failed
deriving DecidableEq

inductive Call
  /-- A constructor with `xf_object_new` and the writes to the body. -/
  | new (body : Body) (result : Made)
  | addRef (a : Id)
  | release (a : Id)
  | close (a : Id)
  | setData (a : Id) (data : Nat)
deriving DecidableEq

structure State where
  objects : Id → XfObject
  next : Id
  threads : List (List Frame)
  /-- References that nobody has any more: the second one that a handshake takes of its base socket, and those
  that SSL sockets held and overwrote. -/
  lost : Id → Nat

namespace XfObject

/-- `xf_object_new`. -/
def fresh (body : Body) : XfObject := ⟨1,0,body,false,⟨1,0,0,false,0⟩⟩

def destroy (x : XfObject) : XfObject := {x with trace.destroyed := x.trace.destroyed + 1}

end XfObject

namespace State

def set (s : State) (a : Id) (x : XfObject) : State := {s with objects := Function.update s.objects a x}

def make (s : State) (body : Body) : State :=
  {s with objects := Function.update s.objects s.next (.fresh body), next := s.next + 1}

end State

def lose (lost : Id → Nat) (b : Option Id) (a : Id) : Nat := lost a + if b = some a then 1 else 0

/-- Phase 1 of `xf_async_ssl_handshake_procedure`: `xf_object_add_ref` of the base socket. -/
def State.handshake (s : State) (b : Id) : State :=
  let x := s.objects b
  {s.set b {x with ref := x.ref + 1, trace.handshakes := x.trace.handshakes + 1} with
    lost := lose s.lost (some b)}

def act (x : XfObject) : Frame → Option (XfObject × Option Id × List Frame)
  | .user => none
  | .release a => some ({x with ref := x.ref - 1},none,if x.ref - 1 > 0 then [] else [.destroy a,.free a])
  | .destroy a =>
    match x.body with
    | .tcpSocket => some (x.destroy,none,[])
    | .serverSocket (some _) =>
      some ({x.destroy with trace.closed := x.trace.closed + 1},none,[.closed a])
    | .serverSocket none => some (x.destroy,none,[])
    | .sslSocket (some b) => some ({x.destroy with trace.passed := true},none,[.release b,.released a])
    | .sslSocket none => some (x.destroy,none,[])
  | .closed _ =>
    match x.body with
    | .serverSocket _ => some ({x with body := .serverSocket none},none,[])
    | _ => none
  | .released _ =>
    match x.body with
    | .sslSocket _ => some ({x with body := .sslSocket none},none,[])
    | _ => none
  | .free _ => some ({x with freed := true},none,[])
  -- the call of a NULL base socket's procedure has no result
  | .close a =>
    match x.body with
    | .sslSocket (some _) => some (x,none,[.overwrite a])
    | _ => none
  | .overwrite _ =>
    match x.body with
    | .sslSocket base => some ({x with body := .sslSocket none, trace.held := x.trace.held + 1},base,[])
    | _ => none

namespace Frame

def subject : Frame → Option Id
  | user => none
  | release a | destroy a | free a | closed a | released a | close a | overwrite a => some a

def holds (a : Id) : Frame → Bool
  | release b | close b | overwrite b => b = a
  | _ => false

end Frame

/-- Users call only on objects they have a reference of; a call keeps one until it returns. The handshake has the
base socket's, and hands it to the SSL socket or releases it. -/
def call (s : State) : Call → Option (State × List Frame)
  | .new (.sslSocket (some b)) result =>
    let x := (s.handshake b).objects b
    if b < s.next ∧ 0 < x.trace.held then
      let s := (s.handshake b).set b {x with trace.held := x.trace.held - 1}
      match result with
      | .made => some (s.make (.sslSocket (some b)),[])
      -- the context is freed twice then, so that nothing follows
      | .refused => none
      | .failed => some (s,[.release b])
    else none
  | .new (.sslSocket none) _ | .new (.serverSocket none) _ => none
  | .new .tcpSocket result => some (if result = .made then s.make .tcpSocket else s,[])
  -- what is freed in `_ERROR` after a failed `WSAIoctl` or registration is an object that nobody has seen
  | .new (.serverSocket (some socket)) result =>
    some (if result = .made then s.make (.serverSocket (some socket)) else s,[])
  | .addRef a =>
    let x := s.objects a
    if a < s.next ∧ 0 < x.trace.held then
      some (s.set a {x with ref := x.ref + 1, trace.held := x.trace.held + 1},[])
    else none
  | .release a =>
    let x := s.objects a
    if a < s.next ∧ 0 < x.trace.held then some (s.set a {x with trace.held := x.trace.held - 1},[.release a])
    else none
  | .close a =>
    let x := s.objects a
    match x.body with
    | .sslSocket _ =>
      if a < s.next ∧ 0 < x.trace.held then some (s.set a {x with trace.held := x.trace.held - 1},[.close a])
      else none
    | _ => none
  | .setData a data =>
    let x := s.objects a
    if a < s.next ∧ 0 < x.trace.held then some (s.set a {x with data := data},[]) else none

inductive Event
  | spawn
  /-- A thread goes on with library code. -/
  | run (thread : Nat)
  | calls (thread : Nat) (call : Call)
deriving DecidableEq

def step (s : State) : Event → Option State
  | .spawn => some {s with threads := s.threads ++ [[.user]]}
  | .run thread =>
    match s.threads[thread]? with
    | some (f :: rest) => do
      let a ← f.subject
      let (x,b,frames) ← act (s.objects a) f
      return {s.set a x with threads := s.threads.set thread (frames ++ rest), lost := lose s.lost b}
    | _ => none
  | .calls thread c =>
    match s.threads[thread]? with
    | some (.user :: rest) => do
      let (s',frames) ← call s c
      return {s' with threads := s.threads.set thread (frames ++ [.user] ++ rest)}
    | _ => none

def start : State := ⟨fun _ => .fresh .tcpSocket,0,[],fun _ => 0⟩

def Step : State → State → Prop := Permitted step (fun _ _ => True)

def Reachable (s : State) : Prop := ReflTransGen Step start s

/-! ## Who has references -/

/-- An SSL socket has a reference of its base socket until DESTROY has handed it on. -/
def refers (a : Id) (x : XfObject) : Nat := if x.body = .sslSocket (some a) ∧ x.trace.passed = false then 1 else 0

def State.shares (s : State) (a : Id) : Nat :=
  (s.objects a).trace.held + tally (·.holds a) s.threads + total (refers a) s.objects s.next + s.lost a

/-- A point inside the last release of an object comes right before its `free`. -/
def Paired : List Frame → Prop
  | [] => True
  | .destroy a :: rest | .closed a :: rest | .released a :: rest => rest.head? = some (.free a) ∧ Paired rest
  | _ :: rest => Paired rest

structure Counted (s : State) : Prop where
  below : ∀ f ∈ s.threads.flatten, ∀ a, f.subject = some a → a < s.next
  bases : ∀ a < s.next, ∀ b, (s.objects a).body = .sslSocket (some b) → b < a
  lost : ∀ a, s.next ≤ a → s.lost a = 0
  leaks : ∀ a < s.next, 0 < s.lost a ↔ 0 < (s.objects a).trace.handshakes
  based : ∀ a < s.next, ∀ b, (s.objects a).body = .sslSocket (some b) → 0 < s.lost b
  ledger : ∀ a < s.next, (s.objects a).ref = s.shares a
  dying : ∀ a < s.next, tally (· = .free a) s.threads + (s.objects a).freed.toNat =
    if 0 < (s.objects a).ref then 0 else 1
  destroying : ∀ a < s.next, tally (· = .destroy a) s.threads + (s.objects a).trace.destroyed =
    if 0 < (s.objects a).ref then 0 else 1
  passed : ∀ a < s.next, (s.objects a).trace.passed = true → 0 < (s.objects a).trace.destroyed
  handed : ∀ a < s.next, 0 < (s.objects a).trace.destroyed → ∀ b, (s.objects a).body = .sslSocket (some b) →
    (s.objects a).trace.passed = true
  released : ∀ a, .released a ∈ s.threads.flatten → (s.objects a).trace.passed = true
  closing : ∀ a, .closed a ∈ s.threads.flatten → 0 < (s.objects a).trace.destroyed
  server : ∀ a < s.next, ∀ socket, (s.objects a).body = .serverSocket socket →
    (s.objects a).trace.closed = (s.objects a).trace.destroyed ∧
      (socket = none → 0 < (s.objects a).trace.destroyed)
  nested : Stacks (fun _ stack => Paired stack) s.threads

inductive Acts (x : XfObject) : Frame → XfObject → Option Id → List Frame → Prop
  | release {a : Id} (more : 1 < x.ref) : Acts x (.release a) {x with ref := x.ref - 1} none []
  | releaseLast {a : Id} (last : x.ref ≤ 1) :
      Acts x (.release a) {x with ref := x.ref - 1} none [.destroy a,.free a]
  | destroyServer {a : Id} {socket : Nat} (body : x.body = .serverSocket (some socket)) :
      Acts x (.destroy a) {x.destroy with trace.closed := x.trace.closed + 1} none [.closed a]
  | destroySsl {a b : Id} (body : x.body = .sslSocket (some b)) :
      Acts x (.destroy a) {x.destroy with trace.passed := true} none [.release b,.released a]
  | destroy {a : Id} (socket : ∀ socket, x.body ≠ .serverSocket (some socket))
      (base : ∀ b, x.body ≠ .sslSocket (some b)) : Acts x (.destroy a) x.destroy none []
  | closed {a : Id} {socket : Option Nat} (body : x.body = .serverSocket socket) :
      Acts x (.closed a) {x with body := .serverSocket none} none []
  | released {a : Id} {base : Option Id} (body : x.body = .sslSocket base) :
      Acts x (.released a) {x with body := .sslSocket none} none []
  | free {a : Id} : Acts x (.free a) {x with freed := true} none []
  | close {a b : Id} (body : x.body = .sslSocket (some b)) : Acts x (.close a) x none [.overwrite a]
  | overwrite {a : Id} {base : Option Id} (body : x.body = .sslSocket base) :
      Acts x (.overwrite a) {x with body := .sslSocket none, trace.held := x.trace.held + 1} base []

theorem act_acts {x x' : XfObject} {f : Frame} {b : Option Id} {frames : List Frame}
    (step : act x f = some (x',b,frames)) : Acts x f x' b frames := by
  revert step
  fun_cases act x f <;> intro step
  all_goals simp only [Option.some.injEq,Prod.mk.injEq,reduceCtorEq] at step
  all_goals obtain ⟨rfl,rfl,rfl⟩ := step
  · split
    · exact .release (by omega)
    · exact .releaseLast (by omega)
  · exact .destroy (by simp [*]) (by simp [*])
  · exact .destroyServer ‹_›
  · exact .destroy (by simp [*]) (by simp [*])
  · exact .destroySsl ‹_›
  · exact .destroy (by simp [*]) (by simp [*])
  · exact .closed ‹_›
  · exact .released ‹_›
  · exact .free
  · exact .close ‹_›
  · exact .overwrite ‹_›

section
variable {s : State} {thread : Nat} {a c : Id} {x x' : XfObject} {f : Frame} {rest frames : List Frame} {b : Option Id}

/-- What a step on one object changes in the references of each. -/
theorem shares_write (x : XfObject) (frames : List Frame) (lost : Id → Nat)
    (here : s.threads[thread]? = some (f :: rest)) (inside : a < s.next) (c : Id) :
    (State.shares {s.set a x with threads := s.threads.set thread (frames ++ rest), lost := lost} c : Int) =
      s.shares c + (if c = a then (x.trace.held : Int) - (s.objects a).trace.held else 0) +
        ((frames.countP (·.holds c) : Int) - [f].countP (·.holds c)) +
        ((refers c x : Int) - refers c (s.objects a)) + ((lost c : Int) - s.lost c) := by
  have points := tally_set (·.holds c) here frames
  have top := tally_top (·.holds c) here
  have written : total (refers c) (Function.update s.objects a x) s.next + refers c (s.objects a) =
      total (refers c) s.objects s.next + refers c x := total_write inside
  simp only [State.shares,State.set]
  by_cases same : c = a
  · subst same
    rw [if_pos rfl,Function.update_self]
    omega
  · rw [if_neg same,Function.update_of_ne same]
    omega

structure Moves (a : Id) (x : XfObject) (f : Frame) (x' : XfObject) (b : Option Id) (frames : List Frame) : Prop where
  shares : ∀ c, (if c = a then x'.ref - x.ref else 0) =
    (if c = a then (x'.trace.held : Int) - x.trace.held else 0) +
      ((frames.countP (·.holds c) : Int) - [f].countP (·.holds c)) + ((refers c x' : Int) - refers c x) +
      ((if b = some c then 1 else 0 : Nat) : Int)
  dies : frames.countP (· = .free a) + x'.freed.toNat + (if 0 < x.ref then 0 else 1) =
    [f].countP (· = .free a) + x.freed.toNat + (if 0 < x'.ref then 0 else 1)
  destroys : frames.countP (· = .destroy a) + x'.trace.destroyed + (if 0 < x.ref then 0 else 1) =
    [f].countP (· = .destroy a) + x.trace.destroyed + (if 0 < x'.ref then 0 else 1)
  apart : ∀ c ≠ a, (frames.countP (· = .free c) = 0 ∧ [f].countP (· = .free c) = 0) ∧
    frames.countP (· = .destroy c) = 0 ∧ [f].countP (· = .destroy c) = 0
  subjects : ∀ g ∈ frames, ∀ c, g.subject = some c → c = a ∨ x.body = .sslSocket (some c)
  bases : ∀ c, x'.body = .sslSocket (some c) → x.body = .sslSocket (some c)
  lost : ∀ c, b = some c → x.body = .sslSocket (some c) ∨ c = a ∧ 0 < x'.trace.handshakes
  shakes : x'.trace.handshakes = x.trace.handshakes ∨ b = some a ∧ 0 < x'.trace.handshakes
  passed : x'.trace.passed = true → 0 < x'.trace.destroyed
  handed : 0 < x'.trace.destroyed → ∀ b, x'.body = .sslSocket (some b) → x'.trace.passed = true
  lasting : x.trace.passed = true → x'.trace.passed = true
  later : x.trace.destroyed ≤ x'.trace.destroyed
  released : ∀ c, .released c ∈ frames → c = a ∧ x'.trace.passed = true
  closed : ∀ c, .closed c ∈ frames → c = a ∧ 0 < x'.trace.destroyed
  server : ∀ socket, x'.body = .serverSocket socket →
    x'.trace.closed = x'.trace.destroyed ∧ (socket = none → 0 < x'.trace.destroyed)
  nested : ∀ rest, Paired (f :: rest) → Paired (frames ++ rest)

structure Placed (a : Id) (x : XfObject) (f : Frame) : Prop where
  subject : f.subject = some a
  alive : f.holds a = true → 0 < x.ref
  unfreed : f = .free a → x.freed = false
  undestroyed : f = .destroy a → x.trace.destroyed = 0
  kept : f = .destroy a ∨ f = .overwrite a → x.trace.passed = false
  given : f = .released a → x.trace.passed = true
  closing : f = .closed a → 0 < x.trace.destroyed
  handed : 0 < x.trace.destroyed → ∀ b, x.body = .sslSocket (some b) → x.trace.passed = true
  passed : x.trace.passed = true → 0 < x.trace.destroyed
  server : ∀ socket, x.body = .serverSocket socket →
    x.trace.closed = x.trace.destroyed ∧ (socket = none → 0 < x.trace.destroyed)

/-- The listening socket is closed in the one DESTROY. -/
theorem act_server (placed : Placed a x f) (step : Acts x f x' b frames) : ∀ socket, x'.body = .serverSocket socket →
    x'.trace.closed = x'.trace.destroyed ∧ (socket = none → 0 < x'.trace.destroyed) := by
  obtain ⟨subject,-,-,undestroyed,-,-,closing,-,-,server⟩ := placed
  cases step with
  | destroy socket base =>
    cases subject
    intro own body
    cases own with
    | some n => exact absurd body (socket n)
    | none => exact absurd (undestroyed rfl) (Nat.ne_of_gt ((server none body).2 rfl))
  | _ =>
    cases subject
    simp_all [XfObject.destroy]

theorem act_moves (placed : Placed a x f) (step : Acts x f x' b frames) : Moves a x f x' b frames := by
  have server := act_server placed step
  obtain ⟨subject,alive,unfreed,-,kept,given,-,handed,passed,-⟩ := placed
  constructor
  case server => exact server
  case shares =>
    intro c
    clear handed passed unfreed alive server
    cases step <;> cases subject
    all_goals simp_all [refers,Frame.holds,XfObject.destroy]
    all_goals grind
  all_goals clear server kept given
  case dies =>
    clear handed passed
    cases step <;> cases subject
    all_goals simp_all [XfObject.destroy,Frame.holds]
    all_goals grind
  case destroys =>
    clear handed passed unfreed
    cases step <;> cases subject
    all_goals simp_all [XfObject.destroy,Frame.holds]
    all_goals grind
  all_goals clear alive unfreed
  case handed =>
    cases step <;> cases subject
    all_goals simp_all [XfObject.destroy]
  all_goals
    clear handed
    cases step <;> cases subject
    all_goals simp_all [XfObject.destroy,Frame.subject,Paired]
    all_goals exact fun c other => Ne.symm other

/-- A call of a user on an object it has a reference of. -/
theorem call_moves (lost : Bool) (alive : 0 < x.ref) (positive : 0 < x'.ref) (body : x'.body = x.body)
    (freed : x'.freed = x.freed) (destroyed : x'.trace.destroyed = x.trace.destroyed)
    (closed : x'.trace.closed = x.trace.closed)
    (flag : x'.trace.passed = x.trace.passed) (passed : x.trace.passed = true → 0 < x.trace.destroyed)
    (handed : 0 < x.trace.destroyed → ∀ b, x.body = .sslSocket (some b) → x.trace.passed = true)
    (server : ∀ socket, x.body = .serverSocket socket → x.trace.closed = x.trace.destroyed ∧
      (socket = none → 0 < x.trace.destroyed))
    (pushed : frames = [] ∨ frames = [.release a] ∨ frames = [.close a])
    (shakes : if lost then 0 < x'.trace.handshakes else x'.trace.handshakes = x.trace.handshakes)
    (ledger : x'.ref - x.ref = x'.trace.held - x.trace.held + (frames.length : Int) + lost.toNat) :
    Moves a x .user x' (if lost then some a else none) (frames ++ [.user]) := by
  have points (c : Id) : (frames ++ [Frame.user]).countP (Frame.holds c) = if a = c then frames.length else 0 := by
    rcases pushed with rfl | rfl | rfl <;> simp [Frame.holds,List.countP_cons]
  have same (c : Id) : refers c x' = refers c x := by
    rw [refers,refers,body,flag]
  constructor
  case shares =>
    intro c
    have user : [Frame.user].countP (Frame.holds c) = 0 := rfl
    rw [points,same,user]
    by_cases own : c = a
    · rw [if_pos own,if_pos own,if_pos own.symm]
      cases lost <;> simp [own] at ledger ⊢ <;> omega
    · rw [if_neg own,if_neg own,if_neg (Ne.symm own)]
      cases lost <;> simp [Ne.symm own]
  case dies =>
    rw [if_pos alive,if_pos positive,freed]
    rcases pushed with rfl | rfl | rfl <;> simp
  case destroys =>
    rw [if_pos alive,if_pos positive,destroyed]
    rcases pushed with rfl | rfl | rfl <;> simp
  case bases => exact fun c own => body ▸ own
  case lost =>
    intro c own
    cases lost with
    | false => cases own
    | true => exact Or.inr ⟨(Option.some.inj own).symm,shakes⟩
  case shakes =>
    cases lost with
    | false => exact Or.inl shakes
    | true => exact Or.inr ⟨rfl,shakes⟩
  case passed => rw [flag,destroyed]; exact passed
  case handed => rw [destroyed,body,flag]; exact handed
  case lasting => rw [flag]; exact id
  case later => exact Nat.le_of_eq destroyed.symm
  case server => rw [body,closed,destroyed]; exact server
  all_goals rcases pushed with rfl | rfl | rfl <;> simp_all [Frame.subject,Paired]

end

end Xrossfire.Object
