import Xrossfire.Inet.Parse
import Xrossfire.Library.Run
import Xrossfire.Library.Table

/-! The server sockets of `tcp_server.c`, made and released by any number of threads; a handle that is closed may be
given out again at once. -/
namespace Xrossfire.Tcp.Listening
open Library Relation Inet

abbrev Socket := Nat

def AF_INET : Int := 2

def AF_INET6 : Int := 23

/-- `XF_ERROR`. -/
def error : Int := 1

/-- `struct sockaddr_in` and `struct sockaddr_in6`, as far as they are written. -/
inductive Sockaddr
  | in4 (family : Int) (port : UInt16) (addr : InAddr)
  | in6 (family : Int) (port : UInt16) (addr : In6Addr)
deriving DecidableEq

/-- The argument is an `int`, of which the parameter takes the low 16 bits. -/
def htons (port : Int) : UInt16 := ntohs (UInt16.ofNat (port % 2 ^ 16).toNat)

structure Kernel where
  family : Int
  reuse : Bool
  bound : Option Sockaddr
  backlog : Option Int
  /-- The socket belongs to the completion port. -/
  registered : Bool
deriving DecidableEq

/-- `xf_tcp_server_socket_data_t`, with the arguments of the call that made it, which no code reads. -/
structure Server where
  socket : Socket
  addressFamily : Int
  accept : Bool
  getAcceptSocketAddr : Bool
  host : XfString
  port : Int
deriving DecidableEq

/-- Where `xf_server_socket_new` is; a point stands before the call it is named after. -/
inductive Point
  | socket
  | setsockopt
  | bind
  | listen
  | object
  | acceptEx
  | acceptExSockaddrs
  | register
  | close
  | free
  | returned (err : Int)
  | aborted
deriving DecidableEq

structure Call where
  host : XfString
  port : Int
  family : Int
  address : Option Sockaddr
  listenfd : Option Socket
  server : Option Server
  point : Point
deriving DecidableEq

structure Stack where
  digit : Nat → Int
  ipType : Int
  inAddr : InAddr
  in6Addr : In6Addr

def begin (host : XfString) (port : Int) (stack : Stack) : Call :=
  let (parsed,ipType,inAddr,in6Addr) := inetParse stack.digit host stack.ipType stack.inAddr stack.in6Addr
  if parsed = false then ⟨host,port,0,none,none,none,.close⟩
  else if ipType = XF_IPV4 then ⟨host,port,AF_INET,some (.in4 AF_INET (htons port) inAddr),none,none,.socket⟩
  else if ipType = XF_IPV6 then ⟨host,port,AF_INET6,some (.in6 AF_INET6 (htons port) in6Addr),none,none,.socket⟩
  else ⟨host,port,0,none,none,none,.aborted⟩

/-- How a call of the system comes out; `socket` may return any handle that is not open. -/
inductive Outcome
  | ok
  | failed
  | opened (h : Socket)
deriving DecidableEq

abbrev Sockets := Socket → Option Kernel

def attempt (sockets : Sockets) (c : Call) (outcome : Outcome) (change : Kernel → Kernel) (next : Point) :
    Sockets × Call :=
  match outcome,c.listenfd with
  | .ok,some h => (Function.update sockets h ((sockets h).map change),{c with point := next})
  | .ok,none | .failed,_ | .opened _,_ => (sockets,{c with point := .close})

/-- The call moves on; at its end it may hand a server socket to its caller. -/
def advance (sockets : Sockets) (c : Call) (outcome : Outcome) : Option (Sockets × Call × Option Server) :=
  match c.point with
  | .socket =>
    match outcome with
    | .opened h =>
      if sockets h = none then
        some (Function.update sockets h (some ⟨c.family,false,none,none,false⟩),
          {c with listenfd := some h, point := .setsockopt},none)
      else none
    | .ok | .failed => some (sockets,{c with point := .close},none)
  | .setsockopt =>
    let (sockets,c) := attempt sockets c outcome (fun k => {k with reuse := true}) .bind
    some (sockets,c,none)
  | .bind =>
    let (sockets,c) := attempt sockets c outcome (fun k => {k with bound := c.address}) .listen
    some (sockets,c,none)
  | .listen =>
    let (sockets,c) := attempt sockets c outcome (fun k => {k with backlog := some 5}) .object
    some (sockets,c,none)
  | .object =>
    match outcome,c.listenfd with
    | .ok,some h =>
      some (sockets,{c with server := some ⟨h,c.family,false,false,c.host,c.port⟩, point := .acceptEx},none)
    | .ok,none | .failed,_ | .opened _,_ => some (sockets,{c with point := .close},none)
  | .acceptEx =>
    let (sockets,c) := attempt sockets c outcome id .acceptExSockaddrs
    some (sockets,{c with server := c.server.map (fun x => {x with accept := x.accept || outcome = .ok})},none)
  | .acceptExSockaddrs =>
    let (sockets,c) := attempt sockets c outcome id .register
    some (sockets,{c with server := c.server.map (fun x =>
      {x with getAcceptSocketAddr := x.getAcceptSocketAddr || outcome = .ok})},none)
  | .register =>
    match outcome with
    | .ok =>
      let (sockets,c) := attempt sockets c outcome (fun k => {k with registered := true}) (.returned 0)
      some (sockets,{c with server := none},c.server)
    | .failed | .opened _ => some (sockets,{c with point := .close},none)
  | .close =>
    match c.listenfd with
    | some h => some (Function.update sockets h none,{c with point := .free},none)
    | none => some (sockets,{c with point := .free},none)
  | .free => some (sockets,{c with server := none, point := .returned error},none)
  | .returned _ | .aborted => none

structure State where
  sockets : Sockets
  /-- The server sockets that the users have. -/
  servers : List Server
  calls : List Call

inductive Event
  | new (host : XfString) (port : Int) (stack : Stack)
  | turn (t : Nat) (outcome : Outcome)
  /-- The last `xf_server_socket_release` of a server socket: DESTROY closes its socket. -/
  | release (i : Nat)

def step (s : State) : Event → Option State
  | .new host port stack => some {s with calls := s.calls ++ [begin host port stack]}
  | .turn t outcome => do
    let c ← s.calls[t]?
    let (sockets,c,server) ← advance s.sockets c outcome
    return ⟨sockets,s.servers ++ server.toList,s.calls.set t c⟩
  | .release i => do
    let x ← s.servers[i]?
    return {s with sockets := Function.update s.sockets x.socket none, servers := s.servers.eraseIdx i}

def start : State := ⟨fun _ => none,[],[]⟩

def Reachable (s : State) : Prop := ReflTransGen (Permitted step (fun _ _ => True)) start s

/-! ## Who has which socket -/

/-- What a server socket for this host is to be: only the three wildcards are known. -/
def served (host : XfString) (port : Int) : Option Kernel :=
  if host = aster ∨ host = asterV4 then
    some ⟨AF_INET,true,some (.in4 AF_INET (htons port) inaddrAny),some 5,true⟩
  else if host = asterV6 then some ⟨AF_INET6,true,some (.in6 AF_INET6 (htons port) in6addrAny),some 5,true⟩
  else none

namespace Point

def inside : Point → Bool
  | socket | free | returned _ | aborted => false
  | setsockopt | bind | listen | object | acceptEx | acceptExSockaddrs | register | close => true

def going : Point → Bool
  | close | free | returned _ | aborted => false
  | socket | setsockopt | bind | listen | object | acceptEx | acceptExSockaddrs | register => true

def extensions : Point → Option (Bool × Bool)
  | acceptEx => some (false,false)
  | acceptExSockaddrs => some (true,false)
  | register => some (true,true)
  | socket | setsockopt | bind | listen | object | close | free | returned _ | aborted => none

end Point

namespace Call

def kernel (c : Call) : Option Kernel :=
  match c.point with
  | .setsockopt => some ⟨c.family,false,none,none,false⟩
  | .bind => some ⟨c.family,true,none,none,false⟩
  | .listen => some ⟨c.family,true,c.address,none,false⟩
  | .object | .acceptEx | .acceptExSockaddrs | .register => some ⟨c.family,true,c.address,some 5,false⟩
  | .socket | .close | .free | .returned _ | .aborted => none

def owns (h : Socket) (c : Call) : Nat := if c.listenfd = some h ∧ c.point.inside = true then 1 else 0

end Call

def Server.owns (h : Socket) (x : Server) : Nat := if x.socket = h then 1 else 0

def Sockets.opened (sockets : Sockets) (h : Socket) : Nat := if (sockets h).isSome then 1 else 0

structure Progress (sockets : Sockets) (c : Call) : Prop where
  target : c.point.going = true → served c.host c.port = some ⟨c.family,true,c.address,some 5,true⟩
  kernel : ∀ k, c.kernel = some k → ∃ h, c.listenfd = some h ∧ sockets h = some k
  closing : c.point = .close → ∀ h, c.listenfd = some h → (sockets h).isSome = true
  fresh : c.point = .socket → c.listenfd = none
  server : ∀ accept getAcceptSocketAddr, c.point.extensions = some (accept,getAcceptSocketAddr) →
    ∃ h, c.listenfd = some h ∧ c.server = some ⟨h,c.family,accept,getAcceptSocketAddr,c.host,c.port⟩
  unserved : served c.host c.port = none → c.listenfd = none
  ended : ∀ err, c.point = .returned err → (err = error ∨ err = 0 ∧ served c.host c.port ≠ none) ∧ c.server = none
  whole : c.point ≠ .aborted

structure Serves (sockets : Sockets) (x : Server) : Prop where
  kernel : ∃ k, sockets x.socket = some k ∧ served x.host x.port = some k ∧ x.addressFamily = k.family
  extensions : x.accept = true ∧ x.getAcceptSocketAddr = true

structure Owned (s : State) : Prop where
  calls : ∀ c ∈ s.calls, Progress s.sockets c
  servers : ∀ x ∈ s.servers, Serves s.sockets x
  /-- An open socket has one owner, a closed one has none. -/
  once : ∀ h, (s.calls.map (Call.owns h)).sum + (s.servers.map (Server.owns h)).sum = s.sockets.opened h

section
variable {s s' : State} {sockets sockets' : Sockets} {c c' : Call} {x : Server} {server : Option Server}
  {outcome : Outcome} {h : Socket} {event : Event}

/-- A call goes on to make a socket if the host is known. -/
theorem begin_eq (host : XfString) (port : Int) (stack : Stack) : begin host port stack =
    match served host port with
    | some k => ⟨host,port,k.family,k.bound,none,none,.socket⟩
    | none => ⟨host,port,0,none,none,none,.close⟩ := by
  rw [begin,inetParse_eq]
  by_cases v4 : host = aster ∨ host = asterV4
  · rw [served,if_pos v4,if_pos v4]
    rfl
  · rw [served,if_neg v4,if_neg v4]
    by_cases v6 : host = asterV6
    · rw [if_pos v6,if_pos v6]
      rfl
    · rw [if_neg v6,if_neg v6]
      rfl

theorem served_eq {host : XfString} {port : Int} {k : Kernel} (same : served host port = some k) :
    k = ⟨k.family,true,k.bound,some 5,true⟩ := by
  rw [served] at same
  split_ifs at same
  · cases same
    rfl
  · cases same
    rfl

theorem begin_progress (host : XfString) (port : Int) (stack : Stack) :
    Progress sockets (begin host port stack) ∧ (begin host port stack).listenfd = none := by
  rw [begin_eq]
  cases known : served host port with
  | some k =>
    refine ⟨⟨fun _ => ?_,by simp [Call.kernel],by simp,by simp,by simp [Point.extensions],by simp,by simp,by simp⟩,rfl⟩
    exact known.trans (congrArg some (served_eq known))
  | none =>
    exact ⟨⟨by simp [Point.going],by simp [Call.kernel],by simp,by simp,by simp [Point.extensions],by simp,by simp,
      by simp⟩,rfl⟩

structure Advances (sockets : Sockets) (c : Call) (sockets' : Sockets) (c' : Call) (server : Option Server) : Prop where
  progress : Progress sockets' c'
  served : ∀ x, server = some x → Serves sockets' x
  others : ∀ h, sockets' h ≠ sockets h → c.owns h = 1 ∨ sockets.opened h = 0
  balance : ∀ h, c'.owns h + (server.toList.map (Server.owns h)).sum + sockets.opened h = c.owns h + sockets'.opened h

theorem opened_update (h : Socket) (k : Option Kernel) (g : Socket) :
    Sockets.opened (Function.update sockets h k) g =
      if g = h then (if k.isSome then 1 else 0) else sockets.opened g := by
  by_cases same : g = h
  · subst same
    simp [Sockets.opened]
  · simp [Sockets.opened,same]

theorem owns_inside (inside : c.point.inside = true) (h : Socket) :
    c.owns h = if c.listenfd = some h then 1 else 0 := by
  rw [Call.owns,inside]
  simp

/-- When something fails the call goes to its end, where the socket is closed. -/
theorem Progress.fail (progress : Progress sockets c) (inside : c.point.inside = true)
    (alive : ∀ h, c.listenfd = some h → (sockets h).isSome = true) (x : Option Server) :
    Advances sockets c sockets {c with point := .close, server := x} none := by
  refine ⟨⟨by simp [Point.going],by simp [Call.kernel],fun _ => alive,by simp,by simp [Point.extensions],
    progress.unserved,by simp,by simp⟩,by simp,by simp,fun h => ?_⟩
  rw [owns_inside inside,owns_inside rfl]
  simp

/-- What succeeds takes the call on, with its socket changed. -/
theorem Progress.pass {k k' : Kernel} {point : Point} (progress : Progress sockets c) (going : c.point.going = true)
    (inside : c.point.inside = true) (here : c.listenfd = some h) (there : sockets h = some k)
    (going' : point.going = true) (inside' : point.inside = true)
    (kernel : Call.kernel {c with point := point, server := server} = some k')
    (block : ∀ accept getAcceptSocketAddr, point.extensions = some (accept,getAcceptSocketAddr) →
      server = some ⟨h,c.family,accept,getAcceptSocketAddr,c.host,c.port⟩) :
    Advances sockets c (Function.update sockets h (some k')) {c with point := point, server := server} none := by
  have target := progress.target going
  refine ⟨⟨fun _ => target,fun l same => ?_,fun closing => ?_,fun closing => ?_,fun accept get extensions => ?_,
    progress.unserved,fun err ended => ?_,fun aborted => ?_⟩,by simp,fun g changed => ?_,fun g => ?_⟩
  · cases kernel.symm.trans same
    exact ⟨h,here,Function.update_self ..⟩
  · cases closing
    cases going'
  · cases closing
    cases inside'
  · exact ⟨h,here,block accept get extensions⟩
  · cases ended
    cases going'
  · cases aborted
    cases going'
  · have same : g = h := by
      by_contra apart
      exact changed (Function.update_of_ne apart ..)
    rw [owns_inside inside,here,same,if_pos rfl]
    exact Or.inl rfl
  · have opened : sockets.opened h = 1 := by
      rw [Sockets.opened,there]
      rfl
    have own : Call.owns g {c with point := point, server := server} = c.owns g := by
      rw [owns_inside inside,owns_inside inside']
    rw [own,opened_update]
    by_cases same : g = h
    · rw [if_pos same,same,opened]
      rfl
    · rw [if_neg same]
      rfl

theorem attempt_eq {k : Kernel} (here : c.listenfd = some h) (there : sockets h = some k) (change : Kernel → Kernel)
    (next : Point) : attempt sockets c outcome change next =
      if outcome = .ok then (Function.update sockets h (some (change k)),{c with point := next})
      else (sockets,{c with point := .close}) := by
  cases outcome <;> simp [attempt,here,there]

theorem Progress.alive {k : Kernel} (here : c.listenfd = some h) (there : sockets h = some k) :
    ∀ g, c.listenfd = some g → (sockets g).isSome = true := by
  intro g same
  cases here.symm.trans same
  rw [there]
  rfl

/-- A new socket has a handle that nothing else has. -/
theorem Progress.create (progress : Progress sockets c) (point : c.point = .socket) (closed : sockets h = none) :
    Advances sockets c (Function.update sockets h (some ⟨c.family,false,none,none,false⟩))
      {c with listenfd := some h, point := .setsockopt} none := by
  have target := progress.target (by rw [point]; rfl)
  refine ⟨⟨fun _ => target,fun k same => ?_,by simp,by simp,by simp [Point.extensions],fun unserved => ?_,by simp,
    by simp⟩,by simp,fun g changed => ?_,fun g => ?_⟩
  · cases same
    exact ⟨h,rfl,Function.update_self ..⟩
  · rw [target] at unserved
    cases unserved
  · have same : g = h := by
      by_contra apart
      exact changed (Function.update_of_ne apart ..)
    rw [same,Sockets.opened,closed]
    exact Or.inr rfl
  · have before : c.owns g = 0 := by rw [Call.owns,point]; simp [Point.inside]
    have after : Call.owns g {c with listenfd := some h, point := .setsockopt} = if h = g then 1 else 0 := by
      rw [owns_inside rfl]
      simp
    rw [before,after,opened_update]
    by_cases same : g = h
    · rw [if_pos same.symm,if_pos same,same,Sockets.opened,closed]
      rfl
    · rw [if_neg (Ne.symm same),if_neg same]
      rfl

/-- At the end the socket is closed, if there is one. -/
theorem Progress.shut (progress : Progress sockets c) (point : c.point = .close) (here : c.listenfd = some h) :
    Advances sockets c (Function.update sockets h none) {c with point := .free} none := by
  have inside : c.point.inside = true := by rw [point]; rfl
  have opened : sockets.opened h = 1 := if_pos (progress.closing point h here)
  refine ⟨⟨by simp [Point.going],by simp [Call.kernel],by simp,by simp,by simp [Point.extensions],
    progress.unserved,by simp,by simp⟩,by simp,fun g changed => ?_,fun g => ?_⟩
  · have same : g = h := by
      by_contra apart
      exact changed (Function.update_of_ne apart ..)
    rw [owns_inside inside,here,same,if_pos rfl]
    exact Or.inl rfl
  · have after : Call.owns g {c with point := .free} = 0 := by simp [Call.owns,Point.inside]
    rw [after,owns_inside inside,here,opened_update]
    by_cases same : g = h
    · rw [same,if_pos rfl,if_pos rfl,opened]
      rfl
    · simp [same,Ne.symm same]

/-- The socket is handed over with the object. -/
theorem Progress.hand (progress : Progress sockets c) (point : c.point = .register) (here : c.listenfd = some h)
    (server : c.server = some ⟨h,c.family,true,true,c.host,c.port⟩) :
    Advances sockets c (Function.update sockets h (some ⟨c.family,true,c.address,some 5,true⟩))
      {c with point := .returned 0, server := none} c.server := by
  have inside : c.point.inside = true := by rw [point]; rfl
  have target := progress.target (by rw [point]; rfl)
  obtain ⟨h',here',there⟩ := progress.kernel _ (by rw [Call.kernel,point])
  cases here.symm.trans here'
  refine ⟨⟨by simp [Point.going],by simp [Call.kernel],by simp,by simp,by simp [Point.extensions],
    progress.unserved,by simp [target],by simp⟩,fun x given => ?_,fun g changed => ?_,fun g => ?_⟩
  · cases server.symm.trans given
    exact ⟨⟨_,Function.update_self ..,target,rfl⟩,rfl,rfl⟩
  · have same : g = h := by
      by_contra apart
      exact changed (Function.update_of_ne apart ..)
    rw [owns_inside inside,here,same,if_pos rfl]
    exact Or.inl rfl
  · have after : Call.owns g {c with point := .returned 0, server := none} = 0 := by simp [Call.owns,Point.inside]
    have opened : sockets.opened h = 1 := by
      rw [Sockets.opened,there]
      rfl
    rw [after,owns_inside inside,here,opened_update,server]
    by_cases same : g = h
    · simp [same,opened,Server.owns]
    · simp [same,Ne.symm same,Server.owns]

/-- One step of `xf_server_socket_new`. -/
theorem Progress.advance (progress : Progress sockets c)
    (run : advance sockets c outcome = some (sockets',c',server)) : Advances sockets c sockets' c' server := by
  unfold Listening.advance at run
  cases point : c.point with
  | socket =>
    simp only [point] at run
    have outside (g : Socket) : c.owns g = 0 := by rw [Call.owns,point]; simp [Point.inside]
    have none := progress.fresh point
    cases outcome with
    | opened h =>
      obtain ⟨closed,run⟩ := Option.ite_none_right_eq_some.mp run
      cases run
      exact progress.create point closed
    | ok | failed =>
      cases run
      refine ⟨⟨by simp [Point.going],by simp [Call.kernel],by simp [none],by simp,by simp [Point.extensions],
        progress.unserved,by simp,by simp⟩,by simp,by simp,fun g => ?_⟩
      rw [outside]
      simp [Call.owns,none]
  | setsockopt | bind | listen =>
    simp only [point] at run
    obtain ⟨h,here,there⟩ := progress.kernel _ (by rw [Call.kernel,point])
    rw [attempt_eq here there] at run
    have inside : c.point.inside = true := by rw [point]; rfl
    have going : c.point.going = true := by rw [point]; rfl
    split at run
    · cases run
      exact progress.pass going inside here there rfl rfl rfl (fun _ _ extensions => by cases extensions)
    · cases run
      exact progress.fail inside (Progress.alive here there) c.server
  | object =>
    simp only [point] at run
    obtain ⟨h,here,there⟩ := progress.kernel _ (by rw [Call.kernel,point])
    have inside : c.point.inside = true := by rw [point]; rfl
    have going : c.point.going = true := by rw [point]; rfl
    rw [here] at run
    cases outcome with
    | ok =>
      cases run
      have kept : Advances sockets c _ {c with point := .acceptEx, server := _} none :=
        progress.pass going inside here there rfl rfl rfl (fun accept get extensions => by cases extensions; rfl)
      rwa [← there,Function.update_eq_self,here] at kept
    | failed | opened _ =>
      cases run
      have failed := progress.fail inside (Progress.alive here there) c.server
      rwa [here] at failed
  | acceptEx | acceptExSockaddrs =>
    simp only [point] at run
    obtain ⟨h,here,there⟩ := progress.kernel _ (by rw [Call.kernel,point])
    obtain ⟨h',here',server⟩ := progress.server _ _ (by rw [point]; rfl)
    cases here.symm.trans here'
    have inside : c.point.inside = true := by rw [point]; rfl
    have going : c.point.going = true := by rw [point]; rfl
    rw [attempt_eq here there] at run
    split at run
    next ok =>
      cases run
      apply progress.pass going inside here there rfl rfl rfl
      intro accept get extensions
      cases extensions
      simp [server,ok]
    next failed =>
      cases run
      exact progress.fail inside (Progress.alive here there) _
  | register =>
    simp only [point] at run
    obtain ⟨h,here,there⟩ := progress.kernel _ (by rw [Call.kernel,point])
    obtain ⟨h',here',server⟩ := progress.server _ _ (by rw [point]; rfl)
    cases here.symm.trans here'
    have inside : c.point.inside = true := by rw [point]; rfl
    cases outcome with
    | ok =>
      rw [attempt_eq here there] at run
      cases run
      exact progress.hand point here server
    | failed | opened _ =>
      cases run
      exact progress.fail inside (Progress.alive here there) c.server
  | close =>
    simp only [point] at run
    cases here : c.listenfd with
    | none =>
      rw [here] at run
      cases run
      refine ⟨⟨by simp [Point.going],by simp [Call.kernel],by simp,by simp,by simp [Point.extensions],
        fun _ => rfl,by simp,by simp⟩,by simp,by simp,fun g => ?_⟩
      simp [Call.owns,here]
    | some h =>
      rw [here] at run
      cases run
      have closed := progress.shut point here
      rwa [here] at closed
  | free =>
    simp only [point] at run
    cases run
    refine ⟨⟨by simp [Point.going],by simp [Call.kernel],by simp,by simp,by simp [Point.extensions],
      progress.unserved,by simp,by simp⟩,by simp,by simp,fun g => ?_⟩
    simp [Call.owns,Point.inside,point]
  | returned err | aborted =>
    simp only [point] at run
    cases run

theorem Progress.frame (progress : Progress sockets c) (same : ∀ h, c.owns h = 1 → sockets' h = sockets h) :
    Progress sockets' c := by
  have kept (h : Socket) (inside : c.point.inside = true) (here : c.listenfd = some h) : sockets' h = sockets h :=
    same h (by rw [owns_inside inside,here,if_pos rfl])
  refine ⟨progress.target,fun k kernel => ?_,fun point h here => ?_,progress.fresh,progress.server,progress.unserved,
    progress.ended,progress.whole⟩
  · obtain ⟨h,here,there⟩ := progress.kernel k kernel
    have inside : c.point.inside = true := by
      cases point : c.point <;> simp [Call.kernel,point] at kernel <;> rfl
    exact ⟨h,here,(kept h inside here).trans there⟩
  · have inside : c.point.inside = true := by rw [point]; rfl
    rw [kept h inside here]
    exact progress.closing point h here

theorem Serves.frame (serves : Serves sockets x) (same : sockets' x.socket = sockets x.socket) : Serves sockets' x := by
  obtain ⟨k,kernel,rest⟩ := serves.kernel
  exact ⟨⟨k,same.trans kernel,rest⟩,serves.extensions⟩

/-- Whoever else is in the list keeps its weight. -/
theorem weight_le {list : List Call} {d : Call} {t : Nat} (here : list[t]? = some c) (member : d ∈ list.eraseIdx t)
    (w : Call → Nat) : w c + w d ≤ (list.map w).sum := by
  rw [sum_entry w here]
  exact Nat.add_le_add_left (List.single_le_sum (fun _ _ => Nat.zero_le _) _ (List.mem_map_of_mem member)) _

theorem Server.owns_le {servers : List Server} (member : x ∈ servers) :
    1 ≤ (servers.map (Server.owns x.socket)).sum := by
  have own : x.owns x.socket = 1 := if_pos rfl
  calc 1 = x.owns x.socket := own.symm
    _ ≤ _ := List.single_le_sum (fun _ _ => Nat.zero_le _) _ (List.mem_map_of_mem member)

theorem mem_set_others {list : List Call} {d : Call} {t : Nat} (member : d ∈ list.set t c) :
    d = c ∨ d ∈ list.eraseIdx t := by
  obtain ⟨i,here⟩ := List.mem_iff_getElem?.mp member
  by_cases same : i = t
  · subst same
    obtain ⟨inside,value⟩ := List.getElem?_eq_some_iff.mp here
    exact Or.inl (by simpa using value.symm)
  · rw [List.getElem?_set_ne (Ne.symm same)] at here
    exact Or.inr (List.mem_eraseIdx_iff_getElem?.mpr ⟨i,same,here⟩)

/-- A call moves on; the sockets of others stay as they are. -/
theorem Owned.turn {t : Nat} (owned : Owned s) (here : s.calls[t]? = some c)
    (run : advance s.sockets c outcome = some (sockets',c',server)) :
    Owned ⟨sockets',s.servers ++ server.toList,s.calls.set t c'⟩ := by
  have advances := (owned.calls c (List.mem_of_getElem? here)).advance run
  have opened_le (h : Socket) : s.sockets.opened h ≤ 1 := by
    unfold Sockets.opened
    split <;> omega
  refine ⟨fun d member => ?_,fun x member => ?_,fun h => ?_⟩
  · rcases mem_set_others member with rfl | other
    · exact advances.progress
    · refine (owned.calls d (List.mem_of_mem_eraseIdx other)).frame fun h own => ?_
      by_contra changed
      have both := weight_le here other (Call.owns h)
      have once := owned.once h
      have most := opened_le h
      rcases advances.others h changed with mine | closed <;> omega
  · rcases List.mem_append.mp member with old | new
    · refine (owned.servers x old).frame ?_
      by_contra changed
      have own := Server.owns_le old
      have mine := sum_entry (Call.owns x.socket) here
      have once := owned.once x.socket
      have most := opened_le x.socket
      rcases advances.others x.socket changed with mine | closed <;> omega
    · exact advances.served x (Option.mem_toList.mp new)
  · have once := owned.once h
    have balance := advances.balance h
    have before := sum_entry (Call.owns h) here
    have after := sum_set (Call.owns h) here c'
    simp only [List.map_append,List.sum_append]
    omega

theorem Owned.new (owned : Owned s) (host : XfString) (port : Int) (stack : Stack) :
    Owned {s with calls := s.calls ++ [begin host port stack]} := by
  obtain ⟨progress,none⟩ := @begin_progress s.sockets host port stack
  refine ⟨fun d member => ?_,owned.servers,fun h => ?_⟩
  · rcases List.mem_append.mp member with old | new
    · exact owned.calls d old
    · rw [List.mem_singleton.mp new]
      exact progress
  · have own : (begin host port stack).owns h = 0 := by simp [Call.owns,none]
    simp only [List.map_append,List.map_cons,List.map_nil,List.sum_append,List.sum_cons,List.sum_nil,own,Nat.add_zero]
    exact owned.once h

/-- A server socket is released, and only its own socket closed. -/
theorem Owned.release {i : Nat} (owned : Owned s) (here : s.servers[i]? = some x) :
    Owned {s with sockets := Function.update s.sockets x.socket none, servers := s.servers.eraseIdx i} := by
  have sum := sum_entry (Server.owns x.socket) here
  have own : x.owns x.socket = 1 := if_pos rfl
  have once := owned.once x.socket
  have opened : s.sockets.opened x.socket ≤ 1 := by
    unfold Sockets.opened
    split <;> omega
  refine ⟨fun d member => ?_,fun y member => ?_,fun h => ?_⟩
  · refine (owned.calls d member).frame fun h holds => ?_
    apply Function.update_of_ne
    intro same
    subst same
    have mine := List.single_le_sum (fun _ _ => Nat.zero_le _) _ (List.mem_map_of_mem (f := Call.owns x.socket) member)
    dsimp only at mine
    omega
  · refine (owned.servers y (List.mem_of_mem_eraseIdx member)).frame ?_
    apply Function.update_of_ne
    intro same
    have other := Server.owns_le member
    rw [same] at other
    dsimp only at other
    omega
  · have entry := sum_entry (Server.owns h) here
    have balance := owned.once h
    dsimp only
    rw [opened_update]
    by_cases same : h = x.socket
    · rw [if_pos same]
      subst same
      simp only [Option.isSome_none,Bool.false_eq_true,if_false]
      omega
    · have none : x.owns h = 0 := if_neg (Ne.symm same)
      rw [if_neg same]
      omega

theorem Owned.step (owned : Owned s) (step : Listening.step s event = some s') : Owned s' := by
  cases event with
  | new host port stack =>
    cases step
    exact owned.new host port stack
  | turn t outcome =>
    obtain ⟨c,here,step⟩ := Option.bind_eq_some_iff.mp step
    obtain ⟨⟨sockets',c',server⟩,run,step⟩ := Option.bind_eq_some_iff.mp step
    cases step
    exact owned.turn here run
  | release i =>
    obtain ⟨x,here,step⟩ := Option.bind_eq_some_iff.mp step
    cases step
    exact owned.release here

/-- Each open socket is that of one call or of one server socket. The server sockets listen on all addresses of
the family that their host names; a call for any other host fails and never has a socket; and what has returned
keeps nothing. -/
structure Serving (s : State) : Prop where
  servers : ∀ x ∈ s.servers, Serves s.sockets x
  once : ∀ h, (s.calls.map (Call.owns h)).sum + (s.servers.map (Server.owns h)).sum = s.sockets.opened h
  unknown : ∀ c ∈ s.calls, served c.host c.port = none → c.listenfd = none ∧ c.point ≠ .returned 0
  returned : ∀ c ∈ s.calls, ∀ err, c.point = .returned err → (err = error ∨ err = 0) ∧ c.server = none
  whole : ∀ c ∈ s.calls, c.point ≠ .aborted
  quiet : (∀ c ∈ s.calls, ∃ err, c.point = .returned err) → s.servers = [] → ∀ h, s.sockets h = none

theorem reachable_serving (run : Reachable s) : Serving s := by
  have owned : Owned s := by
    apply run_invariant _ run ⟨by simp [start],by simp [start],fun _ => rfl⟩
    intro s s' owned next
    obtain ⟨event,-,next⟩ := next
    exact owned.step next
  refine ⟨owned.servers,owned.once,fun c member unserved => ?_,fun c member err point => ?_,
    fun c member => (owned.calls c member).whole,fun ended empty h => ?_⟩
  · refine ⟨(owned.calls c member).unserved unserved,fun point => ?_⟩
    rcases ((owned.calls c member).ended 0 point).1 with wrong | ⟨-,known⟩
    · exact absurd wrong (by decide)
    · exact known unserved
  · obtain ⟨result,server⟩ := (owned.calls c member).ended err point
    exact ⟨result.imp_right And.left,server⟩
  · have once := owned.once h
    have none : (s.calls.map (Call.owns h)).sum = 0 := by
      apply List.sum_eq_zero
      intro n entry
      obtain ⟨c,member,rfl⟩ := List.mem_map.mp entry
      obtain ⟨err,point⟩ := ended c member
      simp [Call.owns,point,Point.inside]
    rw [none,empty] at once
    have closed : s.sockets.opened h = 0 := once.symm
    rw [Sockets.opened] at closed
    cases kernel : s.sockets h with
    | none => rfl
    | some k =>
      rw [kernel] at closed
      cases closed

end

/-- The `bind` of one call fails, and its handle goes to the other. -/
def reused (stack : Stack) : List Event :=
  [.new aster 80 stack,.turn 0 (.opened 4),.turn 0 .ok,.turn 0 .failed,.turn 0 .ok,.new asterV4 80 stack,
    .turn 1 (.opened 4),.turn 0 .ok] ++ List.replicate 7 (.turn 1 .ok)

theorem reachable_serving_reused : ∃ s, Reachable s ∧ s.calls.map Call.point = [.returned 1,.returned 0] ∧
    s.servers.map Server.socket = [4] ∧ Serving s := by
  obtain ⟨s,run,holds⟩ : ∃ s, Reachable s ∧ decide (s.calls.map Call.point = [.returned 1,.returned 0] ∧
      s.servers.map Server.socket = [4]) = true :=
    perform_reachable (reused ⟨fun _ => 0,0,inaddrAny,in6addrAny⟩) (by decide)
  obtain ⟨points,handles⟩ := of_decide_eq_true holds
  exact ⟨s,run,points,handles,reachable_serving run⟩

end Xrossfire.Tcp.Listening
