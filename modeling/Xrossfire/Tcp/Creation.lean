import Xrossfire.Library.Run
import Xrossfire.Async.Object

/-! The socket that `xf_tcp_socket_new` or `xf_server_socket_accept` creates, from
the call to the destruction of the async. Beside the operation run cancels of the
async, the releases of its references and operations that use it afterwards. -/
namespace Xrossfire.Tcp.Creation
open Relation
open Async (Io)

/-- What a `HANDLE` or `SOCKET` field holds: the created socket, `INVALID_SOCKET` or another value. -/
inductive Value
  | created
  | invalid
  | other
deriving DecidableEq

inductive Family
  | inet
  | inet6
deriving DecidableEq

inductive Outcome
  | ok
  | pending
  | fails
deriving DecidableEq

/-- Where the operation is; a point stands before the call or the write it is named after. -/
inductive Point
  -- xf_socket_connect_tcp
  | lookupEnter
  | lookupStart
  /-- With what `GetAddrInfoExW` has returned. -/
  | lookupLeave (result : Outcome)
  | lookupRelease (result : Outcome)
  | lookup
  -- connect_phase1 and socket_connect_async
  | phase1 (found : Bool)
  | socket
  | register
  | bind
  | ioctl
  | enter
  | connect
  | leave (started : Bool)
  | release (started : Bool)
  | abort
  | connecting
  -- xf_io_completed_socket_connect_phase2
  | connected
  | hand
  | forget
  -- __xf_server_socket_accept
  | acceptSocket
  | acceptStore
  | acceptAlloc
  | accept
  | accepting
  -- xf_io_completed_server_socket_accept and xf_tcp_socket_new_with_handle
  | accepted
  | acceptObject
  | acceptForget
  /-- The operation has notified the async, or `xf_async_enter` has. -/
  | finished
deriving DecidableEq

structure State where
  /-- The references that are not those of the operation's `xf_async_enter`s. -/
  refs : Nat
  /-- The operation has the lock, and the reference of its `xf_async_enter`. -/
  locked : Bool
  entered : Bool
  /-- A `_cancel` has the lock. -/
  canceling : Bool
  canceled : Bool
  handle : Value
  ioType : Io
  /-- `context.accept.accepted_socket`. -/
  accepted : Value
  freed : Bool
  addrs : List Family
  point : Point
  /-- The socket was created; the `closesocket`s it was passed to and the objects it was handed to. -/
  made : Bool
  closed : Nat
  handed : Nat
deriving DecidableEq

namespace State

def close (s : State) (value : Value) : State :=
  if value = .created then {s with closed := s.closed + 1} else s

/-- `xf_io_async_clear`, as far as sockets go. -/
def clear (s : State) : State :=
  match s.ioType with
  | .connectPhase1 => {s.close s.handle with handle := .invalid}
  | .connectPhase2 => s.close s.handle
  | .accept => {s.close s.accepted with accepted := .invalid}
  | .disconnect | .receive | .send => s

/-- `xf_async_release` when it may drop the last reference. -/
def release (s : State) : State := if s.refs = 0 ∧ s.entered = false then {s.clear with freed := true} else s

def go (s : State) (point : Point) : State := {s with point := point}

def give (s : State) (value : Value) : State :=
  if value = .created then {s with handed := s.handed + 1} else s

end State

def Point.touches : Point → Bool
  | .lookup | .register | .bind | .ioctl | .abort | .acceptSocket => false
  | _ => true

/-- The operation moves on, with the outcome of the call or the I/O it was at. -/
def advance (s : State) (outcome : Outcome) : Point → Option State
  | .lookupEnter =>
    if s.canceling then none
    else if s.canceled then some (s.go .finished)
    else some {s.go .lookupStart with locked := true, entered := true}
  | .lookupStart =>
    some {s.go (.lookupLeave outcome) with ioType := .connectPhase1, handle := .other, accepted := .other}
  | .lookupLeave result => some {s.go (.lookupRelease result) with locked := false}
  | .lookupRelease result =>
    if s.refs = 0 ∧ s.canceling then none
    else some {s.go (if result = Outcome.pending then .lookup else .phase1 (result = Outcome.ok)) with
      entered := false}.release
  | .lookup => some (s.go (.phase1 (outcome ≠ .fails)))
  | .phase1 found => some {s.go (if found then .socket else .finished) with handle := .invalid}
  | .socket =>
    some (if .inet ∈ s.addrs ∧ outcome ≠ .fails then {s.go .register with made := true} else s.go .finished)
  | .register => some (s.go (if outcome ≠ .fails then .bind else .abort))
  | .bind => some (s.go (if outcome ≠ .fails then .ioctl else .abort))
  | .ioctl => some (s.go (if outcome ≠ .fails then .enter else .abort))
  | .enter =>
    if s.canceling then none
    else if s.canceled then some (s.go .finished)
    else some {s.go .connect with locked := true, entered := true}
  | .connect => some {s.go (.leave (outcome ≠ .fails)) with ioType := .connectPhase2, handle := .created}
  | .leave started => some {s.go (.release started) with locked := false}
  | .release started =>
    if s.refs = 0 ∧ s.canceling then none
    else some {s.go (if started then .connecting else .abort) with entered := false}.release
  | .abort => some ((s.close .created).go .finished)
  | .connecting => some (s.go (if outcome ≠ .fails then .connected else .finished))
  | .connected => some (s.go (if outcome ≠ .fails then .hand else .finished))
  | .hand => some ((s.give s.handle).go .forget)
  | .forget => some {s.go .finished with handle := .invalid}
  | .acceptSocket => some (if outcome ≠ .fails then {s.go .acceptStore with made := true} else s.go .finished)
  | .acceptStore => some {s.go .acceptAlloc with ioType := .accept, handle := .other, accepted := .created}
  | .acceptAlloc => some (s.go (if outcome ≠ .fails then .accept else .finished))
  | .accept => some (s.go (if outcome ≠ .fails then .accepting else .finished))
  | .accepting => some (s.go (if outcome ≠ .fails then .accepted else .finished))
  | .accepted => some (s.go (if outcome ≠ .fails then .acceptObject else .finished))
  | .acceptObject =>
    some (if outcome ≠ .fails then (s.give s.accepted).go .acceptForget else s.go .finished)
  | .acceptForget => some {s.go .finished with accepted := .invalid}
  | .finished => none

/-- What a later operation on the async writes before its I/O. -/
def reuse (s : State) (io : Io) : State :=
  {s with
    ioType := io
    handle := if io = .disconnect then s.handle else .other
    accepted := if io = .connectPhase1 ∨ io = .accept then .other else s.accepted}

inductive Event
  | turn (outcome : Outcome)
  | addRef
  | drop
  /-- A `_cancel`, of the timer or of a caller, at its start and at its I/O; `done` is the answer of `CancelIoEx`. -/
  | cancel
  | cancelIo (done : Bool)
  | reuse (io : Io)
deriving DecidableEq

def step (s : State) : Event → Option State
  | .turn outcome => if s.freed ∧ s.point.touches then none else advance s outcome s.point
  | .addRef => if s.freed = false ∧ 0 < s.refs then some {s with refs := s.refs + 1} else none
  | .drop =>
    -- the last release takes the lock
    if s.freed = false ∧ 0 < s.refs ∧ ¬(s.refs = 1 ∧ s.entered = false ∧ s.canceling) then
      some {s with refs := s.refs - 1}.release
    else none
  | .cancel =>
    if s.freed = false ∧ s.locked = false ∧ s.canceling = false then
      some {s with canceling := true, canceled := true}
    else none
  | .cancelIo done =>
    if s.canceling then
      some {s with canceling := false, handle := if done ∧ s.handle ≠ .invalid then .invalid else s.handle}
    else none
  | .reuse io => if s.freed = false ∧ s.point = .finished then some (reuse s io) else none

structure Starts (s : State) : Prop where
  point : s.point = .lookupEnter ∨ s.point = .acceptSocket
  refs : 0 < s.refs
  outside : s.locked = false ∧ s.entered = false
  live : s.freed = false
  handle : s.handle ≠ .created
  accepted : s.accepted ≠ .created
  made : s.made = false
  closed : s.closed = 0
  handed : s.handed = 0

def Point.exposed : Point → Bool
  | .register | .bind | .ioctl | .enter | .abort | .forget | .acceptSocket | .acceptStore | .acceptForget => true
  | _ => false

/-- `xf_async_enter` before `ConnectEx` is not refused and `ConnectEx` does not fail at once; the
async is not destroyed at an exposed point; and neither a cancel nor a later operation overwrites
the socket in the async. -/
def Kept (s : State) : Event → Prop
  | .turn outcome => (s.point = .enter → s.canceled = false) ∧ (s.point = .connect → outcome ≠ .fails)
  | .drop => s.refs = 1 ∧ s.entered = false → s.point.exposed = false
  | .cancelIo done => done = true → s.handle ≠ .created
  | .reuse _ => s.handle ≠ .created ∧ s.accepted ≠ .created
  | .addRef | .cancel => True

instance (s : State) : ∀ event, Decidable (Kept s event)
  | .turn _ => inferInstanceAs (Decidable ((_ → _) ∧ (_ → _)))
  | .drop => inferInstanceAs (Decidable (_ ∧ _ → _))
  | .cancelIo _ => inferInstanceAs (Decidable (_ → _))
  | .reuse _ => inferInstanceAs (Decidable (_ ∧ _))
  | .addRef | .cancel => inferInstanceAs (Decidable True)

/-- The socket was handed to one object or closed once, if it was created. -/
def Conserved (s : State) : Prop :=
  s.made = true → s.handed = 1 ∧ s.closed = 0 ∨ s.handed = 0 ∧ s.closed = 1

/-! ## Who has the socket -/

structure Apart (s : State) : Prop where
  handle : s.handle ≠ .created
  accepted : s.accepted ≠ .created
  closed : s.closed = 0
  handed : s.handed = 0

/-- The async has it, where `xf_io_async_clear` will find it by the I/O's type. -/
def Fields (s : State) : Io → Prop
  | .connectPhase2 => s.ioType = .connectPhase2 ∧ s.handle = .created ∧ s.accepted ≠ .created
  | .accept => s.ioType = .accept ∧ s.accepted = .created ∧ s.handle ≠ .created
  | _ => False

structure Held (s : State) (io : Io) : Prop where
  fields : Fields s io
  closed : s.closed = 0
  handed : s.handed = 0

structure Gone (s : State) : Prop where
  handle : s.handle ≠ .created
  accepted : s.accepted ≠ .created
  conserved : s.handed = 1 ∧ s.closed = 0 ∨ s.handed = 0 ∧ s.closed = 1

inductive Custody
  | unmade
  /-- The operation will create it, on an async that is there. -/
  | ready
  | own
  | async (io : Io)
  /-- An object has it, and the async still has. -/
  | object (io : Io)
  | ended

def Custody.Holds (s : State) : Custody → Prop
  | unmade => s.made = false ∧ Apart s
  | ready => s.made = false ∧ Apart s ∧ s.freed = false
  | own => s.made = true ∧ Apart s ∧ s.freed = false
  | async io => s.made = true ∧ (s.freed = true ∧ Conserved s ∨ s.freed = false ∧ Held s io)
  | object io => s.made = true ∧ s.freed = false ∧ Fields s io ∧ s.handed = 1 ∧ s.closed = 0
  | ended => s.made = false ∧ Apart s ∨ s.made = true ∧ (s.freed = true ∧ Conserved s ∨
      s.freed = false ∧ (Held s .connectPhase2 ∨ Held s .accept ∨ Gone s))

def Point.custody : Point → Custody
  | .lookupEnter | .lookupStart | .lookupLeave _ | .lookupRelease _ | .lookup | .phase1 _ | .socket => .unmade
  | .acceptSocket => .ready
  | .register | .bind | .ioctl | .enter | .connect | .abort | .acceptStore => .own
  | .leave _ | .release _ | .connecting | .connected | .hand => .async .connectPhase2
  | .forget => .object .connectPhase2
  | .acceptAlloc | .accept | .accepting | .accepted | .acceptObject => .async .accept
  | .acceptForget => .object .accept
  | .finished => .ended

/-- Between `xf_async_enter` and the release in `xf_async_leave`. -/
def Point.inside : Point → Bool
  | .lookupStart | .lookupLeave _ | .lookupRelease _ | .connect | .leave _ | .release _ => true
  | _ => false

structure Sound (s : State) : Prop where
  place : s.point.custody.Holds s
  inside : s.point.inside → s.entered = true ∧ s.freed = false
  started : s.point ≠ .leave false ∧ s.point ≠ .release false

section
variable {s s' : State} {c : Custody} {io : Io}

theorem Held.clear (held : Held s io) : s.clear.handed = 0 ∧ s.clear.closed = 1 := by
  obtain ⟨fields,closed,handed⟩ := held
  cases io with
  | connectPhase2 =>
    obtain ⟨ioType,handle,-⟩ := fields
    simp [State.clear,State.close,ioType,handle,closed,handed]
  | accept =>
    obtain ⟨ioType,accepted,-⟩ := fields
    simp [State.clear,State.close,ioType,accepted,closed,handed]
  | _ => exact absurd fields id

theorem clear_same (handle : s.handle ≠ .created) (accepted : s.accepted ≠ .created) :
    s.clear.handle ≠ .created ∧ s.clear.accepted ≠ .created ∧ s.clear.closed = s.closed ∧
      s.clear.handed = s.handed ∧ s.clear.made = s.made := by
  cases ioType : s.ioType <;> simp [State.clear,State.close,ioType,handle,accepted]

theorem clear_made (s : State) : s.clear.made = s.made := by
  cases ioType : s.ioType <;> simp only [State.clear,State.close,ioType] <;> split <;> rfl

theorem Apart.clear (apart : Apart s) : Apart {s.clear with freed := true} := by
  obtain ⟨handle,accepted,closed,handed,-⟩ := clear_same apart.handle apart.accepted
  exact ⟨handle,accepted,closed.trans apart.closed,handed.trans apart.handed⟩

theorem Gone.clear (gone : Gone s) : s.clear.handed = 1 ∧ s.clear.closed = 0 ∨
    s.clear.handed = 0 ∧ s.clear.closed = 1 := by
  obtain ⟨-,-,closed,handed,-⟩ := clear_same gone.handle gone.accepted
  rw [closed,handed]
  exact gone.conserved

theorem clear_point (s : State) : s.clear.point = s.point := by
  cases ioType : s.ioType <;> simp only [State.clear,State.close,ioType] <;> split <;> rfl

/-- A release that is not the last changes nothing; the last one makes the async clear its I/O. -/
theorem release_cases (s : State) : s.release = s ∨
    s.refs = 0 ∧ s.entered = false ∧ s.release = {s.clear with freed := true} := by
  by_cases last : s.refs = 0 ∧ s.entered = false
  · exact Or.inr ⟨last.1,last.2,if_pos last⟩
  · exact Or.inl (if_neg last)

theorem release_point (s : State) : s.release.point = s.point := by
  rcases release_cases s with same | ⟨-,-,same⟩
  · rw [same]
  · rw [same]
    exact clear_point s

/-- The async may go away unless the operation or an object has the socket. -/
theorem Custody.Holds.release (holds : c.Holds s) (live : s.freed = false)
    (safe : s.refs = 0 → s.entered = false → c ≠ .ready ∧ c ≠ .own ∧ ∀ io, c ≠ .object io) :
    c.Holds s.release := by
  rcases release_cases s with same | ⟨refs,entered,same⟩
  · rw [same]
    exact holds
  · obtain ⟨ready,own,object⟩ := safe refs entered
    have made := clear_made s
    rw [same]
    cases c with
    | unmade => exact ⟨made.trans holds.1,holds.2.clear⟩
    | ready => exact absurd rfl ready
    | own => exact absurd rfl own
    | object io => exact absurd rfl (object io)
    | async io =>
      obtain ⟨was,⟨gone,-⟩ | ⟨-,held⟩⟩ := holds
      · rw [live] at gone
        cases gone
      · exact ⟨made.trans was,Or.inl ⟨rfl,fun _ => Or.inr held.clear⟩⟩
    | ended =>
      rcases holds with ⟨was,apart⟩ | ⟨was,⟨gone,-⟩ | ⟨-,held | held | gone⟩⟩
      · exact Or.inl ⟨made.trans was,apart.clear⟩
      · rw [live] at gone
        cases gone
      · exact Or.inr ⟨made.trans was,Or.inl ⟨rfl,fun _ => Or.inr held.clear⟩⟩
      · exact Or.inr ⟨made.trans was,Or.inl ⟨rfl,fun _ => Or.inr held.clear⟩⟩
      · exact Or.inr ⟨made.trans was,Or.inl ⟨rfl,fun _ => gone.clear⟩⟩

/-- Only the fields of the async, what was done with the socket and the async's life matter. -/
theorem Custody.Holds.same (holds : c.Holds s) (handle : s'.handle = s.handle)
    (accepted : s'.accepted = s.accepted) (ioType : s'.ioType = s.ioType) (freed : s'.freed = s.freed)
    (made : s'.made = s.made) (closed : s'.closed = s.closed) (handed : s'.handed = s.handed) : c.Holds s' := by
  have apart : Apart s → Apart s' := by
    rintro ⟨h,a,c,g⟩
    exact ⟨by rwa [handle],by rwa [accepted],by rwa [closed],by rwa [handed]⟩
  have fields : ∀ io, Fields s io → Fields s' io := by
    intro io here
    rwa [show Fields s' io = Fields s io by cases io <;> simp only [Fields,handle,accepted,ioType]]
  have held : ∀ io, Held s io → Held s' io := by
    rintro io ⟨f,c,g⟩
    exact ⟨fields io f,by rwa [closed],by rwa [handed]⟩
  have gone : Gone s → Gone s' := by
    rintro ⟨h,a,c⟩
    exact ⟨by rwa [handle],by rwa [accepted],by rwa [closed,handed]⟩
  have conserved : Conserved s → Conserved s' := by
    intro here
    rwa [Conserved,made,closed,handed]
  cases c with
  | unmade => exact ⟨made.trans holds.1,apart holds.2⟩
  | ready => exact ⟨made.trans holds.1,apart holds.2.1,freed.trans holds.2.2⟩
  | own => exact ⟨made.trans holds.1,apart holds.2.1,freed.trans holds.2.2⟩
  | async io =>
    refine ⟨made.trans holds.1,?_⟩
    rw [freed]
    exact holds.2.imp (And.imp_right conserved) (And.imp_right (held io))
  | object io =>
    obtain ⟨was,live,here,given,open'⟩ := holds
    exact ⟨made.trans was,freed.trans live,fields io here,handed.trans given,closed.trans open'⟩
  | ended =>
    refine holds.imp (And.imp (made.trans ·) apart) (And.imp (made.trans ·) ?_)
    rw [freed]
    exact Or.imp (And.imp_right conserved)
      (And.imp_right (Or.imp (held _) (Or.imp (held _) gone)))

theorem Fields.overwrite {canceling : Bool} (fields : Fields s io) (different : s.handle ≠ .created) :
    Fields {s with canceling := canceling, handle := .invalid} io := by
  cases io with
  | connectPhase2 => exact absurd fields.2.1 different
  | accept => exact ⟨fields.1,fields.2.1,by simp⟩
  | _ => exact fields

theorem Held.overwrite {canceling : Bool} (held : Held s io) (different : s.handle ≠ .created) :
    Held {s with canceling := canceling, handle := .invalid} io :=
  ⟨held.fields.overwrite different,held.closed,held.handed⟩

/-- A cancel that succeeds overwrites a handle that is not the socket. -/
theorem Custody.Holds.overwrite {canceling : Bool} (holds : c.Holds s) (different : s.handle ≠ .created) :
    c.Holds {s with canceling := canceling, handle := .invalid} := by
  have invalid : Value.invalid ≠ .created := by decide
  cases c with
  | unmade => exact ⟨holds.1,invalid,holds.2.accepted,holds.2.closed,holds.2.handed⟩
  | ready => exact ⟨holds.1,⟨invalid,holds.2.1.accepted,holds.2.1.closed,holds.2.1.handed⟩,holds.2.2⟩
  | own => exact ⟨holds.1,⟨invalid,holds.2.1.accepted,holds.2.1.closed,holds.2.1.handed⟩,holds.2.2⟩
  | async io =>
    obtain ⟨made,⟨freed,done⟩ | ⟨live,held⟩⟩ := holds
    · exact ⟨made,Or.inl ⟨freed,done⟩⟩
    · exact ⟨made,Or.inr ⟨live,held.overwrite different⟩⟩
  | object io =>
    obtain ⟨made,live,fields,handed,closed⟩ := holds
    exact ⟨made,live,fields.overwrite different,handed,closed⟩
  | ended =>
    rcases holds with ⟨unmade,apart⟩ | ⟨made,⟨freed,done⟩ | ⟨live,held | held | gone⟩⟩
    · exact Or.inl ⟨unmade,invalid,apart.accepted,apart.closed,apart.handed⟩
    · exact Or.inr ⟨made,Or.inl ⟨freed,done⟩⟩
    · exact Or.inr ⟨made,Or.inr ⟨live,Or.inl (held.overwrite different)⟩⟩
    · exact Or.inr ⟨made,Or.inr ⟨live,Or.inr (Or.inl (held.overwrite different))⟩⟩
    · exact Or.inr ⟨made,Or.inr ⟨live,Or.inr (Or.inr ⟨invalid,gone.accepted,gone.conserved⟩)⟩⟩

/-- Once the async is gone the socket is conserved, whoever is to have it. -/
theorem Custody.Holds.conserved (holds : c.Holds s) (freed : s.freed = true) : Conserved s := by
  intro made
  cases c with
  | unmade | ready =>
    have unmade := holds.1
    rw [made] at unmade
    cases unmade
  | own =>
    have live := holds.2.2
    rw [freed] at live
    cases live
  | async io =>
    rcases holds.2 with ⟨-,done⟩ | ⟨live,-⟩
    · exact done made
    · rw [freed] at live
      cases live
  | object io =>
    have live := holds.2.1
    rw [freed] at live
    cases live
  | ended =>
    rcases holds with ⟨unmade,-⟩ | ⟨-,⟨-,done⟩ | ⟨live,-⟩⟩
    · rw [made] at unmade
      cases unmade
    · exact done made
    · rw [freed] at live
      cases live

theorem Custody.Holds.finish (holds : (Custody.async io).Holds s) (kind : io = .connectPhase2 ∨ io = .accept) :
    Custody.ended.Holds s := by
  obtain ⟨made,⟨freed,done⟩ | ⟨live,held⟩⟩ := holds
  · exact Or.inr ⟨made,Or.inl ⟨freed,done⟩⟩
  · rcases kind with rfl | rfl
    · exact Or.inr ⟨made,Or.inr ⟨live,Or.inl held⟩⟩
    · exact Or.inr ⟨made,Or.inr ⟨live,Or.inr (Or.inl held)⟩⟩

theorem Custody.Holds.go (holds : c.Holds s) (point : Point) : c.Holds (s.go point) :=
  holds.same rfl rfl rfl rfl rfl rfl rfl

theorem sound_outside {q : Point} (point : s.point = q) (holds : q.custody.Holds s)
    (outside : q.inside = false) : Sound s := by
  refine ⟨by rw [point]; exact holds,by simp [point,outside],?_⟩
  rw [point]
  constructor <;> rintro rfl <;> cases outside

/-- A step of the operation that moves it from `p` on, where the async is there if `p` reads it. -/
theorem Sound.turn {outcome : Outcome} {p : Point} (here : s.point = p) (sound : Sound s)
    (alive : p.touches → s.freed = false) (kept : Kept s (.turn outcome))
    (run : advance s outcome p = some s') : Sound s' := by
  obtain ⟨place,inside,started⟩ := sound
  obtain ⟨admitted,starts⟩ := kept
  rw [here] at place inside started admitted starts
  have invalid : Value.invalid ≠ .created := by decide
  have other : Value.other ≠ .created := by decide
  cases p with
  | lookupEnter =>
    have live := alive rfl
    simp only [advance] at run
    split_ifs at run
    · cases run
      exact sound_outside rfl (Or.inl (place.go .finished)) rfl
    · cases run
      exact ⟨place.same rfl rfl rfl rfl rfl rfl rfl,fun _ => ⟨rfl,live⟩,by simp [State.go]⟩
  | lookupStart =>
    cases run
    exact ⟨⟨place.1,other,other,place.2.closed,place.2.handed⟩,inside,by simp [State.go]⟩
  | lookupLeave result =>
    cases run
    exact ⟨place.same rfl rfl rfl rfl rfl rfl rfl,inside,by simp [State.go]⟩
  | lookupRelease result =>
    obtain ⟨-,live⟩ := inside rfl
    simp only [advance] at run
    have holds : ∀ p, Custody.unmade.Holds (State.release {s.go p with entered := false}) := by
      intro p
      exact (place.same rfl rfl rfl rfl rfl rfl rfl : Custody.unmade.Holds {s.go p with entered := false}).release
        live (by simp [Point.custody])
    by_cases blocked : s.refs = 0 ∧ s.canceling
    · simp only [if_pos blocked] at run
      cases run
    · simp only [if_neg blocked,Option.some.injEq] at run
      subst run
      cases result <;> exact sound_outside (release_point _) (holds _) rfl
  | lookup =>
    cases run
    exact sound_outside rfl (place.go _) rfl
  | phase1 found =>
    cases run
    have apart : Apart {s with handle := .invalid} := ⟨invalid,place.2.accepted,place.2.closed,place.2.handed⟩
    cases found with
    | true => exact sound_outside rfl ⟨place.1,apart.handle,apart.accepted,apart.closed,apart.handed⟩ rfl
    | false =>
      exact sound_outside rfl (Or.inl ⟨place.1,apart.handle,apart.accepted,apart.closed,apart.handed⟩) rfl
  | socket =>
    have live := alive rfl
    simp only [advance,Option.some.injEq] at run
    subst run
    split
    · exact sound_outside rfl ⟨rfl,⟨place.2.handle,place.2.accepted,place.2.closed,place.2.handed⟩,live⟩ rfl
    · exact sound_outside rfl (Or.inl (place.go _)) rfl
  | register | bind | ioctl =>
    cases run
    split
    · exact sound_outside rfl (place.go _) rfl
    · exact sound_outside rfl (place.go _) rfl
  | enter =>
    have live := alive rfl
    simp only [advance,admitted rfl,Bool.false_eq_true,if_false] at run
    split_ifs at run
    cases run
    exact ⟨place.same rfl rfl rfl rfl rfl rfl rfl,fun _ => ⟨rfl,live⟩,by simp [State.go]⟩
  | connect =>
    have live := alive rfl
    cases run
    refine ⟨⟨place.1,Or.inr ⟨live,⟨rfl,rfl,place.2.1.accepted⟩,place.2.1.closed,place.2.1.handed⟩⟩,inside,?_⟩
    simp [State.go,starts rfl]
  | leave begun =>
    cases run
    refine ⟨place.same rfl rfl rfl rfl rfl rfl rfl,inside,?_⟩
    simpa [State.go] using started.1
  | release begun =>
    obtain ⟨-,live⟩ := inside rfl
    have begins : begun = true := by
      by_contra failed
      exact started.2 (by rw [eq_false_of_ne_true failed])
    subst begins
    simp only [advance] at run
    split_ifs at run
    cases run
    have holds : (Custody.async .connectPhase2).Holds {s.go .connecting with entered := false} :=
      place.same rfl rfl rfl rfl rfl rfl rfl
    exact sound_outside (release_point _) (holds.release live (by simp)) rfl
  | abort =>
    obtain ⟨made,apart,live⟩ := place
    cases run
    refine sound_outside rfl (Or.inr ⟨made,Or.inr ⟨live,Or.inr (Or.inr ⟨apart.handle,apart.accepted,?_⟩)⟩⟩) rfl
    have closed := apart.closed
    have handed := apart.handed
    simp [State.go,State.close,closed,handed]
  | connecting | connected =>
    cases run
    split
    · exact sound_outside rfl (place.go _) rfl
    · exact sound_outside rfl ((place.finish (Or.inl rfl)).go _) rfl
  | hand =>
    have live := alive rfl
    obtain ⟨made,⟨gone,-⟩ | ⟨-,held⟩⟩ := place
    · rw [live] at gone
      cases gone
    cases run
    have given : s.give s.handle = {s with handed := s.handed + 1} := if_pos held.fields.2.1
    rw [given]
    have handed := held.handed
    exact sound_outside rfl ⟨made,live,held.fields,by simp [State.go,handed],held.closed⟩ rfl
  | forget =>
    obtain ⟨made,live,fields,handed,closed⟩ := place
    cases run
    exact sound_outside rfl (Or.inr ⟨made,Or.inr ⟨live,Or.inr (Or.inr ⟨invalid,fields.2.2,
      Or.inl ⟨handed,closed⟩⟩)⟩⟩) rfl
  | acceptSocket =>
    obtain ⟨unmade,apart,live⟩ := place
    cases run
    split
    · exact sound_outside rfl ⟨rfl,⟨apart.handle,apart.accepted,apart.closed,apart.handed⟩,live⟩ rfl
    · exact sound_outside rfl (Or.inl ⟨unmade,apart.handle,apart.accepted,apart.closed,apart.handed⟩) rfl
  | acceptStore =>
    obtain ⟨made,apart,live⟩ := place
    cases run
    exact sound_outside rfl ⟨made,Or.inr ⟨live,⟨rfl,rfl,other⟩,apart.closed,apart.handed⟩⟩ rfl
  | acceptAlloc | accept | accepting | accepted =>
    cases run
    split
    · exact sound_outside rfl (place.go _) rfl
    · exact sound_outside rfl ((place.finish (Or.inr rfl)).go _) rfl
  | acceptObject =>
    have live := alive rfl
    obtain ⟨made,⟨gone,-⟩ | ⟨-,held⟩⟩ := place
    · rw [live] at gone
      cases gone
    cases run
    have given : s.give s.accepted = {s with handed := s.handed + 1} := if_pos held.fields.2.1
    rw [given]
    have handed := held.handed
    split
    · exact sound_outside rfl ⟨made,live,held.fields,by simp [State.go,handed],held.closed⟩ rfl
    · exact sound_outside rfl (Or.inr ⟨made,Or.inr ⟨live,Or.inr (Or.inl ⟨held.fields,held.closed,
        held.handed⟩)⟩⟩) rfl
  | acceptForget =>
    obtain ⟨made,live,fields,handed,closed⟩ := place
    cases run
    exact sound_outside rfl (Or.inr ⟨made,Or.inr ⟨live,Or.inr (Or.inr ⟨fields.2.2,invalid,
      Or.inl ⟨handed,closed⟩⟩)⟩⟩) rfl
  | finished => cases run

theorem Sound.step {event : Event} (sound : Sound s) (kept : Kept s event)
    (run : Creation.step s event = some s') : Sound s' := by
  cases event with
  | turn outcome =>
    simp only [Creation.step,Option.ite_none_left_eq_some,not_and] at run
    obtain ⟨alive,run⟩ := run
    refine sound.turn rfl ?_ kept run
    intro touches
    by_contra gone
    exact alive (eq_true_of_ne_false gone) touches
  | addRef =>
    simp only [Creation.step,Option.ite_none_right_eq_some,Option.some.injEq] at run
    obtain ⟨-,rfl⟩ := run
    exact ⟨sound.place.same rfl rfl rfl rfl rfl rfl rfl,sound.inside,sound.started⟩
  | drop =>
    simp only [Creation.step,Option.ite_none_right_eq_some,Option.some.injEq] at run
    obtain ⟨⟨live,positive,-⟩,rfl⟩ := run
    have holds : s.point.custody.Holds {s with refs := s.refs - 1} :=
      sound.place.same rfl rfl rfl rfl rfl rfl rfl
    have exposed : s.refs - 1 = 0 → s.entered = false → s.point.exposed = false := by
      intro last outside
      exact kept ⟨by omega,outside⟩
    refine ⟨?_,?_,?_⟩
    · rw [release_point]
      refine holds.release live ?_
      intro last outside
      have hidden := exposed last outside
      cases here : s.point with
      | connect =>
        have entered := (sound.inside (by rw [here]; rfl)).1
        change s.entered = false at outside
        rw [entered] at outside
        cases outside
      | _ =>
        rw [here] at hidden
        simp_all [Point.custody,Point.exposed]
    · rw [release_point]
      intro inside
      have entered := sound.inside inside
      rcases release_cases {s with refs := s.refs - 1} with same | ⟨-,outside,-⟩
      · rw [same]
        exact entered
      · change s.entered = false at outside
        rw [entered.1] at outside
        cases outside
    · rw [release_point]
      exact sound.started
  | cancel =>
    simp only [Creation.step,Option.ite_none_right_eq_some,Option.some.injEq] at run
    obtain ⟨-,rfl⟩ := run
    exact ⟨sound.place.same rfl rfl rfl rfl rfl rfl rfl,sound.inside,sound.started⟩
  | cancelIo done =>
    simp only [Creation.step,Option.ite_none_right_eq_some,Option.some.injEq] at run
    obtain ⟨-,rfl⟩ := run
    refine ⟨?_,sound.inside,sound.started⟩
    by_cases written : done ∧ s.handle ≠ .invalid
    · rw [if_pos written]
      exact sound.place.overwrite (kept written.1)
    · rw [if_neg written]
      exact sound.place.same rfl rfl rfl rfl rfl rfl rfl
  | reuse io =>
    simp only [Creation.step,Option.ite_none_right_eq_some,Option.some.injEq] at run
    obtain ⟨⟨live,here⟩,rfl⟩ := run
    obtain ⟨handle,accepted⟩ := kept
    have place := sound.place
    rw [here] at place
    refine sound_outside here ?_ rfl
    rcases place with ⟨unmade,apart⟩ | ⟨made,⟨gone,-⟩ | ⟨-,held | held | gone⟩⟩
    · refine Or.inl ⟨unmade,?_,?_,apart.closed,apart.handed⟩
      · simp only [reuse]
        split <;> simp [handle]
      · simp only [reuse]
        split <;> simp [accepted]
    · rw [live] at gone
      cases gone
    · exact absurd held.fields.2.1 handle
    · exact absurd held.fields.2.1 accepted
    · refine Or.inr ⟨made,Or.inr ⟨live,Or.inr (Or.inr ⟨?_,?_,gone.conserved⟩)⟩⟩
      · simp only [reuse]
        split <;> simp [handle]
      · simp only [reuse]
        split <;> simp [accepted]

theorem Starts.sound (starts : Starts s) : Sound s := by
  have apart : Apart s := ⟨starts.handle,starts.accepted,starts.closed,starts.handed⟩
  rcases starts.point with here | here
  · exact sound_outside here ⟨starts.made,apart⟩ rfl
  · exact sound_outside here ⟨starts.made,apart,starts.live⟩ rfl

theorem runs_conserved {start : State} (starts : Starts start)
    (run : ReflTransGen (Library.Permitted step Kept) start s) (freed : s.freed = true) : Conserved s := by
  have keeps : ∀ s s', Sound s → Library.Permitted step Kept s s' → Sound s' := by
    rintro s s' sound ⟨event,kept,run⟩
    exact sound.step kept run
  exact (Library.run_invariant keeps run starts.sound).place.conserved freed

end

/-- `xf_tcp_socket_new` on a new async without a timer, for a name with one IPv4 address. -/
def connecting : State where
  refs := 1
  locked := false
  entered := false
  canceling := false
  canceled := false
  handle := .invalid
  ioType := .connectPhase1
  accepted := .other
  freed := false
  addrs := [.inet]
  point := .lookupEnter
  made := false
  closed := 0
  handed := 0

theorem connecting_starts : Starts connecting := by
  constructor <;> decide

/-- The name is found and the socket prepared, up to `ConnectEx`. -/
def prepared : List Event := .turn .ok :: .turn .pending :: List.replicate 9 (.turn .ok)

theorem runs_conserved_connected : ∃ s, s.freed = true ∧ s.handed = 1 ∧ Conserved s := by
  obtain ⟨s,run,done⟩ := Library.perform_reachable _
    (show (Library.perform step Kept connecting (prepared ++ List.replicate 7 (.turn .ok) ++ [.drop])).any
      (fun s => decide (s.freed = true ∧ s.handed = 1)) = true by decide)
  obtain ⟨freed,handed⟩ := of_decide_eq_true done
  exact ⟨s,freed,handed,runs_conserved connecting_starts run freed⟩

/-- `ConnectEx` fails at once, and the notified async is released. -/
theorem closed_twice : ∃ s, ReflTransGen (Library.Permitted step (fun _ _ => True)) connecting s ∧
    s.freed = true ∧ s.closed = 2 ∧ ¬Conserved s := by
  obtain ⟨s,run,done⟩ := Library.perform_reachable _
    (show (Library.perform step (fun _ _ => True) connecting
        (prepared ++ [.turn .fails,.turn .ok,.turn .ok,.turn .ok,.drop])).any
      (fun s => decide (s.freed = true ∧ s.closed = 2 ∧ s.made = true)) = true by decide)
  obtain ⟨freed,closed,made⟩ := of_decide_eq_true done
  refine ⟨s,run,freed,closed,?_⟩
  intro conserved
  have := conserved made
  omega

end Xrossfire.Tcp.Creation
