import Xrossfire.Library.Run

/-! One TCP socket object of `tcp_socket.c` from its calls of `xf_socket_close` to
the release that destroys it. The disconnects it has started complete on the
worker threads, and the timer of the async that `DESTROY` waits for may expire. -/
namespace Xrossfire.Tcp
open Relation

abbrev Socket := Nat

inductive Owner
  | user
  | destroy
deriving DecidableEq

/-- How far `xf_io_completed_socket_disconnect` is with a disconnect. -/
inductive Progress
  | pending
  /-- `closesocket(body->handle)` was called. -/
  | closed
  /-- `body->handle` is `INVALID_SOCKET`, and only the notify is left. -/
  | written
  | done
deriving DecidableEq

structure Disconnect where
  owner : Owner
  progress : Progress
deriving DecidableEq

def Disconnect.outstanding (d : Disconnect) : Bool := d.progress = .pending ∨ d.progress = .closed

/-- Where the thread is that uses the object: in `__xf_socket_close`, in `DESTROY` or in `xf_object_release`. -/
inductive Point
  | outside
  /-- Before `WSAIoctl`, `xf_async_enter`, `DisconnectEx` and the notify of `_ERROR`. -/
  | ioctl (owner : Owner)
  | enter (owner : Owner)
  | disconnect (owner : Owner)
  | failed (owner : Owner)
  /-- Before the test of `data->handle` and `xf_async_wait_new`. -/
  | check
  | create
  | waiting
  /-- Before `free(self)`. -/
  | freeing
  | freed
deriving DecidableEq

structure State where
  ref : Int
  handle : Option Socket
  /-- What `closesocket` was called with, newest first. -/
  closed : List (Option Socket)
  caller : Point
  disconnects : List Disconnect
  /-- The async of `DESTROY`: its timer is armed, it was cancelled, it was notified. -/
  armed : Bool
  canceled : Bool
  status : Bool
deriving DecidableEq

namespace State

/-- `xf_async_notify` on the async of `DESTROY`. -/
def notify (s : State) : State := {s with armed := false, status := true}

def started (s : State) (owner : Owner) : State :=
  {s with disconnects := s.disconnects ++ [⟨owner,.pending⟩]}

def moved (s : State) (i : Nat) (d : Disconnect) (progress : Progress) : State :=
  {s with disconnects := s.disconnects.set i {d with progress := progress}}

def Covered (s : State) : Prop := s.handle = none ∨ ∃ d ∈ s.disconnects, d.owner = .user ∧ d.outstanding

def back (s : State) : Owner → State
  | .user => {s with caller := .outside}
  | .destroy => {s with caller := .waiting}

end State

/-- The caller moves on; `ok` is the outcome of the call it makes there. -/
def advance (s : State) (ok : Bool) : Point → Option State
  | .outside => none
  | .ioctl owner => some {s with caller := if ok then .enter owner else .failed owner}
  | .enter .user => some (if ok then {s with caller := .disconnect .user} else s.back .user)
  | .enter .destroy => some (if s.canceled then s.notify.back .destroy else {s with caller := .disconnect .destroy})
  | .disconnect owner =>
    some (if ok then (s.started owner).back owner else {s with caller := .failed owner})
  | .failed .user => some (s.back .user)
  | .failed .destroy => some (s.notify.back .destroy)
  | .check => some {s with caller := if s.handle = none then .freeing else .create}
  | .create =>
    some (if ok then {s with caller := .ioctl .destroy, armed := true, canceled := false, status := false}
      else {s with caller := .freeing})
  | .waiting => if s.status then some {s with caller := .freeing} else none
  | .freeing => some {s with caller := .freed}
  | .freed => none

/-- `xf_io_completed_socket_disconnect` moves on with disconnect `i`. -/
def complete (s : State) (i : Nat) (d : Disconnect) : Option State :=
  match d.progress with
  | .pending => some {s.moved i d .closed with closed := s.handle :: s.closed}
  | .closed => some {s.moved i d .written with handle := none}
  | .written => some (match d.owner with
    | .user => s.moved i d .done
    | .destroy => (s.moved i d .done).notify)
  | .done => none

inductive Event
  | addRef
  | close
  | release
  | go (ok : Bool)
  /-- The timer of the async of `DESTROY` fires, and cancels it under its lock. -/
  | expire
  | complete (i : Nat)
deriving DecidableEq

def step (s : State) : Event → Option State
  | .addRef => if s.caller = .outside ∧ 0 < s.ref then some {s with ref := s.ref + 1} else none
  | .close => if s.caller = .outside ∧ 0 < s.ref then some {s with caller := .ioctl .user} else none
  | .release =>
    if s.caller = .outside ∧ 0 < s.ref then
      some {s with ref := s.ref - 1, caller := if s.ref - 1 > 0 then .outside else .check}
    else none
  | .go ok => advance s ok s.caller
  | .expire =>
    if s.armed ∧ s.caller ≠ .disconnect .destroy then some {s.notify with canceled := true} else none
  | .complete i => if s.caller = .freed then none else s.disconnects[i]?.bind (complete s i)

def initial (handle : Socket) : State := ⟨1,some handle,[],.outside,[],false,false,false⟩

/-- `DESTROY` gives up its close with this outcome. -/
def Fails (s : State) (ok : Bool) : Prop :=
  match s.caller with
  | .create | .ioctl .destroy | .disconnect .destroy => ok = false
  | .enter .destroy => s.canceled
  | _ => False

/-- `DESTROY` ends once the disconnects of earlier closes have completed; its own close fails only
where one of these closes the handle; its timer does not expire while its disconnect is
outstanding; and no two completions are in the two lines that close the handle. -/
inductive Orderly (s : State) : Event → Prop
  | addRef : Orderly s .addRef
  | close : Orderly s .close
  | release : Orderly s .release
  | go (ok : Bool) (fails : Fails s ok → s.Covered)
      (finds : s.caller = .check ∧ s.handle = none ∨ s.caller = .create ∧ ok = false ∨ s.caller = .waiting →
        ∀ d ∈ s.disconnects, d.owner = .user → ¬d.outstanding) : Orderly s (.go ok)
  | expire (idle : ∀ d ∈ s.disconnects, d.owner = .destroy → ¬d.outstanding) : Orderly s .expire
  | complete (i : Nat) (alone : ∀ d, s.disconnects[i]? = some d → d.progress = .pending → s.handle ≠ none →
      ∀ other ∈ s.disconnects, other.progress ≠ .closed) : Orderly s (.complete i)

def Step : State → State → Prop := Library.Permitted step Orderly

structure ClosedOnce (handle : Socket) (s : State) : Prop where
  once : s.closed.count (some handle) = 1
  idle : ∀ d ∈ s.disconnects, ¬d.outstanding

/-! ## What holds in every such run -/

structure Handled (handle : Socket) (s : State) : Prop where
  owned : s.handle = none ∨ s.handle = some handle
  shut : s.handle = none → s.closed.count (some handle) = 1
  /-- While the object has its handle, `closesocket` was called by a completion about to clear it, or by none. -/
  held : s.handle = some handle →
    s.closed.count (some handle) = s.disconnects.countP (fun d => d.progress = .closed) ∧
    s.disconnects.countP (fun d => d.progress = .closed) ≤ 1
  complete : ∀ d ∈ s.disconnects, ¬d.outstanding → s.handle = none
  single : ∀ (i j : Nat) (d e : Disconnect), s.disconnects[i]? = some d → s.disconnects[j]? = some e →
    d.owner = .destroy → e.owner = .destroy → i = j

structure Placed (s : State) : Prop where
  late : ∀ d ∈ s.disconnects, d.owner = .destroy → s.caller = .waiting ∨ s.caller = .freeing ∨ s.caller = .freed
  expired : s.caller = .ioctl .destroy ∨ s.caller = .enter .destroy → s.status → s.canceled
  entered : s.caller = .disconnect .destroy → s.status = false
  failed : s.caller = .failed .destroy → s.Covered
  told : s.caller = .waiting → s.status → s.Covered ∧ ∀ d ∈ s.disconnects, d.owner = .destroy → ¬d.outstanding
  untold : s.caller = .waiting → s.status = false → ∃ d ∈ s.disconnects, d.owner = .destroy
  ended : s.caller = .freeing ∨ s.caller = .freed → s.handle = none ∧ ∀ d ∈ s.disconnects, ¬d.outstanding

structure Sound (handle : Socket) (s : State) : Prop where
  handled : Handled handle s
  placed : Placed s

section
variable {handle : Socket} {s s' : State}

theorem sound_initial : Sound handle (initial handle) := by
  constructor <;> constructor <;> simp [initial]

theorem Handled.same (handled : Handled handle s) (same : s'.handle = s.handle) (closed : s'.closed = s.closed)
    (disconnects : s'.disconnects = s.disconnects) : Handled handle s' := by
  obtain ⟨owned,shut,held,complete,single⟩ := handled
  constructor <;> simpa only [same,closed,disconnects]

theorem Handled.started {owner : Owner} (handled : Handled handle s)
    (first : owner = .destroy → ∀ d ∈ s.disconnects, d.owner = .user) : Handled handle (s.started owner) := by
  obtain ⟨owned,shut,held,complete,single⟩ := handled
  refine ⟨owned,shut,?_,?_,?_⟩
  · intro valid
    simpa [State.started] using held valid
  · intro d member idle
    rcases List.mem_append.mp member with old | new
    · exact complete d old idle
    · cases List.mem_singleton.mp new
      exact absurd rfl idle
  · intro i j d e foundD foundE ownD ownE
    simp only [State.started,List.getElem?_append,List.getElem?_singleton] at foundD foundE
    have older : ∀ (k : Nat) (d' : Disconnect), s.disconnects[k]? = some d' → owner = .destroy →
        d'.owner ≠ .destroy := by
      intro k d' found same own
      rw [first same d' (List.mem_of_getElem? found)] at own
      cases own
    split at foundD
    · split at foundE
      · exact single i j d e foundD foundE ownD ownE
      · split at foundE
        · cases foundE
          exact absurd ownD (older i d foundD ownE)
        · cases foundE
    · split at foundD
      · cases foundD
        split at foundE
        · exact absurd ownE (older j e foundE ownD)
        · split at foundE
          · omega
          · cases foundE
      · cases foundD

/-- Before its close `DESTROY` has no disconnect. -/
theorem Placed.users (placed : Placed s)
    (early : ¬(s.caller = .waiting ∨ s.caller = .freeing ∨ s.caller = .freed)) :
    ∀ d ∈ s.disconnects, d.owner = .user := by
  intro d member
  cases own : d.owner with
  | user => rfl
  | destroy => exact absurd (placed.late d member own) early

/-- Before the wait of `DESTROY` only its own failures and its timer matter. -/
theorem Placed.before (users : ∀ d ∈ s.disconnects, d.owner = .user)
    (early : ¬(s.caller = .waiting ∨ s.caller = .freeing ∨ s.caller = .freed))
    (expired : s.caller = .ioctl .destroy ∨ s.caller = .enter .destroy → s.status → s.canceled)
    (entered : s.caller = .disconnect .destroy → s.status = false)
    (failed : s.caller = .failed .destroy → s.Covered) : Placed s := by
  refine ⟨?_,expired,entered,failed,?_,?_,?_⟩
  · intro d member own
    rw [users d member] at own
    cases own
  · intro caller
    exact absurd (Or.inl caller) early
  · intro caller
    exact absurd (Or.inl caller) early
  · intro caller
    exact absurd (Or.inr caller) early

/-- Where no close of `DESTROY` is under way. -/
theorem Placed.quiet (users : ∀ d ∈ s.disconnects, d.owner = .user)
    (early : ¬(s.caller = .waiting ∨ s.caller = .freeing ∨ s.caller = .freed))
    (quiet : s.caller ∉ [.ioctl .destroy,.enter .destroy,.disconnect .destroy,.failed .destroy]) : Placed s := by
  simp only [List.mem_cons,List.not_mem_nil,or_false,not_or] at quiet
  obtain ⟨ioctl,enter,disconnect,failed⟩ := quiet
  refine .before users early ?_ (fun caller => absurd caller disconnect) (fun caller => absurd caller failed)
  rintro (caller | caller)
  · exact absurd caller ioctl
  · exact absurd caller enter

theorem Placed.waiting (caller : s.caller = .waiting)
    (told : s.status → s.Covered ∧ ∀ d ∈ s.disconnects, d.owner = .destroy → ¬d.outstanding)
    (untold : s.status = false → ∃ d ∈ s.disconnects, d.owner = .destroy) : Placed s := by
  refine ⟨fun _ _ _ => Or.inl caller,?_,?_,?_,fun _ => told,fun _ => untold,?_⟩ <;> simp [caller]

/-- `DESTROY` waits on an async that was notified before it had a disconnect. -/
theorem Placed.waiting_told (users : ∀ d ∈ s.disconnects, d.owner = .user) (caller : s.caller = .waiting)
    (status : s.status) (covered : s.Covered) : Placed s := by
  refine .waiting caller (fun _ => ⟨covered,?_⟩) ?_
  · intro d member own
    rw [users d member] at own
    cases own
  · intro untold
    rw [status] at untold
    cases untold

theorem Placed.freeing (caller : s.caller = .freeing ∨ s.caller = .freed) (shut : s.handle = none)
    (idle : ∀ d ∈ s.disconnects, ¬d.outstanding) : Placed s := by
  refine ⟨fun _ _ _ => Or.inr caller,?_,?_,?_,?_,?_,fun _ => ⟨shut,idle⟩⟩ <;>
    rcases caller with caller | caller <;> simp [caller]

theorem State.Covered.closed (covered : s.Covered)
    (idle : ∀ d ∈ s.disconnects, d.owner = .user → ¬d.outstanding) : s.handle = none := by
  rcases covered with shut | ⟨d,member,own,outstanding⟩
  · exact shut
  · exact absurd outstanding (idle d member own)

theorem Sound.advance {ok : Bool} (sound : Sound handle s) (fails : Fails s ok → s.Covered)
    (finds : s.caller = .check ∧ s.handle = none ∨ s.caller = .create ∧ ok = false ∨ s.caller = .waiting →
      ∀ d ∈ s.disconnects, d.owner = .user → ¬d.outstanding)
    (run : Tcp.advance s ok s.caller = some s') : Sound handle s' := by
  obtain ⟨handled,placed⟩ := sound
  have users := placed.users
  cases here : s.caller with
  | outside =>
    rw [here] at run
    cases run
  | ioctl owner =>
    rw [here] at run
    cases run
    have first := users (by simp [here])
    refine ⟨handled.same rfl rfl rfl,?_⟩
    cases owner with
    | user => cases ok <;> exact .quiet first (by simp) (by simp)
    | destroy =>
      cases ok with
      | true =>
        have expired := placed.expired (Or.inl here)
        exact .before first (by simp) (fun _ => expired) (by simp) (by simp)
      | false =>
        have covered : s.Covered := fails (by simp [Fails,here])
        exact .before first (by simp) (by simp) (by simp) (fun _ => covered)
  | enter owner =>
    rw [here] at run
    have first := users (by simp [here])
    cases owner with
    | user =>
      cases run
      cases ok <;> exact ⟨handled.same rfl rfl rfl,.quiet first (by simp [State.back]) (by simp [State.back])⟩
    | destroy =>
      cases run
      have expired := placed.expired (Or.inr here)
      split
      · rename_i canceled
        have covered : s.Covered := fails (by simpa [Fails,here] using canceled)
        exact ⟨handled.same rfl rfl rfl,.waiting_told first rfl rfl covered⟩
      · rename_i canceled
        have status : s.status = false := by simpa using fun status => canceled (expired status)
        exact ⟨handled.same rfl rfl rfl,.before first (by simp) (by simp) (fun _ => status) (by simp)⟩
  | disconnect owner =>
    rw [here] at run
    cases run
    have first := users (by simp [here])
    cases ok with
    | true =>
      refine ⟨?_,?_⟩
      · cases owner <;> exact (handled.started (fun _ => first)).same rfl rfl rfl
      · cases owner with
        | user =>
          refine .quiet ?_ (by simp [State.back]) (by simp [State.back])
          intro d member
          rcases List.mem_append.mp member with old | new
          · exact first d old
          · rw [List.mem_singleton.mp new]
        | destroy =>
          have status := placed.entered here
          refine .waiting rfl ?_ fun _ => ⟨_,List.mem_append_right _ (List.mem_singleton.mpr rfl),rfl⟩
          intro told
          change s.status = true at told
          rw [status] at told
          cases told
    | false =>
      refine ⟨handled.same rfl rfl rfl,?_⟩
      cases owner with
      | user => exact .quiet first (by simp) (by simp)
      | destroy =>
        have covered : s.Covered := fails (by simp [Fails,here])
        exact .before first (by simp) (by simp) (by simp) (fun _ => covered)
  | failed owner =>
    rw [here] at run
    have first := users (by simp [here])
    cases owner with
    | user =>
      cases run
      exact ⟨handled.same rfl rfl rfl,.quiet first (by simp [State.back]) (by simp [State.back])⟩
    | destroy =>
      cases run
      exact ⟨handled.same rfl rfl rfl,.waiting_told first rfl rfl (placed.failed here)⟩
  | check =>
    rw [here] at run
    cases run
    refine ⟨handled.same rfl rfl rfl,?_⟩
    have first := users (by simp [here])
    by_cases shut : s.handle = none
    · rw [if_pos shut]
      exact .freeing (Or.inl rfl) shut (fun d member => finds (Or.inl ⟨here,shut⟩) d member (first d member))
    · rw [if_neg shut]
      exact .quiet first (by simp) (by simp)
  | create =>
    rw [here] at run
    cases run
    have first := users (by simp [here])
    cases ok with
    | true =>
      -- the new async is neither notified nor cancelled
      exact ⟨handled.same rfl rfl rfl,.before first (by simp) (by simp) (by simp) (by simp)⟩
    | false =>
      have idle := finds (Or.inr (Or.inl ⟨here,rfl⟩))
      have covered : s.Covered := fails (by simp [Fails,here])
      exact ⟨handled.same rfl rfl rfl,.freeing (Or.inl rfl) (covered.closed idle)
        (fun d member => idle d member (first d member))⟩
  | waiting =>
    rw [here] at run
    simp only [Tcp.advance,Option.ite_none_right_eq_some,Option.some.injEq] at run
    obtain ⟨status,rfl⟩ := run
    obtain ⟨covered,own⟩ := placed.told here status
    have idle := finds (Or.inr (Or.inr here))
    refine ⟨handled.same rfl rfl rfl,.freeing (Or.inl rfl) (covered.closed idle) ?_⟩
    intro d member
    cases owner : d.owner with
    | user => exact idle d member owner
    | destroy => exact own d member owner
  | freeing =>
    rw [here] at run
    cases run
    obtain ⟨shut,idle⟩ := placed.ended (Or.inl here)
    exact ⟨handled.same rfl rfl rfl,.freeing (Or.inr rfl) shut idle⟩
  | freed =>
    rw [here] at run
    cases run

section
variable {i : Nat} {d : Disconnect} {progress : Progress}

theorem get_moved (here : s.disconnects[i]? = some d) (j : Nat) :
    (s.moved i d progress).disconnects[j]? =
      if i = j then some {d with progress := progress} else s.disconnects[j]? := by
  have bound := (List.getElem?_eq_some_iff.mp here).1
  simp only [State.moved,List.getElem?_set,bound,if_true]

/-- Every disconnect afterwards was there before with the same owner, and all but one as far. -/
theorem mem_moved {e : Disconnect}
    (member : e ∈ (s.moved i d progress).disconnects) : e ∈ s.disconnects ∨ e = {d with progress := progress} :=
  List.mem_or_eq_of_mem_set member

theorem moved_mem (progress : Progress) (here : s.disconnects[i]? = some d) :
    {d with progress := progress} ∈ (s.moved i d progress).disconnects :=
  List.mem_set (List.getElem?_eq_some_iff.mp here).1 _

theorem moved_kept (here : s.disconnects[i]? = some d) {e : Disconnect} (member : e ∈ s.disconnects)
    (other : e ≠ d) : e ∈ (s.moved i d progress).disconnects := by
  obtain ⟨j,found⟩ := List.mem_iff_getElem?.mp member
  apply List.mem_iff_getElem?.mpr
  refine ⟨j,?_⟩
  rw [get_moved here,if_neg]
  · exact found
  · rintro rfl
    rw [here] at found
    exact other (Option.some.inj found).symm

theorem moved_single (handled : Handled handle s) (here : s.disconnects[i]? = some d) :
    ∀ (j k : Nat) (e f : Disconnect), (s.moved i d progress).disconnects[j]? = some e →
      (s.moved i d progress).disconnects[k]? = some f → e.owner = .destroy → f.owner = .destroy → j = k := by
  -- the owners are those of before
  have before : ∀ (j : Nat) (e : Disconnect), (s.moved i d progress).disconnects[j]? = some e →
      ∃ e', s.disconnects[j]? = some e' ∧ e'.owner = e.owner := by
    intro j e found
    rw [get_moved here] at found
    split at found
    · rename_i same
      subst same
      cases found
      exact ⟨d,here,rfl⟩
    · exact ⟨e,found,rfl⟩
  intro j k e f foundE foundF ownE ownF
  obtain ⟨e',foundE,sameE⟩ := before j e foundE
  obtain ⟨f',foundF,sameF⟩ := before k f foundF
  exact handled.single j k e' f' foundE foundF (sameE.trans ownE) (sameF.trans ownF)

theorem count_moved (here : s.disconnects[i]? = some d) :
    (s.moved i d progress).disconnects.countP (fun d => d.progress = .closed) +
      (if d.progress = .closed then 1 else 0) =
    s.disconnects.countP (fun d => d.progress = .closed) + (if progress = .closed then 1 else 0) := by
  obtain ⟨bound,same⟩ := List.getElem?_eq_some_iff.mp here
  have counted := List.countP_set (p := fun d : Disconnect => decide (d.progress = .closed))
    (a := {d with progress := progress}) bound
  rw [same] at counted
  have positive : (if decide (d.progress = .closed) = true then 1 else 0) ≤
      s.disconnects.countP (fun d => d.progress = .closed) := by
    split
    · exact List.countP_pos_iff.mpr ⟨d,List.mem_of_getElem? here,‹_›⟩
    · exact Nat.zero_le _
  simp only [decide_eq_true_eq] at counted positive
  simp only [State.moved]
  omega

/-- A completion goes on without a notify of the async of `DESTROY`. -/
theorem Placed.moved {after : Option Socket} {closed : List (Option Socket)} (placed : Placed s)
    (here : s.disconnects[i]? = some d)
    (covered : s.Covered → {s.moved i d progress with handle := after, closed := closed}.Covered)
    (idle : ¬d.outstanding → after = none ∧ ¬{d with progress := progress}.outstanding) :
    Placed {s.moved i d progress with handle := after, closed := closed} := by
  obtain ⟨late,expired,entered,failed,told,untold,ended⟩ := placed
  have member := List.mem_of_getElem? here
  refine ⟨?_,expired,entered,fun caller => covered (failed caller),?_,?_,?_⟩
  · intro e inside own
    rcases mem_moved inside with old | rfl
    · exact late e old own
    · exact late d member own
  · intro caller status
    obtain ⟨cover,own⟩ := told caller status
    refine ⟨covered cover,?_⟩
    intro e inside owner
    rcases mem_moved inside with old | rfl
    · exact own e old owner
    · exact (idle (own d member owner)).2
  · intro caller status
    obtain ⟨e,inside,own⟩ := untold caller status
    by_cases same : e = d
    · subst same
      exact ⟨_,moved_mem progress here,own⟩
    · exact ⟨e,moved_kept here inside same,own⟩
  · intro caller
    obtain ⟨-,none⟩ := ended caller
    have fine := idle (none d member)
    refine ⟨fine.1,?_⟩
    intro e inside
    rcases mem_moved inside with old | rfl
    · exact none e old
    · exact fine.2

/-- The notify of the async of `DESTROY` by its own disconnect. -/
theorem Placed.notified (handled : Handled handle s) (placed : Placed s) (here : s.disconnects[i]? = some d)
    (own : d.owner = .destroy) (written : d.progress = .written) : Placed (s.moved i d .done).notify := by
  have member := List.mem_of_getElem? here
  have shut := handled.complete d member (by simp [Disconnect.outstanding,written])
  have place := placed.late d member own
  have covered : (s.moved i d .done).notify.Covered := Or.inl shut
  refine ⟨?_,?_,?_,fun _ => covered,?_,?_,?_⟩
  · intro e inside owner
    rcases mem_moved inside with old | rfl
    · exact placed.late e old owner
    · exact place
  · rintro (caller | caller)
    · simp [State.notify,State.moved] at caller
      simp [caller] at place
    · simp [State.notify,State.moved] at caller
      simp [caller] at place
  · intro caller
    simp [State.notify,State.moved] at caller
    simp [caller] at place
  · intro _ _
    refine ⟨covered,?_⟩
    intro e inside owner
    obtain ⟨j,found⟩ := List.mem_iff_getElem?.mp inside
    change (s.moved i d .done).disconnects[j]? = some e at found
    have same := moved_single handled here i j {d with progress := .done} e
      (by rw [get_moved here,if_pos rfl]) found own owner
    rw [get_moved here,if_pos same] at found
    cases found
    simp [Disconnect.outstanding]
  · intro _ impossible
    cases impossible
  · intro caller
    obtain ⟨-,none⟩ := placed.ended caller
    refine ⟨shut,?_⟩
    intro e inside
    rcases mem_moved inside with old | rfl
    · exact none e old
    · simp [Disconnect.outstanding]

end

theorem Sound.complete {i : Nat} {d : Disconnect} (sound : Sound handle s) (here : s.disconnects[i]? = some d)
    (alone : d.progress = .pending → s.handle ≠ none → ∀ other ∈ s.disconnects, other.progress ≠ .closed)
    (run : Tcp.complete s i d = some s') : Sound handle s' := by
  obtain ⟨handled,placed⟩ := sound
  have member := List.mem_of_getElem? here
  have single : ∀ progress, _ := fun progress => @moved_single _ _ _ _ progress handled here
  have count : ∀ progress, _ := fun progress => @count_moved _ _ _ progress here
  cases progress : d.progress with
  | pending =>
    simp only [Tcp.complete,progress,Option.some.injEq] at run
    subst run
    have counted := count .closed
    simp only [progress,reduceCtorEq,if_false,if_true] at counted
    refine ⟨⟨handled.owned,?_,?_,?_,single .closed⟩,placed.moved here ?_ ?_⟩
    · intro shut
      change s.handle = none at shut
      change (s.handle :: s.closed).count (some handle) = 1
      rw [shut,List.count_cons_of_ne (by simp)]
      exact handled.shut shut
    · intro valid
      change s.handle = some handle at valid
      have none : s.disconnects.countP (fun d => d.progress = .closed) = 0 := by
        rw [List.countP_eq_zero]
        intro other inside
        simpa using alone progress (by simp [valid]) other inside
      change (s.handle :: s.closed).count (some handle) = _ ∧ _
      rw [valid,List.count_cons_self,(handled.held valid).1]
      change _ + 1 = (s.moved i d .closed).disconnects.countP _ ∧
        (s.moved i d .closed).disconnects.countP _ ≤ 1
      omega
    · intro e inside idle
      rcases mem_moved inside with old | rfl
      · exact handled.complete e old idle
      · exact absurd rfl idle
    · rintro (shut | ⟨e,inside,own,outstanding⟩)
      · exact Or.inl shut
      · by_cases same : e = d
        · subst same
          exact Or.inr ⟨_,moved_mem .closed here,own,rfl⟩
        · exact Or.inr ⟨e,moved_kept here inside same,own,outstanding⟩
    · intro idle
      simp [Disconnect.outstanding,progress] at idle
  | closed =>
    simp only [Tcp.complete,progress,Option.some.injEq] at run
    subst run
    refine ⟨⟨Or.inl rfl,?_,?_,fun _ _ _ => rfl,single .written⟩,
      placed.moved here (fun _ => Or.inl rfl) ?_⟩
    · intro _
      rcases handled.owned with shut | valid
      · exact handled.shut shut
      · obtain ⟨equal,most⟩ := handled.held valid
        have least : 0 < s.disconnects.countP (fun d => d.progress = .closed) :=
          List.countP_pos_iff.mpr ⟨d,member,decide_eq_true progress⟩
        change s.closed.count (some handle) = 1
        omega
    · intro impossible
      cases impossible
    · intro idle
      simp [Disconnect.outstanding,progress] at idle
  | written =>
    have shut := handled.complete d member (by simp [Disconnect.outstanding,progress])
    have kept : Handled handle (s.moved i d .done) := by
      refine ⟨Or.inl shut,handled.shut,?_,fun _ _ _ => shut,single .done⟩
      intro valid
      change s.handle = some handle at valid
      rw [shut] at valid
      cases valid
    cases owner : d.owner with
    | user =>
      simp only [Tcp.complete,progress,owner,Option.some.injEq] at run
      subst run
      refine ⟨kept,placed.moved here (fun _ => Or.inl shut) ?_⟩
      intro _
      exact ⟨shut,by simp [Disconnect.outstanding]⟩
    | destroy =>
      simp only [Tcp.complete,progress,owner,Option.some.injEq] at run
      subst run
      exact ⟨kept.same rfl rfl rfl,placed.notified handled here owner progress⟩
  | done =>
    simp only [Tcp.complete,progress] at run
    cases run

theorem Sound.step {event : Event} (sound : Sound handle s) (orderly : Orderly s event)
    (run : Tcp.step s event = some s') : Sound handle s' := by
  obtain ⟨handled,placed⟩ := sound
  cases orderly with
  | addRef =>
    simp only [Tcp.step,Option.ite_none_right_eq_some,Option.some.injEq] at run
    obtain ⟨⟨here,-⟩,rfl⟩ := run
    have users := placed.users (by simp [here])
    exact ⟨handled.same rfl rfl rfl,.quiet users (by simp [here]) (by simp [here])⟩
  | close =>
    simp only [Tcp.step,Option.ite_none_right_eq_some,Option.some.injEq] at run
    obtain ⟨⟨here,-⟩,rfl⟩ := run
    have users := placed.users (by simp [here])
    exact ⟨handled.same rfl rfl rfl,.quiet users (by simp) (by simp)⟩
  | release =>
    simp only [Tcp.step,Option.ite_none_right_eq_some,Option.some.injEq] at run
    obtain ⟨⟨here,-⟩,rfl⟩ := run
    have users := placed.users (by simp [here])
    refine ⟨handled.same rfl rfl rfl,?_⟩
    split <;> exact .quiet users (by simp) (by simp)
  | go ok fails finds => exact Sound.advance ⟨handled,placed⟩ fails finds run
  | expire idle =>
    simp only [Tcp.step,Option.ite_none_right_eq_some,Option.some.injEq] at run
    obtain ⟨⟨-,unlocked⟩,rfl⟩ := run
    refine ⟨handled.same rfl rfl rfl,placed.late,fun _ _ => rfl,?_,placed.failed,?_,?_,placed.ended⟩
    · intro caller
      exact absurd caller unlocked
    · intro caller _
      refine ⟨?_,idle⟩
      cases status : s.status with
      | true => exact (placed.told caller status).1
      | false =>
        obtain ⟨d,member,own⟩ := placed.untold caller status
        exact Or.inl (handled.complete d member (idle d member own))
    · intro _ impossible
      cases impossible
  | complete i alone =>
    simp only [Tcp.step,Option.ite_none_left_eq_some] at run
    obtain ⟨-,run⟩ := run
    obtain ⟨d,here,run⟩ := Option.bind_eq_some_iff.mp run
    exact Sound.complete ⟨handled,placed⟩ here (alone d here) run

theorem runs_closedOnce (run : ReflTransGen Step (initial handle) s) (freed : s.caller = .freed) :
    ClosedOnce handle s := by
  have keeps : ∀ s s', Sound handle s → Step s s' → Sound handle s' := by
    rintro s s' sound ⟨event,orderly,run⟩
    exact sound.step orderly run
  have sound := Library.run_invariant keeps run sound_initial
  obtain ⟨shut,idle⟩ := sound.placed.ended (Or.inr freed)
  exact ⟨sound.handled.shut shut,idle⟩

end

/-- A user's close completes, and the object is released. -/
theorem runs_closedOnce_user : ∃ s, s.caller = .freed ∧ ClosedOnce 5 s := by
  let user (caller : Point) (disconnects : List Disconnect) : State :=
    ⟨1,some 5,[],caller,disconnects,false,false,false⟩
  have close : Step (initial 5) (user (.ioctl .user) []) := ⟨.close,.close,rfl⟩
  have ioctl : Step (user (.ioctl .user) []) (user (.enter .user) []) :=
    ⟨.go true,.go true (by simp [Fails,user]) (by simp [user]),rfl⟩
  have enter : Step (user (.enter .user) []) (user (.disconnect .user) []) :=
    ⟨.go true,.go true (by simp [Fails,user]) (by simp [user]),rfl⟩
  have disconnect : Step (user (.disconnect .user) []) (user .outside [⟨.user,.pending⟩]) :=
    ⟨.go true,.go true (by simp [Fails,user]) (by simp [user]),rfl⟩
  have closed : Step (user .outside [⟨.user,.pending⟩])
      ⟨1,some 5,[some 5],.outside,[⟨.user,.closed⟩],false,false,false⟩ :=
    ⟨.complete 0,.complete 0 (by simp [user]),rfl⟩
  have written : Step ⟨1,some 5,[some 5],.outside,[⟨.user,.closed⟩],false,false,false⟩
      ⟨1,none,[some 5],.outside,[⟨.user,.written⟩],false,false,false⟩ :=
    ⟨.complete 0,.complete 0 (by simp),rfl⟩
  have release : Step ⟨1,none,[some 5],.outside,[⟨.user,.written⟩],false,false,false⟩
      ⟨0,none,[some 5],.check,[⟨.user,.written⟩],false,false,false⟩ := ⟨.release,.release,rfl⟩
  have check : Step ⟨0,none,[some 5],.check,[⟨.user,.written⟩],false,false,false⟩
      ⟨0,none,[some 5],.freeing,[⟨.user,.written⟩],false,false,false⟩ :=
    ⟨.go true,.go true (by simp [Fails]) (by simp [Disconnect.outstanding]),rfl⟩
  have freed : Step ⟨0,none,[some 5],.freeing,[⟨.user,.written⟩],false,false,false⟩
      ⟨0,none,[some 5],.freed,[⟨.user,.written⟩],false,false,false⟩ :=
    ⟨.go true,.go true (by simp [Fails]) (by simp),rfl⟩
  exact ⟨_,rfl,runs_closedOnce (.tail (.tail (.tail (.tail (.tail (.tail (.tail (.tail (.single close)
    ioctl) enter) disconnect) closed) written) release) check) freed) rfl⟩

/-- `DisconnectEx` fails at once in `DESTROY`, as on a socket that is not connected. -/
theorem never_closed : ∃ s, ReflTransGen (Library.Permitted step (fun _ _ => True)) (initial 5) s ∧
    s.caller = .freed ∧ s.closed = [] ∧ ¬ClosedOnce 5 s := by
  have run : Library.perform step (fun _ _ => True) (initial 5)
      [.release,.go true,.go true,.go true,.go true,.go false,.go true,.go true,.go true] =
      some ⟨0,some 5,[],.freed,[],false,false,true⟩ := by decide
  refine ⟨_,Library.perform_steps run,rfl,rfl,?_⟩
  intro closed
  exact absurd closed.once (by decide)

end Xrossfire.Tcp
