import Xrossfire.Async.Object
import Xrossfire.Ssl.Send

/-! The handshake of `ssl_socket.c`: the procedure, phase by phase, and the calls
of it that `xf_async_run_next_phase` makes. An invocation is told how the calls in
it come out; the I/O a phase starts completes before the next invocation. -/
namespace Xrossfire.Ssl
open Async (phaseError phaseExit)

/-- `SEC_I_CONTINUE_NEEDED` and `SEC_E_INCOMPLETE_MESSAGE`. -/
def continueNeeded : Int := 590610
def incompleteMessage : Int := -2146893032

/-- `xf_ssl_socket_handshake_context_t`: whether `base_socket` is set, the status, the buffers (`none` is
NULL) and the two sizes of the input. -/
structure HandshakeContext where
  baseSocket : Bool
  ss : Int
  secBufIn : Option (List Byte)
  secBufOut : Option (List Byte)
  cbBuffer : Nat
  cBuffers : Nat
  transferedLength : Nat
deriving DecidableEq

/-- `sec_buf_desc_in`: no buffer, or the bytes received last. -/
def HandshakeContext.input (c : HandshakeContext) : Option (List Byte) :=
  if c.cBuffers = 0 then none else some ((c.secBufIn.getD []).take c.cbBuffer)

inductive HandshakeEvent
  /-- The procedure is called, with the context. -/
  | invoke (phase : Int)
  /-- `base_socket` comes to exist, gains a reference, loses one. -/
  | create
  | addRef
  | release
  /-- `InitializeSecurityContextW`, without or with the input buffer. -/
  | initializeSecurityContext (input : Option (List Byte))
  /-- What a receive has read. -/
  | received (bytes : List Byte)
  | send (token : List Byte)
  /-- `xf_ssl_socket_handshake_context_free`. -/
  | free
  /-- `*context->self = obj`. -/
  | setSelf
  /-- `xf_async_notify` on the parent. -/
  | notify (err : Int)
deriving DecidableEq

/-- `xf_ssl_socket_data_t`: whether `base_socket` is set, and the receive fields. -/
structure SslSocketData where
  baseSocket : Bool
  body : Body

structure Initialized where
  ss : Int
  token : List Byte
deriving DecidableEq

/-- How the calls come out that one invocation may make; `malloc` is what it finds in the new buffer. -/
structure Responses where
  acquire : Int
  initializeSecurityContext : Option (List Byte) → Initialized
  malloc : Option (List Byte)
  objectNew : Int

/-- What an invocation returns, the phase it has stored, the context it leaves (`none` is freed memory), the
SSL object it has made, and whether it comes to `xf_abort`. -/
structure Returned where
  err : Int
  nextPhase : Option Int
  context : Option HandshakeContext
  self : Option SslSocketData
  events : List HandshakeEvent
  aborts : Bool

/-- `xf_ssl_socket_handshake_context_free`. In freed memory `base_socket` may still be found (`stale`). -/
def contextFree (stale : Bool) (context : Option HandshakeContext) : List HandshakeEvent :=
  match context with
  | some c => .free :: if c.baseSocket then [.release] else []
  | none => .free :: if stale then [.release] else []

/-- The label `_ERROR`. -/
def handshakeError (stale : Bool) (context : Option HandshakeContext) (err : Int) (events : List HandshakeEvent) :
    Returned :=
  ⟨err,none,none,none,events ++ contextFree stale context,false⟩

/-- Phase 3: the next receive, or the end of the handshake. -/
def handshakePh3 (stale : Bool) (c : HandshakeContext) (r : Responses) (events : List HandshakeEvent) : Returned :=
  let c := {c with secBufOut := none}
  if c.ss = continueNeeded then
    match c.secBufIn,r.malloc with
    | some _,_ => ⟨0,some 4,some c,none,events,false⟩
    | none,some p => ⟨0,some 4,some {c with secBufIn := some p},none,events,false⟩
    | none,none => handshakeError stale (some c) error events
  else if c.ss = secOk then
    if r.objectNew ≠ 0 then handshakeError stale (some c) r.objectNew events
    else
      let data : SslSocketData := ⟨c.baseSocket,⟨none,0,0⟩⟩
      ⟨0,some phaseExit,none,some data,events ++ .setSelf :: contextFree stale (some {c with baseSocket := false}),
        false⟩
  else ⟨0,none,some c,none,events,true⟩

/-- Phase 2, which goes on with phase 3 when there is no token to send. -/
def handshakePh2 (stale : Bool) (c : HandshakeContext) (r : Responses) (events : List HandshakeEvent) : Returned :=
  let i := r.initializeSecurityContext c.input
  let events := events ++ [.initializeSecurityContext c.input]
  let c := {c with ss := i.ss, secBufOut := if i.token = [] then none else some i.token}
  if i.ss < 0 then handshakeError stale (some c) error events
  else if i.token ≠ [] then ⟨0,some 3,some c,none,events ++ [.send i.token],false⟩
  else handshakePh3 stale c r events

/-- Phase 1, on the connected socket. -/
def handshakePh1 (stale : Bool) (c : HandshakeContext) (r : Responses) : Returned :=
  if r.acquire ≠ secOk then handshakeError stale (some c) error [.addRef]
  else handshakePh2 stale {c with ss := continueNeeded, cBuffers := 0} r [.addRef]

/-- Phase 4: the bytes received are the input of the next phase 2. -/
def handshakePh4 (stale : Bool) (c : HandshakeContext) (r : Responses) : Returned :=
  handshakePh2 stale {c with cbBuffer := c.transferedLength, cBuffers := 1} r []

/-- `xf_async_ssl_handshake_procedure`. -/
def handshakeProcedure (stale : Bool) (context : Option HandshakeContext) (phase err : Int) (r : Responses) :
    Returned :=
  match context with
  | some c =>
    if phase = 0 then ⟨0,some 1,some c,none,[],false⟩
    else if phase = 1 then handshakePh1 stale c r
    else if phase = 2 then handshakePh2 stale c r []
    else if phase = 3 then handshakePh3 stale c r []
    else if phase = 4 then handshakePh4 stale c r
    else if phase = phaseError then handshakeError stale context err []
    else ⟨0,none,context,none,[],true⟩
  | none =>
    if phase = phaseError then handshakeError stale context err []
    else ⟨0,none,context,none,[],true⟩

/-- The multi-phase async of a handshake. It waits for an I/O as long as it is `running`. -/
structure Handshake where
  nextPhase : Int
  running : Bool
  context : Option HandshakeContext
  self : Option SslSocketData
  trace : List HandshakeEvent

/-- `xf_async_run_next_phase` with an error. -/
def runError (stale : Bool) (s : Handshake) (err : Int) (r : Responses) : Handshake :=
  let ret := handshakeProcedure stale s.context phaseError err r
  ⟨ret.nextPhase.getD s.nextPhase,false,ret.context,ret.self,
    s.trace ++ [.invoke phaseError] ++ ret.events ++ [.notify ret.err]⟩

/-- `xf_async_run_next_phase`. -/
def runNextPhase (stale : Bool) (s : Handshake) (err : Int) (r : Responses) : Handshake :=
  if err ≠ 0 then runError stale s err r
  else
    let ret := handshakeProcedure stale s.context s.nextPhase 0 r
    let next : Handshake := ⟨ret.nextPhase.getD s.nextPhase,!ret.aborts,ret.context,ret.self,
      s.trace ++ [.invoke s.nextPhase] ++ ret.events⟩
    if ret.aborts then next
    else if ret.err ≠ 0 then runError stale next ret.err r
    else if next.nextPhase = phaseExit then {next with running := false, trace := next.trace ++ [.notify 0]}
    else next

/-- The completion of an I/O with the bytes it has read, and the responses to the invocation it leads to. -/
structure Round where
  err : Int
  read : List Byte
  responses : Responses

def Handshake.completes (s : Handshake) (round : Round) : Handshake :=
  match s.context with
  | some c =>
    if round.err ≠ 0 then s
    else if s.nextPhase = 1 then {s with context := some {c with baseSocket := true}, trace := s.trace ++ [.create]}
    else if s.nextPhase = 4 then
      {s with
        context := some {c with
          secBufIn := c.secBufIn.map (fun buffer => round.read ++ buffer.drop round.read.length)
          transferedLength := round.read.length}
        trace := s.trace ++ [.received round.read]}
    else s
  | none => s

def Handshake.next (stale : Bool) (s : Handshake) (round : Round) : Handshake :=
  if s.running then runNextPhase stale (s.completes round) round.err round.responses else s

/-- `xf_ssl_socket_new`, with the context from `calloc` and the async set up. -/
def handshakeStart (stale : Bool) (r : Responses) : Handshake :=
  runNextPhase stale ⟨0,true,some ⟨false,0,none,none,0,0,0⟩,none,[]⟩ 0 r

def handshake (stale : Bool) (r : Responses) (rounds : List Round) : Handshake :=
  rounds.foldl (Handshake.next stale) (handshakeStart stale r)

def Proceeds (c : HandshakeContext) (r : Responses) : Prop :=
  (c.ss = continueNeeded → c.secBufIn = none → r.malloc ≠ none) ∧ (c.ss = secOk → r.objectNew = 0)

def Initializes (c : HandshakeContext) (r : Responses) : Prop :=
  0 ≤ (r.initializeSecurityContext c.input).ss ∧
    ((r.initializeSecurityContext c.input).token = [] →
      Proceeds {c with ss := (r.initializeSecurityContext c.input).ss} r)

/-- No phase fails by itself: after an I/O without error the calls of the invocation succeed. -/
def Succeeds (s : Handshake) (round : Round) : Prop :=
  s.running = true → round.err = 0 → ∀ c ∈ (s.completes round).context,
    (s.nextPhase = 1 → round.responses.acquire = secOk ∧
      Initializes {c with ss := continueNeeded, cBuffers := 0} round.responses) ∧
    (s.nextPhase = 3 → Proceeds c round.responses) ∧
    (s.nextPhase = 4 → Initializes {c with cbBuffer := c.transferedLength, cBuffers := 1} round.responses)

def HandshakeEvent.early : HandshakeEvent → Bool
  | .free | .setSelf | .notify _ => false
  | _ => true

theorem contextFree_cases (stale : Bool) (context : Option HandshakeContext) :
    contextFree stale context = [.free] ∨ contextFree stale context = [.free,.release] := by
  cases context with
  | none => cases stale <;> simp [contextFree]
  | some c => cases set : c.baseSocket <;> simp [contextFree,set]

def HandshakeEvent.exchange : HandshakeEvent → Bool
  | .initializeSecurityContext _ | .send _ => true
  | _ => false

/-- How an invocation without an error ends after the events `start`: it waits for an I/O, aborts, leaves with
the SSL object or fails; `socket` is whether `base_socket` was set. -/
inductive Ending (stale socket : Bool) (start : List HandshakeEvent) (ret : Returned) : Prop
  | waits {c : HandshakeContext} {phase : Int} {more : List HandshakeEvent}
      (same : ret = ⟨0,some phase,some c,none,start ++ more,false⟩) (socket : c.baseSocket = socket)
      (next : phase = 3 ∨ phase = 4) (buffer : phase = 4 → c.secBufIn ≠ none) (inner : ∀ e ∈ more, e.exchange)
  | aborts {c : HandshakeContext} {more : List HandshakeEvent}
      (same : ret = ⟨0,none,some c,none,start ++ more,true⟩) (inner : ∀ e ∈ more, e.exchange)
  | exits {body : Body} {more : List HandshakeEvent}
      (same : ret = ⟨0,some phaseExit,none,some ⟨socket,body⟩,start ++ more ++ [HandshakeEvent.setSelf,.free],false⟩)
      (inner : ∀ e ∈ more, e.exchange)
  | fails {c : HandshakeContext} {err : Int} {more : List HandshakeEvent} (failed : err ≠ 0)
      (same : ret = ⟨err,none,none,none,start ++ more ++ contextFree stale (some c),false⟩)
      (inner : ∀ e ∈ more, e.exchange)

theorem error_ne : error ≠ 0 := by decide

theorem handshakePh3_ending (stale : Bool) (c : HandshakeContext) (r : Responses) (start : List HandshakeEvent)
    {more : List HandshakeEvent} (inner : ∀ e ∈ more, e.exchange) :
    Ending stale c.baseSocket start (handshakePh3 stale c r (start ++ more)) ∧
      ((handshakePh3 stale c r (start ++ more)).err = 0 ↔ Proceeds c r) := by
  simp only [handshakePh3,Proceeds]
  split
  · next continues =>
    have unfinished : c.ss ≠ secOk := by
      rw [continues]
      decide
    split
    · next found =>
      exact ⟨.waits rfl rfl (Or.inr rfl) (fun _ => found.symm ▸ Option.some_ne_none _) inner,iff_of_true rfl
        ⟨fun _ missing => absurd (found.symm.trans missing) (Option.some_ne_none _),
          fun done => absurd done unfinished⟩⟩
    · next missing made =>
      exact ⟨.waits rfl rfl (Or.inr rfl) (fun _ => Option.some_ne_none _) inner,iff_of_true rfl
        ⟨fun _ _ failed => absurd (made.symm.trans failed) (Option.some_ne_none _),
          fun done => absurd done unfinished⟩⟩
    · next missing made =>
      exact ⟨.fails error_ne rfl inner,iff_of_false error_ne (fun fine => fine.1 continues missing made)⟩
  · next other =>
    split
    · next done =>
      split
      · next failed => exact ⟨.fails failed rfl inner,iff_of_false failed (fun fine => failed (fine.2 done))⟩
      · next made =>
        exact ⟨.exits rfl inner,iff_of_true rfl
          ⟨fun continues => absurd continues other,fun _ => Decidable.not_not.mp made⟩⟩
    · next unknown =>
      exact ⟨.aborts rfl inner,iff_of_true rfl
        ⟨fun continues => absurd continues other,fun done => absurd done unknown⟩⟩

theorem handshakePh2_ending (stale : Bool) (c : HandshakeContext) (r : Responses) (start : List HandshakeEvent) :
    Ending stale c.baseSocket start (handshakePh2 stale c r start) ∧
      ((handshakePh2 stale c r start).err = 0 ↔ Initializes c r) := by
  have asked : ∀ e ∈ [HandshakeEvent.initializeSecurityContext c.input], e.exchange := by
    intro e member
    rw [List.mem_singleton.mp member]
    rfl
  simp only [handshakePh2,Initializes]
  split
  · next failed => exact ⟨.fails error_ne rfl asked,iff_of_false error_ne (fun fine => by omega)⟩
  · next passed =>
    split
    · next token =>
      rw [List.append_assoc]
      refine ⟨.waits rfl rfl (Or.inl rfl) (fun fourth => by cases fourth) ?_,
        iff_of_true rfl ⟨by omega,fun none => absurd none token⟩⟩
      intro e member
      rcases List.mem_append.mp member with first | last
      · exact asked e first
      · rw [List.mem_singleton.mp last]
        rfl
    · next none =>
      have none := Decidable.not_not.mp none
      have passed : 0 ≤ (r.initializeSecurityContext c.input).ss := by omega
      obtain ⟨ending,fine⟩ := handshakePh3_ending stale {c with
        ss := (r.initializeSecurityContext c.input).ss
        secBufOut := if (r.initializeSecurityContext c.input).token = [] then Option.none
          else some (r.initializeSecurityContext c.input).token} r start asked
      exact ⟨ending,fine.trans ⟨fun proceeds => ⟨passed,fun _ => proceeds⟩,fun fine => fine.2 none⟩⟩

theorem handshakePh1_ending (stale : Bool) (c : HandshakeContext) (r : Responses) :
    Ending stale c.baseSocket [.addRef] (handshakePh1 stale c r) ∧ ((handshakePh1 stale c r).err = 0 ↔
      r.acquire = secOk ∧ Initializes {c with ss := continueNeeded, cBuffers := 0} r) := by
  unfold handshakePh1
  split
  · next failed =>
    have quiet : ∀ e ∈ ([] : List HandshakeEvent), e.exchange := fun e member => absurd member List.not_mem_nil
    exact ⟨.fails error_ne rfl quiet,iff_of_false error_ne (fun fine => failed fine.1)⟩
  · next acquired =>
    obtain ⟨ending,fine⟩ := handshakePh2_ending stale {c with ss := continueNeeded, cBuffers := 0} r [.addRef]
    exact ⟨ending,fine.trans (and_iff_right (Decidable.not_not.mp acquired)).symm⟩

structure Waiting (s : Handshake) : Prop where
  running : s.running = true
  context : ∃ c, s.context = some c ∧ (s.nextPhase = 4 → c.secBufIn ≠ none)
  phase : s.nextPhase = 1 ∨ s.nextPhase = 3 ∨ s.nextPhase = 4
  early : ∀ e ∈ s.trace, e.early

section Steps
variable {stale : Bool} {s : Handshake} {round : Round}

theorem Waiting.completes (waiting : Waiting s) (round : Round) : Waiting (s.completes round) ∧
    (s.completes round).nextPhase = s.nextPhase := by
  obtain ⟨running,⟨c,context,buffer⟩,phase,early⟩ := waiting
  have one {e : HandshakeEvent} (here : e.early) : ∀ g ∈ s.trace ++ [e], g.early := by
    intro g member
    rcases List.mem_append.mp member with old | new
    · exact early g old
    · rw [List.mem_singleton.mp new]
      exact here
  simp only [Handshake.completes,context]
  split
  · exact ⟨⟨running,⟨c,context,buffer⟩,phase,early⟩,rfl⟩
  · split
    · exact ⟨⟨running,⟨_,rfl,buffer⟩,phase,one rfl⟩,rfl⟩
    · split
      · next fourth =>
        refine ⟨⟨running,⟨_,rfl,?_⟩,phase,one rfl⟩,rfl⟩
        exact fun _ missing => buffer fourth (Option.map_eq_none_iff.mp missing)
      · exact ⟨⟨running,⟨c,context,buffer⟩,phase,early⟩,rfl⟩

def entry (phase : Int) : List HandshakeEvent := if phase = 1 then [.addRef] else []

theorem entry_early (phase : Int) : ∀ e ∈ entry phase, e.early := by
  intro e member
  unfold entry at member
  split at member
  · rw [List.mem_singleton.mp member]
    rfl
  · cases member

theorem exchange_early {e : HandshakeEvent} (exchange : e.exchange) : e.early := by
  cases e <;> first | rfl | cases exchange

/-- The invocation after an I/O without error ends as its phases do, and succeeds with its calls. -/
theorem procedure_ending (stale : Bool) (waiting : Waiting s) (passed : round.err = 0) :
    ∃ c, (s.completes round).context = some c ∧
      Ending stale c.baseSocket (entry s.nextPhase)
        (handshakeProcedure stale (some c) s.nextPhase 0 round.responses) ∧
      ((handshakeProcedure stale (some c) s.nextPhase 0 round.responses).err = 0 ↔ Succeeds s round) := by
  obtain ⟨⟨-,⟨c,context,-⟩,-,-⟩,-⟩ := waiting.completes round
  have succeeds : Succeeds s round ↔ (s.nextPhase = 1 → round.responses.acquire = secOk ∧
      Initializes {c with ss := continueNeeded, cBuffers := 0} round.responses) ∧
      (s.nextPhase = 3 → Proceeds c round.responses) ∧
      (s.nextPhase = 4 → Initializes {c with cbBuffer := c.transferedLength, cBuffers := 1} round.responses) := by
    simp [Succeeds,waiting.running,passed,context]
  refine ⟨c,context,?_⟩
  rw [succeeds]
  rcases waiting.phase with phase | phase | phase <;> rw [phase]
  · obtain ⟨ending,fine⟩ := handshakePh1_ending stale c round.responses
    exact ⟨ending,fine.trans (by simp)⟩
  · have none : ∀ e ∈ ([] : List HandshakeEvent), e.exchange := fun e member => absurd member List.not_mem_nil
    obtain ⟨ending,fine⟩ := handshakePh3_ending stale c round.responses [] none
    exact ⟨ending,fine.trans (by simp)⟩
  · obtain ⟨ending,fine⟩ := handshakePh2_ending stale {c with cbBuffer := c.transferedLength, cBuffers := 1}
      round.responses []
    exact ⟨ending,fine.trans (by simp)⟩

theorem runError_eq (stale : Bool) (s : Handshake) (err : Int) (r : Responses) : runError stale s err r =
    ⟨s.nextPhase,false,none,none,
      s.trace ++ [HandshakeEvent.invoke phaseError] ++ contextFree stale s.context ++ [HandshakeEvent.notify err]⟩ := by
  cases context : s.context <;> simp [runError,handshakeProcedure,handshakeError,context,phaseError]

/-- Where an I/O without error takes the handshake after the events `before`; `fine` is that no call fails. -/
inductive Advance (stale socket : Bool) (fine : Prop) (before : List HandshakeEvent) (s : Handshake) : Prop
  | waits {c : HandshakeContext} {phase : Int} {more : List HandshakeEvent}
      (same : s = ⟨phase,true,some c,none,before ++ more⟩) (fine : fine) (socket : c.baseSocket = socket)
      (next : phase = 3 ∨ phase = 4) (buffer : phase = 4 → c.secBufIn ≠ none) (inner : ∀ e ∈ more, e.exchange)
  | aborts {c : HandshakeContext} {phase : Int} {more : List HandshakeEvent}
      (same : s = ⟨phase,false,some c,none,before ++ more⟩) (fine : fine) (inner : ∀ e ∈ more, e.exchange)
  | exits {body : Body} {more : List HandshakeEvent}
      (same : s = ⟨phaseExit,false,none,some ⟨socket,body⟩,before ++ more ++ [HandshakeEvent.setSelf,.free,.notify 0]⟩)
      (fine : fine) (inner : ∀ e ∈ more, e.exchange)
  | fails {c : HandshakeContext} {phase err : Int} {more : List HandshakeEvent}
      (same : s = ⟨phase,false,none,none,before ++ more ++
        (contextFree stale (some c) ++
          HandshakeEvent.invoke phaseError :: (contextFree stale none ++ [HandshakeEvent.notify err]))⟩)
      (broken : ¬ fine) (inner : ∀ e ∈ more, e.exchange)

theorem next_advance (stale : Bool) (waiting : Waiting s) (passed : round.err = 0) :
    ∃ c, (s.completes round).context = some c ∧ Advance stale c.baseSocket (Succeeds s round)
      ((s.completes round).trace ++ HandshakeEvent.invoke s.nextPhase :: entry s.nextPhase) (s.next stale round) := by
  obtain ⟨c,context,ending,fine⟩ := procedure_ending stale waiting passed
  obtain ⟨-,phase⟩ := waiting.completes round
  refine ⟨c,context,?_⟩
  rw [Handshake.next,if_pos waiting.running,runNextPhase,if_neg (not_not_intro passed),context,phase]
  generalize handshakeProcedure stale (some c) s.nextPhase 0 round.responses = ret at ending fine ⊢
  cases ending with
  | @waits c phase more same socket next buffer inner =>
    subst same
    have later : phase ≠ phaseExit := by
      rcases next with rfl | rfl <;> decide
    simp only [Bool.false_eq_true,if_false,ne_eq,not_true_eq_false,Option.getD_some,later,Bool.not_false]
    exact @Advance.waits _ _ _ _ _ c phase more (by simp) (fine.mp rfl) socket next buffer inner
  | @aborts c more same inner =>
    subst same
    simp only [if_true,Bool.not_true,Option.getD_none]
    exact @Advance.aborts _ _ _ _ _ c s.nextPhase more (by simp) (fine.mp rfl) inner
  | @exits body more same inner =>
    subst same
    simp only [Bool.false_eq_true,if_false,ne_eq,not_true_eq_false,Option.getD_some,if_true]
    exact @Advance.exits _ _ _ _ _ body more (by simp) (fine.mp rfl) inner
  | @fails c err more failed same inner =>
    subst same
    simp only [Bool.false_eq_true,if_false,ne_eq,failed,not_false_eq_true,if_true,runError_eq]
    exact @Advance.fails _ _ _ _ _ c s.nextPhase err more (by simp) (fun succeeds => failed (fine.mpr succeeds)) inner

/-- An I/O with an error ends the handshake. -/
theorem next_failed (stale : Bool) (waiting : Waiting s) (failed : round.err ≠ 0) :
    ∃ c, s.context = some c ∧ s.next stale round = ⟨s.nextPhase,false,none,none,
      s.trace ++ [HandshakeEvent.invoke phaseError] ++
        (contextFree stale (some c) ++ [HandshakeEvent.notify round.err])⟩ := by
  obtain ⟨c,context,-⟩ := waiting.context
  refine ⟨c,context,?_⟩
  have same : s.completes round = s := by
    simp only [Handshake.completes,context,ne_eq,failed,not_false_eq_true,if_true]
  rw [Handshake.next,if_pos waiting.running,runNextPhase,if_pos failed,same,runError_eq,context,List.append_assoc]

theorem early_append {t t' : List HandshakeEvent} (early : ∀ e ∈ t, e.early) (early' : ∀ e ∈ t', e.early) :
    ∀ e ∈ t ++ t', e.early := by
  intro e member
  rcases List.mem_append.mp member with old | new
  · exact early e old
  · exact early' e new

theorem invoke_early {t : List HandshakeEvent} (early : ∀ e ∈ t, e.early) (phase : Int) :
    ∀ e ∈ .invoke phase :: t, e.early := by
  intro e member
  rcases List.mem_cons.mp member with rfl | inside
  · rfl
  · exact early e inside

/-- After an I/O the handshake waits for the next, or it is over. -/
theorem next_going (stale : Bool) (waiting : Waiting s) (round : Round) :
    Waiting (s.next stale round) ∨ (s.next stale round).running = false := by
  by_cases passed : round.err = 0
  · obtain ⟨c,-,advance⟩ := next_advance stale waiting passed
    have before := early_append (waiting.completes round).1.early (invoke_early (entry_early s.nextPhase) s.nextPhase)
    cases advance with
    | @waits c phase more same fine socket next buffer inner =>
      rw [same]
      exact Or.inl ⟨rfl,⟨c,rfl,buffer⟩,Or.inr next,
        early_append before (fun e member => exchange_early (inner e member))⟩
    | aborts same fine inner =>
      rw [same]
      exact Or.inr rfl
    | exits same fine inner =>
      rw [same]
      exact Or.inr rfl
    | fails same broken inner =>
      rw [same]
      exact Or.inr rfl
  · obtain ⟨c,-,same⟩ := next_failed stale waiting passed
    rw [same]
    exact Or.inr rfl

end Steps

section Runs
variable {stale : Bool}

theorem next_stopped {s : Handshake} (stopped : s.running = false) (rounds : List Round) :
    rounds.foldl (Handshake.next stale) s = s := by
  induction rounds with
  | nil => rfl
  | cons round rounds ih =>
    rw [List.foldl_cons,Handshake.next,if_neg (Bool.eq_false_iff.mp stopped)]
    exact ih

theorem handshakeStart_waiting (stale : Bool) (r : Responses) : Waiting (handshakeStart stale r) :=
  ⟨rfl,⟨_,rfl,fun fourth => by cases fourth⟩,Or.inl rfl,fun e member => by rw [List.mem_singleton.mp member]; rfl⟩

end Runs

end Xrossfire.Ssl
