import Xrossfire.Library.Framing
import Xrossfire.Ssl.Handshake
import Xrossfire.Ssl.Receive

/-! What Schannel is shown of the bytes that `base_socket` receives: over the
rounds of a handshake, and over the receive calls on the socket it makes. -/
namespace Xrossfire.Ssl
open Library (Framing Passage pieces)
open Async (phaseError phaseExit)

def HandshakeEvent.passage : HandshakeEvent → Option (Passage Byte)
  | .received bytes => some (.read bytes)
  | .initializeSecurityContext (some input) => some (.present input [])
  | .notify err => if err = 0 then none else some .fail
  | _ => none

def passages (trace : List HandshakeEvent) : List (Passage Byte) := trace.filterMap HandshakeEvent.passage

/-- How the calls of a receive come out that has to read. The read puts `bytes` at the start of `iobuf`, and
`DecryptMessage` is given the whole of it. -/
inductive Reading
  | noContext (err : Int)
  | noStreamSizes
  | noIobuf (err : Int)
  | noAsync (err : Int)
  | unread (err : Int)
  | read (iobuf bytes : List Byte) (decryptMessage : List Byte → Option Decrypted)

def Reading.setup : Reading → Except Int Setup
  | .noContext err => .error err
  | .noStreamSizes => .ok .noStreamSizes
  | .noIobuf err => .ok (.noIobuf err)
  | .noAsync err => .ok (.noAsync err)
  | .unread err => .ok (.completed err none)
  | .read iobuf bytes decryptMessage => .ok (.completed 0 (decryptMessage (bytes ++ iobuf.drop bytes.length)))

def Reading.passages : Reading → List (Passage Byte)
  | .read iobuf bytes _ => [.read bytes,.present bytes (iobuf.drop bytes.length)]
  | _ => []

def Reading.iobuf : Reading → Option (List Byte × List Byte)
  | .read iobuf bytes _ => some (iobuf,bytes)
  | _ => none

def Action.passage : Action → Option (Passage Byte)
  | .notify err => if err = 0 then none else some .fail
  | _ => none

structure ReceiveCall where
  length : Int
  reading : Reading

structure Conversation where
  body : Option Body
  iobufs : List (List Byte × List Byte)
  trace : List (Passage Byte)

/-- `__xf_socket_receive`, which reads when the plaintext is used up. -/
def Conversation.receive (s : Conversation) (call : ReceiveCall) : Option Conversation :=
  match s.body with
  | none => some s
  | some body => do
    let r ← Ssl.receive body call.length call.reading.setup
    let told := r.actions.filterMap Action.passage
    if body.receivedPos < body.receivedLength then return ⟨some r.body,s.iobufs,s.trace ++ told⟩
    else return ⟨some r.body,s.iobufs ++ call.reading.iobuf.toList,s.trace ++ call.reading.passages ++ told⟩

def conversation (stale : Bool) (r : Responses) (rounds : List Round) (calls : List ReceiveCall) :
    Option Conversation :=
  let h := handshake stale r rounds
  calls.foldlM Conversation.receive ⟨h.self.map SslSocketData.body,[],passages h.trace⟩

/-- Schannel asks for more as long as a message is not there as a whole. -/
structure Schannel (f : Framing Byte) (rounds : List Round) (calls : List ReceiveCall) : Prop where
  asks : ∀ round ∈ rounds, ∀ input, f.size input = none →
    (round.responses.initializeSecurityContext (some input)).ss = incompleteMessage
  decrypt : ∀ call ∈ calls, ∀ iobuf bytes decryptMessage, call.reading = .read iobuf bytes decryptMessage →
    ∀ input, f.size input = none → decryptMessage input = none

section Handshakes
variable {f : Framing Byte} {stale : Bool}

theorem passages_append (t t' : List HandshakeEvent) : passages (t ++ t') = passages t ++ passages t' :=
  List.filterMap_append

theorem passages_contextFree (context : Option HandshakeContext) : passages (contextFree stale context) = [] := by
  rcases contextFree_cases stale context with same | same <;> rw [same] <;> rfl

theorem passages_error (context : Option HandshakeContext) (err : Int) (events : List HandshakeEvent) :
    passages (handshakeError stale context err events).events = passages events := by
  rw [handshakeError,passages_append,passages_contextFree,List.append_nil]

theorem handshakePh3_passages (c : HandshakeContext) (r : Responses) (events : List HandshakeEvent) :
    passages (handshakePh3 stale c r events).events = passages events := by
  simp only [handshakePh3]
  split
  · split
    · rfl
    · rfl
    · exact passages_error _ _ _
  · split
    · split
      · exact passages_error _ _ _
      · have leaves (free : List HandshakeEvent) : passages (.setSelf :: free) = passages free := rfl
        rw [passages_append,leaves,passages_contextFree,List.append_nil]
    · rfl

theorem handshakePh2_passages (c : HandshakeContext) (r : Responses) (events : List HandshakeEvent) :
    passages (handshakePh2 stale c r events).events =
      passages events ++ passages [.initializeSecurityContext c.input] := by
  simp only [handshakePh2]
  split
  · rw [passages_error,passages_append]
  · split
    · have sends (token : List Byte) : passages [.send token] = [] := rfl
      rw [passages_append,passages_append,sends,List.append_nil]
    · rw [handshakePh3_passages,passages_append]

theorem handshakePh2_refused {c : HandshakeContext} {r : Responses} (events : List HandshakeEvent)
    (refused : (r.initializeSecurityContext c.input).ss < 0) :
    (handshakePh2 stale c r events).err = error ∧ (handshakePh2 stale c r events).aborts = false := by
  rw [handshakePh2,if_pos refused]
  exact ⟨rfl,rfl⟩

theorem handshakePh1_passages (c : HandshakeContext) (r : Responses) :
    passages (handshakePh1 stale c r).events = [] := by
  unfold handshakePh1
  split
  · exact passages_error _ _ _
  · exact handshakePh2_passages _ _ _

/-- An error of a phase is told to the parent. -/
theorem runNextPhase_passages (s : Handshake) (r : Responses) : ∃ told, (told = [] ∨ told = [.fail]) ∧
    passages (runNextPhase stale s 0 r).trace = passages s.trace ++
      passages (handshakeProcedure stale s.context s.nextPhase 0 r).events ++ told ∧
    ((handshakeProcedure stale s.context s.nextPhase 0 r).err ≠ 0 →
      (handshakeProcedure stale s.context s.nextPhase 0 r).aborts = false → told = [.fail]) := by
  generalize same : handshakeProcedure stale s.context s.nextPhase 0 r = ret
  have invokes (phase : Int) : passages [.invoke phase] = [] := rfl
  have quiet : passages [.notify 0] = [] := rfl
  simp only [runNextPhase,same,ne_eq,not_true_eq_false,if_false]
  split
  · next aborts =>
    refine ⟨[],Or.inl rfl,?_,fun _ ends => by rw [aborts] at ends; cases ends⟩
    rw [passages_append,passages_append,invokes,List.append_nil,List.append_nil]
  · split
    · next failed =>
      have tells : passages [.notify ret.err] = [.fail] := by simp [passages,HandshakeEvent.passage,failed]
      refine ⟨[.fail],Or.inr rfl,?_,fun _ _ => rfl⟩
      rw [runError_eq]
      simp only [passages_append,invokes,passages_contextFree,tells,List.append_nil]
    · next passed =>
      refine ⟨[],Or.inl rfl,?_,fun failed => absurd failed passed⟩
      split <;> simp only [passages_append,invokes,quiet,List.append_nil]

/-- What is shown of a piece that phase 4 finds in the buffer. -/
theorem input_eq (c : HandshakeContext) {read rest : List Byte} (buffer : c.secBufIn = some (read ++ rest))
    (length : c.transferedLength = read.length) :
    HandshakeContext.input {c with cbBuffer := c.transferedLength, cBuffers := 1} = some read := by
  simp [HandshakeContext.input,buffer,length]

/-- A round reads a piece and shows it to Schannel by itself, or does not read. -/
theorem next_piecewise {s : Handshake} {round : Round} (waiting : Waiting s)
    (asks : ∀ input, f.size input = none →
      (round.responses.initializeSecurityContext (some input)).ss = incompleteMessage)
    (piecewise : f.Piecewise (passages s.trace)) : f.Piecewise (passages (s.next stale round).trace) := by
  have ends {trace told : List (Passage Byte)} (piecewise : f.Piecewise trace) (end' : told = [] ∨ told = [.fail]) :
      f.Piecewise (trace ++ told) := by
    rcases end' with rfl | rfl
    · rwa [List.append_nil]
    · exact piecewise.fail
  have invokes (phase : Int) : passages [.invoke phase] = [] := rfl
  by_cases passed : round.err = 0
  · obtain ⟨c,context,buffer⟩ := waiting.context
    obtain ⟨told,end',same,told'⟩ := @runNextPhase_passages stale (s.completes round) round.responses
    rw [Handshake.next,if_pos waiting.running,passed,same]
    rw [(waiting.completes round).2] at same told' ⊢
    rcases waiting.phase with phase | phase | phase
    · have before : s.completes round =
          {s with context := some {c with baseSocket := true}, trace := s.trace ++ [HandshakeEvent.create]} := by
        simp [Handshake.completes,context,passed,phase]
      have quiet : passages (handshakeProcedure stale (some {c with baseSocket := true}) 1 0 round.responses).events =
          [] := handshakePh1_passages _ _
      have creates : passages [.create] = [] := rfl
      rw [before,phase,quiet,passages_append,creates,List.append_nil,List.append_nil]
      exact ends piecewise end'
    · have before : s.completes round = s := by simp [Handshake.completes,context,passed,phase]
      have quiet : passages (handshakeProcedure stale (some c) 3 0 round.responses).events = [] :=
        handshakePh3_passages _ _ _
      rw [before,phase,context,quiet,List.append_nil]
      exact ends piecewise end'
    · obtain ⟨heap,found⟩ := Option.ne_none_iff_exists'.mp (buffer phase)
      have before : s.completes round = {s with
          context := some {c with
            secBufIn := some (round.read ++ heap.drop round.read.length)
            transferedLength := round.read.length}
          trace := s.trace ++ [HandshakeEvent.received round.read]} := by
        simp [Handshake.completes,context,passed,phase,found]
      have reads : passages [.received round.read] = [.read round.read] := rfl
      rw [before,phase] at told'
      rw [before,phase,passages_append,reads]
      generalize loaded : {c with
        secBufIn := some (round.read ++ heap.drop round.read.length)
        transferedLength := round.read.length} = c' at told' ⊢
      have input := @input_eq c' round.read _ (by rw [← loaded]) (by rw [← loaded])
      have shows : passages (handshakeProcedure stale (some c') 4 0 round.responses).events =
          [.present round.read []] :=
        (handshakePh2_passages _ _ _).trans (by rw [input]; rfl)
      rw [shows,List.append_assoc (passages s.trace)]
      cases size : f.size round.read with
      | none =>
        have refused := asks _ size
        rw [← input] at refused
        have negative : (round.responses.initializeSecurityContext
            (HandshakeContext.input {c' with cbBuffer := c'.transferedLength, cBuffers := 1})).ss < 0 := by
          rw [refused]
          decide
        obtain ⟨fails,goes⟩ := handshakePh2_refused [] negative
        rw [told' (fun fine => error_ne (fails.symm.trans fine)) goes,List.append_assoc]
        exact piecewise.lose (by rwa [List.append_nil])
      | some n =>
        refine ends (piecewise.exchange ?_) end'
        rw [List.append_nil,size]
        exact Option.some_ne_none n
  · obtain ⟨c,-,same⟩ := next_failed stale waiting passed
    have tells : passages [.notify round.err] = [.fail] := by simp [passages,HandshakeEvent.passage,passed]
    rw [same]
    simp only [passages_append,invokes,passages_contextFree,tells,List.append_nil,List.nil_append]
    exact piecewise.fail

theorem handshake_piecewise (r : Responses) (rounds : List Round)
    (asks : ∀ round ∈ rounds, ∀ input, f.size input = none →
      (round.responses.initializeSecurityContext (some input)).ss = incompleteMessage) :
    f.Piecewise (passages (handshake stale r rounds).trace) := by
  have runs {s : Handshake} (waiting : Waiting s) (piecewise : f.Piecewise (passages s.trace)) :
      f.Piecewise (passages (rounds.foldl (Handshake.next stale) s).trace) := by
    induction rounds generalizing s with
    | nil => exact piecewise
    | cons round rounds ih =>
      have next := @next_piecewise _ stale _ _ waiting (asks round List.mem_cons_self) piecewise
      rw [List.foldl_cons]
      rcases next_going stale waiting round with again | stopped
      · exact ih (fun round member => asks round (List.mem_cons_of_mem _ member)) again next
      · rwa [next_stopped stopped]
  exact runs (handshakeStart_waiting stale r) .nil

/-- A handshake shows what it has read and nothing else. -/
theorem passages_bare (trace : List HandshakeEvent) : ∀ e ∈ passages trace, e.bare := by
  intro e member
  obtain ⟨event,-,shown⟩ := List.mem_filterMap.mp member
  cases event with
  | initializeSecurityContext input =>
    cases input with
    | none => cases shown
    | some input =>
      cases shown
      rfl
  | notify err =>
    simp only [HandshakeEvent.passage] at shown
    split at shown
    · cases shown
    · cases shown
      rfl
  | received bytes =>
    cases shown
    rfl
  | _ => cases shown

end Handshakes

section Receives
variable {f : Framing Byte}

/-- What is told of a read: nothing, unless it fails or is not decrypted. -/
theorem receivePh2_told {body : Body} {length err : Int} {message : Option Decrypted} {r : Received}
    (received : receivePh2 body length err message = some r) :
    r.actions.filterMap Action.passage = if err ≠ 0 ∨ message = none then [.fail] else [] := by
  unfold receivePh2 at received
  split at received
  · next failed =>
    cases received
    simp [List.filterMap_cons,Action.passage,failed]
  · next passed =>
    cases message with
    | none =>
      cases received
      rw [if_pos (Or.inr rfl)]
      rfl
    | some message =>
      simp only [bind,Option.bind_eq_some_iff] at received
      obtain ⟨copied,copy,same⟩ := received
      cases same
      simp [copyFromBuffer_actions copy,List.filterMap_cons,Action.passage,Decidable.not_not.mp passed]

theorem told_cases (err : Int) : [Action.notify err].filterMap Action.passage = [] ∨
    [Action.notify err].filterMap Action.passage = [.fail] := by
  by_cases passed : err = 0 <;> simp [Action.passage,passed]

theorem receive_quiet (actions : List Action) :
    (Action.freeReceivedBuffer :: actions).filterMap Action.passage = actions.filterMap Action.passage := rfl

/-- A receive that reads tells its caller of one error at most, and of the one of `DecryptMessage`. -/
theorem receive_told {body : Body} {length : Int} {reading : Reading} {r : Received}
    (drained : ¬ body.receivedPos < body.receivedLength)
    (received : Ssl.receive body length reading.setup = some r) :
    (r.actions.filterMap Action.passage = [] ∨ r.actions.filterMap Action.passage = [.fail]) ∧
      ∀ iobuf bytes decryptMessage, reading = .read iobuf bytes decryptMessage →
        decryptMessage (bytes ++ iobuf.drop bytes.length) = none → r.actions.filterMap Action.passage = [.fail] := by
  cases reading with
  | read iobuf bytes decryptMessage =>
    obtain ⟨inner,inside,rfl⟩ := receive_reads drained received
    rw [receive_quiet]
    have told := receivePh2_told inside
    rw [told]
    constructor
    · split
      · exact Or.inr rfl
      · exact Or.inl rfl
    · intro _ _ _ here missing
      cases here
      exact if_pos (Or.inr missing)
  | unread err =>
    obtain ⟨inner,inside,rfl⟩ := receive_reads drained received
    rw [receive_quiet]
    have told := receivePh2_told (by simpa only [receivePh1] using inside)
    rw [told,if_pos (Or.inr rfl)]
    exact ⟨Or.inr rfl,fun _ _ _ here => by cases here⟩
  | noStreamSizes =>
    obtain ⟨inner,inside,rfl⟩ := receive_reads drained received
    rw [receive_quiet]
    cases inside
    exact ⟨Or.inr rfl,fun _ _ _ here => by cases here⟩
  | noIobuf err | noAsync err =>
    obtain ⟨inner,inside,rfl⟩ := receive_reads drained received
    rw [receive_quiet]
    cases inside
    exact ⟨told_cases err,fun _ _ _ here => by cases here⟩
  | noContext err =>
    rw [Ssl.receive,if_neg drained] at received
    cases received
    exact ⟨told_cases err,fun _ _ _ here => by cases here⟩

def Filled (iobufs : List (List Byte × List Byte)) : Prop := ∀ pair ∈ iobufs, pair.1.length ≤ pair.2.length

structure Shown (f : Framing Byte) (s : Conversation) : Prop where
  piecewise : f.Piecewise s.trace
  bare : (∀ e ∈ s.trace, e.bare) ↔ Filled s.iobufs

theorem Shown.receive {s t : Conversation} {call : ReceiveCall} (shown : Shown f s)
    (asks : ∀ iobuf bytes decryptMessage, call.reading = .read iobuf bytes decryptMessage →
      ∀ input, f.size input = none → decryptMessage input = none) (received : s.receive call = some t) :
    Shown f t := by
  obtain ⟨piecewise,bare⟩ := shown
  have ends {trace told : List (Passage Byte)} (piecewise : f.Piecewise trace) (end' : told = [] ∨ told = [.fail]) :
      f.Piecewise (trace ++ told) := by
    rcases end' with rfl | rfl
    · rwa [List.append_nil]
    · exact piecewise.fail
  have quiet {told : List (Passage Byte)} (end' : told = [] ∨ told = [.fail]) : ∀ e ∈ told, e.bare := by
    rcases end' with rfl | rfl <;> simp [Passage.bare]
  unfold Conversation.receive at received
  split at received
  · cases received
    exact ⟨piecewise,bare⟩
  · next body found =>
    obtain ⟨r,inside,same⟩ := Option.bind_eq_some_iff.mp received
    split at same
    · next copies =>
      cases same
      rw [Ssl.receive,if_pos copies] at inside
      have told : r.actions.filterMap Action.passage = [] := by
        rw [copyFromBuffer_actions inside]
        rfl
      rw [told,List.append_nil]
      exact ⟨piecewise,bare⟩
    · next drained =>
      cases same
      obtain ⟨end',fails⟩ := receive_told drained inside
      cases reading : call.reading with
      | read iobuf bytes decryptMessage =>
        have reads : (Passage.read bytes).bare = true ↔ True := Iff.of_eq (eq_self true)
        have full : (Passage.present bytes (iobuf.drop bytes.length)).bare ↔ iobuf.length ≤ bytes.length := by
          rw [Passage.bare,List.isEmpty_iff,List.drop_eq_nil_iff]
        refine ⟨?_,?_⟩
        · cases size : f.size (bytes ++ iobuf.drop bytes.length) with
          | none =>
            rw [fails iobuf bytes decryptMessage reading (asks iobuf bytes decryptMessage reading _ size),
              Reading.passages,List.append_assoc]
            exact piecewise.lose size
          | some n =>
            refine ends (piecewise.exchange ?_) end'
            rw [size]
            exact Option.some_ne_none n
        · have told : ∀ e ∈ r.actions.filterMap Action.passage, e.bare := quiet end'
          simp only [Reading.passages,Reading.iobuf,Option.toList_some,Filled,List.mem_append,or_imp,forall_and,bare,
            List.mem_cons,List.not_mem_nil,or_false,forall_eq,and_iff_left told,reads,full,true_and]
      | _ =>
        simp only [Reading.passages,Reading.iobuf,Option.toList_none,List.append_nil]
        refine ⟨ends piecewise end',?_⟩
        simp only [List.mem_append,or_imp,forall_and,bare,and_iff_left (quiet end')]

theorem receives_shown {calls : List ReceiveCall} {s t : Conversation} (shown : Shown f s)
    (decrypt : ∀ call ∈ calls, ∀ iobuf bytes decryptMessage, call.reading = .read iobuf bytes decryptMessage →
      ∀ input, f.size input = none → decryptMessage input = none)
    (run : calls.foldlM Conversation.receive s = some t) : Shown f t := by
  induction calls generalizing s with
  | nil =>
    cases run
    exact shown
  | cons call calls ih =>
    rw [List.foldlM_cons] at run
    obtain ⟨middle,received,rest⟩ := Option.bind_eq_some_iff.mp run
    exact ih (shown.receive (decrypt call List.mem_cons_self) received)
      (fun call member => decrypt call (List.mem_cons_of_mem _ member)) rest

theorem conversation_shown {stale : Bool} {r : Responses} {rounds : List Round} {calls : List ReceiveCall}
    {s : Conversation} (schannel : Schannel f rounds calls) (run : conversation stale r rounds calls = some s) :
    Shown f s := by
  refine receives_shown ⟨handshake_piecewise r rounds schannel.asks,iff_of_true (passages_bare _) ?_⟩
    schannel.decrypt run
  exact fun pair member => absurd member List.not_mem_nil

/-- Schannel is shown the stream however it is cut if only whole messages are read, and to full buffers;
otherwise it is not. -/
theorem segmentation_hidden_iff {stale : Bool} {r : Responses} {rounds : List Round} {calls : List ReceiveCall}
    {s : Conversation} (schannel : Schannel f rounds calls) (run : conversation stale r rounds calls = some s) :
    (f.Seamless s.trace ↔ f.Segmented (pieces s.trace) ∧ Filled s.iobufs) ∧
      (f.Seamless s.trace → ∀ stream, (pieces s.trace).flatten <+: stream →
        f.messages (pieces s.trace) = f.firsts (f.messages (pieces s.trace)).length stream) := by
  obtain ⟨piecewise,bare⟩ := conversation_shown schannel run
  have same := piecewise.seamless_iff
  rw [bare] at same
  exact ⟨same,fun seamless stream cut => Framing.Segmented.firsts (same.mp seamless).1 cut⟩

end Receives

section Splitting

def pairs : Framing Byte where
  size items := if 2 ≤ items.length then some 2 else none
  bounds items n size := by
    split at size
    · next long =>
      cases size
      exact ⟨by decide,long⟩
    · cases size
  stable items more n size := by
    split at size
    · next long =>
      cases size
      rw [List.length_append,if_pos (Nat.le_add_right_of_le long)]
    · cases size

def pairwise : Responses where
  acquire := secOk
  initializeSecurityContext input :=
    match input with
    | none => ⟨continueNeeded,[]⟩
    | some input => if input.length < 2 then ⟨incompleteMessage,[]⟩ else ⟨secOk,[]⟩
  malloc := some [0,0]
  objectNew := 0

/-- A `DecryptMessage` whose plaintext is the message. -/
def unsealed (input : List Byte) : Option Decrypted := if input.length < 2 then none else some ⟨input,0,2⟩

theorem pairs_short {input : List Byte} (part : pairs.size input = none) : input.length < 2 := by
  by_contra long
  rw [pairs] at part
  simp only [if_pos (Nat.not_lt.mp long)] at part
  cases part

theorem pairwise_schannel {rounds : List Round} {calls : List ReceiveCall}
    (same : ∀ round ∈ rounds, round.responses = pairwise)
    (unseals : ∀ call ∈ calls, ∀ iobuf bytes decryptMessage, call.reading = .read iobuf bytes decryptMessage →
      decryptMessage = unsealed) : Schannel pairs rounds calls where
  asks round member input part := by
    rw [same round member]
    simp only [pairwise,if_pos (pairs_short part)]
  decrypt call member iobuf bytes decryptMessage reads input part := by
    rw [unseals call member iobuf bytes decryptMessage reads,unsealed,if_pos (pairs_short part)]

def greeted : List Round := [⟨0,[],pairwise⟩,⟨0,[1,2],pairwise⟩]

/-- A call that leaves a byte of its message, one that takes it, and one that reads again. -/
def readTwice : List ReceiveCall :=
  [⟨1,.read [0,0] [3,4] unsealed⟩,⟨2,.noStreamSizes⟩,⟨2,.read [0,0] [5,6] unsealed⟩]

theorem readTwice_schannel : Schannel pairs greeted readTwice := by
  refine pairwise_schannel (by simp [greeted]) ?_
  intro call member iobuf bytes decryptMessage reads
  simp only [readTwice,List.mem_cons,List.not_mem_nil,or_false] at member
  rcases member with rfl | rfl | rfl <;> cases reads <;> rfl

theorem segmentation_hidden_whole : ∃ s, conversation false pairwise greeted readTwice = some s ∧
    s.iobufs = [([0,0],[3,4]),([0,0],[5,6])] ∧
    ((pairs.Seamless s.trace ↔ pairs.Segmented (pieces s.trace) ∧ Filled s.iobufs) ∧
      (pairs.Seamless s.trace → ∀ stream, (pieces s.trace).flatten <+: stream →
        pairs.messages (pieces s.trace) = pairs.firsts (pairs.messages (pieces s.trace)).length stream)) :=
  ⟨_,rfl,rfl,segmentation_hidden_iff readTwice_schannel rfl⟩

/-- A message that is read in two pieces. -/
theorem message_split : Schannel pairs [⟨0,[],pairwise⟩,⟨0,[1],pairwise⟩,⟨0,[2],pairwise⟩] [] ∧
    ∃ s, conversation false pairwise [⟨0,[],pairwise⟩,⟨0,[1],pairwise⟩,⟨0,[2],pairwise⟩] [] = some s ∧
      ¬ pairs.Seamless s.trace := by
  refine ⟨pairwise_schannel (by simp) (by simp),_,rfl,?_⟩
  have trace : passages (handshake false pairwise
      [⟨0,[],pairwise⟩,⟨0,[1],pairwise⟩,⟨0,[2],pairwise⟩]).trace = [.read [1],.present [1] [],.fail] := by decide
  change ¬ pairs.Seamless (passages (handshake false pairwise _).trace)
  rw [trace]
  intro seamless
  exact seamless.kept [.read [1]] [1] [] [.fail] rfl rfl (by decide) rfl

end Splitting

end Xrossfire.Ssl
