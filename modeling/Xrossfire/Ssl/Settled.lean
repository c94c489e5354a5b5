import Xrossfire.Ssl.Send

/-! The ends of the calls of `ssl_socket.c`: what they tell the caller's async, and
what becomes of the blocks they allocate. -/
namespace Xrossfire.Ssl

def Action.notified : Action → Option Int
  | .notify err => some err
  | _ => none

def Setup.allocated : Setup → Bool
  | .noStreamSizes | .noIobuf _ => false
  | .noAsync _ | .completed _ _ => true

def Setup.keeps : Setup → Bool
  | .completed err message => err = 0 ∧ message.isSome
  | _ => false

def receiveContexts (body : Body) : Except Int Setup → Nat
  | .ok _ => if body.receivedPos < body.receivedLength then 0 else 1
  | .error _ => 0

def receiveIobufs (body : Body) : Except Int Setup → Nat
  | .ok setup => if ¬ body.receivedPos < body.receivedLength ∧ setup.allocated ∧ !setup.keeps then 1 else 0
  | .error _ => 0

/-- The caller is told once, at the end, and each block is freed once by then. -/
def ReceivesOnce (body : Body) (length : Int) (setup : Except Int Setup) : Prop :=
  ∃ r before err, receive body length setup = some r ∧ r.actions = before ++ [.notify err] ∧
    before.filterMap Action.notified = [] ∧ before.count .freeContext = receiveContexts body setup ∧
    before.count .freeIobuf = receiveIobufs body setup

def Body.Held (body : Body) : Prop := body.receivedPos < body.receivedLength →
  ∃ bytes, body.receivedBuffer = some bytes ∧ 0 ≤ body.receivedPos ∧ body.receivedLength ≤ bytes.length

/-- The receive ends before there is an `iobuf`, or after a read that brought no plaintext. -/
def Setup.unread : Setup → Prop
  | .noStreamSizes | .noIobuf _ => True
  | .noAsync _ => False
  | .completed err message => err ≠ 0 ∨ message = none

/-- When a receive ends as it should: there is leftover plaintext, or it comes by none. -/
def ReceiveEnds (body : Body) (length : Int) (setup : Except Int Setup) : Prop :=
  if body.receivedPos < body.receivedLength then 0 ≤ length else ∀ s, setup = .ok s → s.unread

def sendContexts : SendSetup → Nat
  | .started _ _ => 1
  | _ => 0

def sendIobufs : SendSetup → Nat
  | .noContext _ | .started _ _ => 1
  | _ => 0

def SendsOnce (sizes : StreamSizes) (buffer : List Byte) (length : Int) (setup : SendSetup) : Prop :=
  ∃ trace before err, send sizes buffer length setup = some trace ∧ trace = before ++ [.notify err] ∧
    before.filterMap SendEvent.notified = [] ∧ before.count .freeContext = sendContexts setup ∧
    before.count .freeIobuf = sendIobufs setup

/-- The send is over: the outcome of each chunk it comes to is there, its completion included. -/
def SendComplete (limit length : Nat) : SendSetup → Prop
  | .started _ chunks => ∀ i, Reaches limit length chunks i → ∃ chunk ∈ chunks[i]?, chunk.err = 0 → chunk.sent ≠ none
  | _ => True

section Receives
variable {body : Body} {length : Int}

theorem copyFromBuffer_held (held : body.Held) (leftover : body.receivedPos < body.receivedLength)
    (asked : 0 ≤ length) : ∃ r, copyFromBuffer body length = some r ∧ r.actions = [.notify 0] := by
  obtain ⟨bytes,buffer,start,inside⟩ := held leftover
  unfold copyFromBuffer
  generalize count : (if length < body.receivedLength - body.receivedPos then length
    else body.receivedLength - body.receivedPos) = copyLen
  have bounds : 0 ≤ copyLen ∧ body.receivedPos + copyLen ≤ bytes.length := by
    rw [← count]
    split <;> omega
  have copied : memcpy body.receivedBuffer body.receivedPos copyLen =
      some ((bytes.drop body.receivedPos.toNat).take copyLen.toNat) := by
    simp [memcpy,buffer,start,bounds]
  simp only [count,copied]
  exact ⟨_,rfl,rfl⟩

/-- A negative count is no count. -/
theorem copyFromBuffer_negative (leftover : body.receivedPos < body.receivedLength) (negative : length < 0) :
    copyFromBuffer body length = none := by
  have less : length < body.receivedLength - body.receivedPos := by omega
  have undefined : memcpy body.receivedBuffer body.receivedPos length = none := by
    unfold memcpy
    cases body.receivedBuffer with
    | none => rfl
    | some bytes => exact if_neg (fun inside => by omega)
  simp only [copyFromBuffer,if_pos less,undefined]
  rfl

theorem receive_ph1 {setup : Setup} {inner : Received} (drained : ¬ body.receivedPos < body.receivedLength)
    (run : receivePh1 {body with receivedBuffer := none} length setup = some inner) :
    receive body length (.ok setup) = some {inner with actions := .freeReceivedBuffer :: inner.actions} := by
  rw [receive,if_neg drained]
  simp only [run]
  rfl

theorem receive_leftover (held : body.Held) (leftover : body.receivedPos < body.receivedLength)
    (setup : Except Int Setup) : ReceivesOnce body length setup ↔ 0 ≤ length := by
  have quiet : receiveContexts body setup = 0 ∧ receiveIobufs body setup = 0 := by
    cases setup <;> simp [receiveContexts,receiveIobufs,leftover]
  constructor
  · rintro ⟨r,before,err,run,-⟩
    by_contra negative
    rw [receive,if_pos leftover,copyFromBuffer_negative leftover (Int.not_le.mp negative)] at run
    cases run
  · intro asked
    obtain ⟨r,copied,told⟩ := copyFromBuffer_held held leftover asked
    exact ⟨r,[],0,by rw [receive,if_pos leftover,copied],told,rfl,quiet.1.symm,quiet.2.symm⟩

/-- A notification that is not the last. -/
theorem not_once {actions before : List Action} {err err' : Int} (first : .notify err' ∈ actions)
    (same : actions ++ [Action.freeContext,.notify 0] = before ++ [Action.notify err])
    (quiet : before.filterMap Action.notified = []) : False := by
  have split : actions ++ [Action.freeContext,.notify 0] = (actions ++ [Action.freeContext]) ++ [Action.notify 0] := by
    simp
  rw [split] at same
  obtain ⟨rfl,-⟩ := List.append_inj' same rfl
  have member : err' ∈ (actions ++ [Action.freeContext]).filterMap Action.notified :=
    List.mem_filterMap.mpr ⟨_,List.mem_append_left _ first,rfl⟩
  rw [quiet] at member
  cases member

/-- A receive that reads ends as it should unless it comes by plaintext or loses its `iobuf`. -/
theorem receive_drained_iff (drained : ¬ body.receivedPos < body.receivedLength) (setup : Setup) :
    ReceivesOnce body length (.ok setup) ↔ setup.unread := by
  have one : receiveContexts body (.ok setup) = 1 := by rw [receiveContexts,if_neg drained]
  rw [ReceivesOnce,one,receiveIobufs]
  cases setup with
  | noStreamSizes =>
    exact iff_of_true ⟨_,[.freeReceivedBuffer,.freeContext],error,receive_ph1 drained rfl,rfl,rfl,rfl,
      by simp [Setup.allocated]⟩ trivial
  | noIobuf err =>
    exact iff_of_true ⟨_,[.freeReceivedBuffer,.freeContext],err,receive_ph1 drained rfl,rfl,rfl,rfl,
      by simp [Setup.allocated]⟩ trivial
  | noAsync err =>
    refine iff_of_false ?_ id
    rintro ⟨r,before,err',run,same,-,-,freed⟩
    obtain ⟨inner,inside,rfl⟩ := receive_reads drained run
    cases inside
    have split : [Action.freeReceivedBuffer,.freeContext] ++ [Action.notify err] = before ++ [Action.notify err'] :=
      same
    obtain ⟨rfl,-⟩ := List.append_inj' split rfl
    simp [drained,Setup.allocated,Setup.keeps] at freed
  | completed err message =>
    by_cases failed : err = 0
    · subst failed
      cases message with
      | none =>
        exact iff_of_true ⟨_,[.freeReceivedBuffer,.freeIobuf,.freeContext],error,receive_ph1 drained rfl,rfl,rfl,rfl,
          by simp [drained,Setup.allocated,Setup.keeps]⟩ (Or.inr rfl)
      | some message =>
        refine iff_of_false ?_ (by simp [Setup.unread])
        rintro ⟨r,before,err',run,same,quiet,-⟩
        obtain ⟨inner,inside,rfl⟩ := receive_reads drained run
        obtain ⟨copy,copied,same'⟩ := Option.bind_eq_some_iff.mp inside
        cases same'
        simp only [copyFromBuffer_actions copied] at same
        exact @not_once [.freeReceivedBuffer,.notify 0] before err' 0 (by simp) same quiet
    · have run : receivePh1 {body with receivedBuffer := none} length (.completed err message) =
          some ⟨{body with receivedBuffer := none},[],none,[.freeIobuf,.freeContext,.notify err]⟩ := if_pos failed
      exact iff_of_true ⟨_,[.freeReceivedBuffer,.freeIobuf,.freeContext],err,receive_ph1 drained run,rfl,rfl,rfl,
        by simp [drained,Setup.allocated,Setup.keeps,failed]⟩ (Or.inl failed)

theorem receivesOnce_iff (held : body.Held) (setup : Except Int Setup) :
    ReceivesOnce body length setup ↔ ReceiveEnds body length setup := by
  unfold ReceiveEnds
  split
  · next leftover => exact receive_leftover held leftover setup
  · next drained =>
    cases setup with
    | error err =>
      have run : receive body length (.error err) =
          some ⟨{body with receivedBuffer := none},[],none,[.freeReceivedBuffer,.notify err]⟩ := if_neg drained
      exact iff_of_true ⟨_,[.freeReceivedBuffer],err,run,rfl,rfl,rfl,rfl⟩ (fun s same => by cases same)
    | ok setup =>
      rw [receive_drained_iff drained setup]
      exact ⟨fun unread s same => by cases same; exact unread,fun all => all setup rfl⟩

end Receives

section Sends
variable {sizes : StreamSizes} {chunk : Chunk} {chunks : List Chunk}

theorem complete_cons {limit length : Nat} {iobuf : List Byte}
    (complete : SendComplete limit length (.started iobuf (chunk :: chunks))) (made : chunk.err = 0)
    (sent : chunk.sent = some 0) (more : limit < length) :
    SendComplete limit (length - limit) (.started iobuf chunks) := by
  intro i reaches
  exact complete (i + 1) (reaches_succ.mpr ⟨⟨made,sent,more⟩,reaches⟩)

/-- The chunks of a send end with its context and buffer freed and the caller told. -/
theorem sendChunks_ends (sizes : StreamSizes) (chunks : List Chunk) (message iobuf : List Byte)
    (complete : SendComplete sizes.cbMaximumMessage message.length (.started iobuf chunks)) :
    ∃ before err, sendChunks sizes ⟨message,message.length,iobuf⟩ chunks =
        some (before ++ [SendEvent.freeIobuf,.freeContext,.notify err]) ∧
      before.filterMap SendEvent.notified = [] ∧ before.count .freeContext = 0 ∧ before.count .freeIobuf = 0 := by
  induction chunks generalizing message iobuf with
  | nil =>
    obtain ⟨chunk,found,-⟩ := complete 0 (Or.inl rfl)
    cases found
  | cons chunk chunks ih =>
    obtain ⟨_,found,completes⟩ := complete 0 (Or.inl rfl)
    cases found
    have first := sendPh1_eq sizes chunk message iobuf
    generalize chunk.encrypted.output _ = output at first
    generalize chunk.encrypted.leaves _ = iobuf' at first
    by_cases made : chunk.err = 0
    · rw [if_neg (not_not_intro made)] at first
      obtain ⟨err,sent⟩ := Option.ne_none_iff_exists'.mp (completes made)
      by_cases goes : err = 0 ∧ sizes.cbMaximumMessage < message.length
      · obtain ⟨rfl,more⟩ := goes
        have rest : SendComplete sizes.cbMaximumMessage (message.drop sizes.cbMaximumMessage).length
            (.started iobuf' chunks) := by
          rw [List.length_drop]
          exact complete_cons complete made sent more
        obtain ⟨before,err,run,quiet,contexts,iobufs⟩ := ih (message.drop sizes.cbMaximumMessage) iobuf' rest
        refine ⟨[SendEvent.encrypt (message.take sizes.cbMaximumMessage) (chunk.encrypted.ss = secOk) output,
          .send output] ++ before,err,?_,?_,?_,?_⟩
        · rw [sendChunks,first]
          simp only [List.length_drop] at run
          simp [sent,sendPh2,more,run]
        · simpa [List.filterMap_cons,SendEvent.notified] using quiet
        · simpa [List.count_cons] using contexts
        · simpa [List.count_cons] using iobufs
      · refine ⟨[.encrypt (message.take sizes.cbMaximumMessage) (chunk.encrypted.ss = secOk) output,.send output],
          err,?_,rfl,rfl,rfl⟩
        rw [sendChunks,first]
        by_cases failed : err = 0
        · have last : message.length ≤ sizes.cbMaximumMessage := Nat.not_lt.mp (fun more => goes ⟨failed,more⟩)
          simp [sent,sendPh2,failed,last]
        · simp [sent,sendPh2,failed]
    · rw [if_pos made] at first
      refine ⟨[.encrypt (message.take sizes.cbMaximumMessage) (chunk.encrypted.ss = secOk) output],chunk.err,?_,
        rfl,rfl,rfl⟩
      rw [sendChunks,first]
      rfl

/-- A send with a length below zero copies nothing that is there. -/
theorem sendChunks_negative (iobuf : List Byte) (chunk : Chunk) (chunks : List Chunk) {buffer : List Byte}
    {length : Int} (negative : length < 0) : sendChunks sizes ⟨buffer,length,iobuf⟩ (chunk :: chunks) = none := by
  have small : ¬ length > asInt sizes.cbMaximumMessage := by
    rw [sizes.asInt_maximum]
    omega
  have undefined : memcpy (some buffer) 0 length = none := if_neg (fun inside => by omega)
  have first : sendPh1 sizes ⟨buffer,length,iobuf⟩ chunk = none := by
    simp only [sendPh1,if_neg small,undefined]
    rfl
  rw [sendChunks,first]
  rfl

theorem sendsOnce_iff {buffer : List Byte} {length : Int} {setup : SendSetup} (whole : buffer.length = length.toNat)
    (complete : SendComplete sizes.cbMaximumMessage buffer.length setup) :
    SendsOnce sizes buffer length setup ↔ (0 < sendContexts setup → 0 ≤ length) := by
  cases setup with
  | noStreamSizes => exact iff_of_true ⟨_,[],error,rfl,rfl,rfl,rfl,rfl⟩ (fun none => by cases none)
  | noIobuf err => exact iff_of_true ⟨_,[],err,rfl,rfl,rfl,rfl,rfl⟩ (fun none => by cases none)
  | noContext err => exact iff_of_true ⟨_,[.freeIobuf],err,rfl,rfl,rfl,rfl,rfl⟩ (fun none => by cases none)
  | started iobuf chunks =>
    by_cases negative : length < 0
    · refine iff_of_false ?_ (fun asked => by have := asked Nat.one_pos; omega)
      rintro ⟨trace,before,err,run,-⟩
      obtain ⟨chunk,found,-⟩ := complete 0 (Or.inl rfl)
      cases chunks with
      | nil => cases found
      | cons first chunks =>
        rw [send,sendChunks_negative iobuf first chunks negative] at run
        cases run
    · have same : length = buffer.length := by omega
      subst same
      obtain ⟨before,err,run,quiet,contexts,iobufs⟩ := sendChunks_ends sizes chunks buffer iobuf complete
      refine iff_of_true ⟨_,before ++ [SendEvent.freeIobuf,.freeContext],err,run,by simp,?_,?_,?_⟩
        (fun _ => Int.natCast_nonneg _)
      · simp [quiet,SendEvent.notified]
      · simp [contexts,sendContexts]
      · simp [iobufs,sendIobufs]

end Sends

/-- Which calls tell their caller once and free what they allocate: sends of a length that is one, and receives
that have plaintext left or come by none. -/
theorem exchanges_settled_iff (body : Body) (length : Int) (setup : Except Int Setup) (sizes : StreamSizes)
    (buffer : List Byte) (sent : Int) (sendSetup : SendSetup) :
    (body.Held → (ReceivesOnce body length setup ↔ ReceiveEnds body length setup)) ∧
      (buffer.length = sent.toNat → SendComplete sizes.cbMaximumMessage buffer.length sendSetup →
        (SendsOnce sizes buffer sent sendSetup ↔ (0 < sendContexts sendSetup → 0 ≤ sent))) :=
  ⟨fun held => receivesOnce_iff held setup,fun whole complete => sendsOnce_iff whole complete⟩

def twoRecords : SendSetup := .started [0,0,0,0]
  [⟨⟨secOk,some [9,1,2,9],1,2,1⟩,0,some 0⟩,⟨⟨secOk,some [9,3,9],1,1,1⟩,0,some 0⟩]

theorem exchanges_settled_leftover : ReceivesOnce ⟨some [7,8],1,2⟩ 1 (.ok .noStreamSizes) ∧
    SendsOnce ⟨1,2,1,by decide⟩ [1,2,3] 3 twoRecords := by
  have held : Body.Held ⟨some [7,8],1,2⟩ := fun _ => ⟨[7,8],rfl,by decide,by decide⟩
  have complete : SendComplete 2 3 twoRecords := by
    intro i reaches
    match i with
    | 0 => exact ⟨_,rfl,fun _ unsent => by cases unsent⟩
    | 1 => exact ⟨_,rfl,fun _ unsent => by cases unsent⟩
    | i + 2 =>
      rcases reaches with first | ⟨inside,-⟩
      · omega
      · omega
  have ends := exchanges_settled_iff ⟨some [7,8],1,2⟩ 1 (.ok .noStreamSizes) ⟨1,2,1,by decide⟩ [1,2,3] 3 twoRecords
  exact ⟨(ends.1 held).mpr Int.one_nonneg,(ends.2 rfl complete).mpr (fun _ => by decide)⟩

/-- A read that is decrypted: the copy tells the caller, and so does the end of the receive. -/
theorem told_twice : receive ⟨none,0,0⟩ 1 (.ok (.completed 0 (some ⟨[7],0,1⟩))) =
      some ⟨⟨some [7],1,1⟩,[7],some 1,[.freeReceivedBuffer,.notify 0,.freeContext,.notify 0]⟩ ∧
    ¬ ReceivesOnce ⟨none,0,0⟩ 1 (.ok (.completed 0 (some ⟨[7],0,1⟩))) := by
  refine ⟨rfl,?_⟩
  rintro ⟨r,before,err,run,same,quiet,-⟩
  cases run
  have split : [Action.freeReceivedBuffer,.notify 0,.freeContext] ++ [Action.notify 0] =
      before ++ [Action.notify err] := same
  obtain ⟨rfl,-⟩ := List.append_inj' split rfl
  cases quiet

end Xrossfire.Ssl
