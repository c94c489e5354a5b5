import Xrossfire.Ssl.Receive

/-! The send side of `ssl_socket.c`. A message goes out in chunks; each is copied
into the buffer that will be sent and encrypted there. -/
namespace Xrossfire.Ssl

def secOk : Int := 0

/-- The value of a `DWORD` expression, and of a `DWORD` cast to `int`. -/
def dword (n : Nat) : Nat := n % 2 ^ 32

def asInt (n : Nat) : Int := (n : Int).bmod (2 ^ 32)

/-- `SecPkgContext_StreamSizes`. What Schannel fills in are the sizes of a TLS record, whose length is an `int`. -/
structure StreamSizes where
  cbHeader : Nat
  cbMaximumMessage : Nat
  cbTrailer : Nat
  record : cbHeader + cbMaximumMessage + cbTrailer < 2 ^ 31

/-- The fields of `xf_ssl_send_context_t` that are read after they are left: what is still to be sent, and
the buffer. -/
structure SendContext where
  sendBuffer : List Byte
  sendLength : Int
  iobuf : List Byte

/-- What `EncryptMessage` returns, what it leaves in `iobuf` if it writes to it, and the sizes of its three
buffers then. -/
structure Encrypted where
  ss : Int
  iobuf : Option (List Byte)
  cbBuffer0 : Nat
  cbBuffer1 : Nat
  cbBuffer2 : Nat
deriving DecidableEq

/-- How the calls for one chunk come out: `EncryptMessage`, `xf_async_new`, and the error the child is
completed with, if it is. -/
structure Chunk where
  encrypted : Encrypted
  err : Int
  sent : Option Int
deriving DecidableEq

inductive SendEvent
  /-- `EncryptMessage` on the data, whether it succeeds, and the bytes it leaves to be sent. -/
  | encrypt (data : List Byte) (succeeds : Bool) (output : List Byte)
  /-- `xf_socket_send` on `base_socket`. -/
  | send (buffer : List Byte)
  | freeIobuf
  | freeContext
  /-- `xf_async_notify` on the caller's async. -/
  | notify (err : Int)
deriving DecidableEq

def fill (sizes : StreamSizes) (iobuf data : List Byte) : List Byte :=
  iobuf.take sizes.cbHeader ++ data ++ iobuf.drop (sizes.cbHeader + data.length)

def Encrypted.leaves (e : Encrypted) (iobuf : List Byte) : List Byte := e.iobuf.getD iobuf

def Encrypted.output (e : Encrypted) (iobuf : List Byte) : List Byte :=
  (e.leaves iobuf).take (dword (e.cbBuffer0 + e.cbBuffer1 + e.cbBuffer2))

/-- `xf_ssl_socket_send_ph1`; no context is left when it has freed it. The status of `EncryptMessage` is
not looked at. -/
def sendPh1 (sizes : StreamSizes) (context : SendContext) (chunk : Chunk) :
    Option (Option SendContext × List SendEvent) := do
  let length := context.sendLength
  let length := if length > asInt sizes.cbMaximumMessage then asInt sizes.cbMaximumMessage else length
  let data ← memcpy (some context.sendBuffer) 0 length
  let iobuf := fill sizes context.iobuf data
  let tried := SendEvent.encrypt data (chunk.encrypted.ss = secOk) (chunk.encrypted.output iobuf)
  if chunk.err ≠ 0 then return (none,[tried,.freeIobuf,.freeContext,.notify chunk.err])
  else
    return (some ⟨context.sendBuffer.drop length.toNat,context.sendLength - length,chunk.encrypted.leaves iobuf⟩,
      [tried,.send (chunk.encrypted.output iobuf)])

/-- `xf_ssl_socket_send_ph2`; `again` is what a further `xf_ssl_socket_send_ph1` does. -/
def sendPh2 (err : Int) (context : SendContext) (again : Option (List SendEvent)) : Option (List SendEvent) :=
  if err ≠ 0 then some [.freeIobuf,.freeContext,.notify err]
  else if context.sendLength > 0 then again
  else some [.freeIobuf,.freeContext,.notify 0]

def sendChunks (sizes : StreamSizes) (context : SendContext) : List Chunk → Option (List SendEvent)
  | [] => some []
  | chunk :: chunks => do
    let (left,events) ← sendPh1 sizes context chunk
    match left,chunk.sent with
    | some context,some err => return events ++ (← sendPh2 err context (sendChunks sizes context chunks))
    | _,_ => return events

/-- How the calls of `__xf_socket_send` come out; `iobuf` is what `malloc` finds in the buffer. -/
inductive SendSetup
  | noStreamSizes
  | noIobuf (err : Int)
  | noContext (err : Int)
  | started (iobuf : List Byte) (chunks : List Chunk)

/-- `__xf_socket_send`. -/
def send (sizes : StreamSizes) (buffer : List Byte) (length : Int) : SendSetup → Option (List SendEvent)
  | .noStreamSizes => some [.notify error]
  | .noIobuf err => some [.notify err]
  | .noContext err => some [.freeIobuf,.notify err]
  | .started iobuf chunks => sendChunks sizes ⟨buffer,length,iobuf⟩ chunks

theorem asInt_of_lt {n : Nat} (small : n < 2 ^ 31) : asInt n = n :=
  Int.bmod_eq_of_le_mul_two (by omega) (by omega)

theorem dword_of_lt {n : Nat} (small : n < 2 ^ 32) : dword n = n := Nat.mod_eq_of_lt small

namespace StreamSizes

/-- The sizes of a record are what the casts and the sum leave. -/
@[simp]
theorem asInt_maximum (sizes : StreamSizes) : asInt sizes.cbMaximumMessage = sizes.cbMaximumMessage := by
  have small := sizes.record
  exact asInt_of_lt (by omega)

end StreamSizes

/-! ## What reaches the wire -/

def SendEvent.sends : SendEvent → Bool
  | .send _ => true
  | _ => false

def SendEvent.notified : SendEvent → Option Int
  | .notify err => some err
  | _ => none

def chunkAt (limit : Nat) (message : List Byte) (k : Nat) : List Byte := (message.drop (limit * k)).take limit

/-- Every buffer sent is the output of the `EncryptMessage` before it, which succeeded on the chunk. -/
def Sealed (limit : Nat) (message : List Byte) (trace : List SendEvent) : Prop :=
  ∀ before buffer after, trace = before ++ .send buffer :: after → ∃ earlier,
    before = earlier ++ [.encrypt (chunkAt limit message (earlier.countP (·.sends))) true buffer]

/-- After an `EncryptMessage` that failed nothing is sent, and the caller is notified once, with an error. -/
def Halted (trace : List SendEvent) : Prop :=
  ∀ before data output after, trace = before ++ .encrypt data false output :: after →
    (∀ e ∈ after, e.sends = false) ∧ ∃ err ≠ 0, trace.filterMap SendEvent.notified = [err]

structure Protected (limit : Nat) (message : List Byte) (trace : List SendEvent) : Prop where
  sealed : Sealed limit message trace
  halted : Halted trace

/-- The send comes to its chunk `i`: all before are sent and the message goes on. -/
def Reaches (limit length : Nat) (chunks : List Chunk) (i : Nat) : Prop :=
  i = 0 ∨ limit * i < length ∧ ∀ j < i, ∀ chunk ∈ chunks[j]?, chunk.err = 0 ∧ chunk.sent = some 0

/-- On each chunk the send comes to `EncryptMessage` succeeds, or the `xf_async_new` after it fails. -/
def Encrypts (limit length : Nat) : SendSetup → Prop
  | .started _ chunks => ∀ i, ∀ chunk ∈ chunks[i]?, Reaches limit length chunks i →
    chunk.encrypted.ss = secOk ∨ chunk.err ≠ 0
  | _ => True

section Traces
variable {limit : Nat} {message : List Byte} {trace rest : List SendEvent}

theorem chunkAt_zero : chunkAt limit message 0 = message.take limit := by
  rw [chunkAt,Nat.mul_zero,List.drop_zero]

theorem chunkAt_succ (k : Nat) : chunkAt limit message (k + 1) = chunkAt limit (message.drop limit) k := by
  rw [chunkAt,chunkAt,List.drop_drop,Nat.mul_succ,Nat.add_comm]

/-- A trace that sends nothing. -/
theorem sealed_quiet (quiet : ∀ e ∈ trace, e.sends = false) : Sealed limit message trace := by
  rintro before buffer after rfl
  have sends := quiet (.send buffer) (List.mem_append_right _ List.mem_cons_self)
  cases sends

/-- A trace on which no encryption fails. -/
theorem halted_quiet (quiet : ∀ data output, .encrypt data false output ∉ trace) : Halted trace := by
  rintro before data output after rfl
  exact absurd (List.mem_append_right _ List.mem_cons_self) (quiet data output)

/-- One chunk is encrypted and sent, and the rest is that of a shorter message. -/
theorem protected_chunk {data output : List Byte} {succeeds : Bool} :
    Protected limit message ([SendEvent.encrypt data succeeds output,.send output] ++ rest) ↔
      (data = message.take limit ∧ succeeds = true) ∧ Protected limit (message.drop limit) rest := by
  constructor
  · intro protected'
    obtain ⟨sealed,halted⟩ := protected'
    refine ⟨?_,?_,?_⟩
    · obtain ⟨earlier,same⟩ := sealed [.encrypt data succeeds output] output rest rfl
      cases earlier with
      | nil =>
        rw [List.countP_nil,chunkAt_zero,List.nil_append,List.cons.injEq] at same
        cases same.1
        exact ⟨rfl,rfl⟩
      | cons e earlier =>
        have lengths := congrArg List.length same
        simp at lengths
    · intro before buffer after same
      obtain ⟨earlier,split⟩ := sealed ([SendEvent.encrypt data succeeds output,.send output] ++ before) buffer after
        (by rw [same,List.append_assoc])
      match earlier with
      | [] => cases before <;> cases split
      | [_] =>
        simp only [List.cons_append,List.nil_append,List.cons.injEq] at split
        cases split.2.1
      | _ :: e :: earlier =>
        simp only [List.cons_append,List.nil_append,List.cons.injEq] at split
        obtain ⟨rfl,rfl,rfl⟩ := split
        exact ⟨earlier,by simp [SendEvent.sends,chunkAt_succ]⟩
    · intro before data' output' after same
      obtain ⟨quiet,err,failed,once⟩ :=
        halted ([SendEvent.encrypt data succeeds output,.send output] ++ before) data' output' after
          (by rw [same,List.append_assoc])
      exact ⟨quiet,err,failed,once⟩
  · rintro ⟨⟨rfl,rfl⟩,sealed,halted⟩
    refine ⟨?_,?_⟩
    · intro before buffer after same
      match before with
      | [] => cases same
      | [_] =>
        simp only [List.cons_append,List.nil_append,List.cons.injEq] at same
        obtain ⟨rfl,same,-⟩ := same
        cases same
        exact ⟨[],by rw [List.countP_nil,chunkAt_zero,List.nil_append]⟩
      | _ :: _ :: before =>
        simp only [List.cons_append,List.nil_append,List.cons.injEq] at same
        obtain ⟨rfl,rfl,same⟩ := same
        obtain ⟨earlier,rfl⟩ := sealed before buffer after same
        exact ⟨.encrypt (message.take limit) true output :: .send output :: earlier,by
          simp [SendEvent.sends,chunkAt_succ]⟩
    · intro before data' output' after same
      match before with
      | [] => cases same
      | [_] => cases same
      | _ :: _ :: before =>
        simp only [List.cons_append,List.nil_append,List.cons.injEq] at same
        obtain ⟨rfl,rfl,same⟩ := same
        obtain ⟨quiet,err,failed,once⟩ := halted before data' output' after same
        exact ⟨quiet,err,failed,once⟩

end Traces

section Runs
variable {sizes : StreamSizes} {message iobuf : List Byte} {chunk : Chunk} {chunks : List Chunk}

/-- One run of `xf_ssl_socket_send_ph1`: the chunk is the head of what is left of the message. -/
theorem sendPh1_eq (sizes : StreamSizes) (chunk : Chunk) (message iobuf : List Byte) :
    sendPh1 sizes ⟨message,message.length,iobuf⟩ chunk =
      some (if chunk.err ≠ 0 then
        (none,[.encrypt (message.take sizes.cbMaximumMessage) (chunk.encrypted.ss = secOk)
          (chunk.encrypted.output (fill sizes iobuf (message.take sizes.cbMaximumMessage))),.freeIobuf,
          .freeContext,.notify chunk.err])
      else
        (some ⟨message.drop sizes.cbMaximumMessage,(message.drop sizes.cbMaximumMessage).length,
          chunk.encrypted.leaves (fill sizes iobuf (message.take sizes.cbMaximumMessage))⟩,
          [.encrypt (message.take sizes.cbMaximumMessage) (chunk.encrypted.ss = secOk)
            (chunk.encrypted.output (fill sizes iobuf (message.take sizes.cbMaximumMessage))),
            .send (chunk.encrypted.output (fill sizes iobuf (message.take sizes.cbMaximumMessage)))])) := by
  rcases Nat.lt_or_ge sizes.cbMaximumMessage message.length with long | short
  · have above : (message.length : Int) > sizes.cbMaximumMessage := by omega
    have fits : sizes.cbMaximumMessage ≤ message.length := Nat.le_of_lt long
    by_cases failed : chunk.err = 0 <;> simp [sendPh1,memcpy,above,fits,failed]
  · have below : ¬ (message.length : Int) > sizes.cbMaximumMessage := by omega
    have whole : message.take sizes.cbMaximumMessage = message := List.take_of_length_le short
    have none : message.drop sizes.cbMaximumMessage = [] := List.drop_of_length_le short
    by_cases failed : chunk.err = 0 <;> simp [sendPh1,memcpy,below,whole,none,failed]

theorem reaches_succ {limit length i : Nat} : Reaches limit length (chunk :: chunks) (i + 1) ↔
    (chunk.err = 0 ∧ chunk.sent = some 0 ∧ limit < length) ∧ Reaches limit (length - limit) chunks i := by
  constructor
  · rintro (none | ⟨more,before⟩)
    · cases none
    · obtain ⟨made,sent⟩ := before 0 (Nat.succ_pos i) chunk rfl
      rw [Nat.mul_succ] at more
      refine ⟨⟨made,sent,by omega⟩,Or.inr ⟨by omega,?_⟩⟩
      intro j below chunk' found
      exact before (j + 1) (Nat.succ_lt_succ below) chunk' found
  · rintro ⟨⟨made,sent,more⟩,reaches⟩
    refine Or.inr ⟨?_,?_⟩
    · rw [Nat.mul_succ]
      rcases reaches with rfl | ⟨further,-⟩
      · omega
      · omega
    · intro j below chunk' found
      cases j with
      | zero =>
        cases found
        exact ⟨made,sent⟩
      | succ j =>
        rcases reaches with rfl | ⟨-,before⟩
        · omega
        · exact before j (Nat.lt_of_succ_lt_succ below) chunk' found

/-- The condition on the first chunk, and on the others if it is sent and the message goes on. -/
theorem encrypts_cons {limit length : Nat} : Encrypts limit length (.started iobuf (chunk :: chunks)) ↔
    (chunk.encrypted.ss = secOk ∨ chunk.err ≠ 0) ∧ (chunk.err = 0 → chunk.sent = some 0 → limit < length →
      Encrypts limit (length - limit) (.started iobuf chunks)) := by
  constructor
  · intro encrypts
    refine ⟨encrypts 0 chunk rfl (Or.inl rfl),?_⟩
    intro made sent more i chunk' found reaches
    exact encrypts (i + 1) chunk' found (reaches_succ.mpr ⟨⟨made,sent,more⟩,reaches⟩)
  · rintro ⟨first,others⟩ i chunk' found reaches
    cases i with
    | zero =>
      cases found
      exact first
    | succ i =>
      obtain ⟨⟨made,sent,more⟩,reaches⟩ := reaches_succ.mp reaches
      exact others made sent more i chunk' found reaches

theorem protected_nil {limit : Nat} : Protected limit message [] :=
  ⟨sealed_quiet (fun e member => by cases member),halted_quiet (fun data output member => by cases member)⟩

/-- The end of a send after its last chunk. -/
theorem protected_end {limit : Nat} (err : Int) :
    Protected limit message [.freeIobuf,.freeContext,.notify err] := by
  refine ⟨sealed_quiet ?_,halted_quiet ?_⟩
  · intro e member
    simp only [List.mem_cons,List.not_mem_nil,or_false] at member
    rcases member with rfl | rfl | rfl <;> rfl
  · intro data output member
    simp at member

/-- A chunk whose child could not be made. -/
theorem protected_unsent {limit : Nat} {data output : List Byte} {succeeds : Bool} {err : Int} (failed : err ≠ 0) :
    Protected limit message [.encrypt data succeeds output,.freeIobuf,.freeContext,.notify err] := by
  refine ⟨sealed_quiet ?_,?_⟩
  · intro e member
    simp only [List.mem_cons,List.not_mem_nil,or_false] at member
    rcases member with rfl | rfl | rfl | rfl <;> rfl
  · intro before data' output' after same
    cases before with
    | nil =>
      cases same
      refine ⟨?_,err,failed,rfl⟩
      intro e member
      simp only [List.mem_cons,List.not_mem_nil,or_false] at member
      rcases member with rfl | rfl | rfl <;> rfl
    | cons _ before =>
      have member : SendEvent.encrypt data' false output' ∈ [SendEvent.freeIobuf,.freeContext,.notify err] := by
        rw [(List.cons.inj same).2]
        exact List.mem_append_right _ List.mem_cons_self
      simp at member

/-- The chunks of a message are protected exactly when each one reached is encrypted or not sent. -/
theorem sendChunks_iff (sizes : StreamSizes) (chunks : List Chunk) (message iobuf : List Byte) :
    (∃ trace, sendChunks sizes ⟨message,message.length,iobuf⟩ chunks = some trace) ∧
      ∀ trace, sendChunks sizes ⟨message,message.length,iobuf⟩ chunks = some trace →
        (Protected sizes.cbMaximumMessage message trace ↔
          Encrypts sizes.cbMaximumMessage message.length (.started iobuf chunks)) := by
  induction chunks generalizing message iobuf with
  | nil =>
    refine ⟨⟨[],rfl⟩,?_⟩
    rintro trace ⟨⟩
    exact iff_of_true protected_nil (fun i chunk found => by cases found)
  | cons chunk chunks ih =>
    rw [encrypts_cons]
    have first := sendPh1_eq sizes chunk message iobuf
    generalize chunk.encrypted.output _ = output at first
    generalize chunk.encrypted.leaves _ = iobuf' at first
    by_cases made : chunk.err = 0
    · -- the chunk is sent; what follows depends on how its child is completed
      rw [if_neg (not_not_intro made)] at first
      have follow (rest : List SendEvent) {follows : Prop}
          (run : sendChunks sizes ⟨message,message.length,iobuf⟩ (chunk :: chunks) = some
            ([SendEvent.encrypt (message.take sizes.cbMaximumMessage) (chunk.encrypted.ss = secOk) output,
              .send output] ++ rest))
          (same : Protected sizes.cbMaximumMessage (message.drop sizes.cbMaximumMessage) rest ↔ follows) :
          (∃ trace, sendChunks sizes ⟨message,message.length,iobuf⟩ (chunk :: chunks) = some trace) ∧
            ∀ trace, sendChunks sizes ⟨message,message.length,iobuf⟩ (chunk :: chunks) = some trace →
              (Protected sizes.cbMaximumMessage message trace ↔
                (chunk.encrypted.ss = secOk ∨ chunk.err ≠ 0) ∧ follows) := by
        refine ⟨⟨_,run⟩,?_⟩
        intro trace ran
        cases run.symm.trans ran
        rw [protected_chunk,same]
        simp [made]
      cases sent : chunk.sent with
      | none =>
        refine follow [] ?_ (iff_of_true protected_nil (fun _ done => by cases done))
        rw [sendChunks,first]
        simp [sent]
      | some err =>
        by_cases failed : err = 0
        · subst failed
          rcases Nat.lt_or_ge sizes.cbMaximumMessage message.length with more | last
          · obtain ⟨⟨rest,ran⟩,same⟩ := ih (message.drop sizes.cbMaximumMessage) iobuf'
            refine follow rest ?_ ?_
            · rw [sendChunks,first]
              simp only [List.length_drop] at ran
              simp [sent,sendPh2,more,ran]
            · rw [same rest ran,List.length_drop]
              exact ⟨fun encrypts _ _ _ => encrypts,fun encrypts => encrypts made rfl more⟩
          · refine follow [.freeIobuf,.freeContext,.notify 0] ?_ (iff_of_true (protected_end 0)
              (fun _ _ more => absurd more (Nat.not_lt.mpr last)))
            rw [sendChunks,first]
            simp [sent,sendPh2,last]
        · refine follow [.freeIobuf,.freeContext,.notify err] ?_ (iff_of_true (protected_end err)
            (fun _ done => absurd (Option.some.inj done) failed))
          rw [sendChunks,first]
          simp [sent,sendPh2,failed]
    · rw [if_pos made] at first
      have run : sendChunks sizes ⟨message,message.length,iobuf⟩ (chunk :: chunks) =
          some [.encrypt (message.take sizes.cbMaximumMessage) (chunk.encrypted.ss = secOk) output,.freeIobuf,
            .freeContext,.notify chunk.err] := by
        rw [sendChunks,first]
        rfl
      refine ⟨⟨_,run⟩,?_⟩
      intro trace ran
      cases run.symm.trans ran
      exact iff_of_true (protected_unsent made) ⟨Or.inr made,fun none => absurd none made⟩

/-- Plaintext stays off the wire exactly when every chunk the send comes to is encrypted or not sent. -/
theorem send_protected_iff (sizes : StreamSizes) (message : List Byte) (setup : SendSetup) :
    (∃ trace, send sizes message message.length setup = some trace ∧
      Protected sizes.cbMaximumMessage message trace) ↔ Encrypts sizes.cbMaximumMessage message.length setup := by
  cases setup with
  | noStreamSizes | noIobuf err | noContext err =>
    refine iff_of_true ⟨_,rfl,sealed_quiet ?_,halted_quiet (by simp)⟩ trivial
    simp [SendEvent.sends]
  | started iobuf chunks =>
    obtain ⟨⟨trace,run⟩,same⟩ := sendChunks_iff sizes chunks message iobuf
    constructor
    · rintro ⟨trace',run',protected'⟩
      exact (same trace' run').mp protected'
    · exact fun encrypts => ⟨trace,run,(same trace run).mpr encrypts⟩

/-- An `EncryptMessage` that leaves its buffers alone has the plaintext sent, between what was in the places
of the header and the trailer. -/
theorem sendPh1_plaintext {context : SendContext} {events : List SendEvent} (room : sizes.cbHeader ≤ iobuf.length)
    (untouched : chunk.encrypted.iobuf = none) (header : chunk.encrypted.cbBuffer0 = sizes.cbHeader)
    (whole : chunk.encrypted.cbBuffer1 = (message.take sizes.cbMaximumMessage).length)
    (small : chunk.encrypted.cbBuffer0 + chunk.encrypted.cbBuffer1 + chunk.encrypted.cbBuffer2 < 2 ^ 32)
    (run : sendPh1 sizes ⟨message,message.length,iobuf⟩ chunk = some (some context,events)) :
    ∃ trailer, .send (iobuf.take sizes.cbHeader ++ message.take sizes.cbMaximumMessage ++ trailer) ∈ events := by
  rw [sendPh1_eq] at run
  split at run
  · cases run
  · cases run
    have front : (iobuf.take sizes.cbHeader ++ message.take sizes.cbMaximumMessage).length =
        chunk.encrypted.cbBuffer0 + chunk.encrypted.cbBuffer1 := by
      rw [header,whole,List.length_append,List.length_take_of_le room]
    refine ⟨(iobuf.drop (sizes.cbHeader + (message.take sizes.cbMaximumMessage).length)).take
      chunk.encrypted.cbBuffer2,?_⟩
    rw [Encrypted.output,Encrypted.leaves,dword_of_lt small,untouched,Option.getD_none,fill,← front,
      List.take_length_add_append]
    exact List.mem_cons_of_mem _ List.mem_cons_self

end Runs

/-- A message of two bytes for which `EncryptMessage` fails and leaves its buffers alone. -/
def unencrypted : SendSetup := .started [0,0,0,0,0,0] [⟨⟨-2146893033,none,1,2,1⟩,0,none⟩]

theorem plaintext_sent : send ⟨1,4,1,by decide⟩ [72,105] 2 unencrypted =
      some [.encrypt [72,105] false [0,72,105,0],.send [0,72,105,0]] ∧
    ¬ ∃ trace, send ⟨1,4,1,by decide⟩ [72,105] 2 unencrypted = some trace ∧ Protected 4 [72,105] trace := by
  have run : send ⟨1,4,1,by decide⟩ [72,105] 2 unencrypted =
      some [.encrypt [72,105] false [0,72,105,0],.send [0,72,105,0]] := by decide
  refine ⟨run,?_⟩
  rintro ⟨trace,ran,sealed,-⟩
  cases run.symm.trans ran
  obtain ⟨earlier,same⟩ := sealed [.encrypt [72,105] false [0,72,105,0]] [0,72,105,0] [] rfl
  cases earlier with
  | nil => cases same
  | cons e earlier =>
    have lengths := congrArg List.length same
    simp at lengths

end Xrossfire.Ssl
