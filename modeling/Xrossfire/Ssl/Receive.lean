import Mathlib

/-! The receive side of `ssl_socket.c`, with its error paths.
`DecryptMessage` leaves the plaintext behind the record's header; the code
keeps the buffer with a position and a length for the calls that follow. -/
namespace Xrossfire.Ssl

abbrev Byte := UInt8

/-- `XF_ERROR`. -/
def error : Int := 1

/-- The receive fields of `xf_ssl_socket_data_t`; `none` is the NULL buffer. -/
structure Body where
  receivedBuffer : Option (List Byte)
  receivedPos : Int
  receivedLength : Int

/-- What a call does to its heap blocks and to the caller's async. -/
inductive Action
  | freeReceivedBuffer
  | freeContext
  | freeIobuf
  | notify (err : Int)
deriving DecidableEq

/-- The source operand of `memcpy`; a NULL source, a negative count or a count past the end is
undefined. -/
def memcpy (source : Option (List Byte)) (pos count : Int) : Option (List Byte) := do
  let bytes ← source
  if 0 ≤ pos ∧ 0 ≤ count ∧ pos + count ≤ bytes.length then
    return (bytes.drop pos.toNat).take count.toNat
  else none

structure Received where
  body : Body
  chunk : List Byte
  receiveLength : Option Int
  actions : List Action

def copyFromBuffer (body : Body) (length : Int) : Option Received := do
  let copyLen := body.receivedLength - body.receivedPos
  let copyLen := if length < copyLen then length else copyLen
  let chunk ← memcpy body.receivedBuffer body.receivedPos copyLen
  return ⟨{body with receivedPos := body.receivedPos + copyLen},chunk,some copyLen,[.notify 0]⟩

/-- `DecryptMessage` in place: the decrypted `iobuf` and the first two buffer sizes it reports. -/
structure Decrypted where
  iobuf : List Byte
  cbBuffer0 : Int
  cbBuffer1 : Int

/-- The completion of the read of `base_socket`; `none` is a failed `DecryptMessage`. -/
def receivePh2 (body : Body) (length err : Int) (message : Option Decrypted) : Option Received :=
  if err ≠ 0 then some ⟨body,[],none,[.freeIobuf,.freeContext,.notify err]⟩
  else
    match message with
    | none => some ⟨body,[],none,[.freeIobuf,.freeContext,.notify error]⟩
    | some message => do
      let body :=
        {body with
          receivedBuffer := some message.iobuf
          receivedPos := message.cbBuffer0
          receivedLength := message.cbBuffer1}
      let r ← copyFromBuffer body length
      return {r with actions := r.actions ++ [.freeContext,.notify 0]}

/-- How the calls of `xf_ssl_socket_receive_ph1` come out, the completion of its read included. -/
inductive Setup
  | noStreamSizes
  | noIobuf (err : Int)
  | noAsync (err : Int)
  | completed (err : Int) (message : Option Decrypted)

/-- `xf_ssl_socket_receive_ph1`, up to and with the completion it leads to. -/
def receivePh1 (body : Body) (length : Int) : Setup → Option Received
  | .noStreamSizes => some ⟨body,[],none,[.freeContext,.notify error]⟩
  | .noIobuf err => some ⟨body,[],none,[.freeContext,.notify err]⟩
  | .noAsync err => some ⟨body,[],none,[.freeContext,.notify err]⟩
  | .completed err message => receivePh2 body length err message

/-- `__xf_socket_receive`; `setup` is the failed allocation of the context, or what follows it. -/
def receive (body : Body) (length : Int) (setup : Except Int Setup) : Option Received :=
  if body.receivedPos < body.receivedLength then copyFromBuffer body length
  else do
    let body := {body with receivedBuffer := none}
    let r ←
      match setup with
      | .error err => some ⟨body,[],none,[.notify err]⟩
      | .ok setup => receivePh1 body length setup
    return {r with actions := .freeReceivedBuffer :: r.actions}

theorem copyFromBuffer_actions {body : Body} {length : Int} {r : Received}
    (copied : copyFromBuffer body length = some r) : r.actions = [.notify 0] := by
  obtain ⟨chunk,-,same⟩ := Option.bind_eq_some_iff.mp copied
  cases same
  rfl

/-- A receive without plaintext left does what its first phase does. -/
theorem receive_reads {body : Body} {length : Int} {setup : Setup} {r : Received}
    (drained : ¬ body.receivedPos < body.receivedLength) (run : receive body length (.ok setup) = some r) :
    ∃ inner, receivePh1 {body with receivedBuffer := none} length setup = some inner ∧
      r = {inner with actions := .freeReceivedBuffer :: inner.actions} := by
  rw [receive,if_neg drained] at run
  obtain ⟨inner,inside,same⟩ := Option.bind_eq_some_iff.mp run
  exact ⟨inner,inside,(Option.some.inj same).symm⟩

/-! ## A stream of records -/

structure Record where
  header : List Byte
  plaintext : List Byte
  trailer : List Byte
  nonempty : plaintext ≠ []

def Record.decrypted (r : Record) : Decrypted :=
  ⟨r.header ++ r.plaintext ++ r.trailer,r.header.length,r.plaintext.length⟩

structure Call where
  length : Int
  receiveLength : Int
  chunk : List Byte
  before : List Byte
  /-- The record this call read, if it read one. -/
  read : Option Nat

structure Session where
  body : Body
  /-- Records read so far. -/
  next : Nat
  delivered : List Byte
  calls : List Call

def Session.start : Session := ⟨⟨none,0,0⟩,0,[],[]⟩

def Session.receive (records : Nat → Record) (s : Session) (length : Int) : Option Session := do
  let r ← Ssl.receive s.body length (.ok (.completed 0 (some (records s.next).decrypted)))
  let receiveLength ← r.receiveLength
  let read := if s.body.receivedPos < s.body.receivedLength then none else some s.next
  return ⟨r.body,if read.isSome then s.next + 1 else s.next,s.delivered ++ r.chunk,
    s.calls ++ [⟨length,receiveLength,r.chunk,s.delivered,read⟩]⟩

def Session.run (records : Nat → Record) (s : Session) (lengths : List Int) : Option Session :=
  lengths.foldlM (fun s length => s.receive records length) s

def plaintexts (records : Nat → Record) (n : Nat) : List Byte :=
  ((List.range n).map (fun i => (records i).plaintext)).flatten

/-- The calls deliver the stream: in order and without loss or repetition, at least one byte and
no more than asked for at a time, each record to its end before the next is read. -/
structure Delivers (records : Nat → Record) (s : Session) : Prop where
  stream : s.delivered <+: plaintexts records s.next
  chunks : (s.calls.map Call.chunk).flatten = s.delivered
  lengths : ∀ call ∈ s.calls, 1 ≤ call.receiveLength ∧ call.receiveLength ≤ call.length ∧
    (call.chunk.length : Int) = call.receiveLength
  whole : ∀ call ∈ s.calls, ∀ n, call.read = some n → call.before = plaintexts records n

def StreamDelivered (records : Nat → Record) : Prop :=
  ∀ lengths : List Int, (∀ length ∈ lengths, 0 < length) →
    ∃ s, Session.start.run records lengths = some s ∧ Delivers records s

variable {records : Nat → Record}

theorem plaintexts_succ (n : Nat) :
    plaintexts records (n + 1) = plaintexts records n ++ (records n).plaintext := by
  simp [plaintexts,List.range_succ]

theorem run_append (s : Session) (xs ys : List Int) :
    s.run records (xs ++ ys) = (s.run records xs).bind (fun t => t.run records ys) := by
  simp only [Session.run,List.foldlM_append]
  rfl

theorem memcpy_some (bytes : List Byte) (pos count : Nat) (fits : pos + count ≤ bytes.length) :
    memcpy (some bytes) pos count = some ((bytes.drop pos).take count) := by
  have inside : 0 ≤ (pos : Int) ∧ 0 ≤ (count : Int) ∧ (pos : Int) + count ≤ bytes.length := by omega
  simp only [memcpy,Option.bind_eq_bind,Option.bind_some,if_pos inside,Int.toNat_natCast]
  rfl

structure Holding (records : Nat → Record) (i k : Nat) (s : Session) : Prop where
  next : s.next = i + 1
  body : s.body = ⟨some (records i).decrypted.iobuf,k,(records i).plaintext.length⟩
  bound : k ≤ (records i).plaintext.length
  delivered : s.delivered = plaintexts records i ++ (records i).plaintext.take k

structure Drained (records : Nat → Record) (n : Nat) (s : Session) : Prop where
  next : s.next = n
  empty : ¬s.body.receivedPos < s.body.receivedLength
  delivered : s.delivered = plaintexts records n

theorem start_drained : Drained records 0 Session.start := ⟨rfl,by decide,rfl⟩

theorem Holding.drained {i : Nat} {s : Session}
    (holding : Holding records i (records i).plaintext.length s) : Drained records (i + 1) s where
  next := holding.next
  empty := by
    rw [holding.body]
    exact Int.lt_irrefl _
  delivered := by rw [holding.delivered,plaintexts_succ,List.take_length]

/-- With an empty header the copy takes the next bytes of the plaintext. -/
theorem copyFromBuffer_spec (r : Record) (bare : r.header = []) (k : Nat)
    (left : k < r.plaintext.length) (length : Int) (positive : 0 < length) :
    ∃ c : Nat, 1 ≤ c ∧ (c : Int) ≤ length ∧ k + c ≤ r.plaintext.length ∧
      (length = r.plaintext.length - k → k + c = r.plaintext.length) ∧
      copyFromBuffer ⟨some r.decrypted.iobuf,k,r.plaintext.length⟩ length =
        some ⟨⟨some r.decrypted.iobuf,(k + c : Nat),r.plaintext.length⟩,(r.plaintext.drop k).take c,
          some (c : Int),[.notify 0]⟩ := by
  let c := min length.toNat (r.plaintext.length - k)
  have count : (if length < (r.plaintext.length : Int) - k then length
      else (r.plaintext.length : Int) - k) = (c : Int) := by
    simp only [c]
    split_ifs <;> omega
  have fits : k + c ≤ r.plaintext.length := by
    simp only [c]
    omega
  have room : k + c ≤ r.decrypted.iobuf.length := by
    simp only [Record.decrypted,bare,List.nil_append,List.length_append]
    omega
  have bytes : (r.decrypted.iobuf.drop k).take c = (r.plaintext.drop k).take c := by
    simp only [Record.decrypted,bare,List.nil_append]
    rw [List.drop_append_of_le_length (by omega),List.take_append_of_le_length]
    rw [List.length_drop]
    omega
  refine ⟨c,?_,?_,fits,?_,?_⟩
  · simp only [c]
    omega
  · simp only [c]
    omega
  · simp only [c]
    omega
  · simp only [copyFromBuffer,count,memcpy_some _ _ _ room,bytes,Option.bind_eq_bind,Option.bind_some]
    rfl

theorem Delivers.call {s t : Session} (delivers : Delivers records s) (call : Call)
    (calls : t.calls = s.calls ++ [call]) (delivered : t.delivered = s.delivered ++ call.chunk)
    (stream : t.delivered <+: plaintexts records t.next)
    (lengths : 1 ≤ call.receiveLength ∧ call.receiveLength ≤ call.length ∧
      (call.chunk.length : Int) = call.receiveLength)
    (whole : ∀ n, call.read = some n → call.before = plaintexts records n) : Delivers records t where
  stream := stream
  chunks := by
    rw [calls,delivered,List.map_append,List.flatten_append,delivers.chunks]
    exact congrArg (s.delivered ++ ·) (List.append_nil _)
  lengths other member := by
    rw [calls] at member
    rcases List.mem_append.mp member with earlier | last
    · exact delivers.lengths other earlier
    · rw [List.mem_singleton.mp last]
      exact lengths
  whole other member := by
    rw [calls] at member
    rcases List.mem_append.mp member with earlier | last
    · exact delivers.whole other earlier
    · rw [List.mem_singleton.mp last]
      exact whole

theorem Holding.stream {i k : Nat} {s : Session} (holding : Holding records i k s) :
    s.delivered <+: plaintexts records s.next := by
  rw [holding.delivered,holding.next,plaintexts_succ]
  exact (List.prefix_append_right_inj _).mpr (List.take_prefix _ _)

/-- A call that finds bytes of record `i` in the buffer. -/
theorem receive_holding {i k : Nat} {s : Session} (holding : Holding records i k s)
    (bare : (records i).header = []) (left : k < (records i).plaintext.length) (length : Int)
    (positive : 0 < length) :
    ∃ s' c, s.receive records length = some s' ∧ Holding records i (k + c) s' ∧
      (Delivers records s → Delivers records s') := by
  obtain ⟨c,one,most,fits,-,run⟩ := copyFromBuffer_spec (records i) bare k left length positive
  have unread : s.body.receivedPos < s.body.receivedLength := by
    rw [holding.body]
    exact Int.ofNat_lt.mpr left
  have size : (((records i).plaintext.drop k).take c).length = c := by
    rw [List.length_take,List.length_drop]
    omega
  let call : Call := ⟨length,c,((records i).plaintext.drop k).take c,s.delivered,none⟩
  let s' : Session := ⟨⟨some (records i).decrypted.iobuf,(k + c : Nat),(records i).plaintext.length⟩,s.next,
    s.delivered ++ call.chunk,s.calls ++ [call]⟩
  have after : Holding records i (k + c) s' := by
    refine ⟨holding.next,rfl,fits,?_⟩
    change s.delivered ++ _ = _
    rw [holding.delivered,List.append_assoc,List.take_add]
  refine ⟨s',c,?_,after,?_⟩
  · simp only [Session.receive,Ssl.receive,if_pos unread]
    rw [holding.body,run]
    rfl
  · intro delivers
    refine delivers.call call rfl rfl after.stream ⟨?_,most,congrArg _ size⟩ ?_
    · exact Int.ofNat_le.mpr one
    · intro n read
      cases read

/-- A call that reads record `n`. -/
theorem receive_drained {n : Nat} {s : Session} (drained : Drained records n s)
    (bare : (records n).header = []) (length : Int) (positive : 0 < length) :
    ∃ s' c, s.receive records length = some s' ∧ Holding records n c s' ∧
      (length = (records n).plaintext.length → c = (records n).plaintext.length) ∧
      (Delivers records s → Delivers records s') := by
  have content : 0 < (records n).plaintext.length := List.length_pos_iff.mpr (records n).nonempty
  obtain ⟨c,one,most,fits,full,run⟩ := copyFromBuffer_spec (records n) bare 0 content length positive
  rw [List.drop_zero,Nat.zero_add] at run
  rw [Nat.zero_add] at fits full
  have size : ((records n).plaintext.take c).length = c := by
    rw [List.length_take]
    omega
  let call : Call := ⟨length,c,(records n).plaintext.take c,s.delivered,some s.next⟩
  let s' : Session := ⟨⟨some (records n).decrypted.iobuf,c,(records n).plaintext.length⟩,s.next + 1,
    s.delivered ++ call.chunk,s.calls ++ [call]⟩
  have after : Holding records n c s' := by
    refine ⟨congrArg (· + 1) drained.next,rfl,fits,?_⟩
    change s.delivered ++ _ = _
    rw [drained.delivered]
  refine ⟨s',c,?_,after,?_,?_⟩
  · have header : (records n).decrypted.cbBuffer0 = ((0 : Nat) : Int) := by
      simp only [Record.decrypted,bare]
      rfl
    have total : (records n).decrypted.cbBuffer1 = ((records n).plaintext.length : Int) := rfl
    simp only [Session.receive,Ssl.receive,receivePh1,receivePh2,if_neg drained.empty,drained.next,header,
      total]
    rw [run]
    simp [s',call,drained.next]
  · intro exact'
    apply full
    omega
  · intro delivers
    refine delivers.call call rfl rfl after.stream ⟨?_,most,congrArg _ size⟩ ?_
    · exact Int.ofNat_le.mpr one
    · rintro _ ⟨⟩
      rw [drained.next]
      exact drained.delivered

/-! ## Bare records -/

def Sound (records : Nat → Record) (s : Session) : Prop :=
  Delivers records s ∧ ((∃ n, Drained records n s) ∨
    ∃ i k, k < (records i).plaintext.length ∧ Holding records i k s)

theorem Holding.sound {i k : Nat} {s : Session} (holding : Holding records i k s)
    (delivers : Delivers records s) : Sound records s := by
  refine ⟨delivers,?_⟩
  rcases Nat.lt_or_eq_of_le holding.bound with less | full
  · exact Or.inr ⟨i,k,less,holding⟩
  · rw [full] at holding
    exact Or.inl ⟨i + 1,holding.drained⟩

theorem Sound.receive {s : Session} (sound : Sound records s) (bare : ∀ i, (records i).header = [])
    (length : Int) (positive : 0 < length) : ∃ s', s.receive records length = some s' ∧ Sound records s' := by
  obtain ⟨delivers,⟨n,drained⟩ | ⟨i,k,less,holding⟩⟩ := sound
  · obtain ⟨s',c,run,after,-,kept⟩ := receive_drained drained (bare n) length positive
    exact ⟨s',run,after.sound (kept delivers)⟩
  · obtain ⟨s',c,run,after,kept⟩ := receive_holding holding (bare i) less length positive
    exact ⟨s',run,after.sound (kept delivers)⟩

theorem Sound.run {s : Session} (sound : Sound records s) (bare : ∀ i, (records i).header = [])
    (lengths : List Int) (positive : ∀ length ∈ lengths, 0 < length) :
    ∃ s', s.run records lengths = some s' ∧ Sound records s' := by
  induction lengths generalizing s with
  | nil => exact ⟨s,rfl,sound⟩
  | cons length rest ih =>
    obtain ⟨t,step,after⟩ := sound.receive bare length (positive length List.mem_cons_self)
    obtain ⟨s',run,final⟩ := ih after (fun x hx => positive x (List.mem_cons_of_mem _ hx))
    refine ⟨s',?_,final⟩
    simp only [Session.run,List.foldlM_cons,step]
    exact run

theorem start_sound : Sound records Session.start :=
  ⟨⟨List.nil_prefix,rfl,by simp [Session.start],by simp [Session.start]⟩,Or.inl ⟨0,start_drained⟩⟩

/-! ## A record with a header -/

/-- Calls that ask for whole records drain the first `n` records while these are bare. -/
theorem run_whole (n : Nat) (bare : ∀ i < n, (records i).header = []) :
    ∃ s, Session.start.run records ((List.range n).map (fun i => ((records i).plaintext.length : Int))) =
      some s ∧ Drained records n s := by
  induction n with
  | zero => exact ⟨_,rfl,start_drained⟩
  | succ n ih =>
    obtain ⟨s,run,drained⟩ := ih (fun i less => bare i (Nat.lt_succ_of_lt less))
    have content : 0 < (records n).plaintext.length := List.length_pos_iff.mpr (records n).nonempty
    obtain ⟨s',c,step,after,full,-⟩ := receive_drained drained (bare n (Nat.lt_succ_self n))
      (records n).plaintext.length (Int.ofNat_lt.mpr content)
    rw [full rfl] at after
    refine ⟨s',?_,after.drained⟩
    rw [List.range_succ,List.map_append,run_append,run]
    simp only [Session.run,Option.bind_some,List.map_cons,List.map_nil,List.foldlM_cons,step]
    rfl

theorem receive_some {s u : Session} {length : Int} (run : s.receive records length = some u) :
    ∃ r receiveLength read, Ssl.receive s.body length
        (.ok (.completed 0 (some (records s.next).decrypted))) = some r ∧
      (s.body.receivedPos < s.body.receivedLength ∨ read = some s.next) ∧
      u.body = r.body ∧ u.delivered = s.delivered ++ r.chunk ∧ (read = some s.next → u.next = s.next + 1) ∧
      u.calls = s.calls ++ [⟨length,receiveLength,r.chunk,s.delivered,read⟩] := by
  obtain ⟨r,called,rest⟩ := Option.bind_eq_some_iff.mp run
  obtain ⟨receiveLength,reported,last⟩ := Option.bind_eq_some_iff.mp rest
  cases last
  refine ⟨r,receiveLength,_,called,?_,rfl,rfl,?_,rfl⟩
  · by_cases unread : s.body.receivedPos < s.body.receivedLength
    · exact Or.inl unread
    · exact Or.inr (if_neg unread)
  · intro read
    rw [read]
    rfl

theorem memcpy_length {source : Option (List Byte)} {pos count : Int} {chunk : List Byte}
    (copied : memcpy source pos count = some chunk) : (chunk.length : Int) = count := by
  obtain ⟨bytes,-,rest⟩ := Option.bind_eq_some_iff.mp copied
  by_cases inside : 0 ≤ pos ∧ 0 ≤ count ∧ pos + count ≤ bytes.length
  · rw [if_pos inside] at rest
    cases rest
    rw [List.length_take,List.length_drop]
    omega
  · rw [if_neg inside] at rest
    cases rest

/-- A read that asks for the whole record copies all but the last `h` bytes. -/
theorem receive_short {n : Nat} {s : Session} (drained : Drained records n s) {r : Received}
    (run : Ssl.receive s.body (records n).plaintext.length
      (.ok (.completed 0 (some (records n).decrypted))) = some r) :
    r.body.receivedPos = r.body.receivedLength ∧
      (r.chunk.length : Int) = (records n).plaintext.length - (records n).header.length := by
  rw [Ssl.receive,if_neg drained.empty] at run
  obtain ⟨r₁,call,last⟩ := Option.bind_eq_some_iff.mp run
  cases last
  simp only [receivePh1,receivePh2,ne_eq,not_true_eq_false,if_false] at call
  obtain ⟨r₂,copy,last⟩ := Option.bind_eq_some_iff.mp call
  cases last
  obtain ⟨chunk,copied,last⟩ := Option.bind_eq_some_iff.mp copy
  cases last
  have count := memcpy_length copied
  simp only [Record.decrypted] at count ⊢
  split_ifs at count ⊢ <;> omega

/-- Once a record with a header of `h` bytes is read, its last `h` bytes are lost. -/
theorem header_lost {n : Nat} {s t u : Session} (drained : Drained records n s)
    (header : (records n).header ≠ [])
    (first : s.receive records (records n).plaintext.length = some t)
    (second : t.receive records 1 = some u) : ¬Delivers records u := by
  intro delivers
  obtain ⟨r,_,read,called,fresh,body,delivered,next,-⟩ := receive_some first
  obtain ⟨_,_,read',-,fresh',-,-,-,calls⟩ := receive_some second
  rw [drained.next] at called
  obtain ⟨ends,size⟩ := receive_short drained called
  have empty : ¬t.body.receivedPos < t.body.receivedLength := by
    rw [body,ends]
    exact Int.lt_irrefl _
  have whole := delivers.whole _ (by rw [calls]; exact List.mem_append_right _ List.mem_cons_self)
    t.next (fresh'.resolve_left empty)
  have total := congrArg List.length whole
  rw [next (fresh.resolve_left drained.empty),drained.next,plaintexts_succ] at total
  rw [delivered,drained.delivered,List.length_append,List.length_append] at total
  have positive := List.length_pos_iff.mpr header
  omega

/-- The stream is delivered to every sequence of calls exactly when no record has a header. -/
theorem streamDelivered_iff (records : Nat → Record) :
    StreamDelivered records ↔ ∀ i, (records i).header = [] := by
  constructor
  · intro delivered i
    induction i using Nat.strongRecOn with
    | ind n ih =>
      by_contra header
      obtain ⟨s,run,drained⟩ := run_whole n ih
      have content (i : Nat) : 0 < (records i).plaintext.length :=
        List.length_pos_iff.mpr (records i).nonempty
      obtain ⟨u,all,sound⟩ := delivered
        ((List.range n).map (fun i => ((records i).plaintext.length : Int)) ++
          [((records n).plaintext.length : Int),1]) (by
        intro length member
        rcases List.mem_append.mp member with whole | last
        · obtain ⟨i,-,rfl⟩ := List.mem_map.mp whole
          exact Int.ofNat_lt.mpr (content i)
        · have := content n
          simp only [List.mem_cons,List.not_mem_nil,or_false] at last
          omega)
      rw [run_append,run,Option.bind_some] at all
      obtain ⟨t,first,rest⟩ := Option.bind_eq_some_iff.mp all
      obtain ⟨v,second,last⟩ := Option.bind_eq_some_iff.mp rest
      cases last
      exact header_lost drained header first second sound
  · intro bare lengths positive
    obtain ⟨s,run,sound⟩ := start_sound.run bare lengths positive
    exact ⟨s,run,sound.1⟩

def headed (_ : Nat) : Record := ⟨[22],[1,2],[],by simp⟩

/-- The claim fails: with a one-byte header the second byte of each record is lost. -/
theorem stream_not_delivered : ¬∀ records, StreamDelivered records := by
  intro all
  obtain ⟨u,run,delivers⟩ := all headed [2,1] (by decide)
  rw [Session.run,List.foldlM_cons] at run
  obtain ⟨t,first,rest⟩ := Option.bind_eq_some_iff.mp run
  obtain ⟨v,second,last⟩ := Option.bind_eq_some_iff.mp rest
  cases last
  have header : (headed 0).header ≠ [] := List.cons_ne_nil _ _
  exact header_lost start_drained header first second delivers

end Xrossfire.Ssl
