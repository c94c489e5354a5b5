import Xrossfire.Ssl.Fragments

/-! What reaches the peer. A record is decrypted behind its header, while the receive takes its length for its end;
so of each record the last bytes, as many as the header has, are left out. -/
namespace Xrossfire.Ssl

def Record.kept (r : Record) : List Byte := r.plaintext.take (r.plaintext.length - r.header.length)

def keeps (records : Nat → Record) (n : Nat) : List Byte := ((List.range n).map (fun i => (records i).kept)).flatten

/-- The calls deliver what is kept of the records, in order; a call that returns no byte has read a record of which
nothing is kept. -/
structure Truncates (records : Nat → Record) (s : Session) : Prop where
  stream : s.delivered <+: keeps records s.next
  chunks : (s.calls.map Call.chunk).flatten = s.delivered
  lengths : ∀ call ∈ s.calls, 0 ≤ call.receiveLength ∧ call.receiveLength ≤ call.length ∧
    (call.chunk.length : Int) = call.receiveLength
  whole : ∀ call ∈ s.calls, ∀ n, call.read = some n → call.before = keeps records n
  empty : ∀ call ∈ s.calls, call.receiveLength = 0 → ∃ n, call.read = some n ∧ (records n).kept = []

def Record.fits (r : Record) : Prop := r.header.length ≤ r.plaintext.length

structure Keeping (records : Nat → Record) (i k : Nat) (s : Session) : Prop where
  next : s.next = i + 1
  body : s.body = ⟨some (records i).decrypted.iobuf,((records i).header.length + k : Nat),(records i).plaintext.length⟩
  bound : k ≤ (records i).kept.length
  delivered : s.delivered = keeps records i ++ (records i).kept.take k

structure Spent (records : Nat → Record) (n : Nat) (s : Session) : Prop where
  next : s.next = n
  empty : ¬ s.body.receivedPos < s.body.receivedLength
  delivered : s.delivered = keeps records n

section
variable {records : Nat → Record} {r : Record} {i k n : Nat} {s s' : Session} {length : Int}

theorem keeps_succ (n : Nat) : keeps records (n + 1) = keeps records n ++ (records n).kept := by
  simp [keeps,List.range_succ]

theorem Record.kept_length (r : Record) : r.kept.length = r.plaintext.length - r.header.length := by
  rw [Record.kept,List.length_take]
  omega

theorem Keeping.spent (keeping : Keeping records i (records i).kept.length s) (fits : (records i).fits) :
    Spent records (i + 1) s where
  next := keeping.next
  empty := by
    rw [keeping.body,Record.kept_length]
    unfold Record.fits at fits
    dsimp only
    omega
  delivered := by rw [keeping.delivered,keeps_succ,List.take_length]

/-- A copy takes the next bytes of those kept. -/
theorem copyFromBuffer_kept (r : Record) (fits : r.fits) (inside : k ≤ r.kept.length) (positive : 0 < length) :
    ∃ c : Nat, (c : Int) ≤ length ∧ k + c ≤ r.kept.length ∧ (c = 0 → k = r.kept.length) ∧
      (r.kept.length ≤ k + length → k + c = r.kept.length) ∧
      copyFromBuffer ⟨some r.decrypted.iobuf,(r.header.length + k : Nat),r.plaintext.length⟩ length =
        some ⟨⟨some r.decrypted.iobuf,(r.header.length + (k + c) : Nat),r.plaintext.length⟩,(r.kept.drop k).take c,
          some (c : Int),[.notify 0]⟩ := by
  have size := r.kept_length
  unfold Record.fits at fits
  let c := min length.toNat (r.kept.length - k)
  have count : (if length < (r.plaintext.length : Int) - (r.header.length + k : Nat) then length
      else (r.plaintext.length : Int) - (r.header.length + k : Nat)) = (c : Int) := by
    simp only [c]
    split_ifs <;> omega
  have most : k + c ≤ r.kept.length := by
    simp only [c]
    omega
  have room : r.header.length + k + c ≤ r.decrypted.iobuf.length := by
    simp only [Record.decrypted,List.length_append]
    omega
  have bytes : (r.decrypted.iobuf.drop (r.header.length + k)).take c = (r.kept.drop k).take c := by
    have text : k + c ≤ r.plaintext.length := by omega
    rw [Record.decrypted,List.append_assoc,List.drop_append,List.drop_of_length_le (Nat.le_add_right _ _),
      List.nil_append,Nat.add_sub_cancel_left,List.drop_append_of_le_length (by omega),
      List.take_append_of_le_length (by rw [List.length_drop]; omega),Record.kept,List.drop_take,List.take_take,
      min_eq_left (by omega)]
  refine ⟨c,?_,most,?_,?_,?_⟩
  · simp only [c]
    omega
  · simp only [c]
    omega
  · simp only [c]
    omega
  · simp only [copyFromBuffer,count,memcpy_some _ _ _ room,bytes,Option.bind_eq_bind,Option.bind_some]
    rw [← Nat.add_assoc]
    rfl

theorem Truncates.call (truncates : Truncates records s) (call : Call)
    (calls : s'.calls = s.calls ++ [call]) (delivered : s'.delivered = s.delivered ++ call.chunk)
    (stream : s'.delivered <+: keeps records s'.next)
    (lengths : 0 ≤ call.receiveLength ∧ call.receiveLength ≤ call.length ∧
      (call.chunk.length : Int) = call.receiveLength)
    (whole : ∀ n, call.read = some n → call.before = keeps records n)
    (empty : call.receiveLength = 0 → ∃ n, call.read = some n ∧ (records n).kept = []) : Truncates records s' where
  stream := stream
  chunks := by
    rw [calls,delivered,List.map_append,List.flatten_append,truncates.chunks]
    exact congrArg (s.delivered ++ ·) (List.append_nil _)
  lengths other member := by
    rw [calls] at member
    rcases List.mem_append.mp member with earlier | last
    · exact truncates.lengths other earlier
    · rw [List.mem_singleton.mp last]
      exact lengths
  whole other member := by
    rw [calls] at member
    rcases List.mem_append.mp member with earlier | last
    · exact truncates.whole other earlier
    · rw [List.mem_singleton.mp last]
      exact whole
  empty other member := by
    rw [calls] at member
    rcases List.mem_append.mp member with earlier | last
    · exact truncates.empty other earlier
    · rw [List.mem_singleton.mp last]
      exact empty

theorem Keeping.stream (keeping : Keeping records i k s) : s.delivered <+: keeps records s.next := by
  rw [keeping.delivered,keeping.next,keeps_succ]
  exact (List.prefix_append_right_inj _).mpr (List.take_prefix _ _)

/-- A call that finds kept bytes of record `i` in the buffer. -/
theorem receive_keeping (keeping : Keeping records i k s) (fits : (records i).fits)
    (left : k < (records i).kept.length) (positive : 0 < length) :
    ∃ s' c, s.receive records length = some s' ∧ Keeping records i (k + c) s' ∧
      (Truncates records s → Truncates records s') := by
  obtain ⟨c,most,inside,done,-,run⟩ := copyFromBuffer_kept (records i) fits (Nat.le_of_lt left) positive
  have more : 1 ≤ c := Nat.pos_of_ne_zero fun zero => Nat.ne_of_lt left (done zero)
  have unread : s.body.receivedPos < s.body.receivedLength := by
    have size := (records i).kept_length
    rw [keeping.body]
    dsimp only
    omega
  have size : (((records i).kept.drop k).take c).length = c := by
    rw [List.length_take,List.length_drop]
    omega
  let call : Call := ⟨length,c,((records i).kept.drop k).take c,s.delivered,none⟩
  let s' : Session := ⟨⟨some (records i).decrypted.iobuf,((records i).header.length + (k + c) : Nat),
    (records i).plaintext.length⟩,s.next,s.delivered ++ call.chunk,s.calls ++ [call]⟩
  have after : Keeping records i (k + c) s' := by
    refine ⟨keeping.next,rfl,inside,?_⟩
    change s.delivered ++ _ = _
    rw [keeping.delivered,List.append_assoc,List.take_add]
  refine ⟨s',c,?_,after,fun truncates => ?_⟩
  · simp only [Session.receive,Ssl.receive,if_pos unread]
    rw [keeping.body,run]
    rfl
  · refine truncates.call call rfl rfl after.stream ⟨Int.natCast_nonneg c,most,congrArg _ size⟩ ?_ ?_
    · intro n read
      cases read
    · intro zero
      have none : (c : Int) = 0 := zero
      omega

/-- A call that reads record `n`. -/
theorem receive_spent (spent : Spent records n s) (fits : (records n).fits) (positive : 0 < length) :
    ∃ s' c, s.receive records length = some s' ∧ Keeping records n c s' ∧
      ((records n).kept.length ≤ length → c = (records n).kept.length) ∧
      (Truncates records s → Truncates records s') := by
  obtain ⟨c,most,inside,done,full,run⟩ := copyFromBuffer_kept (records n) fits (Nat.zero_le _) positive
  rw [List.drop_zero,Nat.add_zero,Nat.zero_add] at run
  rw [Nat.zero_add] at inside full
  have size : ((records n).kept.take c).length = c := by
    rw [List.length_take]
    omega
  let call : Call := ⟨length,c,(records n).kept.take c,s.delivered,some s.next⟩
  let s' : Session := ⟨⟨some (records n).decrypted.iobuf,((records n).header.length + c : Nat),
    (records n).plaintext.length⟩,s.next + 1,s.delivered ++ call.chunk,s.calls ++ [call]⟩
  have after : Keeping records n c s' := by
    refine ⟨congrArg (· + 1) spent.next,rfl,inside,?_⟩
    change s.delivered ++ _ = _
    rw [spent.delivered]
  refine ⟨s',c,?_,after,fun whole => full (by omega),fun truncates => ?_⟩
  · have header : (records n).decrypted.cbBuffer0 = ((records n).header.length : Int) := rfl
    have total : (records n).decrypted.cbBuffer1 = ((records n).plaintext.length : Int) := rfl
    simp only [Session.receive,Ssl.receive,receivePh1,receivePh2,if_neg spent.empty,spent.next,header,total]
    rw [run]
    simp [s',call,spent.next]
  · refine truncates.call call rfl rfl after.stream ⟨Int.natCast_nonneg c,most,congrArg _ size⟩ ?_ ?_
    · intro m read
      cases read
      rw [spent.next]
      exact spent.delivered
    · intro zero
      have none : c = 0 := Int.ofNat_eq_zero.mp zero
      exact ⟨n,congrArg some spent.next,List.length_eq_zero_iff.mp (done none).symm⟩

/-- A record with a longer header is copied with a negative length. -/
theorem receive_unfit (spent : Spent records n s) (unfit : ¬ (records n).fits) (positive : 0 < length) :
    s.receive records length = none := by
  have copied : copyFromBuffer ⟨some (records n).decrypted.iobuf,(records n).header.length,
      (records n).plaintext.length⟩ length = none := by
    have negative : ((records n).plaintext.length : Int) - (records n).header.length < 0 := by
      unfold Record.fits at unfit
      omega
    simp only [copyFromBuffer]
    rw [if_neg (by omega)]
    simp only [memcpy,Option.bind_eq_bind,Option.bind_some]
    rw [if_neg (by omega)]
    rfl
  have header : (records n).decrypted.cbBuffer0 = ((records n).header.length : Int) := rfl
  have total : (records n).decrypted.cbBuffer1 = ((records n).plaintext.length : Int) := rfl
  simp only [Session.receive,Ssl.receive,receivePh1,receivePh2,if_neg spent.empty,spent.next,header,total]
  rw [copied]
  rfl

/-! ## Every sequence of calls -/

def Settled (records : Nat → Record) (s : Session) : Prop :=
  Truncates records s ∧ ((∃ n, Spent records n s) ∨ ∃ i k, k < (records i).kept.length ∧ Keeping records i k s)

theorem Keeping.settled (keeping : Keeping records i k s) (fits : (records i).fits)
    (truncates : Truncates records s) : Settled records s := by
  refine ⟨truncates,?_⟩
  rcases Nat.lt_or_eq_of_le keeping.bound with less | full
  · exact Or.inr ⟨i,k,less,keeping⟩
  · rw [full] at keeping
    exact Or.inl ⟨i + 1,keeping.spent fits⟩

theorem Settled.receive (settled : Settled records s) (fits : ∀ i, (records i).fits) (positive : 0 < length) :
    ∃ s', s.receive records length = some s' ∧ Settled records s' := by
  obtain ⟨truncates,⟨n,spent⟩ | ⟨i,k,less,keeping⟩⟩ := settled
  · obtain ⟨s',c,run,after,-,kept⟩ := receive_spent spent (fits n) positive
    exact ⟨s',run,after.settled (fits n) (kept truncates)⟩
  · obtain ⟨s',c,run,after,kept⟩ := receive_keeping keeping (fits i) less positive
    exact ⟨s',run,after.settled (fits i) (kept truncates)⟩

theorem Settled.received (settled : Settled records s) (positive : 0 < length)
    (run : s.receive records length = some s') : Settled records s' := by
  obtain ⟨truncates,⟨n,spent⟩ | ⟨i,k,less,keeping⟩⟩ := settled
  · by_cases fits : (records n).fits
    · obtain ⟨t,c,same,after,-,kept⟩ := receive_spent spent fits positive
      cases run.symm.trans same
      exact after.settled fits (kept truncates)
    · exact absurd ((receive_unfit spent fits positive).symm.trans run) (Option.some_ne_none s').symm
  · have size := (records i).kept_length
    have fits : (records i).fits := by
      unfold Record.fits
      omega
    obtain ⟨t,c,same,after,kept⟩ := receive_keeping keeping fits less positive
    cases run.symm.trans same
    exact after.settled fits (kept truncates)

theorem start_spent : Spent records 0 Session.start := ⟨rfl,by decide,rfl⟩

theorem start_settled : Settled records Session.start :=
  ⟨⟨List.nil_prefix,rfl,by simp [Session.start],by simp [Session.start],by simp [Session.start]⟩,
    Or.inl ⟨0,start_spent⟩⟩

theorem Settled.run (settled : Settled records s) (fits : ∀ i, (records i).fits) (lengths : List Int)
    (positive : ∀ length ∈ lengths, 0 < length) : ∃ s', s.run records lengths = some s' ∧ Settled records s' := by
  induction lengths generalizing s with
  | nil => exact ⟨s,rfl,settled⟩
  | cons length rest ih =>
    obtain ⟨t,step,after⟩ := settled.receive fits (positive length List.mem_cons_self)
    obtain ⟨s',run,final⟩ := ih after (fun x member => positive x (List.mem_cons_of_mem _ member))
    refine ⟨s',?_,final⟩
    simp only [Session.run,List.foldlM_cons,step]
    exact run

theorem Settled.ran (settled : Settled records s) {lengths : List Int} (positive : ∀ length ∈ lengths, 0 < length)
    (run : s.run records lengths = some s') : Settled records s' := by
  induction lengths generalizing s with
  | nil =>
    cases run
    exact settled
  | cons length rest ih =>
    rw [Session.run,List.foldlM_cons] at run
    obtain ⟨t,step,run⟩ := Option.bind_eq_some_iff.mp run
    have after := settled.received (positive length List.mem_cons_self) step
    exact ih after (fun x member => positive x (List.mem_cons_of_mem _ member)) run

/-! ## A header that is longer than the text -/

/-- Calls that ask for enough drain the first `n` records while these fit. -/
theorem run_spent (n : Nat) (fits : ∀ i < n, (records i).fits) :
    ∃ s, Session.start.run records ((List.range n).map (fun i => ((records i).plaintext.length : Int))) = some s ∧
      Spent records n s := by
  induction n with
  | zero => exact ⟨_,rfl,start_spent⟩
  | succ n ih =>
    obtain ⟨s,run,spent⟩ := ih (fun i less => fits i (Nat.lt_succ_of_lt less))
    have content : 0 < (records n).plaintext.length := List.length_pos_iff.mpr (records n).nonempty
    have size := (records n).kept_length
    obtain ⟨s',c,step,after,full,-⟩ := receive_spent spent (fits n (Nat.lt_succ_self n)) (Int.ofNat_lt.mpr content)
    rw [full (by omega)] at after
    refine ⟨s',?_,after.spent (fits n (Nat.lt_succ_self n))⟩
    rw [List.range_succ,List.map_append,run_append,run]
    simp only [Session.run,Option.bind_some,List.map_cons,List.map_nil,List.foldlM_cons,step]
    rfl

/-- The receive calls never copy a negative number of bytes exactly if every header fits, and then they deliver what
is kept of the records. -/
theorem truncated_iff (records : Nat → Record) :
    (∀ lengths : List Int, (∀ length ∈ lengths, 0 < length) →
      ∃ s, Session.start.run records lengths = some s ∧ Truncates records s) ↔ ∀ i, (records i).fits := by
  constructor
  · intro all i
    induction i using Nat.strongRecOn with
    | ind n ih =>
      by_contra unfit
      obtain ⟨s,run,spent⟩ := run_spent n ih
      obtain ⟨u,whole,-⟩ := all
        ((List.range n).map (fun i => ((records i).plaintext.length : Int)) ++ [1]) (by
        intro length member
        rcases List.mem_append.mp member with asked | last
        · obtain ⟨i,-,rfl⟩ := List.mem_map.mp asked
          exact Int.ofNat_lt.mpr (List.length_pos_iff.mpr (records i).nonempty)
        · rw [List.mem_singleton.mp last]
          exact Int.one_pos)
      rw [run_append,run,Option.bind_some] at whole
      obtain ⟨t,last,-⟩ := Option.bind_eq_some_iff.mp whole
      exact absurd ((receive_unfit spent unfit Int.one_pos).symm.trans last) (Option.some_ne_none t).symm
  · intro fits lengths positive
    obtain ⟨s,run,truncates,-⟩ := start_settled.run fits lengths positive
    exact ⟨s,run,truncates⟩

end

/-! ## From one end to the other -/

structure Outgoing where
  message : List Byte
  iobuf : List Byte
  chunks : List Chunk

namespace Outgoing

def trace (sizes : StreamSizes) (o : Outgoing) : List SendEvent :=
  (send sizes o.message o.message.length (.started o.iobuf o.chunks)).getD []

structure Goes (sizes : StreamSizes) (o : Outgoing) : Prop where
  nonempty : o.message ≠ []
  chunks : ∀ chunk ∈ o.chunks, chunk.encrypted.ss = secOk ∧ chunk.err = 0 ∧ chunk.sent = some 0
  enough : recordCount sizes.cbMaximumMessage o.message.length ≤ o.chunks.length

end Outgoing

namespace SendEvent

/-- A text that was encrypted, with the output that `xf_socket_send` is given. -/
def encryption : SendEvent → Option (List Byte × List Byte)
  | encrypt data true output => some (data,output)
  | _ => none

def wire : SendEvent → Option (List Byte)
  | send buffer => some buffer
  | _ => none

end SendEvent

section
variable {sizes : StreamSizes} {os : List Outgoing} {records : Nat → Record} {s : Session} {m n : Nat}

theorem encryptions_passed (pairs : List (List Byte × List Byte)) :
    (passed pairs).filterMap SendEvent.encryption = pairs := by
  induction pairs with
  | nil => rfl
  | cons pair pairs ih => exact congrArg (pair :: ·) ih

theorem wire_passed (pairs : List (List Byte × List Byte)) :
    (passed pairs).filterMap SendEvent.wire = pairs.map Prod.snd := by
  induction pairs with
  | nil => rfl
  | cons pair pairs ih => exact congrArg (pair.2 :: ·) ih

/-- A message that goes out does so in its pieces. -/
theorem Outgoing.Goes.pieces {o : Outgoing} (goes : o.Goes sizes) (positive : 0 < sizes.cbMaximumMessage) :
    (o.trace sizes).filterMap SendEvent.wire = ((o.trace sizes).filterMap SendEvent.encryption).map Prod.snd ∧
      ((o.trace sizes).filterMap SendEvent.encryption).map Prod.fst =
        (List.range (recordCount sizes.cbMaximumMessage o.message.length)).map
          (chunkAt sizes.cbMaximumMessage o.message) := by
  have one : 1 ≤ recordCount sizes.cbMaximumMessage o.message.length := le_max_left _ _
  obtain ⟨k,whole⟩ := Nat.exists_eq_add_of_le' one
  have inside : k < o.chunks.length := by
    have enough := goes.enough
    omega
  obtain ⟨-,-,last⟩ := goes.chunks _ (List.getElem_mem inside)
  obtain ⟨pairs,run,pieces⟩ := sendChunks_reach positive k o.chunks o.message o.iobuf
    (fun chunk member => ⟨(goes.chunks chunk member).1,(goes.chunks chunk member).2.1⟩) (by omega)
    (fun i _ chunk here => (goes.chunks chunk (List.mem_of_getElem? here)).2.2) (List.getElem?_eq_getElem inside)
    (fun _ => whole.symm)
  have trace : o.trace sizes = passed pairs ++ ending (some 0) := by
    rw [Outgoing.trace,send,run,last]
    rfl
  have silent : (ending (some 0)).filterMap SendEvent.wire = [] ∧
      (ending (some 0)).filterMap SendEvent.encryption = [] :=
    ⟨rfl,rfl⟩
  rw [trace,List.filterMap_append,List.filterMap_append,encryptions_passed,wire_passed,whole,silent.1,silent.2,
    List.append_nil,List.append_nil]
  exact ⟨rfl,pieces⟩

/-- The text with its output in `DecryptMessage`, which leaves it between a header and a trailer. -/
def Opens (sizes : StreamSizes) (decrypt : List Byte → Decrypted) (pair : List Byte × List Byte) : Prop :=
  ∃ header trailer, header.length = sizes.cbHeader ∧
    decrypt pair.2 = ⟨header ++ pair.1 ++ trailer,header.length,pair.1.length⟩

theorem Opens.kept {decrypt : List Byte → Decrypted} {pair : List Byte × List Byte} {r : Record}
    (opens : Opens sizes decrypt pair) (same : r.decrypted = decrypt pair.2) :
    r.kept = pair.1.take (pair.1.length - sizes.cbHeader) := by
  obtain ⟨header,trailer,size,left⟩ := opens
  rw [left,Record.decrypted,Decrypted.mk.injEq] at same
  obtain ⟨bytes,first,second⟩ := same
  have headers : r.header.length = header.length := by omega
  rw [List.append_assoc,List.append_assoc] at bytes
  have rest := (List.append_inj bytes headers).2
  have text := (List.append_inj rest (by omega)).1
  rw [Record.kept,text,headers,size]

def wire (sizes : StreamSizes) (os : List Outgoing) : List (List Byte) :=
  os.flatMap (fun o => (o.trace sizes).filterMap SendEvent.wire)

end

/-! A message of three bytes in two records, with a header of one byte. -/

def opened (output : List Byte) : Decrypted := ⟨output,1,output.length - 2⟩

def arriving (i : Nat) : Record :=
  if i = 0 then ⟨[9],[1,2],[8],List.cons_ne_nil _ _⟩ else ⟨[9],[3],[8],List.cons_ne_nil _ _⟩

end Xrossfire.Ssl
