import Xrossfire.Ssl.Send

/-! How the send of `ssl_socket.c` cuts a message into records. A child that is not
completed yet stands for a send that is still going on. -/
namespace Xrossfire.Ssl

/-- Records of at most `limit` bytes for `length` bytes; an empty message takes one too. -/
def recordCount (limit length : Nat) : Nat := max 1 ((length + limit - 1) / limit)

def passed (records : List (List Byte × List Byte)) : List SendEvent :=
  records.flatMap (fun record => [.encrypt record.1 true record.2,.send record.2])

def ending : Option Int → List SendEvent
  | none => []
  | some err => [.freeIobuf,.freeContext,.notify err]

section Counting
variable {limit length : Nat}

theorem recordCount_last (short : length ≤ limit) (positive : 0 < limit) : recordCount limit length = 1 := by
  rw [recordCount,max_eq_left]
  exact Nat.lt_succ_iff.mp ((Nat.div_lt_iff_lt_mul positive).mpr (by omega))

theorem recordCount_more (long : limit < length) (positive : 0 < limit) :
    recordCount limit length = recordCount limit (length - limit) + 1 := by
  have shift : (length + limit - 1) / limit = (length - limit + limit - 1) / limit + 1 := by
    rw [← Nat.add_div_right _ positive]
    congr 1
    omega
  have whole : 1 ≤ (length - limit + limit - 1) / limit := (Nat.one_le_div_iff positive).mpr (by omega)
  rw [recordCount,recordCount,shift,max_eq_right whole,max_eq_right (Nat.le_add_left 1 _)]

end Counting

section Runs
variable {sizes : StreamSizes} {chunk : Chunk} {chunks : List Chunk}

/-- A chunk that is encrypted and passed to `base_socket`. -/
theorem sendChunks_passed (message iobuf : List Byte) (chunks : List Chunk) (encrypted : chunk.encrypted.ss = secOk)
    (made : chunk.err = 0) : ∃ output iobuf',
      sendChunks sizes ⟨message,message.length,iobuf⟩ (chunk :: chunks) =
        match chunk.sent with
        | none => some (passed [(message.take sizes.cbMaximumMessage,output)])
        | some err => do
          let rest ← sendPh2 err
            ⟨message.drop sizes.cbMaximumMessage,(message.drop sizes.cbMaximumMessage).length,iobuf'⟩
            (sendChunks sizes
              ⟨message.drop sizes.cbMaximumMessage,(message.drop sizes.cbMaximumMessage).length,iobuf'⟩ chunks)
          return passed [(message.take sizes.cbMaximumMessage,output)] ++ rest := by
  refine ⟨chunk.encrypted.output (fill sizes iobuf (message.take sizes.cbMaximumMessage)),
    chunk.encrypted.leaves (fill sizes iobuf (message.take sizes.cbMaximumMessage)),?_⟩
  rw [sendChunks,sendPh1_eq,if_neg (not_not_intro made),encrypted]
  cases chunk.sent <;> rfl

/-- A send as far as the record `k`: those before it went out, and the message goes on. -/
theorem sendChunks_reach (positive : 0 < sizes.cbMaximumMessage) (k : Nat) (chunks : List Chunk)
    (message iobuf : List Byte) (succeeds : ∀ chunk ∈ chunks, chunk.encrypted.ss = secOk ∧ chunk.err = 0)
    (below : k < recordCount sizes.cbMaximumMessage message.length)
    (sent : ∀ i < k, ∀ chunk ∈ chunks[i]?, chunk.sent = some 0) (found : chunk ∈ chunks[k]?)
    (last : chunk.sent = some 0 → k + 1 = recordCount sizes.cbMaximumMessage message.length) :
    ∃ records, sendChunks sizes ⟨message,message.length,iobuf⟩ chunks = some (passed records ++ ending chunk.sent) ∧
      records.map Prod.fst = (List.range (k + 1)).map (chunkAt sizes.cbMaximumMessage message) := by
  induction k generalizing chunks message iobuf with
  | zero =>
    obtain ⟨rest,rfl⟩ : ∃ rest, chunks = chunk :: rest := by
      cases chunks with
      | nil => cases found
      | cons first rest =>
        cases found
        exact ⟨rest,rfl⟩
    obtain ⟨encrypted,made⟩ := succeeds chunk List.mem_cons_self
    obtain ⟨output,iobuf',run⟩ := @sendChunks_passed sizes chunk message iobuf rest encrypted made
    refine ⟨[(message.take sizes.cbMaximumMessage,output)],?_,?_⟩
    · rw [run]
      cases done : chunk.sent with
      | none => rfl
      | some err =>
        by_cases failed : err = 0
        · subst failed
          have short : message.length ≤ sizes.cbMaximumMessage := by
            by_contra long
            have more := recordCount_more (Nat.lt_of_not_le long) positive
            have one : 1 ≤ recordCount sizes.cbMaximumMessage (message.length - sizes.cbMaximumMessage) :=
              le_max_left _ _
            have whole := last done
            omega
          rw [List.drop_of_length_le short]
          rfl
        · simp [sendPh2,failed,ending]
    · simp [chunkAt_zero]
  | succ k ih =>
    obtain ⟨first,rest,rfl⟩ : ∃ first rest, chunks = first :: rest := by
      cases chunks with
      | nil => cases found
      | cons first rest => exact ⟨first,rest,rfl⟩
    obtain ⟨encrypted,made⟩ := succeeds first List.mem_cons_self
    obtain ⟨output,iobuf',run⟩ := @sendChunks_passed sizes first message iobuf rest encrypted made
    have long : sizes.cbMaximumMessage < message.length := by
      by_contra short
      rw [recordCount_last (Nat.not_lt.mp short) positive] at below
      omega
    have count := recordCount_more long positive
    obtain ⟨records,ran,pieces⟩ := ih rest (message.drop sizes.cbMaximumMessage) iobuf'
      (fun chunk member => succeeds chunk (List.mem_cons_of_mem _ member))
      (by rw [List.length_drop]; omega)
      (fun i less chunk here => sent (i + 1) (Nat.succ_lt_succ less) chunk here) found
      (fun done => by rw [List.length_drop]; have whole := last done; omega)
    refine ⟨(message.take sizes.cbMaximumMessage,output) :: records,?_,?_⟩
    · have more : ((message.drop sizes.cbMaximumMessage).length : Int) > 0 := by
        rw [List.length_drop]
        omega
      rw [run,sent 0 (Nat.succ_pos k) first rfl]
      simp only [sendPh2,if_neg (not_not_intro rfl),if_pos more,ran]
      simp [passed]
    · have front : List.range (k + 1 + 1) = 0 :: (List.range (k + 1)).map Nat.succ := List.range_succ_eq_map
      rw [List.map_cons,pieces,front,List.map_cons,List.map_map,chunkAt_zero]
      exact congrArg (message.take sizes.cbMaximumMessage :: ·) (List.map_congr_left (fun i _ => (chunkAt_succ i).symm))

end Runs

end Xrossfire.Ssl
