import Xrossfire.Ssl.Settled
import Xrossfire.Library.Run
import Xrossfire.Library.Table

/-! The heap blocks of an SSL socket's receives. A receive may begin while the reads of others are under way; the
calls into the socket come one at a time, in any order. -/
namespace Xrossfire.Ssl.Memory
open Library Relation

/-- How a receive begins, up to `xf_socket_receive` on the base socket. -/
inductive Start
  | noContext (err : Int)
  | noStreamSizes
  | noIobuf (err : Int)
  | noAsync (err : Int)
  | started
deriving DecidableEq

/-- The part of `__xf_socket_receive` before the read completes. -/
def begin (body : Body) (length : Int) : Start → Option Received
  | .noContext err => receive body length (.error err)
  | .noStreamSizes => receive body length (.ok .noStreamSizes)
  | .noIobuf err => receive body length (.ok (.noIobuf err))
  | .noAsync err => receive body length (.ok (.noAsync err))
  | .started =>
    if body.receivedPos < body.receivedLength then copyFromBuffer body length
    else some ⟨{body with receivedBuffer := none},[],none,[.freeReceivedBuffer]⟩

def Start.blocks : Start → Nat
  | noContext _ => 0
  | noStreamSizes | noIobuf _ => 1
  | noAsync _ | started => 2

structure Reading where
  context : Nat
  iobuf : Nat
  length : Int
deriving DecidableEq

inductive Leak
  | noAsync
  | overwritten
  | destroyed
deriving DecidableEq

structure State where
  body : Body
  /-- The block of `body.receivedBuffer`. -/
  buffer : Option Nat
  reads : List Reading
  next : Nat
  frees : Nat → Nat
  destroyed : Bool
  /-- Blocks without a pointer, and whether reads were ever under way together; no code reads them. -/
  lost : List (Leak × Nat)
  overlapped : Bool

def free (frees : Nat → Nat) : Option Nat → Nat → Nat
  | none => frees
  | some b => Function.update frees b (frees b + 1)

namespace State

def act (r : Reading) (s : State) : Action → State
  | .freeReceivedBuffer => {s with frees := free s.frees s.buffer, buffer := none}
  | .freeContext => {s with frees := free s.frees (some r.context)}
  | .freeIobuf => {s with frees := free s.frees (some r.iobuf)}
  | .notify _ => s

def lose (s : State) (leak : Leak) (block : Option Nat) : State :=
  {s with lost := s.lost ++ (block.map (Prod.mk leak)).toList}

end State

inductive Event
  | receive (length : Int) (start : Start)
  | complete (i : Nat) (err : Int) (message : Option Decrypted)
  | destroy

def step (s : State) : Event → Option State
  | .receive length start =>
    if s.destroyed = true then none
    else do
      let r ← begin s.body length start
      if s.body.receivedPos < s.body.receivedLength then return {s with body := r.body}
      else
        let own : Reading := ⟨s.next,s.next + 1,length⟩
        let s' := r.actions.foldl (State.act own) {s with body := r.body, next := s.next + start.blocks}
        match start with
        | .started => return {s' with reads := s'.reads ++ [own], overlapped := s.overlapped || !s.reads.isEmpty}
        | .noAsync _ => return s'.lose .noAsync (some own.iobuf)
        | _ => return s'
  | .complete i err message => do
    let own ← s.reads[i]?
    let r ← receivePh2 s.body own.length err message
    let s :=
      if err = 0 ∧ message.isSome then {s.lose .overwritten s.buffer with buffer := some own.iobuf} else s
    return {r.actions.foldl (State.act own) s with body := r.body, reads := s.reads.eraseIdx i}
  | .destroy =>
    if s.destroyed = true ∨ s.reads ≠ [] then none
    else some {s.lose .destroyed s.buffer with buffer := none, destroyed := true}

def start : State := ⟨⟨none,0,0⟩,none,[],0,fun _ => 0,false,[],false⟩

def Reachable (s : State) : Prop := ReflTransGen (Permitted step (fun _ _ => True)) start s

def Reading.pointers (b : Nat) (r : Reading) : Nat := (if r.context = b then 1 else 0) + if r.iobuf = b then 1 else 0

namespace State

def pointers (s : State) (b : Nat) : Nat :=
  (if s.buffer = some b then 1 else 0) + (s.reads.map (Reading.pointers b)).sum

def losses (s : State) (b : Nat) : Nat := s.lost.countP (fun leak => leak.2 = b)

end State

structure Counted (s : State) : Prop where
  once : ∀ b, s.frees b + s.pointers b + s.losses b = if b < s.next then 1 else 0
  leftover : s.destroyed = false → s.body.receivedPos < s.body.receivedLength → s.buffer.isSome = true
  alone : s.overlapped = false → s.reads ≠ [] → s.reads.length = 1 ∧ s.buffer = none
  overwritten : s.overlapped = false → ∀ leak ∈ s.lost, leak.1 ≠ .overwritten

section
variable {s s' : State} {body : Body} {length err : Int} {start : Start} {r : Received} {own : Reading} {event : Event}
  {message : Option Decrypted}

theorem free_count (frees : Nat → Nat) (block : Option Nat) (b : Nat) :
    free frees block b = frees b + if block = some b then 1 else 0 := by
  cases block with
  | none => rfl
  | some a =>
    simp only [free,Function.update_apply,Option.some.injEq]
    by_cases same : a = b
    · subst same
      rw [if_pos rfl,if_pos rfl]
    · rw [if_neg same,if_neg (Ne.symm same)]
      rfl

/-- A receive and the completion of its read are the receive that waits for it. -/
theorem begin_completes (drained : ¬ body.receivedPos < body.receivedLength) :
    receive body length (.ok (.completed err message)) = (begin body length .started).bind (fun r =>
      (receivePh2 r.body length err message).map (fun r' => {r' with actions := r.actions ++ r'.actions})) := by
  rw [receive,begin,if_neg drained,if_neg drained,Option.bind_some,Option.map_eq_bind]
  rfl

/-- What a receive that finds no plaintext does before its read completes. -/
theorem begin_actions (drained : ¬ body.receivedPos < body.receivedLength) (run : begin body length start = some r) :
    r.body = {body with receivedBuffer := none} ∧ ∃ e, r.actions =
      match start with
      | .noContext _ => [.freeReceivedBuffer,.notify e]
      | .started => [.freeReceivedBuffer]
      | _ => [.freeReceivedBuffer,.freeContext,.notify e] := by
  cases start with
  | started =>
    rw [begin,if_neg drained] at run
    cases run
    exact ⟨rfl,0,rfl⟩
  | noContext _ | noStreamSizes | noIobuf _ | noAsync _ =>
    rw [begin,receive,if_neg drained] at run
    cases run
    exact ⟨rfl,_,rfl⟩

/-- What becomes of the blocks when a read has completed. -/
theorem completed_actions (run : receivePh2 body length err message = some r) :
    ((err = 0 ∧ message.isSome = true) ∧ r.actions = [.notify 0,.freeContext,.notify 0]) ∨
      (¬ (err = 0 ∧ message.isSome = true) ∧ r.body = body ∧ ∃ e, r.actions = [.freeIobuf,.freeContext,.notify e]) := by
  unfold receivePh2 at run
  split at run
  next failed =>
    cases run
    exact Or.inr ⟨fun ok => failed ok.1,rfl,err,rfl⟩
  next succeeded =>
    cases message with
    | none =>
      cases run
      exact Or.inr ⟨fun ok => absurd ok.2 Bool.false_ne_true,rfl,error,rfl⟩
    | some message =>
      obtain ⟨r',copied,same⟩ := Option.bind_eq_some_iff.mp run
      cases same
      refine Or.inl ⟨⟨Decidable.not_not.mp succeeded,rfl⟩,?_⟩
      rw [copyFromBuffer_actions copied]
      rfl

theorem lose_losses (s : State) (leak : Leak) (block : Option Nat) (b : Nat) :
    (s.lose leak block).losses b = s.losses b + if block = some b then 1 else 0 := by
  cases block with
  | none => simp [State.lose,State.losses]
  | some a => simp [State.lose,State.losses,List.countP_append,List.countP_cons]

theorem lose_others {leak : Leak} {block : Option Nat} (other : leak ≠ .overwritten ∨ block = none)
    (none : ∀ l ∈ s.lost, l.1 ≠ .overwritten) : ∀ l ∈ (s.lose leak block).lost, l.1 ≠ .overwritten := by
  intro l member
  rcases List.mem_append.mp member with old | new
  · exact none l old
  · cases block with
    | none => cases new
    | some b =>
      rw [List.mem_singleton.mp new]
      exact other.resolve_right (Option.some_ne_none b)

/-- A receive that finds plaintext copies it and leaves the blocks alone. -/
theorem Counted.copy (counted : Counted s) (left : s.body.receivedPos < s.body.receivedLength) :
    Counted {s with body := body} := by
  by_cases whole : s.destroyed = false
  · exact ⟨counted.once,fun _ _ => counted.leftover whole left,counted.alone,counted.overwritten⟩
  · exact ⟨counted.once,fun intact => absurd intact whole,counted.alone,counted.overwritten⟩

theorem Counted.begin (counted : Counted s) (drained : ¬ s.body.receivedPos < s.body.receivedLength)
    (run : begin s.body length start = some r) (whole : s.destroyed = false)
    (step : step s (.receive length start) = some s') : Counted s' := by
  obtain ⟨body,e,actions⟩ := begin_actions drained run
  have unread : ¬ r.body.receivedPos < r.body.receivedLength := by
    rw [body]
    exact drained
  simp only [Memory.step,whole,Bool.false_eq_true,if_false,run,Option.bind_eq_bind,Option.bind_some,if_neg drained]
    at step
  cases start with
  | noContext _ | noStreamSizes | noIobuf _ =>
    simp only [actions,List.foldl_cons,List.foldl_nil,State.act] at step
    cases step
    refine ⟨fun b => ?_,fun _ left => absurd left unread,fun apart reads => ⟨(counted.alone apart reads).1,rfl⟩,
      counted.overwritten⟩
    have once := counted.once b
    simp only [State.pointers,State.losses,free_count,Start.blocks,Option.some.injEq,reduceCtorEq,if_false,
      Nat.add_zero] at once ⊢
    grind
  | noAsync _ =>
    simp only [actions,List.foldl_cons,List.foldl_nil,State.act] at step
    cases step
    refine ⟨fun b => ?_,fun _ left => absurd left unread,fun apart reads => ⟨(counted.alone apart reads).1,rfl⟩,
      fun apart => lose_others (Or.inl (by simp)) (counted.overwritten apart)⟩
    have once := counted.once b
    rw [lose_losses]
    simp only [State.lose,State.pointers,State.losses,free_count,Start.blocks,Option.some.injEq,reduceCtorEq,
      if_false] at once ⊢
    grind
  | started =>
    simp only [actions,List.foldl_cons,List.foldl_nil,State.act] at step
    cases step
    have first : (s.overlapped || !s.reads.isEmpty) = false → s.reads = [] := by simp
    refine ⟨fun b => ?_,fun _ left => absurd left unread,fun apart _ => ⟨?_,rfl⟩,fun apart => ?_⟩
    · have once := counted.once b
      simp only [State.pointers,State.losses,free_count,Start.blocks,reduceCtorEq,if_false,List.map_append,
        List.map_cons,List.map_nil,List.sum_append,List.sum_cons,List.sum_nil,Reading.pointers] at once ⊢
      grind
    · rw [first apart]
      rfl
    · exact counted.overwritten (Bool.or_eq_false_iff.mp apart).1

theorem Counted.complete (counted : Counted s) {i : Nat} (here : s.reads[i]? = some own)
    (run : receivePh2 s.body own.length err message = some r)
    (step : Memory.step s (.complete i err message) = some s') : Counted s' := by
  simp only [Memory.step,here,run,Option.bind_eq_bind,Option.bind_some] at step
  have some : s.reads ≠ [] := fun none => by simp [none] at here
  have last : s.reads.length = 1 → s.reads.eraseIdx i = [] := by
    intro one
    obtain ⟨low,-⟩ := List.getElem?_eq_some_iff.mp here
    apply List.length_eq_zero_iff.mp
    rw [List.length_eraseIdx_of_lt low,one]
  rcases completed_actions run with ⟨ok,actions⟩ | ⟨failed,body,e,actions⟩
  · rw [if_pos ok] at step
    simp only [actions,List.foldl_cons,List.foldl_nil,State.act] at step
    cases step
    refine ⟨fun b => ?_,fun _ _ => rfl,fun apart more => ?_,fun apart => ?_⟩
    · have once := counted.once b
      have lost := lose_losses s .overwritten s.buffer b
      have sum := sum_entry (Reading.pointers b) here
      simp only [State.pointers,State.losses,State.lose,free_count,Reading.pointers] at once lost sum ⊢
      grind
    · exact absurd (last (counted.alone apart some).1) more
    · exact lose_others (Or.inr (counted.alone apart some).2) (counted.overwritten apart)
  · rw [if_neg failed] at step
    simp only [actions,List.foldl_cons,List.foldl_nil,State.act] at step
    cases step
    refine ⟨fun b => ?_,?_,fun apart more => ?_,counted.overwritten⟩
    · have once := counted.once b
      have sum := sum_entry (Reading.pointers b) here
      simp only [State.pointers,State.losses,free_count,Reading.pointers] at once sum ⊢
      grind
    · rw [body]
      exact counted.leftover
    · exact absurd (last (counted.alone apart some).1) more

theorem Counted.destroy (counted : Counted s) (idle : s.reads = []) :
    Counted {s.lose .destroyed s.buffer with buffer := none, destroyed := true} := by
  refine ⟨fun b => ?_,fun whole => absurd whole (by simp),fun _ some => absurd idle some,fun apart => ?_⟩
  · have once := counted.once b
    have lost := lose_losses s .destroyed s.buffer b
    simp only [State.pointers,State.losses,State.lose] at once lost ⊢
    grind
  · exact lose_others (Or.inl (by simp)) (counted.overwritten apart)

theorem Counted.step (counted : Counted s) (step : Memory.step s event = some s') : Counted s' := by
  cases event with
  | receive length start =>
    have run := step
    simp only [Memory.step,Option.ite_none_left_eq_some,Bool.not_eq_true] at run
    obtain ⟨whole,run⟩ := run
    obtain ⟨r,begun,run⟩ := Option.bind_eq_some_iff.mp run
    by_cases left : s.body.receivedPos < s.body.receivedLength
    · rw [if_pos left] at run
      cases run
      exact counted.copy left
    · exact counted.begin left begun whole step
  | complete i err message =>
    obtain ⟨own,here,run⟩ := Option.bind_eq_some_iff.mp step
    obtain ⟨r,completed,-⟩ := Option.bind_eq_some_iff.mp run
    exact counted.complete here completed step
  | destroy =>
    simp only [Memory.step,Option.ite_none_left_eq_some,not_or,not_not] at step
    obtain ⟨⟨-,idle⟩,step⟩ := step
    cases step
    exact counted.destroy idle

theorem start_counted : Counted Memory.start where
  once _ := rfl
  leftover _ left := absurd left (Int.lt_irrefl 0)
  alone _ some := absurd rfl some
  overwritten _ _ member := absurd member List.not_mem_nil

/-- Every block is freed once, or one pointer leads to it, or it is lost; what the socket still reads is there, and
without overlapping reads no buffer is overwritten. -/
structure Owned (s : State) : Prop where
  once : ∀ b < s.next, s.frees b + s.pointers b + s.losses b = 1
  leftover : s.destroyed = false → s.body.receivedPos < s.body.receivedLength →
    ∃ b, s.buffer = some b ∧ s.frees b = 0
  reads : ∀ own ∈ s.reads, s.frees own.context = 0 ∧ s.frees own.iobuf = 0
  overwritten : s.overlapped = false → ∀ leak ∈ s.lost, leak.1 ≠ .overwritten

theorem Counted.unfreed {b : Nat} (counted : Counted s) (pointed : 0 < s.pointers b) : s.frees b = 0 := by
  have once := counted.once b
  split_ifs at once <;> omega

theorem reachable_owned (run : Reachable s) : Owned s := by
  have counted : Counted s := by
    apply run_invariant _ run start_counted
    intro s s' counted next
    obtain ⟨event,-,next⟩ := next
    exact counted.step next
  refine ⟨fun b low => ?_,fun whole left => ?_,fun own member => ?_,counted.overwritten⟩
  · exact (counted.once b).trans (if_pos low)
  · obtain ⟨b,buffer⟩ := Option.isSome_iff_exists.mp (counted.leftover whole left)
    refine ⟨b,buffer,counted.unfreed ?_⟩
    rw [State.pointers,if_pos buffer]
    omega
  · obtain ⟨i,here⟩ := List.mem_iff_getElem?.mp member
    constructor
    · apply counted.unfreed
      rw [State.pointers,sum_entry _ here,Reading.pointers,if_pos rfl]
      omega
    · apply counted.unfreed
      rw [State.pointers,sum_entry _ here,Reading.pointers,if_pos (Eq.refl own.iobuf)]
      omega

end

def message : Decrypted := ⟨[1,2],0,2⟩

/-- Two reads under way together, of which the second buffer takes the place of the first. -/
def overlapping : List Event :=
  [.receive 1 .started,.receive 2 .started,.complete 0 0 (some message),.complete 0 0 (some message),
    .receive 5 (.noAsync 1),.destroy]

theorem reachable_owned_overlapping : ∃ s, Reachable s ∧ s.destroyed = true ∧
    s.lost = [(.overwritten,1),(.noAsync,5)] ∧ Owned s := by
  obtain ⟨s,run,holds⟩ : ∃ s, Reachable s ∧ decide (s.destroyed = true ∧
      s.lost = [(.overwritten,1),(.noAsync,5)]) = true :=
    perform_reachable overlapping (by decide)
  obtain ⟨destroyed,lost⟩ := of_decide_eq_true holds
  exact ⟨s,run,destroyed,lost,reachable_owned run⟩

end Xrossfire.Ssl.Memory
