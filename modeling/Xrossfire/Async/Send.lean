import Xrossfire.Async.Machine

/-! The calls that sending a message over an SSL socket makes on asyncs. -/
namespace Xrossfire.Async

/-- `context->send_length` when the completed callback of the child `a` begins: each run of
`xf_ssl_socket_send_ph1` has taken off up to `limit` bytes and made one child. -/
def sendLength (limit length : Nat) (p : Id) (w : World) (a : Id) : Nat :=
  length - limit * (List.range (a + 1)).countP (fun b => (w.asyncs b).parent = some p)

/-- `xf_ssl_socket_send_ph1`: the call at `pc`; `malloc` and `err` say how `xf_async_new` comes out. -/
def sendPh1 (parent : Id) (malloc : Bool) (err : Error) (pc : Nat) (last : Option Id) : Action :=
  match pc,last with
  | 0,_ => .new .async true (some parent) malloc
  | 1,some async => .call async (.operation .send)
  | 1,none => .call parent (.notify err)
  | _,_ => .finish 0

/-- `xf_ssl_socket_send_ph2`, the completed callback of each child. -/
def sendPh2 (length : Nat) (parent : Id) (e : Error) (malloc : Bool) (err : Error) (pc : Nat)
    (last : Option Id) : Action :=
  if e ≠ 0 then if pc = 0 then .call parent (.notify e) else .finish 0
  else if 0 < length then sendPh1 parent malloc err pc last
  else if pc = 0 then .call parent (.notify 0) else .finish 0

namespace Action

def malloc : Action → Bool
  | .new _ _ _ malloc => malloc
  | _ => false

def passed : Action → Error
  | .call _ (.notify e) => e
  | _ => 0

end Action

def Outside (p : Id) (w : World) : Action → Prop
  | .new kind timed (some parent) _ => parent = p →
    kind = .async ∧ timed ∧ ∀ a < w.next, (w.asyncs a).parent ≠ some p
  | .waitNew (some parent) _ => parent ≠ p
  | _ => True

instance (p : Id) (w : World) (action : Action) : Decidable (Outside p w action) :=
  match action with
  | .new _ _ (some _) _ => inferInstanceAs (Decidable (_ → _))
  | .waitNew (some _) _ => inferInstanceAs (Decidable (_ ≠ _))
  | .new _ _ none _ | .waitNew none _ | .call _ _ | .store _ | .finish _ => isTrue trivial

def Code (limit length : Nat) (p : Id) (w : World) (action : Action) (f : Frame) : Prop :=
  match f with
  | .user (.completed a e) pc last =>
    if (w.asyncs a).parent = some p then
      action = sendPh2 (sendLength limit length p w a) p e action.malloc action.passed pc last
    else Outside p w action
  | _ => Outside p w action

instance (limit length : Nat) (p : Id) (w : World) (action : Action) (f : Frame) :
    Decidable (Code limit length p w action f) := by
  unfold Code
  match f with
  | .user .main .. | .user (.completed ..) .. | .user (.procedure ..) .. | .user (.entered _) .. | .notify ..
  | .notifyKind .. | .asyncNotify .. | .complete .. | .waitNotify .. | .runNextPhase .. | .phaseReturned ..
  | .errorReturned .. | .release .. | .destroy _ | .unlink .. | .link .. | .clear _ | .cancel _ | .cancelEnter _
  | .cancelTarget _ | .timeout _ | .enter .. | .unlock _ | .start .. | .leave .. | .newRef _ | .newArm _
  | .wait _ | .operation .. | .acceptEx _ | .connectPhase1 .. | .connectAsync _ | .completed .. => infer_instance

/-- Runs in which a message of `length` bytes is sent with the parent `p`, in chunks of at most `limit`. -/
def Sending (limit length : Nat) (p : Id) (c : Config) : Event → Prop
  | .run thread (.acts action) => ∀ f ∈ c.top thread, Code limit length p c.world action f
  | _ => True

instance (limit length : Nat) (p : Id) (c : Config) (event : Event) : Decidable (Sending limit length p c event) :=
  match event with
  | .run _ (.acts _) => inferInstanceAs (Decidable (∀ f ∈ _, _))
  | .run _ .ok | .run _ (.fails _) | .spawn | .arise _ _ => isTrue trivial

end Xrossfire.Async
