import RealmFormal.Lib.Interaction
import RealmFormal.NodeAttest.Server

/-!
# What the plugin adapters share

gRPC status errors, the errors of contexts, the stage and reason an error is
reported under, and the receive that gives up when a context ends.
-/

namespace RealmFormal.NodeAttest
open Go Interaction
set_option autoImplicit false

/-- The status codes that the adapters use; an error without a status has code `unknown`. -/
inductive Code where
  | canceled | unknown | invalidArgument | deadlineExceeded | failedPrecondition | internal
  | unauthenticated
  deriving DecidableEq, Repr

def Code.text : Code → String
  | .canceled => "Canceled"
  | .unknown => "Unknown"
  | .invalidArgument => "InvalidArgument"
  | .deadlineExceeded => "DeadlineExceeded"
  | .failedPrecondition => "FailedPrecondition"
  | .internal => "Internal"
  | .unauthenticated => "Unauthenticated"

/-- An error as its users can tell errors apart: its text, what `errors.Is` answers for
`context.Canceled`, `context.DeadlineExceeded` and `io.EOF`, its status code, and the
`observationError` that `errors.As` finds in it. -/
structure GoError where
  text : String
  canceled : Bool
  deadline : Bool
  eof : Bool
  code : Code
  observed : Option (Stage × Reason)
  deriving DecidableEq

/-- `status.Error` and `status.FromContextError(err).Err()` of the gRPC library; `errors.Is` takes
no error of the second for `io.EOF`. -/
class StatusPackage where
  statusError : Code → String → GoError
  fromContextError : CtxErr → GoError
  fromContextError_eof (e : CtxErr) : (fromContextError e).eof = false

/-- A status error with the text that the library prints. -/
def plainError (code : Code) (message : String) : GoError where
  text := "rpc error: code = " ++ code.text ++ " desc = " ++ message
  canceled := false
  deadline := false
  eof := false
  code := code
  observed := none

instance plainStatus : StatusPackage where
  statusError := plainError
  fromContextError
    | .canceled => plainError .canceled CtxErr.canceled.text
    | .deadlineExceeded => plainError .deadlineExceeded CtxErr.deadlineExceeded.text
  fromContextError_eof e := by cases e <;> rfl

open StatusPackage
variable [StatusPackage]

def attestationError (ctxErr : Option CtxErr) (code : Code) (message : String) : GoError :=
  match ctxErr with
  | some e => fromContextError e
  | none => statusError code message

/-- `classifyError`, with what `ctx.Err()` answers. -/
def classifyError (ctxErr : Option CtxErr) (err : GoError) (stage : Stage) (reason : Reason) :
    Stage × Reason :=
  let found := err.observed.getD (stage, reason)
  if err.canceled ∨ ctxErr = some .canceled ∨ err.code = .canceled then (found.1, .canceled)
  else if err.deadline ∨ ctxErr = some .deadlineExceeded ∨ err.code = .deadlineExceeded then
    (found.1, .deadline)
  else found

def checkTrustDomain (core trustDomain : Bytes) : Except GoError Unit :=
  if trustDomain = [] ∨ core ≠ trustDomain then
    .error (statusError .invalidArgument "JSON trust_domain must match the SPIRE trust domain")
  else .ok ()

/-! ## Receiving -/

/-- What the `select` of a receive takes: a context that is done, or what `recv` returned. -/
inductive Arrival (T : Type) where
  | ctxDone (e : CtxErr)
  | streamDone (e : CtxErr)
  | completed (result : Except GoError T)

section Receive
variable {Op : Type} {Ans : Op → Type} {T : Type}

/-- `receivePluginMessage`: the two contexts are asked for `Err` before and after `select`. -/
def receivePluginMessage (ctx streamCtx : Prog Op Ans (Option CtxErr))
    (select : Prog Op Ans (Arrival T)) : Prog Op Ans (Except GoError T) := do
  if let some e ← ctx then
    return .error (fromContextError e)
  if let some e ← streamCtx then
    return .error (fromContextError e)
  match ← select with
  | .ctxDone e => return .error (fromContextError e)
  | .streamDone e => return .error (fromContextError e)
  | .completed result =>
    if let some e ← ctx then
      return .error (fromContextError e)
    if let some e ← streamCtx then
      return .error (fromContextError e)
    return result

/-- The traces of a receive whose requests show as the events `ctx`, `stream` and `select`. -/
inductive Received {E : Type} (ctx stream : Option CtxErr → E) (select : Arrival T → E) :
    List E → Except GoError T → Prop where
  | ctxEnded (e : CtxErr) :
      Received ctx stream select [ctx (some e)] (.error (fromContextError e))
  | streamEnded (e : CtxErr) :
      Received ctx stream select [ctx none, stream (some e)] (.error (fromContextError e))
  | ctxDone (e : CtxErr) :
      Received ctx stream select [ctx none, stream none, select (.ctxDone e)]
        (.error (fromContextError e))
  | streamDone (e : CtxErr) :
      Received ctx stream select [ctx none, stream none, select (.streamDone e)]
        (.error (fromContextError e))
  | ctxLate (result : Except GoError T) (e : CtxErr) :
      Received ctx stream select
        [ctx none, stream none, select (.completed result), ctx (some e)]
        (.error (fromContextError e))
  | streamLate (result : Except GoError T) (e : CtxErr) :
      Received ctx stream select
        [ctx none, stream none, select (.completed result), ctx none, stream (some e)]
        (.error (fromContextError e))
  | taken (result : Except GoError T) :
      Received ctx stream select
        [ctx none, stream none, select (.completed result), ctx none, stream none] result

theorem receivePluginMessage_received {ctx streamCtx : Prog Op Ans (Option CtxErr)}
    {select : Prog Op Ans (Arrival T)} {c s : Option CtxErr → Event Op Ans}
    {a : Arrival T → Event Op Ans} (hctx : ctx.Sat fun t r => t = [c r])
    (hstream : streamCtx.Sat fun t r => t = [s r]) (hselect : select.Sat fun t r => t = [a r]) :
    (receivePluginMessage ctx streamCtx select).Sat (Received c s a) := by
  refine hctx.bind ?_
  rintro _ (_ | e) rfl
  · refine hstream.bind ?_
    rintro _ (_ | e) rfl
    · refine hselect.bind ?_
      rintro _ (e | e | result) rfl
      · exact Received.ctxDone e
      · exact Received.streamDone e
      · refine hctx.bind ?_
        rintro _ (_ | e) rfl
        · refine hstream.bind ?_
          rintro _ (_ | e) rfl
          · exact Received.taken result
          · exact Received.streamLate result e
        · exact Received.ctxLate result e
    · exact Received.streamEnded e
  · exact Received.ctxEnded e

theorem receivePluginMessage_blind {same : (op : Op) → Ans op → Ans op → Prop}
    {ctx streamCtx : Prog Op Ans (Option CtxErr)} {select : Prog Op Ans (Arrival T)}
    (hctx : ctx.Blind same) (hstream : streamCtx.Blind same) (hselect : select.Blind same) :
    (receivePluginMessage ctx streamCtx select).Blind same := by
  refine Prog.blind_bind hctx ?_
  rintro (_ | e)
  · refine Prog.blind_bind hstream ?_
    rintro (_ | e)
    · refine Prog.blind_bind hselect ?_
      rintro (e | e | result)
      · exact Prog.blind_pure _
      · exact Prog.blind_pure _
      · refine Prog.blind_bind hctx ?_
        rintro (_ | e)
        · refine Prog.blind_bind hstream ?_
          rintro (_ | e) <;> exact Prog.blind_pure _
        · exact Prog.blind_pure _
    · exact Prog.blind_pure _
  · exact Prog.blind_pure _

end Receive

end RealmFormal.NodeAttest
