import NonlocalExit.Execution.Exceptions

/-!
# Panic and recover

A call of `recover` marks the innermost frame with a token of its own for as long as it runs.  A
panic closes frames from the innermost outward until it meets a marked one, and then unwinds to the
owner of the token.  When no frame is marked, the panic is reported and the thread ends with the
error code as its status.
-/

namespace NonlocalExit

variable [Declarations]

namespace Effect

/-- Replaces the recovery mark of a frame and gives the mark it had. -/
def swapMark (id : Nat) (mark : Option Nat) : Effect (Option Nat) :=
  withFrames (·.swapMark id mark)

/-- A token that no other call of `recover` has. -/
def freshToken : Effect Nat := do
  let token := (← machine).shared.nextToken
  modifyShared fun s => { s with nextToken := token + 1 }
  pure token

/-- Stops the panics that carry a given token. -/
def settle (token : Nat) (body : Effect Unit) : Effect (Option ErrorCode) := do
  match ← catchUnwind body with
  | .ok () => pure none
  | .error (.panicking code owner) =>
    if owner = token then
      log (.recovered code)
      pure (some code)
    else unwind (.panicking code owner)
  | .error t => unwind t

/-- Runs an effect and stops the panics that aim at it.  The error code of such a panic comes out,
and nothing when the effect returns. -/
def recover (body : Effect Unit) : Effect (Option ErrorCode) := do
  let token ← freshToken
  let frame ← innermostOrRoot
  let previous ← swapMark frame (some token)
  let outer := (← machine).thread.recovering
  modifyThread fun t => { t with recovering := ⟨token, frame⟩ :: outer }
  onExit (settle token body) do
    let _ ← swapMark frame previous
    modifyThread fun t => { t with recovering := outer }

/-- One step of a panic's way outward. -/
def walkStep (exec : Executor) (code : ErrorCode) : Effect Unit := do
  match ← innermost with
  | none => pure ()
  | some f =>
    match f.mark with
    | some token => unwind (.panicking code token)
    | none =>
      step (.passed f.id)
      exec (.close f.id)
      exec (.walk code)

/-- Panics. -/
def panic (exec : Executor) (code : ErrorCode) : Effect Empty := do
  log (.panicking code)
  exec (.walk code)
  diagnose (.panic code)
  diagnose (if (← machine).shared.forceBacktrace then .backtrace else .noBacktrace)
  exitThread code.value

end Effect

end NonlocalExit
