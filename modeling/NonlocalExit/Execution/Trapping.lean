import NonlocalExit.Execution.Threads

/-!
# Trapping fault signals

While trapping is on, a fault is raised as an exception on the thread that met it; otherwise it
kills the process.  The switch and the dispositions of the four fault signals are changed together.
What the language's runtime has set up for a signal before is replaced by that and not put back.
-/

namespace NonlocalExit

variable [Declarations]

/-- What comes of a signal that announces a fault. -/
inductive Reception
  /-- It is held back from the thread, which goes on. -/
  | held
  /-- The process is stopped. -/
  | stopped (h : Halt)
  /-- The handler of the language's runtime gives it its default back, and the thread goes on. -/
  | dismissed
  /-- It is raised as an exception, and held back from then on if it is to be deferred. -/
  | trapped (deferred : Bool)
  deriving DecidableEq, Repr

namespace Machine

/-- How a fault is received.  A fault that an instruction has met can neither be held back nor be
dismissed: the thread would not get beyond that instruction. -/
def reception (cause : FaultCause) (m : Machine) : Reception :=
  if cause.signal ∈ m.thread.blocked then
    if cause.isSent then .held else .stopped (.killed cause.signal)
  else
    match m.shared.dispositions cause.signal with
    | .kill => .stopped (.killed cause.signal)
    | .trap deferred => .trapped deferred
    | .report =>
      if m.shared.overflows cause.address then .stopped .aborted
      else if cause.isSent then .dismissed else .stopped (.killed cause.signal)

end Machine

namespace Effect

/-- Sets the disposition of a fault signal. -/
def setDisposition (d : Disposition) (signal : FaultSignal) : Effect Unit :=
  modifyShared fun s =>
    { s with dispositions := fun t => if t = signal then d else s.dispositions t }

/-- Sets the dispositions of fault signals one after another. -/
def setDispositions (d : Disposition) : List FaultSignal → Effect Unit
  | [] => pure ()
  | signal :: rest => do
    setDisposition d signal
    setDispositions d rest

/-- Switches trapping on or off.  The handler never returns, so no signal is deferred by it. -/
def setTrapping (enabled : Bool) : Effect Unit := do
  setDispositions (if enabled then .trap false else .kill) FaultSignal.all
  modifyShared fun s => { s with trapping := enabled }
  log (.trapping enabled)

/-- Enters the handler that raises a fault as an exception. -/
def enterTrap (deferred : Bool) (signal : FaultSignal) : Effect Unit :=
  modifyThread fun t => { t with blocked := if deferred then signal :: t.blocked else t.blocked }

/-- Meets a fault. -/
def meetFault (exec : Executor) (cause : FaultCause) : Effect Unit := do
  match (← machine).reception cause with
  | .held => pure ()
  | .stopped h => halt h
  | .dismissed => setDisposition .kill cause.signal
  | .trapped deferred => do
    enterTrap deferred cause.signal
    never (raise exec cause.fault.toValue)

/-- Whether each fault signal has its default disposition. -/
def defaultDispositions : Effect (List (FaultSignal × Bool)) := do
  let dispositions := (← machine).shared.dispositions
  pure <| FaultSignal.all.map fun s => (s, dispositions s == .kill)

/-- Switches trapping on, or off if it is on. -/
def requestTrapping (enabled : Bool) : Effect Unit := do
  let before := (← machine).shared.trapping
  if enabled then setTrapping true
  else if before then setTrapping false
  else pure ()

/-- Puts settings into force. -/
def applySettings (settings : Settings) : Effect Unit := do
  modifyShared fun s => { s with forceBacktrace := settings.backtrace }
  requestTrapping settings.catchFaults
  log (.settingsApplied settings)

/-- Puts settings into force and declares the thread initialised. -/
def initialise (settings : Settings) : Effect Unit := do
  applySettings settings
  declareThread
  log .initialised

end Effect

end NonlocalExit
