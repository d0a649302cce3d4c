import NonlocalExit.Execution.Recovery
import NonlocalExit.Execution.Trapping
import NonlocalExit.Execution.TryBlock

/-!
# Running scripts

What each statement does, one step of each job, and the execution of jobs by iteration of the
step.  A script may fail to end, because a hook may call itself through another thread; so the
execution is bounded by `fuel`, and a run that reaches the bound halts with `outOfFuel`.
-/

namespace NonlocalExit

variable [Declarations]

open Effect

/-- Runs a block a number of times. -/
def Effect.times (x : Effect Unit) : Nat → Effect Unit
  | 0 => pure ()
  | n + 1 => do
    x
    Effect.times x n

namespace Stmt

/-- What a statement does. -/
def perform (exec : Executor) : Stmt → Effect Unit
  | emit message => report (.emitted message)
  | state => do report (.state (← depth) (← current))
  | repeated n body => Effect.times (exec (.block body)) n
  | throw v => never (Effect.throw exec v)
  | rethrow => never (Effect.rethrow exec)
  | attempt body clauses => TryBlock.declare exec body clauses
  | setHook kind hook => Effect.setHook kind hook
  | setHooks onThrow onUnhandled onUnexpected => do
    Effect.setHook .onThrow onThrow
    Effect.setHook .onUnhandled onUnhandled
    Effect.setHook .onUnexpected onUnexpected
  | hooks => do
    let h ← Effect.hooks
    report (.hooks h.onThrow.isSome h.onUnhandled.isSome h.onUnexpected.isSome)
  | scope body => Effect.scope exec (exec (.block body))
  | defer body => Effect.defer exec none body
  | deferWith a body => do
    Effect.defer exec (some a) body
    report (.deferred a)
  | enter name => do hold ⟨name, ← enterFrame⟩
  | leave name => do
    match ← releaseGuard name with
    | some g => leaveFrame exec g.frame
    | none => pure ()
  | leak name => do
    let _ ← releaseGuard name
    pure ()
  | initThread => declareThread
  | panic none => report .notAnErrorCode
  | panic (some code) => never (Effect.panic exec code)
  | recover value body => do
    match ← Effect.recover (exec (.block body)) with
    | none => report (.completed value)
    | some code => report (.recovered code)
  | exit status => never (exitThread status)
  | run status body => do
    report (.ran (← runBody exec (threadBody exec status body)))
  | spawn status name stackSize body => do
    report (.spawned (← Effect.spawn exec status name stackSize body))
  | rawThread status body => do report (.joined (← runPlain exec status body))
  | foreign message => unwind (.foreign message)
  | intercept body => do
    match ← catchUnwind (exec (.block body)) with
    | .ok () => report (.intercepted none)
    | .error t => report (.intercepted (some t.result))
  | exitProcess status => Effect.exitProcess exec status
  | trapFaults enabled => do
    setTrapping enabled
    report (.trapping enabled)
  | signals => do
    let enabled := (← machine).shared.trapping
    report (.signals enabled (← defaultDispositions))
  | fault cause => meetFault exec cause
  | apply none | init none => report .settingsInvalid
  | apply (some settings) => do
    applySettings settings
    report .applied
  | init (some settings) => do
    initialise settings
    report .initialised

/-- Runs statements one after another. -/
def performAll (exec : Executor) : List Stmt → Effect Unit
  | [] => pure ()
  | s :: rest => do
    s.perform exec
    performAll exec rest

end Stmt

namespace Job

/-- One step of a job. -/
def step (exec : Executor) : Job → Effect Unit
  | block body => asBlock exec (Stmt.performAll exec body)
  | close id => closeStep exec id
  | closeAbove base => closeAboveStep exec base
  | walk code => walkStep exec code

/-- The execution of jobs in at most `fuel` nested steps. -/
def run : (fuel : Nat) → Executor
  | 0 => fun _ => halt .outOfFuel
  | fuel + 1 => step (run fuel)

end Job

end NonlocalExit
