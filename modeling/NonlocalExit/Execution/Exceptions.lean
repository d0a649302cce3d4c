import NonlocalExit.Execution.Cleanups

/-!
# Throwing

A throw stores the exception in the thread's record, calls the throw hook and unwinds to the
innermost try block.  Outside every try block the exception is unhandled, and an exception that
escapes where none may escape is unexpected; both end the thread.

Hooks are called under guard: an exception that escapes a hook is noticed there and taken for
unexpected, and other unwinds pass.
-/

namespace NonlocalExit

variable [Declarations]

namespace Effect

variable {α : Type}

/-- The exception in the thread's record. -/
def current : Effect (Option Exception) := do
  pure (← machine).thread.current

/-- Stores an exception in the thread's record, or clears it. -/
def setCurrent (e : Option Exception) : Effect Unit :=
  modifyThread fun t => { t with current := e }

/-- The number of try blocks and guarded calls that the thread is inside. -/
def depth : Effect Nat := do
  pure (← machine).thread.depth

/-- The hooks that are set. -/
def hooks : Effect Hooks := do
  pure (← machine).shared.hooks

/-- Sets or removes a hook. -/
def setHook (kind : HookKind) (hook : Option Block) : Effect Unit :=
  modifyShared fun s => { s with hooks := s.hooks.set kind hook }

/-- Runs an effect one level deeper, and comes back to the level before however it ends.  The effect
is given the level outside. -/
def protect (body : Nat → Effect α) : Effect α := do
  let link ← depth
  modifyThread fun t => { t with depth := link + 1 }
  step (.protectedFrom link)
  onExit (body link) do
    modifyThread fun t => { t with depth := link }
    step (.protectedUntil link)

/-- Runs an effect under guard and says whether an exception escaped it. -/
def guarded (body : Effect Unit) : Effect Bool :=
  protect fun _ => do
    pure (← capture body).isSome

/-- Calls a hook. -/
def callHook (exec : Executor) (kind : HookKind) (hook : Block) (e : Exception) : Effect Unit := do
  report (.hook kind e)
  onExit (exec (.block hook)) (step (.hookEnded kind))

/-! ## The end of a thread -/

/-- Ends the thread with a status. -/
def exitThread (status : Int32) : Effect Empty := do
  log (.threadExit status)
  unwind (.threadExit status)

/-- Ends the thread after an exception that nobody handled. -/
def abandon : Effect Empty := do
  setCurrent none
  exitThread exitFailure

/-- Prints that the exception in the record was unexpected, and ends the thread. -/
def failUnexpected : Effect Empty := do
  diagnose (.unexpected ((← current).map (·.tag)))
  abandon

/-- Takes the exception in the record for unexpected.  A hook that throws is removed, and what it
threw is unexpected in turn. -/
def unexpected (exec : Executor) : Effect Empty := do
  match (← hooks).onUnexpected, ← current with
  | some hook, some e =>
    if ← guarded (callHook exec .onUnexpected hook e) then
      log .hookThrew
      setHook .onUnexpected none
      failUnexpected
    else abandon
  | _, _ => failUnexpected

/-- Takes the exception in the record for unhandled. -/
def unhandled (exec : Executor) : Effect Empty := do
  match (← hooks).onUnhandled, ← current with
  | some hook, some e =>
    if ← guarded (callHook exec .onUnhandled hook e) then unexpected exec
    else abandon
  | _, e =>
    diagnose (.unhandled (e.map (·.tag)))
    abandon

/-! ## Dispatch -/

/-- Runs the throw hook; meanwhile no other call of it is made. -/
def runThrowHook (exec : Executor) (hook : Block) (e : Exception) : Effect Unit := do
  modifyThread fun t => { t with hookRunning := true }
  onExit (callHook exec .onThrow hook e) (modifyThread fun t => { t with hookRunning := false })

/-- Calls the throw hook, unless one runs already. -/
def callThrowHook (exec : Executor) : Effect Unit := do
  match (← hooks).onThrow, (← machine).thread.hookRunning, ← current with
  | some hook, false, some e =>
    if ← guarded (runThrowHook exec hook e) then never (unexpected exec)
    else pure ()
  | _, _, _ => pure ()

/-- Writes down that an exception starts to look for a try block. -/
def noteDispatch : Option Exception → Effect Unit
  | some e => step (.dispatched e)
  | none => pure ()

/-- Sends the exception in the record to the innermost try block. -/
def dispatch (exec : Executor) : Effect Empty := do
  noteDispatch (← current)
  callThrowHook exec
  if (← depth) > 0 then unwind .thrown
  else unhandled exec

/-- Raises a value as an exception. -/
def raise (exec : Executor) (v : Value) : Effect Empty := do
  setCurrent (some (.of v))
  dispatch exec

/-- Throws a value. -/
def throw (exec : Executor) (v : Value) : Effect Empty := do
  log (.throwing v.type.tag)
  raise exec v

/-- Throws the exception in the record again. -/
def rethrow (exec : Executor) : Effect Empty := do
  match ← current with
  | none =>
    log .rethrowWithoutException
    unexpected exec
  | some _ =>
    if (← depth) = 0 then unhandled exec
    else unwind .rethrown

end Effect

end NonlocalExit
