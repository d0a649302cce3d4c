import NonlocalExit.Execution.Exceptions

/-!
# Threads

A thread body is run in a session: the session owns the frames that are opened from its start, and
closes those that are still open at its end.  The end of the thread, asked for inside, becomes the
status of the body.

A plain thread has no session.  The frames that are open when its body is left are closed when its
storage is torn down: outermost first, each from its newest cleanup.  From then on the frame stack
cannot be used, and an unwind that leaves a cleanup aborts the process.
-/

namespace NonlocalExit

variable [Declarations]

namespace Effect

variable {α : Type}

/-! ## Sessions -/

/-- Declares the thread initialised and says whether it was not so before. -/
def initThread : Effect Bool := do
  let before := (← machine).thread.initialised
  modifyThread fun t => { t with initialised := true }
  if before then pure false
  else
    let _ ← innermostOrRoot
    pure true

/-- Warns that a thread was initialised before. -/
def warnUnless (first : Bool) : Effect Unit := if first then pure () else log .initialisedTwice

/-- Declares the thread initialised, with a warning if it was so before. -/
def declareThread : Effect Unit := do
  warnUnless (← initThread)

/-- The number of the innermost frame. -/
def innermostId : Effect (Option Nat) := do
  pure ((← innermost).map (·.id))

/-- Opens the frame of a session, unless a root frame was opened just now inside the base. -/
def openSession (base : Option Nat) : Effect Unit := do
  if (← innermostId) = base then
    let _ ← openFrame
    pure ()
  else pure ()

/-- Gives up the initialisation of the thread if the session owns it. -/
def closeSession (owner : Bool) : Effect Unit :=
  if owner then modifyThread fun t => { t with initialised := false } else pure ()

/-- The status of a thread body, from the way in which it was left. -/
def statusOf : Except Transfer Int32 → Effect Int32
  | .ok status => pure status
  | .error (.threadExit status) => pure status
  | .error t => unwind t

/-- Runs a thread body on the current thread. -/
def runBody (exec : Executor) (body : Effect Int32) : Effect Int32 := do
  let base ← innermostId
  let owner ← initThread
  openSession base
  let result ← catchUnwind body
  exec (.closeAbove base)
  closeSession owner
  statusOf result

/-! ## Teardown -/

/-- Starts cleanups one after another. -/
def startAll (exec : Executor) : List Cleanup → Effect Unit
  | [] => pure ()
  | c :: rest => do
    startCleanup exec c
    startAll exec rest

/-- Runs the cleanups of frames while an unwind is under way. -/
def closeTornUnwinding (exec : Executor) : List (Frame Cleanup) → Effect Unit
  | [] => pure ()
  | f :: rest => do
    abortOnUnwind (startAll exec f.pending)
    closeTornUnwinding exec rest

/-- Runs the cleanups of frames.  An unwind that leaves one of them passes over the other cleanups
of its frame, and aborts the process after those of the frames that remain. -/
def closeTorn (exec : Executor) : List (Frame Cleanup) → Effect Unit
  | [] => pure ()
  | f :: rest => do
    match ← catchUnwind (startAll exec f.pending) with
    | .ok () => closeTorn exec rest
    | .error _ =>
      closeTornUnwinding exec rest
      halt .aborted

/-- Tears down the storage of the thread. -/
def teardown (exec : Executor) : Effect Unit := do
  let remaining := (← machine).thread.frames.frames
  modifyThread fun t => { t with torn := true, frames := { t.frames with frames := [] } }
  closeTorn exec remaining.reverse

/-! ## Starting threads -/

/-- Runs an effect on a thread of its own and waits for the end of that thread.  From the thread
that starts it, a thread takes over only which signals are held back. -/
def inThread (exec : Executor) (body : Effect α) : Effect (Except Transfer α) := do
  let outer := (← machine).thread
  let number := (← machine).shared.nextThread
  modify fun m =>
    ⟨.new number outer.blocked, { m.shared with nextThread := number + 1 }⟩
  let result ← catchUnwind body
  teardown exec
  modifyThread fun _ => outer
  pure result

/-- Runs a block on a plain thread. -/
def runPlain (exec : Executor) (status : Int32) (body : Block) : Effect ThreadResult := do
  match ← inThread exec (exec (.block body)) with
  | .ok () => pure (.status status)
  | .error t => pure t.result

/-- The least size of a stack that no address space can hold. -/
def stackSizeLimit : Nat := 1 <<< 47

/-- The message of the unwind by which a name is refused, if it holds a zero character: the place
of the first one among the bytes of the name, and all the bytes. -/
def zeroInName? (name : String) : Option String :=
  let bytes := name.toUTF8.toList
  (bytes.findIdx? (· == 0)).map fun i =>
    "thread name may not contain interior null bytes: NulError(" ++ toString i ++ ", " ++
      toString (bytes.map (·.toNat)) ++ ")"

/-- What comes of a thread of the library, from the way in which it ended. -/
def spawnResult (name : Option String) : Except Transfer Int32 → SpawnResult
  | .ok status => .finished status name
  | .error t => .failed (.threadPanicked t.describe)

/-- Runs a block as the body of a thread. -/
def threadBody (exec : Executor) (status : Int32) (body : Block) : Effect Int32 := do
  exec (.block body)
  pure status

/-- Starts a thread of the library and waits for it.  A name with a zero character is refused by an
unwind, and a stack that is too large by an error. -/
def spawn (exec : Executor) (status : Int32) (name : Option String) (stackSize : Option Nat)
    (body : Block) : Effect SpawnResult :=
  match name.bind zeroInName? with
  | some message => unwind (.foreign (some message))
  | none =>
    if stackSize.any (stackSizeLimit ≤ ·) then pure (.failed .spawnRefused)
    else do
      pure (spawnResult name (← inThread exec (runBody exec (threadBody exec status body))))

/-- Ends the process in an orderly way: the storage of the current thread is torn down first, and
other threads are left as they are. -/
def exitProcess (exec : Executor) (status : Int32) : Effect α := do
  teardown exec
  halt (.exited status)

end Effect

end NonlocalExit
