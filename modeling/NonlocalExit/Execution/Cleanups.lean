import NonlocalExit.Effect

/-!
# Cleanup frames at work

Frames are opened, filled and closed.  Closing a frame runs its cleanups, newest first; each is
removed from the frame before it is started, so none is run twice.  A cleanup that is left by an
unwind leaves its frame open with the cleanups that still wait.

What may run code of the program is a `Job`.  The definitions here do one step of a job and leave
the rest to `exec`, which stands for the execution of jobs in general.
-/

namespace NonlocalExit

variable [Declarations]

/-- What is left to the general execution. -/
inductive Job
  /-- Run a block of the program. -/
  | block (body : Block)
  /-- Close a frame. -/
  | close (id : Nat)
  /-- Close frames, innermost first, down to a base that stays open. -/
  | closeAbove (base : Option Nat)
  /-- Close frames, innermost first, until one is met at which a panic is to be recovered. -/
  | walk (code : ErrorCode)

/-- An execution of jobs. -/
abbrev Executor := Job → Effect Unit

namespace Effect

variable {α : Type}

/-- The unwind that starts when the frame stack is used while it is torn down. -/
def storageGone : Transfer :=
  .foreign (some
    "cannot access a Thread Local Storage value during or after destruction: AccessError")

/-- Uses the frame stack of the thread. -/
def withFrames (use : FrameStack Cleanup → α × FrameStack Cleanup) : Effect α := do
  let t := (← machine).thread
  if t.torn then unwind storageGone
  else
    modifyThread fun t => { t with frames := (use t.frames).2 }
    pure (use t.frames).1

/-- The innermost open frame. -/
def innermost : Effect (Option (Frame Cleanup)) := withFrames fun s => (s.innermost?, s)

/-- Opens a frame. -/
def openFrame : Effect Nat := do
  let id ← withFrames (·.push)
  step (.frameOpened id)
  pure id

/-- The innermost open frame; a root frame is opened when there is none. -/
def innermostOrRoot : Effect Nat := do
  match ← innermost with
  | some f => pure f.id
  | none => openFrame

/-! ## Closing -/

/-- Reports the argument that a cleanup is given. -/
def announce : Option String → Effect Unit
  | some a => report (.handler a)
  | none => pure ()

/-- Starts a cleanup. -/
def startCleanup (exec : Executor) (c : Cleanup) : Effect Unit := do
  step (.started c.serial)
  announce c.argument
  exec (.block c.body)

/-- One step of closing a frame. -/
def closeStep (exec : Executor) (id : Nat) : Effect Unit := do
  match ← withFrames (·.take id) with
  | .absent => pure ()
  | .closed => step (.frameClosed id)
  | .cleanup c =>
    startCleanup exec c
    exec (.close id)

/-- One step of closing all frames above a base. -/
def closeAboveStep (exec : Executor) (base : Option Nat) : Effect Unit := do
  match ← innermost with
  | none => pure ()
  | some f =>
    if base.any (f.id ≤ ·) then pure ()
    else
      exec (.close f.id)
      exec (.closeAbove base)

/-! ## Scopes -/

/-- Opens a frame on behalf of a guard. -/
def enterFrame : Effect Nat := do
  let id ← openFrame
  log (.enteredFrame id)
  pure id

/-- Drops a guard, which closes its frame. -/
def leaveFrame (exec : Executor) (id : Nat) : Effect Unit := do
  log (.leftFrame id)
  exec (.close id)

/-- Runs an effect in a frame of its own. -/
def scope (exec : Executor) (body : Effect α) : Effect α := do
  let id ← enterFrame
  onExit body (leaveFrame exec id)

/-- Registers a cleanup in the innermost frame, a root frame if none is open.  A full frame aborts
the process.  While the frame stack is torn down there is nothing left to wait for, and the cleanup
is run at once. -/
def defer (exec : Executor) (argument : Option String) (body : Block) : Effect Unit := do
  let c : Cleanup := ⟨(← machine).shared.nextSerial, argument, body⟩
  modifyShared fun s => { s with nextSerial := s.nextSerial + 1 }
  if (← machine).thread.torn then
    step (.registered c.serial none)
    startCleanup exec c
  else
    let frame ← innermostOrRoot
    match (← machine).thread.frames.add? c with
    | some s =>
      modifyThread fun t => { t with frames := s }
      step (.registered c.serial (some frame))
    | none =>
      diagnose .tooManyCleanups
      halt .aborted

/-! ## Guards held by blocks -/

/-- Adds a guard to those that the current block holds. -/
def hold (g : Guard) : Effect Unit :=
  modifyThread fun t =>
    { t with held := match t.held with
      | [] => [[g]]
      | own :: outer => (g :: own) :: outer }

/-- Takes the newest guard with a given name from a list of guards. -/
def pickGuard (name : String) : List Guard → Option (Guard × List Guard)
  | [] => none
  | g :: rest =>
    if g.name = name then some (g, rest)
    else (pickGuard name rest).map fun (found, others) => (found, g :: others)

/-- Takes the newest guard with a given name from those of all blocks. -/
def pickHeld (name : String) : List (List Guard) → Option (Guard × List (List Guard))
  | [] => none
  | own :: outer =>
    match pickGuard name own with
    | some (found, others) => some (found, others :: outer)
    | none => (pickHeld name outer).map fun (found, others) => (found, own :: others)

/-- Takes the newest guard with a given name, if there is one. -/
def releaseGuard (name : String) : Effect (Option Guard) := do
  match pickHeld name (← machine).thread.held with
  | none => pure none
  | some (g, rest) =>
    modifyThread fun t => { t with held := rest }
    pure (some g)

/-- Drops at most `n` guards of the current block, newest first. -/
def dropGuards (exec : Executor) : Nat → Effect Unit
  | 0 => pure ()
  | n + 1 => do
    match (← machine).thread.held with
    | (g :: own) :: outer =>
      modifyThread fun t => { t with held := own :: outer }
      onExit (leaveFrame exec g.frame) (dropGuards exec n)
    | _ => pure ()

/-- Drops the guards that the current block still holds, and leaves the block. -/
def leaveBlock (exec : Executor) : Effect Unit := do
  let own := (← machine).thread.held.headD []
  onExit (dropGuards exec own.length) (modifyThread fun t => { t with held := t.held.tail })

/-- Runs an effect as a block that holds guards. -/
def asBlock (exec : Executor) (body : Effect Unit) : Effect Unit := do
  modifyThread fun t => { t with held := [] :: t.held }
  onExit body (leaveBlock exec)

end Effect

end NonlocalExit
