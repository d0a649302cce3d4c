import NonlocalExit.Execution.Run
import NonlocalExit.Proofs.Law

/-!
# What the operations do to a machine

One equation for each operation on frames, recoveries, sessions and the trapping of faults: the
outcome of its own work, written with the changes of machines that are named here, and the execution
of what it leaves to others.  Later proofs use these equations and do not unfold the operations.
-/

namespace NonlocalExit

variable [Declarations]

namespace Machine

/-- The machine with other frames. -/
def withFrames (s : FrameStack Cleanup) (m : Machine) : Machine :=
  { m with thread := { m.thread with frames := s } }

/-- The machine with other guards held. -/
def withHeld (held : List (List Guard)) (m : Machine) : Machine :=
  { m with thread := { m.thread with held := held } }

/-- The machine with other recoveries under way. -/
def withRecovering (rs : List Recovery) (m : Machine) : Machine :=
  { m with thread := { m.thread with recovering := rs } }

/-- The machine with a frame opened. -/
def opened (m : Machine) : Machine :=
  (m.withFrames m.thread.frames.push.2).note (.step (.frameOpened m.thread.frames.nextId))

/-- The machine with a root frame opened, if it had no frame. -/
def rooted (m : Machine) : Machine := if m.thread.frames.frames = [] then m.opened else m

/-- The number of the innermost frame. -/
def innermostId (m : Machine) : Option Nat := m.thread.frames.innermost?.map (·.id)

/-- The number of the innermost frame, or of the root frame that is opened if there is none. -/
def rootId (m : Machine) : Nat :=
  (m.thread.frames.innermost?.map (·.id)).getD m.thread.frames.nextId

/-- The machine with an empty frame removed. -/
def closed (id : Nat) (m : Machine) : Machine :=
  (m.withFrames { m.thread.frames with frames := Frame.erase id m.thread.frames.frames }).note
    (.step (.frameClosed id))

/-- The machine with other cleanups waiting in a frame. -/
def withPending (id : Nat) (cs : List Cleanup) (m : Machine) : Machine :=
  m.withFrames
    { m.thread.frames with frames := Frame.update id (·.withPending cs) m.thread.frames.frames }

/-- The machine with another recovery mark on a frame. -/
def withMark (id : Nat) (mark : Option Nat) (m : Machine) : Machine :=
  m.withFrames (m.thread.frames.swapMark id mark).2

/-- The machine on which the body of a cleanup is run. -/
def starting (c : Cleanup) (m : Machine) : Machine :=
  match c.argument with
  | some a => (m.note (.step (.started c.serial))).note (.event (.handler a))
  | none => m.note (.step (.started c.serial))

/-- The machine with the number of a cleanup given away. -/
def serialTaken (m : Machine) : Machine :=
  { m with shared := { m.shared with nextSerial := m.shared.nextSerial + 1 } }

/-- The machine with a token given away. -/
def tokenTaken (m : Machine) : Machine :=
  { m with shared := { m.shared with nextToken := m.shared.nextToken + 1 } }

/-- The machine on which the body of a recovery is run. -/
def recoveryEntered (m : Machine) : Machine :=
  ((m.tokenTaken.rooted).withMark m.rootId (some m.shared.nextToken)).withRecovering
    (⟨m.shared.nextToken, m.rootId⟩ :: m.thread.recovering)

theorem torn_rooted (m : Machine) : m.rooted.thread.torn = m.thread.torn := by
  unfold rooted; split <;> rfl

theorem recovering_rooted (m : Machine) : m.rooted.thread.recovering = m.thread.recovering := by
  unfold rooted; split <;> rfl

theorem nextSerial_rooted (m : Machine) : m.rooted.shared.nextSerial = m.shared.nextSerial := by
  unfold rooted; split <;> rfl

theorem rooted_serialTaken (m : Machine) : m.serialTaken.rooted = m.rooted.serialTaken := by
  unfold rooted
  by_cases h : m.thread.frames.frames = []
  · rw [if_pos h, if_pos (show m.serialTaken.thread.frames.frames = [] from h)]; rfl
  · rw [if_neg h, if_neg (show ¬m.serialTaken.thread.frames.frames = [] from h)]

/-- After that there is an innermost frame, and `rootId` is its number. -/
theorem frames_rooted (m : Machine) :
    ∃ f fs, m.rooted.thread.frames.frames = f :: fs ∧ f.id = m.rootId := by
  unfold rooted rootId FrameStack.innermost?
  cases h : m.thread.frames.frames with
  | nil =>
    exact ⟨.new _ m.thread.frames.nextId, [],
      by simp [opened, note, withFrames, FrameStack.push, h], rfl⟩
  | cons f fs => exact ⟨f, fs, by simp [h], rfl⟩

theorem innermostId_rooted (m : Machine) : m.rooted.innermostId = some m.rootId := by
  obtain ⟨f, fs, hf, hid⟩ := m.frames_rooted
  unfold innermostId FrameStack.innermost?
  rw [hf]
  exact congrArg some hid

/-- The mark that a recovery finds on its frame. -/
def markFound (m : Machine) : Option Nat :=
  (Frame.find? m.rootId m.rooted.thread.frames.frames).bind (·.mark)

/-- The machine with the thread declared initialised. -/
def declared (m : Machine) : Machine := { m with thread := { m.thread with initialised := true } }

/-- The machine after the declaration of the thread, with its root frame. -/
def threadDeclared (m : Machine) : Machine :=
  if m.thread.initialised then m.declared else m.declared.rooted

/-- The machine on which the body of a session is run. -/
def sessionEntered (m : Machine) : Machine :=
  if m.threadDeclared.innermostId = m.innermostId then m.threadDeclared.opened else m.threadDeclared

/-- The machine at the start of a new thread. -/
def threadStarted (m : Machine) : Machine :=
  ⟨.new m.shared.nextThread m.thread.blocked,
    { m.shared with nextThread := m.shared.nextThread + 1 }⟩

/-- The machine at the start of the teardown of the thread. -/
def tornDown (m : Machine) : Machine :=
  { m with thread :=
    { m.thread with torn := true, frames := { m.thread.frames with frames := [] } } }

/-- The machine with other fault signals held back from the thread. -/
def withBlocked (signals : List FaultSignal) (m : Machine) : Machine :=
  { m with thread := { m.thread with blocked := signals } }

/-- The machine with other dispositions of the fault signals. -/
def withDispositions (dispositions : FaultSignal → Disposition) (m : Machine) : Machine :=
  { m with shared := { m.shared with dispositions := dispositions } }

/-- The machine in the handler that raises a fault as an exception. -/
def trapEntered (deferred : Bool) (signal : FaultSignal) (m : Machine) : Machine :=
  m.withBlocked (if deferred then signal :: m.thread.blocked else m.thread.blocked)

/-- The machine with the default of one signal put back. -/
def dismissed (signal : FaultSignal) (m : Machine) : Machine :=
  m.withDispositions fun s => if s = signal then .kill else m.shared.dispositions s

/-- The machine with the trapping of faults switched on or off. -/
def trappingSet (enabled : Bool) (m : Machine) : Machine :=
  let m₁ := m.withDispositions fun _ => if enabled then .trap false else .kill
  { m₁ with shared := { m₁.shared with trapping := enabled } }.note (.log (.trapping enabled))

/-- The machine with settings put into force. -/
def settingsApplied (settings : Settings) (m : Machine) : Machine :=
  let m₁ : Machine := { m with shared := { m.shared with forceBacktrace := settings.backtrace } }
  let m₂ := if settings.catchFaults || m.shared.trapping then m₁.trappingSet settings.catchFaults
    else m₁
  m₂.note (.log (.settingsApplied settings))

end Machine

namespace Effect

variable {α : Type} (exec : Executor) (m : Machine)

theorem run_step (s : Step) : (step s).run m = ⟨.returned (), m.note (.step s)⟩ := rfl

theorem run_log (r : LogRecord) : (log r).run m = ⟨.returned (), m.note (.log r)⟩ := rfl

theorem run_current : current.run m = ⟨.returned m.thread.current, m⟩ := rfl

theorem run_modifyThread (f : Thread → Thread) :
    (modifyThread f).run m = ⟨.returned (), { m with thread := f m.thread }⟩ := rfl

theorem run_modifyShared (f : Shared → Shared) :
    (modifyShared f).run m = ⟨.returned (), { m with shared := f m.shared }⟩ := rfl

/-! ## Frames -/

theorem run_withFrames (use : FrameStack Cleanup → α × FrameStack Cleanup) :
    (withFrames use).run m =
      if m.thread.torn then ⟨.unwound storageGone, m⟩
      else ⟨.returned (use m.thread.frames).1, m.withFrames (use m.thread.frames).2⟩ := by
  unfold withFrames
  rw [run_bind, run_machine]
  by_cases h : m.thread.torn = true
  · simp only [h, ↓reduceIte]; rfl
  · simp only [h, Bool.false_eq_true, ↓reduceIte]; rfl

theorem run_innermost :
    innermost.run m =
      if m.thread.torn then ⟨.unwound storageGone, m⟩
      else ⟨.returned m.thread.frames.innermost?, m⟩ := run_withFrames m _

theorem run_openFrame :
    openFrame.run m =
      if m.thread.torn then ⟨.unwound storageGone, m⟩
      else ⟨.returned m.thread.frames.nextId, m.opened⟩ := by
  unfold openFrame
  rw [run_bind, run_withFrames]
  by_cases h : m.thread.torn = true
  · simp only [h, ↓reduceIte]
  · simp only [h, Bool.false_eq_true, ↓reduceIte]; rfl

theorem run_innermostOrRoot :
    innermostOrRoot.run m =
      if m.thread.torn then ⟨.unwound storageGone, m⟩ else ⟨.returned m.rootId, m.rooted⟩ := by
  unfold innermostOrRoot
  rw [run_bind, run_innermost]
  by_cases h : m.thread.torn = true
  · simp only [h, ↓reduceIte]
  · unfold Machine.rootId Machine.rooted FrameStack.innermost?
    cases hf : m.thread.frames.frames with
    | nil => simp [h, run_openFrame]
    | cons f fs => simp [h]

theorem run_enterFrame :
    enterFrame.run m =
      if m.thread.torn then ⟨.unwound storageGone, m⟩
      else ⟨.returned m.thread.frames.nextId,
        m.opened.note (.log (.enteredFrame m.thread.frames.nextId))⟩ := by
  unfold enterFrame
  rw [run_bind, run_openFrame]
  by_cases h : m.thread.torn = true
  · simp only [h, ↓reduceIte]
  · simp only [h, Bool.false_eq_true, ↓reduceIte]; rfl

theorem run_startCleanup (c : Cleanup) :
    (startCleanup exec c).run m = (exec (.block c.body)).run (m.starting c) := by
  unfold startCleanup announce Machine.starting
  cases c.argument <;> rfl

/-- One step of closing a frame ends at once, or starts the newest cleanup and goes on closing. -/
theorem run_closeStep (id : Nat) :
    (closeStep exec id).run m =
      if m.thread.torn then ⟨.unwound storageGone, m⟩
      else match Frame.find? id m.thread.frames.frames with
        | none => ⟨.returned (), m⟩
        | some f =>
          match f.pending with
          | [] => ⟨.returned (), m.closed id⟩
          | c :: rest =>
            (startCleanup exec c >>= fun _ => exec (.close id)).run (m.withPending id rest) := by
  unfold closeStep
  rw [run_bind, run_withFrames]
  by_cases h : m.thread.torn = true
  · simp only [h, ↓reduceIte]
  · unfold FrameStack.take
    cases hf : Frame.find? id m.thread.frames.frames with
    | none => simp only [h, Bool.false_eq_true, ↓reduceIte]; rfl
    | some f => cases hp : f.pending <;> simp only [h, hp] <;> rfl

theorem run_closeAboveStep (base : Option Nat) :
    (closeAboveStep exec base).run m =
      if m.thread.torn then ⟨.unwound storageGone, m⟩
      else match m.thread.frames.frames with
        | [] => ⟨.returned (), m⟩
        | f :: _ =>
          if base.any (f.id ≤ ·) then ⟨.returned (), m⟩
          else (exec (.close f.id) >>= fun _ => exec (.closeAbove base)).run m := by
  unfold closeAboveStep
  rw [run_bind, run_innermost]
  by_cases h : m.thread.torn = true
  · simp only [h, ↓reduceIte]
  · unfold FrameStack.innermost?
    cases hf : m.thread.frames.frames with
    | nil => simp [h]
    | cons f fs => by_cases hb : base.any (f.id ≤ ·) <;> simp [h, hb]

theorem run_walkStep (code : ErrorCode) :
    (walkStep exec code).run m =
      if m.thread.torn then ⟨.unwound storageGone, m⟩
      else match m.thread.frames.frames with
        | [] => ⟨.returned (), m⟩
        | f :: _ =>
          match f.mark with
          | some token => ⟨.unwound (.panicking code token), m⟩
          | none =>
            (exec (.close f.id) >>= fun _ => exec (.walk code)).run
              (m.note (.step (.passed f.id))) := by
  unfold walkStep
  rw [run_bind, run_innermost]
  by_cases h : m.thread.torn = true
  · simp only [h, ↓reduceIte]
  · unfold FrameStack.innermost?
    cases hf : m.thread.frames.frames with
    | nil => simp [h]
    | cons f fs => cases hm : f.mark <;> simp [h, hm, run_bind, run_step]

section Standing

variable {exec} {m} {id : Nat} {base : Option Nat} {f : Frame Cleanup} {fs : List (Frame Cleanup)}
  (ht : m.thread.torn = false)
include ht

theorem closeStep_absent (hf : Frame.find? id m.thread.frames.frames = none) :
    (closeStep exec id).run m = ⟨.returned (), m⟩ := by
  rw [run_closeStep, ht, hf]
  rfl

theorem closeStep_empty (hf : Frame.find? id m.thread.frames.frames = some f)
    (hp : f.pending = []) : (closeStep exec id).run m = ⟨.returned (), m.closed id⟩ := by
  rw [run_closeStep, ht, hf]
  simp only [Bool.false_eq_true, ↓reduceIte, hp]

theorem closeStep_pending {c : Cleanup} {cs : List Cleanup}
    (hf : Frame.find? id m.thread.frames.frames = some f) (hp : f.pending = c :: cs) :
    (closeStep exec id).run m =
      (startCleanup exec c >>= fun _ => exec (.close id)).run (m.withPending id cs) := by
  rw [run_closeStep, ht, hf]
  simp only [Bool.false_eq_true, ↓reduceIte, hp]

theorem closeAboveStep_done (h : ∀ f ∈ m.thread.frames.innermost?, base.any (f.id ≤ ·)) :
    (closeAboveStep exec base).run m = ⟨.returned (), m⟩ := by
  unfold FrameStack.innermost? at h
  rw [run_closeAboveStep, ht]
  cases hf : m.thread.frames.frames with
  | nil => rfl
  | cons f fs =>
    rw [hf] at h
    simp only [Bool.false_eq_true, ↓reduceIte, h f rfl]

theorem closeAboveStep_inner (hf : m.thread.frames.frames = f :: fs)
    (hb : ¬base.any (f.id ≤ ·)) :
    (closeAboveStep exec base).run m =
      (exec (.close f.id) >>= fun _ => exec (.closeAbove base)).run m := by
  rw [run_closeAboveStep, ht, hf]
  simp only [Bool.false_eq_true, ↓reduceIte, hb]

theorem walkStep_marked {token : Nat} (code : ErrorCode) (hf : m.thread.frames.frames = f :: fs)
    (hm : f.mark = some token) :
    (walkStep exec code).run m = ⟨.unwound (.panicking code token), m⟩ := by
  rw [run_walkStep, ht, hf]
  simp only [Bool.false_eq_true, ↓reduceIte, hm]

theorem walkStep_passed (code : ErrorCode) (hf : m.thread.frames.frames = f :: fs)
    (hm : f.mark = none) :
    (walkStep exec code).run m =
      (exec (.close f.id) >>= fun _ => exec (.walk code)).run (m.note (.step (.passed f.id))) := by
  rw [run_walkStep, ht, hf]
  simp only [Bool.false_eq_true, ↓reduceIte, hm]

end Standing

theorem run_leaveFrame (id : Nat) :
    (leaveFrame exec id).run m = (exec (.close id)).run (m.note (.log (.leftFrame id))) := rfl

theorem run_scope (body : Effect α) :
    (scope exec body).run m =
      if m.thread.torn then ⟨.unwound storageGone, m⟩
      else (onExit body (leaveFrame exec m.thread.frames.nextId)).run
        (m.opened.note (.log (.enteredFrame m.thread.frames.nextId))) := by
  unfold scope
  rw [run_bind, run_enterFrame]
  by_cases h : m.thread.torn = true
  · simp only [h, ↓reduceIte]
  · simp only [h, Bool.false_eq_true, ↓reduceIte]

/-- A cleanup is registered in the innermost frame, or started at once while the storage of the
thread is torn down, or the process is aborted. -/
theorem run_defer (argument : Option String) (body : Block) :
    (defer exec argument body).run m =
      let c : Cleanup := ⟨m.shared.nextSerial, argument, body⟩
      if m.thread.torn then
        (startCleanup exec c).run (m.serialTaken.note (.step (.registered c.serial none)))
      else match m.serialTaken.rooted.thread.frames.add? c with
        | some s =>
          ⟨.returned (), (m.serialTaken.rooted.withFrames s).note
            (.step (.registered c.serial (some m.rootId)))⟩
        | none =>
          ⟨.halted .aborted, m.serialTaken.rooted.note (.diagnostic .tooManyCleanups)⟩ := by
  unfold defer
  rw [run_bind, run_machine]
  dsimp only
  rw [run_bind, run_modifyShared]
  dsimp only
  rw [run_bind, run_machine]
  dsimp only
  by_cases h : m.thread.torn = true
  · simp only [h, ↓reduceIte]; rfl
  · simp only [h, Bool.false_eq_true, ↓reduceIte]
    rw [run_bind, run_innermostOrRoot]
    simp only [h, Bool.false_eq_true, ↓reduceIte]
    show ((Effect.machine >>= _).run m.serialTaken.rooted) = _
    rw [run_bind, run_machine]
    dsimp only
    cases m.serialTaken.rooted.thread.frames.add? ⟨m.shared.nextSerial, argument, body⟩ <;> rfl

/-! ## Guards -/

/-- The lists of guards with a guard added to the current block. -/
def withGuard (g : Guard) : List (List Guard) → List (List Guard)
  | [] => [[g]]
  | own :: outer => (g :: own) :: outer

theorem run_hold (g : Guard) :
    (hold g).run m = ⟨.returned (), m.withHeld (withGuard g m.thread.held)⟩ := by
  unfold hold withGuard
  rw [run_modifyThread]
  rfl

theorem run_releaseGuard (name : String) :
    (releaseGuard name).run m =
      match pickHeld name m.thread.held with
      | none => ⟨.returned none, m⟩
      | some (g, rest) => ⟨.returned (some g), m.withHeld rest⟩ := by
  unfold releaseGuard
  rw [run_bind, run_machine]
  dsimp only
  cases pickHeld name m.thread.held <;> rfl

theorem run_dropGuards_succ (n : Nat) :
    (dropGuards exec (n + 1)).run m =
      match m.thread.held with
      | (g :: own) :: outer =>
        (onExit (leaveFrame exec g.frame) (dropGuards exec n)).run (m.withHeld (own :: outer))
      | _ => ⟨.returned (), m⟩ := by
  show (Effect.machine >>= _).run m = _
  rw [run_bind, run_machine]
  match h : m.thread.held with
  | [] => simp only [h]; rfl
  | [] :: _ => simp only [h]; rfl
  | (g :: own) :: outer => simp only [h]; rfl

theorem dropGuards_held {exec} {m} {g : Guard} {own : List Guard} {outer : List (List Guard)}
    (n : Nat) (hh : m.thread.held = (g :: own) :: outer) :
    (dropGuards exec (n + 1)).run m =
      (onExit (leaveFrame exec g.frame) (dropGuards exec n)).run (m.withHeld (own :: outer)) := by
  rw [run_dropGuards_succ, hh]

theorem dropGuards_none {exec} {m} (n : Nat) (hh : m.thread.held.headD [] = []) :
    (dropGuards exec (n + 1)).run m = ⟨.returned (), m⟩ := by
  rw [run_dropGuards_succ]
  split
  · rename_i g own outer h
    rw [h] at hh
    cases hh
  · rfl

/-- Takes the list of the current block off the lists of guards. -/
def popHeld : Effect Unit := modifyThread fun t => { t with held := t.held.tail }

theorem run_popHeld : popHeld.run m = ⟨.returned (), m.withHeld m.thread.held.tail⟩ := rfl

theorem run_leaveBlock :
    (leaveBlock exec).run m =
      (onExit (dropGuards exec (m.thread.held.headD []).length) popHeld).run m := rfl

theorem run_asBlock (body : Effect Unit) :
    (asBlock exec body).run m =
      (onExit body (leaveBlock exec)).run (m.withHeld ([] :: m.thread.held)) := rfl

/-! ## Recoveries -/

/-- Gives a frame its earlier mark back, and ends the recovery. -/
def endRecovery (frame : Nat) (previous : Option Nat) (outer : List Recovery) : Effect Unit := do
  let _ ← swapMark frame previous
  modifyThread fun t => { t with recovering := outer }

theorem run_endRecovery (frame : Nat) (previous : Option Nat) (outer : List Recovery) :
    (endRecovery frame previous outer).run m =
      if m.thread.torn then ⟨.unwound storageGone, m⟩
      else ⟨.returned (), (m.withMark frame previous).withRecovering outer⟩ := by
  unfold endRecovery swapMark
  rw [run_bind, run_withFrames]
  by_cases h : m.thread.torn = true
  · simp only [h, ↓reduceIte]
  · simp only [h, Bool.false_eq_true, ↓reduceIte]; rfl

theorem run_recover (body : Effect Unit) :
    (recover body).run m =
      if m.thread.torn then ⟨.unwound storageGone, m.tokenTaken⟩
      else (onExit (settle m.shared.nextToken body)
        (endRecovery m.rootId m.tokenTaken.markFound m.thread.recovering)).run
          m.recoveryEntered := by
  unfold recover freshToken
  show (innermostOrRoot >>= _).run m.tokenTaken = _
  rw [run_bind, run_innermostOrRoot]
  by_cases h : m.thread.torn = true
  · have h' : m.tokenTaken.thread.torn = true := h
    simp only [h, h', ↓reduceIte]
  · have h' : ¬m.tokenTaken.thread.torn = true := h
    have hr : ¬m.tokenTaken.rooted.thread.torn = true := by rw [Machine.torn_rooted]; exact h
    simp only [h, h', Bool.false_eq_true, ↓reduceIte]
    unfold swapMark
    show ((withFrames _ >>= _).run m.tokenTaken.rooted) = _
    rw [run_bind, run_withFrames]
    simp only [hr, Bool.false_eq_true, ↓reduceIte]
    have hrec : m.tokenTaken.rooted.thread.recovering = m.thread.recovering :=
      Machine.recovering_rooted _
    show (onExit _ (endRecovery _ _ m.tokenTaken.rooted.thread.recovering)).run
      (Machine.withRecovering (_ :: m.tokenTaken.rooted.thread.recovering) _) = _
    rw [hrec]
    rfl

/-- A recovery stops the panics that carry its token and lets all other unwinds pass. -/
theorem run_settle (token : Nat) (body : Effect Unit) :
    (settle token body).run m =
      match body.run m with
      | ⟨.returned _, m'⟩ => ⟨.returned none, m'⟩
      | ⟨.unwound t, m'⟩ =>
        match t with
        | .panicking code owner =>
          if owner = token then ⟨.returned (some code), m'.note (.log (.recovered code))⟩
          else ⟨.unwound (.panicking code owner), m'⟩
        | t => ⟨.unwound t, m'⟩
      | ⟨.halted h, m'⟩ => ⟨.halted h, m'⟩ := by
  unfold settle
  rw [run_bind, run_catchUnwind]
  match body.run m with
  | ⟨.returned _, m'⟩ => rfl
  | ⟨.halted h, m'⟩ => rfl
  | ⟨.unwound t, m'⟩ =>
    cases t with
    | panicking code owner =>
      by_cases h : owner = token
      · simp [h, run_bind, run_log]
      · simp [h]
    | _ => rfl

/-! ## Sessions -/

theorem run_innermostId :
    innermostId.run m =
      if m.thread.torn then ⟨.unwound storageGone, m⟩ else ⟨.returned m.innermostId, m⟩ := by
  unfold innermostId
  rw [run_bind, run_innermost]
  by_cases h : m.thread.torn = true
  · simp only [h, ↓reduceIte]
  · simp only [h, Bool.false_eq_true, ↓reduceIte]; rfl

/-- The thread is declared initialised before its root frame is asked for. -/
theorem run_initThread :
    initThread.run m =
      if m.thread.initialised then ⟨.returned false, m.declared⟩
      else if m.thread.torn then ⟨.unwound storageGone, m.declared⟩
      else ⟨.returned true, m.declared.rooted⟩ := by
  unfold initThread
  rw [run_bind, run_machine]
  dsimp only
  rw [run_bind, run_modifyThread]
  show (if m.thread.initialised = true then (pure false : Effect Bool)
    else innermostOrRoot >>= fun _ => pure true).run m.declared = _
  by_cases h : m.thread.initialised = true
  · simp only [h, ↓reduceIte, run_pure]
  · simp only [h, Bool.false_eq_true, ↓reduceIte]
    show (innermostOrRoot >>= fun _ => pure true).run m.declared = _
    rw [run_bind, run_innermostOrRoot]
    by_cases h' : m.thread.torn = true
    · have h'' : m.declared.thread.torn = true := h'
      simp only [h', h'', ↓reduceIte]
    · have h'' : ¬m.declared.thread.torn = true := h'
      simp only [h', h'', Bool.false_eq_true, ↓reduceIte]; rfl

theorem run_openSession (base : Option Nat) (h : m.thread.torn = false) :
    (openSession base).run m =
      ⟨.returned (), if m.innermostId = base then m.opened else m⟩ := by
  unfold openSession
  rw [run_bind, run_innermostId]
  simp only [h, Bool.false_eq_true, ↓reduceIte]
  by_cases hb : m.innermostId = base
  · simp [hb, run_bind, run_openFrame, h]
  · simp [hb]

theorem torn_threadDeclared : m.threadDeclared.thread.torn = m.thread.torn := by
  unfold Machine.threadDeclared
  split
  · rfl
  · exact Machine.torn_rooted _

/-- What a session does after its body: it closes its frames and gives up what it owns. -/
def endSession (base : Option Nat) (owner : Bool) (r : Except Transfer Int32) : Effect Int32 := do
  exec (.closeAbove base)
  closeSession owner
  statusOf r

theorem run_runBody (body : Effect Int32) :
    (runBody exec body).run m =
      if m.thread.torn then ⟨.unwound storageGone, m⟩
      else (catchUnwind body >>= endSession exec m.innermostId (!m.thread.initialised)).run
        m.sessionEntered := by
  unfold runBody
  rw [run_bind, run_innermostId]
  by_cases h : m.thread.torn = true
  · simp only [h, ↓reduceIte]
  · have ht : m.threadDeclared.thread.torn = false := by simpa [torn_threadDeclared] using h
    have hi : initThread.run m = ⟨.returned (!m.thread.initialised), m.threadDeclared⟩ := by
      rw [run_initThread]
      unfold Machine.threadDeclared
      by_cases h' : m.thread.initialised = true <;> simp [h, h']
    simp only [h, Bool.false_eq_true, ↓reduceIte]
    show (initThread >>= _).run m = _
    rw [run_bind_returned hi, run_bind_returned (run_openSession _ _ ht)]
    rfl

/-! ## Teardown -/

theorem not_unwound_closeTornUnwinding (fs : List (Frame Cleanup)) {t : Transfer} :
    ∀ m : Machine, (closeTornUnwinding exec fs).run m ≠ ⟨.unwound t, m'⟩ := by
  induction fs with
  | nil => rintro m ⟨⟩
  | cons f fs ih =>
    intro m h
    obtain ⟨_, m₁, _, h⟩ | ⟨t, h, _⟩ := leaves_bind.1 (leaves_of_unwound h)
    · exact ih m₁ (unwound_of_leaves h)
    · cases (leaves_abortOnUnwind.1 (leaves_of_unwound h)).2

/-- Cleanups are started after other ones if these return. -/
theorem run_startAll_bind (cs ds : List Cleanup) (m : Machine) :
    (startAll exec (cs ++ ds)).run m =
      (startAll exec cs >>= fun _ => startAll exec ds).run m := by
  induction cs generalizing m with
  | nil => rfl
  | cons c cs ih =>
    show (startCleanup exec c >>= fun _ => startAll exec (cs ++ ds)).run m =
      ((startCleanup exec c >>= fun _ => startAll exec cs) >>= fun _ => startAll exec ds).run m
    rw [run_bind_assoc, run_bind, run_bind]
    obtain ⟨_ | _ | _, m₁⟩ := (startCleanup exec c).run m
    · exact ih m₁
    · rfl
    · rfl

/-- What is started after cleanups that have returned. -/
theorem run_startAll_append {cs ds : List Cleanup} {m m₁ : Machine}
    (h : (startAll exec cs).run m = ⟨.returned (), m₁⟩) :
    (startAll exec (cs ++ ds)).run m = (startAll exec ds).run m₁ :=
  (run_startAll_bind exec cs ds m).trans (run_bind_returned h)

theorem startAll_append {cs ds : List Cleanup} {m m' : Machine}
    (h : (startAll exec (cs ++ ds)).run m = ⟨.returned (), m'⟩) :
    ∃ m₁, (startAll exec cs).run m = ⟨.returned (), m₁⟩ ∧
      (startAll exec ds).run m₁ = ⟨.returned (), m'⟩ := by
  rw [run_startAll_bind] at h
  obtain ⟨_, m₁, hcs, hds⟩ | ⟨_, _, ht⟩ := leaves_bind.1 (leaves_of_returned h)
  · rw [run_bind_returned hcs] at h
    exact ⟨m₁, hcs, h⟩
  · cases ht

/-- A relation that the start of every cleanup keeps is kept where they are all started. -/
theorem obeys_startAll {exec : Executor} {r : Machine → Machine → Prop} [Composes r]
    (H : ∀ c, Obeys (.ofRel r) (startCleanup exec c)) : ∀ cs, Obeys (.ofRel r) (startAll exec cs)
  | [] => .pure ()
  | c :: rest => (H c).bind fun _ => obeys_startAll H rest

/-- A teardown does what starting all cleanups that wait does, unless one is left by an unwind. -/
theorem run_closeTorn {fs : List (Frame Cleanup)} {e : Ending Unit} {m m' : Machine}
    (h : (startAll exec (fs.flatMap (·.pending))).run m = ⟨e, m'⟩) (he : ∀ t, e ≠ .unwound t) :
    (closeTorn exec fs).run m = ⟨e, m'⟩ := by
  induction fs generalizing m with
  | nil => exact h
  | cons f fs ih =>
    have h' : (startAll exec (f.pending ++ fs.flatMap (·.pending))).run m = ⟨e, m'⟩ := h
    rw [run_startAll_bind, run_bind] at h'
    show (catchUnwind (startAll exec f.pending) >>= _).run m = _
    rw [run_bind, run_catchUnwind]
    rcases hf : (startAll exec f.pending).run m with ⟨_ | t | _, m₁⟩
    · rw [hf] at h'
      exact ih h'
    · rw [hf] at h'
      cases h'
      exact (he t rfl).elim
    · rw [hf] at h'
      exact h'

/-- A teardown that ends has started the cleanups that were waiting one after another, and all of
them returned. -/
theorem leaves_closeTorn {fs : List (Frame Cleanup)} {o : Option Transfer} {m m' : Machine}
    (h : ((closeTorn exec fs).run m).Leaves o m') :
    o = none ∧ (startAll exec (fs.flatMap (·.pending))).run m = ⟨.returned (), m'⟩ := by
  induction fs generalizing m with
  | nil =>
    obtain ⟨rfl, rfl⟩ := leaves_pure.1 h
    exact ⟨rfl, rfl⟩
  | cons f fs ih =>
    obtain ⟨r, m₁, hc, h⟩ | ⟨t, ht, rfl⟩ := leaves_bind.1 h
    · obtain ⟨_, hs, rfl⟩ | ⟨t, _, rfl⟩ := run_catchUnwind_eq_returned.1 hc
      · obtain ⟨rfl, hr⟩ := ih h
        exact ⟨rfl, (run_startAll_append exec hs).trans hr⟩
      · obtain ⟨_, m₂, _, h⟩ | ⟨t, ht, rfl⟩ := leaves_bind.1 h
        · exact (not_leaves_halt h).elim
        · exact (not_unwound_closeTornUnwinding exec fs m₁ ht).elim
    · cases (leaves_catchUnwind.1 (leaves_of_unwound ht)).2

theorem leaves_teardown {o : Option Transfer} {m m' : Machine}
    (h : ((teardown exec).run m).Leaves o m') :
    o = none ∧ (startAll exec (m.thread.frames.frames.reverse.flatMap (·.pending))).run m.tornDown =
      ⟨.returned (), m'⟩ := leaves_closeTorn exec h

/-- The end of the process is not left. -/
theorem not_leaves_exitProcess {status : Int32} {o : Option Transfer} {m m' : Machine} :
    ¬((exitProcess exec status : Effect α).run m).Leaves o m' := by
  intro h
  obtain ⟨_, m₁, _, h⟩ | ⟨t, ht, _⟩ := leaves_bind.1 h
  · exact not_leaves_halt h
  · cases (leaves_teardown exec (leaves_of_unwound ht)).1

/-- A thread runs its body, and then its teardown; the state of the thread that waits is put aside
meanwhile. -/
theorem run_inThread (body : Effect α) :
    (inThread exec body).run m =
      (do
        let r ← catchUnwind body
        teardown exec
        modifyThread fun _ => m.thread
        pure r : Effect _).run m.threadStarted := rfl

theorem inThread_eq_returned {body : Effect α} {r : Except Transfer α} {m m' : Machine} :
    (inThread exec body).run m = ⟨.returned r, m'⟩ ↔
      ∃ m₁ m₂, (catchUnwind body).run m.threadStarted = ⟨.returned r, m₁⟩ ∧
        (teardown exec).run m₁ = ⟨.returned (), m₂⟩ ∧ m' = { m₂ with thread := m.thread } := by
  rw [run_inThread]
  constructor
  · intro h
    obtain ⟨r', m₁, hb, h'⟩ | ⟨t, _, ht⟩ := leaves_bind.1 (leaves_of_returned h)
    · rw [run_bind_returned hb] at h
      obtain ⟨_, m₂, ht, _⟩ | ⟨t, _, ht⟩ := leaves_bind.1 h'
      · rw [run_bind_returned ht] at h
        cases h
        exact ⟨m₁, m₂, hb, ht, rfl⟩
      · cases ht
    · cases ht
  · rintro ⟨m₁, m₂, hb, ht, rfl⟩
    rw [run_bind_returned hb, run_bind_returned ht]
    rfl

theorem leaves_inThread {body : Effect α} {o : Option Transfer} {m m' : Machine}
    (h : ((inThread exec body).run m).Leaves o m') : o = none := by
  rw [run_inThread] at h
  obtain ⟨r', m₁, hb, h⟩ | ⟨t, ht, rfl⟩ := leaves_bind.1 h
  · obtain ⟨_, m₂, ht, h⟩ | ⟨t, ht, rfl⟩ := leaves_bind.1 h
    · obtain ⟨_, _, _, h⟩ | ⟨t, ht, rfl⟩ := leaves_bind.1 h
      · exact (leaves_pure.1 h).1
      · cases ht
    · exact (leaves_teardown exec (leaves_of_unwound ht)).1
  · cases (leaves_catchUnwind.1 (leaves_of_unwound ht)).2

/-! ## Trapping -/

theorem run_setDispositions (d : Disposition) : ∀ (signals : List FaultSignal) (m : Machine),
    (setDispositions d signals).run m = ⟨.returned (), m.withDispositions fun s =>
      if s ∈ signals then d else m.shared.dispositions s⟩
  | [], m => by simp [setDispositions, Machine.withDispositions]
  | signal :: rest, m => by
    have hset : ∀ s, (if s ∈ rest then d else if s = signal then d else m.shared.dispositions s) =
        if s ∈ signal :: rest then d else m.shared.dispositions s := fun s => by
      by_cases hs : s ∈ rest <;> by_cases hsig : s = signal <;> simp [hs, hsig]
    refine (run_setDispositions d rest _).trans ?_
    exact congrArg (fun ds => (⟨.returned (), m.withDispositions ds⟩ : Outcome Unit)) (funext hset)

theorem run_setTrapping (enabled : Bool) (m : Machine) :
    (setTrapping enabled).run m = ⟨.returned (), m.trappingSet enabled⟩ := by
  unfold setTrapping
  rw [run_bind_returned (run_setDispositions _ _ m)]
  have hall : (fun s => if s ∈ FaultSignal.all then (if enabled then .trap false else .kill)
      else m.shared.dispositions s) = fun _ => if enabled then Disposition.trap false else .kill :=
    funext fun s => if_pos s.mem_all
  rw [hall]
  rfl

theorem run_applySettings (settings : Settings) (m : Machine) :
    (applySettings settings).run m = ⟨.returned (), m.settingsApplied settings⟩ := by
  have hrequest : ∀ m₁ : Machine, (requestTrapping settings.catchFaults).run m₁ =
      ⟨.returned (), if settings.catchFaults || m₁.shared.trapping
        then m₁.trappingSet settings.catchFaults else m₁⟩ := by
    intro m₁
    show (if settings.catchFaults then setTrapping true
      else if m₁.shared.trapping then setTrapping false else pure ()).run m₁ = _
    cases settings.catchFaults with
    | true => exact run_setTrapping true m₁
    | false =>
      cases ht : m₁.shared.trapping with
      | true => exact run_setTrapping false m₁
      | false => rfl
  exact run_bind_returned (hrequest _)

end Effect

end NonlocalExit
