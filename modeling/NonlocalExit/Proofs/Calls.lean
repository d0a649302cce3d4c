import NonlocalExit.Proofs.Operations

/-!
# Calls on their way

`Enters` says which piece of a run is run inside which: a task is run on a machine, and in the
course of it another task is run on another machine.  The label of a call says what waits for the
end of the inner task, and `Label.exit` what is run when an unwind leaves it.

A `Path` lists the calls between two points of a run, innermost first: the call stack.  `Reaches`
is a path from the start of a thread.
-/

namespace NonlocalExit

variable [Declarations]

open Effect

/-- A piece of a run. -/
inductive Task
  | job (j : Job)
  /-- The rest of a block. -/
  | rest (statements : Block)
  | stmt (s : Stmt)
  /-- The dropping of guards of the current block. -/
  | drops (count : Nat)
  | session (status : Int32) (body : Block)
  /-- The exception in the record is sent to a try block. -/
  | dispatch
  | unhandled
  | unexpected

/-- What a task does. -/
def Task.effect (exec : Executor) : Task → Effect Unit
  | job j => exec j
  | rest ss => Stmt.performAll exec ss
  | stmt s => s.perform exec
  | drops count => dropGuards exec count
  | session status body => do let _ ← runBody exec (threadBody exec status body)
  | dispatch => never (Effect.dispatch exec)
  | unhandled => never (Effect.unhandled exec)
  | unexpected => never (Effect.unexpected exec)

/-- What waits for the end of a call. -/
inductive Label
  | plain
  /-- A block, with the guards that it holds. -/
  | block
  /-- A block that is being left. -/
  | leaving
  /-- The dropping of more guards. -/
  | dropping (count : Nat)
  | scope (id : Nat)
  | recover (r : Recovery) (previous : Option Nat) (outer : List Recovery)
  | session (base : Option Nat) (owner : Bool)
  /-- The body of a try block. -/
  | attempt (link : Nat)
  /-- A clause of a try block, or what is done about an exception that escaped it. -/
  | clause (link : Nat)
  | hook (kind : HookKind) (link : Nat)
  /-- Something that stops every unwind. -/
  | foreign
  /-- An unwind that goes on afterwards. -/
  | unwinding
  deriving DecidableEq

/-- What is waiting after something that was left in some way. -/
def Label.after (l : Label) : Option Transfer → Label
  | none => l
  | some _ => unwinding

/-- Comes back to the level before. -/
def Effect.unprotect (link : Nat) : Effect Unit := do
  modifyThread fun t => { t with depth := link }
  step (.protectedUntil link)

/-- Comes back from a hook. -/
def Effect.hookLeft (kind : HookKind) (link : Nat) : Effect Unit := do
  step (.hookEnded kind)
  if kind = .onThrow then modifyThread fun t => { t with hookRunning := false }
  unprotect link

/-- What is run when an unwind leaves the call. -/
def Label.exit (exec : Executor) : Label → Effect Unit
  | plain | foreign | unwinding => pure ()
  | block => leaveBlock exec
  | leaving => popHeld
  | dropping count => dropGuards exec count
  | scope id => leaveFrame exec id
  | recover r previous outer => endRecovery r.frame previous outer
  | session base owner => do
    exec (.closeAbove base)
    closeSession owner
  | attempt link | clause link => unprotect link
  | hook kind link => hookLeft kind link

/-- Whether the unwind goes on after that. -/
def Label.Passes (t : Transfer) : Label → Prop
  | plain | block | leaving | dropping _ | scope _ => True
  | recover r _ _ => ∀ code, t ≠ .panicking code r.token
  | session _ _ => ∀ status, t ≠ .threadExit status
  | attempt _ | clause _ | hook _ _ => t.escape? = none
  | foreign | unwinding => False

namespace Machine

/-- The machine with another exception in the record. -/
def withCurrent (e : Option Exception) (m : Machine) : Machine :=
  { m with thread := { m.thread with current := e } }

/-- The machine one level deeper. -/
def deeper (m : Machine) : Machine :=
  { m with thread := { m.thread with depth := m.thread.depth + 1 } }.note
    (.step (.protectedFrom m.thread.depth))

/-- The machine at the start of a hook. -/
def hookCalled (kind : HookKind) (e : Exception) (m : Machine) : Machine :=
  m.deeper.note (.event (.hook kind e))

/-- The machine at the start of the throw hook. -/
def throwHookCalled (e : Exception) (m : Machine) : Machine :=
  let m := (m.note (.step (.dispatched e))).deeper
  { m with thread := { m.thread with hookRunning := true } }.note (.event (.hook .onThrow e))

/-- The machine with the dispatch of the exception in the record written down. -/
def dispatchNoted (m : Machine) : Machine :=
  match m.thread.current with
  | some e => m.note (.step (.dispatched e))
  | none => m

/-- The machine back on the level before. -/
def unprotected (link : Nat) (m : Machine) : Machine :=
  { m with thread := { m.thread with depth := link } }.note (.step (.protectedUntil link))

/-- The machine after a hook was left, back on the level before. -/
def hookEnded (kind : HookKind) (link : Nat) (m : Machine) : Machine :=
  (m.note (.step (.hookEnded kind))).unprotected link

/-- The machine after the throw hook was left. -/
def throwHookLeft (link : Nat) (m : Machine) : Machine :=
  let m := m.note (.step (.hookEnded .onThrow))
  { m with thread := { m.thread with hookRunning := false } }.unprotected link

/-- The machine after a guard was dropped, when its frame is to be closed. -/
def leaving (id : Nat) (m : Machine) : Machine := m.note (.log (.leftFrame id))

/-- The machine with a frame opened for a scope. -/
def scopeEntered (m : Machine) : Machine :=
  m.opened.note (.log (.enteredFrame m.thread.frames.nextId))

/-- The machine at the start of a cleanup that is registered while the storage is torn down. -/
def startedLate (c : Cleanup) (m : Machine) : Machine :=
  (m.serialTaken.note (.step (.registered c.serial none))).starting c

/-- The machine with a stage of a try block written down. -/
def stage (link : Nat) (before after : Stage) (m : Machine) : Machine :=
  m.note (.log (.stage link before after))

/-- The machine with a warning of every completion clause after the first. -/
def warned : List Block → Machine → Machine
  | [], m | [_], m => m
  | _ :: b :: rest, m => warned (b :: rest) (m.note (.log .secondFinally))

/-- The machine at the start of the body of a try block. -/
def tryEntered (clauses : List (Trigger × Block)) (m : Machine) : Machine :=
  (m.warned (TryBlock.completionsOf clauses)).deeper.stage m.thread.depth .trying .trying

/-- The machine with a warning of every clause that was passed over though its tag agreed. -/
def passedOver (e : Exception) : List (Trigger × Block) → Machine → Machine
  | [], m => m
  | (.typed t, _) :: rest, m =>
    if e.tag = t.tag then
      if e.type = t then m else passedOver e rest (m.note (.log (.tagClash e.tag)))
    else passedOver e rest m
  | (.any, _) :: _, m => m
  | (.completion, _) :: rest, m => passedOver e rest m

/-- The machine at the start of a clause. -/
def clauseEntered (link : Nat) (e : Exception) (clauses : List (Trigger × Block)) (start : Event)
    (m : Machine) : Machine :=
  ((m.passedOver e clauses).stage link .catching .unexpected).note (.event start)

/-- The machine at the start of a completion clause. -/
def completionEntered (link : Nat) (m : Machine) : Machine :=
  (m.stage link .finishing .unexpected).note (.event .completing)

end Machine

namespace TryBlock

/-- The try block of a declaration. -/
def declared (exec : Executor) (body : Block) (clauses : List (Trigger × Block)) : TryBlock where
  body := exec (.block body)
  catches := catchesOf exec clauses
  completion := (completionsOf clauses).getLast?.map fun final => do
    report .completing
    exec (.block final)

/-- The first clause that matches an exception. -/
def firstMatch (e : Exception) : List (Trigger × Block) → Option (Trigger × Block)
  | [] => none
  | (.typed t, body) :: rest =>
    if e.tag = t.tag ∧ e.type = t then some (.typed t, body) else firstMatch e rest
  | (.any, body) :: _ => some (.any, body)
  | (.completion, _) :: rest => firstMatch e rest

/-- What is reported when a clause starts. -/
def start? (e : Exception) : Trigger → Option Event
  | .typed t => (e.downcast? t).map .caught
  | .any => some (.caughtAny e)
  | .completion => none

/-- The body, up to the search for a clause. -/
def bodyStage (exec : Executor) (body : Block) (link : Nat) : Effect (Option Exception) := do
  let escaped ← TryBlock.runBody exec (exec (.block body))
  advance link .trying .catching
  pure escaped

/-- The body and the clause that it calls for. -/
def clauseStage (exec : Executor) (body : Block) (clauses : List (Trigger × Block))
    (outer : Option Exception) (link : Nat) : Effect (Option Exception) := do
  let escaped ← bodyStage exec body link
  let pending ← runCatches exec (catchesOf exec clauses) outer link escaped
  advance link .catching .finishing
  pure pending

end TryBlock

/-- A piece of a run, on the machine on which it is run and within a bound. -/
structure Activation where
  fuel : Nat
  task : Task
  machine : Machine

/-- What the piece does. -/
def Activation.run (a : Activation) : Outcome Unit :=
  (a.task.effect (Job.run a.fuel)).run a.machine

/-- What is closed when an unwind has left what a call waits for. -/
def Label.closing? (fuel : Nat) (m : Machine) : Label → Option Activation
  | block => some ⟨fuel, .drops (m.thread.held.headD []).length, m⟩
  | dropping count => some ⟨fuel, .drops count, m⟩
  | scope id => some ⟨fuel, .job (.close id), m.leaving id⟩
  | session base _ => some ⟨fuel, .job (.closeAbove base), m⟩
  | _ => none

/-- Which pieces are run in the course of which, and what waits for their end. -/
inductive Enters : Activation → Label → Activation → Prop
  | block (n ss m) :
    Enters ⟨n + 1, .job (.block ss), m⟩ .block ⟨n, .rest ss, m.withHeld ([] :: m.thread.held)⟩
  | blockLeft {n ss o} {m m₁ : Machine}
    (h : ((Stmt.performAll (Job.run n) ss).run (m.withHeld ([] :: m.thread.held))).Leaves o m₁) :
    Enters ⟨n + 1, .job (.block ss), m⟩ (Label.leaving.after o)
      ⟨n, .drops (m₁.thread.held.headD []).length, m₁⟩
  | cleanup (n) {id f c cs} {m : Machine} (ht : m.thread.torn = false)
    (hf : Frame.find? id m.thread.frames.frames = some f) (hp : f.pending = c :: cs) :
    Enters ⟨n + 1, .job (.close id), m⟩ .plain
      ⟨n, .job (.block c.body), (m.withPending id cs).starting c⟩
  | closeNext {n id f c cs} {m m₁ : Machine} (ht : m.thread.torn = false)
    (hf : Frame.find? id m.thread.frames.frames = some f) (hp : f.pending = c :: cs)
    (h : (startCleanup (Job.run n) c).run (m.withPending id cs) = ⟨.returned (), m₁⟩) :
    Enters ⟨n + 1, .job (.close id), m⟩ .plain ⟨n, .job (.close id), m₁⟩
  | closeInner (n) {base f fs} {m : Machine} (ht : m.thread.torn = false)
    (hf : m.thread.frames.frames = f :: fs) (hb : ¬base.any (f.id ≤ ·)) :
    Enters ⟨n + 1, .job (.closeAbove base), m⟩ .plain ⟨n, .job (.close f.id), m⟩
  | closeAboveNext {n base f fs} {m m₁ : Machine} (ht : m.thread.torn = false)
    (hf : m.thread.frames.frames = f :: fs) (hb : ¬base.any (f.id ≤ ·))
    (h : (Job.run n (.close f.id)).run m = ⟨.returned (), m₁⟩) :
    Enters ⟨n + 1, .job (.closeAbove base), m⟩ .plain ⟨n, .job (.closeAbove base), m₁⟩
  | passed (n code) {f fs} {m : Machine} (ht : m.thread.torn = false)
    (hf : m.thread.frames.frames = f :: fs) (hm : f.mark = none) :
    Enters ⟨n + 1, .job (.walk code), m⟩ .plain
      ⟨n, .job (.close f.id), m.note (.step (.passed f.id))⟩
  | walkNext {n code f fs} {m m₁ : Machine} (ht : m.thread.torn = false)
    (hf : m.thread.frames.frames = f :: fs) (hm : f.mark = none)
    (h : (Job.run n (.close f.id)).run (m.note (.step (.passed f.id))) = ⟨.returned (), m₁⟩) :
    Enters ⟨n + 1, .job (.walk code), m⟩ .plain ⟨n, .job (.walk code), m₁⟩
  | first (n s ss m) : Enters ⟨n, .rest (s :: ss), m⟩ .plain ⟨n, .stmt s, m⟩
  | next {n s ss m m₁} (h : (s.perform (Job.run n)).run m = ⟨.returned (), m₁⟩) :
    Enters ⟨n, .rest (s :: ss), m⟩ .plain ⟨n, .rest ss, m₁⟩
  | drop (n count) {g own outer} {m : Machine} (hh : m.thread.held = (g :: own) :: outer) :
    Enters ⟨n, .drops (count + 1), m⟩ (.dropping count)
      ⟨n, .job (.close g.frame), (m.withHeld (own :: outer)).leaving g.frame⟩
  | dropNext {n count g own outer o} {m m₁ : Machine} (hh : m.thread.held = (g :: own) :: outer)
    (h : ((Job.run n (.close g.frame)).run
      ((m.withHeld (own :: outer)).leaving g.frame)).Leaves o m₁) :
    Enters ⟨n, .drops (count + 1), m⟩ (Label.plain.after o) ⟨n, .drops count, m₁⟩
  | repeated {n times i body m m₁} (hi : i < times)
    (h : (Effect.times (Job.run n (.block body)) i).run m = ⟨.returned (), m₁⟩) :
    Enters ⟨n, .stmt (.repeated times body), m⟩ .plain ⟨n, .job (.block body), m₁⟩
  | scope (n body) {m : Machine} (ht : m.thread.torn = false) :
    Enters ⟨n, .stmt (.scope body), m⟩ (.scope m.thread.frames.nextId)
      ⟨n, .job (.block body), m.scopeEntered⟩
  | scopeLeft {n body o} {m m₁ : Machine} (ht : m.thread.torn = false)
    (h : ((Job.run n (.block body)).run m.scopeEntered).Leaves o m₁) :
    Enters ⟨n, .stmt (.scope body), m⟩ (Label.plain.after o)
      ⟨n, .job (.close m.thread.frames.nextId), m₁.leaving m.thread.frames.nextId⟩
  | leave (n) {name g held} {m : Machine} (h : pickHeld name m.thread.held = some (g, held)) :
    Enters ⟨n, .stmt (.leave name), m⟩ .plain
      ⟨n, .job (.close g.frame), (m.withHeld held).leaving g.frame⟩
  | deferLate (n body) {m : Machine} (ht : m.thread.torn = true) :
    Enters ⟨n, .stmt (.defer body), m⟩ .plain
      ⟨n, .job (.block body), m.startedLate ⟨m.shared.nextSerial, none, body⟩⟩
  | deferWithLate (n a body) {m : Machine} (ht : m.thread.torn = true) :
    Enters ⟨n, .stmt (.deferWith a body), m⟩ .plain
      ⟨n, .job (.block body), m.startedLate ⟨m.shared.nextSerial, some a, body⟩⟩
  | recover (n value body) {m : Machine} (ht : m.thread.torn = false) :
    Enters ⟨n, .stmt (.recover value body), m⟩
      (.recover ⟨m.shared.nextToken, m.rootId⟩ m.tokenTaken.markFound m.thread.recovering)
      ⟨n, .job (.block body), m.recoveryEntered⟩
  | run (n status body m) :
    Enters ⟨n, .stmt (.run status body), m⟩ .plain ⟨n, .session status body, m⟩
  | session (n status body) {m : Machine} (ht : m.thread.torn = false) :
    Enters ⟨n, .session status body, m⟩ (.session m.innermostId (!m.thread.initialised))
      ⟨n, .job (.block body), m.sessionEntered⟩
  | sessionLeft {n status body o} {m m₁ : Machine} (ht : m.thread.torn = false)
    (h : ((Job.run n (.block body)).run m.sessionEntered).Leaves o m₁) :
    Enters ⟨n, .session status body, m⟩ .plain ⟨n, .job (.closeAbove m.innermostId), m₁⟩
  | intercept (n body m) :
    Enters ⟨n, .stmt (.intercept body), m⟩ .foreign ⟨n, .job (.block body), m⟩
  | panic (n code) (m : Machine) :
    Enters ⟨n, .stmt (.panic (some code)), m⟩ .plain
      ⟨n, .job (.walk code), m.note (.log (.panicking code))⟩
  | throw (n v) (m : Machine) :
    Enters ⟨n, .stmt (.throw v), m⟩ .plain
      ⟨n, .dispatch, (m.note (.log (.throwing v.type.tag))).withCurrent (some (.of v))⟩
  | fault (n) {cause deferred} {m : Machine} (h : m.reception cause = .trapped deferred) :
    Enters ⟨n, .stmt (.fault cause), m⟩ .plain ⟨n, .dispatch,
      (m.trapEntered deferred cause.signal).withCurrent (some (.of cause.fault.toValue))⟩
  | rethrowNone (n) {m : Machine} (h : m.thread.current = none) :
    Enters ⟨n, .stmt .rethrow, m⟩ .plain
      ⟨n, .unexpected, m.note (.log .rethrowWithoutException)⟩
  | rethrowOutside (n) {e} {m : Machine} (h : m.thread.current = some e)
    (hd : m.thread.depth = 0) : Enters ⟨n, .stmt .rethrow, m⟩ .plain ⟨n, .unhandled, m⟩
  | throwHook (n) {b e} {m : Machine} (hb : m.shared.hooks.onThrow = some b)
    (hr : m.thread.hookRunning = false) (he : m.thread.current = some e) :
    Enters ⟨n, .dispatch, m⟩ (.hook .onThrow m.thread.depth)
      ⟨n, .job (.block b), m.throwHookCalled e⟩
  | throwHookThrew {n b e} {m m₁ : Machine} (hb : m.shared.hooks.onThrow = some b)
    (hr : m.thread.hookRunning = false) (he : m.thread.current = some e)
    (h : (guarded (runThrowHook (Job.run n) b e)).run (m.note (.step (.dispatched e))) =
      ⟨.returned true, m₁⟩) : Enters ⟨n, .dispatch, m⟩ .plain ⟨n, .unexpected, m₁⟩
  | outside {n} {m m₁ : Machine}
    (h : (noteDispatch m.thread.current >>= fun _ => callThrowHook (Job.run n)).run m =
      ⟨.returned (), m₁⟩) (hd : m₁.thread.depth = 0) :
    Enters ⟨n, .dispatch, m⟩ .plain ⟨n, .unhandled, m₁⟩
  | unhandledHook (n) {b e} {m : Machine} (hb : m.shared.hooks.onUnhandled = some b)
    (he : m.thread.current = some e) :
    Enters ⟨n, .unhandled, m⟩ (.hook .onUnhandled m.thread.depth)
      ⟨n, .job (.block b), m.hookCalled .onUnhandled e⟩
  | unhandledHookThrew {n b e} {m m₁ : Machine} (hb : m.shared.hooks.onUnhandled = some b)
    (he : m.thread.current = some e)
    (h : (guarded (callHook (Job.run n) .onUnhandled b e)).run m = ⟨.returned true, m₁⟩) :
    Enters ⟨n, .unhandled, m⟩ .plain ⟨n, .unexpected, m₁⟩
  | unexpectedHook (n) {b e} {m : Machine} (hb : m.shared.hooks.onUnexpected = some b)
    (he : m.thread.current = some e) :
    Enters ⟨n, .unexpected, m⟩ (.hook .onUnexpected m.thread.depth)
      ⟨n, .job (.block b), m.hookCalled .onUnexpected e⟩
  | attempt (n body clauses) (m : Machine) :
    Enters ⟨n, .stmt (.attempt body clauses), m⟩ (.attempt m.thread.depth)
      ⟨n, .job (.block body), m.tryEntered clauses⟩
  | recordEmpty {n body clauses t escape} {m m₁ : Machine}
    (h : (Job.run n (.block body)).run (m.tryEntered clauses) = ⟨.unwound t, m₁⟩)
    (ht : t.escape? = some escape) (hc : m₁.thread.current = none) :
    Enters ⟨n, .stmt (.attempt body clauses), m⟩ (.clause m.thread.depth)
      ⟨n, .unexpected, m₁.note (.log (.emptyRecord escape))⟩
  | clause {n body clauses trigger b e start} {m m₁ : Machine}
    (h : (TryBlock.bodyStage (Job.run n) body m.thread.depth).run (m.tryEntered clauses) =
      ⟨.returned (some e), m₁⟩) (hm : TryBlock.firstMatch e clauses = some (trigger, b))
    (hs : TryBlock.start? e trigger = some start) :
    Enters ⟨n, .stmt (.attempt body clauses), m⟩ (.clause m.thread.depth)
      ⟨n, .job (.block b), m₁.clauseEntered m.thread.depth e clauses start⟩
  | clauseThrew {n body clauses trigger b e start} {m m₁ m₂ : Machine}
    (h : (TryBlock.bodyStage (Job.run n) body m.thread.depth).run (m.tryEntered clauses) =
      ⟨.returned (some e), m₁⟩) (hm : TryBlock.firstMatch e clauses = some (trigger, b))
    (hs : TryBlock.start? e trigger = some start)
    (hb : (Job.run n (.block b)).run (m₁.clauseEntered m.thread.depth e clauses start) =
      ⟨.unwound .thrown, m₂⟩) :
    Enters ⟨n, .stmt (.attempt body clauses), m⟩ (.clause m.thread.depth) ⟨n, .unexpected, m₂⟩
  | completion {n body clauses pending final} {m m₁ : Machine}
    (h : (TryBlock.clauseStage (Job.run n) body clauses m.thread.current m.thread.depth).run
      (m.tryEntered clauses) = ⟨.returned pending, m₁⟩)
    (hf : (TryBlock.completionsOf clauses).getLast? = some final) :
    Enters ⟨n, .stmt (.attempt body clauses), m⟩ (.clause m.thread.depth)
      ⟨n, .job (.block final), m₁.completionEntered m.thread.depth⟩
  | completionThrew {n body clauses pending final t} {m m₁ m₂ : Machine}
    (h : (TryBlock.clauseStage (Job.run n) body clauses m.thread.current m.thread.depth).run
      (m.tryEntered clauses) = ⟨.returned pending, m₁⟩)
    (hf : (TryBlock.completionsOf clauses).getLast? = some final)
    (hb : (Job.run n (.block final)).run (m₁.completionEntered m.thread.depth) = ⟨.unwound t, m₂⟩)
    (ht : t.escape?.isSome) :
    Enters ⟨n, .stmt (.attempt body clauses), m⟩ (.clause m.thread.depth) ⟨n, .unexpected, m₂⟩
  | again {n body clauses e} {m m₁ : Machine}
    (h : (protect (TryBlock.runStages (Job.run n) (.declared (Job.run n) body clauses)
      m.thread.current)).run (m.warned (TryBlock.completionsOf clauses)) =
        ⟨.returned (some e), m₁⟩) :
    Enters ⟨n, .stmt (.attempt body clauses), m⟩ .plain ⟨n, .dispatch, m₁.withCurrent (some e)⟩

/-- The calls on the way from one piece of a run to another, innermost first. -/
inductive Path (a : Activation) : List (Label × Activation) → Activation → Prop
  | here : Path a [] a
  | call {K b l c} (h : Path a K b) (e : Enters b l c) : Path a ((l, b) :: K) c

/-- Where the code of a thread starts: at its body, on a thread that has not done anything yet, or
at a cleanup of its teardown. -/
inductive Activation.IsRoot : Activation → Prop
  | body {n b number blocked} {m : Machine} (hm : m.thread = .new number blocked)
    (hn : number < m.shared.nextThread) : IsRoot ⟨n, .job (.block b), m⟩
  | session {n status b number blocked} {m : Machine} (hm : m.thread = .new number blocked)
    (hn : number < m.shared.nextThread) : IsRoot ⟨n, .session status b, m⟩
  | teardown {n b} {m : Machine} (ht : m.thread.torn = true) (hf : m.thread.frames.frames = [])
    (hr : m.thread.recovering = []) (hn : m.thread.number < m.shared.nextThread) :
    IsRoot ⟨n, .job (.block b), m⟩

/-- Whether a thread comes to a piece, through some calls. -/
def Reaches (K : List (Label × Activation)) (a : Activation) : Prop :=
  ∃ root : Activation, root.IsRoot ∧ Path root K a

/-- Whether a piece does nothing of its own but close frames. -/
def Task.Closes : Task → Prop
  | .job (.close _) | .job (.closeAbove _) | .job (.walk _) | .drops _ => True
  | _ => False

/-- Which cleanups are started where frames are closed. -/
inductive StartsCleanup : Activation → Activation → Prop
  | here {n id m l k body m'}
    (h : Enters ⟨n, .job (.close id), m⟩ l ⟨k, .job (.block body), m'⟩) :
    StartsCleanup ⟨n, .job (.close id), m⟩ ⟨k, .job (.block body), m'⟩
  | later {a b c l} (h : Enters a l b) (hb : b.task.Closes) (hc : StartsCleanup b c) :
    StartsCleanup a c

namespace StartsCleanup

variable {n id : Nat} {m : Machine} {d : Activation} {f : Frame Cleanup}

/-- Closing a frame starts the newest cleanup, and those that are found later. -/
theorem of_close {c : Cleanup} {cs : List Cleanup}
    (h : StartsCleanup ⟨n + 1, .job (.close id), m⟩ d)
    (hf : Frame.find? id m.thread.frames.frames = some f) (hp : f.pending = c :: cs) :
    d = ⟨n, .job (.block c.body), (m.withPending id cs).starting c⟩ ∨
      ∃ m₁, (startCleanup (Job.run n) c).run (m.withPending id cs) = ⟨.returned (), m₁⟩ ∧
        StartsCleanup ⟨n, .job (.close id), m₁⟩ d := by
  cases h with
  | here h =>
    cases h with
    | cleanup n ht hf' hp' =>
      obtain rfl := Option.some.inj (hf'.symm.trans hf)
      obtain ⟨rfl, rfl⟩ := List.cons.inj (hp'.symm.trans hp)
      exact .inl rfl
  | later h hb hc =>
    cases h with
    | cleanup n ht hf' hp' => exact hb.elim
    | closeNext ht hf' hp' h =>
      obtain rfl := Option.some.inj (hf'.symm.trans hf)
      obtain ⟨rfl, rfl⟩ := List.cons.inj (hp'.symm.trans hp)
      exact .inr ⟨_, h, hc⟩

/-- Where nothing waits in a frame no cleanup is started. -/
theorem not_close (hf : Frame.find? id m.thread.frames.frames = some f) (hp : f.pending = []) :
    ¬StartsCleanup ⟨n, .job (.close id), m⟩ d := by
  intro h
  cases h with
  | here h =>
    cases h with
    | cleanup n ht hf' hp' =>
      obtain rfl := Option.some.inj (hf'.symm.trans hf)
      rw [hp] at hp'
      cases hp'
  | later h hb hc =>
    cases h with
    | cleanup n ht hf' hp' => exact hb.elim
    | closeNext ht hf' hp' h =>
      obtain rfl := Option.some.inj (hf'.symm.trans hf)
      rw [hp] at hp'
      cases hp'

/-- Closing down to a base starts cleanups of the innermost frame, and those that are found
later. -/
theorem of_closeAbove {base : Option Nat} {fs : List (Frame Cleanup)}
    (h : StartsCleanup ⟨n + 1, .job (.closeAbove base), m⟩ d)
    (hf : m.thread.frames.frames = f :: fs) :
    StartsCleanup ⟨n, .job (.close f.id), m⟩ d ∨
      ∃ m₁, (Job.run n (.close f.id)).run m = ⟨.returned (), m₁⟩ ∧
        StartsCleanup ⟨n, .job (.closeAbove base), m₁⟩ d := by
  cases h with
  | later h hb hc =>
    cases h with
    | closeInner n ht hf' hb' =>
      obtain ⟨rfl, rfl⟩ := List.cons.inj (hf'.symm.trans hf)
      exact .inl hc
    | closeAboveNext ht hf' hb' h =>
      obtain ⟨rfl, rfl⟩ := List.cons.inj (hf'.symm.trans hf)
      exact .inr ⟨_, h, hc⟩

/-- The walk of a panic starts cleanups of the innermost frame, and those that are found later. -/
theorem of_walk {code : ErrorCode} {fs : List (Frame Cleanup)}
    (h : StartsCleanup ⟨n + 1, .job (.walk code), m⟩ d)
    (hf : m.thread.frames.frames = f :: fs) :
    StartsCleanup ⟨n, .job (.close f.id), m.note (.step (.passed f.id))⟩ d ∨
      ∃ m₁, (Job.run n (.close f.id)).run (m.note (.step (.passed f.id))) = ⟨.returned (), m₁⟩ ∧
        StartsCleanup ⟨n, .job (.walk code), m₁⟩ d := by
  cases h with
  | later h hb hc =>
    cases h with
    | passed n code ht hf' hm =>
      obtain ⟨rfl, rfl⟩ := List.cons.inj (hf'.symm.trans hf)
      exact .inl hc
    | walkNext ht hf' hm h =>
      obtain ⟨rfl, rfl⟩ := List.cons.inj (hf'.symm.trans hf)
      exact .inr ⟨_, h, hc⟩

/-- Where no frame is open no cleanup is started. -/
theorem not_closeAbove_nil {base : Option Nat} (hf : m.thread.frames.frames = []) :
    ¬StartsCleanup ⟨n, .job (.closeAbove base), m⟩ d := by
  intro h
  cases h with
  | later h hb hc =>
    cases h with
    | closeInner n ht hf' => cases hf'.symm.trans hf
    | closeAboveNext ht hf' => cases hf'.symm.trans hf

theorem not_walk_nil {code : ErrorCode} (hf : m.thread.frames.frames = []) :
    ¬StartsCleanup ⟨n, .job (.walk code), m⟩ d := by
  intro h
  cases h with
  | later h hb hc =>
    cases h with
    | passed n code ht hf' => cases hf'.symm.trans hf
    | walkNext ht hf' => cases hf'.symm.trans hf

/-- Where no guard is dropped no cleanup is started. -/
theorem not_drops_zero : ¬StartsCleanup ⟨n, .drops 0, m⟩ d := by
  intro h
  cases h with
  | later h hb hc => cases h

end StartsCleanup

end NonlocalExit
