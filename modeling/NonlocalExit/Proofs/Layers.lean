import NonlocalExit.Proofs.Closings
import NonlocalExit.Proofs.Levels
import NonlocalExit.Proofs.Passing

/-!
# The layers that an exception goes through

The layers are the blocks, scopes, recoveries, sessions and try blocks around a throw.  `LayerLeft`
says what is run when an exception leaves a layer, and `layer_left` that this is what happens when
all that is run for the exception completes.
-/

namespace NonlocalExit

variable [Declarations]

open Effect Machine

/-- Whether a piece is a layer around what it calls. -/
def Label.IsLayer : Label → Task → Prop
  | plain, .rest _ | plain, .stmt (.repeated ..) | plain, .stmt (.run ..) => True
  | block, .job (.block _) => True
  | scope _, .stmt (.scope _) => True
  | recover .., .stmt (.recover ..) => True
  | session .., .session .. => True
  | attempt _, .stmt (.attempt ..) => True
  | _, _ => False

/-- Which pieces of the program are run for an exception that leaves a layer, or that is thrown. -/
inductive Serves : Service → Activation → Activation → Prop
  | cleanup {x l y d} (h : Enters x l y) (hy : y.task.Closes) (hd : StartsCleanup y d) :
    Serves .cleanup x d
  | clause {n body clauses trigger b e start} {m m₁ : Machine}
    (h : (TryBlock.bodyStage (Job.run n) body m.thread.depth).run (m.tryEntered clauses) =
      ⟨.returned (some e), m₁⟩) (hm : TryBlock.firstMatch e clauses = some (trigger, b))
    (hs : TryBlock.start? e trigger = some start) :
    Serves .clause ⟨n, .stmt (.attempt body clauses), m⟩
      ⟨n, .job (.block b), m₁.clauseEntered m.thread.depth e clauses start⟩
  | completion {n body clauses pending final} {m m₁ : Machine}
    (h : (TryBlock.clauseStage (Job.run n) body clauses m.thread.current m.thread.depth).run
      (m.tryEntered clauses) = ⟨.returned pending, m₁⟩)
    (hf : (TryBlock.completionsOf clauses).getLast? = some final) :
    Serves .completion ⟨n, .stmt (.attempt body clauses), m⟩
      ⟨n, .job (.block final), m₁.completionEntered m.thread.depth⟩
  | hook {x l k m link d} (h : Enters x l ⟨k, .dispatch, m⟩)
    (hd : Enters ⟨k, .dispatch, m⟩ (.hook .onThrow link) d) : Serves .hook x d

namespace Serves

variable {s : Service} {n : Nat} {ss : Block} {m : Machine} {d : Activation}

theorem not_rest : ¬Serves s ⟨n, .rest ss, m⟩ d := by
  intro h
  cases h with
  | cleanup h hy hd => cases h <;> exact hy
  | hook h hd => cases h

/-- For an exception that leaves a block, the cleanups behind its guards are run. -/
theorem of_block (h : Serves s ⟨n + 1, .job (.block ss), m⟩ d) :
    ∃ o m₁, (Activation.run ⟨n, .rest ss, m.withHeld ([] :: m.thread.held)⟩).Leaves o m₁ ∧
      StartsCleanup ⟨n, .drops (m₁.thread.held.headD []).length, m₁⟩ d := by
  cases h with
  | cleanup h hy hd =>
    cases h with
    | block => exact hy.elim
    | blockLeft h => exact ⟨_, _, h, hd⟩
  | hook h hd => cases h

end Serves

namespace Machine

/-- The machine after a session has given up what it owns. -/
def sessionClosed (owner : Bool) (m : Machine) : Machine :=
  if owner then { m with thread := { m.thread with initialised := false } } else m

end Machine

/-! ## What is run in each layer -/

/-- How an exception is sent to a try block: the throw hook is called first, if it is set and does
not run already. -/
inductive Dispatched (e : Exception) : Machine → Machine → Prop
  | quiet {m} (h : m.shared.hooks.onThrow = none ∨ m.thread.hookRunning = true) :
    Dispatched e m (m.note (.step (.dispatched e)))
  | hook {k m m₁ b} (hb : m.shared.hooks.onThrow = some b) (hr : m.thread.hookRunning = false)
    (hc : Activation.Completes .hook ⟨k, .job (.block b), m.throwHookCalled e⟩ m₁) :
    Dispatched e m (m₁.throwHookLeft m.thread.depth)

/-- How an exception goes through the clauses of a try block: none matches, or the first one that
does throws it again. -/
inductive ClauseRan (e : Exception) (link : Nat) (clauses : List (Trigger × Block)) :
    Machine → Machine → Prop
  | none {m} (h : TryBlock.firstMatch e clauses = none) :
    ClauseRan e link clauses m (m.passedOver e clauses)
  | rethrown {k m m₁ trigger b start} (h : TryBlock.firstMatch e clauses = some (trigger, b))
    (hs : TryBlock.start? e trigger = some start)
    (hc : Activation.Completes .clause
      ⟨k, .job (.block b), m.clauseEntered link e clauses start⟩ m₁) :
    ClauseRan e link clauses m (m₁.stage link .unexpected .catching)

/-- How the completion clause of a try block is run, if there is one. -/
inductive CompletionRan (link : Nat) (clauses : List (Trigger × Block)) :
    Machine → Machine → Prop
  | none {m} (h : (TryBlock.completionsOf clauses).getLast? = none) :
    CompletionRan link clauses m m
  | completed {k m m₁ final} (h : (TryBlock.completionsOf clauses).getLast? = some final)
    (hc : Activation.Completes .completion ⟨k, .job (.block final), m.completionEntered link⟩ m₁) :
    CompletionRan link clauses m (m₁.stage link .unexpected .finishing)

/-- What is run from where an exception comes to a layer to where it has left it, in this order and
nothing besides.  The frames that were opened when the layer was entered are cleared of what waited
in them when the exception was thrown, on the machine `origin`. -/
inductive LayerLeft (e : Exception) (origin : Machine) : Activation → Machine → Machine → Prop
  | rest {n ss m m₁} : LayerLeft e origin ⟨n, .rest ss, m⟩ m₁ m₁
  | repeated {n times body m m₁} : LayerLeft e origin ⟨n, .stmt (.repeated times body), m⟩ m₁ m₁
  | run {n status body m m₁} : LayerLeft e origin ⟨n, .stmt (.run status body), m⟩ m₁ m₁
  | block {n ss m m₁ m₂ gone} (h : Drops (m₁.thread.held.headD []).length m₁ gone m₂) :
    LayerLeft e origin ⟨n, .job (.block ss), m⟩ m₁ (m₂.withHeld m₂.thread.held.tail)
  | scope {n body m m₁ m₂ cs}
    (h : Closes m.thread.frames.nextId (m₁.leaving m.thread.frames.nextId) cs m₂)
    (hc : m.thread.frames.nextId ∈ origin.openIds →
      Clears m.thread.frames.nextId origin m₂ cs) :
    LayerLeft e origin ⟨n, .stmt (.scope body), m⟩ m₁ m₂
  | recover {n value body m m₁} : LayerLeft e origin ⟨n, .stmt (.recover value body), m⟩ m₁
      ((m₁.withMark m.rootId m.tokenTaken.markFound).withRecovering m.thread.recovering)
  | session {n status body m m₁ m₂ gone} (h : ClosesAbove m.innermostId m₁ gone m₂)
    (hc : ∀ id ∈ origin.openIds, m.thread.frames.nextId ≤ id →
      id < m.sessionEntered.thread.frames.nextId → ∃ cs, (id, cs) ∈ gone ∧ Clears id origin m₂ cs) :
    LayerLeft e origin ⟨n, .session status body, m⟩ m₁ (m₂.sessionClosed (!m.thread.initialised))
  | attempt {n body clauses m m₁ m₂ m₃ m₄}
    (hc : ClauseRan e m.thread.depth clauses (m₁.stage m.thread.depth .trying .catching) m₂)
    (hf : CompletionRan m.thread.depth clauses (m₂.stage m.thread.depth .catching .finishing) m₃)
    (hd : Dispatched e (((m₃.stage m.thread.depth .finishing .propagating).unprotected
      m.thread.depth).withCurrent (some e)) m₄) :
    LayerLeft e origin ⟨n, .stmt (.attempt body clauses), m⟩ m₁ m₄

namespace Machine.NotesOnly

variable {P : Entry → Prop}

theorem unprotected {link : Nat} (h : P (.step (.protectedUntil link))) (m : Machine) :
    m.NotesOnly P (m.unprotected link) := by
  have hlevel : m.NotesOnly P { m with thread := { m.thread with depth := link } } :=
    of_aside (.ofThread rfl rfl rfl rfl rfl) rfl
  exact hlevel.trans (note h _)

theorem throwHookLeft {link : Nat} (hended : P (.step (.hookEnded .onThrow)))
    (hlevel : P (.step (.protectedUntil link))) (m : Machine) :
    m.NotesOnly P (m.throwHookLeft link) := by
  have hflag : (m.note (.step (.hookEnded .onThrow))).NotesOnly P
      { m.note (.step (.hookEnded .onThrow)) with
        thread := { m.thread with hookRunning := false } } :=
    of_aside (.ofThread rfl rfl rfl rfl rfl) rfl
  exact ((note hended m).trans hflag).trans (unprotected hlevel _)

end Machine.NotesOnly

/-! ## Frames outside are spared -/

namespace Machine.Spared

variable {bound : Nat} {m m' : Machine}

theorem ofThread (t : Thread) (hn : t.number = m.thread.number) (hf : t.frames = m.thread.frames)
    (ht : t.torn = m.thread.torn) (hh : t.held = m.thread.held)
    (hr : t.recovering = m.thread.recovering) (hc : t.current = m.thread.current) :
    Spared bound m { m with thread := t } := of_aside (.ofThread hn hf ht hh hr) hc

theorem unprotected (link : Nat) (m : Machine) : Spared bound m (m.unprotected link) :=
  (ofThread { m.thread with depth := link } rfl rfl rfl rfl rfl rfl).trans
    (note (by exact trivial) _)

theorem throwHookCalled (e : Exception) (m : Machine) : Spared bound m (m.throwHookCalled e) := by
  let m₁ := m.note (.step (.dispatched e))
  have hdispatched : Spared bound m m₁ := note (by exact trivial) m
  have hlevel : Spared bound m₁
      { m₁ with thread := { m.thread with depth := m.thread.depth + 1 } } :=
    ofThread _ rfl rfl rfl rfl rfl rfl
  have hdeep : Spared bound m m₁.deeper :=
    (hdispatched.trans hlevel).trans (note (by exact trivial) _)
  have hflag : Spared bound m₁.deeper
      { m₁.deeper with thread := { m₁.deeper.thread with hookRunning := true } } :=
    ofThread _ rfl rfl rfl rfl rfl rfl
  exact (hdeep.trans hflag).trans (note (by exact trivial) _)

theorem throwHookLeft (link : Nat) (m : Machine) : Spared bound m (m.throwHookLeft link) := by
  let m₁ := m.note (.step (.hookEnded .onThrow))
  have hended : Spared bound m m₁ := note (by exact trivial) m
  have hflag : Spared bound m₁ { m₁ with thread := { m.thread with hookRunning := false } } :=
    ofThread _ rfl rfl rfl rfl rfl rfl
  exact (hended.trans hflag).trans (unprotected link _)

theorem sessionClosed (owner : Bool) (m : Machine) : Spared bound m (m.sessionClosed owner) := by
  unfold Machine.sessionClosed
  split
  · exact ofThread { m.thread with initialised := false } rfl rfl rfl rfl rfl rfl
  · exact refl m

theorem staged (link : Nat) (before after : Stage) (m : Machine) :
    Spared bound m (m.stage link before after) := note (by exact trivial) m

theorem passedOver (e : Exception) : ∀ (clauses : List (Trigger × Block)) (m : Machine),
    Spared bound m (m.passedOver e clauses)
  | [], m => refl m
  | (.typed t, _) :: rest, m => by
    unfold Machine.passedOver
    split
    · split
      · exact refl m
      · exact trans (note (by exact trivial) m) (passedOver e rest _)
    · exact passedOver e rest m
  | (.any, _) :: _, m => refl m
  | (.completion, _) :: rest, m => passedOver e rest m

end Machine.Spared

section Spares

variable {e : Exception} {bound link : Nat} {clauses : List (Trigger × Block)} {m m' : Machine}

theorem Dispatched.spared (h : Dispatched e m m') (hb : bound ≤ m.thread.frames.nextId) :
    Spared bound m m' := by
  cases h with
  | quiet h => exact .note (by exact trivial) m
  | hook hbl hr hc =>
    have hcalled : Spared bound m (m.throwHookCalled e) := .throwHookCalled e m
    exact (hcalled.trans (hc.spared.mono (Nat.le_trans hb hcalled.nextId) (Nat.le_refl _))).trans
      (.throwHookLeft _ _)

theorem Dispatched.depth (h : Dispatched e m m') : m'.thread.depth = m.thread.depth := by
  cases h <;> rfl

theorem ClauseRan.spared (h : ClauseRan e link clauses m m')
    (hb : bound ≤ m.thread.frames.nextId) : Spared bound m m' := by
  cases h with
  | none h => exact .passedOver e clauses m
  | rethrown h hs hc =>
    rename_i start
    have hentered : Spared bound m (m.clauseEntered link e clauses start) :=
      ((Spared.passedOver e clauses m).trans (.staged _ _ _ _)).trans
        (.note (TryBlock.isPlain_start hs) _)
    exact (hentered.trans (hc.spared.mono (Nat.le_trans hb hentered.nextId) (Nat.le_refl _))).trans
      (.staged _ _ _ _)

theorem CompletionRan.spared (h : CompletionRan link clauses m m')
    (hb : bound ≤ m.thread.frames.nextId) : Spared bound m m' := by
  cases h with
  | none h => exact .refl m
  | completed h hc =>
    have hentered : Spared bound m (m.completionEntered link) :=
      (Spared.staged _ _ _ _).trans (.note (by exact trivial) _)
    exact (hentered.trans (hc.spared.mono (Nat.le_trans hb hentered.nextId) (Nat.le_refl _))).trans
      (.staged _ _ _ _)

end Spares

/-! ## Dispatch -/

section

variable {e : Exception} {k link : Nat} {m m' : Machine}

theorem guarded_runThrowHook_returned {exec : Executor} {b : Block}
    (h : (exec (.block b)).run (m.throwHookCalled e) = ⟨.returned (), m'⟩) :
    (guarded (runThrowHook exec b e)).run (m.note (.step (.dispatched e))) =
      ⟨.returned false, m'.throwHookLeft m.thread.depth⟩ := by
  rw [run_guarded_runThrowHook, h]
  rfl

/-- Where the throw hook is not set or runs already, nothing but the dispatch is written down. -/
theorem run_noteDispatch_quiet {exec : Executor} (he : m.thread.current = some e)
    (hq : m.shared.hooks.onThrow = none ∨ m.thread.hookRunning = true) :
    (noteDispatch m.thread.current >>= fun _ => callThrowHook exec).run m =
      ⟨.returned (), m.note (.step (.dispatched e))⟩ := by
  rw [run_noteDispatch_idle, Machine.dispatchNoted, he]
  rintro ⟨b, _, hb, hr, -⟩
  obtain hq | hq := hq
  · cases hq.symm.trans hb
  · cases hq.symm.trans hr

/-- Inside a try block an exception is sent on its way, once the throw hook has completed. -/
theorem dispatch_thrown (he : m.thread.current = some e) (hd : 0 < m.thread.depth)
    (hh : ∀ link d, Enters ⟨k, .dispatch, m⟩ (.hook .onThrow link) d →
      ∃ m', d.Completes .hook m') :
    ∃ m', (Effect.dispatch (Job.run k)).run m = ⟨.unwound .thrown, m'⟩ ∧ Dispatched e m m' := by
  have hcall : ∃ m', (noteDispatch m.thread.current >>= fun _ =>
      callThrowHook (Job.run k)).run m = ⟨.returned (), m'⟩ ∧ Dispatched e m m' := by
    by_cases hq : m.shared.hooks.onThrow = none ∨ m.thread.hookRunning = true
    · exact ⟨_, run_noteDispatch_quiet he hq, .quiet hq⟩
    · obtain ⟨hb, hr⟩ := not_or.1 hq
      obtain ⟨b, hb⟩ := Option.ne_none_iff_exists'.1 hb
      rw [Bool.not_eq_true] at hr
      obtain ⟨m₁, hc⟩ := hh _ _ (.throwHook k hb hr he)
      refine ⟨_, ?_, .hook hb hr hc⟩
      rw [run_noteDispatch_hook hb hr he]
      exact run_bind_returned (guarded_runThrowHook_returned hc.ending)
  obtain ⟨m', hrun, hdis⟩ := hcall
  refine ⟨m', ?_, hdis⟩
  rw [run_dispatch, run_bind_returned hrun]
  show (if m'.thread.depth > 0 then unwind .thrown else unhandled (Job.run k) :
    Effect Empty).run m' = _
  rw [hdis.depth, if_pos hd]
  rfl

end

/-! ## Clauses -/

namespace TryBlock

theorem firstMatch_of_type (v : Value) (b : Block) (rest : List (Trigger × Block)) :
    firstMatch (.of v) ((.typed v.type, b) :: rest) = some (.typed v.type, b) :=
  if_pos ⟨rfl, rfl⟩

/-- The clause that matches an exception made from a value is given that value. -/
theorem start_of_firstMatch {v : Value} {clauses : List (Trigger × Block)} {trigger : Trigger}
    {b : Block} (h : firstMatch (.of v) clauses = some (trigger, b)) :
    ∃ start, start? (.of v) trigger = some start ∧
      (start = .caught v ∨ start = .caughtAny (.of v)) := by
  induction clauses with
  | nil => cases h
  | cons c rest ih =>
    obtain ⟨t, body⟩ := c
    cases t with
    | typed t =>
      unfold firstMatch at h
      split at h
      · rename_i htag
        cases h
        refine ⟨.caught v, ?_, .inl rfl⟩
        have hdown := Exception.downcast?_of v t
        rw [if_pos (show v.type = t from htag.2)] at hdown
        show ((Exception.of v).downcast? t).map Event.caught = _
        rw [hdown]
        rfl
      · exact ih h
    | any =>
      cases h
      exact ⟨_, rfl, .inr rfl⟩
    | completion => exact ih h

/-- A try block from the start of a clause on: the clause is run, and then what is left to do. -/
def fromClause (exec : Executor) (clauses : List (Trigger × Block)) (outer : Option Exception)
    (link : Nat) (e : Exception) (b : Block) : Effect Unit := do
  let stages : Effect (Option Exception) := do
    let escape ← capture (exec (.block b))
    let pending ← settle exec outer e escape
    advance link .unexpected .catching
    advance link .catching .finishing
    lastStages exec clauses link pending
  match ← onExit stages (unprotect link) with
  | none => pure ()
  | some e =>
    setCurrent (some e)
    never (dispatch exec)

theorem run_attempt_clause {exec : Executor} {body b : Block} {clauses : List (Trigger × Block)}
    {trigger : Trigger} {e : Exception} {start : Event} {m m₁ : Machine}
    (h : (bodyStage exec body m.thread.depth).run (m.tryEntered clauses) = ⟨.returned (some e), m₁⟩)
    (hm : firstMatch e clauses = some (trigger, b)) (hs : start? e trigger = some start) :
    (Stmt.perform exec (.attempt body clauses)).run m =
      (fromClause exec clauses m.thread.current m.thread.depth e b).run
        (m₁.clauseEntered m.thread.depth e clauses start) := by
  rw [run_attempt]
  refine run_bind_congr ?_
  rw [run_protect, thread_warned]
  refine run_onExit_congr ((run_stages _ _ _).trans ?_)
  have hcapture : (capture ((catchOf exec (trigger, b)).handler e)).run
      ((m₁.passedOver e clauses).stage m.thread.depth .catching .unexpected) =
        (capture (exec (.block b))).run (m₁.clauseEntered m.thread.depth e clauses start) := by
    rw [run_capture, run_capture, run_handler hs]
    rfl
  unfold clauseStage
  rw [run_bind_assoc]
  refine (run_bind_returned h).trans ?_
  rw [run_bind_assoc]
  refine (run_bind_congr (run_runCatch hm m₁)).trans ?_
  rw [run_bind_assoc]
  refine (run_bind_congr hcapture).trans ?_
  rw [run_bind, run_bind]
  obtain ⟨escape | _ | _, m₂⟩ :=
    (capture (exec (.block b))).run (m₁.clauseEntered m.thread.depth e clauses start)
  · exact run_bind_assoc (settle exec m.thread.current e escape) _ _ m₂
  · rfl
  · rfl

section

variable {exec : Executor} {e : Exception} {link : Nat} {body b : Block}
  {clauses : List (Trigger × Block)} {trigger : Trigger} {start : Event} {m m₁ m₂ : Machine}

theorem clauseStage_unmatched (outer : Option Exception)
    (h : (bodyStage exec body link).run m = ⟨.returned (some e), m₁⟩)
    (hm : firstMatch e clauses = none) :
    (clauseStage exec body clauses outer link).run m =
      ⟨.returned (some e), (m₁.passedOver e clauses).stage link .catching .finishing⟩ := by
  refine (run_bind_returned h).trans (run_bind_returned ?_)
  show (select e (catchesOf _ clauses) >>= _).run m₁ = _
  rw [run_bind_returned (run_select e clauses m₁), hm]
  rfl

theorem clauseStage_rethrown (outer : Option Exception)
    (h : (bodyStage exec body link).run m = ⟨.returned (some e), m₁⟩)
    (hm : firstMatch e clauses = some (trigger, b)) (hs : start? e trigger = some start)
    (hb : (exec (.block b)).run (m₁.clauseEntered link e clauses start) =
      ⟨.unwound .rethrown, m₂⟩) :
    (clauseStage exec body clauses outer link).run m =
      ⟨.returned (some e),
        (m₂.stage link .unexpected .catching).stage link .catching .finishing⟩ := by
  refine (run_bind_returned h).trans (run_bind_returned ?_)
  rw [run_runCatch hm, run_bind_returned (run_capture_escaped
    (capture_handler_unwound hs hb) (show _ = some _ from rfl))]
  rfl

theorem lastStages_none (pending : Option Exception)
    (hf : (completionsOf clauses).getLast? = none) :
    (lastStages exec clauses link pending).run m =
      ⟨.returned pending, m.stage link .finishing .propagating⟩ := by
  unfold lastStages
  rw [hf]
  rfl

theorem lastStages_completed {final : Block} (pending : Option Exception)
    (hf : (completionsOf clauses).getLast? = some final)
    (hb : (exec (.block final)).run (m.completionEntered link) = ⟨.returned (), m₁⟩) :
    (lastStages exec clauses link pending).run m =
      ⟨.returned pending,
        (m₁.stage link .unexpected .finishing).stage link .finishing .propagating⟩ := by
  unfold lastStages
  rw [hf]
  have hrun : (report .completing >>= fun _ => exec (.block final)).run
      (m.stage link .finishing .unexpected) = ⟨.returned (), m₁⟩ := hb
  have hcompletion : (runCompletion exec link (some do
      report .completing
      exec (.block final))).run m = ⟨.returned (), m₁.stage link .unexpected .finishing⟩ := by
    show (capture (report .completing >>= fun _ => exec (.block final)) >>= _).run
      (m.stage link .finishing .unexpected) = _
    rw [run_bind_returned (run_capture_returned hrun)]
    rfl
  exact run_bind_returned hcompletion

/-- When all stages but the last have returned, the try block has come back to the level outside. -/
theorem protect_stages {pending pending' : Option Exception}
    (hc : (clauseStage exec body clauses m.thread.current m.thread.depth).run
      (m.tryEntered clauses) = ⟨.returned pending, m₁⟩)
    (hl : (lastStages exec clauses m.thread.depth pending).run m₁ =
      ⟨.returned pending', m₂⟩) :
    (protect (runStages exec (declared exec body clauses) m.thread.current)).run
      (m.warned (completionsOf clauses)) =
        ⟨.returned pending', m₂.unprotected m.thread.depth⟩ := by
  rw [run_protect, thread_warned]
  refine run_onExit_returned ?_ (run_unprotect _ _)
  rw [run_stages]
  exact (run_bind_returned hc).trans hl

end

variable {e : Exception} {n link : Nat} {body : Block} {clauses : List (Trigger × Block)}
  {m m₁ : Machine}

theorem clauseStage_ran (outer : Option Exception)
    (h : (bodyStage (Job.run n) body link).run m = ⟨.returned (some e), m₁⟩)
    (hstart : ∀ trigger b, firstMatch e clauses = some (trigger, b) →
      ∃ start, start? e trigger = some start)
    (hserves : ∀ trigger b start, firstMatch e clauses = some (trigger, b) →
      start? e trigger = some start → ∃ m', Activation.Completes .clause
        ⟨n, .job (.block b), m₁.clauseEntered link e clauses start⟩ m') :
    ∃ m₂, ClauseRan e link clauses m₁ m₂ ∧
      (clauseStage (Job.run n) body clauses outer link).run m =
        ⟨.returned (some e), m₂.stage link .catching .finishing⟩ := by
  cases hm : firstMatch e clauses with
  | none => exact ⟨_, .none hm, clauseStage_unmatched outer h hm⟩
  | some c =>
    obtain ⟨trigger, b⟩ := c
    obtain ⟨start, hs⟩ := hstart _ _ hm
    obtain ⟨m₂, hc⟩ := hserves _ _ _ hm hs
    exact ⟨_, .rethrown hm hs hc, clauseStage_rethrown outer h hm hs hc.ending⟩

theorem lastStages_ran (pending : Option Exception)
    (hserves : ∀ final, (completionsOf clauses).getLast? = some final →
      ∃ m', Activation.Completes .completion
        ⟨n, .job (.block final), m.completionEntered link⟩ m') :
    ∃ m₁, CompletionRan link clauses m m₁ ∧
      (lastStages (Job.run n) clauses link pending).run m =
        ⟨.returned pending, m₁.stage link .finishing .propagating⟩ := by
  cases hf : (completionsOf clauses).getLast? with
  | none => exact ⟨m, .none hf, lastStages_none pending hf⟩
  | some final =>
    obtain ⟨m₁, hc⟩ := hserves final hf
    exact ⟨_, .completed hf hc, lastStages_completed pending hf hc.ending⟩

end TryBlock

end NonlocalExit
