import NonlocalExit.Proofs.Steady

/-!
# Relations that do not look at frames

A relation between machines that holds whatever becomes of the frames, the guards, the recoveries,
the record and the shared state, and that goes through the brackets of guarded calls, sessions and
the throw hook, is kept by every run: `Oblivious.obeys`.  It holds on the way to every call, up to
what the call itself does as it is entered: `Oblivious.leads`.

The first such relation is `Spawns`, which says that a journal is only added to, and that whoever
writes in it has been started: `spawns_run`.
-/

namespace NonlocalExit

variable [Declarations]

open Effect

/-- Whether the current thread and all threads that have written in the journal have been
started. -/
structure Machine.KnowsThreads (m : Machine) : Prop where
  current : m.thread.number < m.shared.nextThread
  lines : ∀ l ∈ m.shared.journal, l.thread < m.shared.nextThread

/-- Whether the journal was only added to, and only by threads that have been started. -/
structure Spawns (m m' : Machine) : Prop extends Adds m m' where
  known : m.KnowsThreads → m'.KnowsThreads

/-- Whether a relation between machines does not look at the frames, the guards, the recoveries and
the record of a thread, nor at the shared state, apart from the lines about the sending of
exceptions, and holds across what is done under guard if it holds inside. -/
structure Oblivious (r : Machine → Machine → Prop) : Prop extends Composes r where
  frames : ∀ s m, r m (m.withFrames s)
  held : ∀ held m, r m (m.withHeld held)
  recovering : ∀ rs m, r m (m.withRecovering rs)
  current : ∀ e m, r m (m.withCurrent e)
  note : ∀ e, Entry.isHerald e = false → ∀ m, r m (m.note e)
  shared : ∀ (s : Shared) (m : Machine), s.journal = m.shared.journal →
    m.shared.nextThread ≤ s.nextThread → r m { m with shared := s }
  /-- A thread that waited goes on as it was. -/
  thread : ∀ {m m' : Machine}, Spawns m.threadStarted m' → r m { m' with thread := m.thread }
  protect : ∀ {m m' : Machine}, r m.deeper m' → r m (m'.unprotected m.thread.depth)
  declared : ∀ m : Machine, r m m.declared
  blocked : ∀ signals (m : Machine), r m (m.withBlocked signals)
  /-- A session gives up the initialisation that it has brought about. -/
  session : ∀ {m m' : Machine}, m.thread.initialised = false → r m.declared m' →
    r m { m' with thread := { m'.thread with initialised := false } }
  dispatched : ∀ e (m : Machine), r m (m.note (.step (.dispatched e)))
  throwHook : ∀ {m m' : Machine} {e : Exception}, m.thread.hookRunning = false →
    r (m.throwHookCalled e) m' → r m (m'.throwHookLeft m.thread.depth)

/-- Whether a call is that of a try block which is not left yet, or of a guarded hook. -/
def Label.protects : Label → Bool
  | attempt _ | clause _ | hook .. => true
  | _ => false

/-- Whether a call is that of the throw hook. -/
def Label.isThrowHook : Label → Bool
  | hook .onThrow _ => true
  | _ => false

/-- How a call is entered: on the level of the caller, one level deeper, or as the throw hook. -/
inductive Label.Leads (r : Machine → Machine → Prop) (m : Machine) : Label → Machine → Prop
  | same {l m'} (hl : l.protects = false) (h : r m m') : Leads r m l m'
  | deeper {l m₁ m'} (hl : l.protects = true) (ht : l.isThrowHook = false) (h : r m m₁)
    (h' : r m₁.deeper m') : Leads r m l m'
  | throwHook {e m'} (hr : m.thread.hookRunning = false) (h : m' = m.throwHookCalled e) :
    Leads r m (.hook .onThrow m.thread.depth) m'

namespace Oblivious

variable {r : Machine → Machine → Prop} {α : Type} {exec : Executor}

section

variable (P : Oblivious r)
include P

theorem obeys_note {e : Entry} (he : e.isHerald = false) : Obeys (.ofRel r) (Effect.note e) :=
  .modify fun m => P.note e he m

theorem obeys_withFrames (use : FrameStack Cleanup → α × FrameStack Cleanup) :
    Obeys (.ofRel r) (withFrames use) := by
  have := P.toComposes
  refine .bind .machine fun m => ?_
  dsimp only
  split
  · exact .unwind _
  · exact .bind (.modify fun m => P.frames _ m) fun _ => .pure _

theorem obeys_openFrame : Obeys (.ofRel r) openFrame := by
  have := P.toComposes
  exact (P.obeys_withFrames _).bind fun _ => (P.obeys_note rfl).bind fun _ => .pure _

theorem obeys_innermostOrRoot : Obeys (.ofRel r) innermostOrRoot := by
  have := P.toComposes
  refine .bind (P.obeys_withFrames _) fun f => ?_
  split
  · exact .pure _
  · exact P.obeys_openFrame

theorem obeys_enterFrame : Obeys (.ofRel r) enterFrame := by
  have := P.toComposes
  exact P.obeys_openFrame.bind fun _ => (P.obeys_note rfl).bind fun _ => .pure _

theorem obeys_releaseGuard (name : String) : Obeys (.ofRel r) (releaseGuard name) := by
  have := P.toComposes
  refine .bind .machine fun m => ?_
  split
  · exact .pure _
  · exact .bind (.modify fun m => P.held _ m) fun _ => .pure _

theorem obeys_settle (token : Nat) {body : Effect Unit} (hb : Obeys (.ofRel r) body) :
    Obeys (.ofRel r) (settle token body) := by
  have := P.toComposes
  refine .bind hb.catchUnwind fun res => ?_
  split
  · exact .pure _
  · split
    · exact (P.obeys_note rfl).bind fun _ => .pure _
    · exact .unwind _
  · exact .unwind _

theorem obeys_recover {body : Effect Unit} (hb : Obeys (.ofRel r) body) :
    Obeys (.ofRel r) (recover body) := by
  have := P.toComposes
  have htoken : Obeys (.ofRel r) freshToken :=
    .bind .machine fun _ => .bind (.modify fun m => P.shared _ m rfl (Nat.le_refl _)) fun _ =>
      .pure _
  refine htoken.bind fun token =>
    .bind P.obeys_innermostOrRoot fun frame => .bind (P.obeys_withFrames _) fun previous =>
      .bind .machine fun m => .bind (.modify (P.recovering _)) fun _ => ?_
  exact (P.obeys_settle token hb).onExit
    (.bind (P.obeys_withFrames _) fun _ => .modify (P.recovering _))

theorem obeys_statusOf (res : Except Transfer Int32) : Obeys (.ofRel r) (statusOf res) := by
  have := P.toComposes
  unfold statusOf
  split
  · exact .pure _
  · exact .pure _
  · exact .unwind _

theorem obeys_protect {body : Nat → Effect α} (hb : ∀ link, Obeys (.ofRel r) (body link)) :
    Obeys (.ofRel r) (Effect.protect body) := by
  intro m o m' h
  rw [run_protect] at h
  obtain ⟨_, m₁, hx, h⟩ | ⟨t, m₁, hx, h, _⟩ := leaves_onExit.1 h
  · cases h
    exact P.protect (hb _ _ _ _ (leaves_of_returned hx))
  · cases h
    exact P.protect (hb _ _ _ _ (leaves_of_unwound hx))

theorem rooted (m : Machine) : r m m.rooted := by
  unfold Machine.rooted
  split
  · exact P.trans (P.frames _ m) (P.note _ rfl _)
  · exact P.refl m

theorem sessionEntered (m : Machine) : r m.declared m.sessionEntered := by
  have hdeclared : r m.declared m.threadDeclared := by
    unfold Machine.threadDeclared
    split
    · exact P.refl _
    · exact P.rooted _
  unfold Machine.sessionEntered
  split
  · exact P.trans hdeclared (P.trans (P.frames _ _) (P.note _ rfl _))
  · exact hdeclared

variable (H : ∀ j, Obeys (.ofRel r) (exec j))
include H

theorem obeys_leaveFrame (id : Nat) : Obeys (.ofRel r) (leaveFrame exec id) := by
  have := P.toComposes
  exact (P.obeys_note rfl).bind fun _ => H _

theorem obeys_startCleanup (c : Cleanup) : Obeys (.ofRel r) (startCleanup exec c) := by
  have := P.toComposes
  refine (P.obeys_note rfl).bind fun _ => .bind ?_ fun _ => H _
  unfold announce
  split
  · exact P.obeys_note rfl
  · exact .pure _

theorem obeys_defer (a : Option String) (b : Block) : Obeys (.ofRel r) (defer exec a b) := by
  have := P.toComposes
  refine .bind .machine fun m => .bind (.modify fun m => P.shared _ m rfl (Nat.le_refl _))
    fun _ => .bind .machine fun m => ?_
  split
  · exact (P.obeys_note rfl).bind fun _ => P.obeys_startCleanup H _
  · refine .bind P.obeys_innermostOrRoot fun frame => .bind .machine fun m => ?_
    split
    · exact .bind (.modify (P.frames _)) fun _ => P.obeys_note rfl
    · exact (P.obeys_note rfl).bind fun _ => .halt

theorem obeys_threadBody (status : Int32) (b : Block) :
    Obeys (.ofRel r) (threadBody exec status b) := by
  have := P.toComposes
  exact (H _).bind fun _ => .pure _

theorem obeys_intercept (b : Block) : Obeys (.ofRel r) (intercept exec b) := by
  have := P.toComposes
  refine .bind (H _).catchUnwind fun res => ?_
  split <;> exact P.obeys_note rfl

omit H in
/-- A session gives up the initialisation only where it was the one to declare it. -/
theorem sessionClosed {m m₁ m' : Machine} {o : Option Transfer} (h : r m.declared m₁)
    (hc : ((closeSession (!m.thread.initialised)).run m₁).Leaves o m') : r m m' := by
  cases hi : m.thread.initialised with
  | true =>
    rw [hi] at hc
    cases hc
    exact P.trans (P.declared m) h
  | false =>
    rw [hi] at hc
    cases hc
    exact P.session hi h

/-- A session keeps the relation however it ends, also when its frames cannot be closed. -/
theorem obeys_runBody (status : Int32) (b : Block) :
    Obeys (.ofRel r) (runBody exec (threadBody exec status b)) := by
  intro m o m' h
  show r m m'
  rw [run_runBody] at h
  split at h
  · cases h
    exact P.refl m
  · have := P.toComposes
    have hentered := P.sessionEntered m
    have hbody := (P.obeys_threadBody H status b).catchUnwind
    obtain ⟨res, m₁, hres, h⟩ | ⟨t, hres, rfl⟩ := leaves_bind.1 h
    · have hleft := P.trans hentered (hbody _ _ _ (leaves_of_returned hres))
      obtain ⟨_, m₂, hclosed, h⟩ | ⟨t, hclosed, rfl⟩ := leaves_bind.1 h
      · have hleft := P.trans hleft (H _ _ _ _ (leaves_of_returned hclosed))
        obtain ⟨_, m₃, hc, h⟩ | ⟨t, hc, rfl⟩ := leaves_bind.1 h
        · exact P.trans (P.sessionClosed hleft (leaves_of_returned hc))
            (P.obeys_statusOf res _ _ _ h)
        · exact P.sessionClosed hleft (leaves_of_unwound hc)
      · exact P.trans (P.declared m) (P.trans hleft (H _ _ _ _ (leaves_of_unwound hclosed)))
    · exact P.trans (P.declared m) (P.trans hentered (hbody _ _ _ (leaves_of_unwound hres)))

theorem obeys_dropGuards : ∀ n, Obeys (.ofRel r) (dropGuards exec n)
  | 0 => by
    have := P.toComposes
    exact .pure ()
  | n + 1 => by
    have := P.toComposes
    refine .bind .machine fun m => ?_
    split
    · exact .bind (.modify (P.held _)) fun _ => (P.obeys_leaveFrame H _).onExit (obeys_dropGuards n)
    · exact .pure _

theorem obeys_asBlock {body : Effect Unit} (hb : Obeys (.ofRel r) body) :
    Obeys (.ofRel r) (asBlock exec body) := by
  have := P.toComposes
  refine .bind (.modify fun m => P.held _ m) fun _ => hb.onExit (.bind .machine fun m => ?_)
  exact (P.obeys_dropGuards H _).onExit (.modify fun m => P.held _ m)

/-- A step of a job keeps the relation if statements and jobs do. -/
theorem obeys_step (G : Governs (.ofRel r) exec) (j : Job) : Obeys (.ofRel r) (j.step exec) := by
  have := P.toComposes
  cases j with
  | block b => exact P.obeys_asBlock H (G.performAll b)
  | close id =>
    refine .bind (P.obeys_withFrames _) fun taken => ?_
    split
    · exact .pure _
    · exact P.obeys_note rfl
    · exact (P.obeys_startCleanup H _).bind fun _ => H _
  | closeAbove base =>
    refine .bind (P.obeys_withFrames _) fun f => ?_
    split
    · exact .pure _
    · split
      · exact .pure _
      · exact (H _).bind fun _ => H _
  | walk code =>
    refine .bind (P.obeys_withFrames _) fun f => ?_
    split
    · exact .pure _
    · split
      · exact .unwind _
      · exact (P.obeys_note rfl).bind fun _ => (H _).bind fun _ => H _

end

end Oblivious

/-! ## The journal is only added to -/

namespace Machine.KnowsThreads

variable {m m' : Machine}

/-- Where nothing is written the same threads have written. -/
theorem of_journal_eq (h : m.KnowsThreads) (hadds : Adds m m')
    (hj : m'.shared.journal = m.shared.journal) : m'.KnowsThreads := by
  refine ⟨hadds.number ▸ Nat.lt_of_lt_of_le h.current hadds.nextThread, fun l hl => ?_⟩
  exact Nat.lt_of_lt_of_le (h.lines l (hj ▸ hl)) hadds.nextThread

theorem note (h : m.KnowsThreads) (e : Entry) : (m.note e).KnowsThreads :=
  ⟨h.current, List.forall_mem_cons.2 ⟨h.current, h.lines⟩⟩

theorem threadStarted (h : m.KnowsThreads) : m.threadStarted.KnowsThreads :=
  ⟨Nat.lt_succ_self _, fun l hl => Nat.lt_succ_of_lt (h.lines l hl)⟩

theorem fresh (w : Surroundings) : (Machine.fresh w).KnowsThreads :=
  ⟨Nat.zero_lt_one, fun _ hl => nomatch hl⟩

end Machine.KnowsThreads

namespace Spawns

variable {m m₁ m' : Machine}

theorem of_journal_eq (h : Adds m m') (hj : m'.shared.journal = m.shared.journal) : Spawns m m' :=
  ⟨h, fun hk => hk.of_journal_eq h hj⟩

theorem withThread {t : Thread} (hn : t.number = m.thread.number) :
    Spawns m { m with thread := t } :=
  of_journal_eq (.of_journal_eq hn (Nat.le_refl _) rfl) rfl

theorem note (e : Entry) (m : Machine) : Spawns m (m.note e) := ⟨.note e m, (·.note e)⟩

theorem trans (h : Spawns m m₁) (h' : Spawns m₁ m') : Spawns m m' :=
  ⟨h.toAdds.trans h'.toAdds, fun hk => h'.known (h.known hk)⟩

instance : Composes Spawns where
  refl _ := withThread rfl
  trans := trans

/-- The thread that waited goes on, and the one that was started is known. -/
theorem ofThread (h : Spawns m.threadStarted m') : Spawns m { m' with thread := m.thread } := by
  refine ⟨h.toAdds.ofThread, fun hk => ⟨?_, (h.known hk.threadStarted).lines⟩⟩
  exact Nat.lt_of_lt_of_le hk.current h.toAdds.ofThread.nextThread

theorem initialised (b : Bool) (m : Machine) :
    Spawns m { m with thread := { m.thread with initialised := b } } := withThread rfl

theorem declared (m : Machine) : Spawns m m.declared := initialised true m

theorem deeper (m : Machine) : Spawns m m.deeper :=
  (withThread (t := { m.thread with depth := m.thread.depth + 1 }) rfl).trans (note _ _)

theorem unprotected (link : Nat) (m : Machine) : Spawns m (m.unprotected link) :=
  (withThread (t := { m.thread with depth := link }) rfl).trans (note _ _)

theorem throwHookCalled (e : Exception) (m : Machine) : Spawns m (m.throwHookCalled e) := by
  let m₁ := (m.note (.step (.dispatched e))).deeper
  have hdeep : Spawns m m₁ := (note _ m).trans (deeper _)
  have hflag : Spawns m₁ { m₁ with thread := { m₁.thread with hookRunning := true } } :=
    withThread rfl
  exact (hdeep.trans hflag).trans (note _ _)

theorem throwHookLeft (link : Nat) (m : Machine) : Spawns m (m.throwHookLeft link) := by
  let m₁ := m.note (.step (.hookEnded .onThrow))
  have hflag : Spawns m₁ { m₁ with thread := { m₁.thread with hookRunning := false } } :=
    withThread rfl
  exact ((note _ m).trans hflag).trans (unprotected _ _)

theorem oblivious : Oblivious Spawns where
  toComposes := inferInstance
  frames _ _ := withThread rfl
  held _ _ := withThread rfl
  recovering _ _ := withThread rfl
  current _ _ := withThread rfl
  note e _ m := note e m
  shared _ _ hj ht := of_journal_eq (.of_journal_eq rfl ht hj) hj
  thread h := h.ofThread
  protect h := ((deeper _).trans h).trans (unprotected _ _)
  declared := declared
  blocked _ _ := withThread rfl
  session _ h := ((declared _).trans h).trans (initialised false _)
  dispatched _ m := note _ m
  throwHook _ h := ((throwHookCalled _ _).trans h).trans (throwHookLeft _ _)

end Spawns

namespace Oblivious

variable {r : Machine → Machine → Prop} {α : Type} {exec : Executor} (P : Oblivious r)
include P

/-- Of a thread that was started and has ended, only what it noted is left. -/
theorem obeys_inThread (HS : ∀ j, Obeys (.ofRel Spawns) (exec j)) {body : Effect α}
    (hb : Obeys (.ofRel Spawns) body) : Obeys (.ofRel r) (inThread exec body) := by
  intro m o m' h
  obtain rfl := leaves_inThread exec h
  obtain ⟨_, h⟩ := returned_of_leaves h
  obtain ⟨m₁, m₂, hx, ht, rfl⟩ := (inThread_eq_returned exec).1 h
  have hbody : Spawns m.threadStarted m₁ := hb.catchUnwind _ _ _ (leaves_of_returned hx)
  have htorn : Spawns m₁ m₁.tornDown := .withThread rfl
  have hcleanups := (leaves_teardown exec (leaves_of_returned ht)).2
  have hstarted : Spawns m₁.tornDown m₂ :=
    obeys_startAll (Spawns.oblivious.obeys_startCleanup HS) _ _ _ _ (leaves_of_returned hcleanups)
  exact P.thread ((hbody.trans htorn).trans hstarted)

/-- Such a relation is kept by every statement if it is kept by every job. -/
theorem governs (HS : ∀ j, Obeys (.ofRel Spawns) (exec j)) (H : ∀ j, Obeys (.ofRel r) (exec j)) :
    Governs (.ofRel r) exec :=
  have := P.toComposes
  { toComposable := inferInstance
    unwind := fun _ m => P.refl m
    note := fun e he m => P.note e he.isHerald m
    setCurrent := fun e => .modify (P.current e)
    declared := P.declared
    blocked := P.blocked
    settings := fun f hf => .modify fun m =>
      P.shared (f m.shared) m (hf _).journal (Nat.le_of_eq (hf _).nextThread.symm)
    protect := fun _ hb => P.obeys_protect hb
    capture := fun _ h => h.capture
    hookEnded := fun _ kind hk h => h.onExit <| P.obeys_note <| by
      cases kind with
      | onThrow => exact (hk rfl).elim
      | onUnhandled | onUnexpected => rfl
    sendOff := fun hu m _ _ h => h.keeps P.throwHook (fun _ => H _) (P.dispatched · m) hu
    root := P.obeys_innermostOrRoot
    block := fun _ => H _
    walk := fun _ => H _
    leaveFrame := P.obeys_leaveFrame H
    scope := fun _ => P.obeys_enterFrame.bind fun id => (H _).onExit (P.obeys_leaveFrame H id)
    defer := P.obeys_defer H
    enter := fun _ => P.obeys_enterFrame.bind fun _ => .modify fun m => P.held _ m
    release := P.obeys_releaseGuard
    recover := fun _ => P.obeys_recover (H _)
    session := P.obeys_runBody H
    thread := fun status b => P.obeys_inThread HS (Spawns.oblivious.obeys_runBody HS status b)
    plainThread := fun _ => P.obeys_inThread HS (HS _)
    intercept := P.obeys_intercept H }

end Oblivious

/-! ## Every run -/

/-- Whatever is run, the journal is only added to, by threads that have been started. -/
theorem spawns_run : ∀ n j, Obeys (.ofRel Spawns) (Job.run n j)
  | 0, _ => .halt
  | n + 1, j =>
    Spawns.oblivious.obeys_step (spawns_run n)
      (Spawns.oblivious.governs (spawns_run n) (spawns_run n)) j

namespace Oblivious

variable {r : Machine → Machine → Prop} (P : Oblivious r)
include P

/-- Every run keeps the relation. -/
theorem obeys : ∀ n j, Obeys (.ofRel r) (Job.run n j)
  | 0, _ => .halt
  | n + 1, j => P.obeys_step (obeys n) (P.governs (spawns_run n) (obeys n)) j

theorem governs_run (n : Nat) : Governs (.ofRel r) (Job.run n) :=
  P.governs (spawns_run n) (P.obeys n)

theorem obeys_run {a : Activation} {o : Option Transfer} {m : Machine} (h : a.run.Leaves o m) :
    r a.machine m :=
  (P.governs_run _).obeys_task (P.obeys _) (P.obeys_dropGuards (P.obeys _)) a.task _ _ _ h

/-! ### What is entered -/

theorem starting (c : Cleanup) (m : Machine) : r m (m.starting c) := by
  unfold Machine.starting
  split
  · exact P.trans (P.note _ rfl _) (P.note _ rfl _)
  · exact P.note _ rfl _

theorem serialTaken (m : Machine) : r m m.serialTaken := P.shared _ m rfl (Nat.le_refl _)

theorem tokenTaken (m : Machine) : r m m.tokenTaken := P.shared _ m rfl (Nat.le_refl _)

theorem startedLate (c : Cleanup) (m : Machine) : r m (m.startedLate c) :=
  P.trans (P.trans (P.serialTaken m) (P.note _ rfl _)) (P.starting c _)

theorem recoveryEntered (m : Machine) : r m m.recoveryEntered :=
  P.trans (P.trans (P.trans (P.tokenTaken m) (P.rooted _)) (P.frames _ _)) (P.recovering _ _)

theorem scopeEntered (m : Machine) : r m m.scopeEntered :=
  P.trans (P.trans (P.frames _ m) (P.note _ rfl _)) (P.note _ rfl _)

theorem warned : ∀ (bs : List Block) (m : Machine), r m (m.warned bs)
  | [], m => P.refl m
  | [_], m => P.refl m
  | _ :: b :: rest, m => P.trans (P.note _ rfl m) (warned (b :: rest) _)

theorem passedOver (e : Exception) : ∀ (clauses : List (Trigger × Block)) (m : Machine),
    r m (m.passedOver e clauses)
  | [], m => P.refl m
  | (.typed t, _) :: rest, m => by
    unfold Machine.passedOver
    split
    · split
      · exact P.refl m
      · exact P.trans (P.note _ rfl m) (passedOver e rest _)
    · exact passedOver e rest m
  | (.any, _) :: _, m => P.refl m
  | (.completion, _) :: rest, m => passedOver e rest m

theorem clauseEntered {link : Nat} {e : Exception} {clauses : List (Trigger × Block)}
    {trigger : Trigger} {start : Event} (hs : TryBlock.start? e trigger = some start)
    (m : Machine) : r m (m.clauseEntered link e clauses start) := by
  have hstart : Entry.isHerald (.event start) = false := by
    cases trigger with
    | typed t =>
      obtain ⟨v, _, rfl⟩ := Option.map_eq_some_iff.1 hs
      rfl
    | any => cases hs; rfl
    | completion => cases hs
  exact P.trans (P.trans (P.passedOver e clauses m) (P.note _ rfl _)) (P.note _ hstart _)

theorem completionEntered (link : Nat) (m : Machine) : r m (m.completionEntered link) :=
  P.trans (P.note _ rfl _) (P.note _ rfl _)

/-- The relation holds on the way to every call, up to what the call does as it is entered. -/
theorem leads {a b : Activation} {l : Label} (h : Enters a l b) :
    l.Leads r a.machine b.machine := by
  have htry : ∀ (clauses : List (Trigger × Block)) {m m' : Machine} {l : Label},
      l.protects = true → l.isThrowHook = false → r (m.tryEntered clauses) m' →
        l.Leads r m m' := fun clauses m m' l hl ht h =>
    .deeper hl ht (P.warned (TryBlock.completionsOf clauses) m) (P.trans (P.note _ rfl _) h)
  have hleft : ∀ {l : Label} {o : Option Transfer}, l.protects = false →
      (l.after o).protects = false := by
    intro l o hl
    cases o with
    | none => exact hl
    | some t => rfl
  cases h with
  | block n ss m => exact .same rfl (P.held _ m)
  | blockLeft h =>
    exact .same (hleft rfl) (P.trans (P.held _ _) ((P.governs_run _).performAll _ _ _ _ h))
  | cleanup n ht hf hp => exact .same rfl (P.trans (P.frames _ _) (P.starting _ _))
  | closeNext ht hf hp h =>
    have hstart := P.obeys_startCleanup (P.obeys _) _ _ _ _ (leaves_of_returned h)
    exact .same rfl (P.trans (P.frames _ _) hstart)
  | closeInner n ht hf hb => exact .same rfl (P.refl _)
  | closeAboveNext ht hf hb h => exact .same rfl (P.obeys _ _ _ _ _ (leaves_of_returned h))
  | passed n code ht hf hm => exact .same rfl (P.note _ rfl _)
  | walkNext ht hf hm h =>
    exact .same rfl (P.trans (P.note _ rfl _) (P.obeys _ _ _ _ _ (leaves_of_returned h)))
  | first n s ss m => exact .same rfl (P.refl _)
  | next h => exact .same rfl ((P.governs_run _).perform _ _ _ _ (leaves_of_returned h))
  | drop n count hh => exact .same rfl (P.trans (P.held _ _) (P.note _ rfl _))
  | dropNext hh h =>
    exact .same (hleft rfl)
      (P.trans (P.trans (P.held _ _) (P.note _ rfl _)) (P.obeys _ _ _ _ _ h))
  | repeated hi h =>
    rename_i n _ _ _ _ _
    have G := P.governs_run n
    exact .same rfl (G.obeys_times (G.block _) _ _ _ _ (leaves_of_returned h))
  | scope n body ht => exact .same rfl (P.scopeEntered _)
  | scopeLeft ht h =>
    exact .same (hleft rfl)
      (P.trans (P.trans (P.scopeEntered _) (P.obeys _ _ _ _ _ h)) (P.note _ rfl _))
  | leave n h => exact .same rfl (P.trans (P.held _ _) (P.note _ rfl _))
  | deferLate n body ht => exact .same rfl (P.startedLate ⟨_, none, body⟩ _)
  | deferWithLate n arg body ht => exact .same rfl (P.startedLate ⟨_, some arg, body⟩ _)
  | recover n value body ht => exact .same rfl (P.recoveryEntered _)
  | run n status body m => exact .same rfl (P.refl _)
  | session n status body ht =>
    exact .same rfl (P.trans (P.declared _) (P.sessionEntered _))
  | sessionLeft ht h =>
    exact .same rfl
      (P.trans (P.trans (P.declared _) (P.sessionEntered _)) (P.obeys _ _ _ _ _ h))
  | intercept n body m => exact .same rfl (P.refl _)
  | panic n code m => exact .same rfl (P.note _ rfl _)
  | throw n v m => exact .same rfl (P.trans (P.note _ rfl _) (P.current _ _))
  | fault n h => exact .same rfl (P.trans (P.blocked _ _) (P.current _ _))
  | rethrowNone n h => exact .same rfl (P.note _ rfl _)
  | rethrowOutside n h hd => exact .same rfl (P.refl _)
  | throwHook n hb hr he => exact .throwHook hr rfl
  | throwHookThrew hb hr he h =>
    exact .same rfl (keeps_guardedThrowHook P.throwHook (fun _ => P.obeys _ _) hr h)
  | outside h hd => exact .same rfl ((P.governs_run _).obeys_sendOff (leaves_of_returned h))
  | unhandledHook n hb he => exact .deeper rfl rfl (P.refl _) (P.note _ rfl _)
  | unhandledHookThrew hb he h =>
    rename_i n _ _ _ _
    have G := P.governs_run n
    exact .same rfl
      (G.obeys_guarded (G.obeys_callHook (by decide) _ _) _ _ _ (leaves_of_returned h))
  | unexpectedHook n hb he => exact .deeper rfl rfl (P.refl _) (P.note _ rfl _)
  | attempt n body clauses m => exact htry _ rfl rfl (P.refl _)
  | recordEmpty h ht hc =>
    exact htry _ rfl rfl (P.trans (P.obeys _ _ _ _ _ (leaves_of_unwound h)) (P.note _ rfl _))
  | clause h hm hs =>
    exact htry _ rfl rfl (P.trans
      ((P.governs_run _).obeys_bodyStage _ _ _ _ _ (leaves_of_returned h)) (P.clauseEntered hs _))
  | clauseThrew h hm hs hb =>
    exact htry _ rfl rfl (P.trans (P.trans
      ((P.governs_run _).obeys_bodyStage _ _ _ _ _ (leaves_of_returned h)) (P.clauseEntered hs _))
        (P.obeys _ _ _ _ _ (leaves_of_unwound hb)))
  | completion h hf =>
    exact htry _ rfl rfl (P.trans
      ((P.governs_run _).obeys_clauseStage _ _ _ _ _ _ _ (leaves_of_returned h))
        (P.completionEntered _ _))
  | completionThrew h hf hb ht =>
    exact htry _ rfl rfl (P.trans (P.trans
      ((P.governs_run _).obeys_clauseStage _ _ _ _ _ _ _ (leaves_of_returned h))
        (P.completionEntered _ _)) (P.obeys _ _ _ _ _ (leaves_of_unwound hb)))
  | again h =>
    rename_i n _ _ _ _ _
    have G := P.governs_run n
    have hstages := G.protect _ (fun link => G.obeys_stages _ _ _ link) _ _ _ (leaves_of_returned h)
    exact .same rfl (P.trans (P.trans (P.warned _ _) hstages) (P.current _ _))

end Oblivious

/-- Up to every call the journal is only added to, by threads that have been started. -/
theorem spawns_of_enters {a b : Activation} {l : Label} (e : Enters a l b) :
    Spawns a.machine b.machine := by
  have h := Spawns.oblivious.leads e
  generalize b.machine = m at h
  cases h with
  | same hl h => exact h
  | deeper hl ht h h' => exact (h.trans (.deeper _)).trans h'
  | throwHook hr h => exact h ▸ Spawns.throwHookCalled _ _

end NonlocalExit
