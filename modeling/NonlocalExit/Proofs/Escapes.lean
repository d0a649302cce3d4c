import NonlocalExit.Proofs.Record
import NonlocalExit.Proofs.SessionEnds
import NonlocalExit.Proofs.Unexpected

/-!
# Exceptions that escape where none may escape

An exception that escapes a clause or a completion clause, the throw hook or the hook for unhandled
exceptions is unexpected, and ends the thread.  `escape_ends_session`: no call around it takes it
for an exception or for a panic, and when the cleanups return that are run on the way, the session
ends as failed, with its frames closed and without an exception in flight.  This leaves out what
leaves a clause by being thrown again: a try block takes it for the exception that the clause
handles, whatever it is (`clauses_run_over_rethrowingClause`).
-/

namespace NonlocalExit

open Effect Machine

section

variable [Declarations]

/-! ## Escapes -/

theorem guarded_runThrowHook_escaped {exec : Executor} {b : Block} {e : Exception} {t : Transfer}
    {m m₁ : Machine} (h : (exec (.block b)).run (m.throwHookCalled e) = ⟨.unwound t, m₁⟩)
    (ht : t.escape? ≠ none) :
    (guarded (runThrowHook exec b e)).run (m.note (.step (.dispatched e))) =
      ⟨.returned true, m₁.throwHookLeft m.thread.depth⟩ := by
  rw [run_guarded_runThrowHook, h, caught_escaped ht]

/-- The pieces of a program that no exception may leave, apart from the one that a clause
handles. -/
inductive EscapeSite
  | clause
  | completion
  | throwHook
  | unhandledHook

/-- Where exceptions escape from which none may escape: by which unwind, at which call, and what is
to be done about it. -/
inductive Escapes : EscapeSite → Transfer → Activation → Label → Activation → Prop
  /-- An exception that leaves a clause, and is not the one that the clause handles thrown again. -/
  | clause {n body clauses trigger b e start t} {m m₁ m₂ : Machine}
    (h : (TryBlock.bodyStage (Job.run n) body m.thread.depth).run (m.tryEntered clauses) =
      ⟨.returned (some e), m₁⟩) (hm : TryBlock.firstMatch e clauses = some (trigger, b))
    (hs : TryBlock.start? e trigger = some start)
    (hb : (Job.run n (.block b)).run (m₁.clauseEntered m.thread.depth e clauses start) =
      ⟨.unwound t, m₂⟩)
    (ht : t.escape? ≠ none) (he : t = .rethrown → m₂.thread.current ≠ some e) :
    Escapes .clause t ⟨n, .stmt (.attempt body clauses), m⟩ (.clause m.thread.depth)
      ⟨n, .unexpected, m₂⟩
  | completion {n body clauses pending final t} {m m₁ m₂ : Machine}
    (h : (TryBlock.clauseStage (Job.run n) body clauses m.thread.current m.thread.depth).run
      (m.tryEntered clauses) = ⟨.returned pending, m₁⟩)
    (hf : (TryBlock.completionsOf clauses).getLast? = some final)
    (hb : (Job.run n (.block final)).run (m₁.completionEntered m.thread.depth) = ⟨.unwound t, m₂⟩)
    (ht : t.escape? ≠ none) :
    Escapes .completion t ⟨n, .stmt (.attempt body clauses), m⟩ (.clause m.thread.depth)
      ⟨n, .unexpected, m₂⟩
  | throwHook {n b e t} {m m₁ : Machine} (hb : m.shared.hooks.onThrow = some b)
    (hr : m.thread.hookRunning = false) (he : m.thread.current = some e)
    (h : (Job.run n (.block b)).run (m.throwHookCalled e) = ⟨.unwound t, m₁⟩)
    (ht : t.escape? ≠ none) :
    Escapes .throwHook t ⟨n, .dispatch, m⟩ .plain
      ⟨n, .unexpected, m₁.throwHookLeft m.thread.depth⟩
  | unhandledHook {n b e t} {m m₁ : Machine} (hb : m.shared.hooks.onUnhandled = some b)
    (he : m.thread.current = some e)
    (h : (Job.run n (.block b)).run (m.hookCalled .onUnhandled e) = ⟨.unwound t, m₁⟩)
    (ht : t.escape? ≠ none) :
    Escapes .unhandledHook t ⟨n, .unhandled, m⟩ .plain
      ⟨n, .unexpected, m₁.hookEnded .onUnhandled m.thread.depth⟩

namespace Escapes

variable {site : EscapeSite} {t : Transfer} {x u : Activation} {l : Label}

/-- What escapes is taken for unexpected, but for what a clause throws again. -/
theorem enters (h : Escapes site t x l u) (hagain : site = .clause → t ≠ .rethrown) :
    Enters x l u := by
  cases h with
  | clause h hm hs hb ht _ =>
    cases t with
    | thrown => exact .clauseThrew h hm hs hb
    | rethrown => exact (hagain rfl rfl).elim
    | _ => exact (ht rfl).elim
  | completion h hf hb ht => exact .completionThrew h hf hb (Option.isSome_iff_ne_none.2 ht)
  | throwHook hb hr he h ht => exact .throwHookThrew hb hr he (guarded_runThrowHook_escaped h ht)
  | unhandledHook hb he h ht =>
    refine .unhandledHookThrew hb he ?_
    rw [run_guarded_callHook, h, caught_escaped ht]

theorem unexpected (h : Escapes site t x l u) : ∃ n m, u = ⟨n, .unexpected, m⟩ := by
  cases h <;> exact ⟨_, _, rfl⟩

theorem label (h : Escapes site t x l u) : l = .plain ∨ ∃ link, l = .clause link := by
  cases h with
  | clause | completion => exact .inr ⟨_, rfl⟩
  | throwHook | unhandledHook => exact .inl rfl

end Escapes

/-! ## From call to call -/

/-- How an unwind that has left a piece on a machine goes outward through the calls around that,
innermost first, whatever is run on the way: up to a call that does not let it pass, or to one at
which the process ends, or out of all of them.  At each call nothing is run but what is to be done
on exit. -/
inductive GoesOut (t : Transfer) : List (Label × Activation) → Activation → Machine → Prop
  | out {c m} : GoesOut t [] c m
  | met {l x K c m} (hp : ¬l.Passes t) : GoesOut t ((l, x) :: K) c m
  | cut {l K h} {x c : Activation} {m m'} (hp : l.Passes t)
    (hexit : ∀ m₁, (l.exit (Job.run c.fuel)).run m ≠ ⟨.returned (), m₁⟩)
    (hx : x.run = ⟨.halted h, m'⟩) : GoesOut t ((l, x) :: K) c m
  | through {l K} {x c : Activation} {m m₁} (hp : l.Passes t)
    (hexit : (l.exit (Job.run c.fuel)).run m = ⟨.returned (), m₁⟩)
    (hx : x.run = ⟨.unwound t, m₁⟩)
    (hclauses : ∀ link, l = .attempt link → ∀ link' d, ¬Enters x (.clause link') d)
    (h : GoesOut t K x m₁) : GoesOut t ((l, x) :: K) c m

section

variable {a b : Activation} {K : List (Label × Activation)} {t : Transfer} {m : Machine}

theorem goesOut_of_path (h : Path a K b) (hb : b.run = ⟨.unwound t, m⟩) (ht : t.escape? = none)
    (hs : ∀ c ∈ K, ∀ base owner, c.1 ≠ .session base owner) : GoesOut t K b m := by
  induction h generalizing m with
  | here => exact .out
  | call h e ih =>
    rename_i K x l c
    by_cases hp : l.Passes t
    · by_cases hexit : ∃ m₁, (l.exit (Job.run c.fuel)).run m = ⟨.returned (), m₁⟩
      · obtain ⟨m₁, hexit⟩ := hexit
        have hx := unwound_of_enters e hb hp hexit
        refine .through hp hexit hx (fun link hl link' d => ?_)
          (ih hx fun c hc => hs c (List.mem_cons_of_mem _ hc))
        subst hl
        exact not_enters_clause e hb ht
      · obtain ⟨h, m', hx⟩ | hreplaced := halted_of_exit e hb hp (not_exists.1 hexit)
        · exact .cut hp (not_exists.1 hexit) hx
        · -- Only a session can be left by another unwind.
          cases hreplaced [] with
          | here => exact (hs _ List.mem_cons_self _ _ rfl).elim
          | passed _ _ h => cases h
    · exact .met hp

/-! ## The record on the way -/

/-- What closes frames calls cleanups, and pieces that close frames in turn. -/
theorem closes_or_starts {y z : Activation} {l : Label} (hy : y.task.Closes) (e : Enters y l z) :
    z.task.Closes ∨ StartsCleanup y z := by
  cases e with
  | cleanup n ht hf hp => exact .inr (.here (.cleanup n ht hf hp))
  | closeNext | closeInner | closeAboveNext | passed | walkNext => exact .inl trivial
  | drop | dropNext => exact .inl trivial
  | _ => exact hy.elim

/-- Closing frames keeps the record if the cleanups do. -/
theorem keepsRecord_of_closes (y : Activation) (hy : y.task.Closes)
    (hd : ∀ d, StartsCleanup y d → d.KeepsRecord) : y.KeepsRecord := by
  induction y using Activation.induction with
  | h y ih =>
    have hcalls : ∀ l z, Enters y l z → z.KeepsRecord := fun l z e =>
      (closes_or_starts hy e).elim
        (fun hz => ih l z e hz fun d h => hd d (.later e hz h)) fun h => hd z h
    obtain ⟨n, T, m⟩ := y
    cases T with
    | job j =>
      cases n with
      | zero => exact fun m' h => by cases h
      | succ n =>
        cases j with
        | block ss => exact hy.elim
        | close id => exact keepsRecord_close hcalls
        | closeAbove base => exact keepsRecord_closeAbove hcalls
        | walk code => exact keepsRecord_walk hcalls
    | drops count => exact keepsRecord_drops hcalls
    | _ => exact hy.elim

theorem closes_of_closing {n : Nat} {l : Label} {y : Activation} (h : l.closing? n m = some y) :
    y.task.Closes := by
  cases l <;> cases h <;> trivial

/-- An unwind that passes all calls comes out of them with the record that it was started with, when
the cleanups on its way return and keep the record. -/
theorem unwound_keeping_record {K₀ : List (Label × Activation)} (hstack : Stack K₀ a)
    (h : Path a K b) (hb : b.run = ⟨.unwound t, m⟩) (hp : ∀ c ∈ K, c.1.Passes t)
    (hd : ∀ c ∈ K, ∀ d, StartsOnExit t c.1 c.2 d → d.Returns ∧ d.KeepsRecord) :
    a.RunsOut ∨ ∃ m', a.run = ⟨.unwound t, m'⟩ ∧ m'.thread.current = m.thread.current := by
  induction h generalizing m with
  | here => exact .inr ⟨m, hb, rfl⟩
  | call h e ih =>
    rename_i K x l c
    have hcleanups := hd _ List.mem_cons_self
    obtain hout | ⟨m₁, hexit⟩ := exit_returns (hstack.append h) e hb fun d hs => (hcleanups d hs).1
    · exact .inl (h.runsOut_of_runsOut hout)
    have hcur : m₁.thread.current = m.thread.current :=
      current_of_closing (fun y hy => keepsRecord_of_closes y (closes_of_closing hy) fun d hs =>
        (hcleanups d ⟨c, m, y, e, hb, hy, hs⟩).2) hexit
    refine (ih (unwound_of_enters e hb (hp _ List.mem_cons_self) hexit)
      (fun c hc => hp c (List.mem_cons_of_mem _ hc))
      fun c hc => hd c (List.mem_cons_of_mem _ hc)).imp_right ?_
    rintro ⟨m', hrun, hcur'⟩
    exact ⟨m', hrun, hcur'.trans hcur⟩

end

/-! ## The end of the session -/

/-- With what an unexpected exception leaves the thread: with its end, and no exception in flight,
or with an unwind that its hook has started. -/
theorem left_of_unexpected {n : Nat} {m : Machine} :
    (∃ l y h m', Enters ⟨n, .unexpected, m⟩ l y ∧ y.run = ⟨.halted h, m'⟩ ∧
      Activation.run ⟨n, .unexpected, m⟩ = ⟨.halted h, m'⟩) ∨
    ∃ t m', Activation.run ⟨n, .unexpected, m⟩ = ⟨.unwound t, m'⟩ ∧
      (t = .threadExit exitFailure ∧ m'.thread.current = none ∨ ∃ l y m₁,
        Enters ⟨n, .unexpected, m⟩ l y ∧ y.run = ⟨.unwound t, m₁⟩ ∧ t.escape? = none) := by
  obtain ⟨es, t, m', hrun, hends⟩ | hhalt := unexpectedEnds_or_halted n m
  · refine .inr ⟨t, m', hrun, ?_⟩
    cases hends with
    | reported | returned | threw => exact .inl ⟨rfl, rfl⟩
    | left hy he h ht => exact .inr ⟨_, _, _, hy, h, ht⟩
  · exact .inl hhalt

/-- When its hook returns or throws an exception, an unexpected exception ends the thread. -/
theorem ends_of_unexpected {n : Nat} {m : Machine}
    (hhook : ∀ l y, Enters ⟨n, .unexpected, m⟩ l y →
      y.Returns ∨ ∃ t m', y.run = ⟨.unwound t, m'⟩ ∧ t.escape? ≠ none) :
    ∃ m', Activation.run ⟨n, .unexpected, m⟩ = ⟨.unwound (.threadExit exitFailure), m'⟩ ∧
      m'.thread.current = none := by
  obtain ⟨l, y, h, m', e, hy, -⟩ | ⟨t, m', hrun, ⟨rfl, hcur⟩ | ⟨l, y, m₁, e, hy, ht⟩⟩ :=
    left_of_unexpected (n := n) (m := m)
  · obtain ⟨m₁, hret⟩ | ⟨t, m₁, hthrew, -⟩ := hhook l y e
    · cases hy.symm.trans hret
    · cases hy.symm.trans hthrew
  · exact ⟨m', hrun, hcur⟩
  · obtain ⟨m₂, hret⟩ | ⟨t', m₂, hthrew, hescape⟩ := hhook l y e
    · cases hy.symm.trans hret
    · cases hy.symm.trans hthrew
      exact (hescape ht).elim

/-- A session whose body the end of the thread has left ends with that status, with its frames
closed and with the record that its body was left with, when the cleanups return that are run on
its exit, and keep the record. -/
theorem session_ends_keeping_record {K₀ : List (Label × Activation)} {k : Nat}
    {value status : Int32} {body : Block} {m₀ m : Machine}
    (hstack : Stack K₀ ⟨k, .session value body, m₀⟩) (ht : m₀.thread.torn = false)
    (hleft : Activation.run ⟨k, .job (.block body), m₀.sessionEntered⟩ =
      ⟨.unwound (.threadExit status), m⟩)
    (hd : ∀ d, StartsOnExit (.threadExit status)
      (.session m₀.innermostId (!m₀.thread.initialised)) ⟨k, .session value body, m₀⟩ d →
        d.Returns ∧ d.KeepsRecord) :
    Activation.RunsOut ⟨k, .session value body, m₀⟩ ∨
      ∃ m', EndsWith k value body m₀ status m' ∧ m₀.SessionLeft m' ∧
        m'.thread.current = m.thread.current := by
  have hbody : Enters ⟨k, .session value body, m₀⟩ _ _ := .session k value body ht
  have hl := leaves_of_unwound hleft
  have hstarts : ∀ d, StartsCleanup ⟨k, .job (.closeAbove m₀.innermostId), m⟩ d →
      d.Returns ∧ d.KeepsRecord := fun d hs => hd d ⟨_, m, _, hbody, hleft, rfl, hs⟩
  have htorn : m.thread.torn = false :=
    ((tidy_of_enters hbody).trans (Tidy.primitives.obeys _ _ _ _ _ hl)).torn.trans ht
  refine (closing_returns ⟨k, .job (.closeAbove _), m⟩ trivial nofun htorn
    fun d hs => (hstarts d hs).1).imp (runsOut_of_enters (.sessionLeft ht hl)) ?_
  rintro ⟨m₂, hclose⟩
  have hkept : m₂.thread.current = m.thread.current :=
    keepsRecord_of_closes ⟨k, .job (.closeAbove _), m⟩ trivial (fun d hs => (hstarts d hs).2) _
      hclose
  refine ⟨_, endsWith_of_session (run_session_left ht hl hclose),
    sessionLeft_of_closed hstack ht hl hclose, ?_⟩
  have hclosed : (m₂.sessionClosed (!m₀.thread.initialised)).thread.current =
      m₂.thread.current := by
    cases m₀.thread.initialised <;> rfl
  rw [hclosed, hkept]

/-- An exception that escapes where none may escape, and is not one that a clause throws again, goes
no further.  In its place the thread is ended, or what the hook for unexpected exceptions starts
comes out; from there nothing is run on the way outward but what is to be done on exit, so no clause
is, and no recovery stops the end of the thread.  When the hook returns or throws, and the cleanups
on the way return and keep the record, the session ends as failed, with its frames closed, each of
their cleanups run once, and no exception in flight. -/
theorem escape_ends_session {K₀ K : List (Label × Activation)} {k : Nat} {value : Int32}
    {body : Block} {m₀ : Machine} {site : EscapeSite} {escape : Transfer} {x u : Activation}
    {l : Label} (hstack : Stack K₀ ⟨k, .session value body, m₀⟩) (ht : m₀.thread.torn = false)
    (hpath : Path ⟨k, .job (.block body), m₀.sessionEntered⟩ K x)
    (hescape : Escapes site escape x l u) (hagain : site = .clause → escape ≠ .rethrown)
    (hK : ∀ c ∈ K, c.1 ≠ .foreign ∧ c.1 ≠ .unwinding ∧ ∀ base owner, c.1 ≠ .session base owner) :
    ((∃ l' y h m, Enters u l' y ∧ y.run = ⟨.halted h, m⟩ ∧ u.run = ⟨.halted h, m⟩) ∨
      ∃ t m, u.run = ⟨.unwound t, m⟩ ∧ GoesOut t ((l, x) :: K) u m ∧
        (t = .threadExit exitFailure ∧ (∀ c ∈ (l, x) :: K, c.1.Passes t) ∨
          ∃ l' y m₁, Enters u l' y ∧ y.run = ⟨.unwound t, m₁⟩ ∧ t.escape? = none)) ∧
    ((∀ l' y, Enters u l' y → y.Returns ∨ ∃ t m, y.run = ⟨.unwound t, m⟩ ∧ t.escape? ≠ none) →
      (∀ c ∈ (l, x) :: K ++ [(.session m₀.innermostId (!m₀.thread.initialised),
          ⟨k, .session value body, m₀⟩)],
        ∀ d, StartsOnExit (.threadExit exitFailure) c.1 c.2 d → d.Returns ∧ d.KeepsRecord) →
      Activation.RunsOut ⟨k, .session value body, m₀⟩ ∨
        ∃ m', EndsWith k value body m₀ exitFailure m' ∧ m₀.SessionLeft m' ∧
          m'.thread.current = none) := by
  have hpath' := hpath.call (hescape.enters hagain)
  have hcalls : ∀ c ∈ (l, x) :: K,
      c.1 ≠ .foreign ∧ c.1 ≠ .unwinding ∧ ∀ base owner, c.1 ≠ .session base owner := by
    refine List.forall_mem_cons.2 ⟨?_, hK⟩
    obtain rfl | ⟨link, rfl⟩ := hescape.label <;> exact ⟨nofun, nofun, nofun⟩
  have hpasses : ∀ c ∈ (l, x) :: K, c.1.Passes (.threadExit exitFailure) := fun c hc => by
    obtain ⟨hforeign, hunwinding, hsession⟩ := hcalls c hc
    exact Label.passes_threadExit hforeign hunwinding hsession
  obtain ⟨n, m, rfl⟩ := hescape.unexpected
  refine ⟨left_of_unexpected.imp_right ?_, fun hhook hcleanups => ?_⟩
  · rintro ⟨t, m', hrun, hleft⟩
    have hescape? : t.escape? = none := by
      obtain ⟨rfl, -⟩ | ⟨_, _, _, -, -, h⟩ := hleft
      · rfl
      · exact h
    refine ⟨t, m', hrun, goesOut_of_path hpath' hrun hescape? fun c hc => (hcalls c hc).2.2,
      hleft.imp_left ?_⟩
    rintro ⟨rfl, -⟩
    exact ⟨rfl, hpasses⟩
  obtain ⟨m', hrun, hcur⟩ := ends_of_unexpected hhook
  have hbody : Enters ⟨k, .session value body, m₀⟩ _ _ := .session k value body ht
  obtain hout | ⟨m₁, hleft, hcur₁⟩ := unwound_keeping_record (hstack.call hbody) hpath' hrun hpasses
    fun c hc => hcleanups c (List.mem_append_left _ hc)
  · exact .inl (runsOut_of_enters hbody hout)
  · refine (session_ends_keeping_record hstack ht hleft
      (hcleanups _ (List.mem_append_right _ List.mem_cons_self))).imp_right ?_
    rintro ⟨m₂, hends, hclosed, hcur₂⟩
    exact ⟨m₂, hends, hclosed, hcur₂.trans (hcur₁.trans hcur)⟩

end

/-- A clause that throws, in a scope with a cleanup, inside a try block with clauses of both kinds,
inside a recovery. -/
def escapingClause : Block :=
  [.recover "value" [.attempt [.scope [.defer [.emit "cleanup"],
      .attempt [.throw (.bool true)] [(.any, [.throw (.bool false)])]]]
    [(.any, [.emit "caught"]), (.completion, [.emit "completed"])]]]

/-- A thread that is started while a hook for unexpected exceptions is set, which throws. -/
def startedUnderThrowingHook : Machine :=
  (Machine.initial.withUnexpected [.throw (.bool true)] (.bool true)).threadStarted

/-- The machine in the scope, after the cleanup was registered. -/
def inEscapingScope : Machine :=
  let session := startedUnderThrowingHook.sessionEntered
  let entered := (session.withHeld ([] :: session.thread.held)).recoveryEntered
  let tried := (entered.withHeld ([] :: entered.thread.held)).tryEntered
    [(.any, [.emit "caught"]), (.completion, [.emit "completed"])]
  let scope := (tried.withHeld ([] :: tried.thread.held)).scopeEntered
  ((Stmt.perform (Job.run 7) (.defer [.emit "cleanup"])).run
    (scope.withHeld ([] :: scope.thread.held))).machine

/-- The exception escapes the clause inside the scope, and the cleanup of the scope is the only one
that is run on the way outward. -/
theorem path_escapingClause :
    ∃ K x m, Path ⟨11, .job (.block escapingClause), startedUnderThrowingHook.sessionEntered⟩ K x ∧
      K.countP (·.1.protects) = 1 ∧ Escapes .clause .thrown x (.clause 1) ⟨7, .unexpected, m⟩ ∧
      m.shared.hooks = Hooks.none.set .onUnexpected (some [.throw (.bool true)]) ∧
      (∀ c ∈ K, c.1 ≠ .foreign ∧ c.1 ≠ .unwinding ∧ ∀ base owner, c.1 ≠ .session base owner) ∧
      ∀ c ∈ (.clause 1, x) :: K ++ [(.session none true,
          ⟨11, .session 0 escapingClause, startedUnderThrowingHook⟩)],
        ∀ d, StartsOnExit (.threadExit exitFailure) c.1 c.2 d → d.Returns ∧ d.KeepsRecord := by
  have hpath := ((((((((((Path.here
      (a := ⟨11, .job (.block escapingClause), startedUnderThrowingHook.sessionEntered⟩)).call
    (.block _ _ _)).call (.first _ _ _ _)).call (.recover _ _ _ rfl)).call (.block _ _ _)).call
    (.first _ _ _ _)).call (.attempt _ _ _ _)).call (.block _ _ _)).call (.first _ _ _ _)).call
    (.scope _ _ rfl)).call (.block _ _ _) |>.call
    (@Enters.next _ _ _ _ _ inEscapingScope rfl) |>.call (.first _ _ _ _)
  refine ⟨_, _, _, hpath, rfl, .clause rfl rfl rfl rfl nofun nofun, rfl, by simp, ?_⟩
  have hnone : ∀ {l x}, (∀ fuel m, l.closing? fuel m = none) → ∀ d,
      StartsOnExit (.threadExit exitFailure) l x d → d.Returns ∧ d.KeepsRecord := fun hl _ hs =>
    (not_startsOnExit hl hs).elim
  have hblock : ∀ {n ss m m'}, Activation.run ⟨n, .rest ss, m.withHeld ([] :: m.thread.held)⟩ =
      ⟨.unwound (.threadExit exitFailure), m'⟩ → m'.thread.held.headD [] = [] → ∀ d,
      StartsOnExit (.threadExit exitFailure) .block ⟨n + 1, .job (.block ss), m⟩ d →
        d.Returns ∧ d.KeepsRecord := fun hc hheld _ hs =>
    (not_startsOnExit_block hc hheld hs).elim
  refine List.forall_mem_cons.2 ⟨hnone fun _ _ => rfl, List.forall_mem_cons.2
    ⟨hnone fun _ _ => rfl, List.forall_mem_cons.2 ⟨hnone fun _ _ => rfl, List.forall_mem_cons.2
    ⟨hblock rfl rfl, List.forall_mem_cons.2 ⟨fun d hs => ?_, List.forall_mem_cons.2
    ⟨hnone fun _ _ => rfl, List.forall_mem_cons.2 ⟨hblock rfl rfl, List.forall_mem_cons.2
    ⟨hnone fun _ _ => rfl, List.forall_mem_cons.2 ⟨hnone fun _ _ => rfl, List.forall_mem_cons.2
    ⟨hblock rfl rfl, List.forall_mem_cons.2 ⟨hnone fun _ _ => rfl, List.forall_mem_cons.2
    ⟨hnone fun _ _ => rfl, List.forall_mem_cons.2 ⟨hblock rfl rfl,
    List.forall_mem_singleton.2 fun d hs => ?_⟩⟩⟩⟩⟩⟩⟩⟩⟩⟩⟩⟩⟩
  · -- The scope has one cleanup.
    obtain ⟨y, hy, hs⟩ := (startsOnExit_iff (.scope 8 _ rfl) rfl).1 hs
    cases hy
    obtain rfl | ⟨m₁, h, hs⟩ := hs.of_close rfl rfl
    · exact ⟨⟨_, rfl⟩, fun m h => by cases h; rfl⟩
    · cases h
      exact (StartsCleanup.not_close rfl rfl hs).elim
  · -- The frame of the session is empty.
    obtain ⟨y, hy, hs⟩ := (startsOnExit_iff (.session 11 _ _ rfl) rfl).1 hs
    cases hy
    obtain hs | ⟨m₁, h, hs⟩ := hs.of_closeAbove rfl
    · exact (StartsCleanup.not_close rfl rfl hs).elim
    · cases h
      exact (StartsCleanup.not_closeAbove_nil rfl hs).elim

theorem escape_ends_session_over_escapingClause :
    ∃ K x u t m, K.countP (·.1.protects) = 1 ∧ Escapes .clause .thrown x (.clause 1) u ∧
      GoesOut t ((.clause 1, x) :: K) u m ∧
      ∃ m', EndsWith 11 0 escapingClause startedUnderThrowingHook exitFailure m' ∧
        startedUnderThrowingHook.SessionLeft m' ∧ m'.thread.current = none := by
  obtain ⟨K, x, m, hpath, hcount, hescape, hset, hK, hcleanups⟩ := path_escapingClause
  have hstack : Stack [] ⟨11, .session 0 escapingClause, startedUnderThrowingHook⟩ :=
    .start (.session rfl (by decide : 1 < 2))
  have hhook : ∀ l y, Enters ⟨7, .unexpected, m⟩ l y → y.Returns ∨
      ∃ t m', y.run = ⟨.unwound t, m'⟩ ∧ t.escape? ≠ none := by
    intro l y hy
    obtain ⟨b, e, hb, -, rfl, rfl⟩ := enters_unexpected hy
    rw [hset] at hb
    cases hb
    obtain ⟨m', hrun, -⟩ := run_throwing (k := 6) (v := .bool true)
      (m := m.hookCalled .onUnexpected e) (congrArg Hooks.onThrow hset) (Nat.succ_pos _)
    exact .inr ⟨.thrown, m', hrun, nofun⟩
  obtain ⟨hleft, hends⟩ := escape_ends_session hstack rfl hpath hescape nofun hK
  have hended := (hends hhook hcleanups).resolve_left (by rintro ⟨m, h⟩; cases h)
  obtain ⟨l, y, h, m', e, hhalted, -⟩ | ⟨t, m', -, hout, -⟩ := hleft
  · obtain ⟨m₁, hrun⟩ | ⟨t, m₁, hrun, -⟩ := hhook l y e <;> cases hhalted.symm.trans hrun
  · exact ⟨K, x, _, t, m', hcount, hescape, hout, hended⟩

/-- A clause that has another exception swallowed and throws it again, in a try block with a
completion clause, inside another try block. -/
def rethrowingClause : Block :=
  [.attempt [.attempt [.throw (.bool true)]
      [(.any, [.intercept [.throw (.bool false)], .rethrow]), (.completion, [.emit "completed"])]]
    [(.any, [.emit "caught"])]]

/-- The exception that escapes the clause is not the one that the clause handles.  It is taken for
that one: the completion clause is run while it is in the record, then a clause of the outer try
block; and the session returns. -/
theorem clauses_run_over_rethrowingClause :
    ∃ K n x y u d d' m',
      Path ⟨9, .job (.block rethrowingClause), Machine.initial.threadStarted.sessionEntered⟩ K x ∧
      Escapes .clause .rethrown x (.clause 1) u ∧ u.machine.shared.hooks = .none ∧
      (∀ c ∈ K, c.1 ≠ .foreign ∧ c.1 ≠ .unwinding ∧ ∀ base owner, c.1 ≠ .session base owner) ∧
      Enters x (.clause 1) d ∧ d.task = .job (.block [.emit "completed"]) ∧
      d.machine.thread.current = some (.of (.bool false)) ∧
      (.attempt 0, y) ∈ K ∧ Enters y (.clause 0) d' ∧ d'.task = .job (.block [.emit "caught"]) ∧
      (runBody (Job.run n) (threadBody (Job.run n) 0 rethrowingClause)).run
        Machine.initial.threadStarted = ⟨.returned 0, m'⟩ ∧
      startedIn (stepsIn (Machine.initial.threadStarted.deeds m')) = [] := by
  have hpath := (((((Path.here (a := ⟨9, .job (.block rethrowingClause),
    Machine.initial.threadStarted.sessionEntered⟩)).call (.block _ _ _)).call (.first _ _ _ _)).call
    (.attempt _ _ _ _)).call (.block _ _ _)).call (.first _ _ _ _)
  refine ⟨_, 9, _, _, _, _, _, _, hpath, .clause rfl rfl rfl rfl nofun (fun _ => by decide), rfl,
    by simp, .completion rfl rfl, rfl, rfl, .tail _ (.tail _ (.head _)), .clause rfl rfl rfl, rfl,
    rfl, rfl⟩

end NonlocalExit
