import NonlocalExit.Proofs.Exceptions
import NonlocalExit.Proofs.Origins

/-!
# What is done about an unexpected exception

An exception that escapes where none may escape is given to the hook for unexpected exceptions, if
one is set, and then the thread ends.  `unexpected_calls_one_hook`: however the hook ends, it is not
called a second time, and what it threw is only reported.  But it stays set while it runs.  An
exception that is unexpected in the course of the hook is given to it again, and a hook in which
there always is one does not come to an end: `runsOut_of_throwingClause`.
-/

namespace NonlocalExit

open Effect Machine

section

variable [Declarations]

/-! ## Calls of hooks -/

/-- The exceptions with which hooks of a kind were called, in the order of the entries. -/
def hookedIn (kind : HookKind) (es : List Entry) : List Exception :=
  es.filterMap fun
    | .event (.hook k e) => if k = kind then some e else none
    | _ => none

theorem hookedIn_append (kind : HookKind) (new old : List Entry) :
    hookedIn kind (new ++ old) = hookedIn kind new ++ hookedIn kind old := List.filterMap_append

/-- Whether an entry is not that of a call of a hook. -/
def Entry.CallsNoHook : Entry → Prop
  | .event (.hook ..) => False
  | _ => True

theorem hookedIn_eq_nil {kind : HookKind} {es : List Entry} (h : ∀ e ∈ es, e.CallsNoHook) :
    hookedIn kind es = [] := by
  refine List.filterMap_eq_nil_iff.2 fun e he => ?_
  split
  · exact (h _ he).elim
  · rfl

namespace Machine

/-- The exceptions with which the current thread has called hooks of a kind since, newest first. -/
def hooked (kind : HookKind) (m m' : Machine) : List Exception := hookedIn kind (m.deeds m')

theorem hooked_trans {kind : HookKind} {m m₁ m' : Machine} (h : Grows m m₁) (h' : Grows m₁ m') :
    m.hooked kind m' = m₁.hooked kind m' ++ m.hooked kind m₁ := by
  unfold hooked
  rw [deeds_trans h.adds h'.adds, hookedIn_append]

theorem NotesOnly.hooked {kind : HookKind} {m m' : Machine} (h : m.NotesOnly Entry.CallsNoHook m') :
    m.hooked kind m' = [] := hookedIn_eq_nil h.only

/-- The machine with the hook for unexpected exceptions removed, because it threw. -/
def hookRemoved (m : Machine) : Machine :=
  let m := m.note (.log .hookThrew)
  { m with shared := { m.shared with hooks := m.shared.hooks.set .onUnexpected none } }

/-- The machine after an unexpected exception was reported and the thread given up. -/
def failedUnexpected (m : Machine) : Machine :=
  (m.note (.diagnostic (.unexpected (m.thread.current.map (·.tag))))).abandoned

namespace NotesOnly

variable {m : Machine}

theorem hookEnded (kind : HookKind) (link : Nat) (m : Machine) :
    m.NotesOnly Entry.CallsNoHook (m.hookEnded kind link) :=
  (note (e := .step (.hookEnded kind)) trivial m).trans (unprotected trivial _)

theorem abandoned (m : Machine) : m.NotesOnly Entry.CallsNoHook m.abandoned := by
  have hcleared : m.NotesOnly Entry.CallsNoHook (m.withCurrent none) :=
    of_aside (.ofThread rfl rfl rfl rfl rfl) rfl
  exact hcleared.trans (note (e := .log (.threadExit exitFailure)) trivial _)

theorem failedUnexpected (m : Machine) : m.NotesOnly Entry.CallsNoHook m.failedUnexpected :=
  (note (e := .diagnostic (.unexpected _)) trivial m).trans (abandoned _)

theorem hookRemoved (m : Machine) : m.NotesOnly Entry.CallsNoHook m.hookRemoved :=
  (note (e := .log .hookThrew) trivial m).trans
    (of_aside (.settings (f := fun s => { s with hooks := s.hooks.set .onUnexpected none })
      (fun _ => ⟨rfl, rfl, rfl, rfl⟩) _) rfl)

end NotesOnly

theorem hooked_hookCalled (kind : HookKind) (e : Exception) (m : Machine) :
    Grows m (m.hookCalled kind e) ∧ m.hooked kind (m.hookCalled kind e) = [e] := by
  have hlevel : m.NotesOnly Entry.CallsNoHook
      { m with thread := { m.thread with depth := m.thread.depth + 1 } } :=
    .of_aside (.ofThread rfl rfl rfl rfl rfl) rfl
  have hdeep : m.NotesOnly Entry.CallsNoHook m.deeper :=
    hlevel.trans (.note (e := .step (.protectedFrom _)) trivial _)
  have hcall : Grows m.deeper (m.hookCalled kind e) := .note _ _
  refine ⟨hdeep.toGrows.trans hcall, ?_⟩
  rw [hooked_trans hdeep.toGrows hcall, hdeep.hooked]
  unfold hooked hookCalled
  rw [deeds_note]
  simp [hookedIn]

end Machine

/-! ## How an unexpected exception ends the thread -/

/-- A hook is all that is called for an unexpected exception. -/
theorem enters_unexpected {n : Nat} {m : Machine} {l : Label} {y : Activation}
    (h : Enters ⟨n, .unexpected, m⟩ l y) :
    ∃ b e, m.shared.hooks.onUnexpected = some b ∧ m.thread.current = some e ∧
      l = .hook .onUnexpected m.thread.depth ∧
      y = ⟨n, .job (.block b), m.hookCalled .onUnexpected e⟩ := by
  cases h with
  | unexpectedHook n hb he => exact ⟨_, _, hb, he, rfl, rfl⟩

/-- What becomes of an unexpected exception: the exceptions with which the hook is called, newest
first, the unwind with which this ends, and the machine. -/
inductive UnexpectedEnds (n : Nat) (m : Machine) : List Exception → Transfer → Machine → Prop
  /-- There is no exception or no hook. -/
  | reported (h : m.shared.hooks.onUnexpected = none ∨ m.thread.current = none) :
    UnexpectedEnds n m [] (.threadExit exitFailure) m.failedUnexpected
  | returned {l y e m₁} (hy : Enters ⟨n, .unexpected, m⟩ l y) (he : m.thread.current = some e)
    (h : y.run = ⟨.returned (), m₁⟩) :
    UnexpectedEnds n m (y.machine.hooked .onUnexpected m₁ ++ [e]) (.threadExit exitFailure)
      (m₁.hookEnded .onUnexpected m.thread.depth).abandoned
  /-- What the hook has thrown is in the record, and is reported. -/
  | threw {l y e t m₁} (hy : Enters ⟨n, .unexpected, m⟩ l y) (he : m.thread.current = some e)
    (h : y.run = ⟨.unwound t, m₁⟩) (ht : t.escape? ≠ none) :
    UnexpectedEnds n m (y.machine.hooked .onUnexpected m₁ ++ [e]) (.threadExit exitFailure)
      (m₁.hookEnded .onUnexpected m.thread.depth).hookRemoved.failedUnexpected
  | left {l y e t m₁} (hy : Enters ⟨n, .unexpected, m⟩ l y) (he : m.thread.current = some e)
    (h : y.run = ⟨.unwound t, m₁⟩) (ht : t.escape? = none) :
    UnexpectedEnds n m (y.machine.hooked .onUnexpected m₁ ++ [e]) t
      (m₁.hookEnded .onUnexpected m.thread.depth)

section

variable {n : Nat} {m m' : Machine} {es : List Exception} {t : Transfer}

/-- An unexpected exception ends the thread, or what its hook does comes instead. -/
theorem unexpectedEnds_or_halted (n : Nat) (m : Machine) :
    (∃ es t m', Activation.run ⟨n, .unexpected, m⟩ = ⟨.unwound t, m'⟩ ∧
      UnexpectedEnds n m es t m') ∨
    ∃ l y h m', Enters ⟨n, .unexpected, m⟩ l y ∧ y.run = ⟨.halted h, m'⟩ ∧
      Activation.run ⟨n, .unexpected, m⟩ = ⟨.halted h, m'⟩ := by
  cases hb : m.shared.hooks.onUnexpected with
  | none =>
    refine .inl ⟨_, _, _, run_never_unwound ?_, .reported (.inl hb)⟩
    rw [run_unexpected, hb]
    rfl
  | some b =>
    cases he : m.thread.current with
    | none =>
      refine .inl ⟨_, _, _, run_never_unwound ?_, .reported (.inr he)⟩
      rw [run_unexpected, hb, he]
      rfl
    | some e =>
      have hy := Enters.unexpectedHook n hb he
      have hrun : (Effect.unexpected (Job.run n)).run m = _ := run_unexpected_hook hb he
      have hguarded : (guarded (callHook (Job.run n) .onUnexpected b e)).run m = _ :=
        run_guarded_callHook .onUnexpected b e m
      rcases hx : (Job.run n (.block b)).run (m.hookCalled .onUnexpected e) with ⟨_ | t | h, m₁⟩
      · rw [hx] at hguarded
        refine .inl ⟨_, _, _, run_never_unwound ?_, .returned hy he hx⟩
        exact hrun.trans (run_bind_returned hguarded)
      · rw [hx] at hguarded
        by_cases ht : t.escape? = none
        · rw [caught_unwound ht] at hguarded
          refine .inl ⟨_, _, _, run_never_unwound ?_, .left hy he hx ht⟩
          exact hrun.trans (run_bind_unwound hguarded)
        · rw [caught_escaped ht] at hguarded
          refine .inl ⟨_, _, _, run_never_unwound ?_, .threw hy he hx ht⟩
          exact hrun.trans (run_bind_returned hguarded)
      · rw [hx] at hguarded
        refine .inr ⟨_, _, _, _, hy, hx, run_never_halted ?_⟩
        exact hrun.trans (run_bind_halted hguarded)

/-- The hook is called with the exception, and with those that are unexpected in its own course. -/
theorem UnexpectedEnds.hooked (h : UnexpectedEnds n m es t m') :
    m.hooked .onUnexpected m' = es := by
  have hcall : ∀ {l y e o m₁}, Enters ⟨n, .unexpected, m⟩ l y → m.thread.current = some e →
      y.run.Leaves o m₁ → m₁.NotesOnly Entry.CallsNoHook m' →
      m.hooked .onUnexpected m' = y.machine.hooked .onUnexpected m₁ ++ [e] := by
    intro l y e o m₁ hy he hl hend
    obtain ⟨b, e', hb, he', rfl, rfl⟩ := enters_unexpected hy
    cases he.symm.trans he'
    obtain ⟨hgrows, hentry⟩ := hooked_hookCalled .onUnexpected e m
    have hrun := (steady_of_leaves hl).toGrows
    rw [hooked_trans (hgrows.trans hrun) hend.toGrows, hend.hooked, hooked_trans hgrows hrun,
      hentry]
    rfl
  cases h with
  | reported h => exact (NotesOnly.failedUnexpected m).hooked
  | returned hy he h =>
    exact hcall hy he (leaves_of_returned h) ((NotesOnly.hookEnded _ _ _).trans (.abandoned _))
  | threw hy he h ht =>
    exact hcall hy he (leaves_of_unwound h)
      (((NotesOnly.hookEnded _ _ _).trans (.hookRemoved _)).trans (.failedUnexpected _))
  | left hy he h ht => exact hcall hy he (leaves_of_unwound h) (.hookEnded _ _ _)

end

/-- A call of the hook that is made in the course of a call of the unexpected path is the one that
this call makes itself, or is made for an exception that is unexpected in the course of the hook. -/
theorem nested_of_hookEntered {n link : Nat} {m : Machine} {x y : Activation}
    {K : List (Label × Activation)} (h : Path ⟨n, .unexpected, m⟩ K x)
    (hy : Enters x (.hook .onUnexpected link) y) :
    x = ⟨n, .unexpected, m⟩ ∨ ∃ l c K', Enters ⟨n, .unexpected, m⟩ l c ∧ Path c K' x ∧
      x.task = .unexpected := by
  refine h.first.imp_right ?_
  rintro ⟨l, c, K', e, h'⟩
  refine ⟨l, c, K', e, h', ?_⟩
  generalize hl : Label.hook .onUnexpected link = l' at hy
  cases hy with
  | unexpectedHook n hb he => rfl
  | blockLeft | dropNext | scopeLeft => cases ‹Option Transfer› <;> cases hl
  | _ => cases hl

/-- An unexpected exception does not let the thread go on.  It is given to the hook, once, and
whatever the hook does, what comes afterwards is the end of the thread, with a report if the hook
threw; unless the hook starts another unwind, or does not come to an end.  The hook is called again
for those exceptions only that are unexpected in its own course. -/
theorem unexpected_calls_one_hook (n : Nat) (m : Machine) :
    ((∃ es t m', Activation.run ⟨n, .unexpected, m⟩ = ⟨.unwound t, m'⟩ ∧
        UnexpectedEnds n m es t m' ∧ m.hooked .onUnexpected m' = es) ∨
      ∃ l y h m', Enters ⟨n, .unexpected, m⟩ l y ∧ y.run = ⟨.halted h, m'⟩ ∧
        Activation.run ⟨n, .unexpected, m⟩ = ⟨.halted h, m'⟩) ∧
    ∀ K x link y, Path ⟨n, .unexpected, m⟩ K x → Enters x (.hook .onUnexpected link) y →
      x = ⟨n, .unexpected, m⟩ ∨ ∃ l c K', Enters ⟨n, .unexpected, m⟩ l c ∧ Path c K' x ∧
        x.task = .unexpected := by
  refine ⟨(unexpectedEnds_or_halted n m).imp_left ?_, fun K x link y => nested_of_hookEntered⟩
  rintro ⟨es, t, m', hrun, hends⟩
  exact ⟨es, t, m', hrun, hends, hends.hooked⟩

/-- The machine with a hook for unexpected exceptions set, and an exception in the record. -/
def Machine.withUnexpected (hook : Block) (v : Value) (m : Machine) : Machine where
  thread := { m.thread with current := some (.of v) }
  shared := { m.shared with hooks := m.shared.hooks.set .onUnexpected (some hook) }

end

/-- A thread that has come to an unexpected exception, with a hook that throws. -/
def beforeThrowingHook : Machine :=
  Machine.initial.withUnexpected [.throw (.bool false)] (.bool true)

theorem unexpected_calls_one_hook_throwing :
    ∃ m', Activation.run ⟨2, .unexpected, beforeThrowingHook⟩ =
        ⟨.unwound (.threadExit exitFailure), m'⟩ ∧
      UnexpectedEnds 2 beforeThrowingHook [.of (.bool true)] (.threadExit exitFailure) m' ∧
      m'.shared.hooks.onUnexpected = none ∧
      Entry.diagnostic (.unexpected (some (Value.bool false).type.tag)) ∈
        beforeThrowingHook.deeds m' := by
  rcases (unexpected_calls_one_hook 2 beforeThrowingHook).1 with
    ⟨es, t, m', hrun, hends, hes⟩ | ⟨l, y, h, m', -, -, hrun⟩
  · cases hrun
    cases hes
    exact ⟨_, rfl, hends, rfl, by decide⟩
  · cases hrun

/-! ## Hooks that come to unexpected exceptions themselves -/

/-- A hook that throws in a clause of its own. -/
def throwingClause (v w : Value) : Block := [.attempt [.throw v] [(.any, [.throw w])]]

namespace Machine

/-- Whether a hook that throws in a clause of its own is to be called for an unexpected exception,
and no throw hook before. -/
structure Retries (v w : Value) (m : Machine) : Prop where
  hook : m.shared.hooks.onUnexpected = some (throwingClause v w)
  quiet : m.shared.hooks.onThrow = none
  current : m.thread.current ≠ none

end Machine

/-- A block that throws leaves the hooks and the level as they are. -/
theorem run_throwing {k : Nat} {v : Value} {m : Machine} (hq : m.shared.hooks.onThrow = none)
    (hd : 0 < m.thread.depth) :
    ∃ m', (Job.run (k + 1) (.block [.throw v])).run m = ⟨.unwound .thrown, m'⟩ ∧
      m'.thread.current = some (.of v) ∧ m'.shared.hooks = m.shared.hooks ∧
      m'.thread.depth = m.thread.depth := by
  let m₁ := m.withHeld ([] :: m.thread.held)
  have hdispatch : (noteDispatch (m₁.thrown v).thread.current >>= fun _ =>
      callThrowHook (Job.run k)).run (m₁.thrown v) =
        ⟨.returned (), (m₁.thrown v).note (.step (.dispatched (.of v)))⟩ := by
    show (callThrowHook (Job.run k)).run ((m₁.thrown v).note (.step (.dispatched (.of v)))) = _
    rw [run_callThrowHook, show (Machine.note _ (m₁.thrown v)).shared.hooks.onThrow = none from hq]
    rfl
  have hthrow := unwound_of_enters (.throw k v m₁) (Raises.thrown hdispatch hd).run trivial rfl
  have hfirst := unwound_of_enters (.first k _ [] m₁) hthrow trivial rfl
  exact ⟨_, unwound_of_enters (.block k _ m) hfirst trivial rfl, rfl, rfl, rfl⟩

/-- A hook in which an exception is unexpected every time does not come to an end. -/
theorem runsOut_of_throwingClause {v w : Value} (n : Nat) {m : Machine} (h : m.Retries v w) :
    Activation.RunsOut ⟨n, .unexpected, m⟩ := by
  induction n using Nat.strongRecOn generalizing m with
  | ind n ih =>
    obtain ⟨e, he⟩ := Option.ne_none_iff_exists'.1 h.current
    have hhook := Enters.unexpectedHook n h.hook he
    refine runsOut_of_enters hhook ?_
    match n, ih with
    | 0, _ => exact ⟨_, rfl⟩
    | 1, _ => exact ⟨_, rfl⟩
    | k + 2, ih =>
      -- The body of the try block throws, and its clause does; which is unexpected.
      let m₁ := (m.hookCalled .onUnexpected e).withHeld
        ([] :: (m.hookCalled .onUnexpected e).thread.held)
      let clauses : List (Trigger × Block) := [(.any, [.throw w])]
      obtain ⟨m₂, hbody, hcur, hhooks, hdepth⟩ := run_throwing (k := k) (v := v)
        (m := m₁.tryEntered clauses) h.quiet (Nat.succ_pos _)
      have hstage := TryBlock.bodyStage_escaped m₁.thread.depth hbody rfl hcur
      obtain ⟨m₃, hclause, hcur', hhooks', -⟩ := run_throwing (k := k) (v := w)
        (m := (m₂.stage m₁.thread.depth .trying .catching).clauseEntered m₁.thread.depth (.of v)
          clauses (.caughtAny (.of v))) (by rw [← h.quiet]; exact congrArg _ hhooks)
        (hdepth ▸ Nat.succ_pos _)
      have hretries : m₃.Retries v w := by
        have hsame : m₃.shared.hooks = m.shared.hooks := hhooks'.trans hhooks
        exact ⟨hsame ▸ h.hook, hsame ▸ h.quiet, by rw [hcur']; nofun⟩
      have hnext := Enters.clauseThrew hstage rfl rfl hclause
      refine runsOut_of_enters (.block (k + 1) _ _) (runsOut_of_enters (.first _ _ _ _) ?_)
      exact runsOut_of_enters hnext (ih (k + 1) (Nat.lt_succ_self _) hretries)

/-- A hook that sets one that does nothing, and then throws in a clause of its own. -/
def nestingHook : Block :=
  .setHook .onUnexpected (some []) :: throwingClause (.bool false) (.bool false)

/-- The hook that is set in the course of another one is called before that one is left; and a hook
that throws in a clause of its own is called again and again. -/
theorem called_again_by_clause :
    (∃ m', Activation.run
          ⟨9, .unexpected, Machine.initial.withUnexpected nestingHook (.bool true)⟩ =
        ⟨.unwound (.threadExit exitFailure), m'⟩ ∧
      (Machine.initial.withUnexpected nestingHook (.bool true)).hooked .onUnexpected m' =
        [.of (.bool false), .of (.bool true)]) ∧
    ∀ n, Activation.RunsOut ⟨n, .unexpected, Machine.initial.withUnexpected
      (throwingClause (.bool false) (.bool false)) (.bool true)⟩ :=
  ⟨⟨_, rfl, rfl⟩, fun n => runsOut_of_throwingClause n ⟨rfl, rfl, nofun⟩⟩

end NonlocalExit
