import NonlocalExit.Proofs.Closings
import NonlocalExit.Proofs.ThrowHooks
import NonlocalExit.Proofs.Unexpected

/-!
# What a fault logs

A fault is met in the handler of its signal, and so is all that is done about the exception that it
is translated to, up to the unwind by which the handler is left.  `fault_logs_end_only`: on the way
to a try block nothing is logged besides what hooks log, and nothing where a hook starts an unwind
of its own.  But an exception that is given up ends the thread, and that is logged, and so is the
removal of a hook that threw: `logged_of_unhandledFault`.
-/

namespace NonlocalExit

open Effect

section

variable [Declarations]

/-! ## What is logged between two machines -/

/-- What the current thread has logged since, oldest first. -/
def Machine.logged (m m' : Machine) : List LogRecord :=
  ((m.deeds m').filterMap Entry.log?).reverse

section

variable {m m₁ m' : Machine}

theorem logged_trans (h : Adds m m₁) (h' : Adds m₁ m') :
    m.logged m' = m.logged m₁ ++ m₁.logged m' := by
  unfold Machine.logged
  rw [Machine.deeds_trans h h', List.filterMap_append, List.reverse_append]

theorem logged_of_deeds {es : List Entry} (h : m.deeds m' = es) :
    m.logged m' = (es.filterMap Entry.log?).reverse := by rw [Machine.logged, h]

/-- What a thread notes that has not started anything meanwhile. -/
theorem deeds_of_noted (es : List Entry)
    (h : m'.shared.journal = es.map (⟨m.thread.number, ·⟩) ++ m.shared.journal) :
    m.deeds m' = es := (Machine.deeds_of_journal _ h).trans (entriesOf_map _ _)

end

/-! ## Hooks -/

namespace Machine

/-- The machine after a hook was left. -/
def hookOver (kind : HookKind) (link : Nat) (m : Machine) : Machine :=
  match kind with
  | .onThrow => m.throwHookLeft link
  | kind => m.hookEnded kind link

end Machine

/-- A call of a hook, from its start up to the machine on which it was left. -/
structure HookCall where
  start : Activation
  left : Machine

/-- What was logged while the hook ran. -/
def HookCall.logged (c : HookCall) : List LogRecord := c.start.machine.logged c.left

/-- A hook is started, and left, without anything being logged. -/
theorem logged_of_hook {a y : Activation} {kind : HookKind} {link : Nat} {o : Option Transfer}
    {m : Machine} (e : Enters a (.hook kind link) y) (h : y.run.Leaves o m) :
    Adds a.machine (m.hookOver kind link) ∧
      a.machine.logged (m.hookOver kind link) = HookCall.logged ⟨y, m⟩ := by
  have hcall := adds_of_enters e
  have hrun := (Spawns.oblivious.obeys_run h).toAdds
  have hover : Adds m (m.hookOver kind link) ∧ m.logged (m.hookOver kind link) = [] := by
    cases kind with
    | onThrow =>
      exact ⟨(Spawns.throwHookLeft _ _).toAdds, logged_of_deeds (deeds_throwHookLeft _ _)⟩
    | onUnhandled =>
      exact ⟨(Machine.NotesOnly.hookEnded _ _ _).toGrows.adds, logged_of_deeds
        (deeds_of_noted [.step (.protectedUntil link), .step (.hookEnded _)] rfl)⟩
    | onUnexpected =>
      exact ⟨(Machine.NotesOnly.hookEnded _ _ _).toGrows.adds, logged_of_deeds
        (deeds_of_noted [.step (.protectedUntil link), .step (.hookEnded _)] rfl)⟩
  have hquiet : a.machine.logged y.machine = [] := by
    generalize hl : Label.hook kind link = l at e
    cases e with
    | throwHook => exact logged_of_deeds (deeds_throwHookCalled _ _)
    | unhandledHook =>
      exact logged_of_deeds (deeds_of_noted [.event (.hook ..), .step (.protectedFrom _)] rfl)
    | unexpectedHook =>
      exact logged_of_deeds (deeds_of_noted [.event (.hook ..), .step (.protectedFrom _)] rfl)
    | blockLeft | dropNext | scopeLeft => cases ‹Option Transfer› <;> cases hl
    | _ => cases hl
  refine ⟨(hcall.trans hrun).trans hover.1, ?_⟩
  rw [logged_trans (hcall.trans hrun) hover.1, logged_trans hcall hrun, hquiet, hover.2,
    List.nil_append, List.append_nil]
  rfl

/-! ## How an exception is handled -/

/-- How the throw hook is passed on the way to a try block: the calls of it, and the machine
afterwards. -/
inductive Offered (n : Nat) (m : Machine) : List HookCall → Machine → Prop
  | quiet (h : m.shared.hooks.onThrow = none ∨ m.thread.hookRunning = true) :
    Offered n m [] m.dispatchNoted
  | returned {link y m₁} (e : Enters ⟨n, .dispatch, m⟩ (.hook .onThrow link) y)
    (h : y.run = ⟨.returned (), m₁⟩) : Offered n m [⟨y, m₁⟩] (m₁.hookOver .onThrow link)

/-- How an exception is handled that is sent to a try block, or is unhandled or unexpected: the
calls of hooks, what is logged besides, both oldest first, and the unwind with which this ends. -/
inductive Handled (n : Nat) :
    Task → Machine → List HookCall → List LogRecord → Transfer → Machine → Prop
  | sent {m m₁ cs} (h : Offered n m cs m₁) (hd : 0 < m.thread.depth) :
    Handled n .dispatch m cs [] .thrown m₁
  | outside {m m₁ m' cs ds own t} (h : Offered n m cs m₁) (hd : m.thread.depth = 0)
    (hu : Handled n .unhandled m₁ ds own t m') : Handled n .dispatch m (cs ++ ds) own t m'
  /-- There is no exception or no hook. -/
  | unhandled {m : Machine} (h : m.shared.hooks.onUnhandled = none ∨ m.thread.current = none) :
    Handled n .unhandled m [] [.threadExit exitFailure] (.threadExit exitFailure)
      (m.note (.diagnostic (.unhandled (m.thread.current.map (·.tag))))).abandoned
  | unexpected {m : Machine} (h : m.shared.hooks.onUnexpected = none ∨ m.thread.current = none) :
    Handled n .unexpected m [] [.threadExit exitFailure] (.threadExit exitFailure)
      m.failedUnexpected
  /-- A hook for exceptions that are given up has returned. -/
  | returned {T m kind link y m₁} (e : Enters ⟨n, T, m⟩ (.hook kind link) y)
    (hk : kind ≠ .onThrow) (h : y.run = ⟨.returned (), m₁⟩) :
    Handled n T m [⟨y, m₁⟩] [.threadExit exitFailure] (.threadExit exitFailure)
      (m₁.hookOver kind link).abandoned
  | threw {T m kind link y t t' m₁ m' cs own} (e : Enters ⟨n, T, m⟩ (.hook kind link) y)
    (hk : kind ≠ .onUnexpected) (h : y.run = ⟨.unwound t, m₁⟩) (ht : t.escape? ≠ none)
    (hu : Handled n .unexpected (m₁.hookOver kind link) cs own t' m') :
    Handled n T m (⟨y, m₁⟩ :: cs) own t' m'
  | removed {m link y t m₁} (e : Enters ⟨n, .unexpected, m⟩ (.hook .onUnexpected link) y)
    (h : y.run = ⟨.unwound t, m₁⟩) (ht : t.escape? ≠ none) :
    Handled n .unexpected m [⟨y, m₁⟩] [.hookThrew, .threadExit exitFailure]
      (.threadExit exitFailure) (m₁.hookOver .onUnexpected link).hookRemoved.failedUnexpected
  /-- A hook has started another unwind, which goes past. -/
  | left {T m kind link y t m₁} (e : Enters ⟨n, T, m⟩ (.hook kind link) y)
    (h : y.run = ⟨.unwound t, m₁⟩) (ht : t.escape? = none) :
    Handled n T m [⟨y, m₁⟩] [] t (m₁.hookOver kind link)

/-- Whether a hook that is called on the way of an exception stops the process, or does not come to
an end. -/
def Activation.HaltsInHook (a : Activation) : Prop :=
  ∃ K x kind link y h m, Path a K x ∧ (∀ c ∈ K, c.1 = .plain) ∧ Enters x (.hook kind link) y ∧
    y.run = ⟨.halted h, m⟩ ∧ a.run = ⟨.halted h, m⟩

section

variable {n : Nat} {m m' : Machine}

theorem Activation.HaltsInHook.call {a b : Activation} (e : Enters a .plain b)
    (h : b.HaltsInHook) : a.HaltsInHook := by
  obtain ⟨K, x, kind, link, y, h, m, hp, hK, hy, hhalt, hrun⟩ := h
  refine ⟨_, x, kind, link, y, h, m, Path.here.join e hp, fun c hc => ?_, hy, hhalt,
    halted_of_enters e hrun⟩
  obtain hc | hc := List.mem_append.1 hc
  · exact hK c hc
  · rw [List.mem_singleton.1 hc]

theorem Activation.HaltsInHook.of_enters {a y : Activation} {kind : HookKind} {link : Nat}
    {h : Halt} (e : Enters a (.hook kind link) y) (hy : y.run = ⟨.halted h, m⟩) :
    a.HaltsInHook :=
  ⟨[], a, kind, link, y, h, m, .here, fun _ hc => (List.not_mem_nil hc).elim, e, hy,
    halted_of_enters e hy⟩

/-- An unexpected exception is handled, if its hook does not halt. -/
theorem handled_unexpected (n : Nat) (m : Machine) :
    (∃ cs own t m', Activation.run ⟨n, .unexpected, m⟩ = ⟨.unwound t, m'⟩ ∧
      Handled n .unexpected m cs own t m') ∨ Activation.HaltsInHook ⟨n, .unexpected, m⟩ := by
  obtain ⟨es, t, m', hrun, hends⟩ | ⟨l, y, h, m', e, hy, hrun⟩ := unexpectedEnds_or_halted n m
  · refine .inl ?_
    have hlabel : ∀ {l y}, Enters ⟨n, .unexpected, m⟩ l y →
        l = .hook .onUnexpected m.thread.depth := fun e => by
      obtain ⟨_, _, _, _, hl, _⟩ := enters_unexpected e
      exact hl
    cases hends with
    | reported h => exact ⟨_, _, _, _, hrun, .unexpected h⟩
    | returned e _ h =>
      have hk : HookKind.onUnexpected ≠ .onThrow := nofun
      exact ⟨_, _, _, _, hrun, .returned (hlabel e ▸ e) hk h⟩
    | threw e _ h ht => exact ⟨_, _, _, _, hrun, .removed (hlabel e ▸ e) h ht⟩
    | left e _ h ht => exact ⟨_, _, _, _, hrun, .left (hlabel e ▸ e) h ht⟩
  · obtain ⟨_, _, _, _, rfl, _⟩ := enters_unexpected e
    exact .inr (.of_enters e hy)

/-- An unhandled exception is handled, if no hook halts. -/
theorem handled_unhandled (n : Nat) (m : Machine) :
    (∃ cs own t m', Activation.run ⟨n, .unhandled, m⟩ = ⟨.unwound t, m'⟩ ∧
      Handled n .unhandled m cs own t m') ∨ Activation.HaltsInHook ⟨n, .unhandled, m⟩ := by
  cases hb : m.shared.hooks.onUnhandled with
  | none =>
    refine .inl ⟨_, _, _, _, run_never_unwound ?_, .unhandled (.inl hb)⟩
    rw [run_unhandled, hb]
    rfl
  | some b =>
    cases he : m.thread.current with
    | none =>
      refine .inl ⟨_, _, _, _, run_never_unwound ?_, .unhandled (.inr he)⟩
      rw [run_unhandled, hb, he]
      rfl
    | some e =>
      have hk : HookKind.onUnhandled ≠ .onThrow ∧ HookKind.onUnhandled ≠ .onUnexpected :=
        ⟨nofun, nofun⟩
      have hy := Enters.unhandledHook n hb he
      have hrun : (Effect.unhandled (Job.run n)).run m = _ := run_unhandled_hook hb he
      have hguarded : (guarded (callHook (Job.run n) .onUnhandled b e)).run m = _ :=
        run_guarded_callHook .onUnhandled b e m
      rcases hx : (Job.run n (.block b)).run (m.hookCalled .onUnhandled e) with ⟨_ | t | h, m₁⟩
      · rw [hx] at hguarded
        refine .inl ⟨_, _, _, _, run_never_unwound ?_, .returned hy hk.1 hx⟩
        exact hrun.trans (run_bind_returned hguarded)
      · rw [hx] at hguarded
        by_cases ht : t.escape? = none
        · rw [caught_unwound ht] at hguarded
          refine .inl ⟨_, _, _, _, run_never_unwound ?_, .left hy hx ht⟩
          exact hrun.trans (run_bind_unwound hguarded)
        · rw [caught_escaped ht] at hguarded
          have hnext := Enters.unhandledHookThrew hb he hguarded
          refine (handled_unexpected n _).imp ?_ (.call hnext)
          rintro ⟨cs, own, t', m', hu, hhandled⟩
          exact ⟨_, _, _, _, unwound_of_enters hnext hu trivial rfl,
            .threw hy hk.2 hx ht hhandled⟩
      · exact .inr (.of_enters hy hx)

/-- An exception that is sent on its way is handled, if no hook halts. -/
theorem handled_dispatch {e : Exception} (he : m.thread.current = some e) :
    (∃ cs own t m', Activation.run ⟨n, .dispatch, m⟩ = ⟨.unwound t, m'⟩ ∧
      Handled n .dispatch m cs own t m') ∨ Activation.HaltsInHook ⟨n, .dispatch, m⟩ := by
  have hoffered : ∀ {cs m₁}, Offered n m cs m₁ → m₁.thread.depth = m.thread.depth →
      (noteDispatch m.thread.current >>= fun _ => callThrowHook (Job.run n)).run m =
        ⟨.returned (), m₁⟩ →
      (∃ cs own t m', Activation.run ⟨n, .dispatch, m⟩ = ⟨.unwound t, m'⟩ ∧
        Handled n .dispatch m cs own t m') ∨ Activation.HaltsInHook ⟨n, .dispatch, m⟩ := by
    intro cs m₁ ho hd hrun
    by_cases hpos : 0 < m.thread.depth
    · exact .inl ⟨_, _, _, _, (run_dispatch_returned hrun).trans (if_pos (hd ▸ hpos)),
        .sent ho hpos⟩
    · have hzero := Nat.eq_zero_of_not_pos hpos
      have hnext := Enters.outside hrun (hd.trans hzero)
      refine (handled_unhandled n m₁).imp ?_ (.call hnext)
      rintro ⟨ds, own, t, m', hu, hhandled⟩
      exact ⟨_, _, _, _, unwound_of_enters hnext hu trivial rfl, .outside ho hzero hhandled⟩
  by_cases hq : m.shared.hooks.onThrow = none ∨ m.thread.hookRunning = true
  · have hquiet := @run_noteDispatch_quiet _ _ _ (Job.run n) he hq
    refine hoffered (.quiet hq) ?_ (hquiet.trans ?_)
    · unfold Machine.dispatchNoted
      rw [he]
      rfl
    · unfold Machine.dispatchNoted
      rw [he]
  · rw [not_or, Bool.not_eq_true] at hq
    obtain ⟨hb, hr⟩ := hq
    obtain ⟨b, hb⟩ := Option.ne_none_iff_exists'.1 hb
    have hk : HookKind.onThrow ≠ .onUnexpected := nofun
    have hy := Enters.throwHook n hb hr he
    have hsend := @run_noteDispatch_hook _ (Job.run n) _ _ _ hb hr he
    have hguarded := @run_guarded_runThrowHook _ (Job.run n) b e m
    rcases hx : (Job.run n (.block b)).run (m.throwHookCalled e) with ⟨_ | t | h, m₁⟩
    · rw [hx] at hguarded
      exact hoffered (.returned hy hx) rfl (hsend.trans (run_bind_returned hguarded))
    · rw [hx] at hguarded
      by_cases ht : t.escape? = none
      · have hrun := run_dispatch_hook (n := n) hb hr he
        rw [hx] at hrun
        exact .inl ⟨_, _, _, _, hrun.trans (if_pos ht), .left hy hx ht⟩
      · rw [caught_escaped ht] at hguarded
        have hnext := Enters.throwHookThrew hb hr he hguarded
        refine (handled_unexpected n _).imp ?_ (.call hnext)
        rintro ⟨cs, own, t', m', hu, hhandled⟩
        exact ⟨_, _, _, _, unwound_of_enters hnext hu trivial rfl, .threw hy hk hx ht hhandled⟩
    · exact .inr (.of_enters hy hx)

end

/-! ## What is logged -/

section

variable {n : Nat} {T : Task} {m m₁ m' : Machine} {cs : List HookCall} {own : List LogRecord}
  {t : Transfer}

theorem Offered.logged (h : Offered n m cs m₁) :
    Adds m m₁ ∧ m.logged m₁ = cs.flatMap HookCall.logged := by
  cases h with
  | quiet =>
    unfold Machine.dispatchNoted
    split
    · exact ⟨.note _ _, logged_of_deeds (Machine.deeds_note _ _)⟩
    · exact ⟨.of_journal_eq rfl (Nat.le_refl _) rfl,
        logged_of_deeds (Machine.deeds_of_journal_eq rfl)⟩
  | returned e h =>
    rw [List.flatMap_singleton]
    exact logged_of_hook e (leaves_of_returned h)

theorem logged_abandoned (m : Machine) :
    Adds m m.abandoned ∧ m.logged m.abandoned = [.threadExit exitFailure] :=
  ⟨(Machine.NotesOnly.abandoned m).toGrows.adds,
    logged_of_deeds (deeds_of_noted [.log (.threadExit exitFailure)] rfl)⟩

theorem logged_failedUnexpected (m : Machine) :
    Adds m m.failedUnexpected ∧ m.logged m.failedUnexpected = [.threadExit exitFailure] :=
  ⟨(Machine.NotesOnly.failedUnexpected m).toGrows.adds, logged_of_deeds (deeds_of_noted
    [.log (.threadExit exitFailure), .diagnostic (.unexpected _)] rfl)⟩

theorem logged_hookRemoved (m : Machine) :
    Adds m m.hookRemoved ∧ m.logged m.hookRemoved = [.hookThrew] :=
  ⟨(Machine.NotesOnly.hookRemoved m).toGrows.adds,
    logged_of_deeds (deeds_of_noted [.log .hookThrew] rfl)⟩

/-- What is logged while an exception is handled: what the hooks log, and then the rest. -/
theorem Handled.logged (h : Handled n T m cs own t m') :
    Adds m m' ∧ m.logged m' = cs.flatMap HookCall.logged ++ own := by
  induction h with
  | sent h hd =>
    rw [List.append_nil]
    exact h.logged
  | outside h hd hu ih =>
    obtain ⟨hadds, hlogged⟩ := h.logged
    exact ⟨hadds.trans ih.1, by rw [logged_trans hadds ih.1, hlogged, ih.2, List.flatMap_append,
      List.append_assoc]⟩
  | unhandled h =>
    exact ⟨(Adds.note _ _).trans (logged_abandoned _).1, logged_of_deeds (deeds_of_noted
      [.log (.threadExit exitFailure), .diagnostic (.unhandled _)] rfl)⟩
  | unexpected h => exact logged_failedUnexpected _
  | returned e hk h =>
    obtain ⟨hadds, hlogged⟩ := logged_of_hook e (leaves_of_returned h)
    obtain ⟨hend, hexit⟩ := logged_abandoned _
    exact ⟨hadds.trans hend, by rw [logged_trans hadds hend, hlogged, hexit,
      List.flatMap_singleton]⟩
  | threw e hk h ht hu ih =>
    obtain ⟨hadds, hlogged⟩ := logged_of_hook e (leaves_of_unwound h)
    exact ⟨hadds.trans ih.1, by rw [logged_trans hadds ih.1, hlogged, ih.2, List.flatMap_cons,
      List.append_assoc]⟩
  | removed e h ht =>
    obtain ⟨hadds, hlogged⟩ := logged_of_hook e (leaves_of_unwound h)
    obtain ⟨hremoved, hthrew⟩ := logged_hookRemoved _
    obtain ⟨hend, hexit⟩ := logged_failedUnexpected _
    exact ⟨(hadds.trans hremoved).trans hend, by rw [logged_trans (hadds.trans hremoved) hend,
      logged_trans hadds hremoved, hlogged, hthrew, hexit, List.flatMap_singleton,
      List.append_assoc, List.singleton_append]⟩
  | left e h ht =>
    rw [List.flatMap_singleton, List.append_nil]
    exact logged_of_hook e (leaves_of_unwound h)

/-- Only the end of the thread is logged, and before it that a hook was removed. -/
theorem Handled.logs_end_only (h : Handled n T m cs own t m') :
    own = [] ∨ t = .threadExit exitFailure ∧ m'.thread.current = none ∧
      (own = [.threadExit exitFailure] ∨ own = [.hookThrew, .threadExit exitFailure]) := by
  induction h with
  | sent => exact .inl rfl
  | outside _ _ _ ih => exact ih
  | unhandled => exact .inr ⟨rfl, rfl, .inl rfl⟩
  | unexpected => exact .inr ⟨rfl, rfl, .inl rfl⟩
  | returned => exact .inr ⟨rfl, rfl, .inl rfl⟩
  | threw _ _ _ _ _ ih => exact ih
  | removed => exact .inr ⟨rfl, rfl, .inr rfl⟩
  | left => exact .inl rfl

end

/-- A fault that is trapped is met without a line in the log where its exception goes to a try block
or a hook starts an unwind of its own, but for what the hooks log that are called on the way.  Where
the exception is given up, the end of the thread is logged after that, and the removal of a hook
that threw before it. -/
theorem fault_logs_end_only {n : Nat} {cause : FaultCause} {deferred : Bool} {m : Machine}
    (h : m.reception cause = .trapped deferred) :
    ((∃ cs own t m', Activation.run ⟨n, .stmt (.fault cause), m⟩ = ⟨.unwound t, m'⟩ ∧
        Handled n .dispatch ((m.trapEntered deferred cause.signal).withCurrent
          (some (.of cause.fault.toValue))) cs own t m' ∧
        m.logged m' = cs.flatMap HookCall.logged ++ own ∧
        (own = [] ∨ t = .threadExit exitFailure ∧ m'.thread.current = none ∧
          (own = [.threadExit exitFailure] ∨ own = [.hookThrew, .threadExit exitFailure]))) ∨
      Activation.HaltsInHook ⟨n, .stmt (.fault cause), m⟩) ∧
    (0 < m.thread.depth → m.shared.hooks.onThrow = none ∨ m.thread.hookRunning = true →
      ∃ m', Activation.run ⟨n, .stmt (.fault cause), m⟩ = ⟨.unwound .thrown, m'⟩ ∧
        m.logged m' = []) := by
  have e := Enters.fault n h
  let m₁ := (m.trapEntered deferred cause.signal).withCurrent (some (.of cause.fault.toValue))
  have hstored : Adds m m₁ := .of_journal_eq rfl (Nat.le_refl _) rfl
  have hnothing : m.logged m₁ = [] := logged_of_deeds (Machine.deeds_of_journal_eq rfl)
  refine ⟨(handled_dispatch rfl).imp ?_ (.call e), fun hd hq => ?_⟩
  · rintro ⟨cs, own, t, m', hrun, hhandled⟩
    obtain ⟨hadds, hlogged⟩ := hhandled.logged
    refine ⟨cs, own, t, m', unwound_of_enters e hrun trivial rfl, hhandled, ?_,
      hhandled.logs_end_only⟩
    rw [logged_trans hstored hadds, hnothing, hlogged, List.nil_append]
  · have hpast : SentPastHook n (.of cause.fault.toValue) m₁ := sentPastHook hq rfl
    have hsent := hpast.run.trans (if_pos hd)
    refine ⟨_, unwound_of_enters e hsent trivial rfl, ?_⟩
    rw [logged_trans hstored (.note _ _), hnothing, logged_of_deeds (Machine.deeds_note _ _)]
    rfl

end

namespace Machine

/-- The machine of a thread that has had faults trapped. -/
def trapped : Machine :=
  ((Stmt.perform (Job.run 0) (.trapFaults true)).run initial).machine

/-- The same machine with hooks that throw. -/
def trappedWithHooks : Machine where
  thread := trapped.thread
  shared := { trapped.shared with
    hooks := ⟨none, some [.throw (.bool true)], some [.throw (.bool false)]⟩ }

end Machine

/-- A fault outside every try block, with hooks that throw: they log what they throw, and besides
the removal of the second one and the end of the thread are logged. -/
theorem fault_logs_end_only_throwingHooks :
    Machine.trappedWithHooks.reception (.raised .fpe) = .trapped false ∧
    ∃ cs own m', Activation.run ⟨2, .stmt (.fault (.raised .fpe)), .trappedWithHooks⟩ =
        ⟨.unwound (.threadExit exitFailure), m'⟩ ∧
      Machine.trappedWithHooks.logged m' = List.flatMap HookCall.logged cs ++ own ∧
      Machine.trappedWithHooks.logged m' = [.throwing (Value.bool true).type.tag,
        .throwing (Value.bool false).type.tag, .hookThrew, .threadExit exitFailure] := by
  refine ⟨rfl, ?_⟩
  obtain ⟨⟨cs, own, t, m', hrun, -, hlogged, -⟩ | hhalts, -⟩ :=
    @fault_logs_end_only _ 2 (.raised .fpe) false .trappedWithHooks rfl
  · cases hrun
    exact ⟨cs, own, _, rfl, hlogged, rfl⟩
  · obtain ⟨_, _, _, _, _, _, _, _, _, _, _, hrun⟩ := hhalts
    cases hrun

/-- A fault outside every try block, with no hook set, is logged as the end of its thread. -/
theorem logged_of_unhandledFault :
    Machine.trapped.reception (.raised .fpe) = .trapped false ∧
    Machine.trapped.shared.hooks = .none ∧
    ∃ m', Activation.run ⟨0, .stmt (.fault (.raised .fpe)), .trapped⟩ =
        ⟨.unwound (.threadExit exitFailure), m'⟩ ∧
      Machine.trapped.logged m' = [.threadExit exitFailure] :=
  ⟨rfl, rfl, _, rfl, rfl⟩

end NonlocalExit
