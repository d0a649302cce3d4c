import NonlocalExit.Proofs.Layers
import NonlocalExit.Proofs.Origins
import NonlocalExit.Proofs.Stacks

/-!
# The throw hook

A thread knows by a flag whether its throw hook runs.  `Stack.hookRunning`: at every point of every
run the flag says whether a call of the throw hook is on the call stack, so there is at most one.
What the sending of exceptions and the calls of the hook leave in the journal is a word of
`Heralded`, however often a hook was left by an unwind: `Heralds.oblivious`.

`throwHook_sees_dispatches`: an exception that is sent while no throw hook runs goes through the
hook that is set, once and before anything else is run for it; and no other is given to the hook.
-/

namespace NonlocalExit

open Effect Machine

section

variable [Declarations]

/-! ## What is noted of it -/

/-- What a thread notes of the exceptions that it sends, oldest first: each is handed to the hook
at once or not at all, and only exceptions that are not handed to it are sent while it runs. -/
inductive Heralded : Bool → List Entry → Prop
  | nil {running} : Heralded running []
  | quiet {running e w} (hw : Heralded running w) : Heralded running (.step (.dispatched e) :: w)
  | hooked {e u w} (hu : Heralded true u) (hw : Heralded false w) :
    Heralded false (.step (.dispatched e) :: .event (.hook .onThrow e) ::
      (u ++ .step (.hookEnded .onThrow) :: w))

theorem Heralded.append {running : Bool} {u w : List Entry} (hu : Heralded running u)
    (hw : Heralded running w) : Heralded running (u ++ w) := by
  induction hu with
  | nil => exact hw
  | quiet _ ih => exact .quiet (ih hw)
  | hooked hv _ _ ih =>
    rw [List.cons_append, List.cons_append, List.append_assoc]
    exact .hooked hv (ih hw)

/-- What the current thread has noted of the exceptions that it sent, oldest first. -/
def Machine.heralds (m m' : Machine) : List Entry := ((m.deeds m').filter Entry.isHerald).reverse

section

variable {m m₁ m' : Machine}

theorem heralds_trans (h : Adds m m₁) (h' : Adds m₁ m') :
    m.heralds m' = m.heralds m₁ ++ m₁.heralds m' := by
  unfold heralds
  rw [deeds_trans h h', List.filter_append, List.reverse_append]

theorem heralds_of_journal_eq (h : m'.shared.journal = m.shared.journal) : m.heralds m' = [] := by
  unfold heralds
  rw [deeds_of_journal_eq h]
  rfl

theorem heralds_note (m : Machine) {e : Entry} (he : e.isHerald = true) :
    m.heralds (m.note e) = [e] := by
  unfold heralds
  rw [deeds_note, List.filter_cons_of_pos he]
  rfl

theorem heralds_note_other (m : Machine) {e : Entry} (he : e.isHerald = false) :
    m.heralds (m.note e) = [] := by
  unfold heralds
  rw [deeds_note, List.filter_cons_of_neg (by simp [he])]
  rfl

/-- What is noted when the throw hook is called. -/
theorem deeds_throwHookCalled (e : Exception) (m : Machine) :
    m.deeds (m.throwHookCalled e) = [.event (.hook .onThrow e),
      .step (.protectedFrom m.thread.depth), .step (.dispatched e)] :=
  (deeds_of_journal ([.event (.hook .onThrow e), .step (.protectedFrom m.thread.depth),
    .step (.dispatched e)].map (⟨m.thread.number, ·⟩)) rfl).trans (entriesOf_map _ _)

theorem deeds_throwHookLeft (link : Nat) (m : Machine) :
    m.deeds (m.throwHookLeft link) =
      [.step (.protectedUntil link), .step (.hookEnded .onThrow)] :=
  (deeds_of_journal ([.step (.protectedUntil link), .step (.hookEnded .onThrow)].map
    (⟨m.thread.number, ·⟩)) rfl).trans (entriesOf_map _ _)

theorem heralds_throwHook {e : Exception} {link : Nat} (h : Adds (m.throwHookCalled e) m₁) :
    m.heralds (m₁.throwHookLeft link) = .step (.dispatched e) :: .event (.hook .onThrow e) ::
      ((m.throwHookCalled e).heralds m₁ ++ [.step (.hookEnded .onThrow)]) := by
  have hcalled : m.heralds (m.throwHookCalled e) =
      [.step (.dispatched e), .event (.hook .onThrow e)] := by
    unfold heralds
    rw [deeds_throwHookCalled]
    rfl
  have hleft : m₁.heralds (m₁.throwHookLeft link) = [.step (.hookEnded .onThrow)] := by
    unfold heralds
    rw [deeds_throwHookLeft]
    rfl
  have hentered : Adds m (m.throwHookCalled e) := (Spawns.throwHookCalled e m).toAdds
  rw [heralds_trans (hentered.trans h) (Spawns.throwHookLeft link m₁).toAdds,
    heralds_trans hentered h, hcalled, hleft]
  rfl

end

namespace Machine

/-- Whether the throw hook runs if it ran before, and the exceptions that were sent meanwhile were
handed to it as they should be. -/
structure Heralds (m m' : Machine) : Prop extends Adds m m' where
  hookRunning : m'.thread.hookRunning = m.thread.hookRunning
  word : m.thread.number < m.shared.nextThread → Heralded m.thread.hookRunning (m.heralds m')

namespace Heralds

variable {m m₁ m' : Machine}

theorem of_journal_eq (h : Adds m m') (hr : m'.thread.hookRunning = m.thread.hookRunning)
    (hj : m'.shared.journal = m.shared.journal) : m.Heralds m' := by
  refine ⟨h, hr, fun _ => ?_⟩
  rw [heralds_of_journal_eq hj]
  exact .nil

theorem withThread {t : Thread} (hn : t.number = m.thread.number)
    (hr : t.hookRunning = m.thread.hookRunning) : m.Heralds { m with thread := t } :=
  of_journal_eq (.of_journal_eq hn (Nat.le_refl _) rfl) hr rfl

theorem refl (m : Machine) : m.Heralds m := withThread rfl rfl

theorem trans (h : m.Heralds m₁) (h' : m₁.Heralds m') : m.Heralds m' := by
  refine ⟨h.toAdds.trans h'.toAdds, h'.hookRunning.trans h.hookRunning, fun hn => ?_⟩
  rw [heralds_trans h.toAdds h'.toAdds]
  have hn' : m₁.thread.number < m₁.shared.nextThread :=
    h.number ▸ Nat.lt_of_lt_of_le hn h.nextThread
  exact (h.word hn).append (h.hookRunning ▸ h'.word hn')

instance : Composes Heralds where
  refl := refl
  trans := trans

theorem note {e : Entry} (he : e.isHerald = false) (m : Machine) : m.Heralds (m.note e) := by
  refine ⟨.note e m, rfl, fun _ => ?_⟩
  rw [heralds_note_other m he]
  exact .nil

/-- A thread that waited has not noted anything. -/
theorem ofThread (h : Adds m.threadStarted m') : m.Heralds { m' with thread := m.thread } := by
  refine ⟨h.ofThread, rfl, fun hn => ?_⟩
  unfold heralds
  rw [deeds_ofThread hn h]
  exact .nil

theorem deeper (m : Machine) : m.Heralds m.deeper := by
  have hdepth : m.Heralds { m with thread := { m.thread with depth := m.thread.depth + 1 } } :=
    withThread rfl rfl
  exact hdepth.trans (note rfl _)

theorem unprotected (link : Nat) (m : Machine) : m.Heralds (m.unprotected link) := by
  have hdepth : m.Heralds { m with thread := { m.thread with depth := link } } :=
    withThread rfl rfl
  exact hdepth.trans (note rfl _)

/-- The hook comes back with the flag as it was before its call, by whatever it was left. -/
theorem throwHook {e : Exception} (hr : m.thread.hookRunning = false)
    (h : (m.throwHookCalled e).Heralds m') : m.Heralds (m'.throwHookLeft m.thread.depth) := by
  have hentered : Adds m m' := (Spawns.throwHookCalled e m).toAdds.trans h.toAdds
  refine ⟨hentered.trans (Spawns.throwHookLeft _ _).toAdds, hr.symm, fun hn => ?_⟩
  rw [heralds_throwHook h.toAdds, hr]
  exact .hooked (h.word hn) .nil

theorem oblivious : Oblivious Heralds where
  toComposes := inferInstance
  frames _ _ := withThread rfl rfl
  held _ _ := withThread rfl rfl
  recovering _ _ := withThread rfl rfl
  current _ _ := withThread rfl rfl
  note _ he m := note he m
  shared _ _ hj ht := of_journal_eq (.of_journal_eq rfl ht hj) rfl hj
  thread h := ofThread h.toAdds
  protect h := ((deeper _).trans h).trans (unprotected _ _)
  declared _ := withThread rfl rfl
  blocked _ _ := withThread rfl rfl
  session _ h := ⟨⟨h.number, h.nextThread, h.journal⟩, h.hookRunning, h.word⟩
  dispatched e m := by
    refine ⟨.note _ m, rfl, fun _ => ?_⟩
    rw [heralds_note m rfl]
    exact .quiet .nil
  throwHook hr h := throwHook hr h

end Heralds

end Machine

/-! ## The flag along the calls -/

section

variable {a b : Activation} {l : Label} {K : List (Label × Activation)}

theorem adds_of_enters (e : Enters a l b) : Adds a.machine b.machine := (spawns_of_enters e).toAdds

/-- The number of a thread is taken. -/
theorem Stack.number_lt (h : Stack K a) :
    a.machine.thread.number < a.machine.shared.nextThread := by
  have hkept : ∀ {m m' : Machine}, Adds m m' → m.thread.number < m.shared.nextThread →
      m'.thread.number < m'.shared.nextThread := fun h hn =>
    h.number ▸ Nat.lt_of_lt_of_le hn h.nextThread
  have hstart : ∀ {a : Activation}, a.IsStart →
      a.machine.thread.number < a.machine.shared.nextThread := by
    rintro _ (⟨hm, hn⟩ | ⟨hm, hn⟩)
    · exact congrArg Thread.number hm ▸ hn
    · exact congrArg Thread.number hm ▸ hn
  induction h with
  | start h => exact hstart h
  | ended h hl hm hs =>
    have hleft := hkept (Spawns.oblivious.obeys_run hl).toAdds (hstart h)
    refine hkept (hs.keeps Spawns.oblivious).toAdds ?_
    obtain rfl | ⟨r, rfl⟩ := hm
    · exact hleft
    · exact hleft
  | exiting h hs ih => exact hkept (hs.keeps Spawns.oblivious).toAdds ih
  | call h e ih => exact hkept (adds_of_enters e) ih

/-- The flag is set by the call of the throw hook, which is made only where it is not set. -/
theorem hookRunning_of_enters (e : Enters a l b) :
    b.machine.thread.hookRunning.toNat =
      a.machine.thread.hookRunning.toNat + if l.isThrowHook then 1 else 0 := by
  have h := Heralds.oblivious.leads e
  generalize b.machine = m at h
  cases h with
  | same hl h =>
    have ht : l.isThrowHook = false := by cases l <;> first | rfl | cases hl
    rw [ht, h.hookRunning]
    rfl
  | deeper hl ht h h' =>
    rw [ht, h'.hookRunning]
    exact congrArg Bool.toNat h.hookRunning
  | throwHook hr h =>
    rw [h, hr]
    rfl

theorem Activation.IsStart.hookRunning (h : a.IsStart) : a.machine.thread.hookRunning = false := by
  cases h with
  | body hm => exact congrArg Thread.hookRunning hm
  | session hm => exact congrArg Thread.hookRunning hm

/-- The flag counts the calls of the throw hook on the call stack. -/
theorem Stack.hookRunning (h : Stack K a) :
    K.countP (·.1.isThrowHook) = a.machine.thread.hookRunning.toNat := by
  have P := Heralds.oblivious
  induction h with
  | start h => exact (congrArg Bool.toNat h.hookRunning).symm
  | ended h hl hm hs =>
    have hend := (P.obeys_run hl).hookRunning.trans h.hookRunning
    have hteardown := (hs.keeps P).hookRunning
    obtain rfl | ⟨r, rfl⟩ := hm
    · exact (congrArg Bool.toNat (hteardown.trans hend)).symm
    · exact (congrArg Bool.toNat (hteardown.trans hend)).symm
  | exiting h hs ih =>
    rw [List.countP_cons_of_neg Bool.false_ne_true, ih]
    exact congrArg Bool.toNat (hs.keeps P).hookRunning.symm
  | call h e ih => rw [List.countP_cons, ih, hookRunning_of_enters e]

end

/-! ## Sending an exception -/

/-- Which exception a statement sends: the one that is thrown, the one that a fault is translated
to, or any that a try block has not consumed. -/
def Stmt.Sends (e : Exception) : Stmt → Prop
  | .throw v => e = .of v
  | .fault cause => e = .of cause.fault.toValue
  | .attempt .. => True
  | _ => False

/-- What becomes of an exception after the throw hook, by how the hook was left. -/
def Outcome.afterThrowHook (n link : Nat) : Outcome Unit → Outcome Unit
  | ⟨.returned _, m⟩ =>
    if 0 < link then ⟨.unwound .thrown, m.throwHookLeft link⟩
    else Activation.run ⟨n, .unhandled, m.throwHookLeft link⟩
  | ⟨.unwound t, m⟩ =>
    if t.escape? = none then ⟨.unwound t, m.throwHookLeft link⟩
    else Activation.run ⟨n, .unexpected, m.throwHookLeft link⟩
  | ⟨.halted h, m⟩ => ⟨.halted h, m⟩

/-- How an exception is sent through a throw hook: nothing is run for it before the hook, the hook
is called once, and all else comes after the hook was left. -/
structure SentThroughHook (n : Nat) (b : Block) (e : Exception) (m : Machine) : Prop where
  called : Enters ⟨n, .dispatch, m⟩ (.hook .onThrow m.thread.depth)
    ⟨n, .job (.block b), m.throwHookCalled e⟩
  first : m.deeds (m.throwHookCalled e) = [.event (.hook .onThrow e),
    .step (.protectedFrom m.thread.depth), .step (.dispatched e)]
  once : ∀ l c, Enters ⟨n, .dispatch, m⟩ l c → l.isThrowHook = true →
    l = .hook .onThrow m.thread.depth ∧ c = ⟨n, .job (.block b), m.throwHookCalled e⟩
  after : ∀ l c, Enters ⟨n, .dispatch, m⟩ l c → l.isThrowHook = false →
    ∃ o m₁, ((Job.run n (.block b)).run (m.throwHookCalled e)).Leaves o m₁ ∧
      c.machine = m₁.throwHookLeft m.thread.depth
  run : Activation.run ⟨n, .dispatch, m⟩ =
    ((Job.run n (.block b)).run (m.throwHookCalled e)).afterThrowHook n m.thread.depth
  noted : ∀ o m', (Activation.run ⟨n, .dispatch, m⟩).Leaves o m' → ∃ u w,
    m.heralds m' = .step (.dispatched e) :: .event (.hook .onThrow e) ::
      (u ++ .step (.hookEnded .onThrow) :: w) ∧ Heralded true u ∧ Heralded false w

/-- How an exception is sent past the throw hook. -/
structure SentPastHook (n : Nat) (e : Exception) (m : Machine) : Prop where
  uncalled : ∀ l c, Enters ⟨n, .dispatch, m⟩ l c → l.isThrowHook = false
  run : Activation.run ⟨n, .dispatch, m⟩ =
    if 0 < m.thread.depth then ⟨.unwound .thrown, m.note (.step (.dispatched e))⟩
    else Activation.run ⟨n, .unhandled, m.note (.step (.dispatched e))⟩

section

variable {n : Nat} {b : Block} {e : Exception} {m : Machine}

/-- What is left to do for an exception once the throw hook has returned, or was not called. -/
theorem run_dispatch_returned {m₁ : Machine}
    (h : (noteDispatch m.thread.current >>= fun _ => callThrowHook (Job.run n)).run m =
      ⟨.returned (), m₁⟩) :
    Activation.run ⟨n, .dispatch, m⟩ =
      if 0 < m₁.thread.depth then ⟨.unwound .thrown, m₁⟩
      else Activation.run ⟨n, .unhandled, m₁⟩ := by
  have hrun : (Effect.dispatch (Job.run n)).run m =
      (if m₁.thread.depth > 0 then Effect.unwind .thrown
        else Effect.unhandled (Job.run n) : Effect Empty).run m₁ := by
    rw [run_dispatch, run_bind_returned h]
    rfl
  refine Eq.trans (run_bind_congr hrun) ?_
  split
  · rfl
  · rfl

theorem run_dispatch_hook (hb : m.shared.hooks.onThrow = some b)
    (hr : m.thread.hookRunning = false) (he : m.thread.current = some e) :
    Activation.run ⟨n, .dispatch, m⟩ =
      ((Job.run n (.block b)).run (m.throwHookCalled e)).afterThrowHook n m.thread.depth := by
  have hsend := @run_noteDispatch_hook _ (Job.run n) _ _ _ hb hr he
  have hguard := @run_guarded_runThrowHook _ (Job.run n) b e m
  rcases hx : (Job.run n (.block b)).run (m.throwHookCalled e) with ⟨_ | t | h, m₁⟩
  · rw [hx] at hguard
    exact run_dispatch_returned (hsend.trans (run_bind_returned hguard))
  · rw [hx] at hguard
    by_cases ht : t.escape? = none
    · rw [caught_unwound ht] at hguard
      have hdispatch : (Effect.dispatch (Job.run n)).run m =
          ⟨.unwound t, m₁.throwHookLeft m.thread.depth⟩ := by
        rw [run_dispatch, run_bind_unwound (hsend.trans (run_bind_unwound hguard))]
      exact (run_never_unwound hdispatch).trans (if_pos ht).symm
    · rw [caught_escaped ht] at hguard
      have hunexpected : _ = (never (unexpected (Job.run n)) : Effect Unit).run _ :=
        hsend.trans (run_bind_returned hguard)
      have hdispatch := ((run_dispatch m).trans (run_bind_congr hunexpected)).trans
        (run_bind_never _ _ _)
      exact (run_bind_congr hdispatch).trans ((run_bind_never _ _ _).trans (if_neg ht).symm)
  · rw [hx] at hguard
    have hdispatch : (Effect.dispatch (Job.run n)).run m = ⟨.halted h, m₁⟩ := by
      rw [run_dispatch, run_bind_halted (hsend.trans (run_bind_halted hguard))]
    exact run_bind_halted hdispatch

theorem leaves_of_afterThrowHook {x : Outcome Unit} {link : Nat} {o : Option Transfer}
    {m' : Machine} (h : (x.afterThrowHook n link).Leaves o m') :
    ∃ o₁ m₁, x.Leaves o₁ m₁ ∧ (m₁.throwHookLeft link).Heralds m' := by
  have P := Heralds.oblivious
  obtain ⟨_ | t | _, m₁⟩ := x
  · refine ⟨none, m₁, .returned _ _, ?_⟩
    simp only [Outcome.afterThrowHook] at h
    split at h
    · cases h
      exact .refl _
    · exact P.obeys_run h
  · refine ⟨some t, m₁, .unwound _ _, ?_⟩
    simp only [Outcome.afterThrowHook] at h
    split at h
    · cases h
      exact .refl _
    · exact P.obeys_run h
  · cases h

/-- What a dispatch calls after the throw hook, it calls on the machine that the hook has left. -/
theorem machine_after_throwHook {l : Label} {c : Activation} (hb : m.shared.hooks.onThrow = some b)
    (hr : m.thread.hookRunning = false) (he : m.thread.current = some e)
    (h : Enters ⟨n, .dispatch, m⟩ l c) (hl : l.isThrowHook = false) :
    ∃ o m₁, ((Job.run n (.block b)).run (m.throwHookCalled e)).Leaves o m₁ ∧
      c.machine = m₁.throwHookLeft m.thread.depth := by
  cases h with
  | throwHook => cases hl
  | throwHookThrew hb' _ he' h =>
    obtain rfl := Option.some.inj (hb'.symm.trans hb)
    obtain rfl := Option.some.inj (he'.symm.trans he)
    rw [run_guarded_runThrowHook] at h
    rcases hx : (Job.run n (.block _)).run (m.throwHookCalled _) with ⟨_ | t | _, m₁⟩
    · rw [hx] at h
      cases h
    · rw [hx] at h
      by_cases ht : t.escape? = none
      · rw [caught_unwound ht] at h
        cases h
      · rw [caught_escaped ht] at h
        cases h
        exact ⟨_, _, .unwound _ _, rfl⟩
    · rw [hx] at h
      cases h
  | outside h hd =>
    cases sendOff_of_leaves (leaves_of_returned h) with
    | idle hidle => exact (hidle ⟨b, e, hb, hr, he⟩).elim
    | called hb' _ he' hblock _ =>
      obtain rfl := Option.some.inj (hb'.symm.trans hb)
      obtain rfl := Option.some.inj (he'.symm.trans he)
      exact ⟨_, _, hblock, rfl⟩
    | threw _ _ _ _ _ hu =>
      obtain ⟨a, _⟩ := returned_of_leaves hu
      exact nomatch a

theorem sentThroughHook (hn : m.thread.number < m.shared.nextThread)
    (hb : m.shared.hooks.onThrow = some b) (hr : m.thread.hookRunning = false)
    (he : m.thread.current = some e) : SentThroughHook n b e m where
  called := .throwHook n hb hr he
  first := deeds_throwHookCalled e m
  once l c h hl := by
    cases h with
    | throwHook _ hb' _ he' =>
      obtain rfl := Option.some.inj (hb'.symm.trans hb)
      obtain rfl := Option.some.inj (he'.symm.trans he)
      exact ⟨rfl, rfl⟩
    | throwHookThrew => cases hl
    | outside => cases hl
  after l c h hl := machine_after_throwHook hb hr he h hl
  run := run_dispatch_hook hb hr he
  noted o m' h := by
    rw [run_dispatch_hook hb hr he] at h
    obtain ⟨o₁, m₁, hblock, hrest⟩ := leaves_of_afterThrowHook h
    have hinside : (m.throwHookCalled e).Heralds m₁ := Heralds.oblivious.obeys n _ _ _ _ hblock
    have hcall := Heralds.throwHook hr hinside
    have hn' := hcall.number ▸ Nat.lt_of_lt_of_le hn hcall.nextThread
    refine ⟨_, _, ?_, hinside.word hn, hcall.hookRunning.trans hr ▸ hrest.word hn'⟩
    rw [heralds_trans hcall.toAdds hrest.toAdds, heralds_throwHook hinside.toAdds]
    simp

theorem sentPastHook (hq : m.shared.hooks.onThrow = none ∨ m.thread.hookRunning = true)
    (he : m.thread.current = some e) : SentPastHook n e m where
  uncalled l c h := by
    cases h with
    | throwHook _ hb hr _ =>
      obtain hq | hq := hq
      · cases hq.symm.trans hb
      · cases hq.symm.trans hr
    | throwHookThrew => rfl
    | outside => rfl
  run := run_dispatch_returned (run_noteDispatch_quiet he hq)

end

/-- An exception is sent by a statement, with the exception in the record. -/
theorem Stack.of_dispatch {K : List (Label × Activation)} {n : Nat} {m : Machine}
    (h : Stack K ⟨n, .dispatch, m⟩) : ∃ x K₀ s e, K = (.plain, x) :: K₀ ∧ x.task = .stmt s ∧
      s.Sends e ∧ m.thread.current = some e := by
  cases h with
  | start h => cases h
  | call h e =>
    cases e with
    | throw => exact ⟨_, _, _, _, rfl, rfl, rfl, rfl⟩
    | fault => exact ⟨_, _, _, _, rfl, rfl, rfl, rfl⟩
    | again => exact ⟨_, _, _, _, rfl, rfl, trivial, rfl⟩

/-! ## Rethrowing -/

/-- Whether a piece gives an exception up, or may do so. -/
def Task.GivesUp : Task → Prop
  | .stmt .rethrow | .unhandled | .unexpected => True
  | _ => False

/-- On its way to give up, a rethrow calls the hooks for that and nothing else. -/
theorem givesUp_of_enters {a b : Activation} {l : Label} (e : Enters a l b) (h : a.task.GivesUp) :
    l.isThrowHook = false ∧ (b.task.GivesUp ∨ ∃ kind link, l = .hook kind link) := by
  cases e with
  | rethrowNone => exact ⟨rfl, .inl trivial⟩
  | rethrowOutside => exact ⟨rfl, .inl trivial⟩
  | unhandledHook => exact ⟨rfl, .inr ⟨_, _, rfl⟩⟩
  | unhandledHookThrew => exact ⟨rfl, .inl trivial⟩
  | unexpectedHook => exact ⟨rfl, .inr ⟨_, _, rfl⟩⟩
  | _ => exact h.elim

theorem givesUp_of_path {a b : Activation} {K : List (Label × Activation)} (h : Path a K b)
    (ha : a.task.GivesUp) :
    b.task.GivesUp ∨ ∃ kind link x, kind ≠ .onThrow ∧ (.hook kind link, x) ∈ K := by
  induction h with
  | here => exact .inl ha
  | call h e ih =>
    obtain ih | ⟨kind, link, x, hk, hx⟩ := ih
    · obtain ⟨ht, hb | ⟨kind, link, rfl⟩⟩ := givesUp_of_enters e ih
      · exact .inl hb
      · refine .inr ⟨kind, link, _, ?_, List.mem_cons_self⟩
        rintro rfl
        cases ht
    · exact .inr ⟨kind, link, x, hk, List.mem_cons_of_mem _ hx⟩

/-! ## All exceptions -/

/-- There is a call of the throw hook on the call stack exactly while the flag is set, and never a
second one.  An exception that is sent while there is none goes through the hook that is set; any
other is sent past it, and nothing but the sending of an exception calls the hook.  Whatever is run
and however it is left, the flag is as before and what was noted meanwhile is as it should be.  A
rethrow only starts an unwind, or it gives the exception up, and then the throw hook is called
inside another hook at most. -/
theorem throwHook_sees_dispatches :
    (∀ K a, Stack K a →
      K.countP (·.1.isThrowHook) = a.machine.thread.hookRunning.toNat) ∧
    (∀ K n m, Stack K ⟨n, .dispatch, m⟩ → ∃ x K₀ s e, K = (.plain, x) :: K₀ ∧
      x.task = .stmt s ∧ s.Sends e ∧ m.thread.current = some e ∧
      ((∀ c ∈ K, c.1.isThrowHook = false) → ∀ b, m.shared.hooks.onThrow = some b →
        SentThroughHook n b e m) ∧
      ((∃ c ∈ K, c.1.isThrowHook = true) ∨ m.shared.hooks.onThrow = none → SentPastHook n e m)) ∧
    (∀ a l b, Enters a l b → l.isThrowHook = true → a.task = .dispatch) ∧
    (∀ (a : Activation) o m, a.run.Leaves o m → a.machine.Heralds m) ∧
    (∀ n (m : Machine), m.thread.current ≠ none → 0 < m.thread.depth →
      Activation.run ⟨n, .stmt .rethrow, m⟩ = ⟨.unwound .rethrown, m⟩) ∧
    (∀ n m K a l b, Path ⟨n, .stmt .rethrow, m⟩ K a → Enters a l b → l.isThrowHook = true →
      ∃ kind link x, kind ≠ .onThrow ∧ (.hook kind link, x) ∈ K) := by
  refine ⟨fun _ _ => Stack.hookRunning, ?_, ?_, fun _ _ _ => Heralds.oblivious.obeys_run, ?_, ?_⟩
  · intro K n m hstack
    obtain ⟨x, K₀, s, e, hK, hx, hs, he⟩ := hstack.of_dispatch
    have hflag : K.countP (·.1.isThrowHook) = m.thread.hookRunning.toNat := hstack.hookRunning
    refine ⟨x, K₀, s, e, hK, hx, hs, he, fun hno b hb => ?_, fun hq => ?_⟩
    · refine sentThroughHook hstack.number_lt hb ?_ he
      rw [List.countP_eq_zero.2 (by simpa using hno)] at hflag
      exact Bool.toNat_eq_zero.1 hflag.symm
    · refine sentPastHook (hq.symm.imp_right fun ⟨c, hc, ht⟩ => ?_) he
      have hpos : 0 < K.countP (·.1.isThrowHook) := List.countP_pos_iff.2 ⟨c, hc, ht⟩
      refine Bool.of_not_eq_false fun hr => ?_
      rw [hflag, hr] at hpos
      exact absurd hpos (Nat.lt_irrefl 0)
  · intro a l b e hl
    cases e with
    | throwHook => rfl
    | blockLeft | dropNext | scopeLeft => cases ‹Option Transfer› <;> cases hl
    | _ => cases hl
  · intro n m hcur hd
    obtain ⟨e, he⟩ := Option.ne_none_iff_exists'.1 hcur
    exact (Raises.rethrown n he hd).run
  · intro n m K a l b hpath e hl
    refine (givesUp_of_path hpath trivial).resolve_left fun ha => ?_
    cases (givesUp_of_enters e ha).1.symm.trans hl

end

/-- A throw hook that throws and catches, sets another hook in its place and is left by an
unwind. -/
def leavingHook : Block :=
  [.attempt [.throw (.bool true)] [(.any, [])], .setHook .onThrow (some []), .foreign "left"]

/-- Two exceptions, the first of which is thrown when the hook is the one above. -/
def throwingTwice : Block :=
  [.setHook .onThrow (some leavingHook), .intercept [.throw (.bool false)], .throw (.bool false)]

theorem throwHook_sees_second_dispatch :
    (∃ K n m, Stack K ⟨n, .dispatch, m⟩ ∧ (∃ c ∈ K, c.1.isThrowHook = true) ∧
      SentPastHook n (.of (.bool true)) m) ∧
    (∃ K n m, Stack K ⟨n, .dispatch, m⟩ ∧ SentThroughHook n [] (.of (.bool false)) m) ∧
    ∃ o m, (Activation.run ⟨12, .job (.block throwingTwice), .initial⟩).Leaves o m ∧
      Machine.initial.heralds m = [.step (.dispatched (.of (.bool false))),
        .event (.hook .onThrow (.of (.bool false))), .step (.dispatched (.of (.bool true))),
        .step (.hookEnded .onThrow), .step (.dispatched (.of (.bool false))),
        .event (.hook .onThrow (.of (.bool false))), .step (.hookEnded .onThrow)] ∧
      Heralded false (Machine.initial.heralds m) := by
  obtain ⟨-, hdispatch, -, hleft, -⟩ := throwHook_sees_dispatches
  have hblock := (Stack.start (a := ⟨12, .job (.block throwingTwice), .initial⟩)
    (.body rfl (by decide))).call (.block _ _ _)
  have hset := hblock.call (.next rfl)
  have hfirst := ((((hset.call (.first _ _ _ _)).call (.intercept _ _ _)).call
    (.block _ _ _)).call (.first _ _ _ _)).call (.throw _ _ _)
  have hinside := ((((((hfirst.call (.throwHook _ rfl rfl rfl)).call (.block _ _ _)).call
    (.first _ _ _ _)).call (.attempt _ _ _ _)).call (.block _ _ _)).call
    (.first _ _ _ _)).call (.throw _ _ _)
  have hafter := ((hset.call (.next rfl)).call (.first _ _ _ _)).call (.throw _ _ _)
  have hrun : (Activation.run ⟨12, .job (.block throwingTwice), .initial⟩).Leaves _ _ :=
    .unwound _ _
  refine ⟨⟨_, _, _, hinside, ?_, ?_⟩, ⟨_, _, _, hafter, ?_⟩, _, _, hrun, rfl, ?_⟩
  · simp [Label.isThrowHook]
  · obtain ⟨_, _, _, e, _, _, _, he, _, hpast⟩ := hdispatch _ _ _ hinside
    cases he
    exact hpast (.inl (by simp [Label.isThrowHook]))
  · obtain ⟨_, _, _, e, _, _, _, he, hthrough, _⟩ := hdispatch _ _ _ hafter
    cases he
    exact hthrough (by simp [Label.isThrowHook]) _ rfl
  · exact (hleft _ _ _ hrun).word (by decide)

end NonlocalExit
