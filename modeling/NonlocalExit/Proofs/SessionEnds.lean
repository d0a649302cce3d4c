import NonlocalExit.Proofs.Arrival
import NonlocalExit.Proofs.Scopes

/-!
# What a session leaves behind

A session ends by closing the frames that were opened since its start.  `session_closes_frames`:
however the body was left, when the cleanups that are run there return, no such frame is open any
more, all that was registered in them was run, and the thread is declared initialised if and only if
it was before.
-/

namespace NonlocalExit

open Effect Machine

/-- Only a session stops the end of a thread, and what stops or starts unwinds of its own. -/
theorem Label.passes_threadExit {l : Label} {status : Int32} (hforeign : l ≠ .foreign)
    (hunwinding : l ≠ .unwinding) (hsession : ∀ base owner, l ≠ .session base owner) :
    l.Passes (.threadExit status) := by
  cases l with
  | foreign => exact (hforeign rfl).elim
  | unwinding => exact (hunwinding rfl).elim
  | session base owner => exact (hsession base owner rfl).elim
  | recover r previous outer => exact nofun
  | plain | block | leaving | dropping | scope => trivial
  | attempt | clause | hook => rfl

section

variable [Declarations]

/-- What holds when a session that was entered on a machine has been left. -/
structure Machine.SessionLeft (m m' : Machine) : Prop where
  /-- No frame is open that was opened since. -/
  closed : ∀ id ∈ m'.openIds, id ∈ m.openIds
  /-- Each cleanup that was registered in such a frame was started once. -/
  once : ∀ id, m.thread.frames.nextId ≤ id → ∀ s ∈ registeredIn id (stepsIn (m.deeds m')),
    (startedIn (stepsIn (m.deeds m'))).count s = 1
  initialised : m'.thread.initialised = m.thread.initialised

section

variable {n : Nat} {value : Int32} {body : Block} {o : Option Transfer} {m m₁ m₂ : Machine}

/-- After closing down to the frame that was innermost, no frame is open that was opened since. -/
theorem openIds_of_closeAbove (ho : m.Orderly) (h : Tidy m m₁)
    (hc : (Job.run n (.closeAbove m.innermostId)).run m₁ = ⟨.returned (), m₂⟩) :
    ∀ id ∈ m₂.openIds, id ∈ m.openIds := by
  have htidy : Tidy m m₂ := h.trans (Tidy.primitives.obeys _ _ _ _ _ (leaves_of_returned hc))
  have hbase := le_base_of_innermost (htidy.orderly ho)
    (innermost_of_closeAbove (leaves_of_returned hc) rfl)
  intro id hid
  refine (htidy.novel id hid).resolve_right fun hnew => ?_
  obtain ⟨b, hb, hle⟩ := (Option.any_eq_true _ _).1 (hbase id hid)
  obtain ⟨f, hf, rfl⟩ := List.mem_map.1 (mem_openIds_of_innermostId hb)
  have hfresh := ho.frames.fresh f hf
  have hle := of_decide_eq_true hle
  omega

/-- A session gives up the initialisation of the thread if it has declared it. -/
theorem initialised_of_session
    (hb : ((Job.run n (.block body)).run m.sessionEntered).Leaves o m₁)
    (hc : (Job.run n (.closeAbove m.innermostId)).run m₁ = ⟨.returned (), m₂⟩) :
    (m₂.sessionClosed (!m.thread.initialised)).thread.initialised = m.thread.initialised := by
  cases hi : m.thread.initialised with
  | false => rfl
  | true =>
    have P := Machine.StaysInitialised.oblivious
    have hclosed := P.trans (P.obeys n _ _ _ _ hb) (P.obeys n _ _ _ _ (leaves_of_returned hc))
    exact hclosed (P.sessionEntered m rfl)

theorem sessionLeft_of_closed {K : List (Label × Activation)}
    (hstack : Stack K ⟨n, .session value body, m⟩) (ht : m.thread.torn = false)
    (hb : ((Job.run n (.block body)).run m.sessionEntered).Leaves o m₁)
    (hc : (Job.run n (.closeAbove m.innermostId)).run m₁ = ⟨.returned (), m₂⟩) :
    m.SessionLeft (m₂.sessionClosed (!m.thread.initialised)) := by
  obtain ⟨base, hacc : m.Accounted base _⟩ := hstack.accounted ht
  have hrun : ∀ {r : Machine → Machine → Prop}, AllPrimitives r →
      r m m₁ ∧ r m (m₂.sessionClosed (!m.thread.initialised)) := fun P => by
    have hentered := P.trans (P.toPrimitives.sessionEntered ht) (P.obeys _ _ _ _ _ hb)
    have hclosed := P.trans hentered (P.obeys _ _ _ _ _ (leaves_of_returned hc))
    refine ⟨hentered, P.trans hclosed (P.aside ?_)⟩
    cases m.thread.initialised
    · exact .ofThread rfl rfl rfl rfl rfl
    · exact .refl _
  have hkeeps := (hrun KeepsAccount.primitives).2
  have hids : (m₂.sessionClosed (!m.thread.initialised)).openIds = m₂.openIds := by
    cases m.thread.initialised <;> rfl
  have hclosed := openIds_of_closeAbove hacc.orderly (hrun Tidy.primitives).1 hc
  refine ⟨hids ▸ hclosed, fun id hid => ?_, initialised_of_session hb hc⟩
  refine count_started_of_closed hacc (hkeeps.2 _ _ hacc) hkeeps.1 ht fun hopen => ?_
  obtain ⟨f, hf, rfl⟩ := List.mem_map.1 (hclosed id (hids ▸ hopen))
  have hfresh := hacc.orderly.frames.fresh f hf
  omega

end

/-- A session is refused on torn storage.  Otherwise, however its body was left, it ends as its body
has, apart from the end of the thread, when the cleanups return that are started at its end.  It has
closed the frames that were opened since its start, whatever marks they carry, each time the
innermost one: so they are closed from the innermost to the outermost, apart from frames that these
cleanups open and leave open. -/
theorem session_closes_frames {K : List (Label × Activation)} {n : Nat} {value : Int32}
    {body : Block} {m : Machine} (hstack : Stack K ⟨n, .session value body, m⟩) :
    (m.thread.torn = true → (runBody (Job.run n) (threadBody (Job.run n) value body)).run m =
      ⟨.unwound storageGone, m⟩) ∧
    (m.thread.torn = false → ∀ o m₁,
      ((Job.run n (.block body)).run m.sessionEntered).Leaves o m₁ →
      (∀ d, StartsCleanup ⟨n, .job (.closeAbove m.innermostId), m₁⟩ d → d.Returns) →
      Activation.RunsOut ⟨n, .session value body, m⟩ ∨ ∃ m₂ gone,
        (runBody (Job.run n) (threadBody (Job.run n) value body)).run m =
          ⟨sessionEnding value o, m₂.sessionClosed (!m.thread.initialised)⟩ ∧
        m.SessionLeft (m₂.sessionClosed (!m.thread.initialised)) ∧
        Activation.ClosesFrames ⟨n, .job (.closeAbove m.innermostId), m₁⟩ (fun _ => id)
          (m₁.openIds.filter fun i => ¬m.innermostId.any (i ≤ ·)) gone m₂) := by
  refine ⟨fun ht => ?_, fun ht o m₁ hb hcleanups => ?_⟩
  · rw [run_runBody, ht]
    rfl
  have hentered : Tidy m m.sessionEntered := Tidy.primitives.toPrimitives.sessionEntered ht
  have hbody : Tidy m m₁ := hentered.trans (Tidy.primitives.obeys _ _ _ _ _ hb)
  refine (closing_returns ⟨n, .job (.closeAbove _), m₁⟩ trivial nofun (hbody.torn.trans ht)
    hcleanups).imp (runsOut_of_enters (.sessionLeft ht hb)) ?_
  rintro ⟨m₂, hclose⟩
  obtain ⟨base, hacc : m.Accounted base _⟩ := hstack.accounted ht
  obtain ⟨gone, hgone⟩ := closesFrames_of_closeAbove (hbody.orderly hacc.orderly) hclose
  exact ⟨m₂, gone, run_session_left ht hb hclose, sessionLeft_of_closed hstack ht hb hclose, hgone⟩

/-- With which status a session has ended, and the thread whose session it is. -/
structure EndsWith (n : Nat) (value : Int32) (body : Block) (m : Machine) (status : Int32)
    (m' : Machine) : Prop where
  session : (runBody (Job.run n) (threadBody (Job.run n) value body)).run m = ⟨.returned status, m'⟩
  thread : ∀ (m₀ : Machine) (name : Option String) (stackSize : Option Nat),
    m = m₀.threadStarted → name.bind zeroInName? = none →
    ¬stackSize.any (stackSizeLimit ≤ ·) → ∃ m₁,
      (spawn (Job.run n) value name stackSize body).run m₀ = ⟨.returned (.finished status name), m₁⟩

/-- The session of a thread leaves no frame to the teardown. -/
theorem endsWith_of_session {n : Nat} {value status : Int32} {body : Block} {m m' : Machine}
    (h : (runBody (Job.run n) (threadBody (Job.run n) value body)).run m = ⟨.returned status, m'⟩) :
    EndsWith n value body m status m' := by
  refine ⟨h, fun m₀ name stackSize hm hname hsize => ?_⟩
  subst hm
  have hids := ids_after_session (Orderly.threadStarted m₀) h
  have hnone : m'.thread.frames.frames = [] := by
    cases hf : m'.thread.frames.frames with
    | nil => rfl
    | cons f fs => exact (List.not_mem_nil (hids f.id (by simp [hf]))).elim
  have hteardown : (teardown (Job.run n)).run m' = ⟨.returned (), m'.tornDown⟩ := by
    have hrun : (teardown (Job.run n)).run m' =
        (closeTorn (Job.run n) m'.thread.frames.frames.reverse).run m'.tornDown := rfl
    rw [hrun, hnone]
    rfl
  have hthread : (inThread (Job.run n) (runBody (Job.run n)
      (threadBody (Job.run n) value body))).run m₀ = _ :=
    (run_inThread (Job.run n) m₀ _).trans (run_bind_returned (run_catchUnwind_returned h))
  rw [run_bind_returned hteardown] at hthread
  unfold spawn
  rw [hname]
  simp only [hsize, Bool.false_eq_true, ↓reduceIte]
  exact ⟨_, run_bind_returned hthread⟩

end

/-- The machine on which the session of the body is started. -/
def beforeLeakingCleanup : Machine := Machine.initial.threadStarted

/-- The machine at the end of the body. -/
def afterLeakingCleanup : Machine :=
  ((Job.run 6 (.block leakingCleanup)).run beforeLeakingCleanup.sessionEntered).machine

theorem returns_overLeakingCleanup (d : Activation)
    (h : StartsCleanup ⟨6, .job (.closeAbove none), afterLeakingCleanup⟩ d) : d.Returns := by
  obtain h | ⟨m, hc, h⟩ := h.of_closeAbove rfl
  · obtain rfl | ⟨m, hc, h⟩ := h.of_close rfl rfl
    · exact ⟨_, rfl⟩
    cases hc
    obtain rfl | ⟨m, hc, h⟩ := h.of_close rfl rfl
    · exact ⟨_, rfl⟩
    cases hc
    exact (StartsCleanup.not_close rfl rfl h).elim
  · -- The frame that the newer cleanup has opened is the only one that is left.
    cases hc
    obtain h | ⟨m, hc, h⟩ := h.of_closeAbove rfl
    · obtain rfl | ⟨m, hc, h⟩ := h.of_close rfl rfl
      · exact ⟨_, rfl⟩
      cases hc
      exact (StartsCleanup.not_close rfl rfl h).elim
    · cases hc
      exact (StartsCleanup.not_closeAbove_nil rfl h).elim

theorem session_closes_frames_overLeakingCleanup :
    ∃ m₂ gone m', (runBody (Job.run 6) (threadBody (Job.run 6) 0 leakingCleanup)).run
        beforeLeakingCleanup = ⟨.returned 0, m'⟩ ∧ beforeLeakingCleanup.SessionLeft m' ∧
      Activation.ClosesFrames ⟨6, .job (.closeAbove none), afterLeakingCleanup⟩
        (fun _ => id) [0] gone m₂ := by
  have hstack : Stack [] ⟨6, .session 0 leakingCleanup, beforeLeakingCleanup⟩ :=
    .start (.session rfl (by decide : 1 < 2))
  rcases (session_closes_frames hstack).2 rfl none afterLeakingCleanup (.returned _ _)
    returns_overLeakingCleanup with ⟨m, h⟩ | ⟨m₂, gone, hrun, hleft, hgone⟩
  · cases h
  · exact ⟨m₂, gone, _, hrun, hleft, hgone⟩

/-- The frame that a cleanup opens inside another one and leaves open is closed after that one. -/
theorem outer_closed_first_overLeakingCleanup :
    afterLeakingCleanup.openIds = [0] ∧
      (∀ d, StartsCleanup ⟨6, .job (.closeAbove none), afterLeakingCleanup⟩ d → d.Returns) ∧
      ∃ m', (runBody (Job.run 6) (threadBody (Job.run 6) 0 leakingCleanup)).run
          beforeLeakingCleanup = ⟨.returned 0, m'⟩ ∧
        (closedAmong [0, 1] (afterLeakingCleanup.deeds m')).reverse = [0, 1] ∧
        (startedIn (stepsIn (afterLeakingCleanup.deeds m'))).reverse = [1, 0, 2] :=
  ⟨rfl, returns_overLeakingCleanup, _, rfl, rfl, rfl⟩

end NonlocalExit
