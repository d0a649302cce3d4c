import NonlocalExit.Proofs.Scopes

/-!
# The status of a thread

`spawn_finishes`: a thread of the library on which no foreign unwind starts gives the one who waits
for it the value of its body, or the status with which it was given up: that of a call of `exit`,
the code of a panic that was not recovered, or the failure after an exception that was not handled.
This needs that the end of the thread does not leave a cleanup that is started at the end of the
session, where it is no longer stopped.
-/

namespace NonlocalExit

open Effect Machine

section

variable [Declarations]

/-! ## Foreign unwinds -/

/-- Whether a foreign unwind starts at a piece: it leaves the piece, and nothing that the piece
calls. -/
structure Activation.StartsForeign (a : Activation) : Prop where
  left : ∃ message m, a.run = ⟨.unwound (.foreign message), m⟩
  own : ∀ l b, Enters a l b → ∀ message m, b.run ≠ ⟨.unwound (.foreign message), m⟩

/-- Whether no foreign unwind starts in the course of a piece. -/
def Activation.SparesForeign (a : Activation) : Prop := ∀ K b, Path a K b → ¬b.StartsForeign

namespace Activation.SparesForeign

variable {a b : Activation} {l : Label}

theorem of_enters (ha : ¬a.StartsForeign) (h : ∀ l b, Enters a l b → b.SparesForeign) :
    a.SparesForeign := by
  intro K b hpath
  rcases hpath.first with rfl | ⟨l, c, K', e, h'⟩
  · exact ha
  · exact h l c e K' b h'

theorem of_run {r : Ending Unit} {m : Machine} (hrun : a.run = ⟨r, m⟩)
    (hr : ∀ message, r ≠ .unwound (.foreign message))
    (h : ∀ l b, Enters a l b → b.SparesForeign) : a.SparesForeign := by
  refine .of_enters ?_ h
  rintro ⟨⟨message, m', hleft⟩, -⟩
  rw [hrun] at hleft
  exact hr message (congrArg Outcome.ending hleft)

theorem enters (h : a.SparesForeign) (e : Enters a l b) : b.SparesForeign := by
  intro K c hpath
  exact h _ c (Path.here.join e hpath)

/-- A foreign unwind that leaves a piece starts in its course. -/
theorem not_foreign (h : a.SparesForeign) (message : Option String) (m : Machine) :
    a.run ≠ ⟨.unwound (.foreign message), m⟩ := by
  induction a using Activation.induction generalizing message m with
  | h a ih =>
    intro hrun
    refine h [] a .here ⟨⟨message, m, hrun⟩, fun l b e => ?_⟩
    exact ih l b e (h.enters e)

end Activation.SparesForeign

/-! ## Statuses -/

/-- The status with which a piece gives up its thread. -/
def Task.exitStatus? : Task → Option Int32
  | .stmt (.exit status) => some status
  | .stmt (.panic (some code)) => some code.value
  | .unhandled | .unexpected => some exitFailure
  | _ => none

theorem exitStatus_of_raises {b : Activation} {status : Int32} {m : Machine}
    (h : Raises b (.threadExit status) m) : b.task.exitStatus? = some status := by
  cases h <;> rfl

/-- With which status the body of a thread ends: with its value when it returns, or with that of the
piece in its course at which the thread is given up. -/
inductive BodyEnds (n : Nat) (value : Int32) (body : Block) (m : Machine) : Int32 → Prop
  | returned {m₁} (h : (Job.run n (.block body)).run m.sessionEntered = ⟨.returned (), m₁⟩) :
    BodyEnds n value body m value
  | exited {b status m₁} (h : Origin (.threadExit status) b
      ⟨n, .job (.block body), m.sessionEntered⟩ m₁) (hs : b.task.exitStatus? = some status) :
    BodyEnds n value body m status

theorem bodyEnds_of_session {n : Nat} {value status : Int32} {body : Block} {m m' : Machine}
    (h : (runBody (Job.run n) (threadBody (Job.run n) value body)).run m =
      ⟨.returned status, m'⟩) : BodyEnds n value body m status := by
  obtain ⟨-, m₁, ⟨hb, rfl⟩ | hb, -⟩ := returned_runBody_session h
  · exact .returned hb
  · obtain ⟨b, ho⟩ := exists_origin (a := ⟨n, .job (.block body), m.sessionEntered⟩) hb
      (by rintro ⟨_, ⟨⟩⟩)
    obtain ⟨_, _, -, -, hr⟩ := ho.path
    exact .exited ho (exitStatus_of_raises hr)

/-! ## The end of a thread -/

/-- The session of a thread is not left by an unwind, unless a foreign unwind starts there or the
end of the thread leaves a cleanup that is started at the end of the session. -/
theorem session_returns {n number : Nat} {blocked : List FaultSignal} {value : Int32}
    {body : Block} {m m' : Machine} {t : Transfer} (hm : m.thread = .new number blocked)
    (hn : number < m.shared.nextThread)
    (hforeign : Activation.SparesForeign ⟨n, .session value body, m⟩)
    (hcleanups : ∀ o m₁, ((Job.run n (.block body)).run m.sessionEntered).Leaves o m₁ →
      ∀ d, StartsCleanup ⟨n, .job (.closeAbove m.innermostId), m₁⟩ d →
      ∀ status m₂, d.run ≠ ⟨.unwound (.threadExit status), m₂⟩) :
    (runBody (Job.run n) (threadBody (Job.run n) value body)).run m ≠ ⟨.unwound t, m'⟩ := by
  intro h
  have hrun : Activation.run ⟨n, .session value body, m⟩ = ⟨.unwound t, m'⟩ := run_bind_unwound h
  have hstart : Activation.IsStart ⟨n, .session value body, m⟩ := .session hm hn
  cases t with
  | foreign message => exact hforeign.not_foreign message m' hrun
  | threadExit status =>
    -- The body is not left by it any more, so it comes from the closing of the frames.
    obtain he | ⟨ht, ⟨_, _, hne, _⟩ | ⟨o, m₁, hb, hc⟩⟩ := unwound_runBody_session h
    · cases he
    · exact hne status rfl
    · have e : Enters ⟨n, .session value body, m⟩ .plain ⟨n, .job (.closeAbove _), m₁⟩ :=
        .sessionLeft ht hb
      have ht₁ : m₁.thread.torn = false := (tidy_of_enters e).torn.trans ht
      obtain ⟨d, hd, m₂, hrun⟩ := cleanup_of_closeAbove_unwound ht₁ hc
      exact hcleanups o m₁ hb d hd status m₂ hrun
  | _ => exact hstart.not_isPrivate hrun trivial

/-- A thread of the library, with a name and a stack that it can have, ends with its status, unless
the process ends before; provided that no foreign unwind starts on it and that the end of the thread
leaves no cleanup that is started at the end of its session. -/
theorem spawn_finishes {n : Nat} {value : Int32} {name : Option String} {stackSize : Option Nat}
    {body : Block} {m : Machine} (hname : name.bind zeroInName? = none)
    (hsize : ¬stackSize.any (stackSizeLimit ≤ ·))
    (hforeign : Activation.SparesForeign ⟨n, .session value body, m.threadStarted⟩)
    (hcleanups : ∀ o m₁,
      ((Job.run n (.block body)).run m.threadStarted.sessionEntered).Leaves o m₁ →
      ∀ d, StartsCleanup ⟨n, .job (.closeAbove none), m₁⟩ d →
      ∀ status m₂, d.run ≠ ⟨.unwound (.threadExit status), m₂⟩) :
    (∃ h m', (spawn (Job.run n) value name stackSize body).run m = ⟨.halted h, m'⟩) ∨
      ∃ status m', (spawn (Job.run n) value name stackSize body).run m =
          ⟨.returned (.finished status name), m'⟩ ∧
        BodyEnds n value body m.threadStarted status := by
  unfold spawn
  rw [hname]
  simp only [hsize, Bool.false_eq_true, ↓reduceIte]
  rcases hrun : (inThread (Job.run n) (runBody (Job.run n) (threadBody (Job.run n) value body))).run
    m with ⟨r | t | h, m'⟩
  · obtain ⟨m₁, _, hb, -⟩ := (inThread_eq_returned _).1 hrun
    obtain ⟨status, hs, rfl⟩ | ⟨t, hu, rfl⟩ := run_catchUnwind_eq_returned.1 hb
    · exact .inr ⟨status, m', run_bind_returned hrun, bodyEnds_of_session hs⟩
    · exact (session_returns rfl (Nat.lt_succ_self _) hforeign hcleanups hu).elim
  · cases leaves_inThread _ (leaves_of_unwound hrun)
  · exact .inl ⟨h, m', run_bind_halted hrun⟩

/-- The end of the thread that leaves the end of the session is not taken for it: the one who waits
is told of a panic. -/
theorem spawn_panics {n : Nat} {value status : Int32} {name : Option String}
    {stackSize : Option Nat} {body : Block} {m m₁ m₂ : Machine} {o : Option Transfer}
    (hname : name.bind zeroInName? = none) (hsize : ¬stackSize.any (stackSizeLimit ≤ ·))
    (hb : ((Job.run n (.block body)).run m.threadStarted.sessionEntered).Leaves o m₁)
    (hc : (Job.run n (.closeAbove none)).run m₁ = ⟨.unwound (.threadExit status), m₂⟩) :
    (∃ h m', (spawn (Job.run n) value name stackSize body).run m = ⟨.halted h, m'⟩) ∨
      ∃ m', (spawn (Job.run n) value name stackSize body).run m =
        ⟨.returned (.failed (.threadPanicked "Box<dyn Any>")), m'⟩ := by
  obtain ⟨r, hr⟩ : ∃ r, (catchUnwind (threadBody (Job.run n) value body)).run
      m.threadStarted.sessionEntered = ⟨.returned r, m₁⟩ := by
    cases o with
    | none =>
      obtain ⟨_, hb⟩ := returned_of_leaves hb
      exact ⟨_, run_catchUnwind_returned ((run_bind_returned hb).trans rfl)⟩
    | some t => exact ⟨_, run_catchUnwind_unwound (run_bind_unwound (unwound_of_leaves hb))⟩
  have hsession : (runBody (Job.run n) (threadBody (Job.run n) value body)).run m.threadStarted =
      ⟨.unwound (.threadExit status), m₂⟩ := by
    rw [run_runBody]
    exact (run_bind_returned hr).trans (run_bind_unwound hc)
  have hthread : (inThread (Job.run n) (runBody (Job.run n)
      (threadBody (Job.run n) value body))).run m = _ :=
    (run_inThread (Job.run n) m _).trans (run_bind_returned (run_catchUnwind_unwound hsession))
  unfold spawn
  rw [hname]
  simp only [hsize, Bool.false_eq_true, ↓reduceIte]
  rcases ht : (teardown (Job.run n)).run m₂ with ⟨_ | t | h, m'⟩
  · rw [run_bind_returned ht] at hthread
    exact .inr ⟨_, run_bind_returned hthread⟩
  · cases (leaves_teardown _ (leaves_of_unwound ht)).1
  · rw [run_bind_halted ht] at hthread
    exact .inl ⟨h, m', run_bind_halted hthread⟩

end

/-- A body that gives up its thread and leaves a cleanup. -/
def exitingBody (cleanup : Block) : Block := [.defer cleanup, .exit 7]

/-- The machine at the end of the body. -/
def atEndOfExitingBody (cleanup : Block) : Machine :=
  ((Job.run 3 (.block (exitingBody cleanup))).run
    Machine.initial.threadStarted.sessionEntered).machine

theorem sparesForeign_exitingBody {cleanup : Block} {r : Ending Unit} {m : Machine}
    (hrun : Activation.run ⟨3, .session 0 (exitingBody cleanup), Machine.initial.threadStarted⟩ =
      ⟨r, m⟩) (hr : ∀ message, r ≠ .unwound (.foreign message))
    (hclose : Activation.SparesForeign
      ⟨3, .job (.closeAbove none), atEndOfExitingBody cleanup⟩) :
    Activation.SparesForeign
      ⟨3, .session 0 (exitingBody cleanup), Machine.initial.threadStarted⟩ := by
  refine .of_run hrun hr fun l b e => ?_
  cases e with
  | sessionLeft ht h => cases h; exact hclose
  | session =>
    refine .of_run rfl nofun fun l b e => ?_
    cases e with
    | block =>
      refine .of_run rfl nofun fun l b e => ?_
      cases e with
      | first =>
        refine .of_run rfl nofun fun l b e => ?_
        cases e with
        | deferLate _ _ ht => cases ht
      | next h =>
        cases h
        refine .of_run rfl nofun fun l b e => ?_
        cases e with
        | first => exact .of_run rfl nofun fun l b e => by cases e
        | next h => cases h
    | blockLeft h =>
      cases h
      exact .of_run rfl nofun fun l b e => by cases e

theorem sparesForeign_emitting :
    Activation.SparesForeign
      ⟨3, .job (.closeAbove none), atEndOfExitingBody [.emit "cleanup"]⟩ := by
  refine .of_run rfl nofun fun l b e => ?_
  cases e with
  | closeInner n ht hf =>
    cases hf
    refine .of_run rfl nofun fun l b e => ?_
    cases e with
    | cleanup n ht hf hp =>
      cases hf
      cases hp
      refine .of_run rfl nofun fun l b e => ?_
      cases e with
      | block =>
        refine .of_run rfl nofun fun l b e => ?_
        cases e with
        | first => exact .of_run rfl nofun fun l b e => by cases e
        | next h => cases h; exact .of_run rfl nofun fun l b e => by cases e
      | blockLeft h => cases h; exact .of_run rfl nofun fun l b e => by cases e
    | closeNext ht hf hp h =>
      cases hf
      cases hp
      cases h
      refine .of_run rfl nofun fun l b e => ?_
      cases e with
      | cleanup n ht hf hp => cases hf; cases hp
      | closeNext ht hf hp => cases hf; cases hp
  | closeAboveNext ht hf hb h =>
    cases hf
    cases h
    refine .of_run rfl nofun fun l b e => ?_
    cases e with
    | closeInner n ht hf => cases hf
    | closeAboveNext ht hf => cases hf

theorem returned_emitting (d : Activation)
    (h : StartsCleanup ⟨3, .job (.closeAbove none), atEndOfExitingBody [.emit "cleanup"]⟩ d) :
    ∃ m, d.run = ⟨.returned (), m⟩ := by
  cases h with
  | later h hb hc =>
    cases h with
    | closeInner n ht hf hb =>
      cases hf
      rcases hc.of_close rfl rfl with rfl | ⟨m₁, h, hc⟩
      · exact ⟨_, rfl⟩
      · cases h
        exact (StartsCleanup.not_close rfl rfl hc).elim
    | closeAboveNext ht hf hb h =>
      cases hf
      cases h
      cases hc with
      | later h hb hc =>
        cases h with
        | closeInner n ht hf => cases hf
        | closeAboveNext ht hf => cases hf

theorem spawn_finishes_exitingBody :
    (some "worker").bind zeroInName? = none ∧
    ∃ m', (spawn (Job.run 3) 0 (some "worker") none (exitingBody [.emit "cleanup"])).run .initial =
        ⟨.returned (.finished 7 (some "worker")), m'⟩ ∧
      BodyEnds 3 0 (exitingBody [.emit "cleanup"]) Machine.initial.threadStarted 7 := by
  have hname : (some "worker").bind zeroInName? = none := by decide +kernel
  have hforeign : Activation.SparesForeign
      ⟨3, .session 0 (exitingBody [.emit "cleanup"]), Machine.initial.threadStarted⟩ := by
    refine sparesForeign_exitingBody rfl ?_ sparesForeign_emitting
    nofun
  have hcleanups : ∀ o m₁, ((Job.run 3 (.block (exitingBody [.emit "cleanup"]))).run
      Machine.initial.threadStarted.sessionEntered).Leaves o m₁ →
      ∀ d, StartsCleanup ⟨3, .job (.closeAbove none), m₁⟩ d →
      ∀ status m₂, d.run ≠ ⟨.unwound (.threadExit status), m₂⟩ := by
    intro o m₁ h d hd status m₂
    cases h
    obtain ⟨m, hrun⟩ := returned_emitting d hd
    simp [hrun]
  have hend : ((spawn (Job.run 3) 0 (some "worker") none (exitingBody [.emit "cleanup"])).run
      .initial).ending = .returned (.finished 7 (some "worker")) := by decide +kernel
  have hsize : ¬(none : Option Nat).any (stackSizeLimit ≤ ·) := by decide
  rcases spawn_finishes hname hsize hforeign hcleanups with
    ⟨h, m', hrun⟩ | ⟨status, m', hrun, hends⟩
  · simp [hrun] at hend
  · obtain rfl : status = 7 := by simpa [hrun] using hend
    exact ⟨hname, m', hrun, hends⟩

theorem sparesForeign_exiting :
    Activation.SparesForeign ⟨3, .job (.closeAbove none), atEndOfExitingBody [.exit 3]⟩ := by
  refine .of_run rfl nofun fun l b e => ?_
  cases e with
  | closeAboveNext ht hf hb h => cases hf; cases h
  | closeInner n ht hf =>
    cases hf
    refine .of_run rfl nofun fun l b e => ?_
    cases e with
    | closeNext ht hf hp h => cases hf; cases hp; cases h
    | cleanup n ht hf hp =>
      cases hf
      cases hp
      refine .of_run rfl nofun fun l b e => ?_
      cases e with
      | block =>
        refine .of_run rfl nofun fun l b e => ?_
        cases e with
        | first => exact .of_run rfl nofun fun l b e => by cases e
        | next h => cases h
      | blockLeft h => cases h; exact .of_run rfl nofun fun l b e => by cases e

/-- No foreign unwind starts on the thread, and a panic is reported. -/
theorem panicked_of_exitingBody :
    Activation.SparesForeign
        ⟨3, .session 0 (exitingBody [.exit 3]), Machine.initial.threadStarted⟩ ∧
      ∃ m', (spawn (Job.run 3) 0 none none (exitingBody [.exit 3])).run .initial =
        ⟨.returned (.failed (.threadPanicked "Box<dyn Any>")), m'⟩ := by
  refine ⟨sparesForeign_exitingBody rfl ?_ sparesForeign_exiting, _, rfl⟩
  nofun

end NonlocalExit
