import NonlocalExit.Proofs.PanicEnds
import NonlocalExit.Proofs.SessionEnds

/-!
# A panic that ends a thread

A panic for which no call of `recover` has its frame open closes all frames that are open, and only
then reports itself and ends the thread.  `panic_ends_session`: every cleanup that waits in one of
the frames, or is registered on the way, is run once, from the unwind on nothing is run, and the
session ends with the error code as its status.
-/

namespace NonlocalExit

open Effect Machine

section

variable [Declarations]

/-! ## Nothing is run -/

/-- Whether an entry is written while nothing of the program is run. -/
def Entry.IsSilent : Entry → Prop
  | .event _ | .diagnostic _ | .step (.started _) => False
  | _ => True

theorem Label.findsClosed_of_none {l : Label} {m : Machine} (h : m.openIds = []) :
    l.FindsClosed m := by
  cases l <;> simp [Label.FindsClosed, h]

section

variable {k : Nat} {m m' : Machine}

/-- Guards whose frames are closed are dropped without a cleanup. -/
theorem silently_of_dropGuards {count : Nat} (ht : m.thread.torn = false) (hnone : m.openIds = [])
    (h : (dropGuards (Job.run (k + 1)) count).run m = ⟨.returned (), m'⟩) :
    m.NotesOnly Entry.IsSilent m' := by
  induction count generalizing m with
  | zero =>
    cases h
    exact .refl _
  | succ count ih =>
    rw [run_dropGuards_succ] at h
    split at h
    · rename_i g own outer hh
      obtain ⟨m₁, hl, hr⟩ := returned_onExit h
      have hclosed : g.frame ∉ (m.withHeld (own :: outer)).openIds := by
        rw [show (m.withHeld (own :: outer)).openIds = [] from hnone]
        exact List.not_mem_nil
      rw [leaveFrame_absent (m := m.withHeld (own :: outer)) ht hclosed] at hl
      cases hl
      have hdropped : m.NotesOnly Entry.IsSilent ((m.withHeld (own :: outer)).leaving g.frame) :=
        (NotesOnly.withHeld _ m).trans (.note (e := .log (.leftFrame g.frame)) trivial _)
      exact hdropped.trans (ih ht hnone hr)
    · cases h
      exact .refl _

/-- Where no frame is open nothing is run on exit. -/
theorem silently_of_exit {l : Label} (ht : m.thread.torn = false) (hnone : m.openIds = [])
    (hs : ∀ base owner, l ≠ .session base owner)
    (h : (l.exit (Job.run (k + 1))).run m = ⟨.returned (), m'⟩) :
    m.NotesOnly Entry.IsSilent m' := by
  cases l with
  | plain | foreign | unwinding =>
    cases h
    exact .refl _
  | leaving =>
    cases h
    exact .withHeld _ m
  | attempt link | clause link =>
    cases h
    exact .unprotected trivial m
  | block =>
    obtain ⟨m₁, hd, hp⟩ := returned_onExit ((run_leaveBlock _ _).symm.trans h)
    cases hp
    exact (silently_of_dropGuards ht hnone hd).trans (.withHeld _ m₁)
  | dropping count => exact silently_of_dropGuards ht hnone h
  | scope id =>
    rw [show (Label.scope id).exit (Job.run (k + 1)) = leaveFrame (Job.run (k + 1)) id from rfl,
      leaveFrame_absent ht (by rw [hnone]; exact List.not_mem_nil)] at h
    cases h
    exact .note trivial m
  | recover r previous outer =>
    rw [show (Label.recover r previous outer).exit (Job.run (k + 1)) =
      endRecovery r.frame previous outer from rfl, run_endRecovery, ht] at h
    cases h
    exact .of_journal_eq ((Steady.withMark _ _ m).trans (.withRecovering _ _)).toGrows rfl
  | session base owner => exact (hs base owner rfl).elim
  | hook kind link =>
    cases kind with
    | onThrow =>
      cases h
      exact .throwHookLeft trivial trivial m
    | onUnhandled | onUnexpected =>
      cases h
      exact (NotesOnly.note (e := .step (.hookEnded _)) trivial m).trans (.unprotected trivial _)

end

/-- An unwind that finds no frame open leaves one call after the other, and nothing is run. -/
theorem unwound_silently {a b : Activation} {K : List (Label × Activation)} {t : Transfer}
    {m : Machine} (h : Path a K b) (hk : 0 < b.fuel) (hb : b.run = ⟨.unwound t, m⟩)
    (ht : m.thread.torn = false) (hnone : m.thread.frames.frames = [])
    (hK : ∀ c ∈ K, c.1.Passes t ∧ ∀ base owner, c.1 ≠ .session base owner) :
    ∃ m', a.run = ⟨.unwound t, m'⟩ ∧ m.SameFrames m' ∧ m.NotesOnly Entry.IsSilent m' := by
  induction h generalizing m with
  | here => exact ⟨m, hb, ⟨rfl, rfl⟩, .refl m⟩
  | call h e ih =>
    obtain ⟨hp, hs⟩ := hK _ List.mem_cons_self
    obtain ⟨k, hc⟩ := Nat.exists_eq_add_one.2 hk
    have hids : m.openIds = [] := by simp [openIds, hnone]
    obtain ⟨m₁, hexit, hsame⟩ := exit_closed (k := k) ht (Label.findsClosed_of_none hids)
    have hx := unwound_of_enters e hb hp (hc ▸ hexit)
    have hfuel := fuel_of_enters e
    obtain ⟨m', hrun, hsame', hsilent⟩ := ih (by omega) hx (hsame.torn.trans ht)
      (hsame.frames.trans hnone) fun c hmem => hK c (List.mem_cons_of_mem _ hmem)
    exact ⟨m', hrun, hsame.trans hsame', (silently_of_exit ht hids hs hexit).trans hsilent⟩

/-! ## The walk that meets no mark -/

/-- Where no recovery has its frame open none gets it open by what is run. -/
theorem Machine.Marking.aim_none {m m' : Machine} (hk : Marking m m') (hm : m.Marked)
    (h : m.aim? = none) : m'.aim? = none := by
  refine List.find?_eq_none.2 fun r hr => ?_
  rw [hk.recovering] at hr
  have hclosed := List.find?_eq_none.1 h r hr
  simp only [decide_eq_true_eq] at hclosed ⊢
  intro hopen
  obtain hopen | hnew := hk.novel _ hopen
  · exact hclosed hopen
  · exact Nat.lt_irrefl _ (Nat.lt_of_lt_of_le (hm.known r hr).1 hnew)

/-- When all cleanups return and no recovery has its frame open, the walk of a panic returns. -/
theorem walk_returns {n : Nat} {code : ErrorCode} {m : Machine} (hm : m.Marked)
    (haim : m.aim? = none) (ht : m.thread.torn = false)
    (hd : ∀ d, StartsCleanup ⟨n, .job (.walk code), m⟩ d → d.Returns) :
    Activation.RunsOut ⟨n, .job (.walk code), m⟩ ∨
      ∃ m', (Job.run n (.walk code)).run m = ⟨.returned (), m'⟩ := by
  rcases walk_ends ht hd with hout | ⟨m', hret, -⟩ | ⟨m', f, fs, token, hrun, hf, hmark⟩
  · exact .inl hout
  · exact .inr ⟨m', hret⟩
  · have hk : Marking m m' := Marking.primitives.obeys_run (a := ⟨n, .job (.walk code), m⟩)
      (leaves_of_unwound hrun)
    obtain ⟨r, hr, -⟩ := (hk.marked hm).aim_of_head hf hmark
    cases hr.symm.trans (hk.aim_none hm haim)

/-- Whether, since then, all frames were closed, and each cleanup that waited in one of them or was
registered in one was started once. -/
structure Machine.Cleaned (m m' : Machine) : Prop where
  closed : m'.openIds = []
  pending : ∀ f ∈ m.thread.frames.frames, ∀ c ∈ f.pending,
    (startedIn (stepsIn (m.deeds m'))).count c.serial = 1
  registered : ∀ id, ∀ s ∈ registeredIn id (stepsIn (m.deeds m')),
    (startedIn (stepsIn (m.deeds m'))).count s = 1

theorem cleaned_of_walk {n : Nat} {code : ErrorCode} {base : List JournalLine} {m m' : Machine}
    (hacc : m.Accounted base fun _ => []) (ht : m.thread.torn = false)
    (h : (Job.run n (.walk code)).run m = ⟨.returned (), m'⟩) : m.Cleaned m' := by
  have hkeeps : KeepsAccount m m' := KeepsAccount.primitives.obeys _ _ _ _ _ (leaves_of_returned h)
  have hacc' := hkeeps.2 _ _ hacc
  have hclosed : ∀ id, id ∉ m'.openIds := by
    rw [(closesFrames_of_walk hacc.orderly ht h).1]
    exact fun _ => List.not_mem_nil
  exact ⟨(closesFrames_of_walk hacc.orderly ht h).1,
    fun f hf => count_started_of_pending hacc hacc' hkeeps.1 ht hf (hclosed _),
    fun id => count_started_of_closed hacc hacc' hkeeps.1 ht (hclosed id)⟩

/-! ## The end of the thread -/

/-- A panic in the body of a session, when no recovery has its frame open and the cleanups return
that it starts, closes all open frames, each time the innermost one: so from the innermost to the
outermost, apart from frames that the cleanups open and leave open.  Every cleanup in them is run
once.  Then the panic is reported and unwinds; from there on nothing of the program is run until the
session has ended with the error code as its status. -/
theorem panic_ends_session {K₀ K : List (Label × Activation)} {k n : Nat} {value : Int32}
    {body : Block} {code : ErrorCode} {m₀ m : Machine}
    (hstack : Stack K₀ ⟨k, .session value body, m₀⟩) (ht : m₀.thread.torn = false)
    (hpath : Path ⟨k, .job (.block body), m₀.sessionEntered⟩ K
      ⟨n, .stmt (.panic (some code)), m⟩)
    (hK : ∀ c ∈ K, c.1 ≠ .foreign ∧ c.1 ≠ .unwinding ∧ ∀ base owner, c.1 ≠ .session base owner)
    (haim : m.aim? = none)
    (hcleanups : ∀ d, StartsCleanup ⟨n, .job (.walk code), m.note (.log (.panicking code))⟩ d →
      d.Returns) :
    Activation.RunsOut ⟨k, .session value body, m₀⟩ ∨ ∃ m₁ gone m₂,
      (Job.run n (.walk code)).run (m.note (.log (.panicking code))) = ⟨.returned (), m₁⟩ ∧
      Activation.ClosesFrames ⟨n, .job (.walk code), m.note (.log (.panicking code))⟩ passing
        m.openIds gone m₁ ∧
      (m.note (.log (.panicking code))).Cleaned m₁ ∧
      Activation.run ⟨n, .stmt (.panic (some code)), m⟩ =
        ⟨.unwound (.threadExit code.value), m₁.panicked code⟩ ∧
      (m₁.panicked code).NotesOnly Entry.IsSilent m₂ ∧ EndsWith k value body m₀ code.value m₂ := by
  have hbody : Enters ⟨k, .session value body, m₀⟩ _ _ := .session k value body ht
  have hstack' : Stack _ ⟨n, .stmt (.panic (some code)), m⟩ := (hstack.call hbody).append hpath
  have htorn : m.thread.torn = false := ((tidy_of_enters hbody).trans hpath.tidy).torn.trans ht
  have henter := Enters.panic n code m
  have hmarked : (m.note (.log (.panicking code))).Marked := (hstack'.marked htorn).note _
  rcases walk_returns hmarked haim htorn hcleanups with hout | ⟨m₁, hwalk⟩
  · exact .inl (runsOut_of_enters hbody (hpath.runsOut_of_runsOut (runsOut_of_enters henter hout)))
  obtain ⟨base, hacc : m.Accounted base _⟩ := hstack'.accounted htorn
  have hacc₁ := hacc.note (e := .log (.panicking code)) (by simp [Entry.IsQuiet, Entry.step?])
  obtain ⟨hnone, gone, hgone⟩ := closesFrames_of_walk hacc₁.orderly htorn hwalk
  have hraised := (Raises.panicked hwalk).run
  have hk : 0 < n := by
    cases n with
    | zero => cases hwalk
    | succ n => exact Nat.succ_pos n
  have ht₁ : m₁.thread.torn = false :=
    (steady_of_leaves (leaves_of_returned hwalk)).torn.trans htorn
  have hframes : m₁.thread.frames.frames = [] := List.map_eq_nil_iff.1 hnone
  obtain ⟨m₂, hrun, hsame, hsilent⟩ := unwound_silently hpath hk hraised ht₁ hframes fun c hc => by
    obtain ⟨hforeign, hunwinding, hsession⟩ := hK c hc
    exact ⟨Label.passes_threadExit hforeign hunwinding hsession, hsession⟩
  have hclose : (Job.run k (.closeAbove m₀.innermostId)).run m₂ = ⟨.returned (), m₂⟩ := by
    cases k with
    | zero => cases hrun
    | succ k =>
      refine closeAbove_absent (hsame.torn.trans ht₁) fun id hid => ?_
      simp [openIds, hsame.frames, Machine.panicked, Machine.note, hframes] at hid
  have hended : (runBody (Job.run k) (threadBody (Job.run k) value body)).run m₀ =
      ⟨.returned code.value, m₂.sessionClosed (!m₀.thread.initialised)⟩ :=
    run_session_left ht (leaves_of_unwound hrun) hclose
  refine .inr ⟨m₁, gone, _, hwalk, hgone, cleaned_of_walk hacc₁ htorn hwalk, hraised,
    hsilent.trans ?_, endsWith_of_session hended⟩
  cases m₀.thread.initialised
  · exact .of_aside (.ofThread rfl rfl rfl rfl rfl) rfl
  · exact .refl _

end

/-- A body that panics in a try block with clauses of both kinds, over two cleanups. -/
def panickingOverCleanup : Block :=
  [.attempt (leakingCleanup ++ [.panic (some .einval)])
    [(.any, [.emit "caught"]), (.completion, [.emit "completed"])]]

/-- The machine in the try block. -/
def inTryOverCleanup : Machine :=
  let session := beforeLeakingCleanup.sessionEntered
  let tried := (session.withHeld ([] :: session.thread.held)).tryEntered
    [(.any, [.emit "caught"]), (.completion, [.emit "completed"])]
  tried.withHeld ([] :: tried.thread.held)

/-- The machine at the panic, after the cleanups were registered. -/
def atPanicOverCleanup : Machine :=
  ((Stmt.performAll (Job.run 6) leakingCleanup).run inTryOverCleanup).machine

theorem path_panickingOverCleanup :
    ∃ K, Path ⟨8, .job (.block panickingOverCleanup), beforeLeakingCleanup.sessionEntered⟩ K
        ⟨6, .stmt (.panic (some .einval)), atPanicOverCleanup⟩ ∧
      ∀ c ∈ K, c.1 ≠ .foreign ∧ c.1 ≠ .unwinding ∧ ∀ base owner, c.1 ≠ .session base owner := by
  let registered := ((Stmt.perform (Job.run 6) (.defer [.emit "older"])).run
    inTryOverCleanup).machine
  refine ⟨_, (((((Path.here.call (.block _ _ _)).call (.first _ _ _ _)).call
    (.attempt _ _ _ _)).call (.block _ _ _)).call (@Enters.next _ _ _ _ _ registered rfl)).call
    (@Enters.next _ _ _ _ _ atPanicOverCleanup rfl) |>.call (.first _ _ _ _), ?_⟩
  simp

theorem returns_panickingOverCleanup (d : Activation)
    (h : StartsCleanup ⟨6, .job (.walk .einval),
      atPanicOverCleanup.note (.log (.panicking .einval))⟩ d) : d.Returns := by
  obtain h | ⟨m, hc, h⟩ := h.of_walk rfl
  · obtain rfl | ⟨m, hc, h⟩ := h.of_close rfl rfl
    · exact ⟨_, rfl⟩
    cases hc
    obtain rfl | ⟨m, hc, h⟩ := h.of_close rfl rfl
    · exact ⟨_, rfl⟩
    cases hc
    exact (StartsCleanup.not_close rfl rfl h).elim
  · -- The frame that the newer cleanup has opened is the only one that is left.
    cases hc
    obtain h | ⟨m, hc, h⟩ := h.of_walk rfl
    · obtain rfl | ⟨m, hc, h⟩ := h.of_close rfl rfl
      · exact ⟨_, rfl⟩
      cases hc
      exact (StartsCleanup.not_close rfl rfl h).elim
    · cases hc
      exact (StartsCleanup.not_walk_nil rfl h).elim

theorem panic_ends_session_overCleanup :
    ∃ m₁ gone m₂, Activation.ClosesFrames ⟨6, .job (.walk .einval),
        atPanicOverCleanup.note (.log (.panicking .einval))⟩ passing [0] gone m₁ ∧
      (atPanicOverCleanup.note (.log (.panicking .einval))).Cleaned m₁ ∧
      (m₁.panicked .einval).NotesOnly Entry.IsSilent m₂ ∧
      EndsWith 8 0 panickingOverCleanup beforeLeakingCleanup 22 m₂ := by
  obtain ⟨K, hpath, hK⟩ := path_panickingOverCleanup
  have hstack : Stack [] ⟨8, .session 0 panickingOverCleanup, beforeLeakingCleanup⟩ :=
    .start (.session rfl (by decide : 1 < 2))
  rcases panic_ends_session hstack rfl hpath hK rfl returns_panickingOverCleanup with
    ⟨m, h⟩ | ⟨m₁, gone, m₂, -, hgone, hcleaned, -, hsilent, hends⟩
  · cases h
  · exact ⟨m₁, gone, m₂, hgone, hcleaned, hsilent, hends⟩

/-- The frame that a cleanup opens inside another one and leaves open is closed after that one, and
its cleanup is run after those that wait further out. -/
theorem outer_closed_first_panickingOverCleanup :
    (∃ K, Path ⟨8, .job (.block panickingOverCleanup), beforeLeakingCleanup.sessionEntered⟩ K
        ⟨6, .stmt (.panic (some .einval)), atPanicOverCleanup⟩ ∧
      ∀ c ∈ K, c.1 ≠ .foreign ∧ c.1 ≠ .unwinding ∧ ∀ base owner, c.1 ≠ .session base owner) ∧
    atPanicOverCleanup.aim? = none ∧ atPanicOverCleanup.openIds = [0] ∧
    (∀ d, StartsCleanup ⟨6, .job (.walk .einval),
      atPanicOverCleanup.note (.log (.panicking .einval))⟩ d → d.Returns) ∧
    ∃ m', (runBody (Job.run 8) (threadBody (Job.run 8) 0 panickingOverCleanup)).run
        beforeLeakingCleanup = ⟨.returned 22, m'⟩ ∧
      (closedAmong [0, 1] (atPanicOverCleanup.deeds m')).reverse = [0, 1] ∧
      (startedIn (stepsIn (atPanicOverCleanup.deeds m'))).reverse = [1, 0, 2] :=
  ⟨path_panickingOverCleanup, rfl, rfl, returns_panickingOverCleanup, _, rfl, rfl, rfl⟩

end NonlocalExit
