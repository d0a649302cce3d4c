import NonlocalExit.Proofs.Stopping

/-!
# The capacity of frames

In a frame no more than `frameCapacity` cleanups wait, wherever a thread comes to before its
teardown: `Stack.fits`.  A cleanup leaves its frame before it is started, so there is room for
another one while it is run, and `registering_within_capacity`: to register a cleanup stops the
process only where the innermost frame is full, and otherwise changes this frame alone.  What waits
at a time is bounded, and not what a frame runs until it is closed (`run_chain`).
-/

namespace NonlocalExit

open Effect

/-! ## Frames within the capacity -/

theorem Frame.forall_update {α : Type} {id : Nat} {c : Frame α → Frame α} {p : Frame α → Prop}
    (hc : ∀ f, p f → p (c f)) : ∀ {fs : List (Frame α)}, (∀ f ∈ fs, p f) →
      ∀ f ∈ update id c fs, p f
  | [], h => h
  | g :: gs, h => by
    obtain ⟨hg, hgs⟩ := List.forall_mem_cons.1 h
    unfold update
    split
    · exact List.forall_mem_cons.2 ⟨hc g hg, hgs⟩
    · exact List.forall_mem_cons.2 ⟨hg, forall_update hc hgs⟩

namespace FrameStack

variable {α : Type} {s s' : FrameStack α} {c : α}

/-- Whether no more cleanups wait in any frame than it has room for. -/
def Fits (s : FrameStack α) : Prop := ∀ f ∈ s.frames, f.pending.length ≤ frameCapacity

/-- A cleanup comes into the innermost frame, or into a new frame if there is none. -/
inductive Receives (c : α) : FrameStack α → FrameStack α → Prop
  | innermost {f fs id} : Receives c ⟨f :: fs, id⟩ ⟨{ f with pending := c :: f.pending } :: fs, id⟩
  | root {id} : Receives c ⟨[], id⟩ ⟨[⟨id, [c], none⟩], id + 1⟩

/-- Whether there is no room in the innermost frame. -/
def IsFull (s : FrameStack α) : Prop := ∃ f ∈ s.innermost?, f.pending.length = frameCapacity

namespace Fits

theorem empty : (FrameStack.empty : FrameStack α).Fits := fun _ h => nomatch h

theorem push (h : s.Fits) : s.push.2.Fits := List.forall_mem_cons.2 ⟨Nat.zero_le _, h⟩

theorem erase (h : s.Fits) (id : Nat) : Fits { s with frames := Frame.erase id s.frames } :=
  fun f hf => h f (Frame.erase_sublist.subset hf)

theorem swapMark (h : s.Fits) (id : Nat) (mark : Option Nat) : (s.swapMark id mark).2.Fits :=
  Frame.forall_update (c := (·.withMark mark)) (fun _ hf => hf) h

/-- The cleanups that wait in a frame are replaced by fewer ones. -/
theorem withPending (h : s.Fits) (id : Nat) {cs : List α} (hcs : cs.length ≤ frameCapacity) :
    Fits { s with frames := Frame.update id (·.withPending cs) s.frames } :=
  Frame.forall_update (fun _ _ => hcs) h

theorem add (h : s.Fits) (hs : s.add? c = some s') : s'.Fits := by
  obtain ⟨f, fs, hf, hroom, rfl⟩ := add?_eq_some.1 hs
  unfold Fits at h
  rw [hf] at h
  exact List.forall_mem_cons.2 ⟨of_decide_eq_true hroom, (List.forall_mem_cons.1 h).2⟩

end Fits

end FrameStack

section

variable [Declarations]

theorem Machine.thread_starting (m : Machine) (c : Cleanup) : (m.starting c).thread = m.thread := by
  unfold starting
  split <;> rfl

/-- Runs that end keep the frames within their capacity. -/
structure Machine.Fitting (m m' : Machine) : Prop extends Tidy m m' where
  fits : m.thread.frames.Fits → m'.thread.frames.Fits

namespace Machine.Fitting

variable {m m₁ m' : Machine}

theorem refl (m : Machine) : Fitting m m := ⟨.refl m, id⟩

theorem trans (h : Fitting m m₁) (h' : Fitting m₁ m') : Fitting m m' :=
  ⟨h.toTidy.trans h'.toTidy, fun hm => h'.fits (h.fits hm)⟩

theorem of_same (ht : Tidy m m') (hf : m'.thread.frames = m.thread.frames) : Fitting m m' :=
  ⟨ht, fun h => hf ▸ h⟩

theorem note (e : Entry) (m : Machine) : Fitting m (m.note e) := of_same (.note e m) rfl

theorem withHeld (held : List (List Guard)) (m : Machine) : Fitting m (m.withHeld held) :=
  of_same (.withHeld held m) rfl

theorem withMark (id : Nat) (mark : Option Nat) (m : Machine) : Fitting m (m.withMark id mark) :=
  ⟨.withMark id mark m, fun h => h.swapMark id mark⟩

theorem withRecovering (rs : List Recovery) (m : Machine) : Fitting m (m.withRecovering rs) :=
  of_same (.withRecovering rs m) rfl

theorem tokenTaken (m : Machine) : Fitting m m.tokenTaken := of_same (.tokenTaken m) rfl

theorem opened (m : Machine) : Fitting m m.opened := ⟨.opened m, fun h => h.push⟩

theorem rooted (m : Machine) : Fitting m m.rooted := by
  unfold Machine.rooted
  split
  · exact opened m
  · exact refl m

theorem recoveryEntered (m : Machine) : Fitting m m.recoveryEntered :=
  (((tokenTaken m).trans (rooted _)).trans (withMark _ _ _)).trans (withRecovering _ _)

theorem starting (c : Cleanup) (m : Machine) : Fitting m (m.starting c) :=
  of_same (.starting c m) (congrArg Thread.frames (m.thread_starting c))

/-- A cleanup is taken out of its frame. -/
theorem taken {id : Nat} {f : Frame Cleanup} {c : Cleanup} {cs : List Cleanup}
    (hf : Frame.find? id m.thread.frames.frames = some f) (hp : f.pending = c :: cs) :
    Fitting m (m.withPending id cs) := by
  refine ⟨.withPending id cs m, fun h => h.withPending id ?_⟩
  have hle := h f (Frame.mem_of_find? hf)
  rw [hp] at hle
  exact Nat.le_of_succ_le hle

theorem primitives : AllPrimitives Fitting where
  refl := refl
  trans := trans
  steady h := h.toSteady
  aside h := of_same (.aside h) h.frames
  enteredFrame m _ := note _ m
  leftFrame m _ := note _ m
  passed m _ := note _ m
  intercepted m _ := note _ m
  opened m _ := opened m
  closed m id _ _ _ _ := ⟨.closed id m, fun h => h.erase id⟩
  started _ _ _ c _ _ hf hp := (taken hf hp).trans (starting c _)
  registered m _ _ _ _ hs :=
    (((of_same (.serialTaken m) rfl).trans (rooted _)).trans ⟨.add hs, fun h => h.add hs⟩).trans
      (note _ _)
  registeredLate m c _ _ := ((of_same (.serialTaken m) rfl).trans (note _ _)).trans (starting c _)
  tokenTaken := tokenTaken
  block h := ((withHeld _ _).trans h).trans (withHeld _ _)
  dropped m _ _ _ _ := withHeld _ m
  entered m _ _ := ((opened m).trans (note _ _)).trans (withHeld _ _)
  released m _ _ _ _ := withHeld _ m
  recovery _ h := (((recoveryEntered _).trans h).trans (withMark _ _ _)).trans (withRecovering _ _)
  thread hg := of_same (.ofThread hg) rfl

end Machine.Fitting

section

variable {a b : Activation} {K : List (Label × Activation)} {l : Label}

theorem fitting_of_enters (e : Enters a l b) : a.machine.Fitting b.machine := by
  obtain ⟨m, ho, hm⟩ := Machine.Fitting.primitives.visits e
  refine Machine.Fitting.trans ?_ hm
  cases ho with
  | same => exact .refl _
  | block => exact .withHeld _ _
  | recover => exact .recoveryEntered _

theorem Activation.IsStart.fits (h : a.IsStart) : a.machine.thread.frames.Fits := by
  cases h with
  | body hm => exact hm ▸ FrameStack.Fits.empty
  | session hm => exact hm ▸ FrameStack.Fits.empty

/-- Before the teardown of a thread no frame of it holds more cleanups than it has room for. -/
theorem Stack.fits (h : Stack K a) (ht : a.machine.thread.torn = false) :
    a.machine.thread.frames.Fits := by
  obtain ⟨root, hroot, hpath⟩ := h.path ht
  clear h ht
  induction hpath with
  | here => exact hroot.fits
  | call _ e ih => exact (fitting_of_enters e).fits ih

/-- When a cleanup starts in the course of the closing of its frame, there is room in the frame. -/
theorem Stack.hasRoom {n k id : Nat} {body : Block} {m m' : Machine}
    (h : Stack K ⟨n, .job (.close id), m⟩)
    (e : Enters ⟨n, .job (.close id), m⟩ l ⟨k, .job (.block body), m'⟩) :
    ∃ f, Frame.find? id m'.thread.frames.frames = some f ∧ f.pending.length < frameCapacity := by
  cases e with
  | @cleanup _ _ f c cs _ ht hf hp =>
    refine ⟨f.withPending cs, ?_, ?_⟩
    · rw [Machine.thread_starting, Machine.find?_withPending_self, hf]
      rfl
    · have hle := h.fits ht f (Frame.mem_of_find? hf)
      rw [hp] at hle
      exact hle

end

/-! ## Registering a cleanup -/

/-- A machine on which a cleanup is registered: it waits in the innermost frame, and the rest of
the thread is as it was. -/
structure Machine.Registers (c : Cleanup) (m m' : Machine) : Prop where
  frames : m.thread.frames.Receives c m'.thread.frames
  thread : m'.thread = { m.thread with frames := m'.thread.frames }
  shared : m'.shared =
    { m.shared with nextSerial := m.shared.nextSerial + 1, journal := m'.shared.journal }

section

variable {m m' : Machine} {c : Cleanup} {s : FrameStack Cleanup}

theorem Machine.Registers.note (h : m.Registers c m') (e : Entry) : m.Registers c (m'.note e) :=
  ⟨h.frames, h.thread, by unfold Machine.note; rw [h.shared]⟩

/-- A cleanup finds no room where the innermost frame is full. -/
theorem Machine.isFull_of_add? (h : m.thread.frames.Fits) :
    m.serialTaken.rooted.thread.frames.add? c = none ↔ m.thread.frames.IsFull := by
  rw [add?_rooted_eq_none]
  constructor
  · rintro ⟨f, fs, hf, hroom⟩
    have hf : m.thread.frames.frames = f :: fs := hf
    refine ⟨f, congrArg List.head? hf, Nat.le_antisymm (h f (hf ▸ List.mem_cons_self)) ?_⟩
    exact Nat.le_of_not_lt (of_decide_eq_false hroom)
  · rintro ⟨f, hf, hfull⟩
    obtain ⟨fs, hf⟩ := List.head?_eq_some_iff.1 hf
    exact ⟨f, fs, hf, decide_eq_false (Nat.not_lt_of_le (Nat.le_of_eq hfull.symm))⟩

/-- A cleanup that finds room waits in the innermost frame. -/
theorem Machine.registers_of_add? (h : m.serialTaken.rooted.thread.frames.add? c = some s) :
    m.Registers c (m.serialTaken.rooted.withFrames s) := by
  obtain ⟨f, fs, hf, -, rfl⟩ := FrameStack.add?_eq_some.1 h
  obtain ⟨⟨_, ⟨gs, _⟩, _, _, _, _, _, _, _⟩, _⟩ := m
  cases gs with
  | nil =>
    cases hf
    exact ⟨.root, rfl, rfl⟩
  | cons g gs =>
    cases hf
    exact ⟨.innermost, rfl, rfl⟩

variable {n : Nat} {stmt : Stmt} {argument : Option String} {body : Block}

/-- What comes of registering a cleanup while the storage of the thread is there. -/
theorem defer_cases (exec : Executor) (argument : Option String) (body : Block)
    (ht : m.thread.torn = false) (h : m.thread.frames.Fits) :
    (m.thread.frames.IsFull ∧ ∃ m', (defer exec argument body).run m = ⟨.halted .aborted, m'⟩) ∨
    ¬m.thread.frames.IsFull ∧ ∃ m', (defer exec argument body).run m = ⟨.returned (), m'⟩ ∧
      m.Registers ⟨m.shared.nextSerial, argument, body⟩ m' := by
  rw [run_defer]
  dsimp only
  cases hadd : m.serialTaken.rooted.thread.frames.add? ⟨m.shared.nextSerial, argument, body⟩ with
  | none =>
    rw [ht]
    exact .inl ⟨(Machine.isFull_of_add? h).1 hadd, _, rfl⟩
  | some s =>
    rw [ht]
    refine .inr ⟨fun hfull => ?_, _, rfl, (Machine.registers_of_add? hadd).note _⟩
    rw [(Machine.isFull_of_add? h).2 hfull] at hadd
    cases hadd

/-- Both statements that register a cleanup come to that. -/
theorem registering_cases (hr : stmt.registers? = some (argument, body))
    (ht : m.thread.torn = false) (h : m.thread.frames.Fits) :
    (m.thread.frames.IsFull ∧ ∃ m', (stmt.perform (Job.run n)).run m = ⟨.halted .aborted, m'⟩) ∨
    ¬m.thread.frames.IsFull ∧ ∃ m', (stmt.perform (Job.run n)).run m = ⟨.returned (), m'⟩ ∧
      m.Registers ⟨m.shared.nextSerial, argument, body⟩ m' := by
  have hdefer := defer_cases (Job.run n) argument body ht h
  cases stmt with
  | defer =>
    cases hr
    exact hdefer
  | deferWith a =>
    cases hr
    obtain ⟨hfull, m', hx⟩ | ⟨hfull, m', hx, hm⟩ := hdefer
    · refine .inl ⟨hfull, m', ?_⟩
      show (defer _ _ _ >>= _).run m = _
      rw [run_bind, hx]
    · refine .inr ⟨hfull, m'.note (.event (.deferred a)), ?_, hm.note _⟩
      show (defer _ _ _ >>= _).run m = _
      rw [run_bind, hx]
      rfl
  | _ => cases hr

end

/-! ## What a frame runs until it is closed -/

/-- The cleanups of a frame that were started, latest first. -/
def startedFrom (id : Nat) (L : List Step) : List Nat :=
  (startedIn L).filter (· ∈ registeredIn id L)

/-- Registers a cleanup that registers the next one, a number of times. -/
def chain : Nat → Block
  | 0 => []
  | k + 1 => [.defer (chain k)]

/-- What the journal has more than before is what the thread has noted. -/
theorem Machine.noted {m m' : Machine} (es : List Entry)
    (hn : m'.thread.number = m.thread.number)
    (ht : m'.shared.nextThread = m.shared.nextThread)
    (hj : m'.shared.journal = es.map (⟨m.thread.number, ·⟩) ++ m.shared.journal) :
    Adds m m' ∧ m.deeds m' = es := by
  refine ⟨⟨hn, Nat.le_of_eq ht.symm, _, hj, fun l hl => ?_⟩, ?_⟩
  · obtain ⟨e, _, rfl⟩ := List.mem_map.1 hl
    exact .inl rfl
  · rw [deeds_of_journal _ hj, entriesOf_map]

/-- Whether the rest of a chain is all that waits in the innermost frame. -/
structure Machine.Chained (m : Machine) (id serial k : Nat) (fs : List (Frame Cleanup)) : Prop where
  torn : m.thread.torn = false
  frames : m.thread.frames.frames = ⟨id, [⟨serial, none, chain k⟩], none⟩ :: fs

section

variable {m m₁ m' : Machine} {id serial k : Nat} {fs : List (Frame Cleanup)}

/-- The machine with the next link of a chain registered in the innermost frame. -/
def Machine.linked (id k : Nat) (fs : List (Frame Cleanup)) (m : Machine) : Machine :=
  (m.serialTaken.withFrames { m.thread.frames with
    frames := ⟨id, [⟨m.shared.nextSerial, none, chain k⟩], none⟩ :: fs }).note
      (.step (.registered m.shared.nextSerial (some id)))

theorem run_link (n : Nat) (hf : m.thread.frames.frames = ⟨id, [], none⟩ :: fs)
    (ht : m.thread.torn = false) :
    (Job.run (n + 1) (.block (chain (k + 1)))).run m = ⟨.returned (), m.linked id k fs⟩ := by
  obtain ⟨⟨_, ⟨_, _⟩, _, _, _, _, _, _, _⟩, _⟩ := m
  cases ht
  cases hf
  rfl

/-- The machine on which the link of a chain that waits in the innermost frame is run. -/
def Machine.linkStarted (id serial : Nat) (m : Machine) : Machine :=
  (m.withPending id []).note (.step (.started serial))

namespace Machine.Chained

theorem frames_linkStarted (h : m.Chained id serial k fs) :
    (m.linkStarted id serial).thread.frames.frames = ⟨id, [], none⟩ :: fs := by
  show Frame.update id _ m.thread.frames.frames = _
  rw [h.frames, Frame.update, if_pos rfl]
  rfl

theorem run_close (h : m.Chained id serial k fs) (n : Nat) :
    (Job.run (n + 1) (.close id)).run m =
      ((Job.run n (.block (chain k))) >>= fun _ => Job.run n (.close id)).run
        (m.linkStarted id serial) := by
  have hfind : Frame.find? id m.thread.frames.frames =
      some ⟨id, [⟨serial, none, chain k⟩], none⟩ := by rw [h.frames, Frame.find?, if_pos rfl]
  exact closeStep_pending h.torn hfind rfl

/-- A link of a chain leaves its place in the frame to the next one. -/
theorem close_link (h : m.Chained id serial (k + 1) fs) (n : Nat) :
    ∃ m₁, (Job.run (n + 2) (.close id)).run m = (Job.run (n + 1) (.close id)).run m₁ ∧
      m₁.Chained id m.shared.nextSerial k fs ∧ Adds m m₁ ∧
      m.deeds m₁ =
        [.step (.registered m.shared.nextSerial (some id)), .step (.started serial)] := by
  refine ⟨(m.linkStarted id serial).linked id k fs, ?_, ⟨h.torn, rfl⟩, Machine.noted _ rfl rfl rfl⟩
  rw [h.run_close, run_bind, run_link n h.frames_linkStarted h.torn]

/-- After the last link the frame is closed. -/
theorem close_last (h : m.Chained id serial 0 fs) (n : Nat) :
    ∃ m', (Job.run (n + 2) (.close id)).run m = ⟨.returned (), m'⟩ ∧
      m'.thread.frames.frames = fs ∧ Adds m m' ∧
      m.deeds m' = [.step (.frameClosed id), .step (.started serial)] := by
  have hclose : (Job.run (n + 1) (.close id)).run (m.linkStarted id serial) =
      ⟨.returned (), (m.linkStarted id serial).closed id⟩ := by
    have hfind := congrArg (Frame.find? id) h.frames_linkStarted
    rw [Frame.find?, if_pos rfl] at hfind
    exact closeStep_empty h.torn hfind rfl
  refine ⟨(m.linkStarted id serial).closed id, ?_, ?_, Machine.noted _ rfl rfl rfl⟩
  · rw [h.run_close, run_bind]
    exact hclose
  · show Frame.erase id (m.linkStarted id serial).thread.frames.frames = fs
    rw [h.frames_linkStarted, Frame.erase, if_pos rfl]

/-- Closing the frame runs the rest of the chain, all of which comes into the same frame. -/
theorem close (h : m.Chained id serial k fs) (n : Nat) :
    ∃ m', (Job.run (k + n + 2) (.close id)).run m = ⟨.returned (), m'⟩ ∧
      m'.thread.frames.frames = fs ∧ Adds m m' ∧
      startedIn (stepsIn (m.deeds m')) = registeredIn id (stepsIn (m.deeds m')) ++ [serial] ∧
      (registeredIn id (stepsIn (m.deeds m'))).length = k := by
  induction k generalizing m serial n with
  | zero =>
    obtain ⟨m', hx, hfs, hadds, hdeeds⟩ := h.close_last n
    refine ⟨m', by rw [Nat.zero_add]; exact hx, hfs, hadds, ?_⟩
    rw [hdeeds]
    exact ⟨rfl, rfl⟩
  | succ k ih =>
    obtain ⟨m₁, hx, h₁, hadds, hdeeds⟩ := h.close_link (k + n + 1)
    obtain ⟨m', hx', hfs, hadds', hstarted, hlength⟩ := ih h₁ n
    have hlink : startedIn (stepsIn (m.deeds m₁)) = [serial] ∧
        registeredIn id (stepsIn (m.deeds m₁)) = [m.shared.nextSerial] :=
      hdeeds ▸ ⟨rfl, registeredIn_self⟩
    refine ⟨m', ?_, hfs, hadds.trans hadds', ?_⟩
    · rw [show k + 1 + n + 2 = k + n + 1 + 2 by omega, hx]
      exact hx'
    · rw [deeds_trans hadds hadds', stepsIn_append, startedIn_append, registeredIn_append,
        hlink.1, hlink.2, hstarted]
      exact ⟨rfl, by rw [List.length_append, hlength]; rfl⟩

end Machine.Chained

/-- A scope whose cleanups register the next one each runs all of them in its frame. -/
theorem run_chain (ht : m.thread.torn = false) (k n : Nat) :
    ∃ m', ((Stmt.scope (chain (k + 1))).perform (Job.run (k + n + 2))).run m =
        ⟨.returned (), m'⟩ ∧
      m'.thread.frames.frames = m.thread.frames.frames ∧
      (startedFrom m.thread.frames.nextId (stepsIn (m.deeds m'))).length = k + 1 := by
  let id := m.thread.frames.nextId
  let left := (m.scopeEntered.linked id k m.thread.frames.frames).note (.log (.leftFrame id))
  have hbody : (Job.run (k + n + 2) (.block (chain (k + 1)))).run m.scopeEntered =
      ⟨.returned (), m.scopeEntered.linked id k m.thread.frames.frames⟩ :=
    run_link (k + n + 1) rfl ht
  have hleft : left.Chained id m.shared.nextSerial k m.thread.frames.frames := ⟨ht, rfl⟩
  obtain ⟨m', hclose, hfs, hadds', hstarted, hlength⟩ := hleft.close n
  refine ⟨m', ?_, hfs, ?_⟩
  · show (scope _ _).run m = _
    rw [run_scope, ht]
    exact run_onExit_returned hbody hclose
  · obtain ⟨hadds, hdeeds⟩ : Adds m left ∧ m.deeds left = [.log (.leftFrame id),
        .step (.registered m.shared.nextSerial (some id)), .log (.enteredFrame id),
        .step (.frameOpened id)] := Machine.noted _ rfl rfl rfl
    have hentered : startedIn (stepsIn (m.deeds left)) = [] ∧
        registeredIn id (stepsIn (m.deeds left)) = [m.shared.nextSerial] :=
      hdeeds ▸ ⟨rfl, registeredIn_self⟩
    have hall : startedIn (stepsIn (m.deeds m')) = registeredIn id (stepsIn (m.deeds m')) := by
      rw [Machine.deeds_trans hadds hadds', stepsIn_append, startedIn_append, registeredIn_append,
        hentered.1, hentered.2, hstarted, List.append_nil]
    have hcount : (registeredIn id (stepsIn (m.deeds m'))).length = k + 1 := by
      rw [Machine.deeds_trans hadds hadds', stepsIn_append, registeredIn_append, hentered.2,
        List.length_append, hlength]
      rfl
    rw [startedFrom, hall, List.filter_eq_self.2 fun s hs => decide_eq_true hs]
    exact hcount

end

/-- Before the teardown of a thread no frame of it holds more cleanups than it has room for.  To
register a cleanup aborts the process exactly if the innermost frame is full, and otherwise changes
this frame alone.  A cleanup that is started as its frame is closed has left its place to another
one, so a frame runs any number of cleanups until it is closed. -/
theorem registering_within_capacity :
    (∀ (K : List (Label × Activation)) (a : Activation), Stack K a →
      a.machine.thread.torn = false →
      a.machine.thread.frames.Fits ∧ ∀ o m, a.run.Leaves o m → m.thread.frames.Fits) ∧
    (∀ (K : List (Label × Activation)) (n : Nat) (stmt : Stmt) (argument : Option String)
      (body : Block) (m : Machine), Stack K ⟨n, .stmt stmt, m⟩ → m.thread.torn = false →
      stmt.registers? = some (argument, body) →
      ((∃ m', (stmt.perform (Job.run n)).run m = ⟨.halted .aborted, m'⟩) ↔
        m.thread.frames.IsFull) ∧
      (¬m.thread.frames.IsFull → ∃ m', (stmt.perform (Job.run n)).run m = ⟨.returned (), m'⟩ ∧
        m.Registers ⟨m.shared.nextSerial, argument, body⟩ m')) ∧
    (∀ (K : List (Label × Activation)) (n k id : Nat) (l : Label) (body : Block) (m m' : Machine),
      Stack K ⟨n, .job (.close id), m⟩ →
      Enters ⟨n, .job (.close id), m⟩ l ⟨k, .job (.block body), m'⟩ →
      ∃ f, Frame.find? id m'.thread.frames.frames = some f ∧ f.pending.length < frameCapacity) ∧
    ∀ (m : Machine) (k n : Nat), m.thread.torn = false →
      ∃ m', ((Stmt.scope (chain (k + 1))).perform (Job.run (k + n + 2))).run m =
          ⟨.returned (), m'⟩ ∧
        m'.thread.frames.frames = m.thread.frames.frames ∧
        (startedFrom m.thread.frames.nextId (stepsIn (m.deeds m'))).length = k + 1 := by
  refine ⟨fun K a h ht => ?_, fun K n stmt argument body m h ht hr => ?_,
    fun _ _ _ _ _ _ _ _ h e => h.hasRoom e, fun m k n ht => run_chain ht k n⟩
  · have hfits := h.fits ht
    exact ⟨hfits, fun o m hl => (Machine.Fitting.primitives.obeys_run hl).fits hfits⟩
  · obtain ⟨hfull, m', hx⟩ | ⟨hroom, m', hx, hm⟩ := registering_cases (n := n) hr ht (h.fits ht)
    · exact ⟨⟨fun _ => hfull, fun _ => ⟨m', hx⟩⟩, fun hroom => (hroom hfull).elim⟩
    · refine ⟨⟨fun ⟨m₁, hx₁⟩ => ?_, fun hfull => (hroom hfull).elim⟩, fun _ => ⟨m', hx, hm⟩⟩
      rw [hx] at hx₁
      cases hx₁

end

/-- Fills a frame. -/
def filling : Stmt := .repeated frameCapacity [.defer []]

/-- The machine with a full root frame. -/
def filled : Machine :=
  ((filling.perform (Job.run 3)).run (Machine.initial.withHeld [[]])).machine

set_option maxRecDepth 4000 in
/-- The process is aborted by the next cleanup. -/
theorem registering_within_capacity_filled :
    (∃ K, Stack K ⟨3, .stmt (.defer []), filled⟩) ∧ filled.thread.torn = false ∧
      filled.thread.frames.IsFull ∧
      ∃ m', ((Stmt.defer []).perform (Job.run 3)).run filled = ⟨.halted .aborted, m'⟩ := by
  have hstart : Activation.IsStart ⟨4, .job (.block [filling, .defer []]), .initial⟩ :=
    .body rfl Nat.zero_lt_one
  have hstack := (((Stack.start hstart).call (.block _ _ _)).call
    (@Enters.next _ _ _ _ _ filled rfl)).call (.first _ _ _ _)
  have hfull : filled.thread.frames.IsFull := ⟨_, rfl, rfl⟩
  obtain ⟨habort, -⟩ := registering_within_capacity.2.1 _ _ _ _ _ _ hstack rfl rfl
  exact ⟨⟨_, hstack⟩, rfl, hfull, habort.2 hfull⟩

end NonlocalExit
