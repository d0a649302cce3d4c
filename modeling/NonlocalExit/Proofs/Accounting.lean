import NonlocalExit.Proofs.Frames
import NonlocalExit.Proofs.Ledger

/-!
# Every cleanup of a thread is started once, newest first

`Machine.Accounted` says that the account of the current thread's cleanups is balanced by what
waits in its frames, or in the frames that its teardown has still to close.  Every run keeps it, on
whatever path it closes frames; so when a thread has ended, nothing waits, and all cleanups that it
registered were started.
-/

namespace NonlocalExit

open Effect

section

variable [Declarations]

namespace Machine

/-- The cleanups that wait in each frame; `rest` are those that a teardown has still to start. -/
def waiting (rest : Nat → List Nat) (m : Machine) (id : Nat) : List Nat :=
  if m.thread.torn then rest id
  else (Frame.waiting id m.thread.frames.frames).map (·.serial)

theorem waiting_of_torn (rest : Nat → List Nat) {m : Machine} (h : m.thread.torn = true)
    (id : Nat) : m.waiting rest id = rest id := by
  unfold waiting; rw [if_pos h]

theorem waiting_of_live (rest : Nat → List Nat) {m : Machine} (h : m.thread.torn = false)
    (id : Nat) : m.waiting rest id = (Frame.waiting id m.thread.frames.frames).map (·.serial) := by
  unfold waiting; rw [h]; rfl

/-- Whether the cleanups of the current thread are accounted for, from a part of the journal on. -/
structure Accounted (base : List JournalLine) (rest : Nat → List Nat) (m : Machine) : Prop where
  orderly : m.Orderly
  account : ∃ lines, m.shared.journal = lines ++ base ∧
    Balanced (m.waiting rest) m.shared.nextSerial m.thread.frames.nextId
      (stepsOf m.thread.number lines)

end Machine

/-- Whether a line is no step that registers or starts a cleanup. -/
def Entry.IsQuiet (e : Entry) : Prop := ∀ x ∈ e.step?, x.serial? = none ∧ x.started? = none

theorem Entry.IsPlain.isQuiet {e : Entry} (h : e.IsPlain) : e.IsQuiet := by
  rintro x hx
  cases e with
  | step y =>
    obtain rfl := Option.some.inj hx
    cases y with
    | registered => exact h.elim
    | started => exact h.elim
    | _ => exact ⟨rfl, rfl⟩
  | _ => cases hx

/-- Lines without such steps leave the account as it is. -/
theorem Balanced.quiet {W : Nat → List Nat} {N K : Nat} {L : List Step} (n : Nat)
    (h : Balanced W N K L) :
    ∀ {es : List Entry}, (∀ e ∈ es, e.IsQuiet) → Balanced W N K (stepsOf n (es.map (⟨n, ·⟩)) ++ L)
  | [], _ => h
  | e :: es, hes => by
    have hrest := h.quiet n fun x hx => hes x (List.mem_cons_of_mem _ hx)
    have he := hes e List.mem_cons_self
    cases hx : e.step? with
    | none => simpa [stepsOf, hx] using hrest
    | some x => simpa [stepsOf, hx] using hrest.other (he x hx).1 (he x hx).2

namespace Machine.Accounted

variable {base : List JournalLine} {rest : Nat → List Nat} {m m' : Machine}

/-- The account after something has happened. -/
theorem step (h : m.Accounted base rest) {rest' : Nat → List Nat} (ho : m'.Orderly)
    (hn : m'.thread.number = m.thread.number) (new : List JournalLine)
    (hj : m'.shared.journal = new ++ m.shared.journal)
    (hb : ∀ L, Balanced (m.waiting rest) m.shared.nextSerial m.thread.frames.nextId L →
      Balanced (m'.waiting rest') m'.shared.nextSerial m'.thread.frames.nextId
        (stepsOf m.thread.number new ++ L)) : m'.Accounted base rest' := by
  obtain ⟨lines, hl, hbal⟩ := h.account
  refine ⟨ho, new ++ lines, by rw [hj, hl, List.append_assoc], ?_⟩
  rw [hn, stepsOf_append]
  exact hb _ hbal

theorem note (h : m.Accounted base rest) {e : Entry} (he : e.IsQuiet) :
    (m.note e).Accounted base rest := by
  exact h.step (h.orderly.note e) rfl [⟨m.thread.number, e⟩] rfl fun L hL =>
    hL.quiet m.thread.number (List.forall_mem_singleton.2 he)

/-- Frames may change as long as the same cleanups wait. -/
theorem withFrames (h : m.Accounted base rest) {s : FrameStack Cleanup} (hs : s.Ordered)
    (hid : m.thread.frames.nextId ≤ s.nextId)
    (hw : ∀ id, Frame.waiting id s.frames = Frame.waiting id m.thread.frames.frames) :
    (m.withFrames s).Accounted base rest := by
  refine h.step (h.orderly.withFrames hs) rfl [] rfl fun L hL => ?_
  refine (hL.mono (Nat.le_refl _) hid).congr fun id => ?_
  show (if m.thread.torn then rest id else _) = if m.thread.torn then rest id else _
  rw [← hw id]
  rfl

theorem withHeld (h : m.Accounted base rest) (held : List (List Guard)) :
    (m.withHeld held).Accounted base rest := ⟨h.orderly.withHeld held, h.account⟩

theorem withRecovering (h : m.Accounted base rest) (rs : List Recovery) :
    (m.withRecovering rs).Accounted base rest := ⟨h.orderly.withRecovering rs, h.account⟩

theorem tokenTaken (h : m.Accounted base rest) : m.tokenTaken.Accounted base rest :=
  ⟨h.orderly.tokenTaken, h.account⟩

theorem serialTaken (h : m.Accounted base rest) : m.serialTaken.Accounted base rest :=
  h.step h.orderly.serialTaken rfl [] rfl fun _ hL => hL.mono (Nat.le_succ _) (Nat.le_refl _)

theorem of_aside (a : Aside m m') (h : m.Accounted base rest) : m'.Accounted base rest := by
  obtain ⟨es, hes, hj⟩ := a.journal
  refine h.step (h.orderly.of_aside a) a.number _ hj fun L hL => ?_
  have hw : m'.waiting rest = m.waiting rest := by
    funext id
    unfold Machine.waiting
    rw [a.torn, a.frames]
  rw [hw, a.nextSerial, a.frames]
  exact hL.quiet _ fun e he => (hes e he).isQuiet

theorem opened (h : m.Accounted base rest) : m.opened.Accounted base rest := by
  obtain ⟨lines, hl, hbal⟩ := h.account
  have hnone : Frame.find? m.thread.frames.nextId m.thread.frames.frames = none :=
    Frame.find?_eq_none.2 fun f hf => Nat.ne_of_lt (h.orderly.frames.fresh f hf)
  refine (h.withFrames h.orderly.frames.push (Nat.le_succ _) fun id => ?_).note
    fun x hx => by cases hx; exact ⟨rfl, rfl⟩
  show Frame.waiting id (Frame.new Cleanup m.thread.frames.nextId :: m.thread.frames.frames) = _
  unfold Frame.waiting
  by_cases hid : m.thread.frames.nextId = id
  · subst hid
    rw [hnone]
    simp [Frame.find?, Frame.new]
  · rw [Frame.find?_cons_of_ne hid]

theorem rooted (h : m.Accounted base rest) : m.rooted.Accounted base rest := by
  unfold Machine.rooted
  split
  · exact h.opened
  · exact h

theorem closed (h : m.Accounted base rest) {id : Nat} {f : Frame Cleanup}
    (hf : Frame.find? id m.thread.frames.frames = some f) (hp : f.pending = []) :
    (m.closed id).Accounted base rest := by
  refine (h.withFrames (h.orderly.frames.erase id) (Nat.le_refl _) fun i => ?_).note
    fun x hx => by cases hx; exact ⟨rfl, rfl⟩
  unfold Frame.waiting
  by_cases hi : i = id
  · subst hi
    rw [Frame.find?_erase_self h.orderly.frames.distinct, hf]
    exact hp.symm
  · rw [Frame.find?_erase_of_ne hi]

theorem withMark (h : m.Accounted base rest) (id : Nat) (mark : Option Nat) :
    (m.withMark id mark).Accounted base rest :=
  h.withFrames (h.orderly.frames.update id fun _ => rfl) (Nat.le_refl _) fun _ =>
    Frame.waiting_withMark

/-- The line by which a cleanup is given its argument does not count. -/
theorem starting_of_note {c : Cleanup}
    (h : (m.note (.step (.started c.serial))).Accounted base rest) :
    (m.starting c).Accounted base rest := by
  unfold Machine.starting
  split
  · exact h.note fun x hx => by cases hx
  · exact h

theorem started (h : m.Accounted base rest) {id : Nat} {f : Frame Cleanup} {c : Cleanup}
    {cs : List Cleanup} (ht : m.thread.torn = false)
    (hf : Frame.find? id m.thread.frames.frames = some f) (hp : f.pending = c :: cs) :
    ((m.withPending id cs).starting c).Accounted base rest := by
  have hw := waiting_of_live rest ht
  have hw' : ∀ i, (m.withPending id cs).waiting rest i =
      (Frame.waiting i (Frame.update id (·.withPending cs) m.thread.frames.frames)).map
        (·.serial) := waiting_of_live rest (m := m.withPending id cs) ht
  refine starting_of_note ?_
  refine h.step ((h.orderly.withPending id cs).note _) rfl
    [⟨m.thread.number, .step (.started c.serial)⟩] rfl fun L hL => ?_
  have hs : stepsOf m.thread.number [⟨m.thread.number, .step (.started c.serial)⟩] =
      [.started c.serial] := by simp [stepsOf, Entry.step?]
  rw [hs]
  have hwait : m.waiting rest id = c.serial :: cs.map (·.serial) := by
    rw [hw, Frame.waiting_of_find? hf, hp]
    rfl
  refine hL.started hwait ?_ fun i hi => ?_
  · refine (hw' id).trans ?_
    rw [Frame.waiting, Frame.find?_update_self (c := (·.withPending cs)) fun _ => rfl, hf]
    rfl
  · refine (hw' i).trans ((hw i).trans ?_).symm
    rw [Frame.waiting, Frame.waiting,
      Frame.find?_update_of_ne (c := (·.withPending cs)) (fun _ => rfl) hi]

/-- A teardown starts the newest cleanup that waits in one of its frames. -/
theorem startedTorn (h : m.Accounted base rest) {rest' : Nat → List Nat} {id : Nat} {c : Cleanup}
    {cs : List Cleanup} (ht : m.thread.torn = true)
    (hid : rest id = (c :: cs).map (·.serial)) (hself : rest' id = cs.map (·.serial))
    (hne : ∀ i, i ≠ id → rest' i = rest i) : (m.starting c).Accounted base rest' := by
  have hw : ∀ r : Nat → List Nat, m.waiting r = r := fun r => funext (waiting_of_torn r ht)
  refine starting_of_note ?_
  refine h.step (h.orderly.note _) rfl
    [⟨m.thread.number, .step (.started c.serial)⟩] rfl fun L hL => ?_
  have hs : stepsOf m.thread.number [⟨m.thread.number, .step (.started c.serial)⟩] =
      [.started c.serial] := by simp [stepsOf, Entry.step?]
  rw [hw] at hL
  rw [hs, show (m.note _).waiting rest' = rest' from hw rest']
  exact hL.started hid hself hne

theorem registered (h : m.Accounted base rest) {c : Cleanup} {s : FrameStack Cleanup}
    (ht : m.thread.torn = false) (hc : c.serial = m.shared.nextSerial)
    (hs : m.serialTaken.rooted.thread.frames.add? c = some s) :
    ((m.serialTaken.rooted.withFrames s).note
      (.step (.registered c.serial (some m.rootId)))).Accounted base rest := by
  obtain ⟨f, fs, hf, hid⟩ := m.frames_rooted
  obtain ⟨f', fs', hf', _, rfl⟩ := FrameStack.add?_eq_some.1 hs
  have heq : f' = f ∧ fs' = fs := by
    rw [Machine.rooted_serialTaken] at hf'
    exact List.cons.inj (hf'.symm.trans hf)
  obtain ⟨rfl, rfl⟩ := heq
  have hr : m.rooted.Accounted base rest := h.rooted
  have hord := h.serialTaken.rooted.orderly
  have htorn : m.rooted.thread.torn = false := m.torn_rooted.trans ht
  rw [Machine.rooted_serialTaken] at hs hord ⊢
  refine hr.step ((hord.withFrames (hord.frames.add hs)).note _) rfl
    [⟨m.rooted.thread.number, .step (.registered c.serial (some m.rootId))⟩] rfl fun L hL => ?_
  have hsteps : stepsOf m.rooted.thread.number
      [⟨m.rooted.thread.number, .step (.registered c.serial (some m.rootId))⟩] =
      [.registered c.serial (some m.rootId)] := by simp [stepsOf, Entry.step?]
  have hw : ∀ i, m.rooted.waiting rest i = (Frame.waiting i (f' :: fs')).map (·.serial) := by
    intro i
    rw [waiting_of_live rest htorn, hf]
  have hfresh : m.rootId < m.rooted.thread.frames.nextId := by
    rw [← hid]
    exact hr.orderly.frames.fresh f' (hf ▸ List.mem_cons_self)
  rw [hsteps, hc, ← m.nextSerial_rooted]
  refine Balanced.congr (W := fun i => (Frame.waiting i (f'.add c :: fs')).map (·.serial))
    (hL.registered hfresh ?_ ?_) ?_
  · rw [hw, ← hid, Frame.waiting, Frame.waiting, Frame.find?_cons_self,
      show Frame.find? f'.id (f'.add c :: fs') = _ from Frame.find?_cons_self]
    simp [Frame.add, hc, m.nextSerial_rooted]
  · intro i hi
    have hne : f'.id ≠ i := fun h => hi (h.symm.trans hid)
    rw [hw, Frame.waiting, Frame.waiting, Frame.find?_cons_of_ne hne,
      show Frame.find? i (f'.add c :: fs') = _ from Frame.find?_cons_of_ne hne]
  · exact waiting_of_live rest htorn

theorem registeredLate (h : m.Accounted base rest) {c : Cleanup} (ht : m.thread.torn = true)
    (hc : c.serial = m.shared.nextSerial) :
    ((m.serialTaken.note (.step (.registered c.serial none))).starting c).Accounted base rest := by
  have hw : m.waiting rest = rest := funext (waiting_of_torn rest ht)
  refine starting_of_note ?_
  refine h.step (((h.orderly.serialTaken).note _).note _) rfl
    [⟨m.thread.number, .step (.started c.serial)⟩,
      ⟨m.thread.number, .step (.registered c.serial none)⟩] rfl fun L hL => ?_
  have hsteps : stepsOf m.thread.number [⟨m.thread.number, .step (.started c.serial)⟩,
      ⟨m.thread.number, .step (.registered c.serial none)⟩] =
      [.started c.serial, .registered c.serial none] := by simp [stepsOf, Entry.step?]
  rw [hsteps, hc]
  rw [hw] at hL
  exact hL.registeredLate.congr (waiting_of_torn rest ht)

/-- What other threads note does not count. -/
theorem ofThread (h : m.Accounted base rest) (hg : Grows m.threadStarted m') :
    Machine.Accounted base rest { m' with thread := m.thread } := by
  obtain ⟨new, hj, hl⟩ := hg.journal
  refine h.step (h.orderly.ofThread hg) rfl new hj fun L hL => ?_
  have hnil : stepsOf m.thread.number new = [] := by
    refine stepsOf_eq_nil fun l hmem => ?_
    have hn := h.orderly.number
    rcases hl l hmem with h | h
    · rw [h]; exact Nat.ne_of_gt hn
    · exact Nat.ne_of_gt (Nat.lt_trans hn h)
  rw [hnil]
  exact hL.mono hg.nextSerial (Nat.le_refl _)

theorem threadStarted (m : Machine) :
    m.threadStarted.Accounted m.shared.journal (fun _ => []) := by
  exact ⟨.threadStarted m, [], rfl, (Balanced.empty _ _).congr (waiting_of_live _ rfl)⟩

theorem tornDown (h : m.Accounted base rest) (ht : m.thread.torn = false) :
    m.tornDown.Accounted base fun id =>
      (Frame.waiting id m.thread.frames.frames).map (·.serial) := by
  refine h.step h.orderly.tornDown rfl [] rfl fun L hL => hL.congr fun id => ?_
  rw [waiting_of_live rest ht]
  exact waiting_of_torn _ rfl id

end Machine.Accounted

/-- What runs do to the account of the cleanups. -/
def KeepsAccount (m m' : Machine) : Prop :=
  Steady m m' ∧ ∀ base rest, m.Accounted base rest → m'.Accounted base rest

theorem KeepsAccount.primitives : AllPrimitives KeepsAccount where
  refl m := ⟨.refl m, fun _ _ h => h⟩
  trans h h' := ⟨h.1.trans h'.1, fun base rest ha => h'.2 base rest (h.2 base rest ha)⟩
  steady h := h.1
  aside a := ⟨a.steady, fun _ _ h => h.of_aside a⟩
  enteredFrame m _ := ⟨.note _ m, fun _ _ h => h.note fun x hx => by cases hx⟩
  leftFrame m _ := ⟨.note _ m, fun _ _ h => h.note fun x hx => by cases hx⟩
  passed m _ := ⟨.note _ m, fun _ _ h => h.note fun x hx => by cases hx; exact ⟨rfl, rfl⟩⟩
  intercepted m _ := ⟨.note _ m, fun _ _ h => h.note fun x hx => by cases hx⟩
  opened m _ := ⟨.opened m, fun _ _ h => h.opened⟩
  closed m id f _ hf hp := ⟨.closed id m, fun _ _ h => h.closed hf hp⟩
  started m id f c rest ht hf hp :=
    ⟨Steady.primitives.started m id f c rest ht hf hp, fun _ _ h => h.started ht hf hp⟩
  registered m c s ht hc hs :=
    ⟨Steady.primitives.registered m c s ht hc hs, fun _ _ h => h.registered ht hc hs⟩
  registeredLate m c ht hc :=
    ⟨Steady.primitives.registeredLate m c ht hc, fun _ _ h => h.registeredLate ht hc⟩
  tokenTaken m := ⟨.tokenTaken m, fun _ _ h => h.tokenTaken⟩
  block h := ⟨Steady.primitives.block h.1, fun _ _ ha => (h.2 _ _ (ha.withHeld _)).withHeld _⟩
  dropped m _ _ _ _ := ⟨.withHeld _ m, fun _ _ h => h.withHeld _⟩
  entered m name ht := ⟨Steady.primitives.entered m name ht,
    fun _ _ h => (h.opened.note fun x hx => by cases hx).withHeld _⟩
  released m _ _ _ _ := ⟨.withHeld _ m, fun _ _ h => h.withHeld _⟩
  recovery ht h := ⟨Steady.primitives.recovery ht h.1, fun _ _ ha =>
    ((h.2 _ _ (((ha.tokenTaken.rooted).withMark _ _).withRecovering _)).withMark _ _).withRecovering
      _⟩
  thread hg := ⟨.ofThread hg, fun _ _ h => h.ofThread hg⟩

/-! ## Teardown -/

section Teardown

variable {n : Nat} {base : List JournalLine} {m m' : Machine}

/-- A teardown starts the cleanups of a frame one after another. -/
theorem accounted_of_frame {cs : List Cleanup} {rest : Nat → List Nat} (id : Nat)
    (rest' : Nat → List Nat) (h : m.Accounted base rest) (ht : m.thread.torn = true)
    (hid : rest id = cs.map (·.serial)) (hself : rest' id = [])
    (hne : ∀ i, i ≠ id → rest' i = rest i)
    (hs : (startAll (Job.run n) cs).run m = ⟨.returned (), m'⟩) :
    m'.Accounted base rest' ∧ m'.thread.torn = true := by
  induction cs generalizing m rest with
  | nil =>
    cases hs
    -- Nothing waits in the frame any more, so the two accounts are the same.
    have hrest : rest' = rest := by
      funext i
      by_cases hi : i = id
      · rw [hi, hself, hid]; rfl
      · exact hne i hi
    exact ⟨hrest ▸ h, ht⟩
  | cons c cs ih =>
    obtain ⟨_, m₁, hc, h'⟩ | ⟨_, _, ht⟩ := leaves_bind.1 (leaves_of_returned hs)
    · rw [show (startAll _ _).run m = _ from run_bind_returned hc] at hs
      have hrun := KeepsAccount.primitives.obeys n (.block c.body) _ _ _
        (by rw [run_startCleanup] at hc; exact leaves_of_returned hc)
      have hstart : (m.starting c).Accounted base
          fun i => if i = id then cs.map (·.serial) else rest i :=
        h.startedTorn ht hid (if_pos rfl) fun i hi => if_neg hi
      have htorn : (m.starting c).thread.torn = true := (Steady.starting c m).torn.trans ht
      refine ih (hrun.2 _ _ hstart) (hrun.1.torn.trans htorn) (if_pos rfl) (fun i hi => ?_) hs
      rw [if_neg hi]
      exact hne i hi
    · cases ht

/-- A teardown starts the cleanups of all frames. -/
theorem accounted_of_frames {fs : List (Frame Cleanup)} (hd : Frame.Distinct fs)
    (h : m.Accounted base fun id => (Frame.waiting id fs).map (·.serial))
    (ht : m.thread.torn = true)
    (hs : (startAll (Job.run n) (fs.flatMap (·.pending))).run m = ⟨.returned (), m'⟩) :
    m'.Accounted base (fun _ => []) ∧ m'.thread.torn = true := by
  induction fs generalizing m with
  | nil => cases hs; exact ⟨h, ht⟩
  | cons f fs ih =>
    obtain ⟨hne, hd⟩ := List.pairwise_cons.1 hd
    obtain ⟨m₁, hf, hs⟩ := startAll_append _ hs
    have hgone : Frame.find? f.id fs = none :=
      Frame.find?_eq_none.2 fun g hg he => hne g hg he.symm
    obtain ⟨h₁, ht₁⟩ := accounted_of_frame f.id
      (fun id => (Frame.waiting id fs).map (·.serial)) h ht
      (by rw [Frame.waiting, Frame.find?_cons_self]; rfl)
      (by simp [Frame.waiting, hgone])
      (fun i hi => by rw [Frame.waiting, Frame.waiting, Frame.find?_cons_of_ne hi.symm]) hf
    exact ih hd h₁ ht₁ hs

end Teardown

/-- A thread, of either kind, is started and has ended. -/
inductive ThreadRuns (exec : Executor) (m m' : Machine) : Prop
  | plain (body : Block) (r : Except Transfer Unit)
      (run : (inThread exec (exec (.block body))).run m = ⟨.returned r, m'⟩)
  | library (status : Int32) (body : Block) (r : Except Transfer Int32)
      (run : (inThread exec (runBody exec (threadBody exec status body))).run m =
        ⟨.returned r, m'⟩)

theorem accounted_of_inThread {α : Type} {n : Nat} {body : Effect α} {r : Except Transfer α}
    {m m' : Machine} (hb : Obeys (.ofRel KeepsAccount) body)
    (h : (inThread (Job.run n) body).run m = ⟨.returned r, m'⟩) :
    ∃ m₂ : Machine, m₂.Accounted m.shared.journal (fun _ => []) ∧ m₂.thread.torn = true ∧
      m₂.thread.number = m.shared.nextThread ∧ m'.shared = m₂.shared := by
  obtain ⟨m₁, m₂, hx, htear, rfl⟩ := (inThread_eq_returned _).1 h
  have hbody : KeepsAccount m.threadStarted m₁ := by
    obtain ⟨a, hx, _⟩ | ⟨t, hx, _⟩ := run_catchUnwind_eq_returned.1 hx
    · exact hb _ _ _ (leaves_of_returned hx)
    · exact hb _ _ _ (leaves_of_unwound hx)
  have h₁ := hbody.2 _ _ (.threadStarted m)
  have ht₁ : m₁.thread.torn = false := hbody.1.torn
  have hstart := (leaves_teardown _ (leaves_of_returned htear)).2
  have hd := h₁.orderly.frames.distinct
  have hd' : Frame.Distinct m₁.thread.frames.frames.reverse :=
    List.pairwise_reverse.2 (hd.imp Ne.symm)
  have htorn : m₁.tornDown.Accounted m.shared.journal fun id =>
      (Frame.waiting id m₁.thread.frames.frames.reverse).map (·.serial) := by
    simpa only [Frame.waiting, Frame.find?_reverse hd] using h₁.tornDown ht₁
  obtain ⟨h₂, ht₂⟩ := accounted_of_frames hd' htorn rfl hstart
  have hgrow : Grows m₁.tornDown m₂ := KeepsAccount.primitives.grows_startAll
    (KeepsAccount.primitives.obeys n <| .block ·) _ _ _ _ (leaves_of_returned hstart)
  exact ⟨m₂, h₂, ht₂, hgrow.number.trans hbody.1.number, rfl⟩

/-- When a thread has ended, however its body was left, every cleanup that was registered on it was
started once; and each that was registered in a frame was, when it was started, the newest one of
that frame that was still pending. -/
theorem cleanups_started_once_newest_first {n : Nat} {m m' : Machine}
    (h : ThreadRuns (Job.run n) m m') :
    ∃ lines, m'.shared.journal = lines ++ m.shared.journal ∧
      (serialsIn (stepsOf m.shared.nextThread lines)).Nodup ∧
      (∀ s ∈ serialsIn (stepsOf m.shared.nextThread lines),
        (startedIn (stepsOf m.shared.nextThread lines)).count s = 1) ∧
      ∀ later earlier s, stepsOf m.shared.nextThread lines = later ++ .started s :: earlier →
        IsNewest s earlier := by
  have hK := KeepsAccount.primitives.obeys n
  have hend : ∃ m₂ : Machine, m₂.Accounted m.shared.journal (fun _ => []) ∧ m₂.thread.torn = true ∧
      m₂.thread.number = m.shared.nextThread ∧ m'.shared = m₂.shared := by
    cases h with
    | plain body r run => exact accounted_of_inThread (hK (.block body)) run
    | library status body r run =>
      have := KeepsAccount.primitives.toComposes
      refine accounted_of_inThread (KeepsAccount.primitives.obeys_runBody hK ?_) run
      exact (hK (.block body)).bind fun _ => .pure _
  obtain ⟨m₂, h₂, ht₂, hn, hs⟩ := hend
  obtain ⟨lines, hj, hbal⟩ := h₂.account
  rw [hn, show m₂.waiting (fun _ => []) = _ from funext (Machine.waiting_of_torn _ ht₂)] at hbal
  refine ⟨lines, by rw [hs, hj], ?_, fun s hs => hbal.settled hs, hbal.newest⟩
  exact hbal.distinct.imp fun hlt he => by omega

end

/-- A block that is left by an unwind while cleanups wait in two frames. -/
def unwoundBlock : Block :=
  [.defer [.emit "third"], .enter "leaked", .leak "leaked", .defer [.emit "fourth"],
    .scope [.defer [.defer [.emit "second"]], .foreign none]]

theorem cleanups_started_once_newest_first_unwound :
    let m' := ((inThread (Job.run 8) (Job.run 8 (.block unwoundBlock))).run .initial).machine
    ThreadRuns (Job.run 8) .initial m' ∧
      ∃ lines, m'.shared.journal = lines ++ Machine.initial.shared.journal ∧
        (serialsIn (stepsOf 1 lines)).Nodup ∧
        (∀ s ∈ serialsIn (stepsOf 1 lines), (startedIn (stepsOf 1 lines)).count s = 1) ∧
        ∀ later earlier s, stepsOf 1 lines = later ++ .started s :: earlier →
          IsNewest s earlier := by
  have h : ThreadRuns (Job.run 8) .initial
      ((inThread (Job.run 8) (Job.run 8 (.block unwoundBlock))).run .initial).machine :=
    .plain unwoundBlock (.error (.foreign none)) rfl
  exact ⟨h, cleanups_started_once_newest_first h⟩

/-- The scope's cleanup is started first, then the one that it registers, and the others when the
storage of the thread is torn down, outermost frame first. -/
example :
    let m' := ((inThread (Job.run 8) (Job.run 8 (.block unwoundBlock))).run .initial).machine
    startedIn (stepsOf 1 m'.shared.journal) = [1, 0, 3, 2] := rfl

end NonlocalExit
