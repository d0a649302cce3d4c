import NonlocalExit.Proofs.Script

/-!
# What a run never changes, and relations that every run keeps

`Steady`: whatever runs on a thread and is left again, the thread is the same one and its storage
is torn down neither more nor less; counters only grow; the journal is only added to, by this
thread and by threads that were started meanwhile.

`AllPrimitives.obeys` is the way to such results.  A relation between machines that every single
step keeps, and that goes through the brackets of blocks, recoveries and threads, is kept by every
run.
-/

namespace NonlocalExit

variable [Declarations]

open Effect

/-- Whether nothing happened besides plain notes, and changes of the record, the depth, the flags
and the settings. -/
structure Aside (m m' : Machine) : Prop where
  number : m'.thread.number = m.thread.number
  frames : m'.thread.frames = m.thread.frames
  torn : m'.thread.torn = m.thread.torn
  held : m'.thread.held = m.thread.held
  recovering : m'.thread.recovering = m.thread.recovering
  nextToken : m'.shared.nextToken = m.shared.nextToken
  nextSerial : m'.shared.nextSerial = m.shared.nextSerial
  nextThread : m'.shared.nextThread = m.shared.nextThread
  journal : ∃ es : List Entry, (∀ e ∈ es, e.IsPlain) ∧
    m'.shared.journal = es.map (⟨m.thread.number, ·⟩) ++ m.shared.journal

/-- Whether counters have only grown and the journal was only added to. -/
structure Grows (m m' : Machine) : Prop where
  number : m'.thread.number = m.thread.number
  nextId : m.thread.frames.nextId ≤ m'.thread.frames.nextId
  nextToken : m.shared.nextToken ≤ m'.shared.nextToken
  nextSerial : m.shared.nextSerial ≤ m'.shared.nextSerial
  nextThread : m.shared.nextThread ≤ m'.shared.nextThread
  journal : ∃ new, m'.shared.journal = new ++ m.shared.journal ∧
    ∀ l ∈ new, l.thread = m.thread.number ∨ m.shared.nextThread ≤ l.thread

/-- Whether the thread is the same one, and the journal was only added to, by this thread and by
threads that were started meanwhile. -/
structure Adds (m m' : Machine) : Prop where
  number : m'.thread.number = m.thread.number
  nextThread : m.shared.nextThread ≤ m'.shared.nextThread
  journal : ∃ new, m'.shared.journal = new ++ m.shared.journal ∧
    ∀ l ∈ new, l.thread = m.thread.number ∨ m.shared.nextThread ≤ l.thread

/-- What every run on a thread keeps. -/
structure Steady (m m' : Machine) : Prop extends Grows m m' where
  torn : m'.thread.torn = m.thread.torn

namespace Aside

theorem refl (m : Machine) : Aside m m := ⟨rfl, rfl, rfl, rfl, rfl, rfl, rfl, rfl, [], by simp, rfl⟩

theorem note {e : Entry} (he : e.IsPlain) (m : Machine) : Aside m (m.note e) :=
  ⟨rfl, rfl, rfl, rfl, rfl, rfl, rfl, rfl, [e], by simpa using he, rfl⟩

theorem settings {f : Shared → Shared} (hf : ∀ s : Shared, s.SameRecords (f s)) (m : Machine) :
    Aside m { m with shared := f m.shared } := by
  obtain ⟨hj, ht, hs, hn⟩ := hf m.shared
  exact ⟨rfl, rfl, rfl, rfl, rfl, ht, hs, hn, [], by simp, hj⟩

theorem ofThread {m : Machine} {t : Thread} (hn : t.number = m.thread.number)
    (hf : t.frames = m.thread.frames) (ht : t.torn = m.thread.torn)
    (hh : t.held = m.thread.held) (hr : t.recovering = m.thread.recovering) :
    Aside m { m with thread := t } := ⟨hn, hf, ht, hh, hr, rfl, rfl, rfl, [], by simp, rfl⟩

theorem steady {m m' : Machine} (h : Aside m m') : Steady m m' := by
  obtain ⟨es, _, hj⟩ := h.journal
  refine ⟨⟨h.number, Nat.le_of_eq (by rw [h.frames]), Nat.le_of_eq h.nextToken.symm,
    Nat.le_of_eq h.nextSerial.symm, Nat.le_of_eq h.nextThread.symm, _, hj, ?_⟩, h.torn⟩
  intro l hl
  obtain ⟨e, _, rfl⟩ := List.mem_map.1 hl
  exact .inl rfl

end Aside

namespace Adds

variable {m m₁ m' : Machine}

theorem of_journal_eq (hn : m'.thread.number = m.thread.number)
    (ht : m.shared.nextThread ≤ m'.shared.nextThread)
    (hj : m'.shared.journal = m.shared.journal) : Adds m m' := ⟨hn, ht, [], hj, by simp⟩

theorem note (e : Entry) (m : Machine) : Adds m (m.note e) :=
  ⟨rfl, Nat.le_refl _, [⟨m.thread.number, e⟩], rfl, by simp⟩

theorem trans (h : Adds m m₁) (h' : Adds m₁ m') : Adds m m' := by
  obtain ⟨new, hj, hl⟩ := h.journal
  obtain ⟨new', hj', hl'⟩ := h'.journal
  refine ⟨h'.number.trans h.number, Nat.le_trans h.nextThread h'.nextThread, new' ++ new, ?_, ?_⟩
  · rw [hj', hj, List.append_assoc]
  · intro l hmem
    have := h.nextThread
    rcases List.mem_append.1 hmem with hmem | hmem
    · rcases hl' l hmem with hn | hn
      · exact .inl (hn.trans h.number)
      · exact .inr (by omega)
    · exact hl l hmem

/-- The state of the thread that waits is put back. -/
theorem ofThread (h : Adds m.threadStarted m') : Adds m { m' with thread := m.thread } := by
  obtain ⟨new, hj, hl⟩ := h.journal
  refine ⟨rfl, Nat.le_of_succ_le h.nextThread, new, hj, fun l hmem => .inr ?_⟩
  rcases hl l hmem with h | h
  · exact Nat.le_of_eq h.symm
  · exact Nat.le_of_succ_le h

end Adds

namespace Grows

theorem adds {m m' : Machine} (h : Grows m m') : Adds m m' := ⟨h.number, h.nextThread, h.journal⟩

theorem refl (m : Machine) : Grows m m :=
  ⟨rfl, Nat.le_refl _, Nat.le_refl _, Nat.le_refl _, Nat.le_refl _, [], rfl, by simp⟩

theorem trans {m m₁ m₂ : Machine} (h : Grows m m₁) (h' : Grows m₁ m₂) : Grows m m₂ := by
  have hadds := h.adds.trans h'.adds
  exact ⟨hadds.number, Nat.le_trans h.nextId h'.nextId, Nat.le_trans h.nextToken h'.nextToken,
    Nat.le_trans h.nextSerial h'.nextSerial, hadds.nextThread, hadds.journal⟩

theorem note (e : Entry) (m : Machine) : Grows m (m.note e) :=
  ⟨rfl, Nat.le_refl _, Nat.le_refl _, Nat.le_refl _, Nat.le_refl _, [⟨m.thread.number, e⟩], rfl,
    by simp⟩

theorem tornDown (m : Machine) : Grows m m.tornDown :=
  ⟨rfl, Nat.le_refl _, Nat.le_refl _, Nat.le_refl _, Nat.le_refl _, [], rfl, by simp⟩

theorem starting (c : Cleanup) (m : Machine) : Grows m (m.starting c) := by
  unfold Machine.starting
  split
  · exact (note _ _).trans (note _ _)
  · exact note _ _

end Grows

instance : Composes Grows where
  refl := Grows.refl
  trans := Grows.trans

instance : Composes Steady where
  refl m := ⟨.refl m, rfl⟩
  trans h h' := ⟨h.toGrows.trans h'.toGrows, h'.torn.trans h.torn⟩

/-- A relation between machines that every single step keeps, apart from those that close
frames. -/
structure Primitives (r : Machine → Machine → Prop) : Prop extends Composes r where
  steady : ∀ {m m'}, r m m' → Steady m m'
  aside : ∀ {m m'}, Aside m m' → r m m'
  enteredFrame : ∀ m id, r m (m.note (.log (.enteredFrame id)))
  intercepted : ∀ m t, r m (m.note (.event (.intercepted t)))
  opened : ∀ m, m.thread.torn = false → r m m.opened
  registered : ∀ m c s, m.thread.torn = false → c.serial = m.shared.nextSerial →
    m.serialTaken.rooted.thread.frames.add? c = some s →
    r m ((m.serialTaken.rooted.withFrames s).note (.step (.registered c.serial (some m.rootId))))
  registeredLate : ∀ m c, m.thread.torn = true → c.serial = m.shared.nextSerial →
    r m ((m.serialTaken.note (.step (.registered c.serial none))).starting c)
  tokenTaken : ∀ m, r m m.tokenTaken
  block : ∀ {m m'}, r (m.withHeld ([] :: m.thread.held)) m' → r m (m'.withHeld m'.thread.held.tail)
  dropped : ∀ m g own outer, m.thread.held = (g :: own) :: outer → r m (m.withHeld (own :: outer))
  entered : ∀ m name, m.thread.torn = false →
    r m ((m.opened.note (.log (.enteredFrame m.thread.frames.nextId))).withHeld
      (withGuard ⟨name, m.thread.frames.nextId⟩ m.thread.held))
  released : ∀ m name g rest, pickHeld name m.thread.held = some (g, rest) → r m (m.withHeld rest)
  recovery : ∀ {m m'}, m.thread.torn = false → r m.recoveryEntered m' →
    r m ((m'.withMark m.rootId m.tokenTaken.markFound).withRecovering m.thread.recovering)
  thread : ∀ {m m'}, Grows m.threadStarted m' → r m { m' with thread := m.thread }

/-- A relation between machines that every single step keeps, apart from the passing of a panic. -/
structure ClosingPrimitives (r : Machine → Machine → Prop) : Prop extends Primitives r where
  leftFrame : ∀ m id, r m (m.note (.log (.leftFrame id)))
  closed : ∀ m id f, m.thread.torn = false → Frame.find? id m.thread.frames.frames = some f →
    f.pending = [] → r m (m.closed id)
  started : ∀ m id f c rest, m.thread.torn = false →
    Frame.find? id m.thread.frames.frames = some f → f.pending = c :: rest →
    r m ((m.withPending id rest).starting c)

/-- A relation between machines that every single step keeps. -/
structure AllPrimitives (r : Machine → Machine → Prop) : Prop extends ClosingPrimitives r where
  passed : ∀ m id, r m (m.note (.step (.passed id)))

namespace Primitives

variable {r : Machine → Machine → Prop} {α : Type} {exec : Executor} {m m' : Machine}
  {o : Option Transfer}

/-- An operation on frames is refused on torn storage, and goes its way otherwise. -/
theorem leaves_of_torn {x : Effect α} {t : Transfer} {m₁ : Machine} {y : Outcome α}
    (hm : r m m₁) (hx : x.run m = if m.thread.torn then ⟨.unwound t, m₁⟩ else y)
    (h : (x.run m).Leaves o m') : r m m' ∨ m.thread.torn = false ∧ y.Leaves o m' := by
  rw [hx] at h
  by_cases ht : m.thread.torn = true
  · rw [if_pos ht] at h
    cases h
    exact .inl hm
  · rw [if_neg ht] at h
    exact .inr ⟨by simpa using ht, h⟩

section

variable (P : Primitives r)
include P

theorem obeys_note {e : Entry} (he : e.IsPlain) : Obeys (.ofRel r) (Effect.note e) :=
  .modify fun m => P.aside (.note he m)

theorem ofThread {m : Machine} (t : Thread) (hn : t.number = m.thread.number)
    (hf : t.frames = m.thread.frames) (ht : t.torn = m.thread.torn)
    (hh : t.held = m.thread.held) (hr : t.recovering = m.thread.recovering) :
    r m { m with thread := t } := P.aside (.ofThread hn hf ht hh hr)

theorem noted {e : Entry} (he : e.IsPlain) (m : Machine) : r m (m.note e) := P.aside (.note he m)

theorem withBlocked (signals : List FaultSignal) (m : Machine) : r m (m.withBlocked signals) :=
  P.aside (.ofThread rfl rfl rfl rfl rfl)

theorem withCurrent (e : Option Exception) (m : Machine) : r m (m.withCurrent e) :=
  P.ofThread _ rfl rfl rfl rfl rfl

theorem deeper (m : Machine) : r m m.deeper :=
  P.trans (P.ofThread { m.thread with depth := m.thread.depth + 1 } rfl rfl rfl rfl rfl)
    (P.noted (by exact trivial) _)

theorem throwHookCalled (e : Exception) (m : Machine) : r m (m.throwHookCalled e) := by
  have hdeep : r m (m.note (.step (.dispatched e))).deeper :=
    P.trans (P.noted (by exact trivial) _) (P.deeper _)
  have hflag := P.ofThread
    { (m.note (.step (.dispatched e))).deeper.thread with hookRunning := true }
    rfl rfl rfl rfl rfl
  exact P.trans (P.trans hdeep hflag)
    (P.noted (by exact trivial) _)

theorem throwHookLeft (link : Nat) (m : Machine) : r m (m.throwHookLeft link) := by
  have hended : r m (m.note (.step (.hookEnded .onThrow))) := P.noted (by exact trivial) m
  have hthread := P.ofThread
    { (m.note (.step (.hookEnded .onThrow))).thread with hookRunning := false, depth := link }
    rfl rfl rfl rfl rfl
  exact P.trans (P.trans hended hthread) (P.noted (by exact trivial) _)

theorem acrossThrowHook (m : Machine) {m₁ : Machine} {e : Exception}
    (_ : m.thread.hookRunning = false) (h : r (m.throwHookCalled e) m₁) :
    r m (m₁.throwHookLeft m.thread.depth) :=
  P.trans (P.trans (P.throwHookCalled e m) h) (P.throwHookLeft _ _)

theorem rooted (h : m.thread.torn = false) : r m m.rooted := by
  unfold Machine.rooted
  split
  · exact P.opened m h
  · exact P.refl m

theorem obeys_root : Obeys (.ofRel r) innermostOrRoot := by
  intro m o m' h
  obtain h | ⟨ht, h⟩ := leaves_of_torn (P.refl m) (run_innermostOrRoot m) h
  · exact h
  · cases h; exact P.rooted ht

theorem obeys_enter (name : String) : Obeys (.ofRel r) (enter name) := by
  intro m o m' h
  show r m m'
  have henter : (enter name).run m =
      if m.thread.torn then ⟨.unwound storageGone, m⟩
      else (hold ⟨name, m.thread.frames.nextId⟩).run
        (m.opened.note (.log (.enteredFrame m.thread.frames.nextId))) := by
    unfold enter
    rw [run_bind, run_enterFrame]
    by_cases h : m.thread.torn = true <;> simp [h]
  obtain h | ⟨ht, h⟩ := leaves_of_torn (P.refl m) henter h
  · exact h
  · rw [run_hold] at h
    cases h
    exact P.entered m name ht

theorem obeys_release (name : String) : Obeys (.ofRel r) (releaseGuard name) := by
  intro m o m' h
  rw [run_releaseGuard] at h
  split at h
  · cases h; exact P.refl m
  · rename_i g rest hg; cases h; exact P.released m name g rest hg

theorem obeys_settle (token : Nat) {body : Effect Unit} (hb : Obeys (.ofRel r) body) :
    Obeys (.ofRel r) (settle token body) := by
  have := P.toComposes
  refine hb.catchUnwind.bind ?_
  rintro (t | _)
  · cases t with
    | panicking code owner =>
      dsimp only
      split
      · exact .bind (P.obeys_note trivial) fun _ => .pure _
      · exact .unwind _
    | _ => exact .unwind _
  · exact .pure _

/-- A recovery comes to an end on live storage. -/
theorem obeys_recover {body : Effect Unit} (hb : Obeys (.ofRel r) body) :
    Obeys (.ofRel r) (recover body) := by
  intro m o m' h
  obtain h | ⟨ht, h⟩ := leaves_of_torn (P.tokenTaken m) (run_recover m _) h
  · exact h
  · show r m m'
    have htorn : m.recoveryEntered.thread.torn = false := (Machine.torn_rooted _).trans ht
    have hend : ∀ {m₁ o m'}, r m.recoveryEntered m₁ →
        ((endRecovery m.rootId m.tokenTaken.markFound m.thread.recovering).run m₁).Leaves o m' →
          r m m' := by
      intro m₁ o m' h₁ h
      have ht₁ : m₁.thread.torn = false := (P.steady h₁).torn.trans htorn
      rw [run_endRecovery, ht₁] at h
      cases h
      exact P.recovery ht h₁
    obtain ⟨_, m₁, hx, h⟩ | ⟨t, m₁, hx, h, _⟩ := leaves_onExit.1 h
    · exact hend (P.obeys_settle _ hb _ _ _ (leaves_of_returned hx)) h
    · exact hend (P.obeys_settle _ hb _ _ _ (leaves_of_unwound hx)) h

/-! ## What goes by the execution of blocks -/

section Blocks

variable (HB : ∀ b, Obeys (.ofRel r) (exec (.block b)))
include HB

omit P in
theorem obeys_startCleanup (c : Cleanup)
    (h : ((startCleanup exec c).run m).Leaves o m') : r (m.starting c) m' := by
  rw [run_startCleanup] at h
  exact HB _ _ _ _ h

theorem obeys_defer (a : Option String) (b : Block) : Obeys (.ofRel r) (defer exec a b) := by
  intro m o m' h
  rw [run_defer] at h
  dsimp only at h
  show r m m'
  split at h
  · rename_i ht
    exact P.trans (P.registeredLate m ⟨_, a, b⟩ ht rfl) (obeys_startCleanup HB _ h)
  · rename_i ht
    split at h
    · rename_i s hs
      cases h
      exact P.registered m ⟨_, a, b⟩ s (by simpa using ht) rfl hs
    · cases h

theorem obeys_intercept (b : Block) : Obeys (.ofRel r) (intercept exec b) := by
  have := P.toComposes
  refine (HB b).catchUnwind.bind fun res => ?_
  cases res with
  | ok _ => exact .modify fun m => P.intercepted m _
  | error t => exact .modify fun m => P.intercepted m _

theorem grows_startAll : ∀ cs, Obeys (.ofRel Grows) (startAll exec cs) :=
  Effect.obeys_startAll fun c m _ _ h =>
    (Grows.starting c m).trans (P.steady (obeys_startCleanup HB c h)).toGrows

/-- Of a thread that was started and has ended, only what it noted is left. -/
theorem obeys_inThread {body : Effect α} (hb : Obeys (.ofRel r) body) :
    Obeys (.ofRel r) (inThread exec body) := by
  intro m o m' h
  obtain rfl := leaves_inThread exec h
  obtain ⟨res, h⟩ := returned_of_leaves h
  obtain ⟨m₁, m₂, hx, ht, rfl⟩ := (inThread_eq_returned exec).1 h
  have hbody : Grows m.threadStarted m₁ := by
    obtain ⟨a, hx, _⟩ | ⟨t, hx, _⟩ := run_catchUnwind_eq_returned.1 hx
    · exact (P.steady (hb _ _ _ (leaves_of_returned hx))).toGrows
    · exact (P.steady (hb _ _ _ (leaves_of_unwound hx))).toGrows
  have htear := (leaves_teardown exec (leaves_of_returned ht)).2
  have hstart : Grows m₁.tornDown m₂ :=
    P.grows_startAll HB _ _ _ _ (leaves_of_returned htear)
  exact P.thread ((hbody.trans (Grows.tornDown m₁)).trans hstart)

end Blocks

/-! ## What goes by the dropping of guards -/

section Guards

variable (HL : ∀ id, Obeys (.ofRel r) (leaveFrame exec id))
include HL

theorem obeys_dropGuards : ∀ n, Obeys (.ofRel r) (dropGuards exec n)
  | 0 => by
    have := P.toComposes
    exact .pure ()
  | n + 1 => by
    have := P.toComposes
    intro m o m' h
    rw [run_dropGuards_succ] at h
    show r m m'
    split at h
    · rename_i g own outer hh
      refine P.trans (P.dropped m g own outer hh) ?_
      exact ((HL _).onExit (obeys_dropGuards n)) _ _ _ h
    · cases h; exact P.refl m

theorem of_leaves_leaveBlock (h : ((leaveBlock exec).run m).Leaves o m') :
    ∃ m₂, r m m₂ ∧ m' = m₂.withHeld m₂.thread.held.tail := by
  rw [run_leaveBlock] at h
  obtain ⟨_, m₂, hd, h⟩ | ⟨t, m₂, hd, h, _⟩ := leaves_onExit.1 h
  · cases h; exact ⟨m₂, P.obeys_dropGuards HL _ _ _ _ (leaves_of_returned hd), rfl⟩
  · cases h; exact ⟨m₂, P.obeys_dropGuards HL _ _ _ _ (leaves_of_unwound hd), rfl⟩

/-- A block is left with the guards of the blocks around it. -/
theorem obeys_asBlock {body : Effect Unit} (hb : Obeys (.ofRel r) body) :
    Obeys (.ofRel r) (asBlock exec body) := by
  intro m o m' h
  rw [run_asBlock] at h
  obtain ⟨_, m₁, hx, h⟩ | ⟨t, m₁, hx, h, _⟩ := leaves_onExit.1 h
  · obtain ⟨m₂, h₂, rfl⟩ := P.of_leaves_leaveBlock HL h
    exact P.block (P.trans (hb _ _ _ (leaves_of_returned hx)) h₂)
  · obtain ⟨m₂, h₂, rfl⟩ := P.of_leaves_leaveBlock HL h
    exact P.block (P.trans (hb _ _ _ (leaves_of_unwound hx)) h₂)

theorem obeys_scope {body : Effect α} (hb : Obeys (.ofRel r) body) :
    Obeys (.ofRel r) (scope exec body) := by
  have := P.toComposes
  intro m o m' h
  obtain h | ⟨ht, h⟩ := leaves_of_torn (P.refl m) (run_scope exec m _) h
  · exact h
  · have hopen : r m (m.opened.note (.log (.enteredFrame m.thread.frames.nextId))) :=
      P.trans (P.opened m ht) (P.enteredFrame _ _)
    exact P.trans hopen ((hb.onExit (HL _)) _ _ _ h)

end Guards

/-- A relation that single steps keep is kept by every statement, if it is kept by blocks, by the
walk of a panic, by the dropping of a guard and by a session. -/
theorem governs (HB : ∀ b, Obeys (.ofRel r) (exec (.block b)))
    (HL : ∀ id, Obeys (.ofRel r) (leaveFrame exec id))
    (HW : ∀ code, Obeys (.ofRel r) (exec (.walk code)))
    (HS : ∀ status b, Obeys (.ofRel r) (runBody exec (threadBody exec status b))) :
    Governs (.ofRel r) exec := by
  have := P.toComposes
  have haside : ∀ {f : Machine → Machine}, (∀ m, Aside m (f m)) →
      Obeys (.ofRel r) (Effect.modify f) := fun hf => .modify fun m => P.aside (hf m)
  have hthread : ∀ {f : Thread → Thread}, (∀ m : Machine, Aside m { m with thread := f m.thread }) →
      Obeys (.ofRel r) (modifyThread f) := fun hf => haside hf
  constructor
  case toComposable => infer_instance
  case unwind => exact fun _ m => P.refl m
  case note => exact fun e he m => P.aside (.note he.isPlain m)
  case setCurrent => exact fun e => hthread fun _ => .ofThread rfl rfl rfl rfl rfl
  case declared => exact fun m => P.aside (.ofThread rfl rfl rfl rfl rfl)
  case blocked => exact fun _ m => P.aside (.ofThread rfl rfl rfl rfl rfl)
  case settings => exact fun f hf => haside (Aside.settings hf)
  case protect =>
    intro α body hb
    refine .bind (.bind .machine fun _ => .pure _) fun link => ?_
    refine .bind (hthread fun _ => .ofThread rfl rfl rfl rfl rfl) fun _ => ?_
    refine .bind (P.obeys_note trivial) fun _ => (hb link).onExit ?_
    exact .bind (hthread fun _ => .ofThread rfl rfl rfl rfl rfl) fun _ =>
      P.obeys_note trivial
  case capture => exact fun x hx => hx.capture
  case hookEnded => exact fun x kind _ hx => hx.onExit (P.obeys_note trivial)
  case sendOff =>
    exact fun hu m _ _ h =>
      h.keeps (P.acrossThrowHook m) HB (fun _ => P.noted (by exact trivial) m) hu
  case root => exact P.obeys_root
  case block => exact HB
  case walk => exact HW
  case leaveFrame => exact HL
  case scope => exact fun b => P.obeys_scope HL (HB b)
  case defer => exact P.obeys_defer HB
  case enter => exact P.obeys_enter
  case release => exact P.obeys_release
  case recover => exact fun b => P.obeys_recover (HB b)
  case session => exact HS
  case thread => exact fun status b => P.obeys_inThread HB (HS status b)
  case plainThread => exact fun b => P.obeys_inThread HB (HB b)
  case intercept => exact P.obeys_intercept HB

/-! ## Sessions -/

theorem sessionEntered (ht : m.thread.torn = false) : r m m.sessionEntered := by
  have hdeclared : r m m.declared := P.aside (.ofThread rfl rfl rfl rfl rfl)
  have hthread : r m m.threadDeclared := by
    unfold Machine.threadDeclared
    split
    · exact hdeclared
    · exact P.trans hdeclared (P.rooted ht)
  have htorn : m.threadDeclared.thread.torn = false := (P.steady hthread).torn.trans ht
  unfold Machine.sessionEntered
  split
  · exact P.trans hthread (P.opened _ htorn)
  · exact hthread

theorem obeys_closeSession (owner : Bool) : Obeys (.ofRel r) (closeSession owner) := by
  have := P.toComposes
  unfold closeSession
  split
  · exact .modify fun m => P.aside (.ofThread rfl rfl rfl rfl rfl)
  · exact .pure _

theorem obeys_statusOf (res : Except Transfer Int32) : Obeys (.ofRel r) (statusOf res) := by
  have := P.toComposes
  unfold statusOf
  split
  · exact .pure _
  · exact .pure _
  · exact .unwind _

theorem obeys_threadBody (status : Int32) {b : Block} (hb : Obeys (.ofRel r) (exec (.block b))) :
    Obeys (.ofRel r) (threadBody exec status b) := by
  have := P.toComposes
  exact hb.bind fun _ => .pure _

end

end Primitives

/-! ## Runs -/

namespace ClosingPrimitives

variable {r : Machine → Machine → Prop} {exec : Executor} (P : ClosingPrimitives r)
  (H : ∀ j, Obeys (.ofRel r) (exec j))
include P H

theorem obeys_closeStep (id : Nat) : Obeys (.ofRel r) (closeStep exec id) := by
  intro m o m' h
  obtain h | ⟨ht, h⟩ := Primitives.leaves_of_torn (P.refl m) (run_closeStep exec m id) h
  · exact h
  · show r m m'
    cases hf : Frame.find? id m.thread.frames.frames with
    | none => rw [hf] at h; cases h; exact P.refl m
    | some f =>
      rw [hf] at h
      dsimp only at h
      cases hp : f.pending with
      | nil => rw [hp] at h; cases h; exact P.closed m id f ht hf hp
      | cons c rest =>
        rw [hp] at h
        have hs := P.started m id f c rest ht hf hp
        obtain ⟨_, m₁, hc, h⟩ | ⟨t, hc, _⟩ := leaves_bind.1 h
        · have hc' := Primitives.obeys_startCleanup (fun b => H (.block b)) c
            (leaves_of_returned hc)
          exact P.trans hs (P.trans hc' (H _ _ _ _ h))
        · have hc' := Primitives.obeys_startCleanup (fun b => H (.block b)) c (leaves_of_unwound hc)
          exact P.trans hs hc'

theorem obeys_closeAboveStep (base : Option Nat) : Obeys (.ofRel r) (closeAboveStep exec base) := by
  have := P.toComposes
  intro m o m' h
  obtain h | ⟨ht, h⟩ := Primitives.leaves_of_torn (P.refl m) (run_closeAboveStep exec m base) h
  · exact h
  · split at h
    · cases h; exact P.refl m
    · split at h
      · cases h; exact P.refl m
      · exact ((H _).bind fun _ => H _) _ _ _ h

theorem obeys_leaveFrame (id : Nat) : Obeys (.ofRel r) (leaveFrame exec id) := by
  intro m o m' h
  rw [run_leaveFrame] at h
  exact P.trans (P.leftFrame m id) (H _ _ _ _ h)

theorem obeys_runBody {body : Effect Int32} (hb : Obeys (.ofRel r) body) :
    Obeys (.ofRel r) (runBody exec body) := by
  have := P.toComposes
  intro m o m' h
  obtain h | ⟨ht, h⟩ := Primitives.leaves_of_torn (P.refl m) (run_runBody exec m body) h
  · exact h
  · refine P.trans (P.sessionEntered ht) ?_
    refine (hb.catchUnwind.bind fun res => (H _).bind fun _ => ?_) _ _ _ h
    exact (P.obeys_closeSession _).bind fun _ => P.obeys_statusOf res

theorem governs_of_jobs : Governs (.ofRel r) exec :=
  P.governs (fun b => H (.block b)) (P.obeys_leaveFrame H) (fun code => H (.walk code))
    fun status b => P.obeys_runBody H (P.obeys_threadBody status (H (.block b)))

/-- A step of a job keeps the relation if a panic that passes does. -/
theorem obeys_step (hw : ∀ code, Obeys (.ofRel r) (walkStep exec code)) (j : Job) :
    Obeys (.ofRel r) (j.step exec) := by
  cases j with
  | block b => exact P.obeys_asBlock (P.obeys_leaveFrame H) ((P.governs_of_jobs H).performAll b)
  | close id => exact P.obeys_closeStep H id
  | closeAbove base => exact P.obeys_closeAboveStep H base
  | walk code => exact hw code

end ClosingPrimitives

namespace AllPrimitives

variable {r : Machine → Machine → Prop} {exec : Executor} (P : AllPrimitives r)
include P

theorem obeys_walkStep (H : ∀ j, Obeys (.ofRel r) (exec j)) (code : ErrorCode) :
    Obeys (.ofRel r) (walkStep exec code) := by
  have := P.toComposes
  intro m o m' h
  obtain h | ⟨ht, h⟩ := Primitives.leaves_of_torn (P.refl m) (run_walkStep exec m code) h
  · exact h
  · split at h
    · cases h; exact P.refl m
    · split at h
      · cases h; exact P.refl m
      · exact P.trans (P.passed m _) (((H _).bind fun _ => H _) _ _ _ h)

/-- Every run keeps the relation. -/
theorem obeys : ∀ n j, Obeys (.ofRel r) (Job.run n j)
  | 0, _ => .halt
  | n + 1, j => P.obeys_step (obeys n) (P.obeys_walkStep (obeys n)) j

end AllPrimitives

/-! ## What a run never changes -/

namespace Steady

variable {m m' m₁ : Machine}

theorem refl (m : Machine) : Steady m m := Composes.refl m

theorem trans (h : Steady m m₁) (h' : Steady m₁ m') : Steady m m' := Composes.trans h h'

theorem note (e : Entry) (m : Machine) : Steady m (m.note e) := ⟨.note e m, rfl⟩

theorem starting (c : Cleanup) (m : Machine) : Steady m (m.starting c) := by
  unfold Machine.starting
  split
  · exact (note _ _).trans (note _ _)
  · exact note _ _

theorem withHeld (h : List (List Guard)) (m : Machine) : Steady m (m.withHeld h) :=
  ⟨⟨rfl, Nat.le_refl _, Nat.le_refl _, Nat.le_refl _, Nat.le_refl _, [], rfl, by simp⟩, rfl⟩

theorem withRecovering (rs : List Recovery) (m : Machine) : Steady m (m.withRecovering rs) :=
  ⟨⟨rfl, Nat.le_refl _, Nat.le_refl _, Nat.le_refl _, Nat.le_refl _, [], rfl, by simp⟩, rfl⟩

theorem withFrames {s : FrameStack Cleanup} (hs : m.thread.frames.nextId ≤ s.nextId) :
    Steady m (m.withFrames s) :=
  ⟨⟨rfl, hs, Nat.le_refl _, Nat.le_refl _, Nat.le_refl _, [], rfl, by simp⟩, rfl⟩

theorem opened (m : Machine) : Steady m m.opened :=
  (withFrames (Nat.le_succ _)).trans (note _ _)

theorem rooted (m : Machine) : Steady m m.rooted := by
  unfold Machine.rooted
  split
  · exact opened m
  · exact refl m

theorem closed (id : Nat) (m : Machine) : Steady m (m.closed id) := by
  have herase : Steady m (m.withFrames
      { m.thread.frames with frames := Frame.erase id m.thread.frames.frames }) :=
    withFrames (Nat.le_refl _)
  exact herase.trans (note _ _)

theorem withPending (id : Nat) (cs : List Cleanup) (m : Machine) : Steady m (m.withPending id cs) :=
  withFrames (Nat.le_refl _)

theorem withMark (id : Nat) (mark : Option Nat) (m : Machine) : Steady m (m.withMark id mark) :=
  withFrames (Nat.le_refl _)

theorem tokenTaken (m : Machine) : Steady m m.tokenTaken :=
  ⟨⟨rfl, Nat.le_refl _, Nat.le_succ _, Nat.le_refl _, Nat.le_refl _, [], rfl, by simp⟩, rfl⟩

theorem serialTaken (m : Machine) : Steady m m.serialTaken :=
  ⟨⟨rfl, Nat.le_refl _, Nat.le_refl _, Nat.le_succ _, Nat.le_refl _, [], rfl, by simp⟩, rfl⟩

theorem recoveryEntered (m : Machine) : Steady m m.recoveryEntered :=
  (((tokenTaken m).trans (rooted _)).trans (withMark _ _ _)).trans (withRecovering _ _)

theorem add {c : Cleanup} {s : FrameStack Cleanup} (h : m.thread.frames.add? c = some s) :
    Steady m (m.withFrames s) := by
  refine withFrames ?_
  unfold FrameStack.add? at h
  split at h
  · cases h
  · split at h
    · cases h; exact Nat.le_refl _
    · cases h

/-- The state of the thread that waits is put back. -/
theorem ofThread (h : Grows m.threadStarted m') : Steady m { m' with thread := m.thread } := by
  have hadds := h.adds.ofThread
  exact ⟨⟨rfl, Nat.le_refl _, h.nextToken, h.nextSerial, hadds.nextThread, hadds.journal⟩, rfl⟩

theorem primitives : AllPrimitives Steady where
  toComposes := inferInstance
  steady h := h
  aside h := h.steady
  enteredFrame m _ := note _ m
  leftFrame m _ := note _ m
  passed m _ := note _ m
  intercepted m _ := note _ m
  opened m _ := opened m
  closed m id _ _ _ _ := closed id m
  started m id _ c rest _ _ _ := (withPending id rest m).trans (starting c _)
  registered m _ _ _ _ hs := (((serialTaken m).trans (rooted _)).trans (add hs)).trans (note _ _)
  registeredLate m c _ _ := ((serialTaken m).trans (note _ _)).trans (starting c _)
  tokenTaken := tokenTaken
  block h := ((withHeld _ _).trans h).trans (withHeld _ _)
  dropped m _ _ _ _ := withHeld _ m
  entered m _ _ := ((opened m).trans (note _ _)).trans (withHeld _ _)
  released m _ _ _ _ := withHeld _ m
  recovery _ h := (((recoveryEntered _).trans h).trans (withMark _ _ _)).trans (withRecovering _ _)
  thread h := ofThread h

end Steady

/-- Whatever is run on a thread and left again, the thread is the same, its storage is torn down
neither more nor less, counters have only grown, and the journal was only added to. -/
theorem steady_of_leaves {n : Nat} {j : Job} {m m' : Machine} {o : Option Transfer}
    (h : ((Job.run n j).run m).Leaves o m') : Steady m m' := Steady.primitives.obeys n j m o m' h

end NonlocalExit
