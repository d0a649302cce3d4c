import Mathlib.Data.List.Sort
import NonlocalExit.Proofs.PanicEnds
import NonlocalExit.Proofs.Stopping

/-!
# How frames are numbered

Frames are taken out of the middle of a stack, and cleanups open new ones while others are closed,
yet the closing down to a base stops at the first frame that is not above it.  That is right because
of what the numbers are: `Machine.Numbered` says that they are given in turn, and that the frames
that are open are those that were opened and not closed.

`frames_numbered_in_turn`: so it is wherever a program comes to.  Hence when the closing down to a
base has returned, the frames that are open are those from before that are not above the base, but
for frames that one of its cleanups has closed.
-/

namespace NonlocalExit

open Effect Machine

section

variable [Declarations]

/-! ## Frames that were opened and closed -/

namespace Step

/-- The frame that a step opens. -/
def opened? : Step → Option Nat
  | .frameOpened id => some id
  | _ => none

/-- The frame that a step closes. -/
def closed? : Step → Option Nat
  | .frameClosed id => some id
  | _ => none

end Step

/-- The frames that were opened, latest first. -/
def openedIn (L : List Step) : List Nat := L.filterMap Step.opened?

/-- The frames that were closed, latest first. -/
def closedIn (L : List Step) : List Nat := L.filterMap Step.closed?

theorem openedIn_append (L L' : List Step) : openedIn (L ++ L') = openedIn L ++ openedIn L' :=
  List.filterMap_append

theorem closedIn_append (L L' : List Step) : closedIn (L ++ L') = closedIn L ++ closedIn L' :=
  List.filterMap_append

theorem mem_closedIn {L : List Step} {id : Nat} : id ∈ closedIn L ↔ .frameClosed id ∈ L := by
  simp only [closedIn, List.mem_filterMap]
  constructor
  · rintro ⟨x, hx, hid⟩
    cases x <;> simp [Step.closed?] at hid
    exact hid ▸ hx
  · exact fun h => ⟨_, h, rfl⟩

/-- Whether a line says nothing of frames that are opened or closed. -/
def Entry.KeepsFrames (e : Entry) : Prop := ∀ x ∈ e.step?, x.opened? = none ∧ x.closed? = none

theorem Entry.IsPlain.keepsFrames {e : Entry} (h : e.IsPlain) : e.KeepsFrames := by
  intro x hx
  cases e with
  | step y =>
    obtain rfl := Option.some.inj hx
    cases y with
    | frameOpened => exact h.elim
    | frameClosed => exact h.elim
    | _ => exact ⟨rfl, rfl⟩
  | _ => cases hx

theorem openedIn_eq_nil {es : List Entry} (h : ∀ e ∈ es, e.KeepsFrames) :
    openedIn (stepsIn es) = [] := by
  refine List.filterMap_eq_nil_iff.2 fun x hx => ?_
  exact (h _ (mem_stepsIn.1 hx) x rfl).1

theorem closedIn_eq_nil {es : List Entry} (h : ∀ e ∈ es, e.KeepsFrames) :
    closedIn (stepsIn es) = [] := by
  refine List.filterMap_eq_nil_iff.2 fun x hx => ?_
  exact (h _ (mem_stepsIn.1 hx) x rfl).2

/-! ## Numbers in turn -/

namespace Machine

theorem Orderly.descending_openIds {m : Machine} (h : m.Orderly) : m.openIds.Pairwise (· > ·) :=
  List.pairwise_map.2 h.frames.descending

/-- The steps of the current thread, latest first. -/
def steps (m : Machine) : List Step := stepsOf m.thread.number m.shared.journal

/-- Whether the frames of the current thread were numbered in turn. -/
structure Numbered (m : Machine) : Prop where
  orderly : m.Orderly
  /-- Each number below the next one was given once. -/
  given : openedIn m.steps = (List.range m.thread.frames.nextId).reverse
  used : ∀ id ∈ closedIn m.steps, id < m.thread.frames.nextId
  /-- The frames that are open were opened and have not been closed. -/
  remaining : m.thread.torn = false →
    ∀ id, id ∈ m.openIds ↔ id ∈ openedIn m.steps ∧ id ∉ closedIn m.steps

variable {m m₁ m' : Machine}

/-- What a thread notes comes before what it has noted. -/
theorem steps_of_adds (h : Adds m m') : m'.steps = stepsIn (m.deeds m') ++ m.steps := by
  obtain ⟨new, hj, _⟩ := h.journal
  unfold steps
  rw [h.number, deeds_of_journal _ hj, stepsIn_entriesOf, hj, stepsOf_append]

namespace Numbered

/-- A frame has been opened exactly if its number is below the next one. -/
theorem mem_openedIn (h : m.Numbered) {id : Nat} :
    id ∈ openedIn m.steps ↔ id < m.thread.frames.nextId := by
  rw [h.given, List.mem_reverse, List.mem_range]

theorem kept (h : m.Numbered) (ht : Tidy m m') (hd : ∀ e ∈ m.deeds m', e.KeepsFrames)
    (hi : m'.openIds = m.openIds) (hn : m'.thread.frames.nextId = m.thread.frames.nextId) :
    m'.Numbered := by
  have hsteps := steps_of_adds ht.toGrows.adds
  have hopened : openedIn m'.steps = openedIn m.steps := by
    rw [hsteps, openedIn_append, openedIn_eq_nil hd, List.nil_append]
  have hclosed : closedIn m'.steps = closedIn m.steps := by
    rw [hsteps, closedIn_append, closedIn_eq_nil hd, List.nil_append]
  refine ⟨ht.orderly h.orderly, ?_, ?_, fun htorn => ?_⟩
  · rw [hopened, hn, h.given]
  · rw [hclosed, hn]
    exact h.used
  · rw [hopened, hclosed, hi]
    exact h.remaining (ht.torn.symm.trans htorn)

/-- A frame is opened under the next number. -/
theorem opened (h : m.Numbered) : m.opened.Numbered := by
  have hsteps : m.opened.steps = .frameOpened m.thread.frames.nextId :: m.steps := by
    rw [steps_of_adds (Tidy.opened m).toGrows.adds, deeds_opened]
    rfl
  have hopened : openedIn m.opened.steps = m.thread.frames.nextId :: openedIn m.steps := by
    rw [hsteps]
    rfl
  have hclosed : closedIn m.opened.steps = closedIn m.steps := by
    rw [hsteps]
    rfl
  have hnext : m.opened.thread.frames.nextId = m.thread.frames.nextId + 1 := rfl
  have hids : m.opened.openIds = m.thread.frames.nextId :: m.openIds := rfl
  refine ⟨h.orderly.opened, ?_, fun id hid => ?_, fun htorn id => ?_⟩
  · rw [hopened, h.given, hnext, List.range_succ, List.reverse_append]
    rfl
  · rw [hclosed] at hid
    exact Nat.lt_succ_of_lt (h.used id hid)
  · -- The new number has not been used before, not even by a frame that was closed.
    have hfresh : m.thread.frames.nextId ∉ closedIn m.steps := fun hc =>
      Nat.lt_irrefl _ (h.used _ hc)
    rw [hids, hopened, hclosed, List.mem_cons, List.mem_cons, h.remaining htorn]
    constructor
    · rintro (rfl | ⟨hid, hnot⟩)
      · exact ⟨.inl rfl, hfresh⟩
      · exact ⟨.inr hid, hnot⟩
    · rintro ⟨rfl | hid, hnot⟩
      · exact .inl rfl
      · exact .inr ⟨hid, hnot⟩

theorem closed (h : m.Numbered) {id : Nat} (hid : id ∈ m.openIds) : (m.closed id).Numbered := by
  have hsteps : (m.closed id).steps = .frameClosed id :: m.steps := by
    rw [steps_of_adds (Tidy.closed id m).toGrows.adds, deeds_closed]
    rfl
  have hopened : openedIn (m.closed id).steps = openedIn m.steps := by
    rw [hsteps]
    rfl
  have hclosed : closedIn (m.closed id).steps = id :: closedIn m.steps := by
    rw [hsteps]
    rfl
  have hids : (m.closed id).openIds = m.openIds.erase id := Frame.map_id_erase _
  have hnodup : m.openIds.Nodup := h.orderly.descending_openIds.imp Nat.ne_of_gt
  refine ⟨h.orderly.closed id, ?_, fun i hi => ?_, fun htorn i => ?_⟩
  · rw [hopened, h.given]
    rfl
  · rw [hclosed] at hi
    obtain rfl | hi := List.mem_cons.1 hi
    · obtain ⟨f, hf, rfl⟩ := List.mem_map.1 hid
      exact h.orderly.frames.fresh f hf
    · exact h.used i hi
  · rw [hids, hopened, hclosed, hnodup.mem_erase_iff, h.remaining htorn, List.mem_cons, not_or]
    exact and_left_comm

theorem tornDown (h : m.Numbered) : m.tornDown.Numbered :=
  ⟨h.orderly.tornDown, h.given, h.used, fun ht => nomatch ht⟩

/-- A thread that starts has no frames, and nothing has been noted under its number. -/
theorem threadStarted (h : m.KnowsThreads) : m.threadStarted.Numbered := by
  have hnone : m.threadStarted.steps = [] :=
    stepsOf_eq_nil fun l hl he => Nat.lt_irrefl _ (he ▸ h.lines l hl)
  refine ⟨.threadStarted m, ?_, ?_, fun _ id => ?_⟩
  · rw [hnone]
    rfl
  · rw [hnone]
    exact List.forall_mem_nil _
  · rw [hnone]
    exact iff_of_false List.not_mem_nil fun hid => List.not_mem_nil hid.1

theorem fresh (w : Surroundings) : (Machine.fresh w).Numbered :=
  ⟨⟨.empty, Nat.zero_lt_one⟩, rfl, List.forall_mem_nil _,
    fun _ _ => iff_of_false List.not_mem_nil fun hid => List.not_mem_nil hid.1⟩

end Numbered

/-- What every run keeps, with the numbering of the frames. -/
structure Numbers (m m' : Machine) : Prop extends Tidy m m' where
  numbered : m.Numbered → m'.Numbered

namespace Numbers

theorem of_quiet (ht : Tidy m m') (hd : ∀ e ∈ m.deeds m', e.KeepsFrames)
    (hi : m'.openIds = m.openIds) (hn : m'.thread.frames.nextId = m.thread.frames.nextId) :
    Numbers m m' := ⟨ht, fun h => h.kept ht hd hi hn⟩

theorem of_journal_eq (ht : Tidy m m') (hj : m'.shared.journal = m.shared.journal)
    (hi : m'.openIds = m.openIds) (hn : m'.thread.frames.nextId = m.thread.frames.nextId) :
    Numbers m m' := by
  refine of_quiet ht ?_ hi hn
  rw [deeds_of_journal_eq hj]
  exact List.forall_mem_nil _

theorem refl (m : Machine) : Numbers m m := ⟨.refl m, id⟩

theorem trans (h : Numbers m m₁) (h' : Numbers m₁ m') : Numbers m m' :=
  ⟨h.toTidy.trans h'.toTidy, fun hm => h'.numbered (h.numbered hm)⟩

instance : Composes Numbers where
  refl := refl
  trans := trans

theorem note {e : Entry} (he : e.KeepsFrames) (m : Machine) : Numbers m (m.note e) := by
  refine of_quiet (.note e m) ?_ rfl rfl
  rw [deeds_note]
  exact List.forall_mem_singleton.2 he

theorem step {x : Step} (ho : x.opened? = none) (hc : x.closed? = none) (m : Machine) :
    Numbers m (m.note (.step x)) :=
  note (fun y hy => by obtain rfl := Option.some.inj hy; exact ⟨ho, hc⟩) m

theorem log (r : LogRecord) (m : Machine) : Numbers m (m.note (.log r)) :=
  note (fun x hx => by cases hx) m

theorem report (e : Event) (m : Machine) : Numbers m (m.note (.event e)) :=
  note (fun x hx => by cases hx) m

theorem withHeld (held : List (List Guard)) (m : Machine) : Numbers m (m.withHeld held) :=
  of_journal_eq (.withHeld held m) rfl rfl rfl

theorem withRecovering (rs : List Recovery) (m : Machine) : Numbers m (m.withRecovering rs) :=
  of_journal_eq (.withRecovering rs m) rfl rfl rfl

theorem withMark (id : Nat) (mark : Option Nat) (m : Machine) : Numbers m (m.withMark id mark) :=
  of_journal_eq (.withMark id mark m) rfl (map_id_withMark mark) rfl

theorem withPending (id : Nat) (cs : List Cleanup) (m : Machine) :
    Numbers m (m.withPending id cs) :=
  of_journal_eq (.withPending id cs m) rfl (map_id_withPending cs) rfl

theorem tokenTaken (m : Machine) : Numbers m m.tokenTaken :=
  of_journal_eq (.tokenTaken m) rfl rfl rfl

theorem serialTaken (m : Machine) : Numbers m m.serialTaken :=
  of_journal_eq (.serialTaken m) rfl rfl rfl

theorem add {c : Cleanup} {s : FrameStack Cleanup} (hs : m.thread.frames.add? c = some s) :
    Numbers m (m.withFrames s) := by
  have ht : Tidy m (m.withFrames s) := .add hs
  obtain ⟨f, fs, hf, _, rfl⟩ := FrameStack.add?_eq_some.1 hs
  refine of_journal_eq ht rfl ?_ rfl
  unfold Machine.openIds
  rw [hf]
  rfl

theorem starting (c : Cleanup) (m : Machine) : Numbers m (m.starting c) := by
  unfold Machine.starting
  split
  · exact (step rfl rfl m).trans (report _ _)
  · exact step rfl rfl m

theorem opened (m : Machine) : Numbers m m.opened := ⟨.opened m, (·.opened)⟩

theorem rooted (m : Machine) : Numbers m m.rooted := by
  unfold Machine.rooted
  split
  · exact opened m
  · exact refl m

theorem closed {id : Nat} (hid : id ∈ m.openIds) : Numbers m (m.closed id) :=
  ⟨.closed id m, (·.closed hid)⟩

theorem aside (h : Aside m m') : Numbers m m' := by
  refine of_quiet (.aside h) (fun e he => (deeds_of_aside h e he).keepsFrames) ?_ ?_
  · unfold Machine.openIds
    rw [h.frames]
  · rw [h.frames]

/-- Other threads number frames of their own. -/
theorem ofThread (h : Grows m.threadStarted m') : Numbers m { m' with thread := m.thread } := by
  refine ⟨.ofThread h, fun hm => hm.kept (.ofThread h) ?_ rfl rfl⟩
  rw [deeds_ofThread hm.orderly.number h.adds]
  exact List.forall_mem_nil _

theorem recoveryEntered (m : Machine) : Numbers m m.recoveryEntered :=
  (((tokenTaken m).trans (rooted _)).trans (withMark _ _ _)).trans (withRecovering _ _)

theorem primitives : AllPrimitives Numbers where
  toComposes := inferInstance
  steady h := h.toSteady
  aside := aside
  enteredFrame m _ := log _ m
  leftFrame m _ := log _ m
  passed m _ := step rfl rfl m
  intercepted m _ := report _ m
  opened m _ := opened m
  closed _ _ f _ hf _ := closed (List.mem_map.2 ⟨f, Frame.mem_of_find? hf, Frame.id_of_find? hf⟩)
  started m id _ c rest _ _ _ := (withPending id rest m).trans (starting c _)
  registered m _ _ _ _ hs :=
    (((serialTaken m).trans (rooted _)).trans (add hs)).trans (step rfl rfl _)
  registeredLate m c _ _ := ((serialTaken m).trans (step rfl rfl _)).trans (starting c _)
  tokenTaken := tokenTaken
  block h := ((withHeld _ _).trans h).trans (withHeld _ _)
  dropped m _ _ _ _ := withHeld _ m
  entered m _ _ := ((opened m).trans (log _ _)).trans (withHeld _ _)
  released m _ _ _ _ := withHeld _ m
  recovery _ h := (((recoveryEntered _).trans h).trans (withMark _ _ _)).trans (withRecovering _ _)
  thread := ofThread

end Numbers

end Machine

/-- Whether all threads that have written are known, and the frames of the current one were numbered
in turn. -/
structure Machine.InTurn (m : Machine) : Prop where
  threads : m.KnowsThreads
  frames : m.Numbered

/-! ## Along the calls -/

section

variable {w : Surroundings} {n : Nat} {p : Program} {a b : Activation} {l : Label} {m m' : Machine}
  {o : Option Transfer}

theorem numbers_of_enters (e : Enters a l b) : a.machine.Numbers b.machine := by
  obtain ⟨m, ho, hm⟩ := Numbers.primitives.visits e
  refine Numbers.trans ?_ hm
  cases ho with
  | same => exact .refl _
  | block => exact .withHeld _ _
  | recover => exact .recoveryEntered _

theorem StartedAtEnd.numbers {fs : List (Frame Cleanup)} {c : Cleanup}
    (h : StartedAtEnd (Job.run n) fs m c m') : m.Numbers (m'.starting c) :=
  h.obeys Numbers.starting (Numbers.primitives.obeys n)

theorem inTurn_of_leaves (h : a.run.Leaves o m) (ha : a.machine.InTurn) : m.InTurn :=
  ⟨(Spawns.oblivious.obeys_run h).known ha.threads,
    (Numbers.primitives.obeys_run h).numbered ha.frames⟩

theorem StartedAtEnd.inTurn {fs : List (Frame Cleanup)} {c : Cleanup}
    (h : StartedAtEnd (Job.run n) fs m.tornDown c m') (hm : m.InTurn) :
    (m'.starting c).InTurn := by
  have htorn : Spawns m m.tornDown := .withThread rfl
  exact ⟨(h.keeps Spawns.oblivious).known (htorn.known hm.threads),
    h.numbers.numbered hm.frames.tornDown⟩

theorem StartsThread.inTurn (h : StartsThread a b) (ha : a.machine.InTurn) : b.machine.InTurn := by
  cases h with
  | plain => exact ⟨ha.threads.threadStarted, .threadStarted ha.threads⟩
  | spawned => exact ⟨ha.threads.threadStarted, .threadStarted ha.threads⟩

theorem Brings.inTurn (h : Brings a b) (ha : a.machine.InTurn) : b.machine.InTurn := by
  cases h with
  | call e =>
    exact ⟨(spawns_of_enters e).known ha.threads, (numbers_of_enters e).numbered ha.frames⟩
  | thread h => exact h.inTurn ha
  | cleanup h =>
    cases h with
    | thread h hl hs => exact hs.inTurn (inTurn_of_leaves hl (h.inTurn ha))
    | process hs => exact hs.inTurn ha

theorem Program.Course.inTurn (h : p.Course w n b) : b.machine.InTurn := by
  have hfirst : (Machine.fresh w).InTurn := ⟨.fresh w, .fresh w⟩
  refine h.keeps hfirst (fun _ hl => ?_) fun _ hb => hb.inTurn
  have hleft := inTurn_of_leaves (a := ⟨n, .job (.block p.body), .fresh w⟩) hl hfirst
  exact ⟨(Spawns.note _ _).known hleft.threads, (Numbers.report _ _).numbered hleft.frames⟩

end

/-- Where a program comes to: to the start of everything that is run in its course, on whatever
thread, and to where that is left. -/
inductive Program.ComesTo (w : Surroundings) (n : Nat) (p : Program) : Machine → Prop
  | start {b} (h : p.Course w n b) : ComesTo w n p b.machine
  | left {b o m} (h : p.Course w n b) (hl : b.run.Leaves o m) : ComesTo w n p m

theorem Program.ComesTo.inTurn {w : Surroundings} {n : Nat} {p : Program} {m : Machine}
    (h : p.ComesTo w n m) :
    m.InTurn := by
  cases h with
  | start h => exact h.inTurn
  | left h hl => exact inTurn_of_leaves hl h.inTurn

/-! ## Closing down to a base -/

namespace StartsCleanup

variable {n id : Nat} {m m₁ : Machine} {d : Activation} {f : Frame Cleanup}

theorem close_iff {c : Cleanup} {cs : List Cleanup} (ht : m.thread.torn = false)
    (hf : Frame.find? id m.thread.frames.frames = some f) (hp : f.pending = c :: cs)
    (hc : (startCleanup (Job.run n) c).run (m.withPending id cs) = ⟨.returned (), m₁⟩) :
    StartsCleanup ⟨n + 1, .job (.close id), m⟩ d ↔
      d = ⟨n, .job (.block c.body), (m.withPending id cs).starting c⟩ ∨
        StartsCleanup ⟨n, .job (.close id), m₁⟩ d := by
  constructor
  · intro h
    refine (h.of_close hf hp).imp_right ?_
    rintro ⟨m₂, hc', hd⟩
    cases hc.symm.trans hc'
    exact hd
  · rintro (rfl | hd)
    · exact .here (.cleanup n ht hf hp)
    · exact .later (.closeNext ht hf hp hc) trivial hd

theorem closeAbove_iff {base : Option Nat} {fs : List (Frame Cleanup)}
    (ht : m.thread.torn = false) (hf : m.thread.frames.frames = f :: fs)
    (hb : ¬base.any (f.id ≤ ·)) (hc : (Job.run n (.close f.id)).run m = ⟨.returned (), m₁⟩) :
    StartsCleanup ⟨n + 1, .job (.closeAbove base), m⟩ d ↔
      StartsCleanup ⟨n, .job (.close f.id), m⟩ d ∨
        StartsCleanup ⟨n, .job (.closeAbove base), m₁⟩ d := by
  constructor
  · intro h
    refine (h.of_closeAbove hf).imp_right ?_
    rintro ⟨m₂, hc', hd⟩
    cases hc.symm.trans hc'
    exact hd
  · rintro (hd | hd)
    · exact .later (.closeInner n ht hf hb) trivial hd
    · exact .later (.closeAboveNext ht hf hb hc) trivial hd

end StartsCleanup

/-- Whether a frame is closed while a piece is run. -/
def Activation.ClosesFrame (a : Activation) (id : Nat) : Prop :=
  ∃ o m, a.run.Leaves o m ∧ .step (.frameClosed id) ∈ a.machine.deeds m

/-- Whether a frame is closed by a cleanup that is started where frames are closed. -/
def Activation.CleanupCloses (a : Activation) (id : Nat) : Prop :=
  ∃ d, StartsCleanup a d ∧ d.ClosesFrame id

section

variable {n id : Nat} {base : Option Nat} {m m' : Machine} {o : Option Transfer}

theorem closesFrame_iff {a : Activation} (h : a.run.Leaves o m) :
    a.ClosesFrame id ↔ .step (.frameClosed id) ∈ a.machine.deeds m := by
  constructor
  · rintro ⟨o', m', hl, hmem⟩
    obtain ⟨-, rfl⟩ := h.unique hl
    exact hmem
  · exact fun hmem => ⟨o, m, h, hmem⟩

theorem cleanupCloses_close_iff {i : Nat} {m₁ : Machine} {f : Frame Cleanup} {c : Cleanup}
    {cs : List Cleanup} (ht : m.thread.torn = false)
    (hf : Frame.find? i m.thread.frames.frames = some f) (hp : f.pending = c :: cs)
    (hc : (startCleanup (Job.run n) c).run (m.withPending i cs) = ⟨.returned (), m₁⟩) :
    Activation.CleanupCloses ⟨n + 1, .job (.close i), m⟩ id ↔
      Activation.ClosesFrame ⟨n, .job (.block c.body), (m.withPending i cs).starting c⟩ id ∨
        Activation.CleanupCloses ⟨n, .job (.close i), m₁⟩ id := by
  simp only [Activation.CleanupCloses, StartsCleanup.close_iff ht hf hp hc, or_and_right,
    exists_or, exists_eq_left]

theorem cleanupCloses_closeAbove_iff {m₁ : Machine} {f : Frame Cleanup}
    {fs : List (Frame Cleanup)} (ht : m.thread.torn = false)
    (hf : m.thread.frames.frames = f :: fs) (hb : ¬base.any (f.id ≤ ·))
    (hc : (Job.run n (.close f.id)).run m = ⟨.returned (), m₁⟩) :
    Activation.CleanupCloses ⟨n + 1, .job (.closeAbove base), m⟩ id ↔
      Activation.CleanupCloses ⟨n, .job (.close f.id), m⟩ id ∨
        Activation.CleanupCloses ⟨n, .job (.closeAbove base), m₁⟩ id := by
  simp only [Activation.CleanupCloses, StartsCleanup.closeAbove_iff ht hf hb hc, or_and_right,
    exists_or]

theorem not_frameClosed_starting {c : Cleanup} :
    .step (.frameClosed id) ∉ m.deeds (m.starting c) := by
  obtain ⟨es, hd, hes⟩ := deeds_starting m c
  rw [hd]
  intro hmem
  obtain hmem | hmem := List.mem_append.1 hmem
  · obtain ⟨_, he⟩ := hes _ hmem
    cases he
  · cases List.mem_singleton.1 hmem

/-- While a frame is closed other frames are closed by its cleanups only. -/
theorem frameClosed_of_close {i : Nat} (hne : id ≠ i)
    (h : (Job.run n (.close i)).run m = ⟨.returned (), m'⟩) :
    .step (.frameClosed id) ∈ m.deeds m' ↔
      Activation.CleanupCloses ⟨n, .job (.close i), m⟩ id := by
  induction n generalizing m with
  | zero => simp [Job.run, Effect.halt] at h
  | succ n ih =>
    have hends : CloseEnds (Job.run n) i m none m' := closeEnds_of_leaves (leaves_of_returned h)
    cases hends with
    | absent ht hf =>
      rw [deeds_of_journal_eq rfl]
      refine iff_of_false List.not_mem_nil ?_
      rintro ⟨d, hd, -⟩
      exact StartsCleanup.not_close_closed (not_mem_openIds_of_find? hf) hd
    | empty ht hf hp =>
      rw [deeds_closed]
      refine iff_of_false (fun hmem => ?_) ?_
      · cases List.mem_singleton.1 hmem
        exact hne rfl
      · rintro ⟨d, hd, -⟩
        exact StartsCleanup.not_close hf hp hd
    | next ht hf hp hc h =>
      rename_i f c cs m₁
      obtain ⟨_, hrest⟩ := returned_of_leaves h
      let d₀ : Activation := ⟨n, .job (.block c.body), (m.withPending i cs).starting c⟩
      have hrun : d₀.run.Leaves none m₁ :=
        leaves_of_returned ((run_startCleanup _ _ _).symm.trans hc)
      have hstart : Adds m d₀.machine :=
        ((Numbers.withPending i cs m).trans (.starting c _)).toGrows.adds
      have hcleanup := (Spawns.oblivious.obeys_run hrun).toAdds
      have hlater := (Spawns.oblivious.obeys n _ _ _ _ h).toAdds
      have hnone : .step (.frameClosed id) ∉ m.deeds d₀.machine :=
        not_frameClosed_starting (m := m.withPending i cs)
      rw [deeds_trans (hstart.trans hcleanup) hlater, deeds_trans hstart hcleanup, List.mem_append,
        List.mem_append, or_iff_left hnone, ih hrest, ← closesFrame_iff hrun,
        cleanupCloses_close_iff ht hf hp hc]
      exact or_comm

/-- While frames are closed down to a base, those that are not above it are closed by cleanups
only. -/
theorem frameClosed_of_closeAbove (ho : m.Orderly) (hid : base.any (id ≤ ·))
    (h : (Job.run n (.closeAbove base)).run m = ⟨.returned (), m'⟩) :
    .step (.frameClosed id) ∈ m.deeds m' ↔
      Activation.CleanupCloses ⟨n, .job (.closeAbove base), m⟩ id := by
  induction n generalizing m with
  | zero => simp [Job.run, Effect.halt] at h
  | succ n ih =>
    have hinnermost := innermost_of_closeAbove (leaves_of_returned h) rfl
    have hends : CloseAboveEnds (Job.run n) base m none m' :=
      closeAboveEnds_of_leaves (leaves_of_returned h)
    cases hends with
    | done ht =>
      rw [deeds_of_journal_eq rfl]
      refine iff_of_false List.not_mem_nil ?_
      rintro ⟨d, hd, -⟩
      exact StartsCleanup.not_closeAbove_closed (le_base_of_innermost ho hinnermost) hd
    | next ht hf hb hc h =>
      rename_i f fs m₁
      obtain ⟨_, hrest⟩ := returned_of_leaves h
      have hne : id ≠ f.id := fun he => hb (he ▸ hid)
      have hfirst := Tidy.primitives.obeys n _ _ _ _ (leaves_of_returned hc)
      have hlater := (Spawns.oblivious.obeys n _ _ _ _ h).toAdds
      rw [deeds_trans hfirst.toGrows.adds hlater, List.mem_append, ih (hfirst.orderly ho) hrest,
        frameClosed_of_close hne hc, cleanupCloses_closeAbove_iff ht hf hb hc]
      exact or_comm

/-- Frames are closed down to a base only while the storage of the thread is there. -/
theorem live_of_closeAbove (h : (Job.run n (.closeAbove base)).run m = ⟨.returned (), m'⟩) :
    m.thread.torn = false := by
  cases n with
  | zero => simp [Job.run, Effect.halt] at h
  | succ n =>
    have hends : CloseAboveEnds (Job.run n) base m none m' :=
      closeAboveEnds_of_leaves (leaves_of_returned h)
    cases hends with
    | done ht => exact ht
    | next ht => exact ht

/-- A frame that is opened meanwhile does not stay open: it is above every base above which there
was something to close. -/
theorem mem_openIds_of_closeAbove (ho : m.Orderly)
    (h : (Job.run n (.closeAbove base)).run m = ⟨.returned (), m'⟩) (hid : id ∈ m'.openIds) :
    id ∈ m.openIds ∧ base.any (id ≤ ·) := by
  have htidy : Tidy m m' := Tidy.primitives.obeys n _ _ _ _ (leaves_of_returned h)
  have hbase := le_base_of_innermost (htidy.orderly ho)
    (innermost_of_closeAbove (leaves_of_returned h) rfl) id hid
  refine ⟨?_, hbase⟩
  cases n with
  | zero => simp [Job.run, Effect.halt] at h
  | succ n =>
    have hends : CloseAboveEnds (Job.run n) base m none m' :=
      closeAboveEnds_of_leaves (leaves_of_returned h)
    cases hends with
    | done => exact hid
    | next ht hf hb hc h =>
      rename_i f fs m₁
      refine (htidy.novel id hid).resolve_right fun hnew => hb ?_
      have hfresh : f.id < m.thread.frames.nextId :=
        ho.frames.fresh f (hf ▸ List.mem_cons_self)
      obtain ⟨b, rfl, hle⟩ := (Option.any_eq_true _ _).1 hbase
      have hle := of_decide_eq_true hle
      exact decide_eq_true (by omega)

/-- When the closing down to a base has returned, a frame is open exactly if it was open before, is
not above the base, and was not closed by a cleanup. -/
theorem mem_openIds_closeAbove (hm : m.Numbered)
    (h : (Job.run n (.closeAbove base)).run m = ⟨.returned (), m'⟩) :
    id ∈ m'.openIds ↔ id ∈ m.openIds ∧ base.any (id ≤ ·) ∧
      ¬Activation.CleanupCloses ⟨n, .job (.closeAbove base), m⟩ id := by
  have hnumbers : Numbers m m' := Numbers.primitives.obeys n _ _ _ _ (leaves_of_returned h)
  have hm' := hnumbers.numbered hm
  have hlive : m.thread.torn = false := live_of_closeAbove h
  have hlive' : m'.thread.torn = false := hnumbers.torn.trans hlive
  have hclosed : id ∈ closedIn m'.steps ↔
      .step (.frameClosed id) ∈ m.deeds m' ∨ id ∈ closedIn m.steps := by
    rw [steps_of_adds hnumbers.toGrows.adds, closedIn_append, List.mem_append, mem_closedIn,
      mem_stepsIn]
  constructor
  · intro hid
    obtain ⟨hopen, hbase⟩ := mem_openIds_of_closeAbove hm.orderly h hid
    have hnot : id ∉ closedIn m'.steps := ((hm'.remaining hlive' id).1 hid).2
    refine ⟨hopen, hbase, fun hc => hnot (hclosed.2 (.inl ?_))⟩
    exact (frameClosed_of_closeAbove hm.orderly hbase h).2 hc
  · rintro ⟨hopen, hbase, hnot⟩
    obtain ⟨hgiven, hbefore⟩ := (hm.remaining hlive id).1 hopen
    refine (hm'.remaining hlive' id).2 ⟨?_, fun hc => ?_⟩
    · exact hm'.mem_openedIn.2 ((hm.mem_openedIn.1 hgiven).trans_le hnumbers.nextId)
    · obtain hnow | hc := hclosed.1 hc
      · exact hnot ((frameClosed_of_closeAbove hm.orderly hbase h).1 hnow)
      · exact hbefore hc

/-- The frames that stay open stay in order. -/
theorem sublist_openIds_of_closeAbove (ho : m.Orderly)
    (h : (Job.run n (.closeAbove base)).run m = ⟨.returned (), m'⟩) :
    m'.openIds.Sublist m.openIds := by
  have htidy : Tidy m m' := Tidy.primitives.obeys n _ _ _ _ (leaves_of_returned h)
  have hd' := (htidy.orderly ho).descending_openIds
  have hnodup : m'.openIds.Nodup := hd'.imp Nat.ne_of_gt
  have hsubset : m'.openIds ⊆ m.openIds := fun id hid => (mem_openIds_of_closeAbove ho h hid).1
  have hsubperm : m'.openIds.Subperm m.openIds := List.subperm_of_subset hnodup hsubset
  exact List.sublist_of_subperm_of_pairwise hsubperm hd' ho.descending_openIds

end

/-- Wherever a program comes to, on whatever thread, the frames that are open are numbered in
ascending order from the outermost inward, below the next number, and each number below the next one
has been given to one frame of the thread.  So whenever the closing down to a base returns, whatever
the base, no frame above it is open, and the others are open, in order, but for those that a cleanup
has closed meanwhile. -/
theorem frames_numbered_in_turn (w : Surroundings) (n : Nat) (p : Program) (m : Machine)
    (h : p.ComesTo w n m) :
    m.openIds.reverse.Pairwise (· < ·) ∧
    (∀ id ∈ m.openIds, id < m.thread.frames.nextId) ∧
    (openedIn m.steps).Nodup ∧
    openedIn m.steps = (List.range m.thread.frames.nextId).reverse ∧
    ∀ k base m', (Job.run k (.closeAbove base)).run m = ⟨.returned (), m'⟩ →
      (∀ id ∈ m'.openIds, base.any (id ≤ ·)) ∧
      m'.openIds.Sublist m.openIds ∧
      ∀ id, id ∈ m'.openIds ↔ id ∈ m.openIds ∧ base.any (id ≤ ·) ∧
        ¬Activation.CleanupCloses ⟨k, .job (.closeAbove base), m⟩ id := by
  have hm := h.inTurn.frames
  have ho := hm.orderly
  refine ⟨List.pairwise_reverse.2 ho.descending_openIds, fun id hid => ?_, ?_, hm.given,
    fun k base m' hc => ⟨fun id hid => ?_, sublist_openIds_of_closeAbove ho hc,
      fun id => mem_openIds_closeAbove hm hc⟩⟩
  · obtain ⟨f, hf, rfl⟩ := List.mem_map.1 hid
    exact ho.frames.fresh f hf
  · rw [hm.given]
    exact List.nodup_reverse.2 List.nodup_range
  · exact (mem_openIds_of_closeAbove ho hc hid).2

end

/-- A frame is leaked, one is left open by the unwind of its cleanup, one is closed by its own
cleanup, and another cleanup closes a frame that was opened before the body. -/
def crossingBody : Block :=
  [.defer [.leave "outer"], .enter "leaked", .leak "leaked",
    .intercept [.scope [.defer [.foreign none]]],
    .recover "own" [.enter "own", .defer [.leave "own"], .panic (some .einval)]]

/-- Two frames are open where the body is run on the same thread. -/
def crossingProgram : Program where
  mode := .process
  status := 0
  body := [.enter "outer", .enter "kept", .run 0 crossingBody]

/-- When the body has ended, one of five open frames is left open. -/
theorem frames_numbered_in_turn_crossing :
    ∃ k m m', crossingProgram.ComesTo .bare 9 m ∧ m.openIds = [4, 3, 2, 1, 0] ∧
      openedIn m.steps = [5, 4, 3, 2, 1, 0] ∧
      (Job.run k (.closeAbove (some 1))).run m = ⟨.returned (), m'⟩ ∧ m'.openIds = [1] ∧
      Activation.CleanupCloses ⟨k, .job (.closeAbove (some 1)), m⟩ 0 := by
  have hbegins : crossingProgram.Begins .bare 9 ⟨9, .job (.block crossingProgram.body), .initial⟩ :=
    .process rfl
  have hblock := Activation.Course.here.later (.call (.block 8 crossingProgram.body .initial))
  have hthird := (hblock.later (.call (.next rfl))).later (.call (.next rfl))
  have hsession := (hthird.later (.call (.first _ _ _ _))).later (.call (.run _ _ _ _))
  have hreturned : ∀ {x : Outcome Unit}, x.ending = .returned () →
      x = ⟨.returned (), x.machine⟩ := by
    rintro ⟨_, _⟩ rfl
    rfl
  have hclosing : crossingProgram.Course .bare 9 _ := ⟨_, hbegins, hsession.later
    (.call (.sessionLeft rfl (leaves_of_returned (hreturned (by decide +kernel)))))⟩
  have hcomes := Program.ComesTo.start hclosing
  obtain ⟨-, -, -, hgiven, hcloses⟩ := frames_numbered_in_turn _ _ _ _ hcomes
  obtain ⟨-, -, hopen⟩ := hcloses 8 (some 1) _ (hreturned (by decide +kernel))
  refine ⟨8, _, _, hcomes, by decide +kernel, hgiven.trans (by decide +kernel),
    hreturned (by decide +kernel), by decide +kernel, ?_⟩
  -- The outermost frame is not above the base, and yet it is not open any more.
  by_contra hnot
  have houter := (hopen 0).2 ⟨by decide +kernel, by decide, hnot⟩
  exact absurd houter (by decide +kernel)

end NonlocalExit
