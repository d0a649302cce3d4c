import NonlocalExit.Proofs.Frameless
import NonlocalExit.Proofs.Frames

/-!
# Closing frames in a teardown

The frames that are still open when the storage of a thread is torn down are closed outermost first,
and while they are closed no frame can be used.  Unwinding closes frames innermost first, and while
it does so frames can be used.  `teardown_unwinds_upside_down`: for cleanups that do without frames,
the teardown does what unwinding the stack turned upside down does.  So it does what unwinding the
stack itself does where only one frame has cleanups waiting.
-/

namespace NonlocalExit

open Effect

theorem Frame.erase_update {α : Type} {id : Nat} {c : Frame α → Frame α}
    (hc : ∀ f, (c f).id = f.id) : ∀ fs : List (Frame α), erase id (update id c fs) = erase id fs
  | [] => rfl
  | f :: fs => by
    by_cases h : f.id = id
    · simp [update, erase, h, hc]
    · simp [update, erase, h, erase_update hc fs]

/-- The stack with its frames in the opposite order. -/
def FrameStack.reversed {α : Type} (s : FrameStack α) : FrameStack α :=
  { s with frames := s.frames.reverse }

/-- Where only one frame has cleanups waiting the order of the frames does not matter. -/
theorem Frame.flatMap_pending_reverse {α : Type} {fs : List (Frame α)}
    (h : fs.Pairwise fun f g => f.pending = [] ∨ g.pending = []) :
    fs.reverse.flatMap (·.pending) = fs.flatMap (·.pending) := by
  induction fs with
  | nil => rfl
  | cons f fs ih =>
    obtain ⟨hf, hfs⟩ := List.pairwise_cons.1 h
    simp only [List.reverse_cons, List.flatMap_append, List.flatMap_cons, List.flatMap_nil,
      List.append_nil, ih hfs]
    by_cases hp : f.pending = []
    · rw [hp, List.append_nil, List.nil_append]
    · have hnil : fs.flatMap (·.pending) = [] :=
        List.flatMap_eq_nil_iff.2 fun g hg => (hf g hg).resolve_left hp
      rw [hnil, List.append_nil, List.nil_append]

section

variable [Declarations]

/-! ## Unwinding, and starting cleanups -/

/-- Whether closing frames does what starting cleanups does on twins, and leaves the stack `s` when
it returns. -/
def ClosesLike (s s' : FrameStack Cleanup) (held : List (List Guard)) (out out' : Outcome Unit) :
    Prop :=
  ∃ s₁, Matches s₁ s' held out out' ∧ ∀ m, out = ⟨.returned (), m⟩ → s₁ = s

section

variable {s s' : FrameStack Cleanup} {held : List (List Guard)} {n k id : Nat} {m m' : Machine}
  {f : Frame Cleanup}

theorem Twins.withFrames (h : Twins s s' held m m') (s₁ : FrameStack Cleanup) :
    Twins s₁ s' held (m.withFrames s₁) m' :=
  ⟨rfl, h.torn, h.held, h.thread, h.shared, h.effects, h.hooks⟩

/-- The closing of a frame is not among what both machines have in common. -/
theorem Twins.closed (h : Twins s s' held m m') (id : Nat) :
    Twins { s with frames := Frame.erase id s.frames } s' held (m.closed id) m' := by
  have hframes := h.frames
  refine ⟨?_, h.torn, h.held, h.thread, ?_, ?_, h.hooks⟩
  · subst hframes
    rfl
  · exact h.shared
  · exact h.effects

theorem mirrors_startCleanup (hnk : n ≤ k) {c : Cleanup} (hc : Block.Frameless c.body) :
    Mirrors s s' (startCleanup (Job.run n) c) (startCleanup (Job.run k) c) := by
  refine (Mirrors.note _).bind fun _ => Mirrors.bind ?_ fun _ => mirrors_run hnk _ hc
  unfold announce
  split
  · exact .note _
  · exact .pure _

/-- What is closed after something else is closed on the stack that that one leaves. -/
theorem ClosesLike.bind {s₁ : FrameStack Cleanup} {x y z w : Effect Unit}
    (hx : ClosesLike s₁ s' held (x.run m) (y.run m'))
    (hz : ∀ m m', Twins s₁ s' held m m' → ClosesLike s s' held (z.run m) (w.run m')) :
    ClosesLike s s' held ((x >>= fun _ => z).run m) ((y >>= fun _ => w).run m') := by
  obtain ⟨s₂, hmatches, hleft⟩ := hx
  obtain ⟨m₁, hrun⟩ | ⟨c, _, m₁, m₁', hrun, hrun', h⟩ | ⟨e, m₁, m₁', hrun, hrun', h⟩ :=
    hmatches.cases
  · rw [run_bind_halted hrun]
    exact ⟨s, .outOfFuel, fun _ h => nomatch h⟩
  · rw [run_bind_halted hrun, run_bind_halted hrun']
    exact ⟨s₂, .halted h, fun _ h => nomatch h⟩
  · cases e with
    | returned =>
      obtain rfl := hleft _ hrun
      rw [run_bind_returned hrun, run_bind_returned hrun']
      exact hz _ _ h
    | unwound t =>
      rw [run_bind_unwound hrun, run_bind_unwound hrun']
      exact ⟨s₂, .same h, fun _ h => nomatch h⟩
    | halted c =>
      rw [run_bind_halted hrun, run_bind_halted hrun']
      exact ⟨s₂, .same h, fun _ h => nomatch h⟩

/-- Closing a frame does what starting its cleanups does on twins. -/
theorem close_like (hnk : n ≤ k) (h : Twins s s' held m m')
    (hf : Frame.find? id s.frames = some f) (hc : ∀ c ∈ f.pending, Block.Frameless c.body) :
    ClosesLike { s with frames := Frame.erase id s.frames } s' held
      ((Job.run n (.close id)).run m) ((startAll (Job.run k) f.pending).run m') := by
  induction n generalizing s f m m' with
  | zero => exact ⟨s, .outOfFuel, fun _ h => nomatch h⟩
  | succ n ih =>
    have hf' : Frame.find? id m.thread.frames.frames = some f := h.frames ▸ hf
    cases hp : f.pending with
    | nil =>
      rw [show (Job.run (n + 1) (.close id)).run m = _ from closeStep_empty h.torn hf' hp]
      exact ⟨_, .same (h.closed id), fun _ _ => rfl⟩
    | cons c rest =>
      rw [hp] at hc
      rw [show (Job.run (n + 1) (.close id)).run m = _ from closeStep_pending h.torn hf' hp]
      have hnk' : n ≤ k := Nat.le_of_succ_le hnk
      let s₁ : FrameStack Cleanup :=
        { s with frames := Frame.update id (·.withPending rest) s.frames }
      have htaken : Twins s₁ s' held (m.withPending id rest) m' := by
        obtain rfl := h.frames
        exact h.withFrames _
      have hstart := mirrors_startCleanup hnk' (hc c List.mem_cons_self) held _ _ htaken
      refine ClosesLike.bind ⟨s₁, hstart, fun _ _ => rfl⟩ fun m m' h => ?_
      have hfind : Frame.find? id s₁.frames = some (f.withPending rest) := by
        rw [show Frame.find? id s₁.frames = _ from
          Frame.find?_update_self (c := (·.withPending rest)) fun _ => rfl, hf]
        rfl
      have hrest := ih hnk' h hfind fun c hmem => hc c (List.mem_cons_of_mem _ hmem)
      rwa [show Frame.erase id s₁.frames = _ from
        Frame.erase_update (c := (·.withPending rest)) (fun _ => rfl) _] at hrest

/-- Unwinding does what starting all cleanups does on twins, those of the innermost frame first. -/
theorem closeAbove_like (hnk : n ≤ k) (h : Twins s s' held m m')
    (hc : ∀ f ∈ s.frames, ∀ c ∈ f.pending, Block.Frameless c.body) :
    ClosesLike { s with frames := [] } s' held ((Job.run n (.closeAbove none)).run m)
      ((startAll (Job.run k) (s.frames.flatMap (·.pending))).run m') := by
  obtain ⟨fs, nextId⟩ := s
  induction fs generalizing n m m' with
  | nil =>
    cases n with
    | zero => exact ⟨⟨[], nextId⟩, .outOfFuel, fun _ h => nomatch h⟩
    | succ n =>
      rw [show (Job.run (n + 1) (.closeAbove none)).run m = _ from closeAboveStep_done h.torn (by
        rw [h.frames]; nofun)]
      exact ⟨_, .same h, fun _ _ => rfl⟩
  | cons f fs ih =>
    cases n with
    | zero => exact ⟨⟨[], nextId⟩, .outOfFuel, fun _ h => nomatch h⟩
    | succ n =>
      have hf : m.thread.frames.frames = f :: fs := congrArg FrameStack.frames h.frames
      rw [show (Job.run (n + 1) (.closeAbove none)).run m = _ from
        closeAboveStep_inner h.torn hf (by simp)]
      show ClosesLike _ _ _ _ ((startAll (Job.run k) (f.pending ++ _)).run m')
      rw [run_startAll_bind]
      have hnk' : n ≤ k := Nat.le_of_succ_le hnk
      have hfind : Frame.find? f.id (f :: fs) = some f := Frame.find?_cons_self
      have hclose := close_like hnk' h hfind (hc f List.mem_cons_self)
      rw [show Frame.erase f.id (f :: fs) = fs by simp [Frame.erase]] at hclose
      exact hclose.bind fun m m' h => ih hnk' h fun g hg => hc g (List.mem_cons_of_mem _ hg)

end

/-! ## The teardown -/

/-- Whether two machines agree on everything but the frames of the thread, the state of its storage,
and the lines about frames that were closed. -/
structure Machine.SameEffects (m₁ m₂ : Machine) : Prop where
  thread : m₂.thread = { m₁.thread with frames := m₂.thread.frames, torn := m₂.thread.torn }
  shared : m₂.shared = { m₁.shared with journal := m₂.shared.journal }
  effects : m₂.shared.effects = m₁.shared.effects

/-- Whether a second run ends as the first one does, on a machine that agrees with the one of that
in the sense of `r`.  Where the first run is left by an unwind, the second one ends the process. -/
inductive EndsLike (r : Machine → Machine → Prop) : Outcome Unit → Outcome Unit → Prop
  | returned {m₁ m₂} (h : r m₁ m₂) : EndsLike r ⟨.returned (), m₁⟩ ⟨.returned (), m₂⟩
  | halted {c m₁ m₂} (h : r m₁ m₂) : EndsLike r ⟨.halted c, m₁⟩ ⟨.halted c, m₂⟩
  | ended {t c m₁ m₂} : EndsLike r ⟨.unwound t, m₁⟩ ⟨.halted c, m₂⟩

/-- A teardown starts the cleanups that wait, those of the outermost frame first. -/
theorem teardown_starts_outermost_first (exec : Executor) (m : Machine) :
    EndsLike Eq
      ((startAll exec (m.thread.frames.frames.reverse.flatMap (·.pending))).run m.tornDown)
      ((teardown exec).run m) := by
  show EndsLike Eq _ ((closeTorn exec m.thread.frames.frames.reverse).run m.tornDown)
  rcases hs : (startAll exec (m.thread.frames.frames.reverse.flatMap (·.pending))).run m.tornDown
    with ⟨_ | t | c, m₁⟩
  · rw [hs, run_closeTorn exec hs nofun]
    exact .returned rfl
  · rcases ht : (closeTorn exec m.thread.frames.frames.reverse).run m.tornDown with ⟨_ | _ | _, m₂⟩
    · cases hs.symm.trans (leaves_closeTorn exec (leaves_of_returned ht)).2
    · cases (leaves_closeTorn exec (leaves_of_unwound ht)).1
    · rw [hs]
      exact .ended
  · rw [hs, run_closeTorn exec hs nofun]
    exact .halted rfl

/-- Whether the cleanups that wait, and the hooks, do without frames. -/
structure Machine.Frameless (m : Machine) : Prop where
  hooks : m.shared.hooks.Frameless
  cleanups : ∀ f ∈ m.thread.frames.frames, ∀ c ∈ f.pending, Block.Frameless c.body

section

variable {n k : Nat} {m : Machine} {s : FrameStack Cleanup}

theorem Machine.twins_tornDown (ht : m.thread.torn = false) (hm : m.Frameless) :
    Twins s { m.thread.frames with frames := [] } m.thread.held (m.withFrames s) m.tornDown :=
  ⟨rfl, ht, rfl, rfl, rfl, rfl, hm.hooks⟩

/-- The teardown does what unwinding a stack does in which the cleanups wait, from the innermost
frame on, as the teardown starts them. -/
theorem teardown_like (hnk : n ≤ k) (ht : m.thread.torn = false) (hm : m.Frameless)
    (hs : s.frames.flatMap (·.pending) = m.thread.frames.frames.reverse.flatMap (·.pending))
    (hfuel : ∀ m₁, (Job.run n (.closeAbove none)).run (m.withFrames s) ≠ ⟨.halted .outOfFuel, m₁⟩) :
    EndsLike Machine.SameEffects ((Job.run n (.closeAbove none)).run (m.withFrames s))
      ((teardown (Job.run k)).run m) := by
  have hc : ∀ f ∈ s.frames, ∀ c ∈ f.pending, Block.Frameless c.body := by
    intro f hf c hc
    have hmem := List.mem_flatMap_of_mem hf hc
    rw [hs] at hmem
    obtain ⟨g, hg, hc⟩ := List.mem_flatMap.1 hmem
    exact hm.cleanups g (List.mem_reverse.1 hg) c hc
  obtain ⟨s₁, hlike, -⟩ := closeAbove_like hnk (Machine.twins_tornDown ht hm) hc
  have htear := teardown_starts_outermost_first (Job.run k) m
  rw [← hs] at htear
  generalize (teardown (Job.run k)).run m = out at htear ⊢
  -- What both machines have in common is the same whichever way the run has ended.
  have hsame : ∀ {held m₁ m₂}, Twins s₁ { m.thread.frames with frames := [] } held m₁ m₂ →
      m₁.SameEffects m₂ := fun h =>
    ⟨by rw [h.thread], h.shared, h.effects⟩
  obtain ⟨m₁, hrun⟩ | ⟨c, _, m₁, m₂, hrun, hrun', h⟩ | ⟨e, m₁, m₂, hrun, hrun', h⟩ := hlike.cases
  · exact (hfuel m₁ hrun).elim
  · rw [hrun'] at htear
    rw [hrun]
    cases htear with
    | halted he => exact he ▸ .halted (hsame h)
  · rw [hrun'] at htear
    rw [hrun]
    cases htear with
    | returned he => exact he ▸ .returned (hsame h)
    | halted he => exact he ▸ .halted (hsame h)
    | ended => exact .ended

end

/-- Statements that use the frames of their thread themselves, whatever their bodies do. -/
inductive Stmt.UsesFrames : Stmt → Prop
  | scope body : UsesFrames (.scope body)
  | enter name : UsesFrames (.enter name)
  | panic code : UsesFrames (.panic (some code))
  | recover value body : UsesFrames (.recover value body)
  | run status body : UsesFrames (.run status body)

/-- In a teardown the frames cannot be used. -/
theorem Stmt.UsesFrames.refused {st : Stmt} (hs : st.UsesFrames) (n : Nat) {m : Machine}
    (ht : m.thread.torn = true) :
    ∃ m', (st.perform (Job.run (n + 1))).run m = ⟨.unwound storageGone, m'⟩ := by
  cases hs with
  | scope body => exact ⟨_, (run_scope _ _ _).trans (if_pos ht)⟩
  | enter name => exact ⟨_, run_bind_unwound ((run_enterFrame m).trans (if_pos ht))⟩
  | panic code =>
    have hwalk : (Job.run (n + 1) (.walk code)).run (m.note (.log (.panicking code))) = _ :=
      (run_walkStep _ _ _).trans (if_pos ht)
    exact ⟨_, run_bind_unwound
      ((run_bind_returned (run_log m _)).trans (run_bind_unwound hwalk))⟩
  | recover value body => exact ⟨_, run_bind_unwound ((run_recover _ _).trans (if_pos ht))⟩
  | run status body => exact ⟨_, run_bind_unwound ((run_runBody _ _ _).trans (if_pos ht))⟩

/-- A teardown starts the cleanups that wait, those of the outermost frame first.  If these do
without frames, it does what unwinding the stack turned upside down does, and what unwinding the
stack does where only one frame has cleanups waiting.  A cleanup cannot use frames in a teardown,
and what it registers is started at once. -/
theorem teardown_unwinds_upside_down (n k : Nat) (m : Machine) :
    EndsLike Eq
      ((startAll (Job.run k) (m.thread.frames.frames.reverse.flatMap (·.pending))).run m.tornDown)
      ((teardown (Job.run k)).run m) ∧
    (n ≤ k → m.thread.torn = false → m.Frameless →
      ∀ s, (s = m.thread.frames.reversed ∨ s = m.thread.frames ∧
          m.thread.frames.frames.Pairwise fun f g => f.pending = [] ∨ g.pending = []) →
        (∀ m₁, (Job.run n (.closeAbove none)).run (m.withFrames s) ≠ ⟨.halted .outOfFuel, m₁⟩) →
        EndsLike Machine.SameEffects ((Job.run n (.closeAbove none)).run (m.withFrames s))
          ((teardown (Job.run k)).run m)) ∧
    ∀ m' : Machine, m'.thread.torn = true →
      (∀ s : Stmt, s.UsesFrames →
        ∃ m'', (s.perform (Job.run (k + 1))).run m' = ⟨.unwound storageGone, m''⟩) ∧
      ∀ argument body, (defer (Job.run k) argument body).run m' =
        (startCleanup (Job.run k) ⟨m'.shared.nextSerial, argument, body⟩).run
          (m'.serialTaken.note (.step (.registered m'.shared.nextSerial none))) := by
  refine ⟨teardown_starts_outermost_first _ m, fun hnk ht hm s hs hfuel => ?_, fun m' ht =>
    ⟨fun s hs => hs.refused k ht, fun argument body =>
      (run_defer _ m' argument body).trans (if_pos ht)⟩⟩
  refine teardown_like hnk ht hm ?_ hfuel
  obtain rfl | ⟨rfl, hone⟩ := hs
  · rfl
  · exact (Frame.flatMap_pending_reverse hone).symm

end

/-- A thread that leaves open two guards, each with a cleanup in its frame. -/
def leakedGuards : Block :=
  [.initThread, .enter "g", .defer [.emit "outer"], .enter "h", .defer [.emit "inner"],
    .leak "h", .leak "g"]

/-- The machine on which the main thread has run a block. -/
def Machine.afterBlock (b : Block) : Machine := ((Job.run 9 (.block b)).run .initial).machine

theorem frameless_leakedGuards : (Machine.afterBlock leakedGuards).Frameless := by
  refine ⟨⟨nofun, nofun, nofun⟩, fun f hf c hc s hs => ?_⟩
  have hbody : c.body = [.emit "inner"] ∨ c.body = [.emit "outer"] := by
    obtain rfl | hf := List.mem_cons.1 hf
    · obtain rfl := List.mem_singleton.1 hc
      exact .inl rfl
    · obtain rfl | hf := List.mem_cons.1 hf
      · obtain rfl := List.mem_singleton.1 hc
        exact .inr rfl
      · -- No cleanup waits in the root frame.
        obtain rfl := List.mem_singleton.1 hf
        cases hc
  obtain hbody | hbody := hbody
  · rw [hbody] at hs
    obtain rfl := List.mem_singleton.1 hs
    exact .emit _
  · rw [hbody] at hs
    obtain rfl := List.mem_singleton.1 hs
    exact .emit _

theorem teardown_unwinds_upside_down_leakedGuards :
    EndsLike Machine.SameEffects
      ((Job.run 8 (.closeAbove none)).run ((Machine.afterBlock leakedGuards).withFrames
        (Machine.afterBlock leakedGuards).thread.frames.reversed))
      ((teardown (Job.run 9)).run (Machine.afterBlock leakedGuards)) ∧
    ∃ m, ((Stmt.scope []).perform (Job.run 10)).run (Machine.afterBlock leakedGuards).tornDown =
      ⟨.unwound storageGone, m⟩ := by
  obtain ⟨-, hlike, hrefused⟩ := teardown_unwinds_upside_down 8 9 (Machine.afterBlock leakedGuards)
  have hfuel : ∀ m₁, (Job.run 8 (.closeAbove none)).run
      ((Machine.afterBlock leakedGuards).withFrames
        (Machine.afterBlock leakedGuards).thread.frames.reversed) ≠
      ⟨.halted .outOfFuel, m₁⟩ := fun m₁ h => nomatch congrArg Outcome.ending h
  exact ⟨hlike (by decide) rfl frameless_leakedGuards _ (.inl rfl) hfuel,
    (hrefused _ rfl).1 _ (.scope [])⟩

/-- What a run has reported, oldest first. -/
def Outcome.reports {α : Type} (out : Outcome α) : List Event :=
  out.machine.entries.filterMap Entry.event?

/-- Of two guards that are left open the inner one is closed first by an unwind, and the outer one
at the end of the process.  A cleanup that opens a scope returns in an unwind, and aborts the
process in the teardown. -/
theorem teardown_not_unwinding_leakedGuards :
    ((Job.run 9 (.closeAbove none)).run (Machine.afterBlock leakedGuards)).reports =
        [.emitted "inner", .emitted "outer"] ∧
      ((exitProcess (Job.run 9) 0 : Effect Empty).run (Machine.afterBlock leakedGuards)).reports =
        [.emitted "outer", .emitted "inner"] ∧
      ((Job.run 9 (.closeAbove none)).run (Machine.afterBlock [.defer [.scope []]])).ending =
        .returned () ∧
      ((exitProcess (Job.run 9) 0 : Effect Empty).run
        (Machine.afterBlock [.defer [.scope []]])).ending = .halted .aborted :=
  ⟨rfl, rfl, rfl, rfl⟩

end NonlocalExit
