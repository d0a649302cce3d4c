import NonlocalExit.Proofs.Unwinding

/-!
# Code that does without frames

Code that neither uses the frames of its thread, nor starts threads, nor ends the process does the
same whether the storage of its thread is there or is being torn down: `mirrors_run`.  It does the
same within any bound that is not reached, too.

Two runs of it are compared step by step, on machines that differ in the frames of the thread and in
the lines about frames that were closed, `Twins`.
-/

namespace NonlocalExit

variable [Declarations]

open Effect

/-! ## The code -/

/-- Statements that do not use the frames of their thread, start no threads and do not end the
process, and set only hooks of this kind. -/
inductive Stmt.Frameless : Stmt → Prop
  | emit message : Frameless (.emit message)
  | state : Frameless .state
  | repeated {n body} (h : ∀ s ∈ body, Frameless s) : Frameless (.repeated n body)
  | throw v : Frameless (.throw v)
  | rethrow : Frameless .rethrow
  | attempt {body clauses} (h : ∀ s ∈ body, Frameless s)
    (hc : ∀ c ∈ clauses, ∀ s ∈ c.2, Frameless s) : Frameless (.attempt body clauses)
  | setHook {kind hook} (h : ∀ b, hook = some b → ∀ s ∈ b, Frameless s) :
    Frameless (.setHook kind hook)
  | setHooks {a b c} (ha : ∀ hook, a = some hook → ∀ s ∈ hook, Frameless s)
    (hb : ∀ hook, b = some hook → ∀ s ∈ hook, Frameless s)
    (hc : ∀ hook, c = some hook → ∀ s ∈ hook, Frameless s) : Frameless (.setHooks a b c)
  | hooks : Frameless .hooks
  | notPanic : Frameless (.panic none)
  | exit status : Frameless (.exit status)
  | foreign message : Frameless (.foreign message)
  | intercept {body} (h : ∀ s ∈ body, Frameless s) : Frameless (.intercept body)
  | trapFaults enabled : Frameless (.trapFaults enabled)
  | signals : Frameless .signals
  | fault cause : Frameless (.fault cause)
  | apply settings : Frameless (.apply settings)
  | notInit : Frameless (.init none)

/-- Whether all statements of a block are of this kind. -/
def Block.Frameless (b : Block) : Prop := ∀ s ∈ b, s.Frameless

/-- Whether all hooks that are set are of this kind. -/
structure Hooks.Frameless (h : Hooks) : Prop where
  onThrow : ∀ b, h.onThrow = some b → Block.Frameless b
  onUnhandled : ∀ b, h.onUnhandled = some b → Block.Frameless b
  onUnexpected : ∀ b, h.onUnexpected = some b → Block.Frameless b

theorem Hooks.Frameless.set {h : Hooks} (hh : h.Frameless) (kind : HookKind) {hook : Option Block}
    (hb : ∀ b, hook = some b → Block.Frameless b) : (h.set kind hook).Frameless := by
  cases kind with
  | onThrow => exact ⟨hb, hh.onUnhandled, hh.onUnexpected⟩
  | onUnhandled => exact ⟨hh.onThrow, hb, hh.onUnexpected⟩
  | onUnexpected => exact ⟨hh.onThrow, hh.onUnhandled, hb⟩

/-! ## Machines that differ in their storage -/

/-- Whether a line says that a frame was closed. -/
def JournalLine.isClosing (l : JournalLine) : Bool :=
  match l.entry with
  | .step (.frameClosed _) => true
  | _ => false

/-- Everything that has happened but for the closing of frames, newest first. -/
def Shared.effects (s : Shared) : List JournalLine := s.journal.filter (!·.isClosing)

/-- Whether two machines differ only in the frames `s` and `s'` of the thread, in the state of its
storage, and in the lines about frames that were closed.  The blocks of the thread hold `held`. -/
structure Twins (s s' : FrameStack Cleanup) (held : List (List Guard)) (m m' : Machine) : Prop where
  frames : m.thread.frames = s
  torn : m.thread.torn = false
  held : m.thread.held = held
  thread : m'.thread = { m.thread with frames := s', torn := true }
  shared : m'.shared = { m.shared with journal := m'.shared.journal }
  effects : m'.shared.effects = m.shared.effects
  hooks : m.shared.hooks.Frameless

variable {s s' : FrameStack Cleanup} {held : List (List Guard)} {α β : Type}

namespace Twins

variable {m m' : Machine} (h : Twins s s' held m m')
include h

theorem note (e : Entry) : Twins s s' held (m.note e) (m'.note e) where
  frames := h.frames
  torn := h.torn
  held := h.held
  thread := h.thread
  shared := congrArg (fun x : Shared => { x with journal := (m'.note e).shared.journal }) h.shared
  effects := by
    have hnumber : m'.thread.number = m.thread.number := by rw [h.thread]
    have hrest : m'.shared.journal.filter (!·.isClosing) = m.shared.journal.filter (!·.isClosing) :=
      h.effects
    show (⟨m'.thread.number, e⟩ :: m'.shared.journal).filter (!·.isClosing) =
      (⟨m.thread.number, e⟩ :: m.shared.journal).filter (!·.isClosing)
    rw [hnumber, List.filter_cons, List.filter_cons, hrest]
  hooks := h.hooks

/-- What is changed of the thread besides its storage is changed on both machines. -/
theorem onThread {f : Thread → Thread} (hf : (f m.thread).frames = m.thread.frames)
    (ht : (f m.thread).torn = m.thread.torn) (hh : (f m.thread).held = m.thread.held)
    (hc : f { m.thread with frames := s', torn := true } =
      { f m.thread with frames := s', torn := true }) :
    Twins s s' held { m with thread := f m.thread } { m' with thread := f m'.thread } :=
  ⟨hf.trans h.frames, ht.trans h.torn, hh.trans h.held, (congrArg f h.thread).trans hc, h.shared,
    h.effects, h.hooks⟩

theorem onShared {f : Shared → Shared} (hj : ∀ x, (f x).journal = x.journal)
    (hf : f { m.shared with journal := m'.shared.journal } =
      { f m.shared with journal := m'.shared.journal }) (hh : (f m.shared).hooks.Frameless) :
    Twins s s' held { m with shared := f m.shared } { m' with shared := f m'.shared } where
  frames := h.frames
  torn := h.torn
  held := h.held
  thread := h.thread
  shared := by
    have hshared := (congrArg f h.shared).trans hf
    rw [← hj m'.shared] at hshared
    exact hshared
  effects := by
    have hrest := h.effects
    unfold Shared.effects at hrest ⊢
    rw [hj, hj]
    exact hrest
  hooks := hh

theorem withHeld (inner : List (List Guard)) :
    Twins s s' inner (m.withHeld inner) (m'.withHeld inner) where
  frames := h.frames
  torn := h.torn
  held := rfl
  thread := congrArg (fun t : Thread => { t with held := inner }) h.thread
  shared := h.shared
  effects := h.effects
  hooks := h.hooks

theorem current : m'.thread.current = m.thread.current := by rw [h.thread]

theorem depth : m'.thread.depth = m.thread.depth := by rw [h.thread]

theorem hookRunning : m'.thread.hookRunning = m.thread.hookRunning := by
  rw [h.thread]

theorem hooks_eq : m'.shared.hooks = m.shared.hooks := by rw [h.shared]

theorem trapping : m'.shared.trapping = m.shared.trapping := by rw [h.shared]

theorem dispositions : m'.shared.dispositions = m.shared.dispositions := by rw [h.shared]

theorem reception (cause : FaultCause) : m'.reception cause = m.reception cause := by
  unfold Machine.reception
  rw [h.thread, h.shared]

omit h in
theorem passedOver (e : Exception) : ∀ (clauses : List (Trigger × Block)) {m m' : Machine},
    Twins s s' held m m' → Twins s s' held (m.passedOver e clauses) (m'.passedOver e clauses)
  | [], _, _, h => h
  | (.typed t, _) :: rest, _, _, h => by
    unfold Machine.passedOver
    split
    · split
      · exact h
      · exact passedOver e rest (h.note _)
    · exact passedOver e rest h
  | (.any, _) :: _, _, _, h => h
  | (.completion, _) :: rest, _, _, h => passedOver e rest h

end Twins

/-! ## Runs that do the same -/

/-- Whether one run has reached its bound, or two runs ended in the same way on twins.  What a block
holds when the process halts is not taken off. -/
inductive Matches (s s' : FrameStack Cleanup) (held : List (List Guard)) :
    Outcome α → Outcome α → Prop
  | outOfFuel {m out} : Matches s s' held ⟨.halted .outOfFuel, m⟩ out
  | halted {c held' m m'} (h : Twins s s' held' m m') :
    Matches s s' held ⟨.halted c, m⟩ ⟨.halted c, m'⟩
  | same {e m m'} (h : Twins s s' held m m') : Matches s s' held ⟨e, m⟩ ⟨e, m'⟩

theorem Matches.cases {out out' : Outcome α} (h : Matches s s' held out out') :
    (∃ m, out = ⟨.halted .outOfFuel, m⟩) ∨
      (∃ c held' m m', out = ⟨.halted c, m⟩ ∧ out' = ⟨.halted c, m'⟩ ∧ Twins s s' held' m m') ∨
        ∃ e m m', out = ⟨e, m⟩ ∧ out' = ⟨e, m'⟩ ∧ Twins s s' held m m' := by
  cases h with
  | outOfFuel => exact .inl ⟨_, rfl⟩
  | halted h => exact .inr (.inl ⟨_, _, _, _, rfl, rfl, h⟩)
  | same h => exact .inr (.inr ⟨_, _, _, rfl, rfl, h⟩)

/-- Whether one effect does on a machine what another one does on its twins. -/
def Mirrors (s s' : FrameStack Cleanup) (x y : Effect α) : Prop :=
  ∀ held m m', Twins s s' held m m' → Matches s s' held (x.run m) (y.run m')

namespace Mirrors

theorem pure (a : α) : Mirrors s s' (Pure.pure a : Effect α) (Pure.pure a) :=
  fun _ _ _ h => .same h

theorem unwind (t : Transfer) : Mirrors s s' (Effect.unwind t : Effect α) (Effect.unwind t) :=
  fun _ _ _ h => .same h

theorem halt (c : Halt) : Mirrors s s' (Effect.halt c : Effect α) (Effect.halt c) :=
  fun _ _ _ h => .same h

theorem note (e : Entry) : Mirrors s s' (Effect.note e) (Effect.note e) :=
  fun _ _ _ h => .same (h.note e)

/-- What both machines have alike may be read. -/
theorem machine {f g : Machine → Effect α}
    (h : ∀ {held m m'}, Twins s s' held m m' → Mirrors s s' (f m) (g m')) :
    Mirrors s s' (Effect.machine >>= f) (Effect.machine >>= g) :=
  fun _ _ _ ht => h ht _ _ _ ht

section

variable {x y : Effect α} (hx : Mirrors s s' x y)
include hx

/-- What goes on after what does the same, and stops where that halts. -/
theorem andThen {z w : Effect β}
    (hz : ∀ {c m m₁}, x.run m = ⟨.halted c, m₁⟩ → z.run m = ⟨.halted c, m₁⟩)
    (hw : ∀ {c m m₁}, y.run m = ⟨.halted c, m₁⟩ → w.run m = ⟨.halted c, m₁⟩)
    (h : ∀ {held m m₁ m' m₁'} e, x.run m = ⟨e, m₁⟩ → y.run m' = ⟨e, m₁'⟩ →
      Twins s s' held m₁ m₁' → Matches s s' held (z.run m) (w.run m')) : Mirrors s s' z w := by
  intro held m m' htwins
  obtain ⟨m₁, hrun⟩ | ⟨c, _, m₁, m₁', hrun, hrun', hleft⟩ | ⟨e, m₁, m₁', hrun, hrun', hleft⟩ :=
    (hx held m m' htwins).cases
  · rw [hz hrun]
    exact .outOfFuel
  · rw [hz hrun, hw hrun']
    exact .halted hleft
  · exact h e hrun hrun' hleft

theorem bind {f g : α → Effect β} (hf : ∀ a, Mirrors s s' (f a) (g a)) :
    Mirrors s s' (x >>= f) (y >>= g) := by
  refine hx.andThen run_bind_halted run_bind_halted fun e hrun hrun' h => ?_
  rw [run_bind, run_bind, hrun, hrun']
  cases e with
  | returned a => exact hf a _ _ _ h
  | unwound t => exact .same h
  | halted c => exact .same h

theorem abortOnUnwind : Mirrors s s' x.abortOnUnwind y.abortOnUnwind := by
  refine hx.andThen run_abortOnUnwind_halted run_abortOnUnwind_halted fun e hrun hrun' h => ?_
  rw [run_abortOnUnwind, run_abortOnUnwind, hrun, hrun']
  cases e <;> exact .same h

theorem onExit {x' y' : Effect Unit} (hx' : Mirrors s s' x' y') :
    Mirrors s s' (Effect.onExit x x') (Effect.onExit y y') := by
  refine hx.andThen run_onExit_halted run_onExit_halted fun e hrun hrun' h => ?_
  rw [run_onExit, run_onExit, hrun, hrun']
  cases e with
  | returned a => exact hx'.bind (fun _ => .pure a) _ _ _ h
  | unwound t => exact hx'.abortOnUnwind.bind (fun _ => .unwind t) _ _ _ h
  | halted c => exact .same h

theorem catchUnwind : Mirrors s s' (Effect.catchUnwind x) (Effect.catchUnwind y) := by
  refine hx.andThen run_catchUnwind_halted run_catchUnwind_halted fun e hrun hrun' h => ?_
  rw [run_catchUnwind, run_catchUnwind, hrun, hrun']
  cases e <;> exact .same h

end

theorem capture {x y : Effect Unit} (hx : Mirrors s s' x y) :
    Mirrors s s' (Effect.capture x) (Effect.capture y) := by
  refine hx.catchUnwind.bind fun r => ?_
  cases r with
  | ok _ => exact .pure _
  | error t =>
    dsimp only
    split
    · exact .pure _
    · exact .unwind _

theorem never {x y : Effect Empty} (hx : Mirrors s s' x y) :
    Mirrors s s' (Effect.never x : Effect α) (Effect.never y) := hx.bind fun e => nomatch e

/-- A change of the thread that does not look at its storage. -/
theorem modifyThread {f : Thread → Thread} (hf : ∀ t, (f t).frames = t.frames)
    (ht : ∀ t, (f t).torn = t.torn) (hh : ∀ t, (f t).held = t.held)
    (hc : ∀ t : Thread, f { t with frames := s', torn := true } =
      { f t with frames := s', torn := true }) :
    Mirrors s s' (Effect.modifyThread f) (Effect.modifyThread f) :=
  fun _ _ _ h => .same (h.onThread (hf _) (ht _) (hh _) (hc _))

/-- A change of the shared state that does not look at the journal. -/
theorem modifyShared {f : Shared → Shared} (hj : ∀ x, (f x).journal = x.journal)
    (hf : ∀ (x : Shared) j, f { x with journal := j } = { f x with journal := j })
    (hh : ∀ x : Shared, x.hooks.Frameless → (f x).hooks.Frameless) :
    Mirrors s s' (Effect.modifyShared f) (Effect.modifyShared f) :=
  fun _ _ _ h => .same (h.onShared hj (hf _ _) (hh _ h.hooks))

theorem current : Mirrors s s' Effect.current Effect.current :=
  .machine fun h => by rw [h.current]; exact .pure _

theorem depth : Mirrors s s' Effect.depth Effect.depth :=
  .machine fun h => by rw [h.depth]; exact .pure _

/-- The hooks that are set may be called. -/
theorem hooks {f g : Hooks → Effect α}
    (hf : ∀ h : Hooks, h.Frameless → Mirrors s s' (f h) (g h)) :
    Mirrors s s' (Effect.hooks >>= f) (Effect.hooks >>= g) := by
  intro held m m' h
  show Matches s s' held ((f m.shared.hooks).run m) ((g m'.shared.hooks).run m')
  rw [h.hooks_eq]
  exact hf _ h.hooks held m m' h

theorem setCurrent (e : Option Exception) :
    Mirrors s s' (Effect.setCurrent e) (Effect.setCurrent e) :=
  .modifyThread (fun _ => rfl) (fun _ => rfl) (fun _ => rfl) fun _ => rfl

theorem setHook (kind : HookKind) {hook : Option Block}
    (h : ∀ b, hook = some b → Block.Frameless b) :
    Mirrors s s' (Effect.setHook kind hook) (Effect.setHook kind hook) :=
  .modifyShared (fun _ => rfl) (fun _ _ => rfl) fun _ hx => hx.set kind h

theorem protect {f g : Nat → Effect α} (hf : ∀ link, Mirrors s s' (f link) (g link)) :
    Mirrors s s' (Effect.protect f) (Effect.protect g) := by
  have hlevel : ∀ d, Mirrors s s' (Effect.modifyThread fun t => { t with depth := d })
      (Effect.modifyThread fun t => { t with depth := d }) := fun d =>
    .modifyThread (fun _ => rfl) (fun _ => rfl) (fun _ => rfl) fun _ => rfl
  exact Mirrors.depth.bind fun link => (hlevel _).bind fun _ => (note _).bind fun _ =>
    (hf link).onExit ((hlevel _).bind fun _ => note _)

theorem guarded {x y : Effect Unit} (hx : Mirrors s s' x y) :
    Mirrors s s' (Effect.guarded x) (Effect.guarded y) :=
  .protect fun _ => hx.capture.bind fun _ => .pure _

end Mirrors

/-! ## Statements -/

section

variable {exec exec' : Executor} {b : Block}
  (H : ∀ b, Block.Frameless b → Mirrors s s' (exec (.block b)) (exec' (.block b)))

theorem mirrors_exitThread (status : Int32) :
    Mirrors s s' (exitThread status) (exitThread status) :=
  (Mirrors.note _).bind fun _ => .unwind _

theorem mirrors_abandon : Mirrors s s' abandon abandon :=
  (Mirrors.setCurrent none).bind fun _ => mirrors_exitThread _

theorem mirrors_failUnexpected : Mirrors s s' failUnexpected failUnexpected :=
  Mirrors.current.bind fun _ => (Mirrors.note _).bind fun _ => mirrors_abandon

include H

theorem mirrors_callHook (kind : HookKind) (hb : Block.Frameless b) (e : Exception) :
    Mirrors s s' (callHook exec kind b e) (callHook exec' kind b e) :=
  (Mirrors.note _).bind fun _ => (H b hb).onExit (.note _)

theorem mirrors_unexpected : Mirrors s s' (unexpected exec) (unexpected exec') := by
  refine .hooks fun h hh => Mirrors.current.bind fun e => ?_
  split
  · rename_i hb
    refine (Mirrors.guarded (mirrors_callHook H _ (hh.onUnexpected _ hb) _)).bind fun escaped => ?_
    split
    · exact (Mirrors.note _).bind fun _ => (Mirrors.setHook _ fun _ h => by cases h).bind fun _ =>
        mirrors_failUnexpected
    · exact mirrors_abandon
  · exact mirrors_failUnexpected

theorem mirrors_unhandled : Mirrors s s' (unhandled exec) (unhandled exec') := by
  refine .hooks fun h hh => Mirrors.current.bind fun e => ?_
  split
  · rename_i hb
    refine (Mirrors.guarded (mirrors_callHook H _ (hh.onUnhandled _ hb) _)).bind fun escaped => ?_
    split
    · exact mirrors_unexpected H
    · exact mirrors_abandon
  · exact (Mirrors.note _).bind fun _ => mirrors_abandon

theorem mirrors_runThrowHook (hb : Block.Frameless b) (e : Exception) :
    Mirrors s s' (runThrowHook exec b e) (runThrowHook exec' b e) := by
  have hflag : ∀ running, Mirrors s s' (modifyThread fun t => { t with hookRunning := running })
      (modifyThread fun t => { t with hookRunning := running }) := fun _ =>
    .modifyThread (fun _ => rfl) (fun _ => rfl) (fun _ => rfl) fun _ => rfl
  exact (hflag true).bind fun _ => (mirrors_callHook H _ hb e).onExit (hflag false)

theorem mirrors_callThrowHook : Mirrors s s' (callThrowHook exec) (callThrowHook exec') := by
  refine .hooks fun h hh => .machine fun htwins => Mirrors.current.bind fun e => ?_
  rw [htwins.hookRunning]
  split
  · rename_i hb _
    refine (Mirrors.guarded (mirrors_runThrowHook H (hh.onThrow _ hb) _)).bind fun escaped => ?_
    split
    · exact .never (mirrors_unexpected H)
    · exact .pure _
  · exact .pure _

theorem mirrors_dispatch : Mirrors s s' (dispatch exec) (dispatch exec') := by
  refine Mirrors.current.bind fun e => Mirrors.bind ?_ fun _ =>
    (mirrors_callThrowHook H).bind fun _ => Mirrors.depth.bind fun d => ?_
  · cases e with
    | none => exact .pure _
    | some e => exact .note _
  · split
    · exact .unwind _
    · exact mirrors_unhandled H

theorem mirrors_raise (v : Value) : Mirrors s s' (raise exec v) (raise exec' v) :=
  (Mirrors.setCurrent _).bind fun _ => mirrors_dispatch H

theorem mirrors_rethrow : Mirrors s s' (rethrow exec) (rethrow exec') := by
  refine Mirrors.current.bind fun e => ?_
  cases e with
  | none => exact (Mirrors.note _).bind fun _ => mirrors_unexpected H
  | some e =>
    refine Mirrors.depth.bind fun d => ?_
    split
    · exact mirrors_unhandled H
    · exact .unwind _

theorem mirrors_meetFault (cause : FaultCause) :
    Mirrors s s' (meetFault exec cause) (meetFault exec' cause) := by
  refine .machine fun htwins => ?_
  rw [htwins.reception]
  split
  · exact .pure _
  · exact .halt _
  · exact .modifyShared (fun _ => rfl) (fun _ _ => rfl) fun _ h => h
  · have henter : ∀ deferred, Mirrors s s' (enterTrap deferred cause.signal)
        (enterTrap deferred cause.signal) := fun _ =>
      .modifyThread (fun _ => rfl) (fun _ => rfl) (fun _ => rfl) fun _ => rfl
    exact (henter _).bind fun _ => .never (mirrors_raise H _)

/-! ### Try blocks -/

theorem mirrors_runBody {x y : Effect Unit} (hx : Mirrors s s' x y) :
    Mirrors s s' (TryBlock.runBody exec x) (TryBlock.runBody exec' y) := by
  refine hx.capture.bind fun escape => ?_
  split
  · exact .pure _
  · refine Mirrors.current.bind fun e => ?_
    split
    · exact .pure _
    · exact (Mirrors.note _).bind fun _ => .never (mirrors_unexpected H)

theorem mirrors_settle (outer : Option Exception) (e : Exception) (escape : Option Escape) :
    Mirrors s s' (TryBlock.settle exec outer e escape) (TryBlock.settle exec' outer e escape) := by
  unfold TryBlock.settle
  split
  · exact (Mirrors.setCurrent _).bind fun _ => .pure _
  · exact .pure _
  · exact .never (mirrors_unexpected H)

theorem mirrors_handler {clause : Trigger × Block} (hb : Block.Frameless clause.2) (e : Exception) :
    Mirrors s s' ((TryBlock.catchOf exec clause).handler e)
      ((TryBlock.catchOf exec' clause).handler e) := by
  obtain ⟨trigger, b⟩ := clause
  cases trigger with
  | typed t =>
    unfold TryBlock.catchOf
    dsimp only
    split
    · exact (Mirrors.note _).bind fun _ => H b hb
    · exact .pure _
  | any | completion => exact (Mirrors.note _).bind fun _ => H b hb

omit H in
theorem mem_of_firstMatch {e : Exception} {c : Trigger × Block} :
    ∀ {clauses : List (Trigger × Block)}, TryBlock.firstMatch e clauses = some c → c ∈ clauses
  | (.typed t, b) :: rest, h => by
    unfold TryBlock.firstMatch at h
    split at h
    · cases h
      exact List.mem_cons_self
    · exact List.mem_cons_of_mem _ (mem_of_firstMatch h)
  | (.any, b) :: rest, h => by
    cases h
    exact List.mem_cons_self
  | (.completion, _) :: _, h => List.mem_cons_of_mem _ (mem_of_firstMatch h)

omit H in
theorem mem_of_completionsOf : ∀ {clauses : List (Trigger × Block)},
    b ∈ TryBlock.completionsOf clauses → ∃ c ∈ clauses, c.2 = b
  | (.completion, d) :: rest, h => by
    obtain rfl | h := List.mem_cons.1 h
    · exact ⟨_, List.mem_cons_self, rfl⟩
    · obtain ⟨c, hc, rfl⟩ := mem_of_completionsOf h
      exact ⟨c, List.mem_cons_of_mem _ hc, rfl⟩
  | (.typed _, _) :: rest, h | (.any, _) :: rest, h => by
    have hrest : b ∈ TryBlock.completionsOf rest := h
    obtain ⟨c, hc, rfl⟩ := mem_of_completionsOf hrest
    exact ⟨c, List.mem_cons_of_mem _ hc, rfl⟩

theorem mirrors_runCatches {clauses : List (Trigger × Block)}
    (hc : ∀ c ∈ clauses, Block.Frameless c.2) (outer : Option Exception) (link : Nat)
    (e : Option Exception) :
    Mirrors s s' (TryBlock.runCatches exec (TryBlock.catchesOf exec clauses) outer link e)
      (TryBlock.runCatches exec' (TryBlock.catchesOf exec' clauses) outer link e) := by
  cases e with
  | none => exact .pure _
  | some e =>
    intro held m m' h
    show Matches s s' held ((TryBlock.select e (TryBlock.catchesOf exec clauses) >>= _).run m)
      ((TryBlock.select e (TryBlock.catchesOf exec' clauses) >>= _).run m')
    rw [run_bind_returned (TryBlock.run_select e clauses m),
      run_bind_returned (TryBlock.run_select e clauses m')]
    have hpassed := Twins.passedOver e clauses h
    cases hm : TryBlock.firstMatch e clauses with
    | none => exact .same hpassed
    | some c =>
      have hhandler := mirrors_handler H (hc c (mem_of_firstMatch hm)) e
      exact (Mirrors.note _).bind (fun _ => hhandler.capture.bind fun _ =>
        (mirrors_settle H _ _ _).bind fun _ => (Mirrors.note _).bind fun _ => .pure _) _ _ _ hpassed

theorem mirrors_runCompletion (link : Nat) {final : Option Block}
    (hf : ∀ b, final = some b → Block.Frameless b) :
    Mirrors s s'
      (TryBlock.runCompletion exec link (final.map fun b => do report .completing; exec (.block b)))
      (TryBlock.runCompletion exec' link
        (final.map fun b => do report .completing; exec' (.block b))) := by
  cases final with
  | none => exact .pure _
  | some b =>
    have hfinal : Mirrors s s' (do report .completing; exec (.block b))
        (do report .completing; exec' (.block b)) := (Mirrors.note _).bind fun _ => H b (hf b rfl)
    refine (Mirrors.note _).bind fun _ => hfinal.capture.bind fun escape => Mirrors.bind ?_ fun _ =>
      .note _
    cases escape with
    | none => exact .pure _
    | some _ => exact .never (mirrors_unexpected H)

omit H in
theorem mirrors_warnRepeated : ∀ bs, Mirrors s s' (TryBlock.warnRepeated bs)
    (TryBlock.warnRepeated bs)
  | [] => .pure _
  | [_] => .pure _
  | _ :: b :: rest => (Mirrors.note _).bind fun _ => mirrors_warnRepeated (b :: rest)

theorem mirrors_declare {clauses : List (Trigger × Block)} (hb : Block.Frameless b)
    (hc : ∀ c ∈ clauses, Block.Frameless c.2) :
    Mirrors s s' (TryBlock.declare exec b clauses) (TryBlock.declare exec' b clauses) := by
  have hfinal : ∀ b, (TryBlock.completionsOf clauses).getLast? = some b → Block.Frameless b := by
    intro b h
    obtain ⟨c, hmem, rfl⟩ := mem_of_completionsOf (List.mem_of_getLast? h)
    exact hc c hmem
  refine (mirrors_warnRepeated _).bind fun _ => Mirrors.current.bind fun outer => Mirrors.bind
    (Mirrors.protect fun link => ?_) fun pending => ?_
  · exact (Mirrors.note _).bind fun _ => (mirrors_runBody H (H b hb)).bind fun _ =>
      (Mirrors.note _).bind fun _ => (mirrors_runCatches H hc _ _ _).bind fun _ =>
        (Mirrors.note _).bind fun _ => (mirrors_runCompletion H link hfinal).bind fun _ =>
          (Mirrors.note _).bind fun _ => .pure _
  · split
    · exact .pure _
    · exact (Mirrors.setCurrent _).bind fun _ => .never (mirrors_dispatch H)

/-! ### Settings -/

omit H in
theorem mirrors_setDisposition (d : Disposition) (signal : FaultSignal) :
    Mirrors s s' (setDisposition d signal) (setDisposition d signal) :=
  .modifyShared (fun _ => rfl) (fun _ _ => rfl) fun _ h => h

omit H in
theorem mirrors_setDispositions (d : Disposition) : ∀ signals,
    Mirrors s s' (setDispositions d signals) (setDispositions d signals)
  | [] => .pure _
  | _ :: rest => (mirrors_setDisposition d _).bind fun _ => mirrors_setDispositions d rest

omit H in
theorem mirrors_setTrapping (enabled : Bool) :
    Mirrors s s' (setTrapping enabled) (setTrapping enabled) := by
  have hswitch : Mirrors s s' (modifyShared fun x => { x with trapping := enabled })
      (modifyShared fun x => { x with trapping := enabled }) :=
    .modifyShared (fun _ => rfl) (fun _ _ => rfl) fun _ h => h
  exact (mirrors_setDispositions _ _).bind fun _ => hswitch.bind fun _ => .note _

omit H in
theorem mirrors_applySettings (settings : Settings) :
    Mirrors s s' (applySettings settings) (applySettings settings) := by
  have hbacktrace : Mirrors s s'
      (modifyShared fun x => { x with forceBacktrace := settings.backtrace })
      (modifyShared fun x => { x with forceBacktrace := settings.backtrace }) :=
    .modifyShared (fun _ => rfl) (fun _ _ => rfl) fun _ h => h
  refine hbacktrace.bind fun _ => Mirrors.bind (.machine fun h => ?_) fun _ => .note _
  rw [h.trapping]
  dsimp only
  split
  · exact mirrors_setTrapping true
  · split
    · exact mirrors_setTrapping false
    · exact .pure _

/-! ### All of them -/

omit H in
theorem mirrors_times {x y : Effect Unit} (hx : Mirrors s s' x y) :
    ∀ n, Mirrors s s' (Effect.times x n) (Effect.times y n)
  | 0 => .pure _
  | n + 1 => hx.bind fun _ => mirrors_times hx n

/-- Each statement does on a machine what it does on its twins. -/
theorem mirrors_perform {stmt : Stmt} (h : stmt.Frameless) :
    Mirrors s s' (stmt.perform exec) (stmt.perform exec') := by
  cases h with
  | emit message => exact .note _
  | state => exact Mirrors.depth.bind fun _ => Mirrors.current.bind fun _ => .note _
  | repeated h => exact mirrors_times (H _ h) _
  | throw v => exact .never ((Mirrors.note _).bind fun _ => mirrors_raise H _)
  | rethrow => exact .never (mirrors_rethrow H)
  | attempt h hc => exact mirrors_declare H h hc
  | setHook h => exact .setHook _ h
  | setHooks ha hb hc =>
    exact (Mirrors.setHook _ ha).bind fun _ => (Mirrors.setHook _ hb).bind fun _ => .setHook _ hc
  | hooks => exact .hooks fun _ _ => .note _
  | notPanic => exact .note _
  | exit status => exact .never (mirrors_exitThread _)
  | foreign message => exact .unwind _
  | intercept h =>
    refine (H _ h).catchUnwind.bind fun r => ?_
    cases r with
    | ok _ => exact .note _
    | error t => exact .note _
  | trapFaults enabled => exact (mirrors_setTrapping _).bind fun _ => .note _
  | signals =>
    refine .machine fun h => Mirrors.bind (.machine fun h' => ?_) fun _ => ?_
    · rw [h'.dispositions]
      exact .pure _
    · rw [h.trapping]
      exact .note _
  | fault cause => exact mirrors_meetFault H _
  | apply settings =>
    cases settings with
    | none => exact .note _
    | some settings => exact (mirrors_applySettings _).bind fun _ => .note _
  | notInit => exact .note _

theorem mirrors_performAll : ∀ {b : Block}, Block.Frameless b →
    Mirrors s s' (Stmt.performAll exec b) (Stmt.performAll exec' b)
  | [], _ => .pure _
  | _ :: _, h => (mirrors_perform H (h _ List.mem_cons_self)).bind fun _ =>
    mirrors_performAll fun s hs => h s (List.mem_cons_of_mem _ hs)

end

/-! ## Runs -/

/-- A block that holds no guards is left as it is. -/
theorem leaveBlock_nothing_held {exec : Executor} {m : Machine} (h : m.thread.held = [] :: held) :
    (leaveBlock exec).run m = ⟨.returned (), m.withHeld held⟩ := by
  have hdrop : (dropGuards exec 0).run m = ⟨.returned (), m⟩ := rfl
  have hexit := run_onExit_returned hdrop (run_popHeld m)
  rw [h] at hexit
  rw [run_leaveBlock, h]
  exact hexit

theorem mirrors_asBlock {exec exec' : Executor} {x y : Effect Unit} (hx : Mirrors s s' x y) :
    Mirrors s s' (asBlock exec x) (asBlock exec' y) := by
  intro held m m' h
  have hheld : ∀ {held m m'}, Twins s s' held m m' → m'.thread.held = held := fun h => by
    rw [h.thread]
    exact h.held
  rw [run_asBlock, run_asBlock, h.held, hheld h]
  obtain ⟨m₁, hrun⟩ | ⟨c, held', m₁, m₁', hrun, hrun', hleft⟩ | ⟨e, m₁, m₁', hrun, hrun', hleft⟩ :=
    (hx _ _ _ (h.withHeld ([] :: held))).cases
  · rw [run_onExit_halted hrun]
    exact .outOfFuel
  · rw [run_onExit_halted hrun, run_onExit_halted hrun']
    exact .halted hleft
  · have hexit : (leaveBlock exec).run m₁ = _ := leaveBlock_nothing_held hleft.held
    have hexit' : (leaveBlock exec').run m₁' = _ := leaveBlock_nothing_held (hheld hleft)
    cases e with
    | returned =>
      rw [run_onExit_returned hrun hexit, run_onExit_returned hrun' hexit']
      exact .same (hleft.withHeld held)
    | unwound t =>
      rw [run_onExit_unwound hrun hexit, run_onExit_unwound hrun' hexit']
      exact .same (hleft.withHeld held)
    | halted c =>
      rw [run_onExit_halted hrun, run_onExit_halted hrun']
      exact .halted hleft

/-- Code of this kind does the same on twins, within any bound that is not reached. -/
theorem mirrors_run : ∀ {n k : Nat}, n ≤ k → ∀ b, Block.Frameless b →
    Mirrors s s' (Job.run n (.block b)) (Job.run k (.block b))
  | 0, _, _, _, _ => fun _ _ _ _ => .outOfFuel
  | _ + 1, _ + 1, h, _, hb =>
    mirrors_asBlock (mirrors_performAll (mirrors_run (Nat.le_of_succ_le_succ h)) hb)

end NonlocalExit
