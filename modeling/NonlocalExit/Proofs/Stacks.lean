import NonlocalExit.Proofs.Levels
import NonlocalExit.Proofs.Unwinding

/-!
# The call stack of a thread

`Stack` lists the calls that a thread is inside at a point of its run, from the start of its code or
of a cleanup of its teardown on.  `Stack.depth`: the depth that a thread knows is at every point
the number of try blocks and guarded hooks on its call stack.
-/

namespace NonlocalExit

open Effect

section

variable [Declarations]

/-! ## Call stacks -/

/-- Which cleanups are started, and on which machine, when the frames of a thread that ends are
closed.  A cleanup that is left by an unwind passes over the others of its frame. -/
inductive StartedAtEnd (exec : Executor) :
    List (Frame Cleanup) → Machine → Cleanup → Machine → Prop
  | here {f fs cs c ds} {m m₁ : Machine} (hp : f.pending = cs ++ c :: ds)
    (h : (startAll exec cs).run m = ⟨.returned (), m₁⟩) : StartedAtEnd exec (f :: fs) m c m₁
  | later {f fs c o} {m m₁ m₂ : Machine} (h : ((startAll exec f.pending).run m).Leaves o m₁)
    (hl : StartedAtEnd exec fs m₁ c m₂) : StartedAtEnd exec (f :: fs) m c m₂

/-- Where the body of a thread starts, on a thread that has not done anything yet. -/
inductive Activation.IsStart : Activation → Prop
  | body {n b number blocked} {m : Machine} (hm : m.thread = .new number blocked)
    (hn : number < m.shared.nextThread) : IsStart ⟨n, .job (.block b), m⟩
  | session {n status b number blocked} {m : Machine} (hm : m.thread = .new number blocked)
    (hn : number < m.shared.nextThread) : IsStart ⟨n, .session status b, m⟩

/-- The calls that a thread is inside at a piece of its run, innermost first. -/
inductive Stack : List (Label × Activation) → Activation → Prop
  | start {a : Activation} (h : a.IsStart) : Stack [] a
  /-- A cleanup of the teardown, when the body has been left.  The end of a program is noted before
  its teardown. -/
  | ended {a : Activation} {o c} {m₁ m₂ m : Machine} (h : a.IsStart) (hl : a.run.Leaves o m₁)
    (hm : m₂ = m₁ ∨ ∃ r, m₂ = m₁.note (.event (.ended r)))
    (hs : StartedAtEnd (Job.run a.fuel) m₂.thread.frames.frames.reverse m₂.tornDown c m) :
    Stack [] ⟨a.fuel, .job (.block c.body), m.starting c⟩
  /-- A cleanup of the teardown at the end of the process. -/
  | exiting {K n status c} {m m₁ : Machine} (h : Stack K ⟨n, .stmt (.exitProcess status), m⟩)
    (hs : StartedAtEnd (Job.run n) m.thread.frames.frames.reverse m.tornDown c m₁) :
    Stack ((.unwinding, ⟨n, .stmt (.exitProcess status), m⟩) :: K)
      ⟨n, .job (.block c.body), m₁.starting c⟩
  | call {K a l b} (h : Stack K a) (e : Enters a l b) : Stack ((l, a) :: K) b

/-! ## Levels along the calls -/

section

variable {a b : Activation} {l : Label} {n : Nat} {m m' : Machine} {o : Option Transfer}

/-- However a piece is left, the thread is on the level on which the piece was started. -/
theorem depth_of_leaves (h : a.run.Leaves o m) : m.thread.depth = a.machine.thread.depth :=
  Machine.Level.oblivious.obeys_run h

/-- A call of a try block or of a guarded hook is one level deeper than where it is made, and any
other call is on the same level. -/
theorem depth_of_enters (e : Enters a l b) :
    b.machine.thread.depth = a.machine.thread.depth + if l.protects then 1 else 0 := by
  have h := Machine.Level.oblivious.leads e
  generalize b.machine = m at h
  cases h with
  | same hl h =>
    rw [hl]
    exact h
  | deeper hl ht h h' =>
    rw [hl]
    exact Eq.trans h' (congrArg (· + 1) h)
  | throwHook hr h =>
    rw [h]
    rfl

/-- A relation that starting a cleanup and running code keep holds up to the start of every cleanup
of a teardown. -/
theorem StartedAtEnd.obeys {r : Machine → Machine → Prop} [Composes r]
    {fs : List (Frame Cleanup)} {c : Cleanup} (h : StartedAtEnd (Job.run n) fs m c m')
    (hstart : ∀ c m, r m (m.starting c)) (hrun : ∀ j, Obeys (.ofRel r) (Job.run n j)) :
    r m (m'.starting c) := by
  have hcleanup : ∀ c, Obeys (.ofRel r) (startCleanup (Job.run n) c) := by
    intro c m o m' h
    rw [run_startCleanup] at h
    exact Composes.trans (hstart c m) (hrun _ _ _ _ h)
  induction h with
  | here hp h =>
    have hbefore := obeys_startAll hcleanup _ _ _ _ (leaves_of_returned h)
    exact Composes.trans hbefore (hstart _ _)
  | later h hl ih => exact Composes.trans (obeys_startAll hcleanup _ _ _ _ h) ih

/-- A relation that does not look at frames holds up to the start of every cleanup of a teardown. -/
theorem StartedAtEnd.keeps {r : Machine → Machine → Prop} (P : Oblivious r)
    {fs : List (Frame Cleanup)} {c : Cleanup} (h : StartedAtEnd (Job.run n) fs m c m') :
    r m (m'.starting c) := by
  have := P.toComposes
  exact h.obeys P.starting (P.obeys n)

theorem Activation.IsStart.depth (h : a.IsStart) : a.machine.thread.depth = 0 := by
  cases h with
  | body hm => exact congrArg Thread.depth hm
  | session hm => exact congrArg Thread.depth hm

/-- The depth of a thread is the number of protecting calls on its stack. -/
theorem Stack.depth {K : List (Label × Activation)} (h : Stack K a) :
    a.machine.thread.depth = K.countP (·.1.protects) := by
  have P := Machine.Level.oblivious
  induction h with
  | start h => exact h.depth
  | ended h hl hm hs =>
    have hend := (depth_of_leaves hl).trans h.depth
    refine Eq.trans (hs.keeps P) ?_
    obtain rfl | ⟨r, rfl⟩ := hm
    · exact hend
    · exact hend
  | exiting h hs ih =>
    rw [List.countP_cons_of_neg Bool.false_ne_true, ← ih]
    exact hs.keeps P
  | call h e ih => rw [List.countP_cons, depth_of_enters e, ih]

end

/-- However a statement is left, the depth is as it was before, and wherever a thread comes to, the
depth is the number of try blocks and guarded hooks that it is inside. -/
theorem depth_counts_protection :
    (∀ (n : Nat) (s : Stmt) (m m' : Machine) (o : Option Transfer),
      ((s.perform (Job.run n)).run m).Leaves o m' → m'.thread.depth = m.thread.depth) ∧
    ∀ (K : List (Label × Activation)) (a : Activation), Stack K a →
      a.machine.thread.depth = K.countP (·.1.protects) :=
  ⟨fun n s m _ _ h => depth_of_leaves (a := ⟨n, .stmt s, m⟩) h, fun _ _ h => h.depth⟩

end

/-- A try block around a scope that a panic closes early. -/
def panicInTry : Stmt := .attempt [.scope [.defer [.state], .panic (some .enoent)]] []

/-- The machine in the scope, after the cleanup was registered. -/
def inPanickingScope : Machine :=
  let entered := (Machine.initial.withHeld [[]]).tryEntered []
  let scope := (entered.withHeld ([] :: entered.thread.held)).scopeEntered
  ((Stmt.perform (Job.run 6) (.defer [.state])).run
    (scope.withHeld ([] :: scope.thread.held))).machine

theorem depth_counts_protection_walked :
    (∃ t m', (panicInTry.perform (Job.run 8)).run Machine.initial = ⟨.unwound t, m'⟩ ∧
      m'.thread.depth = 0) ∧
    ∃ K a, Stack K a ∧ a.task = .job (.block [.state]) ∧ K.countP (·.1.protects) = 1 ∧
      a.machine.thread.depth = 1 := by
  have hstart : Activation.IsStart ⟨9, .job (.block [panicInTry]), .initial⟩ :=
    .body rfl (by decide : 0 < _)
  obtain ⟨t, m', hrun⟩ : ∃ t m', (panicInTry.perform (Job.run 8)).run Machine.initial =
      ⟨.unwound t, m'⟩ := ⟨_, _, rfl⟩
  have hstack := (((((((((((Stack.start hstart).call (.block _ _ _)).call (.first _ _ _ _)).call
    (.attempt _ _ _ _)).call (.block _ _ _)).call (.first _ _ _ _)).call (.scope _ _ rfl)).call
    (.block _ _ _)).call (@Enters.next _ _ _ _ _ inPanickingScope rfl)).call
    (.first _ _ _ _)).call (.panic _ _ _)).call (.passed _ _ rfl rfl rfl) |>.call
    (.cleanup _ rfl rfl rfl)
  refine ⟨⟨t, m', hrun, ?_⟩, _, _, hstack, rfl, rfl, ?_⟩
  · exact depth_counts_protection.1 8 panicInTry _ _ _ (leaves_of_unwound hrun)
  · exact depth_counts_protection.2 _ _ hstack

end NonlocalExit
