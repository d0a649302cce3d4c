import NonlocalExit.Proofs.Unwinding

/-!
# Laws of scripts

`Governs.perform`: a law that the operations on frames, threads and recoveries obey, and that does
not mind what is noted or set besides, is obeyed by every statement.  The walk through the
statements, the stages of try blocks and the calls of hooks is made once, here; a law brings in
only what it says about the operations that it is about.
-/

namespace NonlocalExit

variable [Declarations]

open Effect

/-- Whether a line of the journal is neither about frames and their cleanups nor about an unwind
that was stopped from outside. -/
def Entry.IsPlain : Entry → Prop
  | .step (.registered ..) | .step (.started _) | .step (.frameOpened _) => False
  | .step (.frameClosed _) | .step (.passed _) => False
  | .log (.enteredFrame _) | .log (.leftFrame _) => False
  | .event (.intercepted _) => False
  | _ => True

/-- Whether a line is about the sending of an exception and the calling of the throw hook. -/
def Entry.isHerald : Entry → Bool
  | .step (.dispatched _) | .step (.hookEnded .onThrow) | .event (.hook .onThrow _) => true
  | _ => false

/-- Whether a plain line is not about the sending of an exception either. -/
def Entry.IsMinor : Entry → Prop
  | .step (.dispatched _) | .step (.hookEnded .onThrow) | .event (.hook .onThrow _) => False
  | e => e.IsPlain

theorem Entry.IsMinor.isPlain {e : Entry} (h : e.IsMinor) : e.IsPlain := by
  unfold IsMinor at h
  split at h
  · exact h.elim
  · exact h.elim
  · exact h.elim
  · exact h

theorem Entry.IsMinor.isHerald {e : Entry} (h : e.IsMinor) : e.isHerald = false := by
  unfold IsMinor at h
  unfold Entry.isHerald
  split at h
  · exact h.elim
  · exact h.elim
  · exact h.elim
  · rfl

/-- Whether two shared states differ in settings only. -/
structure Shared.SameRecords (s s' : Shared) : Prop where
  journal : s'.journal = s.journal
  nextToken : s'.nextToken = s.nextToken
  nextSerial : s'.nextSerial = s.nextSerial
  nextThread : s'.nextThread = s.nextThread

namespace Effect

/-- Opens a frame that the current block holds by name. -/
def enter (name : String) : Effect Unit := do hold ⟨name, ← enterFrame⟩

/-- Runs a block and stops every unwind. -/
def intercept (exec : Executor) (body : Block) : Effect Unit := do
  match ← catchUnwind (exec (.block body)) with
  | .ok () => report (.intercepted none)
  | .error t => report (.intercepted (some t.result))

end Effect

/-- What a law needs, beyond what statements do with one another, to be obeyed by all of them. -/
structure Governs (R : Law) (exec : Executor) : Prop extends R.Composable where
  unwind : ∀ t m, R m (some t) m
  note : ∀ e, Entry.IsMinor e → ∀ m, R m none (m.note e)
  setCurrent : ∀ e, Obeys R (setCurrent e)
  declared : ∀ m, R m none m.declared
  blocked : ∀ signals (m : Machine), R m none (m.withBlocked signals)
  settings : ∀ f : Shared → Shared, (∀ s : Shared, s.SameRecords (f s)) → Obeys R (modifyShared f)
  protect : ∀ {α : Type} (body : Nat → Effect α), (∀ link, Obeys R (body link)) →
    Obeys R (protect body)
  capture : ∀ x, Obeys R x → Obeys R (capture x)
  hookEnded : ∀ (x : Effect Unit) kind, kind ≠ .onThrow → Obeys R x →
    Obeys R (onExit x (step (.hookEnded kind)))
  /-- What the throw hook does to an exception, before that is sent on its way. -/
  sendOff : Obeys R (unexpected exec) → ∀ {m o m'}, SendOff exec m o m' → R m o m'
  root : Obeys R innermostOrRoot
  block : ∀ b, Obeys R (exec (.block b))
  walk : ∀ code, Obeys R (exec (.walk code))
  leaveFrame : ∀ id, Obeys R (leaveFrame exec id)
  scope : ∀ b, Obeys R (scope exec (exec (.block b)))
  defer : ∀ a b, Obeys R (defer exec a b)
  enter : ∀ name, Obeys R (enter name)
  release : ∀ name, Obeys R (releaseGuard name)
  recover : ∀ b, Obeys R (recover (exec (.block b)))
  session : ∀ status b, Obeys R (runBody exec (threadBody exec status b))
  thread : ∀ status b, Obeys R (inThread exec (runBody exec (threadBody exec status b)))
  plainThread : ∀ b, Obeys R (inThread exec (exec (.block b)))
  intercept : ∀ b, Obeys R (intercept exec b)

/-! ## The throw hook -/

section ThrowHook

variable {r : Machine → Machine → Prop} {exec : Executor} {m m' : Machine} {o : Option Transfer}
  (hcalled : ∀ {m₁ : Machine} {e : Exception}, m.thread.hookRunning = false →
    r (m.throwHookCalled e) m₁ → r m (m₁.throwHookLeft m.thread.depth))
  (hblock : ∀ b, Obeys (.ofRel r) (exec (.block b)))
include hcalled hblock

/-- A relation that holds across the throw hook if it holds inside holds across the guarded call. -/
theorem keeps_guardedThrowHook {b : Block} {e : Exception} {escaped : Bool}
    (hr : m.thread.hookRunning = false)
    (h : (guarded (runThrowHook exec b e)).run (m.note (.step (.dispatched e))) =
      ⟨.returned escaped, m'⟩) : r m m' := by
  rw [run_guarded_runThrowHook] at h
  rcases hx : (exec (.block b)).run (m.throwHookCalled e) with ⟨_ | t | _, m₁⟩
  · rw [hx] at h
    cases h
    exact hcalled hr (hblock b _ _ _ (leaves_of_returned hx))
  · rw [hx] at h
    by_cases ht : t.escape? = none
    · rw [caught_unwound ht] at h
      cases h
    · rw [caught_escaped ht] at h
      cases h
      exact hcalled hr (hblock b _ _ _ (leaves_of_unwound hx))
  · rw [hx] at h
    cases h

/-- And it holds across all that is done before an exception is sent on its way. -/
theorem SendOff.keeps [Composes r] (hnoted : ∀ e, r m (m.note (.step (.dispatched e))))
    (hu : Obeys (.ofRel r) (unexpected exec)) (h : SendOff exec m o m') : r m m' := by
  cases h with
  | idle =>
    unfold Machine.dispatchNoted
    split
    · exact hnoted _
    · exact Composes.refl m
  | called hb hr he h _ => exact hcalled hr (hblock _ _ _ _ h)
  | threw hb hr he h ht hu' =>
    exact Composes.trans (hcalled hr (hblock _ _ _ _ (leaves_of_unwound h))) (hu _ _ _ hu')

end ThrowHook

namespace Governs

variable {R : Law} {exec : Executor} {α : Type}

section Steps

variable (G : Governs R exec)
include G

theorem obeys_pure (a : α) : Obeys R (pure a) := by
  have := G.toComposable
  exact .pure a

theorem obeys_bind {β : Type} {x : Effect α} {f : α → Effect β} (hx : Obeys R x)
    (hf : ∀ a, Obeys R (f a)) : Obeys R (x >>= f) := by
  have := G.toComposable
  exact hx.bind hf

theorem obeys_machine : Obeys R machine := by
  have := G.toComposable
  exact .machine

theorem obeys_never {x : Effect Empty} (hx : Obeys R x) : Obeys R (never x : Effect α) :=
  G.obeys_bind hx fun e => nomatch e

theorem obeys_unwind (t : Transfer) : Obeys R (Effect.unwind t : Effect α) := by
  intro m o m' h
  obtain ⟨rfl, rfl⟩ := leaves_unwind.1 h
  exact G.unwind _ _

theorem obeys_note {e : Entry} (he : e.IsMinor) : Obeys R (Effect.note e) :=
  .modify fun m => G.note e he m

theorem obeys_diagnose (d : Diagnostic) : Obeys R (diagnose d) := G.obeys_note trivial

theorem obeys_current : Obeys R current := G.obeys_bind G.obeys_machine fun _ => G.obeys_pure _

theorem obeys_depth : Obeys R depth := G.obeys_bind G.obeys_machine fun _ => G.obeys_pure _

theorem obeys_hooks : Obeys R hooks := G.obeys_bind G.obeys_machine fun _ => G.obeys_pure _

theorem obeys_setHook (kind : HookKind) (hook : Option Block) : Obeys R (setHook kind hook) :=
  G.settings _ fun _ => ⟨rfl, rfl, rfl, rfl⟩

/-! ## Exceptions -/

theorem obeys_exitThread (status : Int32) : Obeys R (exitThread status) :=
  G.obeys_bind (G.obeys_note trivial) fun _ => G.obeys_unwind _

theorem obeys_abandon : Obeys R abandon :=
  G.obeys_bind (G.setCurrent _) fun _ => G.obeys_exitThread _

theorem obeys_failUnexpected : Obeys R failUnexpected :=
  G.obeys_bind G.obeys_current fun _ =>
    G.obeys_bind (G.obeys_diagnose _) fun _ => G.obeys_abandon

theorem obeys_callHook {kind : HookKind} (hk : kind ≠ .onThrow) (hook : Block) (e : Exception) :
    Obeys R (callHook exec kind hook e) := by
  have hreport : Entry.IsMinor (.event (.hook kind e)) := by
    cases kind with
    | onThrow => exact (hk rfl).elim
    | onUnhandled | onUnexpected => trivial
  exact G.obeys_bind (G.obeys_note hreport) fun _ => G.hookEnded _ _ hk (G.block _)

theorem obeys_guarded {x : Effect Unit} (hx : Obeys R x) : Obeys R (guarded x) :=
  G.protect _ fun _ => G.obeys_bind (G.capture _ hx) fun _ => G.obeys_pure _

theorem obeys_unexpected : Obeys R (unexpected exec) := by
  refine G.obeys_bind G.obeys_hooks fun h => G.obeys_bind G.obeys_current fun e => ?_
  split
  · refine G.obeys_bind (G.obeys_guarded (G.obeys_callHook (by decide) _ _)) fun escaped => ?_
    split
    · refine G.obeys_bind (G.obeys_note trivial) fun _ => ?_
      exact G.obeys_bind (G.obeys_setHook _ _) fun _ => G.obeys_failUnexpected
    · exact G.obeys_abandon
  · exact G.obeys_failUnexpected

theorem obeys_unhandled : Obeys R (unhandled exec) := by
  refine G.obeys_bind G.obeys_hooks fun h => G.obeys_bind G.obeys_current fun e => ?_
  split
  · refine G.obeys_bind (G.obeys_guarded (G.obeys_callHook (by decide) _ _)) fun escaped => ?_
    split
    · exact G.obeys_unexpected
    · exact G.obeys_abandon
  · exact G.obeys_bind (G.obeys_diagnose _) fun _ => G.obeys_abandon

theorem obeys_sendOff {m m' : Machine} {o : Option Transfer}
    (h : ((noteDispatch m.thread.current >>= fun _ => callThrowHook exec).run m).Leaves o m') :
    R m o m' := G.sendOff G.obeys_unexpected (sendOff_of_leaves h)

theorem obeys_dispatch : Obeys R (dispatch exec) := by
  have := G.toComposable
  intro m o m' h
  rw [run_dispatch] at h
  have hsend : Obeys R (depth >>= fun d => if d > 0 then Effect.unwind .thrown
      else unhandled exec : Effect Empty) := by
    refine G.obeys_bind G.obeys_depth fun d => ?_
    split
    · exact G.obeys_unwind _
    · exact G.obeys_unhandled
  obtain ⟨_, m₁, hh, h⟩ | ⟨t, hh, rfl⟩ := leaves_bind.1 h
  · exact Law.Composable.trans (G.obeys_sendOff (leaves_of_returned hh)) (hsend _ _ _ h)
  · exact G.obeys_sendOff (leaves_of_unwound hh)

theorem obeys_raise (v : Value) : Obeys R (raise exec v) :=
  G.obeys_bind (G.setCurrent _) fun _ => G.obeys_dispatch

theorem obeys_throw (v : Value) : Obeys R (throw exec v) :=
  G.obeys_bind (G.obeys_note trivial) fun _ => G.obeys_raise _

theorem obeys_rethrow : Obeys R (rethrow exec) := by
  refine G.obeys_bind G.obeys_current fun e => ?_
  split
  · exact G.obeys_bind (G.obeys_note trivial) fun _ => G.obeys_unexpected
  · refine G.obeys_bind G.obeys_depth fun d => ?_
    split
    · exact G.obeys_unhandled
    · exact G.obeys_unwind _

/-! ## Try blocks -/

theorem obeys_advance (link : Nat) (before after : Stage) :
    Obeys R (TryBlock.advance link before after) := G.obeys_note trivial

theorem obeys_select (e : Exception) : ∀ cs, Obeys R (TryBlock.select e cs)
  | [] => G.obeys_pure _
  | c :: rest => by
    unfold TryBlock.select
    split
    · exact G.obeys_pure _
    · split
      · split
        · exact G.obeys_pure _
        · exact G.obeys_bind (G.obeys_note trivial) fun _ => obeys_select e rest
      · exact obeys_select e rest

theorem obeys_runBody {body : Effect Unit} (hb : Obeys R body) :
    Obeys R (TryBlock.runBody exec body) := by
  refine G.obeys_bind (G.capture _ hb) fun escaped => ?_
  split
  · exact G.obeys_pure _
  · refine G.obeys_bind G.obeys_current fun e => ?_
    split
    · exact G.obeys_pure _
    · exact G.obeys_bind (G.obeys_note trivial) fun _ => G.obeys_never G.obeys_unexpected

theorem obeys_settle (outer : Option Exception) (e : Exception) (escape : Option Escape) :
    Obeys R (TryBlock.settle exec outer e escape) := by
  unfold TryBlock.settle
  split
  · exact G.obeys_bind (G.setCurrent _) fun _ => G.obeys_pure _
  · exact G.obeys_pure _
  · exact G.obeys_never G.obeys_unexpected

theorem obeys_refuse (escape : Option Escape) : Obeys R (TryBlock.refuse exec escape) := by
  unfold TryBlock.refuse
  split
  · exact G.obeys_pure _
  · exact G.obeys_never G.obeys_unexpected

/-- The clause that is selected is one of the list, so its handler obeys the law if all do. -/
theorem obeys_select_bind {β : Type} {e : Exception} {cs : List Catch}
    {f : Option Catch → Effect β} (hnone : Obeys R (f none))
    (hsome : ∀ c ∈ cs, Obeys R (f (some c))) :
    Obeys R (TryBlock.select e cs >>= f) := by
  have := G.toComposable
  intro m o m' h
  have hmem : ∀ (cs : List Catch) (m m₁ : Machine) (r : Option Catch),
      (TryBlock.select e cs).run m = ⟨.returned r, m₁⟩ → ∀ c ∈ r, c ∈ cs := by
    intro cs
    induction cs with
    | nil => intro m m₁ r hr c hc; cases hr; simp at hc
    | cons d rest ih =>
      intro m m₁ r hr c hc
      unfold TryBlock.select at hr
      split at hr
      · cases hr; simp_all
      · split at hr
        · split at hr
          · cases hr; simp_all
          · exact List.mem_cons_of_mem _ (ih _ _ _ hr c hc)
        · exact List.mem_cons_of_mem _ (ih _ _ _ hr c hc)
  obtain ⟨r, m₁, hr, h⟩ | ⟨t, ht, rfl⟩ := leaves_bind.1 h
  · refine Law.Composable.trans (G.obeys_select e cs _ _ _ (leaves_of_returned hr)) ?_
    cases r with
    | none => exact hnone _ _ _ h
    | some c => exact hsome c (hmem cs m m₁ _ hr c rfl) _ _ _ h
  · exact G.obeys_select e cs _ _ _ (leaves_of_unwound ht)

theorem obeys_runCatches {catches : List Catch} (hc : ∀ c ∈ catches, ∀ e, Obeys R (c.handler e))
    (outer : Option Exception) (link : Nat) (e : Option Exception) :
    Obeys R (TryBlock.runCatches exec catches outer link e) := by
  cases e with
  | none => exact G.obeys_pure _
  | some e =>
    refine G.obeys_select_bind (G.obeys_pure _) fun c hmem => ?_
    refine G.obeys_bind (G.obeys_advance _ _ _) fun _ =>
      G.obeys_bind (G.capture _ (hc c hmem e)) fun _ =>
        G.obeys_bind (G.obeys_settle _ _ _) fun _ =>
          G.obeys_bind (G.obeys_advance _ _ _) fun _ => G.obeys_pure _

theorem obeys_runCompletion (link : Nat) {final : Option (Effect Unit)}
    (hf : ∀ x ∈ final, Obeys R x) : Obeys R (TryBlock.runCompletion exec link final) := by
  cases final with
  | none => exact G.obeys_pure _
  | some x =>
    exact G.obeys_bind (G.obeys_advance _ _ _) fun _ =>
      G.obeys_bind (G.capture _ (hf x rfl)) fun _ =>
        G.obeys_bind (G.obeys_refuse _) fun _ => G.obeys_advance _ _ _

theorem obeys_tryBlock {t : TryBlock} (hb : Obeys R t.body)
    (hc : ∀ c ∈ t.catches, ∀ e, Obeys R (c.handler e)) (hf : ∀ x ∈ t.completion, Obeys R x) :
    Obeys R (TryBlock.run exec t) := by
  refine G.obeys_bind G.obeys_current fun outer => ?_
  refine G.obeys_bind (G.protect _ fun link => ?_) fun pending => ?_
  · exact G.obeys_bind (G.obeys_advance _ _ _) fun _ =>
      G.obeys_bind (G.obeys_runBody hb) fun _ =>
        G.obeys_bind (G.obeys_advance _ _ _) fun _ =>
          G.obeys_bind (G.obeys_runCatches hc _ _ _) fun _ =>
            G.obeys_bind (G.obeys_advance _ _ _) fun _ =>
              G.obeys_bind (G.obeys_runCompletion _ hf) fun _ =>
                G.obeys_bind (G.obeys_advance _ _ _) fun _ => G.obeys_pure _
  · split
    · exact G.obeys_pure _
    · exact G.obeys_bind (G.setCurrent _) fun _ => G.obeys_never G.obeys_dispatch

theorem obeys_handlers (clauses : List (Trigger × Block)) :
    ∀ c ∈ TryBlock.catchesOf exec clauses, ∀ e, Obeys R (c.handler e) := by
  induction clauses with
  | nil => intro c hc; simp [TryBlock.catchesOf] at hc
  | cons clause rest ih =>
    obtain ⟨trigger, body⟩ := clause
    cases trigger with
    | typed t =>
      intro c hc e
      obtain rfl | hc := List.mem_cons.1 hc
      · dsimp only
        split
        · exact G.obeys_bind (G.obeys_note trivial) fun _ => G.block _
        · exact G.obeys_pure _
      · exact ih c hc e
    | any =>
      intro c hc e
      obtain rfl | hc := List.mem_cons.1 hc
      · exact G.obeys_bind (G.obeys_note trivial) fun _ => G.block _
      · exact ih c hc e
    | completion => exact ih

theorem obeys_warnRepeated : ∀ bs, Obeys R (TryBlock.warnRepeated bs)
  | [] => G.obeys_pure _
  | [_] => G.obeys_pure _
  | _ :: b :: rest =>
    G.obeys_bind (G.obeys_note trivial) fun _ => obeys_warnRepeated (b :: rest)

theorem obeys_declare (body : Block) (clauses : List (Trigger × Block)) :
    Obeys R (TryBlock.declare exec body clauses) := by
  refine G.obeys_bind (G.obeys_warnRepeated _) fun _ =>
    G.obeys_tryBlock (G.block _) (G.obeys_handlers _) fun x hx => ?_
  obtain ⟨final, _, rfl⟩ := Option.map_eq_some_iff.1 hx
  exact G.obeys_bind (G.obeys_note trivial) fun _ => G.block _

/-! ## Settings and faults -/

theorem obeys_setDispositions (d : Disposition) : ∀ l, Obeys R (setDispositions d l)
  | [] => G.obeys_pure _
  | _ :: rest =>
    G.obeys_bind (G.settings _ fun _ => ⟨rfl, rfl, rfl, rfl⟩) fun _ => obeys_setDispositions d rest

theorem obeys_setTrapping (enabled : Bool) : Obeys R (setTrapping enabled) :=
  G.obeys_bind (G.obeys_setDispositions _ _) fun _ =>
    G.obeys_bind (G.settings _ fun _ => ⟨rfl, rfl, rfl, rfl⟩) fun _ => G.obeys_note trivial

theorem obeys_meetFault (cause : FaultCause) : Obeys R (meetFault exec cause) := by
  refine G.obeys_bind G.obeys_machine fun m => ?_
  split
  · exact G.obeys_pure _
  · exact .halt
  · exact G.settings _ fun _ => ⟨rfl, rfl, rfl, rfl⟩
  · exact G.obeys_bind (.modify fun _ => G.blocked _ _) fun _ => G.obeys_never (G.obeys_raise _)

theorem obeys_applySettings (settings : Settings) : Obeys R (applySettings settings) := by
  refine G.obeys_bind (G.settings _ fun _ => ⟨rfl, rfl, rfl, rfl⟩) fun _ =>
    G.obeys_bind ?_ fun _ => G.obeys_note trivial
  refine G.obeys_bind G.obeys_machine fun m => ?_
  dsimp only
  split
  · exact G.obeys_setTrapping _
  · split
    · exact G.obeys_setTrapping _
    · exact G.obeys_pure _

theorem obeys_declareThread : Obeys R declareThread := by
  refine G.obeys_bind (G.obeys_bind G.obeys_machine fun m => ?_) fun first => ?_
  · refine G.obeys_bind (.modify G.declared) fun _ => ?_
    split
    · exact G.obeys_pure _
    · exact G.obeys_bind G.root fun _ => G.obeys_pure _
  · unfold warnUnless
    split
    · exact G.obeys_pure _
    · exact G.obeys_note trivial

/-! ## Statements -/

theorem obeys_times {x : Effect Unit} (hx : Obeys R x) : ∀ n, Obeys R (Effect.times x n)
  | 0 => G.obeys_pure _
  | n + 1 => G.obeys_bind hx fun _ => obeys_times hx n

theorem obeys_panic (code : ErrorCode) : Obeys R (panic exec code) :=
  G.obeys_bind (G.obeys_note trivial) fun _ => G.obeys_bind (G.walk _) fun _ =>
    G.obeys_bind (G.obeys_diagnose _) fun _ => G.obeys_bind G.obeys_machine fun _ =>
      G.obeys_bind (G.obeys_diagnose _) fun _ => G.obeys_exitThread _

theorem obeys_spawn (status : Int32) (name : Option String) (stackSize : Option Nat)
    (body : Block) : Obeys R (spawn exec status name stackSize body) := by
  unfold spawn
  split
  · exact G.obeys_unwind _
  · split
    · exact G.obeys_pure _
    · exact G.obeys_bind (G.thread _ _) fun _ => G.obeys_pure _

theorem obeys_runPlain (status : Int32) (body : Block) : Obeys R (runPlain exec status body) := by
  refine G.obeys_bind (G.plainThread _) fun r => ?_
  split <;> exact G.obeys_pure _

omit G in
theorem obeys_exitProcess (status : Int32) : Obeys R (exitProcess exec status : Effect α) :=
  fun _ _ _ h => (not_leaves_exitProcess exec h).elim

/-- Every statement obeys the law. -/
theorem perform (s : Stmt) : Obeys R (s.perform exec) := by
  cases s with
  | emit message => exact G.obeys_note trivial
  | state =>
    exact G.obeys_bind G.obeys_depth fun _ => G.obeys_bind G.obeys_current fun _ =>
      G.obeys_note trivial
  | repeated n body => exact G.obeys_times (G.block _) n
  | throw v => exact G.obeys_never (G.obeys_throw v)
  | rethrow => exact G.obeys_never G.obeys_rethrow
  | attempt body clauses => exact G.obeys_declare body clauses
  | setHook kind hook => exact G.obeys_setHook kind hook
  | setHooks a b c =>
    exact G.obeys_bind (G.obeys_setHook _ _) fun _ =>
      G.obeys_bind (G.obeys_setHook _ _) fun _ => G.obeys_setHook _ _
  | hooks => exact G.obeys_bind G.obeys_hooks fun _ => G.obeys_note trivial
  | scope body => exact G.scope body
  | defer body => exact G.defer none body
  | deferWith a body => exact G.obeys_bind (G.defer _ _) fun _ => G.obeys_note trivial
  | enter name => exact G.enter name
  | leave name =>
    refine G.obeys_bind (G.release name) fun g => ?_
    split
    · exact G.leaveFrame _
    · exact G.obeys_pure _
  | leak name => exact G.obeys_bind (G.release name) fun _ => G.obeys_pure _
  | initThread => exact G.obeys_declareThread
  | panic code =>
    cases code with
    | none => exact G.obeys_note trivial
    | some code => exact G.obeys_never (G.obeys_panic code)
  | recover value body =>
    refine G.obeys_bind (G.recover body) fun code => ?_
    split <;> exact G.obeys_note trivial
  | exit status => exact G.obeys_never (G.obeys_exitThread status)
  | run status body => exact G.obeys_bind (G.session status body) fun _ => G.obeys_note trivial
  | spawn status name stackSize body =>
    exact G.obeys_bind (G.obeys_spawn _ _ _ _) fun _ => G.obeys_note trivial
  | rawThread status body =>
    exact G.obeys_bind (G.obeys_runPlain _ _) fun _ => G.obeys_note trivial
  | foreign message => exact G.obeys_unwind _
  | intercept body => exact G.intercept body
  | exitProcess status => exact obeys_exitProcess status
  | trapFaults enabled =>
    exact G.obeys_bind (G.obeys_setTrapping _) fun _ => G.obeys_note trivial
  | signals =>
    exact G.obeys_bind G.obeys_machine fun _ =>
      G.obeys_bind (G.obeys_bind G.obeys_machine fun _ => G.obeys_pure _) fun _ =>
        G.obeys_note trivial
  | fault cause => exact G.obeys_meetFault cause
  | apply settings =>
    cases settings with
    | none => exact G.obeys_note trivial
    | some settings =>
      exact G.obeys_bind (G.obeys_applySettings _) fun _ => G.obeys_note trivial
  | init settings =>
    cases settings with
    | none => exact G.obeys_note trivial
    | some settings =>
      refine G.obeys_bind ?_ fun _ => G.obeys_note trivial
      exact G.obeys_bind (G.obeys_applySettings _) fun _ =>
        G.obeys_bind G.obeys_declareThread fun _ => G.obeys_note trivial

/-- Statements one after another obey the law. -/
theorem performAll : ∀ ss, Obeys R (Stmt.performAll exec ss)
  | [] => G.obeys_pure _
  | s :: rest => G.obeys_bind (G.perform s) fun _ => performAll rest

/-! ## Pieces -/

theorem obeys_bodyStage (body : Block) (link : Nat) :
    Obeys R (TryBlock.bodyStage exec body link) :=
  G.obeys_bind (G.obeys_runBody (G.block _)) fun _ =>
    G.obeys_bind (G.obeys_advance _ _ _) fun _ => G.obeys_pure _

theorem obeys_clauseStage (body : Block) (clauses : List (Trigger × Block))
    (outer : Option Exception) (link : Nat) :
    Obeys R (TryBlock.clauseStage exec body clauses outer link) :=
  G.obeys_bind (G.obeys_bodyStage body link) fun _ =>
    G.obeys_bind (G.obeys_runCatches (G.obeys_handlers clauses) _ _ _) fun _ =>
      G.obeys_bind (G.obeys_advance _ _ _) fun _ => G.obeys_pure _

theorem obeys_stages (body : Block) (clauses : List (Trigger × Block))
    (outer : Option Exception) (link : Nat) :
    Obeys R (TryBlock.runStages exec (.declared exec body clauses) outer link) := by
  refine G.obeys_bind (G.obeys_advance _ _ _) fun _ => G.obeys_bind (G.obeys_runBody (G.block _))
    fun _ => G.obeys_bind (G.obeys_advance _ _ _) fun _ =>
      G.obeys_bind (G.obeys_runCatches (G.obeys_handlers clauses) _ _ _) fun _ =>
        G.obeys_bind (G.obeys_advance _ _ _) fun _ =>
          G.obeys_bind (G.obeys_runCompletion _ fun x hx => ?_) fun _ =>
            G.obeys_bind (G.obeys_advance _ _ _) fun _ => G.obeys_pure _
  obtain ⟨final, _, rfl⟩ := Option.map_eq_some_iff.1 hx
  exact G.obeys_bind (G.obeys_note trivial) fun _ => G.block _

/-- Every piece of a run obeys the law, if jobs and the dropping of guards do. -/
theorem obeys_task (HJ : ∀ j, Obeys R (exec j)) (HD : ∀ count, Obeys R (dropGuards exec count))
    (T : Task) : Obeys R (T.effect exec) := by
  cases T with
  | job j => exact HJ j
  | rest ss => exact G.performAll ss
  | stmt s => exact G.perform s
  | drops count => exact HD count
  | session status body => exact G.obeys_bind (G.session _ _) fun _ => G.obeys_pure _
  | dispatch => exact G.obeys_never G.obeys_dispatch
  | unhandled => exact G.obeys_never G.obeys_unhandled
  | unexpected => exact G.obeys_never G.obeys_unexpected

end Steps

end Governs

end NonlocalExit
