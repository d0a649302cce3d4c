import NonlocalExit.Program
import NonlocalExit.Proofs.Operations

/-!
# How effects are built

Whatever a script does is built from a few effects: small changes of the state, lines of the
journal, the reactions to unwinds, threads, jobs and try blocks.  `Built.perform`, `Built.step` and
`Built.verdict` say so of statements, of the steps of jobs and of programs.  The walk through all of
them is made here, once, for what is to hold however an effect ends, halts included.
-/

namespace NonlocalExit

variable [Declarations]

open Effect

/-- Whether two states of a thread agree on its level, its record and what is held back from it. -/
structure Thread.Alike (t t' : Thread) : Prop where
  number : t'.number = t.number
  depth : t'.depth = t.depth
  current : t'.current = t.current
  blocked : t'.blocked = t.blocked

/-- Whether two machines agree on which thread runs, on its level and its record, on how faults are
received and on all that was noted. -/
structure Machine.Alike (m m' : Machine) : Prop extends Thread.Alike m.thread m'.thread where
  journal : m'.shared.journal = m.shared.journal
  nextThread : m'.shared.nextThread = m.shared.nextThread
  trapping : m'.shared.trapping = m.shared.trapping
  dispositions : m'.shared.dispositions = m.shared.dispositions

/-- Whether a line says that a try block goes from one stage to another. -/
def Entry.isStage : Entry → Bool
  | .log (.stage ..) => true
  | _ => false

/-- What a line says was asked for: that faults be trapped from there on, or not. -/
def Entry.request? : Entry → Option Bool
  | .log (.trapping enabled) => some enabled
  | .log (.settingsApplied settings) => some settings.catchFaults
  | _ => none

/-- The effects that are built in the same way from the jobs of two executors, and from try blocks
if `tries` holds.  A record is only cleared or given an exception made from a value, and no stage is
noted; both are up to the try blocks.  The trapping of faults is switched together with all that
belongs to it, and what a fault changes of it is left to `meetFault`. -/
inductive Built (exec exec' : Executor) (tries : Prop) : {α : Type} → Effect α → Effect α → Prop
  | pure {α : Type} (a : α) : Built exec exec' tries (pure a) (pure a)
  | machine : Built exec exec' tries machine machine
  | modify {f : Machine → Machine} (h : ∀ m : Machine, m.Alike (f m)) :
    Built exec exec' tries (modify f) (modify f)
  | note {e : Entry} (h : e.isStage = false) (hr : e.request? = none) :
    Built exec exec' tries (note e) (note e)
  | clear : Built exec exec' tries (setCurrent none) (setCurrent none)
  | store (v : Value) :
    Built exec exec' tries (setCurrent (some (.of v))) (setCurrent (some (.of v)))
  | unwind {α : Type} (t : Transfer) : Built exec exec' tries (unwind t : Effect α) (unwind t)
  | halt {α : Type} (h : Halt) : Built exec exec' tries (halt h : Effect α) (halt h)
  | bind {α β : Type} {x x' : Effect α} {f f' : α → Effect β} (hx : Built exec exec' tries x x')
    (hf : ∀ a, Built exec exec' tries (f a) (f' a)) :
    Built exec exec' tries (x >>= f) (x' >>= f')
  | onExit {α : Type} {x x' : Effect α} {y y' : Effect Unit} (hx : Built exec exec' tries x x')
    (hy : Built exec exec' tries y y') : Built exec exec' tries (onExit x y) (onExit x' y')
  | catchUnwind {α : Type} {x x' : Effect α} (hx : Built exec exec' tries x x') :
    Built exec exec' tries (catchUnwind x) (catchUnwind x')
  | abortOnUnwind {α : Type} {x x' : Effect α} (hx : Built exec exec' tries x x') :
    Built exec exec' tries (abortOnUnwind x) (abortOnUnwind x')
  | protect {α : Type} {x x' : Nat → Effect α}
    (hx : ∀ link, Built exec exec' tries (x link) (x' link)) :
    Built exec exec' tries (protect x) (protect x')
  | inThread {α : Type} {x x' : Effect α} (hx : Built exec exec' tries x x')
    (ht : Built exec exec' tries (teardown exec) (teardown exec')) :
    Built exec exec' tries (inThread exec x) (inThread exec' x')
  | job (j : Job) : Built exec exec' tries (exec j) (exec' j)
  | attempt (h : tries) (body : Block) (clauses : List (Trigger × Block)) :
    Built exec exec' tries (TryBlock.declare exec body clauses)
      (TryBlock.declare exec' body clauses)
  | trap (enabled : Bool) : Built exec exec' tries (setTrapping enabled) (setTrapping enabled)
  | apply (settings : Settings) :
    Built exec exec' tries (applySettings settings) (applySettings settings)
  | meetFault (cause : FaultCause)
    (hr : Built exec exec' tries (raise exec cause.fault.toValue)
      (raise exec' cause.fault.toValue)) :
    Built exec exec' tries (meetFault exec cause) (meetFault exec' cause)

namespace Built

variable {exec exec' : Executor} {tries : Prop} {α : Type}

/-! ## Small effects -/

theorem thread {f : Thread → Thread} (h : ∀ t : Thread, t.Alike (f t)) :
    Built exec exec' tries (modifyThread f) (modifyThread f) :=
  .modify fun m => ⟨h m.thread, rfl, rfl, rfl, rfl⟩

theorem shared {f : Shared → Shared}
    (h : ∀ s : Shared, (f s).journal = s.journal ∧ (f s).nextThread = s.nextThread ∧
      (f s).trapping = s.trapping ∧ (f s).dispositions = s.dispositions) :
    Built exec exec' tries (modifyShared f) (modifyShared f) :=
  .modify fun m =>
    ⟨⟨rfl, rfl, rfl, rfl⟩, (h m.shared).1, (h m.shared).2.1, (h m.shared).2.2.1, (h m.shared).2.2.2⟩

theorem never {x x' : Effect Empty} (hx : Built exec exec' tries x x') :
    Built exec exec' tries (never x : Effect α) (never x') :=
  hx.bind fun e => nomatch e

theorem capture {x x' : Effect Unit} (hx : Built exec exec' tries x x') :
    Built exec exec' tries (capture x) (capture x') := by
  refine hx.catchUnwind.bind fun r => ?_
  split
  · exact .pure _
  · split
    · exact .pure _
    · exact .unwind _

theorem guarded {x x' : Effect Unit} (hx : Built exec exec' tries x x') :
    Built exec exec' tries (guarded x) (guarded x') :=
  .protect fun _ => hx.capture.bind fun _ => .pure _

theorem current : Built exec exec' tries current current := .bind .machine fun _ => .pure _

theorem depth : Built exec exec' tries depth depth := .bind .machine fun _ => .pure _

theorem hooks : Built exec exec' tries hooks hooks := .bind .machine fun _ => .pure _

theorem setHook (kind : HookKind) (hook : Option Block) :
    Built exec exec' tries (setHook kind hook) (setHook kind hook) :=
  .shared fun _ => ⟨rfl, rfl, rfl, rfl⟩

/-! ## Frames -/

theorem withFrames (use : FrameStack Cleanup → α × FrameStack Cleanup) :
    Built exec exec' tries (withFrames use) (withFrames use) := by
  refine .bind .machine fun m => ?_
  dsimp only
  split
  · exact .unwind _
  · exact .bind (.thread fun _ => ⟨rfl, rfl, rfl, rfl⟩) fun _ => .pure _

theorem innermostId :
    Built exec exec' tries innermostId innermostId := .bind (.withFrames _) fun _ => .pure _

theorem openFrame : Built exec exec' tries openFrame openFrame :=
  .bind (.withFrames _) fun _ => .bind (.note rfl rfl) fun _ => .pure _

theorem innermostOrRoot : Built exec exec' tries innermostOrRoot innermostOrRoot := by
  refine .bind (.withFrames _) fun f => ?_
  split
  · exact .pure _
  · exact .openFrame

theorem enterFrame : Built exec exec' tries enterFrame enterFrame :=
  .bind .openFrame fun _ => .bind (.note rfl rfl) fun _ => .pure _

theorem leaveFrame (id : Nat) : Built exec exec' tries (leaveFrame exec id) (leaveFrame exec' id) :=
  .bind (.note rfl rfl) fun _ => .job _

theorem scope (body : Block) :
    Built exec exec' tries (scope exec (exec (.block body))) (scope exec' (exec' (.block body))) :=
  .bind .enterFrame fun id => .onExit (.job _) (.leaveFrame id)

theorem startCleanup (c : Cleanup) :
    Built exec exec' tries (startCleanup exec c) (startCleanup exec' c) := by
  refine .bind (.note rfl rfl) fun _ => .bind ?_ fun _ => .job _
  unfold announce
  split
  · exact .note rfl rfl
  · exact .pure _

theorem defer (a : Option String) (body : Block) :
    Built exec exec' tries (defer exec a body) (defer exec' a body) := by
  refine .bind .machine fun m => .bind (.shared fun _ => ⟨rfl, rfl, rfl, rfl⟩) fun _ =>
    .bind .machine fun m => ?_
  split
  · exact .bind (.note rfl rfl) fun _ => .startCleanup _
  · refine .bind .innermostOrRoot fun frame => .bind .machine fun m => ?_
    split
    · exact .bind (.thread fun _ => ⟨rfl, rfl, rfl, rfl⟩) fun _ => .note rfl rfl
    · exact .bind (.note rfl rfl) fun _ => .halt _

/-! ## Guards -/

theorem enter (name : String) :
    Built exec exec' tries (do hold ⟨name, ← Effect.enterFrame⟩)
      (do hold ⟨name, ← Effect.enterFrame⟩) :=
  .bind .enterFrame fun _ => .thread fun _ => ⟨rfl, rfl, rfl, rfl⟩

theorem releaseGuard (name : String) :
    Built exec exec' tries (releaseGuard name) (releaseGuard name) := by
  refine .bind .machine fun m => ?_
  split
  · exact .pure _
  · exact .bind (.thread fun _ => ⟨rfl, rfl, rfl, rfl⟩) fun _ => .pure _

theorem dropGuards : ∀ n, Built exec exec' tries (dropGuards exec n) (dropGuards exec' n)
  | 0 => .pure _
  | n + 1 => by
    refine .bind .machine fun m => ?_
    split
    · exact .bind (.thread fun _ => ⟨rfl, rfl, rfl, rfl⟩) fun _ =>
        .onExit (.leaveFrame _) (dropGuards n)
    · exact .pure _

theorem asBlock {x x' : Effect Unit} (hx : Built exec exec' tries x x') :
    Built exec exec' tries (asBlock exec x) (asBlock exec' x') := by
  have hleave : Built exec exec' tries (leaveBlock exec) (leaveBlock exec') :=
    .bind .machine fun _ => .onExit (.dropGuards _)
      (.thread fun _ => ⟨rfl, rfl, rfl, rfl⟩)
  exact .bind (.thread fun _ => ⟨rfl, rfl, rfl, rfl⟩) fun _ => .onExit hx hleave

/-! ## Exceptions -/

theorem exitThread (status : Int32) :
    Built exec exec' tries (exitThread status) (exitThread status) :=
  .bind (.note rfl rfl) fun _ => .unwind _

theorem abandon : Built exec exec' tries abandon abandon := .bind .clear fun _ => .exitThread _

theorem failUnexpected : Built exec exec' tries failUnexpected failUnexpected :=
  .bind .current fun _ => .bind (.note rfl rfl) fun _ => .abandon

theorem callHook (kind : HookKind) (hook : Block) (e : Exception) :
    Built exec exec' tries (callHook exec kind hook e) (callHook exec' kind hook e) :=
  .bind (.note rfl rfl) fun _ => .onExit (.job _) (.note rfl rfl)

theorem unexpected : Built exec exec' tries (unexpected exec) (unexpected exec') := by
  refine .bind .hooks fun h => .bind .current fun e => ?_
  split
  · refine .bind (.guarded (.callHook _ _ _)) fun escaped => ?_
    split
    · exact .bind (.note rfl rfl) fun _ => .bind (.setHook _ _) fun _ => .failUnexpected
    · exact .abandon
  · exact .failUnexpected

theorem unhandled : Built exec exec' tries (unhandled exec) (unhandled exec') := by
  refine .bind .hooks fun h => .bind .current fun e => ?_
  split
  · refine .bind (.guarded (.callHook _ _ _)) fun escaped => ?_
    split
    · exact .unexpected
    · exact .abandon
  · exact .bind (.note rfl rfl) fun _ => .abandon

theorem runThrowHook (hook : Block) (e : Exception) :
    Built exec exec' tries (runThrowHook exec hook e) (runThrowHook exec' hook e) := by
  have hflag : ∀ b : Bool,
      Built exec exec' tries (modifyThread fun t => { t with hookRunning := b })
        (modifyThread fun t => { t with hookRunning := b }) :=
    fun _ => .thread fun _ => ⟨rfl, rfl, rfl, rfl⟩
  exact .bind (hflag true) fun _ => .onExit (.callHook _ _ _) (hflag false)

theorem callThrowHook : Built exec exec' tries (callThrowHook exec) (callThrowHook exec') := by
  refine .bind .hooks fun h => .bind .machine fun m => .bind .current fun e => ?_
  split
  · refine .bind (.guarded (.runThrowHook _ _)) fun escaped => ?_
    split
    · exact .never .unexpected
    · exact .pure _
  · exact .pure _

theorem noteDispatch (e : Option Exception) :
    Built exec exec' tries (noteDispatch e) (noteDispatch e) := by
  unfold Effect.noteDispatch
  split
  · exact .note rfl rfl
  · exact .pure _

theorem dispatch : Built exec exec' tries (dispatch exec) (dispatch exec') := by
  refine .bind .current fun e => .bind (.noteDispatch e) fun _ => .bind .callThrowHook fun _ =>
    .bind .depth fun d => ?_
  split
  · exact .unwind _
  · exact .unhandled

theorem raise (v : Value) :
    Built exec exec' tries (raise exec v) (raise exec' v) := .bind (.store v) fun _ => .dispatch

theorem rethrow : Built exec exec' tries (rethrow exec) (rethrow exec') := by
  refine .bind .current fun e => ?_
  split
  · exact .bind (.note rfl rfl) fun _ => .unexpected
  · refine .bind .depth fun d => ?_
    split
    · exact .unhandled
    · exact .unwind _

/-! ## Panics -/

theorem swapMark (id : Nat) (mark : Option Nat) :
    Built exec exec' tries (swapMark id mark) (swapMark id mark) :=
  .withFrames _

theorem settle (token : Nat) {body body' : Effect Unit} (hb : Built exec exec' tries body body') :
    Built exec exec' tries (settle token body) (settle token body') := by
  refine .bind hb.catchUnwind fun r => ?_
  split
  · exact .pure _
  · split
    · exact .bind (.note rfl rfl) fun _ => .pure _
    · exact .unwind _
  · exact .unwind _

theorem recover {body body' : Effect Unit} (hb : Built exec exec' tries body body') :
    Built exec exec' tries (recover body) (recover body') := by
  have htoken : Built exec exec' tries freshToken freshToken :=
    .bind .machine fun _ => .bind (.shared fun _ => ⟨rfl, rfl, rfl, rfl⟩) fun _ => .pure _
  have hlist : ∀ rs, Built exec exec' tries (modifyThread fun t => { t with recovering := rs })
      (modifyThread fun t => { t with recovering := rs }) := fun _ =>
    .thread fun _ => ⟨rfl, rfl, rfl, rfl⟩
  exact .bind htoken fun token => .bind .innermostOrRoot fun frame =>
    .bind (.swapMark _ _) fun previous => .bind .machine fun _ => .bind (hlist _) fun _ =>
      .onExit (.settle token hb) (.bind (.swapMark _ _) fun _ => hlist _)

theorem panic (code : ErrorCode) : Built exec exec' tries (panic exec code) (panic exec' code) :=
  .bind (.note rfl rfl) fun _ => .bind (.job _) fun _ => .bind (.note rfl rfl) fun _ =>
    .bind .machine fun _ => .bind (.note rfl rfl) fun _ => .exitThread _

/-! ## Threads -/

theorem initThread : Built exec exec' tries initThread initThread := by
  refine .bind .machine fun m => .bind (.thread fun _ => ⟨rfl, rfl, rfl, rfl⟩)
    fun _ => ?_
  split
  · exact .pure _
  · exact .bind .innermostOrRoot fun _ => .pure _

theorem declareThread : Built exec exec' tries declareThread declareThread := by
  refine .bind .initThread fun first => ?_
  unfold warnUnless
  split
  · exact .pure _
  · exact .note rfl rfl

theorem runBody {body body' : Effect Int32} (hb : Built exec exec' tries body body') :
    Built exec exec' tries (runBody exec body) (runBody exec' body') := by
  have hopen : ∀ base, Built exec exec' tries (openSession base) (openSession base) := by
    intro base
    refine .bind .innermostId fun id => ?_
    split
    · exact .bind .openFrame fun _ => .pure _
    · exact .pure _
  have hclose : ∀ owner, Built exec exec' tries (closeSession owner) (closeSession owner) := by
    intro owner
    unfold closeSession
    split
    · exact .thread fun _ => ⟨rfl, rfl, rfl, rfl⟩
    · exact .pure _
  refine .bind .innermostId fun base => .bind .initThread fun owner => .bind (hopen base) fun _ =>
    .bind hb.catchUnwind fun result => .bind (.job _) fun _ => .bind (hclose owner) fun _ => ?_
  unfold statusOf
  split
  · exact .pure _
  · exact .pure _
  · exact .unwind _

theorem threadBody (status : Int32) (body : Block) :
    Built exec exec' tries (threadBody exec status body) (threadBody exec' status body) :=
  .bind (.job _) fun _ => .pure _

theorem startAll : ∀ cs, Built exec exec' tries (startAll exec cs) (startAll exec' cs)
  | [] => .pure _
  | c :: rest => .bind (.startCleanup c) fun _ => startAll rest

theorem closeTornUnwinding : ∀ fs,
    Built exec exec' tries (closeTornUnwinding exec fs) (closeTornUnwinding exec' fs)
  | [] => .pure _
  | _ :: rest => .bind (.abortOnUnwind (.startAll _)) fun _ => closeTornUnwinding rest

theorem closeTorn : ∀ fs, Built exec exec' tries (closeTorn exec fs) (closeTorn exec' fs)
  | [] => .pure _
  | _ :: rest => by
    refine .bind (.catchUnwind (.startAll _)) fun r => ?_
    split
    · exact closeTorn rest
    · exact .bind (.closeTornUnwinding _) fun _ => .halt _

theorem teardown : Built exec exec' tries (teardown exec) (teardown exec') :=
  .bind .machine fun _ => .bind (.thread fun _ => ⟨rfl, rfl, rfl, rfl⟩) fun _ =>
    .closeTorn _

theorem runPlain (status : Int32) (body : Block) :
    Built exec exec' tries (runPlain exec status body) (runPlain exec' status body) := by
  refine .bind (.inThread (.job _) .teardown) fun r => ?_
  split <;> exact .pure _

theorem spawn (status : Int32) (name : Option String) (stackSize : Option Nat) (body : Block) :
        Built exec exec' tries (spawn exec status name stackSize body)
          (spawn exec' status name stackSize body) := by
  unfold Effect.spawn
  split
  · exact .unwind _
  · split
    · exact .pure _
    · exact .bind (.inThread (.runBody (.threadBody _ _)) .teardown) fun _ => .pure _

theorem exitProcess (status : Int32) :
    Built exec exec' tries (exitProcess exec status : Effect α) (exitProcess exec' status) :=
  .bind .teardown fun _ => .halt _

/-! ## Statements, jobs and programs -/

theorem times {x x' : Effect Unit} (hx : Built exec exec' tries x x') : ∀ n,
    Built exec exec' tries (Effect.times x n) (Effect.times x' n)
  | 0 => .pure _
  | n + 1 => .bind hx fun _ => times hx n

theorem perform (s : Stmt) : Built exec exec' True (s.perform exec) (s.perform exec') := by
  cases s with
  | emit message => exact .note rfl rfl
  | state => exact .bind .depth fun _ => .bind .current fun _ => .note rfl rfl
  | repeated n body => exact .times (.job _) n
  | throw v => exact .never (.bind (.note rfl rfl) fun _ => .raise v)
  | rethrow => exact .never .rethrow
  | attempt body clauses => exact .attempt trivial body clauses
  | setHook kind hook => exact .setHook kind hook
  | setHooks a b c =>
    exact .bind (.setHook _ _) fun _ => .bind (.setHook _ _) fun _ => .setHook _ _
  | hooks => exact .bind .hooks fun _ => .note rfl rfl
  | scope body => exact .scope body
  | defer body => exact .defer none body
  | deferWith a body => exact .bind (.defer (some a) body) fun _ => .note rfl rfl
  | enter name => exact .enter name
  | leave name =>
    refine .bind (.releaseGuard name) fun g => ?_
    split
    · exact .leaveFrame _
    · exact .pure _
  | leak name => exact .bind (.releaseGuard name) fun _ => .pure _
  | initThread => exact .declareThread
  | panic code =>
    cases code with
    | none => exact .note rfl rfl
    | some code => exact .never (.panic code)
  | recover value body =>
    refine .bind (.recover (.job _)) fun r => ?_
    split <;> exact .note rfl rfl
  | exit status => exact .never (.exitThread status)
  | run status body => exact .bind (.runBody (.threadBody _ _)) fun _ => .note rfl rfl
  | spawn status name stackSize body => exact .bind (.spawn _ _ _ _) fun _ => .note rfl rfl
  | rawThread status body => exact .bind (.runPlain _ _) fun _ => .note rfl rfl
  | foreign message => exact .unwind _
  | intercept body =>
    refine .bind (.catchUnwind (.job _)) fun r => ?_
    split <;> exact .note rfl rfl
  | exitProcess status => exact .exitProcess status
  | trapFaults enabled => exact .bind (.trap enabled) fun _ => .note rfl rfl
  | signals =>
    exact .bind .machine fun _ => .bind (.bind .machine fun _ => .pure _) fun _ => .note rfl rfl
  | fault cause => exact .meetFault cause (.raise _)
  | apply settings =>
    cases settings with
    | none => exact .note rfl rfl
    | some settings => exact .bind (.apply settings) fun _ => .note rfl rfl
  | init settings =>
    cases settings with
    | none => exact .note rfl rfl
    | some settings =>
      exact .bind (.bind (.apply settings) fun _ => .bind .declareThread fun _ =>
        .note rfl rfl) fun _ => .note rfl rfl

theorem performAll : ∀ ss, Built exec exec' True (Stmt.performAll exec ss)
    (Stmt.performAll exec' ss)
  | [] => .pure _
  | s :: rest => .bind (.perform s) fun _ => performAll rest

theorem step (j : Job) : Built exec exec' True (j.step exec) (j.step exec') := by
  cases j with
  | block ss => exact .asBlock (.performAll ss)
  | close id =>
    refine .bind (.withFrames _) fun taken => ?_
    split
    · exact .pure _
    · exact .note rfl rfl
    · exact .bind (.startCleanup _) fun _ => .job _
  | closeAbove base =>
    refine .bind (.withFrames _) fun f => ?_
    split
    · exact .pure _
    · split
      · exact .pure _
      · exact .bind (.job _) fun _ => .job _
  | walk code =>
    refine .bind (.withFrames _) fun f => ?_
    split
    · exact .pure _
    · split
      · exact .unwind _
      · exact .bind (.note rfl rfl) fun _ => .bind (.job _) fun _ => .job _

theorem verdict (p : Program) : Built exec exec' tries (p.verdict exec) (p.verdict exec') := by
  have hmain : Built exec exec' tries (p.mainThread exec) (p.mainThread exec') := by
    refine .bind (.catchUnwind (.job _)) fun r => ?_
    split
    · exact .bind (.note rfl rfl) fun _ => .exitProcess _
    · refine .bind (.note rfl rfl) fun _ => ?_
      split <;> exact .exitProcess _
  unfold Program.verdict
  split
  · exact .bind (.spawn _ _ _ _) fun _ => .pure _
  · exact .bind (.runPlain _ _) fun _ => .pure _
  · exact .never hmain

end Built

end NonlocalExit
