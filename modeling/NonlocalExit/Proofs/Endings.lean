import NonlocalExit.Proofs.Construction
import NonlocalExit.Proofs.Unwinding

/-!
# Laws for every ending

A law says nothing of an effect that halts, for the effect is not left.  A `Reading` asks something
of both: one relation between the machines before and after where an effect is left, and another one
where the process stops.  `Reading.Closed.follows`: a reading that the few effects follow from which
everything is built, and try blocks too, is followed by every run.
-/

namespace NonlocalExit

variable [Declarations]

open Effect

/-- What is asked of an effect: `left` where it is left and `halted` where it halts. -/
structure Reading where
  left : Machine → Machine → Prop
  halted : Machine → Machine → Prop

/-- Whether an outcome is as a reading asks, for an effect that was started on some machine. -/
def Outcome.Fits {α : Type} (R : Reading) (m : Machine) : Outcome α → Prop
  | ⟨.returned _, m'⟩ => R.left m m'
  | ⟨.unwound _, m'⟩ => R.left m m'
  | ⟨.halted _, m'⟩ => R.halted m m'

/-- Whether every outcome of an effect is as a reading asks. -/
def Effect.Follows {α : Type} (R : Reading) (x : Effect α) : Prop := ∀ m, (x.run m).Fits R m

namespace Reading

/-- What a reading has to allow so that whatever is built without a try block follows it. -/
structure Closed (R : Reading) : Prop where
  refl : ∀ m, R.left m m
  trans : ∀ {m m₁ m₂}, R.left m m₁ → R.left m₁ m₂ → R.left m m₂
  /-- The process may stop wherever an effect may be left. -/
  stop : ∀ {m m'}, R.left m m' → R.halted m m'
  stopLater : ∀ {m m₁ m₂}, R.left m m₁ → R.halted m₁ m₂ → R.halted m m₂
  alike : ∀ {m m' : Machine}, m.Alike m' → R.left m m'
  note : ∀ (m : Machine) {e : Entry}, e.isStage = false → e.request? = none → R.left m (m.note e)
  clear : ∀ m : Machine, R.left m (m.withCurrent none)
  store : ∀ (m : Machine) (v : Value), R.left m (m.withCurrent (some (.of v)))
  protect : ∀ {m m' : Machine}, R.left m.deeper m' → R.left m (m'.unprotected m.thread.depth)
  protectHalted : ∀ {m m' : Machine}, R.halted m.deeper m' → R.halted m m'
  /-- A thread that waited goes on as it was. -/
  thread : ∀ {m m' : Machine}, R.left m.threadStarted m' → R.left m { m' with thread := m.thread }
  threadHalted : ∀ {m m' : Machine}, R.halted m.threadStarted m' → R.halted m m'
  trap : ∀ (m : Machine) (enabled : Bool), R.left m (m.trappingSet enabled)
  apply : ∀ (m : Machine) (settings : Settings), R.left m (m.settingsApplied settings)
  dismissed : ∀ {m : Machine} {cause}, m.reception cause = .dismissed →
    R.left m (m.dismissed cause.signal)
  trapEntered : ∀ {m : Machine} {cause deferred}, m.reception cause = .trapped deferred →
    R.left m (m.trapEntered deferred cause.signal)

variable {R : Reading} {α β : Type} {x : Effect α} {m m' : Machine}

theorem fits_of_returned {a : α} (h : x.run m = ⟨.returned a, m'⟩) (hx : (x.run m).Fits R m) :
    R.left m m' := by
  rw [h] at hx
  exact hx

theorem fits_of_unwound {t : Transfer} (h : x.run m = ⟨.unwound t, m'⟩)
    (hx : (x.run m).Fits R m) : R.left m m' := by
  rw [h] at hx
  exact hx

theorem fits_of_halted {e : Halt} (h : x.run m = ⟨.halted e, m'⟩) (hx : (x.run m).Fits R m) :
    R.halted m m' := by
  rw [h] at hx
  exact hx

namespace Closed

variable (C : R.Closed)
include C

/-- Where one effect is left and then another one ends, the reading is that of both together. -/
theorem fits_trans {m₁ : Machine} {out : Outcome β} (h : R.left m m₁) (hout : out.Fits R m₁) :
    out.Fits R m := by
  obtain ⟨_ | _ | _, m₂⟩ := out
  · exact C.trans h hout
  · exact C.trans h hout
  · exact C.stopLater h hout

theorem follows_bind {f : α → Effect β} (hx : Follows R x) (hf : ∀ a, Follows R (f a)) :
    Follows R (x >>= f) := by
  intro m
  rw [run_bind]
  rcases hr : x.run m with ⟨a | t | e, m₁⟩
  · exact C.fits_trans (fits_of_returned hr (hx m)) (hf a m₁)
  · exact fits_of_unwound hr (hx m)
  · exact fits_of_halted hr (hx m)

theorem follows_abortOnUnwind (hx : Follows R x) : Follows R (abortOnUnwind x) := by
  intro m
  rw [run_abortOnUnwind]
  rcases hr : x.run m with ⟨a | t | e, m₁⟩
  · exact fits_of_returned hr (hx m)
  · exact C.stop (fits_of_unwound hr (hx m))
  · exact fits_of_halted hr (hx m)

theorem follows_pure (a : α) : Follows R (pure a) := fun m => C.refl m

theorem follows_unwind (t : Transfer) : Follows R (unwind t : Effect α) := fun m => C.refl m

theorem follows_onExit {y : Effect Unit} (hx : Follows R x) (hy : Follows R y) :
    Follows R (onExit x y) := by
  intro m
  rw [run_onExit]
  rcases hr : x.run m with ⟨a | t | e, m₁⟩
  · have hexit : Follows R (y >>= fun _ => pure a) := C.follows_bind hy fun _ => C.follows_pure a
    exact C.fits_trans (fits_of_returned hr (hx m)) (hexit m₁)
  · have hexit : Follows R (abortOnUnwind y >>= fun _ => (unwind t : Effect α)) :=
      C.follows_bind (C.follows_abortOnUnwind hy) fun _ => C.follows_unwind t
    exact C.fits_trans (fits_of_unwound hr (hx m)) (hexit m₁)
  · exact fits_of_halted hr (hx m)

omit C in
theorem follows_catchUnwind (hx : Follows R x) : Follows R (catchUnwind x) := by
  intro m
  rw [run_catchUnwind]
  rcases hr : x.run m with ⟨a | t | e, m₁⟩
  · exact fits_of_returned hr (hx m)
  · exact fits_of_unwound hr (hx m)
  · exact fits_of_halted hr (hx m)

theorem follows_protect {body : Nat → Effect α} (hb : ∀ link, Follows R (body link)) :
    Follows R (Effect.protect body) := by
  intro m
  rw [run_protect, run_onExit]
  rcases hr : (body m.thread.depth).run m.deeper with ⟨a | t | e, m₁⟩
  · exact C.protect (fits_of_returned hr (hb _ m.deeper))
  · exact C.protect (fits_of_unwound hr (hb _ m.deeper))
  · exact C.protectHalted (fits_of_halted hr (hb _ m.deeper))

/-- The teardown of a thread is not left by an unwind, so the thread that waited goes on. -/
theorem follows_inThread {exec : Executor} {body : Effect α} (hb : Follows R body)
    (ht : Follows R (teardown exec)) : Follows R (inThread exec body) := by
  intro m
  have hend : Follows R (catchUnwind body >>= fun _ => teardown exec) :=
    C.follows_bind (follows_catchUnwind hb) fun _ => ht
  rw [run_inThread]
  rcases hr : (catchUnwind body).run m.threadStarted with ⟨r | t | e, m₁⟩
  · rw [run_bind_returned hr]
    rcases htear : (teardown exec).run m₁ with ⟨_ | t | e, m₂⟩
    · rw [run_bind_returned htear]
      exact C.thread (fits_of_returned ((run_bind_returned hr).trans htear) (hend _))
    · cases (leaves_teardown exec (leaves_of_unwound htear)).1
    · rw [run_bind_halted htear]
      exact C.threadHalted (fits_of_halted ((run_bind_returned hr).trans htear) (hend _))
  · cases (leaves_catchUnwind.1 (leaves_of_unwound hr)).2
  · rw [run_bind_halted hr]
    exact C.threadHalted (fits_of_halted (run_bind_halted hr) (hend _))

/-- What is built from jobs and try blocks that follow the reading follows it. -/
theorem of_alike {exec exec' : Executor} {tries : Prop} {x' : Effect α}
    (hjob : ∀ j, Follows R (exec j))
    (htry : tries → ∀ body clauses, Follows R (TryBlock.declare exec body clauses))
    (h : Built exec exec' tries x x') : Follows R x := by
  induction h with
  | pure a => exact C.follows_pure a
  | machine => exact fun m => C.refl m
  | modify h => exact fun m => C.alike (h m)
  | note h hr => exact fun m => C.note m h hr
  | clear => exact fun m => C.clear m
  | store v => exact fun m => C.store m v
  | unwind t => exact C.follows_unwind t
  | halt e => exact fun m => C.stop (C.refl m)
  | bind _ _ hx hf => exact C.follows_bind hx hf
  | onExit _ _ hx hy => exact C.follows_onExit hx hy
  | catchUnwind _ hx => exact follows_catchUnwind hx
  | abortOnUnwind _ hx => exact C.follows_abortOnUnwind hx
  | protect _ hb => exact C.follows_protect hb
  | inThread _ _ hb ht => exact C.follows_inThread hb ht
  | job j => exact hjob j
  | attempt h body clauses => exact htry h body clauses
  | trap enabled =>
    intro m
    rw [run_setTrapping]
    exact C.trap m enabled
  | apply settings =>
    intro m
    rw [run_applySettings]
    exact C.apply m settings
  | meetFault cause _ hr =>
    intro m
    rw [run_meetFault]
    cases h : m.reception cause with
    | held => exact C.refl m
    | stopped => exact C.stop (C.refl m)
    | dismissed => exact C.dismissed h
    | trapped deferred => exact C.fits_trans (C.trapEntered h) (C.follows_bind hr nofun _)

theorem of_built {exec : Executor} {tries : Prop} (hjob : ∀ j, Follows R (exec j))
    (htry : tries → ∀ body clauses, Follows R (TryBlock.declare exec body clauses))
    (h : Built exec exec tries x x) : Follows R x := C.of_alike hjob htry h

/-- What a try block calls follows the reading if jobs do. -/
theorem fits_called {n : Nat} {body : Block} {clauses : List (Trigger × Block)} {l : Label}
    {c : Activation} (hjob : ∀ j, Follows R (Job.run n j))
    (e : Enters ⟨n, .stmt (.attempt body clauses), m⟩ l c) : c.run.Fits R c.machine := by
  have hunexpected : Follows R (never (unexpected (Job.run n)) : Effect Unit) :=
    C.of_built hjob False.elim Built.unexpected.never
  cases e with
  | attempt => exact hjob _ _
  | recordEmpty => exact hunexpected _
  | clause => exact hjob _ _
  | clauseThrew => exact hunexpected _
  | completion => exact hjob _ _
  | completionThrew => exact hunexpected _
  | again => exact C.of_built hjob False.elim Built.dispatch.never _

variable (htry : ∀ n, (∀ j, Follows R (Job.run n j)) →
  ∀ body clauses, Follows R (TryBlock.declare (Job.run n) body clauses))
include htry

/-- Every run of a job follows the reading if try blocks do. -/
theorem follows_job : ∀ n j, Follows R (Job.run n j)
  | 0, _ => fun m => C.stop (C.refl m)
  | n + 1, j => C.of_built (follows_job n) (fun _ => htry n (follows_job n)) (.step j)

/-- Whatever is built from the jobs of a run follows the reading if try blocks do. -/
theorem follows {n : Nat} {tries : Prop} (h : Built (Job.run n) (Job.run n) tries x x) :
    Follows R x :=
  C.of_built (C.follows_job htry n) (fun _ => htry n (C.follows_job htry n)) h

end Closed

end Reading

theorem Built.task {exec exec' : Executor} (T : Task) :
    Built exec exec' True (T.effect exec) (T.effect exec') := by
  cases T with
  | job j => exact .job j
  | rest ss => exact .performAll ss
  | stmt s => exact .perform s
  | drops count => exact .dropGuards count
  | session status body => exact (Built.runBody (.threadBody status body)).bind fun _ => .pure ()
  | dispatch => exact Built.dispatch.never
  | unhandled => exact Built.unhandled.never
  | unexpected => exact Built.unexpected.never

end NonlocalExit
