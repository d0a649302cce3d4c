import NonlocalExit.Machine

/-!
# Effects

An effect runs on a machine and ends in one of three ways: it returns, it is left by an unwind, or
the whole process halts.  A transfer of control is therefore a value, and the constructs that react
to one are ordinary functions:

* `onExit` runs a second effect whenever the first one is left.  An unwind that leaves the second
  effect while it runs because of an unwind aborts the process.
* `catchUnwind` stops every unwind, and `capture` those of exceptions.

A halt stops for nothing.
-/

namespace NonlocalExit

variable [Declarations]

/-- How an effect ends. -/
inductive Ending (α : Type)
  | returned (a : α)
  | unwound (t : Transfer)
  | halted (h : Halt)
  deriving DecidableEq

/-- The end of an effect and the state it leaves. -/
structure Outcome (α : Type) where
  ending : Ending α
  machine : Machine

/-- A computation on machines. -/
structure Effect (α : Type) where
  /-- The outcome on a given machine. -/
  run : Machine → Outcome α

namespace Effect

variable {α β : Type}

/-- Returns a value and changes nothing. -/
protected def pure (a : α) : Effect α := ⟨fun m => ⟨.returned a, m⟩⟩

/-- Runs an effect and then another one with its value. -/
protected def bind (x : Effect α) (f : α → Effect β) : Effect β := ⟨fun m =>
  match x.run m with
  | ⟨.returned a, m'⟩ => (f a).run m'
  | ⟨.unwound t, m'⟩ => ⟨.unwound t, m'⟩
  | ⟨.halted h, m'⟩ => ⟨.halted h, m'⟩⟩

instance : Monad Effect where
  pure := Effect.pure
  bind := Effect.bind

/-- The current state. -/
def machine : Effect Machine := ⟨fun m => ⟨.returned m, m⟩⟩

/-- Changes the state. -/
def modify (f : Machine → Machine) : Effect Unit := ⟨fun m => ⟨.returned (), f m⟩⟩

/-- Changes the state of the thread. -/
def modifyThread (f : Thread → Thread) : Effect Unit :=
  modify fun m => { m with thread := f m.thread }

/-- Changes the shared state. -/
def modifyShared (f : Shared → Shared) : Effect Unit :=
  modify fun m => { m with shared := f m.shared }

/-- Starts an unwind. -/
def unwind (t : Transfer) : Effect α := ⟨fun m => ⟨.unwound t, m⟩⟩

/-- Stops the process. -/
def halt (h : Halt) : Effect α := ⟨fun m => ⟨.halted h, m⟩⟩

/-- An effect that never returns can stand for one of any type. -/
def never (x : Effect Empty) : Effect α := x >>= fun e => nomatch e

/-! ## Writing the journal -/

/-- Writes a line into the journal. -/
def note (entry : Entry) : Effect Unit := modify (·.note entry)

/-- Reports an event. -/
def report (e : Event) : Effect Unit := note (.event e)

/-- Writes a log record. -/
def log (r : LogRecord) : Effect Unit := note (.log r)

/-- Prints a diagnostic. -/
def diagnose (d : Diagnostic) : Effect Unit := note (.diagnostic d)

/-- Writes down a step. -/
def step (s : Step) : Effect Unit := note (.step s)

/-! ## Reacting to transfers -/

/-- An unwind that leaves the effect aborts the process. -/
def abortOnUnwind (x : Effect α) : Effect α := ⟨fun m =>
  match x.run m with
  | ⟨.returned a, m'⟩ => ⟨.returned a, m'⟩
  | ⟨.unwound _, m'⟩ => ⟨.halted .aborted, m'⟩
  | ⟨.halted h, m'⟩ => ⟨.halted h, m'⟩⟩

/-- Runs the second effect whenever the first one is left, by returning or by an unwind.  While an
unwind is under way the second effect must not be left by another one. -/
def onExit (body : Effect α) (exit : Effect Unit) : Effect α := ⟨fun m =>
  match body.run m with
  | ⟨.returned a, m'⟩ => (exit >>= fun _ => pure a).run m'
  | ⟨.unwound t, m'⟩ => (exit.abortOnUnwind >>= fun _ => unwind t).run m'
  | ⟨.halted h, m'⟩ => ⟨.halted h, m'⟩⟩

/-- Stops every unwind. -/
def catchUnwind (body : Effect α) : Effect (Except Transfer α) := ⟨fun m =>
  match body.run m with
  | ⟨.returned a, m'⟩ => ⟨.returned (.ok a), m'⟩
  | ⟨.unwound t, m'⟩ => ⟨.returned (.error t), m'⟩
  | ⟨.halted h, m'⟩ => ⟨.halted h, m'⟩⟩

/-- Stops the unwinds of exceptions and says how the exception escaped. -/
def capture (body : Effect Unit) : Effect (Option Escape) := do
  match ← catchUnwind body with
  | .ok () => pure none
  | .error t =>
    match t.escape? with
    | some escape => pure (some escape)
    | none => unwind t

/-! ## What each effect does to a machine -/

@[simp] theorem run_pure (a : α) (m : Machine) :
    (pure a : Effect α).run m = ⟨.returned a, m⟩ := rfl

theorem run_bind (x : Effect α) (f : α → Effect β) (m : Machine) :
    (x >>= f).run m =
      match x.run m with
      | ⟨.returned a, m'⟩ => (f a).run m'
      | ⟨.unwound t, m'⟩ => ⟨.unwound t, m'⟩
      | ⟨.halted h, m'⟩ => ⟨.halted h, m'⟩ := rfl

/-- What follows an effect that returns is run on the state it leaves. -/
theorem run_bind_returned {x : Effect α} {f : α → Effect β} {m m' : Machine} {a : α}
    (h : x.run m = ⟨.returned a, m'⟩) : (x >>= f).run m = (f a).run m' := by
  rw [run_bind, h]

/-- What follows an effect that is left by an unwind is not run. -/
theorem run_bind_unwound {x : Effect α} {f : α → Effect β} {m m' : Machine} {t : Transfer}
    (h : x.run m = ⟨.unwound t, m'⟩) : (x >>= f).run m = ⟨.unwound t, m'⟩ := by
  rw [run_bind, h]

/-- What follows a halt is not run. -/
theorem run_bind_halted {x : Effect α} {f : α → Effect β} {m m' : Machine} {h : Halt}
    (hx : x.run m = ⟨.halted h, m'⟩) : (x >>= f).run m = ⟨.halted h, m'⟩ := by
  rw [run_bind, hx]

theorem run_bind_assoc {γ : Type} (x : Effect α) (f : α → Effect β) (g : β → Effect γ)
    (m : Machine) : ((x >>= f) >>= g).run m = (x >>= fun a => f a >>= g).run m := by
  rw [run_bind, run_bind, run_bind]
  obtain ⟨_ | _ | _, _⟩ := x.run m
  · rfl
  · rfl
  · rfl

@[simp] theorem run_machine (m : Machine) : machine.run m = ⟨.returned m, m⟩ := rfl

@[simp] theorem run_modify (f : Machine → Machine) (m : Machine) :
    (modify f).run m = ⟨.returned (), f m⟩ := rfl

@[simp] theorem run_unwind (t : Transfer) (m : Machine) :
    (unwind t : Effect α).run m = ⟨.unwound t, m⟩ := rfl

@[simp] theorem run_halt (h : Halt) (m : Machine) :
    (halt h : Effect α).run m = ⟨.halted h, m⟩ := rfl

end Effect

end NonlocalExit
