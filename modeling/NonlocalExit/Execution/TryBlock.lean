import NonlocalExit.Execution.Exceptions

/-!
# Try blocks

A try block runs its body, then the first clause that matches an exception from the body, then its
completion clause, and at last throws again what no clause has consumed.  A clause that ends by
throwing the exception again does not consume it; any other exception that escapes a clause is
unexpected.
-/

namespace NonlocalExit

variable [Declarations]

/-- A clause of a try block that waits for exceptions of one type, or of any. -/
structure Catch where
  type : Option ThrowType
  handler : Exception → Effect Unit

/-- A try block. -/
structure TryBlock where
  body : Effect Unit
  catches : List Catch
  completion : Option (Effect Unit)

namespace TryBlock

open Effect

/-- Writes down that a try block goes from one stage to another. -/
def advance (link : Nat) (before after : Stage) : Effect Unit := log (.stage link before after)

/-- The first clause that matches an exception.  A clause whose tag agrees and whose type does not
is passed over with a warning. -/
def select (e : Exception) : List Catch → Effect (Option Catch)
  | [] => pure none
  | c :: rest =>
    match c.type with
    | none => pure (some c)
    | some t =>
      if e.tag = t.tag then
        if e.type = t then pure (some c)
        else do
          log (.tagClash e.tag)
          select e rest
      else select e rest

/-- Runs the body.  What comes out is the exception that waits for a clause. -/
def runBody (exec : Executor) (body : Effect Unit) : Effect (Option Exception) := do
  match ← capture body with
  | none => pure none
  | some escape =>
    match ← current with
    | some e => pure (some e)
    | none =>
      log (.emptyRecord escape)
      never (unexpected exec)

/-- What a clause leaves of the exception it was given: nothing when it ended, and the exception
when it threw it again.  The record is then as it was when the try block was entered, `outer`. -/
def settle (exec : Executor) (outer : Option Exception) (e : Exception) :
    Option Escape → Effect (Option Exception)
  | none => do
    setCurrent outer
    pure none
  | some .rethrown => pure (some e)
  | some .thrown => never (unexpected exec)

/-- Runs the clause that matches an exception.  What comes out is the exception if it is not
consumed. -/
def runCatch (exec : Executor) (catches : List Catch) (outer : Option Exception) (link : Nat)
    (e : Exception) : Effect (Option Exception) := do
  match ← select e catches with
  | none => pure (some e)
  | some c =>
    advance link .catching .unexpected
    let pending ← settle exec outer e (← capture (c.handler e))
    advance link .unexpected .catching
    pure pending

/-- Runs the clause that matches the exception from the body, if there is an exception. -/
def runCatches (exec : Executor) (catches : List Catch) (outer : Option Exception) (link : Nat) :
    Option Exception → Effect (Option Exception)
  | none => pure none
  | some e => runCatch exec catches outer link e

/-- Takes an exception that has escaped for unexpected. -/
def refuse (exec : Executor) : Option Escape → Effect Unit
  | none => pure ()
  | some _ => never (unexpected exec)

/-- Runs the completion clause. -/
def runCompletion (exec : Executor) (link : Nat) : Option (Effect Unit) → Effect Unit
  | none => pure ()
  | some final => do
    advance link .finishing .unexpected
    refuse exec (← capture final)
    advance link .unexpected .finishing

/-- All stages of a try block up to the last.  What comes out is the exception that no clause has
consumed. -/
def runStages (exec : Executor) (t : TryBlock) (outer : Option Exception) (link : Nat) :
    Effect (Option Exception) := do
  advance link .trying .trying
  let escaped ← runBody exec t.body
  advance link .trying .catching
  let pending ← runCatches exec t.catches outer link escaped
  advance link .catching .finishing
  runCompletion exec link t.completion
  advance link .finishing .propagating
  pure pending

/-- Runs a try block. -/
def run (exec : Executor) (t : TryBlock) : Effect Unit := do
  let outer ← current
  match ← protect (runStages exec t outer) with
  | none => pure ()
  | some e =>
    setCurrent (some e)
    never (dispatch exec)

/-! ## Declaration -/

/-- The clauses of a declaration that wait for exceptions. -/
def catchesOf (exec : Executor) : List (Trigger × Block) → List Catch
  | [] => []
  | (.typed t, body) :: rest =>
    ⟨some t, fun e =>
      match e.downcast? t with
      | some v => do
        report (.caught v)
        exec (.block body)
      | none => pure ()⟩ :: catchesOf exec rest
  | (.any, body) :: rest =>
    ⟨none, fun e => do
      report (.caughtAny e)
      exec (.block body)⟩ :: catchesOf exec rest
  | (.completion, _) :: rest => catchesOf exec rest

/-- The completion clauses of a declaration. -/
def completionsOf : List (Trigger × Block) → List Block
  | [] => []
  | (.completion, body) :: rest => body :: completionsOf rest
  | _ :: rest => completionsOf rest

/-- Warns of every completion clause after the first. -/
def warnRepeated : List Block → Effect Unit
  | [] | [_] => pure ()
  | _ :: rest => do
    log .secondFinally
    warnRepeated rest

/-- Declares a try block and runs it.  Of several completion clauses the last one counts. -/
def declare (exec : Executor) (body : Block) (clauses : List (Trigger × Block)) : Effect Unit := do
  let completions := completionsOf clauses
  warnRepeated completions
  run exec {
    body := exec (.block body)
    catches := catchesOf exec clauses
    completion := completions.getLast?.map fun final => do
      report .completing
      exec (.block final) }

end TryBlock

end NonlocalExit
