import NonlocalExit.Execution.Run

/-!
# The demonstration

A tour of the library: each stop runs a small script and tells what came of it, as read from the
journal.
-/

namespace NonlocalExit.CommandLine

open Effect

variable {α : Type}

/-- Prints a text for the user. -/
def print (text : String) : Effect Unit := note (.printed text)

/-- Runs an effect and gives what it reported. -/
def observe (x : Effect α) : Effect (α × List Event) := do
  let before := (← machine).shared.journal.length
  let a ← x
  let journal := (← machine).shared.journal
  let new := (journal.take (journal.length - before)).reverse
  return (a, new.filterMap fun line => line.entry.event?)

/-- The messages among events. -/
def messages (events : List Event) : List String :=
  events.filterMap fun
    | .emitted s => some s
    | _ => none

/-- The arguments of the cleanups among events, as a list is written. -/
def cleanupOrder (events : List Event) : String :=
  let arguments := events.filterMap fun
    | .handler a => some a
    | _ => none
  "[" ++ ", ".intercalate arguments ++ "]"

/-- Runs a try block. -/
def tryBlock (exec : Executor) (body : Block) (clauses : List (Trigger × Block)) :
    Effect (List Event) := do
  return (← observe (TryBlock.declare exec body clauses)).2

/-- Registers two cleanups. -/
def deferTwice (exec : Executor) : Effect Unit := do
  defer exec (some "1") []
  defer exec (some "2") []

/-- A number is thrown and caught. -/
def showThrow (exec : Executor) : Effect Unit := do
  let events ← tryBlock exec [.throw (.int 5)] [(.typed .int, []), (.completion, [])]
  let caught := events.findSome? fun
    | .caught (.int v) => some v.toInt
    | _ => none
  let shown := match caught with
    | some n => "Some(" ++ toString n ++ ")"
    | none => "None"
  print ("throw:     caught " ++ shown ++ ", finally ran: " ++
    toString (events.contains .completing) ++ "\n")

/-- Nothing is thrown. -/
def showNoThrow (exec : Executor) : Effect Unit := do
  let events ← tryBlock exec [.emit "try"]
    [(.typed .int, [.emit "catch"]), (.completion, [.emit "finally"])]
  print ("no throw:  " ++ " -> ".intercalate (messages events) ++ "\n")

/-- A fault is caught. -/
def showFault (exec : Executor) (settings : Settings) : Effect Unit := do
  if !(← machine).shared.trapping then setTrapping true
  let events ← tryBlock exec [.fault (.raised .fpe)] [(.typed .arithmeticError, [])]
  if !settings.catchFaults then setTrapping false
  let caught := events.findSome? fun
    | .caught (.arithmeticError kind _) => some kind.message
    | _ => none
  print ("sigfpe:    " ++ caught.getD "not caught" ++ "\n")

/-- Two cleanups run. -/
def showDefer (exec : Executor) : Effect Unit := do
  let ((), events) ← observe (scope exec (deferTwice exec))
  print ("defer:     cleanups ran in order " ++ cleanupOrder events ++ "\n")

/-- A panic is recovered. -/
def showRecover (exec : Executor) : Effect Unit := do
  let panicking : Effect Unit := scope exec do
    deferTwice exec
    never (panic exec .einval)
  let (recovered, events) ← observe (scope exec (recover panicking))
  match recovered with
  | none => print "recover:   no panic\n"
  | some code =>
    print ("recover:   " ++ code.name ++ " after cleanups " ++ cleanupOrder events ++ "\n")

/-- The whole tour. -/
def demonstration (exec : Executor) (settings : Settings) : Effect Unit := do
  print ("config:\n" ++ settings.toToml)
  showThrow exec
  showNoThrow exec
  showFault exec settings
  showDefer exec
  showRecover exec

end NonlocalExit.CommandLine
