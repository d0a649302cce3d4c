import NonlocalExit.Execution.Run

/-!
# Programs

A program is a block together with where it is run: on a thread of the library, on a plain thread,
or on the main thread of a process of its own.
-/

namespace NonlocalExit

variable [Declarations]

/-- Where the body of a program is run. -/
inductive Mode
  | spawned
  | plain
  | process
  deriving DecidableEq, Repr

/-- A program. -/
structure Program where
  mode : Mode
  status : Int32
  body : Block

/-- What is known of a program when it has ended. -/
inductive Verdict
  | spawned (result : SpawnResult)
  | plain (result : ThreadResult)
  | process (halt : Halt)
  deriving DecidableEq, Repr

/-- The end of a program and everything that happened before, oldest first. -/
structure Report where
  verdict : Verdict
  entries : List Entry

namespace Program

open Effect

/-- The body of a process: the program's body, a report of its end, and the exit. -/
def mainThread (exec : Executor) (p : Program) : Effect Empty := do
  match ← catchUnwind (exec (.block p.body)) with
  | .ok () =>
    report (.ended (.status p.status))
    exitProcess exec p.status
  | .error t =>
    report (.ended t.result)
    match t with
    | .threadExit status => exitProcess exec status
    | _ => exitProcess exec 101

/-- What a program does, in terms of the execution of jobs. -/
def verdict (exec : Executor) (p : Program) : Effect Verdict :=
  match p.mode with
  | .spawned => do pure <| .spawned (← spawn exec p.status none none p.body)
  | .plain => do pure <| .plain (← runPlain exec p.status p.body)
  | .process => never (mainThread exec p)

/-- Runs a program in given surroundings, in at most `fuel` nested steps. -/
def runWith (w : Surroundings) (fuel : Nat) (p : Program) : Report :=
  match (verdict (Job.run fuel) p).run (.fresh w) with
  | ⟨.returned v, m⟩ => ⟨v, m.entries⟩
  | ⟨.halted h, m⟩ => ⟨.process h, m.entries⟩
  | ⟨.unwound _, m⟩ => ⟨.process .aborted, m.entries⟩

/-- The bound within which programs are run. -/
def fuel : Nat := 1000000

/-- Runs a program in bare surroundings. -/
def run (p : Program) : Report := runWith .bare fuel p

end Program

namespace Report

/-- What a reader at a given level sees of a run: reports and log records. -/
def visible (r : Report) (level : Level) : List (Event ⊕ LogRecord) :=
  r.entries.filterMap (Entry.visible? level)

/-- The diagnostics of a run. -/
def diagnostics (r : Report) : List Diagnostic := r.entries.filterMap Entry.diagnostic?

end Report

/-- The exit code that the system shows for a status: its lowest byte. -/
def exitCode (status : Int32) : Nat := (status.toInt % 256).toNat

end NonlocalExit
