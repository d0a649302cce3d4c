import NonlocalExit.CommandLine.Arguments
import NonlocalExit.CommandLine.Demonstration
import NonlocalExit.Program
import NonlocalExit.Settings.Read

/-!
# Answers

What a command prints and how it ends.  The times of a benchmark depend on the machine; in an
answer they are left open.
-/

namespace NonlocalExit.CommandLine

open Effect

/-- The name of the program. -/
def programName : String := "ctrlflow"

/-- The version of the program. -/
def programVersion : String := "0.1.0"

/-- The figures that are shown of a series of timed runs. -/
inductive Figure
  | least | average | greatest
  deriving DecidableEq, Repr

/-- The name of a figure. -/
def Figure.label : Figure → String
  | least => "min"
  | average => "avg"
  | greatest => "max"

/-- A line of the error output. -/
inductive ErrorLine
  | text (s : String)
  /-- A figure of a series of timed runs, left open. -/
  | figure (series : String) (f : Figure)
  deriving DecidableEq, Repr

/-- What a command prints, and the code with which it ends. -/
structure Answer where
  code : Nat
  output : String
  errors : List ErrorLine
  deriving DecidableEq, Repr

/-! ## Commands -/

/-- One run of a series: a scope in which a cleanup is registered. -/
def timedRuns (exec : Executor) : Nat → Effect Unit
  | 0 => pure ()
  | n + 1 => do
    scope exec (defer exec none [])
    timedRuns exec n

/-- What a command does once settings are in force; what comes out is its status. -/
def perform (exec : Executor) (settings : Settings) : Command → Effect Int32
  | .demo =>
    runBody exec do
      demonstration exec settings
      return exitSuccess
  | .bench runs => do
    timedRuns exec runs
    note (.timed "with_defer" runs)
    note (.timed "without_defer" runs)
    return exitSuccess
  | .errno code => do
    print (ErrorCode.nameOf code ++ ": " ++ ErrorCode.descriptionOf code ++ "\n")
    return exitSuccess

/-- The main thread of the program. -/
def mainThread (exec : Executor) (settings : Settings) (command : Command) : Effect Empty := do
  initialise settings
  let status ← perform exec settings command
  exitProcess exec (if status = exitSuccess then exitSuccess else exitFailure)

/-! ## Output -/

/-- A log record as it is written on the error output: the level takes five columns. -/
def logLine (r : LogRecord) : String :=
  let level := r.level.name
  let padding := String.ofList (List.replicate (5 - level.length) ' ')
  "[" ++ level ++ padding ++ " " ++ r.target ++ "] " ++ r.message

/-- What an entry adds to the error output, for a reader at a given level. -/
def errorLines (level : Level) : Entry → List ErrorLine
  | .log r => if level.shows r.level then [.text (logLine r)] else []
  | .diagnostic d => [.text d.line]
  | .timed series runs =>
    .text (series ++ " (" ++ toString runs ++ " runs):") ::
      [Figure.least, .average, .greatest].map (.figure series)
  | _ => []

/-- What an entry adds to the output. -/
def outputOf : Entry → String
  | .printed text => text
  | _ => ""

/-- The answer to a command under given settings. -/
def Answer.ofCommand (level : Level) (settings : Settings) (command : Command) : Answer :=
  let r := (mainThread (Job.run Program.fuel) settings command).run
    (.fresh (.reporting fun _ => false))
  let code := match r.ending with
    | .halted (.exited status) => exitCode status
    | _ => 134
  let entries := r.machine.entries
  ⟨code, String.join (entries.map outputOf), entries.flatMap (errorLines level)⟩

/-- The answer to a failure to read the settings. -/
def Answer.ofFailure (f : Failure) : Answer := ⟨1, "", [.text ("Error: " ++ f.message)]⟩

/-- How the program is used. -/
def usage : String :=
  "Usage: " ++ programName ++ " [--config <FILE>] demo|bench [--runs <N>]|errno <CODE>\n"

/-- The answer to arguments.  The file that holds the settings is read by `read`. -/
def Answer.ofArguments (level : Level) (read : String → Except ReadError ByteArray)
    (arguments : List String) : Answer :=
  match Request.ofArguments arguments with
  | .invalid => ⟨2, "", [.text "error: invalid arguments"]⟩
  | .help => ⟨0, usage, []⟩
  | .version => ⟨0, programName ++ " " ++ programVersion ++ "\n", []⟩
  | .run i =>
    match i.settingsPath with
    | none => Answer.ofCommand level .off i.command
    | some path =>
      match Settings.ofFile path (read path) with
      | .ok settings => Answer.ofCommand level settings i.command
      | .error f => Answer.ofFailure f

end NonlocalExit.CommandLine
