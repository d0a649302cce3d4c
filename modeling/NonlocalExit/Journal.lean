import NonlocalExit.Failure
import NonlocalExit.Script
import NonlocalExit.Throwable.Exception
import NonlocalExit.Transfer

/-!
# The journal of a run

Everything that happens while a program runs is written into one journal: what the program reports
(`Event`), what is logged, what is printed as a diagnostic, and the steps that are not visible from
outside (`Step`).  Each line carries the number of the thread that wrote it.  What a reader sees is
a view of the journal.
-/

namespace NonlocalExit

variable [Declarations]

/-- What comes of starting a thread of the library and waiting for it. -/
inductive SpawnResult
  | finished (status : Int32) (name : Option String)
  | failed (failure : Failure)
  deriving DecidableEq, Repr

/-- What a program reports. -/
inductive Event
  | emitted (message : String)
  | state (depth : Nat) (current : Option Exception)
  /-- A clause for one type starts, with the value it was given. -/
  | caught (value : Value)
  /-- A clause for all types starts, with the exception it was given. -/
  | caughtAny (e : Exception)
  /-- A completion clause starts. -/
  | completing
  /-- A hook starts, with the exception it was given. -/
  | hook (kind : HookKind) (e : Exception)
  | hooks (onThrow onUnhandled onUnexpected : Bool)
  /-- A cleanup starts, with the argument it was registered with. -/
  | handler (argument : String)
  | deferred (argument : String)
  | notAnErrorCode
  | completed (value : String)
  | recovered (code : ErrorCode)
  | ran (status : Int32)
  | spawned (result : SpawnResult)
  | joined (result : ThreadResult)
  | intercepted (result : Option ThreadResult)
  | trapping (enabled : Bool)
  | signals (enabled : Bool) (defaults : List (FaultSignal × Bool))
  | applied
  | initialised
  | settingsInvalid
  /-- The body of the program has ended. -/
  | ended (result : ThreadResult)
  deriving DecidableEq

/-- What is printed about a thread or process that is about to end. -/
inductive Diagnostic
  | unhandled (tag : Option String)
  | unexpected (tag : Option String)
  | panic (code : ErrorCode)
  | backtrace
  | noBacktrace
  | tooManyCleanups
  deriving DecidableEq, Repr

/-- The line that is printed for a diagnostic. -/
def Diagnostic.line : Diagnostic → String
  | unhandled tag => "Unhandled exception of type \"" ++ tag.getD "???" ++ "\""
  | unexpected tag => "Unexpected exception of type \"" ++ tag.getD "???" ++ "\""
  | panic code => "Panic with error " ++ code.name ++ ": " ++ code.description
  | backtrace => "<backtrace>"
  | noBacktrace => "Backtrace not supported"
  | tooManyCleanups => "Tried to defer more than DEFER_MAX handlers"

/-- A step that is not visible from outside. -/
inductive Step
  /-- A cleanup is registered in a frame, or in none and started at once; cleanups are numbered in
  the order of registration. -/
  | registered (serial : Nat) (frame : Option Nat)
  /-- A cleanup is started. -/
  | started (serial : Nat)
  | frameOpened (id : Nat)
  | frameClosed (id : Nat)
  /-- A panic comes past a frame on its way outward, and closes it. -/
  | passed (id : Nat)
  /-- A try block or a guarded hook call is entered; `link` is the depth outside it. -/
  | protectedFrom (link : Nat)
  /-- A try block or a guarded hook call is left. -/
  | protectedUntil (link : Nat)
  /-- An exception starts to look for a try block. -/
  | dispatched (e : Exception)
  /-- A hook is left. -/
  | hookEnded (kind : HookKind)
  deriving DecidableEq, Repr

/-- The content of a line of the journal. -/
inductive Entry
  | event (e : Event)
  | log (r : LogRecord)
  | diagnostic (d : Diagnostic)
  | step (s : Step)
  /-- A text for the user of the command line. -/
  | printed (text : String)
  /-- The end of a series of timed runs. -/
  | timed (series : String) (runs : Nat)
  deriving DecidableEq

/-- A line of the journal, with the thread that wrote it. -/
structure JournalLine where
  thread : Nat
  entry : Entry
  deriving DecidableEq

namespace Entry

/-- The diagnostic on a line. -/
def diagnostic? : Entry → Option Diagnostic
  | diagnostic d => some d
  | _ => none

/-- The report on a line. -/
def event? : Entry → Option Event
  | event e => some e
  | _ => none

/-- The log record on a line. -/
def log? : Entry → Option LogRecord
  | log r => some r
  | _ => none

/-- The step on a line. -/
def step? : Entry → Option Step
  | step s => some s
  | _ => none

/-- What a reader at a given level sees of a line: a report or a log record. -/
def visible? (level : Level) : Entry → Option (Event ⊕ LogRecord)
  | event e => some (.inl e)
  | log r => if level.shows r.level then some (.inr r) else none
  | diagnostic _ | step _ | printed _ | timed .. => none

end Entry

end NonlocalExit
