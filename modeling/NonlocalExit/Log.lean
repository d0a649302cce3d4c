import NonlocalExit.ErrorCode
import NonlocalExit.Settings

/-!
# Log records

Everything that is logged, as causes; the level, the target and the wording of a record are
functions of its cause.  What is logged does not depend on the level that a reader asks for:
`Level.shows` selects afterwards.
-/

namespace NonlocalExit

/-- The levels of detail at which a log is read, from none to all. -/
inductive Level
  | off | error | warn | info | debug | trace
  deriving DecidableEq, Repr

namespace Level

/-- The rank of a level: a log read at some level shows the records of no higher rank. -/
def rank : Level → Nat
  | off => 0 | error => 1 | warn => 2 | info => 3 | debug => 4 | trace => 5

/-- The name of a level, as it is written in a log. -/
def name : Level → String
  | off => "OFF" | error => "ERROR" | warn => "WARN" | info => "INFO"
  | debug => "DEBUG" | trace => "TRACE"

/-- The level with a given name, in letters of either case. -/
def ofName? (s : String) : Option Level :=
  [off, error, warn, info, debug, trace].find? fun l => l.name == s.toUpper

/-- Whether a log read at the first level shows records of the second. -/
def shows (reader record : Level) : Bool := record.rank ≤ reader.rank

end Level

/-- The stages of a try block. -/
inductive Stage
  | unexpected | trying | catching | finishing | propagating
  deriving DecidableEq, Repr

namespace Stage

/-- All stages, in ascending order of their numbers. -/
def all : List Stage := [unexpected, trying, catching, finishing, propagating]

/-- The name of a stage. -/
def label : Stage → String
  | unexpected => "Unexpected" | trying => "Try" | catching => "Catch"
  | finishing => "Finally" | propagating => "Propagate"

/-- The number of a stage. -/
def number : Stage → Int
  | unexpected => -1 | trying => 0 | catching => 1 | finishing => 2 | propagating => 3

end Stage

/-- The two ways in which an exception escapes a block. -/
inductive Escape
  | thrown | rethrown
  deriving DecidableEq, Repr

/-- The name of a way to escape. -/
def Escape.label : Escape → String
  | thrown => "Thrown" | rethrown => "Rethrown"

/-- The version of the library. -/
def runtimeVersion : Nat := 1

/-- What is logged. -/
inductive LogRecord
  | enteredFrame (id : Nat)
  | leftFrame (id : Nat)
  | initialisedTwice
  | throwing (tag : String)
  | rethrowWithoutException
  | hookThrew
  | stage (link : Nat) (before after : Stage)
  | tagClash (tag : String)
  | secondFinally
  | emptyRecord (escape : Escape)
  | panicking (code : ErrorCode)
  | recovered (code : ErrorCode)
  | threadExit (status : Int32)
  | trapping (enabled : Bool)
  | settingsApplied (settings : Settings)
  | initialised
  deriving DecidableEq, Repr

namespace LogRecord

/-- The level of a record. -/
def level : LogRecord → Level
  | enteredFrame _ | leftFrame _ | stage .. => .trace
  | initialisedTwice | rethrowWithoutException | hookThrew | tagClash _ | secondFinally
  | emptyRecord _ => .warn
  | throwing _ | panicking _ | recovered _ | threadExit _ | trapping _ | settingsApplied _
  | initialised => .debug

/-- The part of the library that a record comes from. -/
def target : LogRecord → String
  | enteredFrame _ | leftFrame _ | initialisedTwice => "ctrlflow_runtime::defer"
  | throwing _ | rethrowWithoutException | hookThrew => "ctrlflow_runtime::exceptions"
  | stage .. | tagClash _ | secondFinally | emptyRecord _ => "ctrlflow_runtime::try_scope"
  | panicking _ | recovered _ => "ctrlflow_runtime::panic"
  | threadExit _ => "ctrlflow_runtime::thread"
  | trapping _ => "ctrlflow_runtime::signal"
  | settingsApplied _ => "ctrlflow_runtime::config"
  | initialised => "ctrlflow_runtime"

/-- The wording of a record. -/
def message : LogRecord → String
  | enteredFrame id => "enter defer frame " ++ toString id
  | leftFrame id => "leave defer frame " ++ toString id
  | initialisedTwice => "thread_init called twice on the same thread"
  | throwing tag => "throw " ++ tag
  | rethrowWithoutException => "rethrow() called with no exception in flight"
  | hookThrew => "unexpected-exception hook threw; falling back to default"
  | stage link before after =>
    "try-scope " ++ toString link ++ ": " ++ before.label ++ " -> " ++ after.label
  | tagClash tag => "type tag \"" ++ tag ++ "\" is shared by two different Rust types"
  | secondFinally => "try block declares more than one finally clause"
  | emptyRecord escape => escape.label ++ " with an empty exception record"
  | panicking code => "panic with error " ++ code.render
  | recovered code => "recovered panic with error " ++ code.render
  | threadExit status => "thread exit with status " ++ toString status.toInt
  | trapping true => "fault signal translation enabled"
  | trapping false => "fault signal translation disabled"
  | settingsApplied s => "applied runtime config: " ++ s.debug
  | initialised => "ctrlflow runtime v" ++ toString runtimeVersion ++ " initialized"

end LogRecord

end NonlocalExit
