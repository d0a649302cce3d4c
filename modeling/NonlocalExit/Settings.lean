/-!
# Settings

The two switches that a program may set: whether fault signals are trapped and become exceptions,
and whether an unrecovered panic always reports a backtrace.  Both are off by default.
-/

namespace NonlocalExit

/-- What can be configured. -/
structure Settings where
  catchFaults : Bool
  backtrace : Bool
  deriving DecidableEq, Repr

namespace Settings

/-- Everything off. -/
def off : Settings := ⟨false, false⟩

/-- The settings as a configuration file that names every switch. -/
def toToml (s : Settings) : String :=
  "[signals]\ncatch = " ++ toString s.catchFaults ++
    "\n\n[panic]\nbacktrace = " ++ toString s.backtrace ++ "\n"

/-- The settings as they are written in log records. -/
def debug (s : Settings) : String :=
  "RuntimeConfig \x7b signals: SignalConfig \x7b catch: " ++ toString s.catchFaults ++
    " \x7d, panic: PanicConfig \x7b backtrace: " ++ toString s.backtrace ++ " \x7d \x7d"

end Settings

end NonlocalExit
