/-!
# Failures

The errors that are reported to a caller, as causes; `Failure.message` words them.
-/

namespace NonlocalExit

/-- Why the text of a file cannot be had. -/
inductive ReadError
  | missing
  | directory
  | notText
  deriving DecidableEq, Repr

/-- The system's wording of a read error. -/
def ReadError.message : ReadError → String
  | missing => "No such file or directory (os error 2)"
  | directory => "Is a directory (os error 21)"
  | notText => "stream did not contain valid UTF-8"

/-- An error that is reported to a caller. -/
inductive Failure
  /-- A settings file could not be read. -/
  | readSettings (path : String) (cause : ReadError)
  /-- The text of a settings file is not valid. -/
  | parseSettings
  /-- The system refused to start a thread. -/
  | spawnRefused
  /-- A thread was left by an unwind. -/
  | threadPanicked (description : String)
  deriving DecidableEq, Repr

namespace Failure

/-- The sort of a failure. -/
def kind : Failure → String
  | readSettings .. => "ReadConfig"
  | parseSettings => "ParseToml"
  | spawnRefused => "Spawn"
  | threadPanicked _ => "ThreadPanicked"

/-- The wording of a failure; that of an invalid text is left to the reader of the text. -/
def message : Failure → String
  | readSettings path cause => "Failed to read config file " ++ path ++ ": " ++ cause.message
  | parseSettings => "Failed to parse TOML config"
  | spawnRefused => "Failed to spawn thread: Resource temporarily unavailable (os error 11)"
  | threadPanicked description => "Thread panicked: " ++ description

end Failure

end NonlocalExit
