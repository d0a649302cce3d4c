import NonlocalExit.Fault.Basic
import NonlocalExit.Log

/-!
# Transfers of control

What an unwind carries, how the end of a plain thread is reported, and how a process may stop
short.  Each construct that stops unwinds claims only those that are meant for it and lets all
others pass.
-/

namespace NonlocalExit

/-- What an unwind carries. -/
inductive Transfer
  /-- An exception on its way to a try block. -/
  | thrown
  /-- An exception thrown again by the clause that handled it. -/
  | rethrown
  /-- A panic on its way to the call of `recover` that owns the token. -/
  | panicking (code : ErrorCode) (token : Nat)
  /-- The end of the thread. -/
  | threadExit (status : Int32)
  /-- An unwind that is not the library's, with a message or with something else. -/
  | foreign (message : Option String)
  deriving DecidableEq, Repr

/-- How the body of a plain thread ended, seen from outside. -/
inductive ThreadResult
  | status (n : Int32)
  | exited (n : Int32)
  | foreign (message : Option String)
  /-- One of the library's own transfers, whose content is not visible. -/
  | internal
  deriving DecidableEq, Repr

namespace Transfer

/-- The way in which an exception escapes, if the transfer is one of an exception. -/
def escape? : Transfer → Option Escape
  | thrown => some .thrown
  | rethrown => some .rethrown
  | _ => none

/-- What is seen of a transfer that leaves the body of a plain thread. -/
def result : Transfer → ThreadResult
  | thrown | rethrown | panicking .. => .internal
  | threadExit n => .exited n
  | foreign message => .foreign message

/-- The text by which a transfer that leaves the body of a thread is described. -/
def describe : Transfer → String
  | foreign (some message) => message
  | thrown | rethrown => "exception escaped its try-scope"
  | panicking code _ => "unrecovered panic with error " ++ code.render
  | threadExit _ | foreign none => "Box<dyn Any>"

end Transfer

/-- Why a process stopped before the end of its program. -/
inductive Halt
  | aborted
  | killed (signal : FaultSignal)
  | exited (status : Int32)
  /-- The bound on the length of the run was reached. -/
  | outOfFuel
  deriving DecidableEq, Repr

/-- The exit status of a thread or process that did its work. -/
def exitSuccess : Int32 := 0

/-- The exit status of a thread or process that failed. -/
def exitFailure : Int32 := 1

end NonlocalExit
