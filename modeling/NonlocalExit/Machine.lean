import NonlocalExit.Frame
import NonlocalExit.Journal

/-!
# The state of a run

A machine is the state of the running thread and the state that all threads share.  Threads are
waited for as soon as they are started, so only one of them runs at a time; the state of the thread
that waits is put aside meanwhile.
-/

namespace NonlocalExit

variable [Declarations]

/-- A cleanup that waits in a frame. -/
structure Cleanup where
  /-- The place of the cleanup in the order of registration. -/
  serial : Nat
  /-- The argument that the cleanup is given. -/
  argument : Option String
  body : Block

/-- A frame held by a block under a name. -/
structure Guard where
  name : String
  frame : Nat
  deriving DecidableEq, Repr

/-- A call of `recover` that has not returned yet. -/
structure Recovery where
  token : Nat
  /-- The frame that the call has marked. -/
  frame : Nat
  deriving DecidableEq, Repr

/-- The state of a thread. -/
structure Thread where
  number : Nat
  frames : FrameStack Cleanup
  /-- Whether the thread's storage is being torn down, and its frame stack with it. -/
  torn : Bool
  initialised : Bool
  /-- The exception in flight or under handling. -/
  current : Option Exception
  /-- The number of try blocks and guarded hook calls that the thread is inside. -/
  depth : Nat
  /-- Whether a throw hook runs. -/
  hookRunning : Bool
  /-- The guards held by the blocks that the thread is inside, innermost block and newest guard
  first. -/
  held : List (List Guard)
  /-- The calls of `recover` that the thread is inside, newest first. -/
  recovering : List Recovery
  /-- The fault signals that are held back from the thread. -/
  blocked : List FaultSignal

/-- A thread that has not done anything yet. -/
def Thread.new (number : Nat) (blocked : List FaultSignal) : Thread where
  number := number
  frames := .empty
  torn := false
  initialised := false
  current := none
  depth := 0
  hookRunning := false
  held := []
  recovering := []
  blocked := blocked

/-- What the system does when a fault signal arrives. -/
inductive Disposition
  /-- It kills the process. -/
  | kill
  /-- It calls the handler that raises an exception.  While the handler runs, the signal is held
  back from the thread if it is to be deferred. -/
  | trap (deferred : Bool)
  /-- It calls the handler that the language's runtime has set up.  This one ends the process if the
  stack has overflowed; else it gives the signal its default back, and returns. -/
  | report
  deriving DecidableEq, Repr

/-- The hooks that are set. -/
structure Hooks where
  onThrow : Option Block
  onUnhandled : Option Block
  onUnexpected : Option Block

namespace Hooks

/-- No hook set. -/
def none : Hooks := ⟨.none, .none, .none⟩

/-- Sets or removes one hook. -/
def set (kind : HookKind) (hook : Option Block) (h : Hooks) : Hooks :=
  match kind with
  | .onThrow => { h with onThrow := hook }
  | .onUnhandled => { h with onUnhandled := hook }
  | .onUnexpected => { h with onUnexpected := hook }

end Hooks

/-- What a program finds when it starts. -/
structure Surroundings where
  /-- Whether the language's runtime has set up a handler for a signal. -/
  reported : FaultSignal → Bool
  /-- Whether an address lies where a stack that overflows comes to. -/
  overflows : Address → Bool

namespace Surroundings

/-- All fault signals have their defaults. -/
def bare : Surroundings := ⟨fun _ => false, fun _ => false⟩

/-- The language's runtime reports overflows of the stack. -/
def reporting (overflows : Address → Bool) : Surroundings where
  reported s := s == .segv || s == .bus
  overflows := overflows

end Surroundings

/-- The state that all threads share. -/
structure Shared where
  hooks : Hooks
  /-- Whether fault signals are trapped. -/
  trapping : Bool
  dispositions : FaultSignal → Disposition
  /-- Whether an address lies where a stack that overflows comes to. -/
  overflows : Address → Bool
  forceBacktrace : Bool
  /-- The token of the next call of `recover`. -/
  nextToken : Nat
  /-- The number of the next cleanup. -/
  nextSerial : Nat
  /-- The number of the next thread. -/
  nextThread : Nat
  /-- Everything that has happened, newest first. -/
  journal : List JournalLine

/-- The shared state at the start of a program. -/
def Shared.initial (w : Surroundings) : Shared where
  hooks := .none
  trapping := false
  dispositions := fun s => if w.reported s then .report else .kill
  overflows := w.overflows
  forceBacktrace := false
  nextToken := 1
  nextSerial := 0
  nextThread := 1
  journal := []

/-- The state of a run. -/
structure Machine where
  thread : Thread
  shared : Shared

namespace Machine

/-- The state at the start of a program. -/
def fresh (w : Surroundings) : Machine := ⟨.new 0 [], .initial w⟩

/-- The state at the start of a program in bare surroundings. -/
def initial : Machine := fresh .bare

/-- Writes a line into the journal. -/
def note (entry : Entry) (m : Machine) : Machine :=
  { m with shared := { m.shared with journal := ⟨m.thread.number, entry⟩ :: m.shared.journal } }

/-- Everything that has happened, oldest first. -/
def entries (m : Machine) : List Entry := m.shared.journal.reverse.map (·.entry)

end Machine

end NonlocalExit
