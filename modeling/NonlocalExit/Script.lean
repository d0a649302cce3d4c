import NonlocalExit.ErrorCode
import NonlocalExit.Fault.Classify
import NonlocalExit.Settings

/-!
# Scripts

The programs that are run: blocks of statements that throw and catch, open and close cleanup
frames, panic and recover, start threads and meet faults.  A block is a list of statements.
-/

namespace NonlocalExit

variable [Declarations]

/-- The three events of an exception's life to which a hook can be attached. -/
inductive HookKind
  | onThrow | onUnhandled | onUnexpected
  deriving DecidableEq, Repr

/-- What a clause of a try block waits for. -/
inductive Trigger
  /-- An exception of a given type. -/
  | typed (type : ThrowType)
  /-- Any exception. -/
  | any
  /-- The end of the block. -/
  | completion
  deriving DecidableEq, Repr

/-- A statement.  A block, wherever one is held, is a list of statements. -/
inductive Stmt : Type
  /-- Reports a message. -/
  | emit (message : String)
  /-- Reports the depth of try blocks and the exception in flight. -/
  | state
  /-- Runs a block a number of times. -/
  | repeated (times : Nat) (body : List Stmt)
  /-- Throws a value. -/
  | throw (value : Value)
  /-- Throws the exception in flight again. -/
  | rethrow
  /-- Runs a block under clauses, tried in the order of declaration. -/
  | attempt (body : List Stmt) (clauses : List (Trigger × List Stmt))
  /-- Sets or removes a hook. -/
  | setHook (kind : HookKind) (hook : Option (List Stmt))
  /-- Sets or removes all three hooks. -/
  | setHooks (onThrow onUnhandled onUnexpected : Option (List Stmt))
  /-- Reports which hooks are set. -/
  | hooks
  /-- Runs a block in a frame of its own. -/
  | scope (body : List Stmt)
  /-- Registers a cleanup. -/
  | defer (body : List Stmt)
  /-- Registers a cleanup that is given an argument, and reports the argument. -/
  | deferWith (argument : String) (body : List Stmt)
  /-- Opens a frame that the current block holds by name. -/
  | enter (name : String)
  /-- Closes the frame held by name. -/
  | leave (name : String)
  /-- Forgets the frame held by name, which stays open. -/
  | leak (name : String)
  /-- Declares the thread initialised. -/
  | initThread
  /-- Panics; without a code the number given was none. -/
  | panic (code : Option ErrorCode)
  /-- Runs a block and stops panics that aim at it. -/
  | recover (value : String) (body : List Stmt)
  /-- Ends the thread. -/
  | exit (status : Int32)
  /-- Runs a block as a thread body on the current thread. -/
  | run (status : Int32) (body : List Stmt)
  /-- Runs a block on a new thread of the library and waits for it. -/
  | spawn (status : Int32) (name : Option String) (stackSize : Option Nat) (body : List Stmt)
  /-- Runs a block on a new plain thread and waits for it. -/
  | rawThread (status : Int32) (body : List Stmt)
  /-- Starts an unwind that is not the library's, with a message or with something else. -/
  | foreign (message : Option String)
  /-- Runs a block and stops every unwind. -/
  | intercept (body : List Stmt)
  /-- Ends the process in an orderly way. -/
  | exitProcess (status : Int32)
  /-- Switches the trapping of fault signals on or off. -/
  | trapFaults (enabled : Bool)
  /-- Reports the state of trapping. -/
  | signals
  /-- Meets a fault. -/
  | fault (cause : FaultCause)
  /-- Applies settings; none if their text was not valid. -/
  | apply (settings : Option Settings)
  /-- Applies settings and initialises the thread; none if their text was not valid. -/
  | init (settings : Option Settings)

/-- A block of statements. -/
abbrev Block := List Stmt

namespace Stmt

/-- The statement with its body replaced; a statement without a body is left as it is. -/
def withBody (body : Block) : Stmt → Stmt
  | repeated times _ => repeated times body
  | attempt _ clauses => attempt body clauses
  | scope _ => scope body
  | defer _ => defer body
  | deferWith argument _ => deferWith argument body
  | recover value _ => recover value body
  | run status _ => run status body
  | spawn status name stackSize _ => spawn status name stackSize body
  | rawThread status _ => rawThread status body
  | intercept _ => intercept body
  | s => s

end Stmt

/-- A block inside a number of layers: each layer is a statement with the next layer, preceded by
the same statements, as its body. -/
def Block.layered (before : Block) (layer : Stmt) (body : Block) : Nat → Block
  | 0 => body
  | n + 1 => before ++ [layer.withBody (Block.layered before layer body n)]

end NonlocalExit
