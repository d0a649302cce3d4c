/-!
# Hardware faults

The signals that announce a fault, the kinds of arithmetic fault, and the addresses that a fault
report carries.
-/

namespace NonlocalExit

/-- The signals by which the system reports a fault of the running thread. -/
inductive FaultSignal
  | ill | fpe | segv | bus
  deriving DecidableEq, Repr

namespace FaultSignal

/-- All fault signals, in the order in which their handlers are changed. -/
def all : List FaultSignal := [ill, fpe, segv, bus]

theorem mem_all (s : FaultSignal) : s ∈ all := by cases s <;> decide

/-- The system's name of a signal. -/
def name : FaultSignal → String
  | ill => "SIGILL" | fpe => "SIGFPE" | segv => "SIGSEGV" | bus => "SIGBUS"

/-- The short name of a signal. -/
def label : FaultSignal → String
  | ill => "Ill" | fpe => "Fpe" | segv => "Segv" | bus => "Bus"

/-- The system's number of a signal. -/
def number : FaultSignal → Int32
  | ill => 4 | fpe => 8 | segv => 11 | bus => 7

/-- The fault signal with a given number. -/
def ofNumber? (n : Int32) : Option FaultSignal := all.find? fun s => s.number == n

/-- The fault signal with a given name. -/
def ofName? (s : String) : Option FaultSignal := all.find? fun t => t.name == s

end FaultSignal

/-- What went wrong in an arithmetic fault. -/
inductive ArithmeticKind
  | integerDivideByZero | integerOverflow
  | floatDivideByZero | floatOverflow | floatUnderflow | floatInexact | floatInvalid
  | subscriptOutOfRange | unknown
  deriving DecidableEq, Repr

namespace ArithmeticKind

/-- All kinds of arithmetic fault. -/
def all : List ArithmeticKind :=
  [integerDivideByZero, integerOverflow, floatDivideByZero, floatOverflow, floatUnderflow,
    floatInexact, floatInvalid, subscriptOutOfRange, unknown]

/-- The name of a kind of fault. -/
def label : ArithmeticKind → String
  | integerDivideByZero => "IntegerDivideByZero"
  | integerOverflow => "IntegerOverflow"
  | floatDivideByZero => "FloatDivideByZero"
  | floatOverflow => "FloatOverflow"
  | floatUnderflow => "FloatUnderflow"
  | floatInexact => "FloatInexact"
  | floatInvalid => "FloatInvalid"
  | subscriptOutOfRange => "SubscriptOutOfRange"
  | unknown => "Unknown"

/-- The sentence that describes a kind of fault. -/
def message : ArithmeticKind → String
  | integerDivideByZero => "Integer division by zero."
  | integerOverflow => "Integer overflow."
  | floatDivideByZero => "Floating point division by zero."
  | floatOverflow => "Floating point overflow."
  | floatUnderflow => "Floating point underflow."
  | floatInexact => "Floating point inexact result."
  | floatInvalid => "Invalid floating point operation."
  | subscriptOutOfRange => "Subscript out of range."
  | unknown => "Unknown arithmetic exception."

/-- The kind with a given name. -/
def ofLabel? (s : String) : Option ArithmeticKind := all.find? fun k => k.label == s

/-- The place of a kind in the list of all kinds. -/
def index : ArithmeticKind → UInt8
  | integerDivideByZero => 0 | integerOverflow => 1
  | floatDivideByZero => 2 | floatOverflow => 3 | floatUnderflow => 4
  | floatInexact => 5 | floatInvalid => 6
  | subscriptOutOfRange => 7 | unknown => 8

/-- The kind at a place of the list of all kinds. -/
def ofIndex? (i : UInt8) : Option ArithmeticKind := all.find? fun k => k.index == i

theorem ofIndex?_index (k : ArithmeticKind) : ofIndex? k.index = some k := by
  cases k <;> decide

end ArithmeticKind

/-- An address in a fault report.  Three of them differ from run to run and are known by name only:
the one a signal sent by the program itself carries, and the places of the two instructions that
fault on purpose. -/
inductive Address
  | at (value : BitVec 64)
  | sender
  | division
  | undefinedInstruction
  deriving DecidableEq, Repr

end NonlocalExit
