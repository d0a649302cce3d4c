import NonlocalExit.Throwable.Value

/-!
# Classification of faults

What a fault signal means: the signal and its code decide which of the five fault values is thrown,
and the address of the report goes into that value unchanged.  A cause fixes all three.
-/

namespace NonlocalExit

variable [Declarations]

/-- A fault, as it is reported to the program. -/
inductive Fault
  | arithmetic (kind : ArithmeticKind) (pc : Address)
  | illegalInstruction (message : String) (pc : Address)
  | stackCorruption (message : String) (pc : Address)
  | accessViolation (message : String) (address : Address)
  | misalignedAccess (message : String) (address : Address)
  deriving DecidableEq, Repr

namespace Fault

/-- The value that is thrown for a fault. -/
def toValue : Fault → Value
  | arithmetic kind pc => .arithmeticError kind pc
  | illegalInstruction message pc => .illegalInstruction message pc
  | stackCorruption message pc => .stackCorruption message pc
  | accessViolation message a => .accessViolation message a
  | misalignedAccess message a => .misalignedAccess message a

/-- The name of the sort of fault. -/
def label : Fault → String
  | arithmetic .. => "Arithmetic"
  | illegalInstruction .. => "IllegalInstruction"
  | stackCorruption .. => "StackCorruption"
  | accessViolation .. => "AccessViolation"
  | misalignedAccess .. => "MisalignedAccess"

end Fault

/-- The kind of arithmetic fault that a code of the arithmetic signal stands for. -/
def ArithmeticKind.ofCode (code : Int32) : ArithmeticKind :=
  if code = 1 then integerDivideByZero
  else if code = 2 then integerOverflow
  else if code = 3 then floatDivideByZero
  else if code = 4 then floatOverflow
  else if code = 5 then floatUnderflow
  else if code = 6 then floatInexact
  else if code = 7 then floatInvalid
  else if code = 8 then subscriptOutOfRange
  else unknown

namespace FaultSignal

/-- The code of an illegal-instruction signal that reports a bad stack. -/
def badStackCode : Int32 := 8

/-- The code of a bus signal that reports a misaligned address. -/
def misalignedCode : Int32 := 1

/-- The fault that a signal with a given code and address reports. -/
def classify (signal : FaultSignal) (code : Int32) (a : Address) : Fault :=
  match signal with
  | fpe => .arithmetic (ArithmeticKind.ofCode code) a
  | segv => .accessViolation "Access violation." a
  | bus =>
    if code = misalignedCode then .misalignedAccess "Invalid address alignment." a
    else .accessViolation "Access violation." a
  | ill =>
    if code = badStackCode then .stackCorruption "Internal stack error." a
    else .illegalInstruction "Illegal instruction." a

end FaultSignal

/-- What makes the system report a fault to a thread. -/
inductive FaultCause
  /-- The thread sends itself the signal. -/
  | raised (signal : FaultSignal)
  /-- The thread queues the signal for itself, with a code and an address of its choice. -/
  | queued (signal : FaultSignal) (code : Int32) (address : Address)
  /-- A byte is read or written where nothing is mapped. -/
  | access (address : Address)
  /-- An integer is divided by zero. -/
  | division
  /-- An undefined instruction is executed. -/
  | undefinedInstruction
  /-- An instruction faults in another way, which the system reports by a signal with a code and an
  address. -/
  | faulted (signal : FaultSignal) (code : Int32) (address : Address)
  deriving DecidableEq, Repr

namespace FaultCause

/-- The signal by which the system reports a cause. -/
def signal : FaultCause → FaultSignal
  | raised s | queued s .. | faulted s .. => s
  | access _ => .segv
  | division => .fpe
  | undefinedInstruction => .ill

/-- The code with which the system reports a cause. -/
def code : FaultCause → Int32
  | raised _ => -6
  | queued _ c _ | faulted _ c _ => c
  | access _ | division => 1
  | undefinedInstruction => 2

/-- The address with which the system reports a cause. -/
def address : FaultCause → Address
  | raised _ => .sender
  | queued _ _ a | faulted _ _ a | access a => a
  | division => .division
  | undefinedInstruction => .undefinedInstruction

/-- Whether the signal is sent, so that the thread goes on if nothing comes of it.  An instruction
that has faulted would be executed again. -/
def isSent : FaultCause → Bool
  | raised _ | queued .. => true
  | access _ | division | undefinedInstruction | faulted .. => false

/-- The fault that a cause is reported as. -/
def fault (cause : FaultCause) : Fault := cause.signal.classify cause.code cause.address

end FaultCause

end NonlocalExit
