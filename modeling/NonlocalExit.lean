import NonlocalExit.Main
import NonlocalExit.Proofs.Frames
import NonlocalExit.Proofs.Accounting
import NonlocalExit.Proofs.Deeds
import NonlocalExit.Proofs.OuterFrames
import NonlocalExit.Proofs.Sessions
import NonlocalExit.Proofs.Calls
import NonlocalExit.Proofs.Unwinding
import NonlocalExit.Proofs.Resuming
import NonlocalExit.Proofs.Visits
import NonlocalExit.Proofs.Marks
import NonlocalExit.Proofs.Guards
import NonlocalExit.Proofs.Passing
import NonlocalExit.Proofs.ClosingOrder
import NonlocalExit.Proofs.Panics
import NonlocalExit.Proofs.Oblivious
import NonlocalExit.Proofs.Levels
import NonlocalExit.Proofs.Closings
import NonlocalExit.Proofs.Exceptions
import NonlocalExit.Proofs.Record
import NonlocalExit.Proofs.Senders
import NonlocalExit.Proofs.Stacks
import NonlocalExit.Proofs.Owners
import NonlocalExit.Proofs.Arrival
import NonlocalExit.Proofs.PanicEnds
import NonlocalExit.Proofs.Scopes
import NonlocalExit.Proofs.Outward
import NonlocalExit.Proofs.SessionEnds
import NonlocalExit.Proofs.Statuses
import NonlocalExit.Proofs.ThreadPanics
import NonlocalExit.Proofs.Unexpected
import NonlocalExit.Proofs.Escapes
import NonlocalExit.Proofs.Rethrows
import NonlocalExit.Proofs.Stopping
import NonlocalExit.Proofs.ThrowHooks
import NonlocalExit.Proofs.Frameless
import NonlocalExit.Proofs.Teardown
import NonlocalExit.Proofs.Construction
import NonlocalExit.Proofs.Endings
import NonlocalExit.Proofs.Fuel
import NonlocalExit.Proofs.Legs
import NonlocalExit.Proofs.Course
import NonlocalExit.Proofs.StageWords
import NonlocalExit.Proofs.Completions
import NonlocalExit.Proofs.Values
import NonlocalExit.Proofs.Selection
import NonlocalExit.Proofs.Capacity
import NonlocalExit.Proofs.FaultLogs
import NonlocalExit.Proofs.Piecewise
import NonlocalExit.Proofs.Trapping
import NonlocalExit.Proofs.Copies
import NonlocalExit.Proofs.HeldFrames
import NonlocalExit.Proofs.Recoveries
import NonlocalExit.Proofs.Numbering
