import NonlocalExit.CommandLine.Answer

/-!
# The program

Reads the arguments, the settings file and the level of the log, prints the answer, and fills in
the times of a benchmark, which it takes by writing a file.
-/

namespace NonlocalExit.CommandLine

/-- The bytes of a file. -/
def readBytes (path : String) : IO (Except ReadError ByteArray) := do
  try
    return .ok (← IO.FS.readBinFile path)
  catch
    | .inappropriateType .. => return .error .directory
    | _ => return .error .missing

/-- The times of a number of file writes, in nanoseconds. -/
def measure (runs : Nat) : IO (List Nat) := do
  IO.FS.withTempFile fun _ path => do
    let mut times := []
    for _ in List.range runs do
      let start ← IO.monoNanosNow
      IO.FS.writeFile path "test"
      let elapsed := (← IO.monoNanosNow) - start
      times := elapsed :: times
    return times

/-- A figure of times. -/
def Figure.of (times : List Nat) : Figure → Nat
  | .least => times.min?.getD 0
  | .average => times.foldl (· + ·) 0 / times.length
  | .greatest => times.max?.getD 0

/-- A time in seconds, to six places. -/
def seconds (nanoseconds : Nat) : String :=
  let micros := (nanoseconds + 500) / 1000
  let places := toString (micros % 1000000)
  toString (micros / 1000000) ++ "." ++
    String.ofList (List.replicate (6 - places.length) '0') ++ places ++ "s"

/-- Prints the error output; each series of runs is timed once, for its first figure. -/
def printErrors (runs : Nat) (lines : List ErrorLine) : IO Unit := do
  let mut times := []
  for line in lines do
    match line with
    | .text s => IO.eprintln s
    | .figure _ f =>
      if f = .least then times ← measure runs
      IO.eprintln (f.label ++ ": " ++ seconds (f.of times))

end NonlocalExit.CommandLine

open NonlocalExit NonlocalExit.CommandLine in
/-- The entry of the program. -/
def main (arguments : List String) : IO UInt32 := do
  let level := ((← IO.getEnv "RUST_LOG").bind Level.ofName?).getD .error
  let request := Request.ofArguments arguments
  let content ← match request with
    | .run ⟨some path, _⟩ => readBytes path
    | _ => pure (.error .missing)
  let runs := match request with
    | .run ⟨_, .bench n⟩ => n
    | _ => 0
  let answer := Answer.ofArguments level (fun _ => content) arguments
  IO.print answer.output
  printErrors runs answer.errors
  return .ofNat answer.code
