import NonlocalExit.Failure
import NonlocalExit.Settings
import NonlocalExit.Toml.Document

/-!
# Reading settings

Settings are read from a configuration file.  What the file does not name is off; keys that are not
known are passed over.  A section may also be written as an array of its switches, and a date reads
as a section that names no switch.
-/

namespace NonlocalExit

namespace Settings

open Toml

/-- A switch: off when it is not there, and refused when it is not a truth value. -/
def switch : Option Node → Option Bool
  | none => some false
  | some (.scalar (.boolean b)) => some b
  | some _ => none

/-- The only switch of a section. -/
def sectionSwitch (key : String) : Option Node → Option Bool
  | none => some false
  | some (.table t) | some (.inline t) => switch (t.get? key)
  | some (.array items) => switch items.head?
  | some (.scalar (.moment ..)) => some false
  | some _ => none

/-- The settings that a text describes. -/
def ofText? (text : String) : Option Settings := do
  let t ← Table.ofText? text
  let catchFaults ← sectionSwitch "catch" (t.get? "signals")
  let backtrace ← sectionSwitch "backtrace" (t.get? "panic")
  return ⟨catchFaults, backtrace⟩

/-- The settings in the bytes of a file; the path is for reports. -/
def ofFile (path : String) (content : Except ReadError ByteArray) : Except Failure Settings :=
  match content with
  | .error cause => .error (.readSettings path cause)
  | .ok bytes =>
    match String.fromUTF8? bytes with
    | none => .error (.readSettings path .notText)
    | some text =>
      match ofText? text with
      | none => .error .parseSettings
      | some s => .ok s

end Settings

end NonlocalExit
