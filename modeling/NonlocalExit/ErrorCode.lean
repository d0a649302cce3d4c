import NonlocalExit.ErrorCode.Table

/-!
# Error codes

An error code is a non-zero number of the system's table of errors.  `ErrorCode.nameOf` and
`ErrorCode.descriptionOf` are total: a number outside the table is named `???` and described as an
unknown error, and zero is described as success.
-/

namespace NonlocalExit

/-- A non-zero error number. -/
structure ErrorCode where
  value : Int32
  ne_zero : value ≠ 0
  deriving DecidableEq, Repr

namespace ErrorCode

/-- The error code of a number, none for zero. -/
def ofInt32? (n : Int32) : Option ErrorCode :=
  if h : n = 0 then none else some ⟨n, h⟩

/-- The line of the table for a number. -/
def info? (n : Int32) : Option ErrorInfo :=
  table.find? fun line => (line.code : Int) == n.toInt

/-- The symbolic name of an error number. -/
def nameOf (n : Int32) : String :=
  match info? n with
  | some line => line.name
  | none => "???"

/-- The description of an error number. -/
def descriptionOf (n : Int32) : String :=
  if n = 0 then "Success" else
  match info? n with
  | some line => line.description
  | none => "Unknown error " ++ toString n.toInt

/-- The symbolic name of an error code. -/
def name (code : ErrorCode) : String := nameOf code.value

/-- The description of an error code. -/
def description (code : ErrorCode) : String := descriptionOf code.value

/-- An error code as it is written in reports: its name and, in brackets, its number. -/
def render (code : ErrorCode) : String :=
  code.name ++ " (" ++ toString code.value.toInt ++ ")"

/-- The codes of a list in ascending order, each once. -/
def ascending (codes : List ErrorCode) : List ErrorCode :=
  (codes.mergeSort fun a b => decide (a.value.toInt ≤ b.value.toInt)).eraseDups

/-- Operation not permitted. -/
def eperm : ErrorCode := ⟨1, by decide⟩

/-- No such file or directory. -/
def enoent : ErrorCode := ⟨2, by decide⟩

/-- Input/output error. -/
def eio : ErrorCode := ⟨5, by decide⟩

/-- Cannot allocate memory. -/
def enomem : ErrorCode := ⟨12, by decide⟩

/-- Invalid argument. -/
def einval : ErrorCode := ⟨22, by decide⟩

/-- Numerical result out of range. -/
def erange : ErrorCode := ⟨34, by decide⟩

/-- The codes that have a constant of their own. -/
def named : List ErrorCode := [eperm, enoent, eio, enomem, einval, erange]

end ErrorCode

end NonlocalExit
