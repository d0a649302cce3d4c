import NonlocalExit.Throwable.Value

/-!
# Exceptions

An exception is a thrown value with its type erased: the tag and the identity of the type, its size
and the payload cells.  Whether an exception is of a type is decided on the tag and the identity;
`downcast?` reads the payload only then.

`downcast?_of`: the exception made from a value gives that value at the value's own type, and
nothing at every other type, tags shared or not.
-/

namespace NonlocalExit

variable [Declarations]

/-- A thrown value with its type erased. -/
structure Exception where
  tag : String
  type : ThrowType
  size : Nat
  payload : List Cell
  deriving DecidableEq, Repr

namespace Exception

/-- The exception that carries a value. -/
def of (v : Value) : Exception := ⟨v.type.tag, v.type, v.type.size, v.cells⟩

/-- Whether an exception carries a value of a given type. -/
def is (e : Exception) (t : ThrowType) : Bool := e.tag == t.tag && e.type == t

/-- The value that an exception carries, if it is of a given type. -/
def downcast? (e : Exception) (t : ThrowType) : Option Value :=
  if e.is t then Value.ofCells? t e.payload else none

/-- The built-in types whose values an exception can be taken for. -/
def types (e : Exception) : List ThrowType := ThrowType.all.filter e.is

/-- The value that an exception carries, read at the first built-in type that fits. -/
def value? (e : Exception) : Option Value := e.types.findSome? e.downcast?

/-- The text that stands for an exception in diagnostics. -/
def debug (e : Exception) : String :=
  "Exception \x7b type_name: \"" ++ e.tag ++ "\", size: " ++ toString e.size ++ ", .. \x7d"

/-- An exception made from a value is of the value's type and of no other. -/
theorem is_of (v : Value) (t : ThrowType) : (of v).is t = decide (v.type = t) := by
  by_cases h : v.type = t <;> simp [is, of, h]

/-- The value comes back at its own type and at no other. -/
theorem downcast?_of (v : Value) (t : ThrowType) :
    (of v).downcast? t = if v.type = t then some v else none := by
  rw [downcast?, is_of]
  by_cases h : v.type = t
  · subst h; simpa [of] using Value.ofCells?_cells v
  · simp [h]

end Exception

/-- Two types with the tag of `int`: one has no bytes, the other has as many as a type may have. -/
@[reducible]
def Declarations.namesakes : Declarations :=
  .ofSizes (fun large : Bool => if large then "Large" else "Small") (fun _ => "int")
    (fun large => if large then maxThrowableSize else 0) (by decide)

example : letI := Declarations.namesakes
    let v : Value := .declared ⟨false, 0⟩
    v.type.tag = ThrowType.tag .int ∧ (Exception.of v).downcast? .int = none ∧
      (Exception.of v).downcast? v.type = some v := ⟨rfl, rfl, rfl⟩

end NonlocalExit
