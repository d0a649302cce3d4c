import NonlocalExit.Throwable.Declarations

/-!
# The types of throwable values

Every throwable type has a short *tag*, which catch clauses compare first, and a size in bytes.
Tags need not be distinct: `clashA` and `clashB` share one, `fakeInt` has the tag of `int`, and a
declared type may have any tag.
-/

namespace NonlocalExit

variable [Declarations]

/-- The types whose values can be thrown: the built-in ones and those that are declared. -/
inductive ThrowType
  | schar | uchar | char | short | ushort | int | uint | long | ulong | longlong | ulonglong
  | isize | usize | float | double | bool
  | overheat | reading | empty | big | clashA | clashB | fakeInt
  | arithmeticError | illegalInstruction | stackCorruption | accessViolation | misalignedAccess
  | declared (kind : Declarations.Kind)
  deriving DecidableEq, Repr

namespace ThrowType

/-- The built-in types. -/
def all : List ThrowType :=
  [schar, uchar, char, short, ushort, int, uint, long, ulong, longlong, ulonglong, isize, usize,
    float, double, bool, overheat, reading, empty, big, clashA, clashB, fakeInt, arithmeticError,
    illegalInstruction, stackCorruption, accessViolation, misalignedAccess]

/-- The name by which a built-in type is told from every other one, or under which a type is
declared. -/
def id : ThrowType → String
  | schar => "schar" | uchar => "uchar" | char => "char" | short => "short" | ushort => "ushort"
  | int => "int" | uint => "uint" | long => "long" | ulong => "ulong"
  | longlong => "longlong" | ulonglong => "ulonglong" | isize => "isize" | usize => "usize"
  | float => "float" | double => "double" | bool => "bool"
  | overheat => "Overheat" | reading => "Reading" | empty => "Empty" | big => "Big"
  | clashA => "ClashA" | clashB => "ClashB" | fakeInt => "FakeInt"
  | arithmeticError => "ArithmeticError" | illegalInstruction => "IllegalInstruction"
  | stackCorruption => "StackCorruption" | accessViolation => "AccessViolation"
  | misalignedAccess => "MisalignedAccess" | declared kind => Declarations.name kind

/-- The tag that values of a type carry. -/
def tag : ThrowType → String
  | clashA | clashB => "Clash"
  | fakeInt => "int"
  | declared kind => Declarations.tag kind
  | t => t.id

/-- The number of bytes of a value of a type. -/
def size : ThrowType → Nat
  | schar | uchar | bool => 1
  | short | ushort => 2
  | char | int | uint | float | overheat | clashA | clashB | fakeInt => 4
  | long | ulong | isize | usize | double => 8
  | longlong | ulonglong | reading => 16
  | empty => 0
  | big => 128
  | arithmeticError => 32
  | illegalInstruction | stackCorruption | accessViolation | misalignedAccess => 24
  | declared kind => Declarations.size kind

/-- The built-in type with a given name. -/
def ofId? (name : String) : Option ThrowType := all.find? fun t => t.id == name

end ThrowType

/-- Every throwable type fits the payload buffer. -/
theorem ThrowType.size_le (t : ThrowType) : t.size ≤ maxThrowableSize := by
  cases t with
  | declared kind => exact Declarations.size_le kind
  | _ => simp [size, maxThrowableSize]

end NonlocalExit
