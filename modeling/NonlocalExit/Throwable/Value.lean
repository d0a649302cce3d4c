import NonlocalExit.Throwable.Kind

/-!
# Throwable values

Values of the throwable types, by their bits: a float is the pattern of its bits, so that a value
is never altered by being thrown.  `Value.cells` lays a value out in payload cells and
`Value.ofCells?` reads a value of a known type.

`ofCells?_cells`: reading the cells of a value at its own type gives the value back.
-/

namespace NonlocalExit

variable [Declarations]

/-- A value that can be thrown. -/
inductive Value
  | schar (v : BitVec 8) | uchar (v : BitVec 8)
  | char (c : Char)
  | short (v : BitVec 16) | ushort (v : BitVec 16)
  | int (v : BitVec 32) | uint (v : BitVec 32)
  | long (v : BitVec 64) | ulong (v : BitVec 64)
  | longlong (v : BitVec 128) | ulonglong (v : BitVec 128)
  | isize (v : BitVec 64) | usize (v : BitVec 64)
  | float (bits : BitVec 32) | double (bits : BitVec 64)
  | bool (b : Bool)
  | overheat (celsius : BitVec 32)
  | reading (sensor : BitVec 16) (value : BitVec 64)
  | empty
  | big (bytes : BitVec 1024)
  | clashA (v : BitVec 32) | clashB (v : BitVec 32) | fakeInt (v : BitVec 32)
  | arithmeticError (kind : ArithmeticKind) (pc : Address)
  | illegalInstruction (message : String) (pc : Address)
  | stackCorruption (message : String) (pc : Address)
  | accessViolation (message : String) (address : Address)
  | misalignedAccess (message : String) (address : Address)
  | declared (value : Declarations.Val)
  deriving DecidableEq, Repr

namespace Value

/-- The type of a value. -/
def type : Value → ThrowType
  | schar _ => .schar | uchar _ => .uchar | char _ => .char | short _ => .short
  | ushort _ => .ushort | int _ => .int | uint _ => .uint | long _ => .long | ulong _ => .ulong
  | longlong _ => .longlong | ulonglong _ => .ulonglong | isize _ => .isize | usize _ => .usize
  | float _ => .float | double _ => .double | bool _ => .bool | overheat _ => .overheat
  | reading .. => .reading | empty => .empty | big _ => .big | clashA _ => .clashA
  | clashB _ => .clashB | fakeInt _ => .fakeInt | arithmeticError .. => .arithmeticError
  | illegalInstruction .. => .illegalInstruction | stackCorruption .. => .stackCorruption
  | accessViolation .. => .accessViolation | misalignedAccess .. => .misalignedAccess
  | declared value => .declared (Declarations.kind value)

open Cell

/-- The payload cells of a value. -/
def cells : Value → List Cell
  | schar v | uchar v => word 1 v.toNat
  | short v | ushort v => word 2 v.toNat
  | int v | uint v | float v | overheat v | clashA v | clashB v | fakeInt v => word 4 v.toNat
  | long v | ulong v | isize v | usize v | double v => word 8 v.toNat
  | longlong v | ulonglong v => word 16 v.toNat
  | char c => word 4 c.toNat
  | bool b => word 1 b.toNat
  | reading sensor value => word 8 value.toNat ++ (word 2 sensor.toNat ++ fill 6)
  | empty => []
  | big bytes => word 128 bytes.toNat
  | arithmeticError kind pc =>
    textCells kind.message ++ (addressCells pc ++ byte kind.index :: fill 7)
  | illegalInstruction message a | stackCorruption message a | accessViolation message a
  | misalignedAccess message a => textCells message ++ (addressCells a ++ [])
  | declared value => Declarations.cells value

/-- Reads a number of `n` bytes and makes a value of it. -/
def ofWord? (n : Nat) (make : Nat → Value) (cells : List Cell) : Option Value :=
  (readWord n cells).map fun (x, _) => make x

/-- Reads a message and an address and makes a value of them. -/
def ofReport? (make : String → Address → Value) (cells : List Cell) : Option Value :=
  (readText cells).bind fun (message, rest) =>
    (readAddress rest).map fun (a, _) => make message a

/-- Reads a value of a given type. -/
def ofCells? : ThrowType → List Cell → Option Value
  | .schar => ofWord? 1 fun x => schar (.ofNat 8 x)
  | .uchar => ofWord? 1 fun x => uchar (.ofNat 8 x)
  | .char => ofWord? 4 fun x => char (.ofNat x)
  | .short => ofWord? 2 fun x => short (.ofNat 16 x)
  | .ushort => ofWord? 2 fun x => ushort (.ofNat 16 x)
  | .int => ofWord? 4 fun x => int (.ofNat 32 x)
  | .uint => ofWord? 4 fun x => uint (.ofNat 32 x)
  | .long => ofWord? 8 fun x => long (.ofNat 64 x)
  | .ulong => ofWord? 8 fun x => ulong (.ofNat 64 x)
  | .longlong => ofWord? 16 fun x => longlong (.ofNat 128 x)
  | .ulonglong => ofWord? 16 fun x => ulonglong (.ofNat 128 x)
  | .isize => ofWord? 8 fun x => isize (.ofNat 64 x)
  | .usize => ofWord? 8 fun x => usize (.ofNat 64 x)
  | .float => ofWord? 4 fun x => float (.ofNat 32 x)
  | .double => ofWord? 8 fun x => double (.ofNat 64 x)
  | .bool => ofWord? 1 fun x => bool (x != 0)
  | .overheat => ofWord? 4 fun x => overheat (.ofNat 32 x)
  | .reading => fun cells =>
    (readWord 8 cells).bind fun (value, rest) =>
      (readWord 2 rest).map fun (sensor, _) => reading (.ofNat 16 sensor) (.ofNat 64 value)
  | .empty => fun _ => some empty
  | .big => ofWord? 128 fun x => big (.ofNat 1024 x)
  | .clashA => ofWord? 4 fun x => clashA (.ofNat 32 x)
  | .clashB => ofWord? 4 fun x => clashB (.ofNat 32 x)
  | .fakeInt => ofWord? 4 fun x => fakeInt (.ofNat 32 x)
  | .arithmeticError => fun cells =>
    (readText cells).bind fun (_, rest) =>
      (readAddress rest).bind fun
        | (pc, byte i :: _) => (ArithmeticKind.ofIndex? i).map fun kind => arithmeticError kind pc
        | _ => none
  | .illegalInstruction => ofReport? illegalInstruction
  | .stackCorruption => ofReport? stackCorruption
  | .accessViolation => ofReport? accessViolation
  | .misalignedAccess => ofReport? misalignedAccess
  | .declared kind => fun cells => (Declarations.ofCells? kind cells).map declared

/-- A value takes as many cells as its type has bytes. -/
theorem length_cells (v : Value) : v.cells.length = v.type.size := by
  cases v with
  | declared value => exact Declarations.length_cells value
  | _ => simp [cells, type, ThrowType.size]

theorem ofWord?_word (n : Nat) (make : Nat → Value) (x : Nat) :
    ofWord? n make (word n x) = some (make (x % Nat.pow 256 n)) := by
  have h := readWord_word n x []
  rw [List.append_nil] at h
  simp [ofWord?, h]

theorem ofReport?_report (make : String → Address → Value) (message : String) (a : Address) :
    ofReport? make (textCells message ++ (addressCells a ++ [])) = some (make message a) := by
  simp only [ofReport?, readText_text, readAddress_address, Option.bind_some, Option.map_some]

/-- Reading the cells of a value at its own type gives the value back. -/
theorem ofCells?_cells (v : Value) : ofCells? v.type v.cells = some v := by
  cases v with
  | char c => simp only [type, cells, ofCells?, ofWord?_word, toNat_mod_char, Char.ofNat_toNat]
  | bool b => cases b <;> rfl
  | reading sensor value =>
    simp only [type, cells, ofCells?, readWord_word, Option.bind_some, Option.map_some]
    rw [ofNat_toNat_mod 16 2 rfl, ofNat_toNat_mod 64 8 rfl]
  | empty => rfl
  | declared value => exact congrArg (Option.map declared) (Declarations.ofCells?_cells value)
  | arithmeticError kind pc =>
    simp only [type, cells, ofCells?, readText_text, readAddress_address, Option.bind_some,
      ArithmeticKind.ofIndex?_index, Option.map_some]
  | illegalInstruction | stackCorruption | accessViolation | misalignedAccess =>
    exact ofReport?_report ..
  | _ =>
    simp only [type, cells, ofCells?, ofWord?_word]
    rw [ofNat_toNat_mod]; rfl

end Value

end NonlocalExit
