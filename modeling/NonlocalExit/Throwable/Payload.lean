import NonlocalExit.Fault.Basic

/-!
# Payload cells

A thrown value is stored without its type, as a row of byte-sized cells.  A number takes one cell
for each byte, least significant first.  A reference to a text takes sixteen cells and an address
eight; the first of them holds what is referred to and the others are filler.

`readWord_word`, `readText_text` and `readAddress_address`: what was written is read back, whatever
follows it.
-/

namespace NonlocalExit

/-- One byte-sized cell of a payload. -/
inductive Cell
  | byte (value : UInt8)
  | text (value : String)
  | address (value : Address)
  | filler
  deriving DecidableEq, Repr

namespace Cell

/-- The lowest `n` bytes of a number, least significant first. -/
def word : Nat → Nat → List Cell
  | 0, _ => []
  | n + 1, x => byte (UInt8.ofNat x) :: word n (x / 256)

/-- Reads a number of `n` bytes, least significant first. -/
def readWord : Nat → List Cell → Option (Nat × List Cell)
  | 0, cells => some (0, cells)
  | n + 1, byte b :: cells =>
    (readWord n cells).map fun (x, rest) => (b.toNat + 256 * x, rest)
  | _ + 1, _ => none

/-- A run of filler. -/
def fill (n : Nat) : List Cell := List.replicate n filler

/-- Drops `n` cells of filler. -/
def skip : Nat → List Cell → Option (List Cell)
  | 0, cells => some cells
  | n + 1, filler :: cells => skip n cells
  | _ + 1, _ => none

/-- A reference to a text. -/
def textCells (s : String) : List Cell := text s :: fill 15

/-- Reads a reference to a text. -/
def readText : List Cell → Option (String × List Cell)
  | text s :: cells => (skip 15 cells).map fun rest => (s, rest)
  | _ => none

/-- An address. -/
def addressCells (a : Address) : List Cell := address a :: fill 7

/-- Reads an address. -/
def readAddress : List Cell → Option (Address × List Cell)
  | address a :: cells => (skip 7 cells).map fun rest => (a, rest)
  | _ => none

@[simp] theorem length_word (n x : Nat) : (word n x).length = n := by
  induction n generalizing x with
  | zero => rfl
  | succ n ih => simp [word, ih]

@[simp] theorem length_fill (n : Nat) : (fill n).length = n := by simp [fill]

@[simp] theorem length_textCells (s : String) : (textCells s).length = 16 := by simp [textCells]

@[simp] theorem length_addressCells (a : Address) : (addressCells a).length = 8 := by
  simp [addressCells]

/-- A number is read back up to the bytes that were written. -/
@[simp] theorem readWord_word (n x : Nat) (rest : List Cell) :
    readWord n (word n x ++ rest) = some (x % Nat.pow 256 n, rest) := by
  induction n generalizing x with
  | zero => simp [word, readWord, Nat.mod_one]
  | succ n ih =>
    have h : x % 256 ^ (n + 1) = x % 256 + 256 * (x / 256 % 256 ^ n) := by
      rw [Nat.pow_succ, Nat.mul_comm, Nat.mod_mul]
    simp [word, readWord, ih, h]

/-- A number of `n` bytes is read back from them. -/
theorem ofNat_toNat_mod (w n : Nat) (h : w = 8 * n) (v : BitVec w) :
    BitVec.ofNat w (v.toNat % Nat.pow 256 n) = v := by
  have hp : Nat.pow 256 n = 2 ^ w := by rw [h, Nat.pow_mul, Nat.pow_eq]
  rw [hp, Nat.mod_eq_of_lt v.isLt, BitVec.ofNat_toNat, BitVec.setWidth_eq]

theorem toNat_mod_char (c : Char) : c.toNat % Nat.pow 256 4 = c.toNat := by
  apply Nat.mod_eq_of_lt
  have h : c.toNat < 4294967296 := c.val.toBitVec.isLt
  omega

@[simp] theorem skip_fill (n : Nat) (rest : List Cell) : skip n (fill n ++ rest) = some rest := by
  induction n with
  | zero => rfl
  | succ n ih => simpa [fill, List.replicate_succ, skip] using ih

@[simp] theorem readText_text (s : String) (rest : List Cell) :
    readText (textCells s ++ rest) = some (s, rest) := by
  simp [readText, textCells]

@[simp] theorem readAddress_address (a : Address) (rest : List Cell) :
    readAddress (addressCells a ++ rest) = some (a, rest) := by
  simp [readAddress, addressCells]

end Cell

end NonlocalExit
