import NonlocalExit.Throwable.Payload

/-!
# Declared types

Any program may declare types of its own whose values can be thrown.  `Declarations` is all that is
known of them: a tag and a size for each type, and for each value the payload cells, from which it
is read back.  What is said of programs holds whatever they declare.
-/

namespace NonlocalExit

/-- The largest size that a throwable value may have. -/
def maxThrowableSize : Nat := 128

/-- The types that are declared throwable beside the built-in ones.  Two types may share a tag, with
each other and with a built-in type. -/
class Declarations where
  /-- The declared types. -/
  Kind : Type
  /-- The values of all declared types. -/
  Val : Type
  [decidableEqKind : DecidableEq Kind]
  [reprKind : Repr Kind]
  [reprVal : Repr Val]
  /-- The name under which a type is declared. -/
  name : Kind → String
  tag : Kind → String
  /-- The number of bytes of a value of a type. -/
  size : Kind → Nat
  /-- The type of a value. -/
  kind : Val → Kind
  /-- The payload cells of a value. -/
  cells : Val → List Cell
  /-- Reads a value of a given type. -/
  ofCells? : Kind → List Cell → Option Val
  size_le (k : Kind) : size k ≤ maxThrowableSize
  length_cells (v : Val) : (cells v).length = size (kind v)
  ofCells?_cells (v : Val) : ofCells? (kind v) (cells v) = some v

namespace Declarations

attribute [reducible, instance] decidableEqKind reprKind reprVal

/-- A value is known by its type and its payload cells. -/
theorem eq_of_cells [Declarations] {v w : Val} (hk : kind v = kind w) (hc : cells v = cells w) :
    v = w := by
  have h := ofCells?_cells v
  rw [hk, hc, ofCells?_cells] at h
  exact (Option.some.inj h).symm

instance [Declarations] : DecidableEq Val := fun v w =>
  decidable_of_iff (kind v = kind w ∧ cells v = cells w)
    ⟨fun h => eq_of_cells h.1 h.2, fun h => h ▸ ⟨rfl, rfl⟩⟩

/-- No type is declared beside the built-in ones. -/
instance none : Declarations where
  Kind := Empty
  Val := Empty
  name := Empty.elim
  tag := Empty.elim
  size := Empty.elim
  kind := Empty.elim
  cells := Empty.elim
  ofCells? := Empty.elim
  size_le k := k.elim
  length_cells v := v.elim
  ofCells?_cells v := v.elim

open Cell

/-- Types of any tags and sizes can be declared, with rows of bytes as their values. -/
@[reducible]
def ofSizes {ι : Type} [DecidableEq ι] [Repr ι] (name tag : ι → String) (size : ι → Nat)
    (size_le : ∀ i, size i ≤ maxThrowableSize) : Declarations where
  Kind := ι
  Val := (i : ι) × BitVec (8 * size i)
  reprVal := ⟨fun v _ => repr v.1 ++ repr v.2⟩
  name := name
  tag := tag
  size := size
  kind := Sigma.fst
  cells v := word (size v.1) v.2.toNat
  ofCells? i cells := (readWord (size i) cells).map fun x => ⟨i, .ofNat _ x.1⟩
  size_le := size_le
  length_cells _ := length_word _ _
  ofCells?_cells v := by
    have h := readWord_word (size v.1) v.2.toNat []
    rw [List.append_nil] at h
    rw [h, Option.map_some, ofNat_toNat_mod _ _ rfl]

end Declarations

end NonlocalExit
