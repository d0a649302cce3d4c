/-!
# Readers

A reader takes a value from the front of a text or refuses the text.  A refusal takes nothing, so
alternatives are tried on the same text.
-/

namespace NonlocalExit.Toml

/-- A reader of values of type `α`. -/
abbrev Reader (α : Type) := StateT (List Char) Option α

namespace Reader

variable {α : Type}

/-- Takes one character. -/
def next : Reader Char := fun cs =>
  match cs with
  | [] => none
  | c :: rest => some (c, rest)

/-- Takes one character of a class. -/
def oneOf (p : Char → Bool) : Reader Char := do
  let c ← next
  if p c then return c else failure

/-- Takes a given character. -/
def char (c : Char) : Reader Unit := do
  let _ ← oneOf (· == c)

/-- Takes a given text. -/
def word : List Char → Reader Unit
  | [] => pure ()
  | c :: rest => do
    char c
    word rest

/-- The longest run of characters of a class. -/
def run (p : Char → Bool) : Reader (List Char) := fun cs => some (cs.takeWhile p, cs.dropWhile p)

/-- The longest run of characters of a class, which must not be empty. -/
def run1 (p : Char → Bool) : Reader (List Char) := do
  let cs ← run p
  if cs.isEmpty then failure else return cs

/-- Exactly `n` characters of a class. -/
def exactly (p : Char → Bool) : Nat → Reader (List Char)
  | 0 => pure []
  | n + 1 => do
    let c ← oneOf p
    return c :: (← exactly p n)

/-- Takes a value if there is one. -/
def maybe (x : Reader α) : Reader (Option α) := fun cs =>
  match x cs with
  | some (a, rest) => some (some a, rest)
  | none => some (none, cs)

/-- Succeeds where a reader does, and takes nothing. -/
def ahead (x : Reader α) : Reader Unit := fun cs =>
  match x cs with
  | some _ => some ((), cs)
  | none => none

/-- Succeeds where a reader does not, and takes nothing. -/
def notAhead (x : Reader α) : Reader Unit := fun cs =>
  match x cs with
  | some _ => none
  | none => some ((), cs)

/-- Succeeds at the end of the text only. -/
def atEnd : Reader Unit := fun cs => if cs.isEmpty then some ((), cs) else none

/-- As many values as there are; a value that takes nothing is the last one. -/
def many (x : Reader α) (cs : List Char) : Option (List α × List Char) :=
  match x cs with
  | none => some ([], cs)
  | some (a, rest) =>
    if rest.length < cs.length then
      (many x rest).map fun (as, rest') => (a :: as, rest')
    else some ([a], rest)
termination_by cs.length

/-- Values between separators, at least one. -/
def sepBy1 (x : Reader α) (sep : Reader Unit) : Reader (List α) := do
  let a ← x
  let as ← many do
    sep
    x
  return a :: as

/-- Values between separators. -/
def sepBy (x : Reader α) (sep : Reader Unit) : Reader (List α) := do
  match ← maybe (sepBy1 x sep) with
  | some as => return as
  | none => return []

end Reader

end NonlocalExit.Toml
