import NonlocalExit.Toml.Table

/-!
# Documents

The lines of a configuration file and the tree they describe.  `Table.ofText?` refuses a text that
breaks a rule of the format anywhere.  Arrays and tables written as values nest less than
`nestingLimit` deep, and paths have fewer keys than that.
-/

namespace NonlocalExit.Toml

open Reader

/-- The depth of nesting that is refused. -/
def nestingLimit : Nat := 80

/-! ## Keys -/

/-- Blanks within a line. -/
def blanks : Reader Unit := do
  let _ ← run isBlank

/-- One key of a path. -/
def simpleKey : Reader String :=
  basicString <|> literalString <|>
    (do return .ofList (← run1 fun c => c.isAlphanum || c == '-' || c == '_'))

/-- A path of keys: those before the last, and the last one. -/
def path : Reader (List String × String) := do
  let keys ← sepBy1 (do blanks; let k ← simpleKey; blanks; return k) (char '.')
  if nestingLimit ≤ keys.length then failure
  match keys.getLast? with
  | some last => return (keys.dropLast, last)
  | none => failure

/-! ## Values -/

/-- A comment, up to the end of its line. -/
def comment : Reader Unit := do
  char '#'
  let _ ← run isPlain

/-- Blanks, ends of lines and comments. -/
def space : Reader Unit := do
  let _ ← many ((do let _ ← run1 isBlank) <|> newline <|> comment)

/-- An array of values. -/
def array (value : Reader Node) : Reader Node := do
  char '['
  let items ← sepBy (do space; let v ← value; space; return v) (char ',')
  if !items.isEmpty then
    let _ ← maybe (char ',')
  space
  char ']'
  return .array items

/-- An assignment: a path and a value. -/
def assignment (value : Reader Node) : Reader (List String × String × Node) := do
  let (before, key) ← path
  char '='
  blanks
  let v ← value
  blanks
  return (before, key, v)

/-- A table written as a value. -/
def inlineTable (value : Reader Node) : Reader Node := do
  char '{'
  let assignments ← sepBy (assignment value) (char ',')
  blanks
  char '}'
  match Table.ofAssignments assignments with
  | some t => return .inline t
  | none => failure

/-- A value within which arrays and tables nest at most `room` deep. -/
def value : (room : Nat) → Reader Node
  | 0 => do return .scalar (← scalar)
  | room + 1 =>
    array (value room) <|> inlineTable (value room) <|> (do return .scalar (← scalar))

/-! ## Lines -/

/-- What a line says. -/
inductive Line
  | empty
  | header (before : List String) (key : String)
  | elementHeader (before : List String) (key : String)
  | assign (before : List String) (key : String) (v : Node)

/-- What a line says, up to the comment or the end. -/
def statement : Reader Line :=
  (do
    word ['[', '[']
    let (before, key) ← path
    word [']', ']']
    return .elementHeader before key) <|>
  (do
    char '['
    let (before, key) ← path
    char ']'
    return .header before key) <|>
  (do
    let (before, key, v) ← assignment (value (nestingLimit - 1))
    return .assign before key v) <|>
  pure .empty

/-- A line with its end. -/
def line : Reader Line := do
  blanks
  let l ← statement
  blanks
  let _ ← maybe comment
  newline <|> atEnd
  return l

/-- All lines of a text; a mark of the byte order may stand in front. -/
def lines : Reader (List Line) := do
  let _ ← maybe (char '\ufeff')
  let ls ← many line
  atEnd
  return ls

/-! ## The tree -/

/-- A tree under construction, with the path of the table that assignments go to. -/
structure Draft where
  tree : Table
  place : List String

/-- Adds what a line says. -/
def Draft.addLine (d : Draft) : Line → Option Draft
  | .empty => some d
  | .header before key =>
    (Table.within false before (Table.openTable key) d.tree).map fun t => ⟨t, before ++ [key]⟩
  | .elementHeader before key =>
    (Table.within false before (Table.openElement key) d.tree).map fun t => ⟨t, before ++ [key]⟩
  | .assign before key v =>
    (Table.within false d.place (Table.within true before (Table.addAt before.isEmpty key v))
      d.tree).map fun t => ⟨t, d.place⟩

/-- The tree that a text describes. -/
def Table.ofText? (text : String) : Option Table := do
  let (ls, _) ← lines text.toList
  let d ← ls.foldlM Draft.addLine ⟨.root, []⟩
  return d.tree

end NonlocalExit.Toml
