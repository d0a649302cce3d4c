import NonlocalExit.Toml.Scalar

/-!
# Tables

The tree that a configuration file describes, and the three ways in which a line adds to it.  A
table is *implicit* while it is known only as a part of a path, and *dotted* when the path stood on
the left of an assignment.  A table may be filled in several places, but opened by a header only
once, and not from one kind of place when it was made in another.
-/

namespace NonlocalExit.Toml

mutual

/-- What a key stands for. -/
inductive Node : Type
  | scalar (s : Scalar)
  | array (items : List Node)
  /-- A table written as a value. -/
  | inline (t : Table)
  /-- A table opened by a header or by a path. -/
  | table (t : Table)
  /-- Tables opened by repeated headers, the latest first. -/
  | tables (ts : List Table)

/-- A table. -/
inductive Table : Type
  | mk (implicit dotted : Bool) (entries : List (String × Node))

end

namespace Table

/-- Whether a table is known as a part of a path only. -/
def implicit : Table → Bool
  | mk i _ _ => i

/-- Whether a table was made by an assignment. -/
def dotted : Table → Bool
  | mk _ d _ => d

/-- The keys of a table and what they stand for, in the order in which they came. -/
def entries : Table → List (String × Node)
  | mk _ _ es => es

/-- The table that a file begins with. -/
def root : Table := mk false false []

/-- What a key stands for. -/
def get? (t : Table) (key : String) : Option Node := t.entries.lookup key

/-- Changes what a key stands for, in place, or adds it at the end. -/
def alterEntries (key : String) (change : Option Node → Option Node) :
    List (String × Node) → Option (List (String × Node))
  | [] => (change none).map fun n => [(key, n)]
  | (k, n) :: rest =>
    if k = key then (change (some n)).map fun n' => (k, n') :: rest
    else (alterEntries key change rest).map ((k, n) :: ·)

/-- Changes what a key of a table stands for. -/
def alter (key : String) (change : Option Node → Option Node) (t : Table) : Option Table :=
  (alterEntries key change t.entries).map (mk t.implicit t.dotted)

/-- Changes the table at the end of a path; tables that are missing on the way are made.  The path
of an assignment, `assigned`, goes through implicit tables only. -/
def within (assigned : Bool) : List String → (Table → Option Table) → Table → Option Table
  | [], change => change
  | key :: path, change => alter key fun
    | none => (within assigned path change (mk true assigned [])).map .table
    | some (.table t) =>
      if assigned && !t.implicit then none else (within assigned path change t).map .table
    | some (.tables (t :: earlier)) =>
      (within assigned path change t).map fun t' => .tables (t' :: earlier)
    | some _ => none

/-- Changes the table at the end of a path within a table that is written as a value. -/
def withinInline : List String → (Table → Option Table) → Table → Option Table
  | [], change => change
  | key :: path, change => alter key fun
    | none => (withinInline path change (mk true true [])).map .inline
    | some (.inline t) =>
      if !t.implicit then none else (withinInline path change t).map .inline
    | some _ => none

/-- Adds a key that is not there yet. -/
def add (key : String) (n : Node) : Table → Option Table :=
  alter key fun
    | none => some n
    | some _ => none

/-- Adds the last key of an assignment, whose path was or was not empty, to the table at the end of
the path. -/
def addAt (pathEmpty : Bool) (key : String) (n : Node) (t : Table) : Option Table :=
  if t.dotted == pathEmpty then none else add key n t

/-- Opens a table by a header. -/
def openTable (key : String) : Table → Option Table :=
  alter key fun
    | none => some (.table (mk false false []))
    | some (.table t) =>
      if t.implicit && !t.dotted then some (.table (mk false false t.entries)) else none
    | some _ => none

/-- Opens another table of an array of tables by a header. -/
def openElement (key : String) : Table → Option Table :=
  alter key fun
    | none => some (.tables [root])
    | some (.tables ts) => some (.tables (root :: ts))
    | some _ => none

/-- A table written as a value, from its assignments. -/
def ofAssignments : List (List String × String × Node) → Option Table :=
  List.foldlM (fun t (path, key, n) => withinInline path (addAt path.isEmpty key n) t) root

end Table

end NonlocalExit.Toml
