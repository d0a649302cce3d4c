/-!
# Arguments

What the arguments of the command line ask for.  Arguments are taken from left to right, and the
first one that is wrong, or that asks for help or for the version, decides.  The settings file may
be named before or after the command; the later of the two counts, and neither may be given twice.
-/

namespace NonlocalExit.CommandLine

/-- A command. -/
inductive Command
  | demo
  | bench (runs : Nat)
  | errno (code : Int32)
  deriving DecidableEq, Repr

/-- A command with the settings file that goes with it. -/
structure Invocation where
  settingsPath : Option String
  command : Command
  deriving DecidableEq, Repr

/-- What the arguments ask for. -/
inductive Request
  | run (i : Invocation)
  | version
  | help
  | invalid
  deriving DecidableEq, Repr

/-! ## Numbers -/

/-- The number that a text of decimal digits stands for. -/
def digitsNat? (cs : List Char) : Option Nat :=
  if cs.isEmpty || !cs.all Char.isDigit then none
  else some (cs.foldl (fun n c => 10 * n + (c.toNat - '0'.toNat)) 0)

/-- The number that decimal digits, with or without a sign, stand for. -/
def integer? (s : String) : Option Int :=
  match s.toList with
  | '-' :: cs => (digitsNat? cs).map fun n => -(n : Int)
  | '+' :: cs => (digitsNat? cs).map fun n => (n : Int)
  | cs => (digitsNat? cs).map fun n => (n : Int)

/-- A signed number of 32 bits. -/
def int32? (s : String) : Option Int32 := do
  let n ← integer? s
  if Int32.minValue.toInt ≤ n && n ≤ Int32.maxValue.toInt then some (.ofInt n) else none

/-- An unsigned number of 32 bits. -/
def nat32? (s : String) : Option Nat := do
  let n ← integer? s
  if 0 ≤ n && n.toNat < UInt32.size then some n.toNat else none

/-! ## Tokens -/

/-- The sorts of arguments. -/
inductive Token
  /-- Two dashes: what follows is taken as it stands. -/
  | escape
  /-- An option by its name, with the value after an equals sign if there is one. -/
  | long (name : String) (value : Option String)
  /-- An option by a single letter. -/
  | short (letter : Char)
  | plain (s : String)

/-- The sort of an argument. -/
def Token.ofString (s : String) : Token :=
  match s.toList with
  | ['-', '-'] => escape
  | '-' :: '-' :: cs =>
    let name := String.ofList (cs.takeWhile (· != '='))
    match cs.dropWhile (· != '=') with
    | [] => long name none
    | _ :: value => long name (some (.ofList value))
  | '-' :: c :: _ => short c
  | _ => plain s

/-- The value of an option: after an equals sign or else the next argument, if that is no option. -/
def optionValue (attached : Option String) (rest : List String) : Option (String × List String) :=
  match attached with
  | some v => some (v, rest)
  | none =>
    match rest with
    | [] => none
    | s :: rest =>
      match Token.ofString s with
      | .plain v => some (v, rest)
      | _ => none

/-- The path that is the value of an option; it must not be empty. -/
def pathValue (attached : Option String) (rest : List String) : Option (String × List String) :=
  match optionValue attached rest with
  | some (path, rest) => if path.isEmpty then none else some (path, rest)
  | none => none

/-! ## Commands -/

/-- What has been said about a command so far. -/
structure Draft where
  settingsPath : Option String
  runs : Option Nat
  code : Option Int32

/-- Which of its own arguments a command takes. -/
inductive Shape
  | demo
  | bench
  | errno
  deriving DecidableEq

/-- What a finished draft asks for; the settings file named before the command is `outer`. -/
def Draft.request (shape : Shape) (outer : Option String) (d : Draft) : Request :=
  let path := d.settingsPath <|> outer
  match shape with
  | .demo => .run ⟨path, .demo⟩
  | .bench => .run ⟨path, .bench (d.runs.getD 100)⟩
  | .errno =>
    match d.code with
    | some code => .run ⟨path, .errno code⟩
    | none => .invalid

/-- Adds a plain argument to a draft. -/
def Draft.addPlain (shape : Shape) (d : Draft) (s : String) : Option Draft :=
  match shape, d.code with
  | .errno, none => (int32? s).map fun code => { d with code := some code }
  | _, _ => none

/-- The arguments after a command. -/
def readCommand (shape : Shape) (outer : Option String) : Nat → Draft → List String → Request
  | 0, _, _ => .invalid
  | _ + 1, d, [] => d.request shape outer
  | fuel + 1, d, s :: rest =>
    match Token.ofString s with
    | .escape =>
      match rest.foldlM (Draft.addPlain shape) d with
      | some d => d.request shape outer
      | none => .invalid
    | .plain s =>
      match d.addPlain shape s with
      | some d => readCommand shape outer fuel d rest
      | none => .invalid
    | .short c => if c == 'h' then .help else .invalid
    | .long "help" none => .help
    | .long "config" attached =>
      match d.settingsPath, pathValue attached rest with
      | none, some (path, rest) =>
        readCommand shape outer fuel { d with settingsPath := some path } rest
      | _, _ => .invalid
    | .long "runs" attached =>
      match shape, d.runs, (optionValue attached rest) with
      | .bench, none, some (value, rest) =>
        match nat32? value with
        | some n => readCommand shape outer fuel { d with runs := some n } rest
        | none => .invalid
      | _, _, _ => .invalid
    | .long .. => .invalid

/-- The arguments of a command, from the command's name on. -/
def readNamed (outer : Option String) (name : String) (rest : List String) : Request :=
  let read (shape : Shape) := readCommand shape outer (rest.length + 1) ⟨none, none, none⟩ rest
  match name with
  | "demo" => read .demo
  | "bench" => read .bench
  | "errno" => read .errno
  | "help" =>
    match rest with
    | [] => .help
    | [s] => if ["demo", "bench", "errno", "help"].contains s then .help else .invalid
    | _ => .invalid
  | _ => .invalid

/-- The arguments in front of the command. -/
def readOuter : Nat → Option String → List String → Request
  | 0, _, _ => .invalid
  | _ + 1, _, [] => .invalid
  | fuel + 1, path, s :: rest =>
    match Token.ofString s with
    | .plain name => readNamed path name rest
    | .short c => if c == 'h' then .help else if c == 'V' then .version else .invalid
    | .long "help" none => .help
    | .long "version" none => .version
    | .long "config" attached =>
      match path, pathValue attached rest with
      | none, some (value, rest) => readOuter fuel (some value) rest
      | _, _ => .invalid
    | .escape | .long .. => .invalid

/-- What arguments ask for. -/
def Request.ofArguments (arguments : List String) : Request :=
  readOuter (arguments.length + 1) none arguments

end NonlocalExit.CommandLine
