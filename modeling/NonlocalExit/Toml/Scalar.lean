import NonlocalExit.Toml.Reader

/-!
# Scalars

The values of a configuration file that have no parts: strings, integers, floats, booleans and
dates.
-/

namespace NonlocalExit.Toml

/-- A day of the calendar. -/
structure Date where
  year : Nat
  month : Nat
  day : Nat
  deriving DecidableEq, Repr

/-- A time of day; the fraction of the second in billionths. -/
structure Time where
  hour : Nat
  minute : Nat
  second : Nat
  fraction : Nat
  deriving DecidableEq, Repr

/-- A float, exactly as written. -/
inductive Decimal
  /-- The digits as one number, with its sign, and the power of ten that goes with them. -/
  | finite (negative : Bool) (digits : Nat) (exponent : Int)
  | infinite (negative : Bool)
  | notANumber
  deriving DecidableEq, Repr

/-- A value without parts. -/
inductive Scalar
  | text (s : String)
  | integer (n : Int)
  | float (x : Decimal)
  | boolean (b : Bool)
  /-- A date, a time or both; the offset from universal time in minutes. -/
  | moment (date : Option Date) (time : Option Time) (offset : Option Int)
  deriving DecidableEq, Repr

open Reader

/-! ## Character classes -/

/-- A character outside the control characters of the lower half of the code. -/
def isPlain (c : Char) : Bool := c == '\t' || (' ' ≤ c && c != '\x7f')

/-- A blank within a line. -/
def isBlank (c : Char) : Bool := c == ' ' || c == '\t'

/-- A character that stands for itself in a string with escapes. -/
def isBasic (c : Char) : Bool := isPlain c && c != '"' && c != '\\'

/-- A character of a string without escapes. -/
def isLiteral (c : Char) : Bool := isPlain c && c != '\''

/-- A hexadecimal digit. -/
def isHex (c : Char) : Bool := c.isDigit || ('a' ≤ c && c ≤ 'f') || ('A' ≤ c && c ≤ 'F')

/-- The value of a digit of any base up to sixteen. -/
def digitValue (c : Char) : Nat :=
  if c.isDigit then c.toNat - '0'.toNat else c.toLower.toNat - 'a'.toNat + 10

/-- The number that digits stand for in a base. -/
def numberOf (base : Nat) (digits : List Char) : Nat :=
  digits.foldl (fun n c => base * n + digitValue c) 0

/-- The end of a line. -/
def newline : Reader Unit := word ['\n'] <|> word ['\r', '\n']

/-! ## Strings -/

/-- A character by its number, in `n` hexadecimal digits. -/
def charByNumber (n : Nat) : Reader Char := do
  let code := numberOf 16 (← exactly isHex n)
  if code.isValidChar then return .ofNat code else failure

/-- An escaped character. -/
def escaped : Reader Char := do
  char '\\'
  match ← next with
  | 'b' => return '\x08'
  | 'f' => return '\x0c'
  | 'n' => return '\n'
  | 'r' => return '\r'
  | 't' => return '\t'
  | '"' => return '"'
  | '\\' => return '\\'
  | 'u' => charByNumber 4
  | 'U' => charByNumber 8
  | _ => failure

/-- A string with escapes, in one line. -/
def basicString : Reader String := do
  char '"'
  let parts ← many (run1 isBasic <|> (do return [← escaped]))
  char '"'
  return .ofList parts.flatten

/-- A string without escapes, in one line. -/
def literalString : Reader String := do
  char '\''
  let cs ← run isLiteral
  char '\''
  return .ofList cs

/-- The end of a line within a string, which counts as one character. -/
def innerNewline : Reader (List Char) := do
  newline
  return ['\n']

/-- A backslash at the end of a line, with all blank space that follows it. -/
def continuation : Reader (List Char) := do
  char '\\'
  let _ ← run isBlank
  newline
  let _ ← many ((do let _ ← run1 isBlank) <|> newline)
  return []

/-- One or two quotes that do not end the string. -/
def innerQuotes (q : Char) : Reader (List Char) := do
  let cs ← (do word [q, q]; return [q, q]) <|> (do char q; return [q])
  notAhead (char q)
  return cs

/-- Three quotes that end the string, with up to two more before them that belong to it. -/
def closingQuotes (q : Char) : Reader (List Char) :=
  (do word [q, q, q, q, q]; return [q, q]) <|> (do word [q, q, q, q]; return [q]) <|>
    (do word [q, q, q]; return [])

/-- A string between triple quotes. -/
def longString (q : Char) (part : Reader (List Char)) : Reader String := do
  word [q, q, q]
  let _ ← maybe newline
  let parts ← many (part <|> innerNewline <|> innerQuotes q)
  let last ← closingQuotes q
  return .ofList (parts.flatten ++ last)

/-- A string of any sort. -/
def string : Reader String :=
  longString '"' (run1 isBasic <|> continuation <|> (do return [← escaped])) <|> basicString <|>
    longString '\'' (run1 isLiteral) <|> literalString

/-! ## Numbers -/

/-- Digits, with single underscores allowed between them. -/
def digits (isDigit : Char → Bool) : Reader (List Char) := do
  let first ← oneOf isDigit
  let rest ← many do
    let _ ← maybe (char '_')
    oneOf isDigit
  return first :: rest

/-- A sign; true for minus. -/
def sign : Reader Bool := do
  match ← maybe (oneOf fun c => c == '+' || c == '-') with
  | some c => return c == '-'
  | none => return false

/-- The digits of a decimal number, without leading zeros. -/
def decimalDigits : Reader (List Char) :=
  (do
    ahead (oneOf fun c => '1' ≤ c && c ≤ '9')
    digits Char.isDigit) <|>
  (do return [← oneOf Char.isDigit])

/-- Whether a number fits 64 bits. -/
def fits (n : Int) : Bool := Int64.minValue.toInt ≤ n && n ≤ Int64.maxValue.toInt

/-- An integer in a base that is announced by a letter. -/
def basedInteger (letter : Char) (base : Nat) (isDigit : Char → Bool) : Reader Int := do
  word ['0', letter]
  return numberOf base (← digits isDigit)

/-- An integer. -/
def integer : Reader Int := do
  let n ← basedInteger 'x' 16 isHex <|> basedInteger 'o' 8 (fun c => '0' ≤ c && c ≤ '7') <|>
    basedInteger 'b' 2 (fun c => c == '0' || c == '1') <|>
    (do
      let negative ← sign
      let n := numberOf 10 (← decimalDigits)
      return if negative then -(n : Int) else n)
  if fits n then return n else failure

/-- The exponent of a float. -/
def exponent : Reader Int := do
  let _ ← oneOf fun c => c == 'e' || c == 'E'
  let negative ← sign
  let n := numberOf 10 (← digits Char.isDigit)
  return if negative then -(n : Int) else n

/-- Whether a number is so large that the nearest double is infinite. -/
def tooLarge (digits : Nat) (exponent : Int) : Bool :=
  let bound := ((1 <<< 54) - 1) <<< 970
  let length : Int := (toString digits).length
  if digits = 0 || length + exponent < 300 then false
  else if 320 < length + exponent then true
  else if 0 ≤ exponent then bound ≤ digits * Nat.pow 10 exponent.toNat
  else bound * Nat.pow 10 (-exponent).toNat ≤ digits

/-- A float with digits.  A positive one must not be too large. -/
def finiteFloat : Reader Decimal := do
  let negative ← sign
  let whole ← decimalDigits
  let fraction ← maybe do
    char '.'
    digits Char.isDigit
  let power ← maybe exponent
  if fraction.isNone && power.isNone then failure
  let places := fraction.getD []
  let n := numberOf 10 (whole ++ places)
  let e := power.getD 0 - places.length
  if !negative && tooLarge n e then failure
  return .finite negative n e

/-- A float without digits. -/
def specialFloat : Reader Decimal := do
  let negative ← sign
  (do word ['i', 'n', 'f']; return .infinite negative) <|>
    (do word ['n', 'a', 'n']; return .notANumber)

/-! ## Dates and times -/

/-- A number of a given count of digits, within bounds. -/
def bounded (count low high : Nat) : Reader Nat := do
  let n := numberOf 10 (← exactly Char.isDigit count)
  if low ≤ n && n ≤ high then return n else failure

/-- The number of days of a month. -/
def daysIn (year month : Nat) : Nat :=
  if month = 2 then
    if year % 4 = 0 && (year % 100 != 0 || year % 400 = 0) then 29 else 28
  else if month = 4 || month = 6 || month = 9 || month = 11 then 30
  else 31

/-- A date. -/
def date : Reader Date := do
  let year ← bounded 4 0 9999
  char '-'
  let month ← bounded 2 1 12
  char '-'
  let day ← bounded 2 1 31
  if day ≤ daysIn year month then return ⟨year, month, day⟩ else failure

/-- A time of day. -/
def time : Reader Time := do
  let hour ← bounded 2 0 23
  char ':'
  let minute ← bounded 2 0 59
  char ':'
  let second ← bounded 2 0 60
  let places ← maybe do
    char '.'
    run1 Char.isDigit
  let nine := ((places.getD []) ++ List.replicate 9 '0').take 9
  return ⟨hour, minute, second, numberOf 10 nine⟩

/-- The offset of a time from universal time, in minutes. -/
def offset : Reader Int :=
  (do
    let _ ← oneOf fun c => c == 'Z' || c == 'z'
    return 0) <|>
  (do
    let s ← oneOf fun c => c == '+' || c == '-'
    let hour ← bounded 2 0 23
    char ':'
    let minute ← bounded 2 0 59
    let n : Int := 60 * hour + minute
    return if s == '-' then -n else n)

/-- A date with or without a time, or a time alone. -/
def moment : Reader Scalar :=
  (do
    let d ← date
    let rest ← maybe do
      let _ ← oneOf fun c => c == 'T' || c == 't' || c == ' '
      let t ← time
      return (t, ← maybe offset)
    return .moment (some d) (rest.map (·.1)) (rest.bind (·.2))) <|>
  (do return .moment none (some (← time)) none)

/-! ## Scalars -/

/-- A truth value. -/
def boolean : Reader Bool :=
  (do word ['t', 'r', 'u', 'e']; return true) <|>
    (do word ['f', 'a', 'l', 's', 'e']; return false)

/-- A value without parts. -/
def scalar : Reader Scalar :=
  (do return .text (← string)) <|> (do return .boolean (← boolean)) <|> moment <|>
    (do return .float (← finiteFloat)) <|> (do return .float (← specialFloat)) <|>
    (do return .integer (← integer))

end NonlocalExit.Toml
