import Allotment.Binary64.Decimal
import Allotment.Document.Value
import Allotment.Text.Hex
import Allotment.Text.Reader

/-!
# Scalars of TOML

Readers of white space, comments, strings, numbers, dates and times as TOML 1.0 has them. Numbers
that cannot be represented are refused, and so are dates that are not in the calendar.
-/

namespace Allotment.Toml

open Document (Value)
open Text (Reader)
open Text.Reader

/-! ### Space and comments -/

def isSpace (c : Char) : Bool :=
  c == ' ' || c == '\t'

/-- A character that may stand in a line: a tab, or any but the control characters. -/
def isPlain (c : Char) : Bool :=
  c == '\t' || 0x20 ≤ c.toNat && c.toNat != 0x7F

def space : Reader Unit := do
  let _ ← run isSpace

def newline : Reader Unit :=
  literal "\n" <|> literal "\r\n"

def lineEnd : Reader Unit :=
  newline <|> atEnd

/-- A comment, which goes on to the end of its line. -/
def comment : Reader Unit := do
  let _ ← char '#'
  let _ ← run isPlain

def gap : Reader Unit := do
  let _ ← many ((do let _ ← run1 isSpace) <|> newline <|> comment *> newline)

/-! ### Strings -/

/-- A character by the hexadecimal digits of its number. -/
def charOfHex (count : Nat) : Reader Char := do
  let n ← ofOption (Text.Hex.decode? (← exactly count))
  if n.isValidChar then return Char.ofNat n else failure

def escape : Reader Char := do
  let _ ← char '\\'
  match ← satisfying fun _ => true with
  | 'b' => return '\x08'
  | 't' => return '\t'
  | 'n' => return '\n'
  | 'f' => return '\x0c'
  | 'r' => return '\r'
  | '"' => return '"'
  | '\\' => return '\\'
  | 'u' => charOfHex 4
  | 'U' => charOfHex 8
  | _ => failure

def basicString : Reader String := do
  let _ ← char '"'
  let cs ← many (satisfying (fun c => isPlain c && c != '"' && c != '\\') <|> escape)
  let _ ← char '"'
  return String.ofList cs

/-- A string on one line in single quotes; it has no escapes. -/
def literalString : Reader String := do
  let _ ← char '\''
  let cs ← run fun c => isPlain c && c != '\''
  let _ ← char '\''
  return String.ofList cs

/-- A backslash at the end of a line; it takes away all space up to the next character. -/
def escapedLineEnd : Reader (List Char) := do
  let _ ← char '\\'
  space
  newline
  let _ ← many ((do let _ ← run1 isSpace) <|> newline)
  return []

/-- One or two quotes within a string of several lines. -/
def innerQuotes (quote : Char) : Reader (List Char) := do
  let q ← run1 (· == quote)
  if q.length ≤ 2 then return q else failure

/-- The three quotes that end a string of several lines, and up to two quotes before them. -/
def closingQuotes (quote : Char) : Reader (List Char) := do
  let q ← run (· == quote)
  if 3 ≤ q.length ∧ q.length ≤ 5 then return q.drop 3 else failure

/-- A string of several lines between three quotes; a line end right after the first ones does not
count. Other line ends are read as line feeds. -/
def multiline (quote : Char) (escapes : Reader (List Char)) (plain : Char → Bool) :
    Reader String := do
  literal (String.ofList [quote, quote, quote])
  let _ ← optional newline
  let pieces ← many <|
    run1 (fun c => isPlain c && c != quote && plain c) <|> escapes <|>
      (do newline; return ['\n']) <|> innerQuotes quote
  return String.ofList (pieces.flatten ++ (← closingQuotes quote))

def string : Reader String :=
  multiline '"' (escapedLineEnd <|> (do return [← escape])) (· != '\\') <|>
    multiline '\'' failure (fun _ => true) <|> basicString <|> literalString

/-! ### Numbers -/

/-- Digits of the class, of which two may have an underscore between them. -/
def digits (p : Char → Bool) : Reader (List Char) := do
  return (← separated1 (run1 p) (char '_')).flatten

def sign : Reader Bool := do
  match ← optional (char '+' <|> char '-') with
  | some '-' => return true
  | _ => return false

def integerOf (isNegative : Bool) (n : Nat) : Reader Value :=
  let n : Int := if isNegative then -n else n
  if Word.word64.Holds n then return .integer n else failure

/-- An integer in a base that its first two characters name. -/
def basedInteger : Reader Value := do
  let base (mark : String) (b : Nat) : Reader Value := do
    literal mark
    let ds ← digits fun c => (Text.Hex.digit? c).any (· < b)
    integerOf false (ds.foldl (fun n c => b * n + (Text.Hex.digit? c).getD 0) 0)
  base "0x" 16 <|> base "0o" 8 <|> base "0b" 2

def exponent : Reader Int := do
  let _ ← char 'e' <|> char 'E'
  let isNegative ← sign
  let n := Nat.ofDigitChars 10 (← digits Char.isDigit) 0
  return if isNegative then -n else n

/-- A decimal number: a real if it has a fraction or an exponent. A real that is rounded to
positive infinity is refused. -/
def decimalNumber : Reader Value := do
  let isNegative ← sign
  let whole ← digits Char.isDigit
  if whole.head? = some '0' ∧ 1 < whole.length then failure
  let fraction ← optional (char '.' *> digits Char.isDigit)
  let power ← optional exponent
  if fraction.isNone ∧ power.isNone then
    integerOf isNegative (Nat.ofDigitChars 10 whole 0)
  else
    let fraction := fraction.getD []
    let x := Binary64.ofDecimal isNegative
      ⟨Nat.ofDigitChars 10 (whole ++ fraction) 0, power.getD 0 - fraction.length⟩
    if x.toBits = Binary64.infinity.toBits then failure else return .real x

def namedReal : Reader Value := do
  let isNegative ← sign
  (do literal "inf"
      return .real (if isNegative then -Binary64.infinity else Binary64.infinity)) <|>
    (do literal "nan"; return .real Binary64.notNumber)

/-! ### Dates and times -/

def numberWithin (count least greatest : Nat) : Reader Nat := do
  let cs ← exactly count
  let n := Nat.ofDigitChars 10 cs 0
  if cs.all Char.isDigit ∧ least ≤ n ∧ n ≤ greatest then return n else failure

def daysOfMonth (year month : Nat) : Nat :=
  if month = 2 then
    if year % 4 = 0 ∧ (year % 100 ≠ 0 ∨ year % 400 = 0) then 29 else 28
  else if month ∈ [4, 6, 9, 11] then 30
  else 31

def date : Reader Unit := do
  let year ← numberWithin 4 0 9999
  let _ ← char '-'
  let month ← numberWithin 2 1 12
  let _ ← char '-'
  let _ ← numberWithin 2 1 (daysOfMonth year month)

def time : Reader Unit := do
  let _ ← numberWithin 2 0 23
  let _ ← char ':'
  let _ ← numberWithin 2 0 59
  let _ ← char ':'
  let _ ← numberWithin 2 0 60
  let _ ← optional (char '.' *> run1 Char.isDigit)

def offset : Reader Unit :=
  (do let _ ← char 'Z' <|> char 'z') <|> do
    let _ ← char '+' <|> char '-'
    let _ ← numberWithin 2 0 23
    let _ ← char ':'
    let _ ← numberWithin 2 0 59

def moment : Reader Value := do
  let dateTime : Reader Unit := do
    date
    let _ ← optional (satisfying (fun c => c == 'T' || c == 't' || c == ' ') *> time *>
      optional offset)
  dateTime <|> time
  return .moment

def scalar : Reader Value :=
  (do return .text (← string)) <|> moment <|> basedInteger <|> namedReal <|> decimalNumber <|>
    (do literal "true"; return .boolean true) <|> (do literal "false"; return .boolean false)

end Allotment.Toml
