import Highlighter.Text.Number
import Highlighter.Toml.Quoted
import Highlighter.Toml.Value

/-!
# Numbers

Whole numbers of 64 bits in base 10, 16, 8 or 2, and numbers with a fraction or an exponent. An
underscore may stand between two digits. An underscore anywhere else is left over, and no value can
be followed by one.
-/

namespace Highlighter.Toml.Number

/-- Reads a digit with a property, after an underscore if one likes. -/
def laterDigit (isDigit : Char → Bool) : Reader Char :=
  Reader.satisfy isDigit <|> (do Reader.char '_'; Reader.satisfy isDigit)

/-- Reads digits with a property. -/
def digits (isDigit : Char → Bool) : Reader (List Char) := do
  let first ← Reader.satisfy isDigit
  return first :: (← Reader.many (laterDigit isDigit))

/-- Reads digits of base 10 that have no needless zero in front. -/
def plainDigits : Reader (List Char) := do
  let first ← Reader.satisfy Char.isDigit
  if first == '0' then return [first]
  else return first :: (← Reader.many (laterDigit Char.isDigit))

/-- Reads a sign; whether it is a minus. -/
def sign : Reader Bool := do
  match ← Reader.maybe (Reader.satisfy fun c => c == '+' || c == '-') with
  | some c => return c == '-'
  | none => return false

/-- The number that digits denote in a base. -/
def valueIn (base : Nat) (digits : List Char) : Nat :=
  digits.foldl (fun value c => base * value + Quoted.digitValue c) 0

/-- The largest whole number of a document. -/
def maximum : Nat := UInt64.size / 2 - 1

/-- A whole number, if a document can hold it. -/
def bounded (value : Int) : Reader Value :=
  if -(maximum + 1 : Int) ≤ value && value ≤ maximum then pure (.integer value) else failure

/-- Reads a whole number in a base that a letter after a zero stands for. -/
def inBase (letter : Char) (base : Nat) (isDigit : Char → Bool) : Reader Value := do
  Reader.text ['0', letter]
  let digits ← digits isDigit
  bounded (valueIn base digits)

/-- Reads a whole number in base 10. -/
def decimal : Reader Value := do
  let isNegative ← sign
  let value : Int := Text.digitsValue (← plainDigits)
  bounded (if isNegative then -value else value)

/-- Reads a whole number. -/
def integer : Reader Value := fun input =>
  match input with
  | '0' :: 'x' :: _ => inBase 'x' 16 Quoted.isHexDigit input
  | '0' :: 'o' :: _ => inBase 'o' 8 (fun c => '0' ≤ c && c ≤ '7') input
  | '0' :: 'b' :: _ => inBase 'b' 2 (fun c => c == '0' || c == '1') input
  | _ => decimal input

/-- The least number that is too large for a float of 64 bits. -/
def floatBound : Nat := (1 <<< 1024) - (1 <<< 970)

/-- Whether `mantissa * 10 ^ exponent` is too large for a float. Exponents far out of range are
settled by the number of digits. -/
def overflows (mantissa : Nat) (exponent : Int) : Bool :=
  let size : Int := (Nat.toDigits 10 mantissa).length + exponent
  if mantissa = 0 || size < 300 then false
  else if 310 < size then true
  else if 0 ≤ exponent then floatBound ≤ mantissa * Nat.pow 10 exponent.toNat
  else floatBound * Nat.pow 10 (-exponent).toNat ≤ mantissa

/-- Reads a fraction: its digits. -/
def fraction : Reader (List Char) := do
  Reader.char '.'
  digits Char.isDigit

/-- Reads an exponent: whether it is negative, and its digits. -/
def exponent : Reader (Bool × List Char) := do
  discard (Reader.satisfy fun c => c == 'e' || c == 'E')
  let isNegative ← sign
  let digits ← digits Char.isDigit
  return (isNegative, digits)

/-- The source of a float, without underscores. -/
def floatSource (isNegative : Bool) (whole fraction : List Char)
    (exponent : Option (Bool × List Char)) : String :=
  String.ofList ((if isNegative then ['-'] else []) ++ whole ++
    (if fraction.isEmpty then [] else '.' :: fraction) ++
    (match exponent with
      | some (isNegative, digits) => 'e' :: (if isNegative then ['-'] else []) ++ digits
      | none => []))

/-- Reads a number with a fraction, an exponent or both. -/
def decimalFloat : Reader Value := do
  let isNegative ← sign
  let whole ← plainDigits
  let part ← Reader.maybe fraction
  let power ← Reader.maybe exponent
  if part.isNone && power.isNone then failure
  let part := part.getD []
  let shift : Int := match power with
    | some (true, digits) => -(Text.digitsValue digits : Int)
    | some (false, digits) => Text.digitsValue digits
    | none => 0
  if !isNegative && overflows (Text.digitsValue (whole ++ part)) (shift - part.length) then failure
  return .float (floatSource isNegative whole part power)

/-- Reads a float that is no number of digits. -/
def specialFloat : Reader Value := do
  let isNegative ← sign
  let name ← (do Reader.text ['i', 'n', 'f']; return "inf")
    <|> (do Reader.text ['n', 'a', 'n']; return "nan")
  return .float (if isNegative then "-" ++ name else name)

/-- Reads a float. -/
def float : Reader Value := decimalFloat <|> specialFloat

end Highlighter.Toml.Number
