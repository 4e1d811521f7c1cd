import Highlighter.Text.Number
import Highlighter.Toml.Reader

/-!
# Dates and times

A date, a time of day, or both, with an offset from universal time if one likes. Their normal form
has a `T` between date and time, nine digits of a second at most, and no zeros at the end of these.
-/

namespace Highlighter.Toml.Moment

/-- Reads a number of `width` digits from `low` up to `high`. -/
def field (width low high : Nat) : Reader (List Char) := do
  let digits ← Reader.exactly Char.isDigit width
  let value := Text.digitsValue digits
  if low ≤ value && value ≤ high then return digits else failure

/-- Whether a year has a leap day. -/
def isLeapYear (year : Nat) : Bool :=
  year % 4 = 0 && (year % 100 ≠ 0 || year % 400 = 0)

/-- The number of days of a month. -/
def daysIn (year month : Nat) : Nat :=
  if month = 2 then (if isLeapYear year then 29 else 28)
  else if month ∈ [4, 6, 9, 11] then 30
  else 31

/-- Reads a date. -/
def date : Reader (List Char) := do
  let year ← field 4 0 9999
  Reader.char '-'
  let month ← field 2 1 12
  Reader.char '-'
  let day ← field 2 1 (daysIn (Text.digitsValue year) (Text.digitsValue month))
  return year ++ '-' :: month ++ '-' :: day

/-- The digits of a part of a second in normal form, with the point before them. -/
def secondPart (digits : List Char) : List Char :=
  match ((digits.take 9).reverse.dropWhile (· == '0')).reverse with
  | [] => []
  | kept => '.' :: kept

/-- Reads a time of day. -/
def time : Reader (List Char) := do
  let hour ← field 2 0 23
  Reader.char ':'
  let minute ← field 2 0 59
  Reader.char ':'
  let second ← field 2 0 60
  let part ← Reader.maybe (do Reader.char '.'; Reader.takeWhile1 Char.isDigit)
  return hour ++ ':' :: minute ++ ':' :: second ++ secondPart (part.getD [])

/-- Reads an offset from universal time. -/
def offset : Reader (List Char) :=
  (do
    discard (Reader.satisfy fun c => c == 'Z' || c == 'z')
    return ['Z'])
  <|> (do
    let sign ← Reader.satisfy fun c => c == '+' || c == '-'
    let hour ← field 2 0 23
    Reader.char ':'
    let minute ← field 2 0 59
    let isZero := Text.digitsValue (hour ++ minute) = 0
    return (if isZero then '+' else sign) :: hour ++ ':' :: minute)

/-- Reads a time of day after a date, with what stands between them. -/
def timeAfterDate : Reader (List Char) := do
  discard (Reader.satisfy fun c => c == 'T' || c == 't' || c == ' ')
  let time ← time
  let offset ← Reader.maybe offset
  return 'T' :: time ++ offset.getD []

/-- Reads a date, a time of day or both, in normal form. -/
def moment : Reader String :=
  (do
    let date ← date
    let rest ← Reader.maybe timeAfterDate
    return String.ofList (date ++ rest.getD []))
  <|> String.ofList <$> time

end Highlighter.Toml.Moment
