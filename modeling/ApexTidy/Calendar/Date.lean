import ApexTidy.Text.Number
import ApexTidy.Text.Space

/-!
Calendar dates, written as in `5 March 2024`. Two forms are read: this one, and year, month and day as
numbers with hyphens between. Blanks may stand before a number and between the parts of the first form.
-/

namespace ApexTidy

def isLeapYear (year : Int) : Bool :=
  year % 4 == 0 && (year % 100 != 0 || year % 400 == 0)

def daysInMonth (year : Int) : Nat → Nat
  | 2 => if isLeapYear year then 29 else 28
  | 4 | 6 | 9 | 11 => 30
  | _ => 31

/-- The calendar, which runs from year -262143 to year 262142, has this day. -/
def IsDate (year : Int) (month day : Nat) : Prop :=
  -262143 ≤ year ∧ year ≤ 262142 ∧ 1 ≤ month ∧ month ≤ 12 ∧ 1 ≤ day ∧ day ≤ daysInMonth year month

instance (year : Int) (month day : Nat) : Decidable (IsDate year month day) :=
  inferInstanceAs (Decidable (_ ∧ _))

structure Date where
  year : Int
  month : Nat
  day : Nat
  valid : IsDate year month day
deriving DecidableEq

namespace Date

open Text

def of? (year : Int) (month day : Nat) : Option Date :=
  if h : IsDate year month day then some ⟨year, month, day, h⟩ else none

theorem of?_self (d : Date) : of? d.year d.month d.day = some d := dif_pos d.valid

def monthNames : List Text :=
  ["January".toList, "February".toList, "March".toList, "April".toList, "May".toList, "June".toList,
    "July".toList, "August".toList, "September".toList, "October".toList, "November".toList,
    "December".toList]

def monthName (month : Nat) : Text := monthNames.getD (month - 1) []

def fourDigits (n : Nat) : Text :=
  let digits := decimal n
  List.replicate (4 - digits.length) '0' ++ digits

/-- A year of four digits, with a sign if it is negative or takes more. -/
def yearText : Int → Text
  | .ofNat n => if n ≤ 9999 then fourDigits n else '+' :: fourDigits n
  | .negSucc n => '-' :: fourDigits (n + 1)

def format (d : Date) : Text :=
  decimal d.day ++ ' ' :: (monthName d.month ++ ' ' :: yearText d.year)

def digits? (t : Text) : Option (Nat × Text) :=
  (readDigits? 10 (t.takeWhile Char.isDigit)).map (·, t.dropWhile Char.isDigit)

/-- Reads a number of at most `width` digits, which may have blanks before it. -/
def number? (width : Nat) (t : Text) : Option (Nat × Text) :=
  let t := trimStart t
  (digits? (t.take width)).map fun (n, rest) => (n, rest ++ t.drop width)

/-- Reads a year: up to four digits, or any number of them after a sign. -/
def year? (t : Text) : Option (Int × Text) :=
  match trimStart t with
  | '-' :: rest => (digits? rest).map fun (n, rest) => (-(n : Int), rest)
  | '+' :: rest => (digits? rest).map fun (n, rest) => ((n : Int), rest)
  | rest => (number? 4 rest).map fun (n, rest) => ((n : Int), rest)

def afterLetters? (word t : Text) : Option Text :=
  let length := word.length
  if (t.take length).map Char.toLower = word.map Char.toLower then some (t.drop length) else none

/-- Reads the name of a month: its first three letters, and the others if they follow. -/
def month? (t : Text) : Option (Nat × Text) :=
  monthNames.zipIdx.findSome? fun (name, index) =>
    (afterLetters? (name.take 3) t).map fun rest =>
      (index + 1, (afterLetters? (name.drop 3) rest).getD rest)

/-- Reads `5 March 2024`. -/
def parseNamed? (t : Text) : Option Date := do
  let (day, rest) ← number? 2 t
  let (month, rest) ← month? (trimStart rest)
  let (year, rest) ← year? rest
  if rest.isEmpty then of? year month day else none

/-- Reads `2024-03-05`. -/
def parseNumbers? (t : Text) : Option Date := do
  let (year, rest) ← year? t
  let (month, rest) ← number? 2 (← afterStart? ['-'] rest)
  let (day, rest) ← number? 2 (← afterStart? ['-'] rest)
  if rest.isEmpty then of? year month day else none

def parse? (t : Text) : Option Date :=
  parseNamed? (trim t) <|> parseNumbers? (trim t)

end Date

end ApexTidy
