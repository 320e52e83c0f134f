import ApexTidy.Text.Basic

/-!
Whole numbers as text: the decimal form that messages use, and the digits that readers accept.
-/

namespace ApexTidy.Text

def decimal (n : Nat) : Text := Nat.toDigits 10 n

/-- The value of an ASCII digit; letters of either case follow nine. -/
def digitValue? (base : Nat) (c : Char) : Option Nat :=
  let value? :=
    if c.isDigit then some (c.toNat - '0'.toNat)
    else if c.isLower then some (c.toNat - 'a'.toNat + 10)
    else if c.isUpper then some (c.toNat - 'A'.toNat + 10)
    else none
  value?.filter (· < base)

/-- The value of a run of digits that follow the value `high`. -/
def readDigitsFrom? (base : Nat) : Nat → Text → Option Nat
  | high, [] => some high
  | high, c :: t =>
    match digitValue? base c with
    | some d => readDigitsFrom? base (high * base + d) t
    | none => none

def readDigits? (base : Nat) (t : Text) : Option Nat :=
  if t.isEmpty then none else readDigitsFrom? base 0 t

def maxCount : Nat := 18446744073709551615

/-- A count that fits into 64 bits: decimal digits, with an optional plus sign before them. -/
def readCount? (t : Text) : Option Nat :=
  (readDigits? 10 ((afterStart? ['+'] t).getD t)).filter (· ≤ maxCount)

end ApexTidy.Text
