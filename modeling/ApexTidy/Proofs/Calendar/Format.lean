import ApexTidy.Calendar.Date
import ApexTidy.Proofs.Text.Pieces

/-!
The written form of a date. It starts and ends with a digit and holds letters, digits, signs and single
spaces, so it stays as it is wherever text is trimmed or taken apart into lines.
-/

namespace ApexTidy

open Text

theorem Text.isDigit_of_mem_decimal {n : Nat} {c : Char} (member : c ∈ decimal n) : c.isDigit = true :=
  Nat.isDigit_of_mem_toDigits (by decide) (by decide) member

theorem Text.decimal_ne_nil (n : Nat) : decimal n ≠ [] := Nat.toDigits_ne_nil

theorem Text.isSpace_of_isAlphanum {c : Char} (letter : c.isAlphanum = true) : isSpace c = false := by
  have apart : spaces.all (fun d => !d.isAlphanum) = true := by decide
  rw [← Bool.not_eq_true, isSpace_iff]
  intro blank
  have other := List.all_eq_true.1 apart c blank
  rw [letter] at other
  cases other

theorem Text.isSpace_of_isDigit {c : Char} (digit : c.isDigit = true) : isSpace c = false :=
  isSpace_of_isAlphanum (by simp [Char.isAlphanum, digit])

namespace Date

def isDateChar (c : Char) : Bool := c.isAlphanum || c == ' ' || c == '+' || c == '-'

theorem isDateChar_of_isDigit {c : Char} (digit : c.isDigit = true) : isDateChar c = true := by
  simp [isDateChar, Char.isAlphanum, digit]

theorem isDateChar_of_mem_monthName {month : Nat} {c : Char} (member : c ∈ monthName month) :
    isDateChar c = true := by
  have letters : monthNames.all (·.all isDateChar) = true := by decide
  rw [monthName, List.getD_eq_getElem?_getD] at member
  cases found : monthNames[month - 1]? with
  | none => simp [found] at member
  | some name =>
    rw [found, Option.getD_some] at member
    have letter := List.all_eq_true.1 letters name (List.mem_of_getElem? found)
    exact List.all_eq_true.1 letter c member

theorem isDigit_of_mem_fourDigits {n : Nat} {c : Char} (member : c ∈ fourDigits n) :
    c.isDigit = true := by
  rcases List.mem_append.1 member with zero | digit
  · rw [(List.mem_replicate.1 zero).2]
    decide
  · exact isDigit_of_mem_decimal digit

theorem exists_yearText (year : Int) :
    ∃ sign n, yearText year = sign ++ fourDigits n ∧ ∀ c ∈ sign, c = '+' ∨ c = '-' := by
  cases year with
  | ofNat n =>
    rw [yearText]
    split
    · exact ⟨[], n, rfl, by simp⟩
    · exact ⟨['+'], n, rfl, by simp⟩
  | negSucc n => exact ⟨['-'], n + 1, rfl, by simp⟩

theorem isDateChar_of_mem_format {d : Date} {c : Char} (member : c ∈ d.format) : isDateChar c = true := by
  obtain ⟨sign, n, year, signs⟩ := exists_yearText d.year
  rw [format, year] at member
  simp only [List.mem_append, List.mem_cons] at member
  rcases member with day | rfl | month | rfl | minus | digit
  · exact isDateChar_of_isDigit (isDigit_of_mem_decimal day)
  · decide
  · exact isDateChar_of_mem_monthName month
  · decide
  · rcases signs c minus with rfl | rfl
    · decide
    · decide
  · exact isDateChar_of_isDigit (isDigit_of_mem_fourDigits digit)

theorem not_mem_format (d : Date) {c : Char} (other : isDateChar c = false) : c ∉ d.format := by
  intro member
  rw [isDateChar_of_mem_format member] at other
  cases other

theorem isDateChar_eq_false_of_isSpace {c : Char} (blank : isSpace c = true) (other : c ≠ ' ') :
    isDateChar c = false := by
  have apart : spaces.all (fun d => d == ' ' || !isDateChar d) = true := by decide
  have found := List.all_eq_true.1 apart c (isSpace_iff.1 blank)
  simpa [other] using found

theorem format_ne_nil (d : Date) : d.format ≠ [] := by
  simp [format]

theorem trimmed_format (d : Date) : Trimmed d.format := by
  constructor
  · rw [format]
    apply StartsFull.append _ (decimal_ne_nil d.day)
    obtain ⟨c, rest, digits⟩ := List.exists_cons_of_ne_nil (decimal_ne_nil d.day)
    rw [digits]
    exact isSpace_of_isDigit (isDigit_of_mem_decimal (digits ▸ List.mem_cons_self))
  · obtain ⟨sign, n, year, -⟩ := exists_yearText d.year
    have shape : d.format = (decimal d.day ++ ' ' :: (monthName d.month ++ ' ' :: sign)
        ++ List.replicate (4 - (decimal n).length) '0') ++ decimal n := by
      rw [format, year, fourDigits]
      simp
    rw [shape]
    apply EndsFull.append _ (decimal_ne_nil n)
    rw [EndsFull, List.getLast?_eq_some_getLast (decimal_ne_nil n)]
    exact isSpace_of_isDigit (isDigit_of_mem_decimal (List.getLast_mem _))

end Date

end ApexTidy
