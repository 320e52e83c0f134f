import ApexTidy.Proofs.Calendar.Format

/-!
Reading dates back. Each part of a written date is read by its own reader, which stops in front of the
next part: a number takes the digits there are, leading zeros change nothing, the first three letters tell
the months apart, and the sign of a year stands exactly where its digits are not four. So whatever date is
written is read as that date.
-/

namespace ApexTidy

open Text

namespace Text

theorem digitValue?_of_isDigit {c : Char} (digit : c.isDigit = true) :
    digitValue? 10 c = some (c.toNat - '0'.toNat) := by
  have high : c.toNat ≤ 57 := (Char.isDigit_iff_toNat.1 digit).2
  have small : c.toNat - 48 < 10 := by omega
  simp [digitValue?, digit, small]

theorem readDigitsFrom?_of_digits {t : Text} (digits : ∀ c ∈ t, c.isDigit = true) (high : Nat) :
    readDigitsFrom? 10 high t = some (Nat.ofDigitChars 10 t high) := by
  induction t generalizing high with
  | nil => rfl
  | cons c t ih =>
    rw [List.forall_mem_cons] at digits
    rw [readDigitsFrom?, digitValue?_of_isDigit digits.1]
    dsimp only
    rw [ih digits.2, Nat.ofDigitChars_cons, Nat.mul_comm]

end Text

namespace Date

section

variable {number rest : Text} (nonempty : number ≠ []) (digits : ∀ c ∈ number, c.isDigit = true)
  (stop : rest.head?.any Char.isDigit = false)

include nonempty digits stop

theorem digits?_append : digits? (number ++ rest) = some (Nat.ofDigitChars 10 number 0, rest) := by
  rw [digits?, takeWhile_append_of_stop digits stop, dropWhile_append_of_stop digits stop, readDigits?,
    if_neg (by simpa using nonempty), readDigitsFrom?_of_digits digits]
  rfl

theorem number?_append {width : Nat} (fits : number.length ≤ width) :
    number? width (number ++ rest) = some (Nat.ofDigitChars 10 number 0, rest) := by
  have full : StartsFull number := by
    obtain ⟨c, others, rfl⟩ := List.exists_cons_of_ne_nil nonempty
    exact isSpace_of_isDigit (digits c List.mem_cons_self)
  have cut : (rest.take (width - number.length)).head?.any Char.isDigit = false := by
    cases rest with
    | nil => simp
    | cons c rest =>
      cases width - number.length with
      | zero => rfl
      | succ n => exact stop
  rw [number?, trimStart_eq_self (full.append nonempty rest)]
  dsimp only
  rw [List.take_append, List.take_of_length_le fits, digits?_append nonempty digits cut, List.drop_append,
    List.drop_of_length_le fits]
  simp

end

theorem ofDigitChars_fourDigits (n : Nat) : Nat.ofDigitChars 10 (fourDigits n) 0 = n := by
  rw [fourDigits, Nat.ofDigitChars_append, Nat.ofDigitChars_replicate_zero, Nat.mul_zero, decimal,
    Nat.ofDigitChars_ten_toDigits]

theorem fourDigits_ne_nil (n : Nat) : fourDigits n ≠ [] := by
  simp [fourDigits, decimal_ne_nil]

theorem length_fourDigits {n : Nat} (small : n ≤ 9999) : (fourDigits n).length = 4 := by
  have fits : (decimal n).length ≤ 4 := (Nat.length_toDigits_le_iff (by decide) (by decide)).2 (by omega)
  rw [fourDigits, List.length_append, List.length_replicate]
  omega

theorem digits?_fourDigits (n : Nat) : digits? (fourDigits n) = some (n, []) := by
  have found := @digits?_append (fourDigits n) [] (fourDigits_ne_nil n)
    (fun _ member => isDigit_of_mem_fourDigits member) rfl
  rwa [List.append_nil, ofDigitChars_fourDigits] at found

theorem year?_space (t : Text) : year? (' ' :: t) = year? t := rfl

theorem year?_minus (t : Text) :
    year? ('-' :: t) = (digits? t).map fun (n, rest) => (-(n : Int), rest) := rfl

theorem year?_plus (t : Text) :
    year? ('+' :: t) = (digits? t).map fun (n, rest) => ((n : Int), rest) := rfl

theorem year?_of_isDigit {c : Char} (digit : c.isDigit = true) (t : Text) :
    year? (c :: t) = (number? 4 (c :: t)).map fun (n, rest) => ((n : Int), rest) := by
  rw [year?, @trimStart_eq_self (c :: t) (isSpace_of_isDigit digit)]
  split
  · rename_i signed
    rw [(List.cons_eq_cons.1 signed).1] at digit
    cases digit
  · rename_i signed
    rw [(List.cons_eq_cons.1 signed).1] at digit
    cases digit
  · rfl

/-- A year has a sign if its digits alone would not be read as that year. -/
theorem year?_yearText (year : Int) : year? (yearText year) = some (year, []) := by
  cases year with
  | negSucc n =>
    rw [yearText, year?_minus, digits?_fourDigits]
    rfl
  | ofNat n =>
    rw [yearText]
    split
    · rename_i small
      obtain ⟨c, rest, same⟩ := List.exists_cons_of_ne_nil (fourDigits_ne_nil n)
      have found := @number?_append (fourDigits n) [] (fourDigits_ne_nil n)
        (fun _ member => isDigit_of_mem_fourDigits member) rfl 4 (Nat.le_of_eq (length_fourDigits small))
      rw [List.append_nil, ofDigitChars_fourDigits, same] at found
      rw [same, year?_of_isDigit (isDigit_of_mem_fourDigits (same ▸ List.mem_cons_self)), found]
      rfl
    · rw [year?_plus, digits?_fourDigits]
      rfl

theorem number?_decimal {day : Nat} (small : day ≤ 31) {rest : Text}
    (stop : rest.head?.any Char.isDigit = false) : number? 2 (decimal day ++ rest) = some (day, rest) := by
  have fits : (decimal day).length ≤ 2 :=
    (Nat.length_toDigits_le_iff (by decide) (by decide)).2 (by omega)
  rw [number?_append (decimal_ne_nil day) (fun _ member => isDigit_of_mem_decimal member) stop fits, decimal,
    Nat.ofDigitChars_ten_toDigits]

def monthStart (name : Text) : Text := (name.take 3).map Char.toLower

theorem nodup_monthStart : (monthNames.map monthStart).Nodup := by decide

theorem three_le_length : ∀ name ∈ monthNames, 3 ≤ name.length := by decide

theorem startsFull_of_mem_monthNames : ∀ name ∈ monthNames, StartsFull name := by decide

theorem afterLetters?_append (word rest : Text) : afterLetters? word (word ++ rest) = some rest := by
  simp [afterLetters?]

/-- A text that starts with one month is not taken for another. -/
theorem afterLetters?_take_three {name other : Text} (named : name ∈ monthNames)
    (compared : other ∈ monthNames) (rest : Text) :
    afterLetters? (other.take 3) (name ++ rest) =
      if monthStart name = monthStart other then some (name.drop 3 ++ rest) else none := by
  rw [afterLetters?, List.length_take_of_le (three_le_length other compared),
    List.take_append_of_le_length (three_le_length name named),
    List.drop_append_of_le_length (three_le_length name named)]
  rfl

theorem month?_append {name : Text} {index : Nat} (named : monthNames[index]? = some name) (rest : Text) :
    month? (name ++ rest) = some (index + 1, rest) := by
  have listed := List.mem_of_getElem? named
  have place : monthNames.zipIdx[index]? = some (name, index) := by
    rw [List.getElem?_zipIdx, named, Option.map_some, Nat.zero_add]
  obtain ⟨inside, here⟩ := List.getElem?_eq_some_iff.1 place
  rw [month?, List.findSome?_eq_some_iff]
  refine ⟨monthNames.zipIdx.take index, (name, index), monthNames.zipIdx.drop (index + 1), ?_, ?_, ?_⟩
  · rw [← here, ← List.drop_eq_getElem_cons, List.take_append_drop]
  · dsimp only
    rw [afterLetters?_take_three listed listed, if_pos rfl, Option.map_some, afterLetters?_append,
      Option.getD_some]
  · intro pair earlier
    obtain ⟨j, found⟩ := List.mem_iff_getElem?.1 earlier
    rw [List.getElem?_take, Option.ite_none_right_eq_some, List.getElem?_zipIdx,
      Option.map_eq_some_iff] at found
    obtain ⟨before, other, compared, rfl⟩ := found
    have apart : monthStart name ≠ monthStart other := by
      intro same
      have places : (monthNames.map monthStart)[index]? = (monthNames.map monthStart)[j]? := by
        rw [List.getElem?_map, List.getElem?_map, named, compared, Option.map_some, Option.map_some, same]
      have one := (List.getElem?_inj (by simpa using inside) nodup_monthStart).1 places
      omega
    dsimp only
    rw [afterLetters?_take_three listed (List.mem_of_getElem? compared), if_neg apart]
    rfl

theorem getElem?_monthNames {month : Nat} (first : 1 ≤ month) (last : month ≤ 12) :
    monthNames[month - 1]? = some (monthName month) := by
  have inside : month - 1 < monthNames.length := by
    show month - 1 < 12
    omega
  rw [monthName, List.getD_eq_getElem?_getD, List.getElem?_eq_getElem inside]
  rfl

theorem daysInMonth_le (year : Int) (month : Nat) : daysInMonth year month ≤ 31 := by
  unfold daysInMonth
  split
  · split <;> decide
  all_goals decide

/-- Every date of the calendar is read back as it was written. -/
theorem parse_format (d : Date) : parse? d.format = some d := by
  obtain ⟨-, -, first, last, -, late⟩ := d.valid
  have day : number? 2 d.format = some (d.day, ' ' :: (monthName d.month ++ ' ' :: yearText d.year)) :=
    number?_decimal (Nat.le_trans late (daysInMonth_le ..)) (show Char.isDigit ' ' = false by decide)
  have named := getElem?_monthNames first last
  have month := month?_append named (' ' :: yearText d.year)
  rw [Nat.sub_add_cancel first] at month
  have year : year? (' ' :: yearText d.year) = some (d.year, []) :=
    (year?_space _).trans (year?_yearText d.year)
  have trimmed : trimStart (' ' :: (monthName d.month ++ ' ' :: yearText d.year)) =
      monthName d.month ++ ' ' :: yearText d.year := by
    have listed := List.mem_of_getElem? named
    have nonempty : monthName d.month ≠ [] :=
      List.ne_nil_of_length_pos (Nat.lt_of_lt_of_le (by decide) (three_le_length _ listed))
    exact trimStart_eq_self ((startsFull_of_mem_monthNames _ listed).append nonempty _)
  have read : parseNamed? d.format = some d := by
    rw [parseNamed?, day]
    simp only [Option.bind_eq_bind, Option.bind_some, trimmed, month, year]
    exact of?_self d
  rw [parse?, (trimmed_format d).trim_eq, read]
  rfl

end Date

end ApexTidy
