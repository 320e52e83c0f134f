import ApexTidy.Proofs.Text.Blanks
import ApexTidy.Text.Fold
import ApexTidy.Text.Word

/-!
Words in a text. The run of word characters at the start of a text is told by what follows it, and a text
that reads as ASCII letters up to case is such a run: what folds to a letter of that range belongs to a
word, wherever it comes from.
-/

namespace ApexTidy.Text

theorem isSpace_eq_false_of_isWord {c : Char} (word : isWord c = true) : isSpace c = false := by
  have others : spaces.all (!isWord ·) = true := by decide +kernel
  rw [← Bool.not_eq_true, isSpace_iff]
  intro blank
  have other := List.all_eq_true.1 others c blank
  rw [word] at other
  cases other

theorem isWord_eq_false_of_isSpace {c : Char} (blank : isSpace c = true) : isWord c = false := by
  rw [← Bool.not_eq_true]
  intro word
  rw [isSpace_eq_false_of_isWord word] at blank
  cases blank

/-- A maximal run of word characters, with what stands on its two sides. -/
structure IsRun (t before run after : Text) : Prop where
  whole : t = before ++ run ++ after
  nonempty : run ≠ []
  word : ∀ c ∈ run, isWord c = true
  start : before.getLast?.any isWord = false
  stop : after.head?.any isWord = false

theorem takeWhile_isWord_eq_nil_iff {t : Text} :
    t.takeWhile isWord = [] ↔ t.head?.any isWord = false := by
  cases t with
  | nil => simp
  | cons c t =>
    rw [List.takeWhile_cons]
    split
    · rename_i word
      simp [word]
    · rename_i other
      simpa using other

theorem head?_dropWhile_isWord (t : Text) : (t.dropWhile isWord).head?.any isWord = false := by
  have stop := List.head?_dropWhile_not isWord t
  cases first : (t.dropWhile isWord).head? with
  | none => rfl
  | some c =>
    rw [first] at stop
    exact stop

theorem isWord_of_mem_takeWhile {t : Text} : ∀ c ∈ t.takeWhile isWord, isWord c = true :=
  List.all_eq_true.1 List.all_takeWhile

theorem isRun_takeWhile {before t : Text} (start : before.getLast?.any isWord = false)
    (word : t.takeWhile isWord ≠ []) :
    IsRun (before ++ t) before (t.takeWhile isWord) (t.dropWhile isWord) where
  whole := by rw [List.append_assoc, List.takeWhile_append_dropWhile]
  nonempty := word
  word := isWord_of_mem_takeWhile
  start := start
  stop := head?_dropWhile_isWord t

theorem length_eq_of_sameFolded {a b : Text} (same : sameFolded a b = true) : a.length = b.length := by
  have lengths := congrArg List.length (eq_of_beq same)
  simpa using lengths

theorem isWord_of_fold_isLower_ascii {c : Char} (ascii : c.toNat < 128)
    (letter : (fold c).isLower = true) : isWord c = true := by
  have each : ∀ n < 128, (fold (Char.ofNat n)).isLower = true → isWord (Char.ofNat n) = true := by
    decide +kernel
  rw [← Char.ofNat_toNat c] at letter ⊢
  exact each c.toNat ascii letter

/-- A folding that leads into the ASCII range is that of one word character. -/
theorem foldings_into_ascii : ∀ f ∈ foldings,
    128 ≤ f.image ∨ f.first = f.last ∧ isWord (Char.ofNat f.first) = true := by
  decide +kernel

theorem toNat_le_of_isLower {c : Char} (letter : c.isLower = true) : c.toNat ≤ 122 :=
  of_decide_eq_true (Bool.and_eq_true_iff.1 letter).2

theorem lt_of_isLower_ofNat {n : Nat} (letter : (Char.ofNat n).isLower = true) : n < 128 := by
  by_cases valid : n.isValidChar
  · have value : (Char.ofNat n).toNat = n := by
      rw [Char.ofNat, dif_pos valid]
      rfl
    have bound := toNat_le_of_isLower letter
    omega
  · rw [Char.ofNat, dif_neg valid] at letter
    cases letter

theorem isWord_of_fold_isLower {c : Char} (letter : (fold c).isLower = true) : isWord c = true := by
  by_cases ascii : c.toNat < 128
  · exact isWord_of_fold_isLower_ascii ascii letter
  · rw [fold, if_neg ascii] at letter
    cases found : foldings.find? (·.covers c.toNat) with
    | none =>
      rw [found] at letter
      rw [← Char.ofNat_toNat c] at letter
      exact absurd (lt_of_isLower_ofNat letter) ascii
    | some f =>
      rw [found] at letter
      have low := lt_of_isLower_ofNat letter
      have covered := List.find?_some found
      simp only [Folding.covers, Bool.and_eq_true, decide_eq_true_eq] at covered
      obtain ⟨⟨first, last⟩, -⟩ := covered
      rcases foldings_into_ascii f (List.mem_of_find?_eq_some found) with high | ⟨single, word⟩
      · rw [Folding.apply] at low
        omega
      · have only : f.first = c.toNat := by omega
        rwa [only, Char.ofNat_toNat] at word

theorem isLower_fold_of_isAlpha {c : Char} (letter : c.isAlpha = true) : (fold c).isLower = true := by
  have each : ∀ n < 128, (Char.ofNat n).isAlpha = true → (fold (Char.ofNat n)).isLower = true := by
    decide +kernel
  have ascii : c.toNat < 128 := by
    rcases Bool.or_eq_true_iff.1 letter with upper | lower
    · have bound : c.toNat ≤ 90 := (of_decide_eq_true upper).2
      omega
    · have bound := toNat_le_of_isLower lower
      omega
  rw [← Char.ofNat_toNat c] at letter ⊢
  exact each c.toNat ascii letter

theorem isWord_of_sameFolded {a b : Text} (letters : ∀ c ∈ a, c.isAlpha = true)
    (same : sameFolded a b = true) : ∀ c ∈ b, isWord c = true := by
  intro c member
  have folded : fold c ∈ a.map fold := by
    rw [eq_of_beq same]
    exact List.mem_map_of_mem member
  obtain ⟨k, listed, image⟩ := List.mem_map.1 folded
  apply isWord_of_fold_isLower
  rw [← image]
  exact isLower_fold_of_isAlpha (letters k listed)

end ApexTidy.Text
