import ApexTidy.Proofs.Declaration.Shape

/-!
The edges of what a method header says. Its types are there and have no blanks at their ends, and no
header starts with a closing brace: stripping modifiers keeps a character that starts none of them, and
neither a name nor a type begins with one.
-/

namespace ApexTidy

open Text

namespace Text

theorem exists_words_cons {c : Char} (full : isSpace c = false) (t : Text) :
    ∃ word rest, words (c :: t) = (c :: word) :: rest := by
  obtain ⟨first, rest, pieces⟩ := List.exists_cons_of_ne_nil (List.splitOnP_ne_nil isSpace t)
  refine ⟨first, rest.filter (!·.isEmpty), ?_⟩
  rw [words, List.splitOnP_cons_eq_if_modifyHead, if_neg (by simp [full]), pieces, List.modifyHead_cons]
  rfl

end Text

namespace Signature

structure HasTypes (s : Signature) : Prop where
  types : ∀ p ∈ s.parameters.toList, p.type ≠ [] ∧ Trimmed p.type
  returned : s.returnType ≠ [] ∧ Trimmed s.returnType

theorem Canonical.hasTypes {s : Signature} (canonical : s.Canonical) : s.HasTypes := by
  have trimmed : ∀ {t : Text}, normalize t = t → Trimmed t := fun spaced => spaced ▸ trimmed_normalize _
  constructor
  · intro p member
    obtain ⟨nonempty, spaced⟩ := canonical.types p member
    exact ⟨nonempty, trimmed spaced⟩
  · exact ⟨canonical.returned.1, trimmed canonical.returned.2⟩

theorem isAlpha_of_ofParts? {c : Char} {head list : Text} {s : Signature} (full : isSpace c = false)
    (found : ofParts? (c :: head) list = some s) : c.isAlpha = true ∨ c = '_' := by
  obtain ⟨word, rest, listed⟩ := exists_words_cons full head
  unfold ofParts? at found
  split at found
  · cases found
  · rename_i type name parts
    simp only [Option.ite_none_right_eq_some, Bool.and_eq_true] at found
    obtain ⟨⟨⟨⟨named, -⟩, typed⟩, -⟩, -⟩ := found
    obtain ⟨last, ends, same⟩ := Option.map_eq_some_iff.1 parts
    rw [listed, Prod.mk.injEq] at same
    obtain ⟨rfl, rfl⟩ := same
    cases rest with
    | nil =>
      rw [listed] at ends
      obtain rfl : c :: word = last := by simpa using ends
      simp only [isIdentifier, Bool.and_eq_true, Bool.or_eq_true, beq_iff_eq] at named
      exact named.1
    | cons next rest =>
      obtain ⟨tail, type⟩ := prefix_intercalate [' '] (c :: word) (next :: rest).dropLast
      rw [List.dropLast_cons_cons, ← type, List.cons_append] at typed
      simp only [reduceCtorEq, ↓reduceIte, isType, Bool.and_eq_true, Bool.or_eq_true, beq_iff_eq] at typed
      exact typed.1

end Signature

namespace Modifiers

open Declaration

section

variable {m : Modifiers} {c : Char}

/-- No keyword starts like this character. -/
def StartsNone (m : Modifiers) (c : Char) : Prop :=
  ∀ keyword ∈ m.keywords, keyword.head?.map fold ≠ some (fold c)

theorem StartsNone.afterAny?_eq_none (other : m.StartsNone c) (t : Text) :
    m.afterAny? (c :: t) = none := by
  rw [afterAny?, List.findSome?_eq_none_iff]
  intro keyword member
  have differs := other keyword member
  obtain ⟨first, rest, rfl⟩ := List.exists_cons_of_ne_nil (m.nonempty keyword member)
  have apart : sameFolded (first :: rest) ((c :: t).take (first :: rest).length) = false := by
    rw [List.length_cons, List.take_succ_cons, sameFolded, beq_eq_false_iff_ne]
    intro same
    exact differs (congrArg some (List.cons.inj same).1)
  rw [afterKeyword?, splitFolded?]
  simp only [apart, Bool.false_eq_true, ↓reduceIte]

theorem StartsNone.kept_of_matchAt? (other : m.StartsNone c) (plain : c ≠ '@') {isFirst : Bool}
    {t kept rest : Text} (found : m.matchAt? isFirst (c :: t) = some (kept, rest)) : kept = [c] := by
  have start : (if isFirst then (m.afterAny? (c :: t)).map (([] : Text), ·) else none) = none := by
    rw [other.afterAny?_eq_none]
    simp
  have annotation : afterAnnotation? (c :: t) = none := by
    unfold afterAnnotation?
    split
    · rename_i tail same
      exact absurd (List.cons.inj same).1 plain
    · rfl
  unfold matchAt? at found
  rw [start, annotation] at found
  simp only [Option.map_none, Option.orElse_eq_orElse, Option.orElse_eq_or, Option.none_or,
    Option.or_none] at found
  split at found
  · obtain ⟨tail, -, same⟩ := Option.map_eq_some_iff.1 found
    exact (Prod.mk.inj same).1.symm
  · cases found

theorem StartsNone.exists_strip (other : m.StartsNone c) (plain : c ≠ '@') (t : Text) :
    ∃ rest, m.strip (c :: t) = c :: rest := by
  rw [strip, stripFrom]
  split
  · rename_i kept rest found
    rw [other.kept_of_matchAt? plain found]
    exact ⟨_, rfl⟩
  · exact ⟨_, rfl⟩

theorem StartsNone.isAlpha_of_classify (other : m.StartsNone c) (plain : c ≠ '@')
    (inHeader : c ≠ '{' ∧ c ≠ '(') {t rest : Text} {s : Signature}
    (starts : skipLineComments t = c :: rest) (full : isSpace c = false)
    (found : m.classify t = .method s) : c.isAlpha = true ∨ c = '_' := by
  obtain ⟨head, list, cut, read⟩ := exists_of_classify found
  have begins : header (c :: trimEnd rest) = c :: header (trimEnd rest) :=
    List.takeWhile_cons_of_pos (by simpa using inHeader.1)
  obtain ⟨stripped, strips⟩ := other.exists_strip plain (header (trimEnd rest))
  rw [starts, trim_cons full, begins, strips, trim_cons full] at cut
  have whole := eq_append_of_breakAt? cut
  cases head with
  | nil => exact absurd (List.cons.inj whole).1 inHeader.2
  | cons first head =>
    obtain rfl := (List.cons.inj whole).1
    exact Signature.isAlpha_of_ofParts? full read

theorem StartsNone.not_prefix_of_classify (other : m.StartsNone c) (plain : c ≠ '@')
    (inHeader : c ≠ '{' ∧ c ≠ '(') (full : isSpace c = false) (odd : ¬ (c.isAlpha = true ∨ c = '_'))
    {t : Text} {s : Signature} (found : m.classify t = .method s) : ¬ [c] <+: skipLineComments t := by
  rintro ⟨rest, whole⟩
  exact odd (other.isAlpha_of_classify plain inHeader whole.symm full found)

end

/-- No method starts with a closing brace. -/
theorem standard_classify_brace {t : Text} {s : Signature} (found : standard.classify t = .method s) :
    ¬ ['}'] <+: skipLineComments t := by
  have other : standard.StartsNone '}' := by
    show ∀ keyword ∈ builtIn, _
    decide
  exact other.not_prefix_of_classify (by decide) (by decide) (by decide) (by decide) found

end Modifiers

end ApexTidy
