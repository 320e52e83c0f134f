import ApexTidy.Declaration.Basic
import ApexTidy.Proofs.Text.Pieces
import ApexTidy.Proofs.Text.Words

/-!
What the parts of a signature look like. Names are identifiers, and types, whatever else they hold, are
words with single spaces between, so nothing that a signature says takes more than one line.
-/

namespace ApexTidy

open Text

theorem Text.isWord_of_isIdentifier {name : Text} (identifies : isIdentifier name = true) :
    ∀ c ∈ name, isWord c = true := by
  cases name with
  | nil => simp
  | cons first rest =>
    simp only [isIdentifier, Bool.and_eq_true, Bool.or_eq_true, beq_iff_eq, List.all_eq_true]
      at identifies
    intro c member
    rcases List.mem_cons.1 member with rfl | later
    · rcases identifies.1 with letter | underscore
      · simp [isWord, isLetterOrDigit, Char.isAlphanum, letter]
      · simp [isWord, underscore]
    · exact identifies.2 c later

theorem Text.not_mem_of_isIdentifier {name : Text} (identifies : isIdentifier name = true) {c : Char}
    (other : isWord c = false) : c ∉ name := by
  intro member
  rw [isWord_of_isIdentifier identifies c member] at other
  cases other

theorem Parameter.mem_of_mem_putIn {p q : Parameter} {list : List Parameter}
    (member : q ∈ putIn p list) : q = p ∨ q ∈ list := by
  induction list with
  | nil => exact Or.inl (List.mem_singleton.1 member)
  | cons first rest ih =>
    rw [putIn] at member
    split at member
    · rcases List.mem_cons.1 member with same | later
      · exact Or.inl same
      · exact Or.inr (List.mem_cons_of_mem _ later)
    · rcases List.mem_cons.1 member with same | later
      · exact Or.inr (same ▸ List.mem_cons_self)
      · exact (ih later).imp_right (List.mem_cons_of_mem _)

theorem Parameters.mem_of_mem_ofList {list : List Parameter} {p : Parameter}
    (member : p ∈ (ofList list).toList) : p ∈ list := by
  suffices run : ∀ ps : Parameters, p ∈ (list.foldl insert ps).toList → p ∈ ps.toList ∨ p ∈ list by
    rcases run empty member with none | listed
    · simp [empty] at none
    · exact listed
  clear member
  induction list with
  | nil => exact fun ps inside => Or.inl inside
  | cons first rest ih =>
    intro ps inside
    rcases ih (ps.insert first) inside with put | later
    · rcases Parameter.mem_of_mem_putIn put with same | before
      · exact Or.inr (same ▸ List.mem_cons_self)
      · exact Or.inl before
    · exact Or.inr (List.mem_cons_of_mem _ later)

namespace Signature

/-- Each part stands on one line. -/
structure OnOneLine (s : Signature) : Prop where
  names : ∀ p ∈ s.parameters.toList, isIdentifier p.name = true
  words : ∀ p ∈ s.parameters.toList, ∀ c ∈ p.name, isSpace c = false
  types : ∀ p ∈ s.parameters.toList, IsSpaced p.type
  returned : IsSpaced s.returnType

/-- Names are identifiers, types are words with single spaces between, and no control word stands for a
method or begins its type. -/
structure Canonical (s : Signature) : Prop where
  name : isIdentifier s.name = true
  free : isControl s.name = false
  returned : s.returnType ≠ [] ∧ normalize s.returnType = s.returnType
  starts : isControl (leadingWord s.returnType) = false
  distinct : s.parameters.names.Nodup
  names : ∀ name ∈ s.parameters.names, isIdentifier name = true
  types : ∀ p ∈ s.parameters.toList, p.type ≠ [] ∧ normalize p.type = p.type

theorem canonical_of_parameter? {piece : Text} {p : Parameter} (found : parameter? piece = some p) :
    isIdentifier p.name = true ∧ p.type ≠ [] ∧ normalize p.type = p.type := by
  unfold parameter? at found
  split at found
  · rename_i type name parts
    split at found
    · rename_i accepted
      cases found
      exact ⟨accepted.2, accepted.1, (normalize_of_lastWord? parts).1⟩
    · cases found
  · cases found

theorem canonical_of_mem_parametersOf {list : Text} {p : Parameter}
    (member : p ∈ (parametersOf list).toList) :
    isIdentifier p.name = true ∧ p.type ≠ [] ∧ normalize p.type = p.type := by
  obtain ⟨piece, -, read⟩ := List.mem_filterMap.1 (Parameters.mem_of_mem_ofList member)
  exact canonical_of_parameter? read

theorem canonical_of_ofParts? {head list : Text} {s : Signature} (found : ofParts? head list = some s) :
    s.Canonical := by
  unfold ofParts? at found
  split at found
  · cases found
  · rename_i type name parts
    have spaced := normalize_of_lastWord? parts
    simp only [Option.ite_none_right_eq_some, Bool.and_eq_true, Bool.not_eq_true'] at found
    obtain ⟨⟨⟨⟨named, free⟩, typed⟩, starts⟩, same⟩ := found
    cases same
    refine ⟨named, free, ⟨?_, ?_⟩, starts, Parameters.distinct _, ?_, ?_⟩
    · intro none
      rw [show (if type = [] then name else type) = [] from none] at typed
      cases typed
    · -- a constructor stands for its type, and its name is a word
      split
      · exact spaced.2
      · exact spaced.1
    · intro other member
      obtain ⟨p, listed, rfl⟩ := List.mem_map.1 member
      exact (canonical_of_mem_parametersOf listed).1
    · intro p member
      exact (canonical_of_mem_parametersOf member).2

theorem Canonical.onOneLine {s : Signature} (canonical : s.Canonical) : s.OnOneLine := by
  have spaced : ∀ {t : Text}, normalize t = t → IsSpaced t := fun same => same ▸ isSpaced_normalize _
  have names : ∀ p ∈ s.parameters.toList, isIdentifier p.name = true :=
    fun p member => canonical.names p.name (List.mem_map_of_mem member)
  refine ⟨names, ?_, ?_, spaced canonical.returned.2⟩
  · intro p member c inside
    exact isSpace_eq_false_of_isWord (isWord_of_isIdentifier (names p member) c inside)
  · intro p member
    exact spaced (canonical.types p member).2

end Signature

theorem Modifiers.exists_of_classify {m : Modifiers} {t : Text} {s : Signature}
    (found : m.classify t = .method s) :
    ∃ head list, breakAt? ['('] (trim (m.strip
        (Declaration.header (trim (Declaration.skipLineComments t))))) = some (head, list) ∧
      Signature.ofParts? head list = some s := by
  unfold classify at found
  dsimp only at found
  split at found
  · cases found
  · split at found
    · split at found
      · rename_i signature read
        cases found
        unfold signature? at read
        split at read
        · cases read
        · rename_i head list cut
          exact ⟨head, list, cut, read⟩
      · cases found
    · cases found

theorem Modifiers.canonical_of_classify {m : Modifiers} {t : Text} {s : Signature}
    (found : m.classify t = .method s) : s.Canonical := by
  obtain ⟨head, list, -, read⟩ := exists_of_classify found
  exact Signature.canonical_of_ofParts? read

end ApexTidy
