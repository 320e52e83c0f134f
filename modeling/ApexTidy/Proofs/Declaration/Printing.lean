import ApexTidy.Proofs.Declaration.Edges
import ApexTidy.Proofs.Declaration.Splitting
import ApexTidy.Proofs.Text.Words

/-!
Method headers written out. A signature with a type for everything, whose types close the brackets they
open, is written as its type, its name and the list of its parameters, and reading what has been written
gives the signature back, unless modifiers are seen in it.
-/

namespace ApexTidy

open Text

namespace Parameter

def written (p : Parameter) : Text := p.type ++ ' ' :: p.name

/-- The name is an identifier, and the type is words that hold no parentheses and close their brackets. -/
structure WellFormed (p : Parameter) : Prop where
  name : isIdentifier p.name = true
  typed : p.type ≠ []
  spaced : normalize p.type = p.type
  bare : '(' ∉ p.type ∧ ')' ∉ p.type
  nested : Signature.IsNested p.type

theorem putIn_of_not_mem {p : Parameter} {list : List Parameter} (new : p.name ∉ list.map (·.name)) :
    putIn p list = list ++ [p] := by
  induction list with
  | nil => rfl
  | cons q rest ih =>
    rw [List.map_cons, List.mem_cons, not_or] at new
    rw [putIn, if_neg (Ne.symm new.1), ih new.2, List.cons_append]

end Parameter

namespace Parameters

theorem toList_foldl_insert {ps : Parameters} {list : List Parameter}
    (distinct : ((ps.toList ++ list).map (·.name)).Nodup) :
    (list.foldl insert ps).toList = ps.toList ++ list := by
  induction list generalizing ps with
  | nil => exact (List.append_nil _).symm
  | cons p rest ih =>
    have added : (ps.insert p).toList = ps.toList ++ [p] := by
      apply Parameter.putIn_of_not_mem
      intro member
      rw [List.map_append, List.nodup_append] at distinct
      exact distinct.2.2 _ member _ List.mem_cons_self rfl
    rw [List.foldl_cons, ih, added, List.append_assoc, List.singleton_append]
    rw [added, List.append_assoc]
    exact distinct

theorem eq_of_toList {a b : Parameters} (same : a.toList = b.toList) : a = b := by
  cases a
  cases b
  simpa using same

theorem ofList_toList (ps : Parameters) : ofList ps.toList = ps :=
  eq_of_toList (@toList_foldl_insert empty ps.toList ps.distinct)

end Parameters

namespace Signature

def written (s : Signature) : Text :=
  s.returnType ++ ' ' :: s.name ++ ['('] ++
    ([',', ' '].intercalate (s.parameters.toList.map (·.written)) ++ [')'])

/-- The name is an identifier, the type is written as types are, neither stands for a control word, and
the parameters are well-formed. -/
structure WellFormed (s : Signature) : Prop where
  name : isIdentifier s.name = true
  free : isControl s.name = false
  spaced : normalize s.returnType = s.returnType
  bare : '(' ∉ s.returnType
  typed : isType s.returnType = true
  starts : isControl (leadingWord s.returnType) = false
  parameters : ∀ p ∈ s.parameters.toList, p.WellFormed

theorem upToClose_append {t : Text} (plain : '(' ∉ t ∧ ')' ∉ t) (depth : Nat) (rest : Text) :
    upToClose depth (t ++ rest) = t ++ upToClose depth rest := by
  induction t with
  | nil => rfl
  | cons c t ih =>
    simp only [List.mem_cons, not_or] at plain
    rw [List.cons_append, upToClose, ih ⟨plain.1.2, plain.2.2⟩, List.cons_append]
    · exact fun same => plain.1.1 same.symm
    · exact fun _ same => plain.2.1 same.symm
    · exact fun _ _ same => plain.2.1 same.symm

theorem lastWord?_identifier {name : Text} (identifies : isIdentifier name = true) (type : Text) :
    lastWord? (type ++ ' ' :: name) = some (normalize type, name) := by
  apply lastWord?_append_cons (by decide)
  · rintro rfl
    cases identifies
  · intro c member
    exact isSpace_eq_false_of_isWord (isWord_of_isIdentifier identifies c member)

theorem parameter?_written {p : Parameter} (sound : p.WellFormed) : parameter? p.written = some p := by
  rw [parameter?, Parameter.written, lastWord?_identifier sound.name, sound.spaced]
  exact if_pos ⟨sound.typed, sound.name⟩

theorem parameter?_space (piece : Text) : parameter? (' ' :: piece) = parameter? piece := by
  have blank : isBlank [' '] = true := by decide
  have same : words (' ' :: piece) = words piece := words_append_of_isBlank_left blank piece
  rw [parameter?, parameter?, lastWord?, lastWord?, same]

theorem not_mem_marks_of_isWord {c : Char} (word : isWord c = true) : c ∉ marks := by
  have others : marks.all (!isWord ·) = true := by decide
  intro member
  have other := List.all_eq_true.1 others c member
  rw [word] at other
  cases other

theorem isClosed_written {p : Parameter} (sound : p.WellFormed) : IsClosed p.written := by
  apply (sound.nested.isClosed sound.bare).append
  apply isClosed_of_plain
  intro c member
  rcases List.mem_cons.1 member with rfl | inside
  · decide
  · exact not_mem_marks_of_isWord (isWord_of_isIdentifier sound.name c inside)

theorem not_mem_written {p : Parameter} (sound : p.WellFormed) {c : Char} (mark : c ∈ marks)
    (absent : c ∉ p.type) : c ∉ p.written := by
  intro member
  rcases List.mem_append.1 member with typed | behind
  · exact absent typed
  · rcases List.mem_cons.1 behind with rfl | named
    · exact absurd mark (by decide)
    · exact not_mem_marks_of_isWord (isWord_of_isIdentifier sound.name c named) mark

theorem intercalate_comma_space (first : Text) (rest : List Text) :
    [',', ' '].intercalate (first :: rest) = [','].intercalate (first :: rest.map (' ' :: ·)) := by
  induction rest generalizing first with
  | nil => rfl
  | cons next rest ih =>
    have moved : ∀ others, [','].intercalate ((' ' :: next) :: others) =
        ' ' :: [','].intercalate (next :: others) := by
      intro others
      cases others with
      | nil => rfl
      | cons other others => simp [List.intercalate_cons_cons]
    rw [List.intercalate_cons_cons, ih, List.map_cons, List.intercalate_cons_cons, moved]
    simp

theorem filterMap_pieces_written {list : List Parameter} (sound : ∀ p ∈ list, p.WellFormed) :
    (pieces ([',', ' '].intercalate (list.map (·.written)))).filterMap parameter? = list := by
  cases list with
  | nil => rfl
  | cons p rest =>
    obtain ⟨first, others⟩ := List.forall_mem_cons.1 sound
    have space : IsClosed [' '] := isClosed_of_plain (List.forall_mem_singleton.2 (by decide))
    have closed : ∀ t ∈ p.written :: (rest.map (·.written)).map (' ' :: ·), IsClosed t := by
      rw [List.forall_mem_cons, List.forall_mem_map, List.forall_mem_map]
      exact ⟨isClosed_written first, fun q member => space.append (isClosed_written (others q member))⟩
    have read : ∀ q ∈ rest, parameter? (' ' :: q.written) = some q := by
      intro q member
      rw [parameter?_space, parameter?_written (others q member)]
    rw [List.map_cons, intercalate_comma_space, pieces_intercalate_of_isClosed closed (by simp),
      List.filterMap_cons_some (parameter?_written first), List.filterMap_map, List.filterMap_map]
    exact congrArg (p :: ·) ((List.filterMap_congr read).trans List.filterMap_some)

theorem not_mem_list {list : List Parameter} (sound : ∀ p ∈ list, p.WellFormed) :
    '(' ∉ [',', ' '].intercalate (list.map (·.written)) ∧
      ')' ∉ [',', ' '].intercalate (list.map (·.written)) := by
  have absent : ∀ c ∈ marks, c ∉ [',', ' '] → (∀ p ∈ list, c ∉ p.type) →
      c ∉ [',', ' '].intercalate (list.map (·.written)) := by
    intro c mark other typed member
    rcases mem_of_mem_intercalate member with between | ⟨t, listed, inside⟩
    · exact other between
    · obtain ⟨p, parameter, rfl⟩ := List.mem_map.1 listed
      exact not_mem_written (sound p parameter) mark (typed p parameter) inside
  constructor
  · exact absent '(' (by decide) (by decide) fun p member => (sound p member).bare.1
  · exact absent ')' (by decide) (by decide) fun p member => (sound p member).bare.2

theorem WellFormed.returnType_ne_nil {s : Signature} (sound : s.WellFormed) : s.returnType ≠ [] := by
  intro none
  have typed := sound.typed
  rw [none] at typed
  cases typed

theorem ofParts?_written {s : Signature} (sound : s.WellFormed) :
    ofParts? (s.returnType ++ ' ' :: s.name)
      ([',', ' '].intercalate (s.parameters.toList.map (·.written)) ++ [')']) = some s := by
  have list : upToClose 0 ([',', ' '].intercalate (s.parameters.toList.map (·.written)) ++ [')']) =
      [',', ' '].intercalate (s.parameters.toList.map (·.written)) := by
    rw [upToClose_append (not_mem_list sound.parameters)]
    exact List.append_nil _
  rw [ofParts?, lastWord?_identifier sound.name, sound.spaced, list, parametersOf,
    filterMap_pieces_written sound.parameters, Parameters.ofList_toList]
  simp [sound.returnType_ne_nil, sound.name, sound.free, sound.typed, sound.starts]

theorem trimmed_written {s : Signature} (sound : s.WellFormed) : Trimmed s.written := by
  have type : Trimmed s.returnType := by
    rw [← sound.spaced]
    exact trimmed_normalize s.returnType
  refine ⟨?_, ?_⟩
  · rw [written, List.append_assoc, List.append_assoc]
    exact type.start.append sound.returnType_ne_nil _
  · rw [written, ← List.append_assoc]
    exact EndsFull.append (by decide) (by simp) _

theorem breakAt?_written {s : Signature} (sound : s.WellFormed) :
    breakAt? ['('] s.written = some (s.returnType ++ ' ' :: s.name,
      [',', ' '].intercalate (s.parameters.toList.map (·.written)) ++ [')']) := by
  apply breakAt?_append (by simp)
  rw [List.dropLast_singleton, List.append_nil, List.singleton_infix_iff, List.mem_append,
    List.mem_cons, not_or, not_or]
  exact ⟨sound.bare, by decide, not_mem_of_isIdentifier sound.name (by decide)⟩

end Signature

/-- A header that has been written out is read as what it was written from, as long as no modifier or
annotation is seen in it. -/
theorem Modifiers.signature_of_written (m : Modifiers) {s : Signature} (sound : s.WellFormed)
    (plain : m.strip s.written = s.written) : m.signature? s.written = some s := by
  rw [signature?, plain, (Signature.trimmed_written sound).trim_eq, Signature.breakAt?_written sound]
  exact Signature.ofParts?_written sound

theorem Modifiers.signature_of_written_with_arguments :
    let input : Parameter := ⟨"input".toList, "Map<String, Integer>".toList⟩
    let flags : Parameter := ⟨"flags".toList, "Boolean[]".toList⟩
    let s : Signature :=
      ⟨"convert".toList, "Map<String, List<Integer>>".toList, .ofList [input, flags]⟩
    s.WellFormed ∧ standard.strip s.written = s.written ∧
      s.written = "Map<String, List<Integer>> convert(Map<String, Integer> input, Boolean[] flags)".toList ∧
      standard.signature? s.written = some s := by
  intro input flags s
  have parameters : ∀ p ∈ [input, flags], p.WellFormed := by
    rw [List.forall_mem_cons, List.forall_mem_singleton]
    exact ⟨⟨by decide, by decide, by decide, by decide, by decide⟩,
      ⟨by decide, by decide, by decide, by decide, by decide⟩⟩
  have sound : s.WellFormed := ⟨by decide, by decide, by decide, by decide, by decide, by decide, parameters⟩
  have plain : standard.strip s.written = s.written := by decide +kernel
  exact ⟨sound, plain, by decide, signature_of_written standard sound plain⟩

end ApexTidy
