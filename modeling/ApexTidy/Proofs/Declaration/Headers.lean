import ApexTidy.Proofs.Declaration.Slicing

/-!
What a declaration is read from. The line comments in front of it are passed over with their line feeds,
and what follows the first brace is not looked at, so the header alone tells a class from a method and
gives the signature of a method.
-/

namespace ApexTidy

open Text

namespace Declaration

/-- Blanks, and comments that run up to the line feed behind them. -/
inductive IsCommentary : Text → Prop where
  | nil : IsCommentary []
  | blank {c t} (space : isSpace c = true) (later : IsCommentary t) : IsCommentary (c :: t)
  | line {comment t} (single : '\n' ∉ comment) (later : IsCommentary t) :
    IsCommentary (['/', '/'] ++ (comment ++ '\n' :: t))

theorem startsFull_slashes (t : Text) : StartsFull (['/', '/'] ++ t) := by
  have solid : isSpace '/' = false := by decide
  exact solid

theorem lineFeed_not_mem_slashes {comment : Text} (single : '\n' ∉ comment) :
    '\n' ∉ ['/', '/'] ++ comment := by
  rw [List.mem_append, not_or]
  exact ⟨by decide, single⟩

theorem skipLineComments_slashes (t : Text) :
    skipLineComments (['/', '/'] ++ t) = skipFrom true (['/', '/'] ++ t) := by
  have start := trimStart_eq_self (startsFull_slashes t)
  have opened : ['/', '/'] <+: trimStart (['/', '/'] ++ t) := by
    rw [start]
    exact List.prefix_append ..
  rw [skipLineComments_of_comment opened, start]

theorem skipLineComments_line {comment : Text} (single : '\n' ∉ comment) (t : Text) :
    skipLineComments (['/', '/'] ++ (comment ++ '\n' :: t)) = skipLineComments t := by
  rw [skipLineComments_slashes, ← List.append_assoc,
    skipFrom_true_append (lineFeed_not_mem_slashes single), skipLineComments]

theorem IsCommentary.skipLineComments_append {front : Text} (passed : IsCommentary front) (t : Text) :
    skipLineComments (front ++ t) = skipLineComments t := by
  induction passed with
  | nil => rfl
  | @blank c rest space _ ih =>
    have blank : isBlank [c] = true := by simpa [isBlank] using space
    calc
      skipLineComments (c :: rest ++ t) = skipLineComments ([c] ++ (rest ++ t)) := rfl
      _ = skipLineComments (rest ++ t) := Declaration.skipLineComments_append blank _
      _ = skipLineComments t := ih
  | @line comment rest single _ ih =>
    have whole : ['/', '/'] ++ (comment ++ '\n' :: rest) ++ t =
        ['/', '/'] ++ (comment ++ '\n' :: (rest ++ t)) := by simp
    rw [whole, skipLineComments_line single, ih]

/-- What stands in front of a brace, without comments and blanks before it. -/
structure IsHeader (head : Text) : Prop where
  full : StartsFull head
  code : ¬ ['/', '/'] <+: head
  single : '{' ∉ head

theorem startsFull_append_brace {head : Text} (full : StartsFull head) (body : Text) :
    StartsFull (head ++ '{' :: body) := by
  cases head with
  | nil =>
    have solid : isSpace '{' = false := by decide
    exact solid
  | cons c head => exact full

theorem IsHeader.skipLineComments_append {head : Text} (sound : IsHeader head) (body : Text) :
    skipLineComments (head ++ '{' :: body) = head ++ '{' :: body := by
  apply skipLineComments_eq_self (startsFull_append_brace sound.full body)
  intro comment
  apply sound.code
  match head with
  | [] => simp [List.cons_prefix_cons] at comment
  | [c] => simp [List.cons_prefix_cons] at comment
  | c :: d :: head => simpa [List.cons_prefix_cons] using comment

theorem trim_append_brace {head : Text} (full : StartsFull head) (body : Text) :
    trim (head ++ '{' :: body) = head ++ '{' :: trimEnd body := by
  have start := startsFull_append_brace full body
  have ends : EndsFull (head ++ ['{']) := EndsFull.append (by decide) (by simp) head
  calc
    trim (head ++ '{' :: body) = trimEnd (head ++ ['{'] ++ body) := by
      rw [trim, trimStart_eq_self start, List.append_assoc, List.singleton_append]
    _ = head ++ ['{'] ++ trimEnd body := trimEnd_append ends body
    _ = head ++ '{' :: trimEnd body := by rw [List.append_assoc, List.singleton_append]

theorem header_append_brace {head : Text} (single : '{' ∉ head) (body : Text) :
    header (head ++ '{' :: body) = head := by
  have stop : header ('{' :: body) = [] := List.takeWhile_cons_of_neg (by simp)
  rw [header_append single, stop, List.append_nil]

end Declaration

namespace Modifiers

open Declaration

def classifyHeader (m : Modifiers) (head : Text) : Declaration :=
  if saysClass head then .ofClass
  else if '(' ∈ head then ((m.signature? head).map .method).getD .unrecognized
  else .unrecognized

theorem classifyHeader_eq_ofClass_iff (m : Modifiers) (head : Text) :
    m.classifyHeader head = .ofClass ↔ saysClass head = true := by
  unfold classifyHeader
  split
  · rename_i isClass
    exact iff_of_true rfl isClass
  · rename_i other
    refine iff_of_false ?_ other
    split
    · cases m.signature? head with
      | none => exact fun same => by cases same
      | some s => exact fun same => by cases same
    · exact fun same => by cases same

theorem classifyHeader_eq_method_iff (m : Modifiers) {head : Text} (other : ¬ saysClass head = true)
    (s : Signature) : m.classifyHeader head = .method s ↔ '(' ∈ head ∧ m.signature? head = some s := by
  rw [classifyHeader, if_neg other]
  split
  · rename_i opened
    cases m.signature? head with
    | none => simp
    | some found => simp [opened]
  · rename_i absent
    simp [absent]

theorem classify_append (m : Modifiers) {front head : Text} (passed : IsCommentary front)
    (sound : IsHeader head) (body : Text) :
    m.classify (front ++ (head ++ '{' :: body)) = m.classifyHeader head := by
  have brace : '{' ∈ head ++ '{' :: trimEnd body := List.mem_append_right _ List.mem_cons_self
  rw [classify, passed.skipLineComments_append, sound.skipLineComments_append,
    trim_append_brace sound.full, header_append_brace sound.single]
  simp only [brace, true_and, classifyHeader]
  cases m.signature? head with
  | none => rfl
  | some s => rfl

/-- Only the header counts: what a text declares does not change with the comments in front of the header
and with what follows the brace. It is a class exactly if some word of the header is `class`, in any case,
and else a method exactly if the header holds a parenthesis and is read as the signature of it. -/
theorem classify_reads_header (m : Modifiers) {front head : Text} (passed : IsCommentary front)
    (sound : IsHeader head) (body : Text) :
    m.classify (front ++ (head ++ '{' :: body)) = m.classify (head ++ ['{']) ∧
      (m.classify (front ++ (head ++ '{' :: body)) = .ofClass ↔
        ∃ word ∈ words head, sameFolded "class".toList word = true) ∧
      ((¬ ∃ word ∈ words head, sameFolded "class".toList word = true) → ∀ s,
        m.classify (front ++ (head ++ '{' :: body)) = .method s ↔
          '(' ∈ head ∧ m.signature? head = some s) := by
  have bare := m.classify_append .nil sound []
  rw [List.nil_append] at bare
  rw [← List.any_eq_true, ← saysClass, bare, m.classify_append passed sound body]
  exact ⟨rfl, m.classifyHeader_eq_ofClass_iff head, m.classifyHeader_eq_method_iff⟩

theorem classify_reads_header_of_method :
    let front : Text := "// Sums.\n //\x7b\n".toList
    let head : Text := "public Integer add(Integer a) ".toList
    let body : Text := "\n return String.class;\n\x7d\nclass A \x7b \x7d".toList
    IsCommentary front ∧ IsHeader head ∧
      standard.classify (front ++ (head ++ '{' :: body)) = standard.classify (head ++ ['{']) ∧
      (∃ s, standard.signature? head = some s ∧
        standard.classify (front ++ (head ++ '{' :: body)) = .method s) ∧
      standard.classify (front ++ ("global\tClAſS Sums (\n".toList ++ '{' :: body)) = .ofClass := by
  intro front head body
  have second : IsCommentary "//\x7b\n".toList := @IsCommentary.line ['\x7b'] _ (by decide) .nil
  have passed : IsCommentary front :=
    @IsCommentary.line " Sums.".toList _ (by decide) (.blank (by decide) second)
  have sound : IsHeader head := ⟨by decide, by decide, by decide⟩
  obtain ⟨same, -, method⟩ := standard.classify_reads_header passed sound body
  have other : ¬ ∃ word ∈ words head, sameFolded "class".toList word = true := by decide +kernel
  obtain ⟨s, read⟩ := Option.isSome_iff_exists.1
    (show (standard.signature? head).isSome = true by decide +kernel)
  have named : IsHeader "global\tClAſS Sums (\n".toList := ⟨by decide, by decide, by decide⟩
  have isClass := (standard.classify_reads_header passed named body).2.1.2 (by decide +kernel)
  exact ⟨passed, sound, same, ⟨s, read, (method other s).2 ⟨by decide, read⟩⟩, isClass⟩

end Modifiers

end ApexTidy
