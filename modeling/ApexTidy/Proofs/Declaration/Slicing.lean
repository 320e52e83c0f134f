import ApexTidy.Proofs.Declaration.Skipping
import ApexTidy.Proofs.Source.Slices

/-!
Reading a declaration on offsets. The text behind a line comment, the header in front of the first brace,
a header's two sides of its first parenthesis, its list of parameters, the pieces of that list, and the
type and the name in each are cut out at the offsets that searches give, and none of these cuts can fail.
-/

namespace ApexTidy

open Text

theorem Text.add_size_of_slice? {t piece : Text} {start stop : Nat}
    (cut : t.slice? start stop = some piece) : start + size piece = stop := by
  obtain ⟨r, found, rfl⟩ := Option.map_eq_some_iff.1 cut
  obtain ⟨-, rfl, rfl⟩ := Region.of_ofOffsets? found
  rfl

theorem Text.size_trimStart_le (t : Text) : size (trimStart t) ≤ size t := by
  have parts := congrArg size (leadingSpace_append_trimStart t)
  rw [size_append] at parts
  omega

namespace Declaration

def skip? (t : Text) : Option Text :=
  if startsWith ['/', '/'] (trimStart t) then
    match find? ['\n'] (trimStart t) with
    | none => some []
    | some feed =>
      match _cut : (trimStart t).slice? (feed + 1) (size (trimStart t)) with
      | none => none
      | some below => skip? below
  else
    some (trimStart t)
termination_by size t
decreasing_by
  have parts := add_size_of_slice? _cut
  have fits := size_trimStart_le t
  omega

theorem skipFrom_true_append {comment : Text} (single : '\n' ∉ comment) (t : Text) :
    skipFrom true (comment ++ '\n' :: t) = skipFrom false t := by
  induction comment with
  | nil => rfl
  | cons c comment ih =>
    rw [List.mem_cons, not_or] at single
    rw [List.cons_append, skipFrom, show (c != '\n') = true by simpa using Ne.symm single.1]
    exact ih single.2

theorem skipFrom_true_of_not_mem {comment : Text} (single : '\n' ∉ comment) :
    skipFrom true comment = [] := by
  induction comment with
  | nil => rfl
  | cons c comment ih =>
    rw [List.mem_cons, not_or] at single
    rw [skipFrom, show (c != '\n') = true by simpa using Ne.symm single.1]
    exact ih single.2

theorem skipLineComments_of_comment {t : Text} (opened : ['/', '/'] <+: trimStart t) :
    skipLineComments t = skipFrom true (trimStart t) := by
  have comment := startsWith_iff.2 opened
  conv => lhs; rw [← leadingSpace_append_trimStart t]
  rw [skipLineComments_append (isBlank_leadingSpace t), skipLineComments]
  obtain ⟨rest, same⟩ := opened
  rw [← same] at comment ⊢
  have start : skipFrom false ('/' :: '/' :: rest) = skipFrom true ('/' :: rest) := by
    conv => lhs; rw [skipFrom]
    rw [if_neg (by decide)]
    exact if_pos comment
  exact start

theorem skip?_eq_some (t : Text) : skip? t = some (skipLineComments t) := by
  fun_induction skip? t with
  | case1 t opened unended =>
    rw [skipLineComments_of_comment (startsWith_iff.1 opened),
      skipFrom_true_of_not_mem (find?_singleton_eq_none_iff.1 unended)]
  | case2 t opened feed ended cut =>
    obtain ⟨comment, below, whole, -, rfl⟩ := exists_of_find?_singleton ended
    rw [whole, slice?_belowRow] at cut
    cases cut
  | case3 t opened feed ended below cut ih =>
    obtain ⟨comment, rest, whole, single, rfl⟩ := exists_of_find?_singleton ended
    rw [whole, slice?_belowRow] at cut
    obtain rfl := Option.some.inj cut
    rw [ih, skipLineComments_of_comment (startsWith_iff.1 opened), whole, List.append_assoc,
      List.singleton_append, skipFrom_true_append single]
    rfl
  | case4 t unopened =>
    rw [startsWith_iff] at unopened
    rw [skipLineComments_eq_trimStart unopened]

def header? (t : Text) : Option Text := t.slice? 0 ((find? ['{'] t).getD (size t))

theorem header_append {head : Text} (absent : '{' ∉ head) (t : Text) :
    header (head ++ t) = head ++ header t := by
  apply List.takeWhile_append_of_pos
  intro c member
  rw [bne_iff_ne]
  exact fun same => absent (same ▸ member)

theorem header?_eq_some (t : Text) : header? t = some (header t) := by
  rw [header?]
  cases found : find? ['{'] t with
  | none =>
    have all := header_append (find?_singleton_eq_none_iff.1 found) []
    have cut := slice?_beginning t []
    rw [List.append_nil] at all cut
    rw [all, Option.getD_none, cut]
    simp [header]
  | some brace =>
    obtain ⟨head, body, rfl, absent, rfl⟩ := exists_of_find?_singleton found
    rw [List.append_assoc, header_append absent]
    exact (slice?_beginning ..).trans (congrArg some (List.append_nil head).symm)

end Declaration

namespace Signature

/-- The offset of the parenthesis that closes a list of which `depth` inner parentheses are open; the
size of the text, if there is none. -/
def closing : Nat → Text → Nat
  | _, [] => 0
  | depth, '(' :: t => '('.utf8Size + closing (depth + 1) t
  | 0, ')' :: _ => 0
  | depth + 1, ')' :: t => ')'.utf8Size + closing depth t
  | depth, c :: t => c.utf8Size + closing depth t

theorem upToClose_prefix (depth : Nat) (t : Text) : upToClose depth t <+: t := by
  fun_induction upToClose depth t with
  | case1 => exact List.nil_prefix
  | case2 depth t ih => exact List.cons_prefix_cons.2 ⟨rfl, ih⟩
  | case3 => exact List.nil_prefix
  | case4 depth t ih => exact List.cons_prefix_cons.2 ⟨rfl, ih⟩
  | case5 depth c t _ _ _ ih => exact List.cons_prefix_cons.2 ⟨rfl, ih⟩

theorem closing_eq (depth : Nat) (t : Text) : closing depth t = size (upToClose depth t) := by
  fun_induction upToClose depth t with
  | case1 => rfl
  | case2 depth t ih => rw [closing, ih, size_cons]
  | case3 => rfl
  | case4 depth t ih => rw [closing, ih, size_cons]
  | case5 depth c t opens closes inner ih =>
    rw [closing, ih, size_cons]
    · exact opens
    · exact closes
    · exact inner

theorem slice?_upToClose (t : Text) : t.slice? 0 (closing 0 t) = some (upToClose 0 t) := by
  obtain ⟨rest, whole⟩ := upToClose_prefix 0 t
  have cut := slice?_beginning (upToClose 0 t) rest
  rwa [whole, ← closing_eq] at cut

/-- The offsets of the pieces of a list. The piece that is being read starts at `start`, and `place` is
how far the list has been read. -/
def spansFrom (depth start place : Nat) : Text → List (Nat × Nat)
  | [] => [(start, place)]
  | c :: t =>
    if c = ',' ∧ depth = 0 then (start, place) :: spansFrom 0 (place + 1) (place + 1) t
    else spansFrom (nesting depth c) start (place + c.utf8Size) t

def pieces? (t : Text) : Option (List Text) :=
  (spansFrom 0 0 0 t).mapM fun span => t.slice? span.1 span.2

theorem mapM_slice?_spansFrom {t before current rest : Text} {depth start place : Nat}
    (whole : t = before ++ current ++ rest) (first : start = size before)
    (last : place = size (before ++ current)) :
    (spansFrom depth start place rest).mapM (fun span => t.slice? span.1 span.2) =
      some ((piecesFrom depth rest).modifyHead (current ++ ·)) := by
  induction rest generalizing depth before current start place with
  | nil => simp [spansFrom, piecesFrom, slice?_eq_some whole first last]
  | cons c rest ih =>
    rw [spansFrom, piecesFrom]
    split
    · rename_i comma
      obtain ⟨rfl, rfl⟩ := comma
      have next : t = before ++ current ++ [','] ++ [] ++ rest := by simp [whole]
      have behind : place + 1 = size (before ++ current ++ [',']) := by
        rw [last, size_append _ [',']]
        rfl
      have others := @ih (before ++ current ++ [',']) [] 0 _ _ next behind (by simpa using behind)
      have same : (piecesFrom 0 rest).modifyHead ([] ++ ·) = piecesFrom 0 rest :=
        congrFun List.modifyHead_id _
      rw [List.mapM_cons, slice?_eq_some whole first last, others, same]
      simp
    · have next : t = before ++ (current ++ [c]) ++ rest := by simp [whole]
      have further : place + c.utf8Size = size (before ++ (current ++ [c])) := by
        rw [last, ← List.append_assoc, size_append _ [c]]
        rfl
      rw [ih next first further, List.modifyHead_modifyHead]
      simp [Function.comp_def]

theorem pieces?_eq_some (t : Text) : pieces? t = some (pieces t) := by
  have cut := @mapM_slice?_spansFrom t [] [] t 0 0 0 rfl rfl rfl
  rw [pieces?, cut, pieces]
  exact congrArg some (congrFun List.modifyHead_id _)

def lastBlank? : Text → Option Nat
  | [] => none
  | c :: t =>
    match lastBlank? t with
    | some place => some (c.utf8Size + place)
    | none => if isSpace c then some 0 else none

theorem lastBlank?_cases (t : Text) :
    (lastBlank? t = none ∧ ∀ c ∈ t, isSpace c = false) ∨
      ∃ a c b, t = a ++ c :: b ∧ isSpace c = true ∧ (∀ d ∈ b, isSpace d = false) ∧
        lastBlank? t = some (size a) := by
  induction t with
  | nil => exact Or.inl ⟨rfl, by simp⟩
  | cons c t ih =>
    rw [lastBlank?]
    rcases ih with ⟨none, solid⟩ | ⟨a, d, b, rfl, blank, solid, found⟩
    · rw [none]
      cases space : isSpace c with
      | true => exact Or.inr ⟨[], c, t, rfl, space, solid, rfl⟩
      | false => exact Or.inl ⟨rfl, List.forall_mem_cons.2 ⟨space, solid⟩⟩
    · rw [found]
      exact Or.inr ⟨c :: a, d, b, rfl, blank, solid, rfl⟩

/-- A type and a name, cut apart at the last blank; the outer option is for the cuts. -/
def cutParameter? (piece : Text) : Option (Option Parameter) :=
  match lastBlank? (trim piece) with
  | none => some none
  | some place => do
    let type ← (trim piece).slice? 0 place
    let name ← (trim piece).slice? place (size (trim piece))
    return if normalize type ≠ [] ∧ isIdentifier (trim name) then some ⟨trim name, normalize type⟩
      else none

theorem cutParameter?_eq_some (piece : Text) : cutParameter? piece = some (parameter? piece) := by
  have same : lastWord? piece = lastWord? (trim piece) := by rw [lastWord?, lastWord?, words_trim]
  rw [cutParameter?, parameter?, same]
  have full := (trimmed_trim piece).stop
  generalize trim piece = t at full
  rcases lastBlank?_cases t with ⟨none, solid⟩ | ⟨a, c, b, rfl, blank, solid, found⟩
  · rw [none, lastWord?_of_solid solid]
    by_cases empty : t = []
    · simp [empty]
    · simp [empty]
  · have nonempty : b ≠ [] := by
      rintro rfl
      rw [EndsFull, List.getLast?_concat, Option.any_some, blank] at full
      cases full
    have type := slice?_beginning a (c :: b)
    have name := @slice?_eq_some (a ++ c :: b) a (c :: b) [] _ _ (by simp) rfl rfl
    have tight : trim (c :: b) = b := by
      have start : isBlank [c] = true := by simpa [isBlank] using blank
      exact (trim_append_of_isBlank_left start b).trans (trimmed_of_solid solid).trim_eq
    rw [found, lastWord?_append_cons blank nonempty solid]
    simp only [Option.bind_eq_bind, type, name, Option.bind_some, tight]
    rfl

def parametersOf? (t : Text) : Option Parameters := do
  let list ← t.slice? 0 (closing 0 t)
  let parts ← pieces? list
  let parameters ← parts.mapM cutParameter?
  return .ofList (parameters.filterMap id)

theorem mapM_cutParameter? (parts : List Text) :
    parts.mapM cutParameter? = some (parts.map parameter?) := by
  rw [show cutParameter? = fun piece => pure (parameter? piece) from funext cutParameter?_eq_some]
  exact List.mapM_pure

theorem parametersOf?_eq_some (t : Text) : parametersOf? t = some (parametersOf (upToClose 0 t)) := by
  rw [parametersOf?, parametersOf]
  simp only [Option.bind_eq_bind, slice?_upToClose, pieces?_eq_some, mapM_cutParameter?,
    Option.bind_some, List.filterMap_map, Function.id_comp]
  rfl

theorem parameters_of_ofParts? {head list : Text} {s : Signature} (found : ofParts? head list = some s) :
    s.parameters = parametersOf (upToClose 0 list) := by
  unfold ofParts? at found
  cases parts : lastWord? head with
  | none =>
    rw [parts] at found
    cases found
  | some part =>
    rw [parts] at found
    simp only [Option.ite_none_right_eq_some] at found
    obtain ⟨-, same⟩ := found
    cases same
    rfl

end Signature

namespace Modifiers

variable (m : Modifiers)

def cutSignature? (header : Text) : Option (Option Signature) :=
  match find? ['('] (trim (m.strip header)) with
  | none => some none
  | some paren => do
    let head ← (trim (m.strip header)).slice? 0 (paren + 1)
    let list ← (trim (m.strip header)).slice? (paren + 1) (size (trim (m.strip header)))
    let parameters ← Signature.parametersOf? list
    return (Signature.ofParts? head.dropLast list).map ({ · with parameters })

theorem cutSignature?_eq_some (header : Text) : m.cutSignature? header = some (m.signature? header) := by
  rw [cutSignature?, signature?]
  generalize trim (m.strip header) = t
  rw [find?]
  cases found : breakAt? ['('] t with
  | none => rfl
  | some parts =>
    obtain ⟨head, list⟩ := parts
    obtain rfl := eq_append_of_breakAt? found
    have upTo := slice?_beginning (head ++ ['(']) list
    have behind := @slice?_eq_some _ (head ++ ['(']) list [] _ _ (List.append_nil _).symm rfl rfl
    have place : size (head ++ ['(']) = size head + 1 := size_append ..
    rw [place] at upTo behind
    simp only [Option.map_some, Option.bind_eq_bind, upTo, behind, Signature.parametersOf?_eq_some,
      Option.bind_some, List.dropLast_concat]
    cases read : Signature.ofParts? head list with
    | none => rfl
    | some signature =>
      rw [← Signature.parameters_of_ofParts? read]
      rfl

open Declaration

def classify? (t : Text) : Option Declaration := do
  let rest ← skip? t
  let header ← header? (trim rest)
  if saysClass header then return .ofClass
  else if '{' ∈ trim rest ∧ '(' ∈ header then
    match ← m.cutSignature? header with
    | some signature => return .method signature
    | none => return .unrecognized
  else return .unrecognized

theorem classify?_eq_some (t : Text) : m.classify? t = some (m.classify t) := by
  rw [classify?, classify]
  simp only [Option.bind_eq_bind, skip?_eq_some, header?_eq_some, cutSignature?_eq_some,
    Option.bind_some]
  split
  · rfl
  · split
    · cases m.signature? (header (trim (skipLineComments t))) with
      | none => rfl
      | some signature => rfl
    · rfl

end Modifiers

end ApexTidy
