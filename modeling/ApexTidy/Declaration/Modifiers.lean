import ApexTidy.Text.Fold
import ApexTidy.Text.Space
import ApexTidy.Text.Word

/-!
Modifiers and annotations: the words in front of a declaration that say nothing about its type. A
modifier counts where it is a word of its own, not a part of a longer or of a qualified name; case does
not matter. An annotation is an at sign with a word, and may carry arguments in parentheses.
-/

namespace ApexTidy

structure Modifiers where
  keywords : List Text
  nonempty : ∀ keyword ∈ keywords, keyword ≠ []

namespace Modifiers

open Text

def builtIn : List Text :=
  ["public".toList, "private".toList, "protected".toList, "global".toList, "override".toList,
    "testmethod".toList, "static".toList, "virtual".toList, "abstract".toList, "final".toList,
    "transient".toList, "webservice".toList]

theorem builtIn_ne_nil : ∀ keyword ∈ builtIn, keyword ≠ [] := by decide

def standard : Modifiers := ⟨builtIn, builtIn_ne_nil⟩

/-- The built-in modifiers and further ones, of which blanks around them and blank ones are dropped. -/
def withExtra (extra : List Text) : Modifiers where
  keywords := builtIn ++ (extra.map trim).filter (!·.isEmpty)
  nonempty := by
    intro keyword member
    rcases List.mem_append.1 member with known | added
    · exact builtIn_ne_nil keyword known
    · intro none
      simp [none] at added

/-- A keyword that ends like a word must not run on into a longer one. -/
def endsLikeWord (keyword : Text) : Bool :=
  keyword.getLast?.any fun c => isAlphanumeric c || c == '_'

def afterKeyword? (keyword t : Text) : Option Text :=
  match splitFolded? keyword t with
  | none => none
  | some (head, rest) =>
    if endsLikeWord keyword && !isWordBoundary head.getLast? rest.head? then none else some rest

def afterAny? (m : Modifiers) (t : Text) : Option Text :=
  m.keywords.findSome? (afterKeyword? · t)

/-- A character after which a keyword may stand. -/
def isLead (c : Char) : Bool := !(isWord c || c == '.' || c == '@')

/-- What follows the arguments of an annotation; arguments that do not end are none. -/
def afterArguments (t : Text) : Text :=
  match trimStart t with
  | '(' :: inside =>
    match inside.dropWhile (· != ')') with
    | _ :: rest => rest
    | [] => t
  | _ => t

def afterAnnotation? : Text → Option Text
  | '@' :: t => if t.head?.any isWord then some (afterArguments (t.dropWhile isWord)) else none
  | _ => none

/-- What to keep of a modifier or annotation at the start of a text, and what follows it. Before a
keyword stands the start of the whole text or a character that stays. -/
def matchAt? (m : Modifiers) (isFirst : Bool) (t : Text) : Option (Text × Text) :=
  let atStart := if isFirst then (m.afterAny? t).map ([], ·) else none
  let afterLead :=
    match t with
    | c :: rest => if isLead c then (m.afterAny? rest).map ([c], ·) else none
    | [] => none
  atStart <|> afterLead <|> (afterAnnotation? t).map ([], ·)

theorem length_afterKeyword? {keyword t rest : Text} (nonempty : keyword ≠ [])
    (found : afterKeyword? keyword t = some rest) : rest.length < t.length := by
  unfold afterKeyword? splitFolded? at found
  have positive := List.length_pos_iff.2 nonempty
  dsimp only at found
  split at found
  · simp at found
  · rename_i head tail split
    split at split
    · rename_i same
      simp only [Option.some.injEq, Prod.mk.injEq] at split
      have lengths : keyword.length = (t.take keyword.length).length := by
        have := congrArg List.length (eq_of_beq same)
        simpa using this
      rw [List.length_take] at lengths
      split at found
      · simp at found
      · simp only [Option.some.injEq] at found
        rw [← found, ← split.2, List.length_drop]
        omega
    · simp at split

theorem length_afterAny? {m : Modifiers} {t rest : Text} (found : m.afterAny? t = some rest) :
    rest.length < t.length := by
  obtain ⟨keyword, member, after⟩ := List.exists_of_findSome?_eq_some found
  exact length_afterKeyword? (m.nonempty keyword member) after

theorem length_afterArguments (t : Text) : (afterArguments t).length ≤ t.length := by
  unfold afterArguments
  split
  · rename_i inside opened
    split
    · rename_i rest closed
      have outer := length_dropWhile_le isSpace t
      have inner := length_dropWhile_le (· != ')') inside
      rw [show t.dropWhile isSpace = '(' :: inside from opened] at outer
      rw [closed] at inner
      simp only [List.length_cons] at outer inner
      omega
    · exact Nat.le_refl _
  · exact Nat.le_refl _

theorem length_afterAnnotation? {t rest : Text} (found : afterAnnotation? t = some rest) :
    rest.length < t.length := by
  unfold afterAnnotation? at found
  split at found
  · rename_i tail
    split at found
    · simp only [Option.some.injEq] at found
      have arguments := length_afterArguments (tail.dropWhile isWord)
      have name := length_dropWhile_le isWord tail
      rw [← found, List.length_cons]
      omega
    · simp at found
  · simp at found

theorem length_matchAt? {m : Modifiers} {isFirst : Bool} {t kept rest : Text}
    (found : m.matchAt? isFirst t = some (kept, rest)) : rest.length < t.length := by
  unfold matchAt? at found
  simp only [Option.orElse_eq_orElse, Option.orElse_eq_or, Option.or_eq_some_iff] at found
  rcases found with first | ⟨-, lead | ⟨-, annotated⟩⟩
  · split at first
    · obtain ⟨r, after, same⟩ := Option.map_eq_some_iff.1 first
      cases same
      exact length_afterAny? after
    · simp at first
  · split at lead
    · split at lead
      · obtain ⟨r, after, same⟩ := Option.map_eq_some_iff.1 lead
        cases same
        exact Nat.lt_succ_of_lt (length_afterAny? after)
      · simp at lead
    · simp at lead
  · obtain ⟨r, after, same⟩ := Option.map_eq_some_iff.1 annotated
    cases same
    exact length_afterAnnotation? after

def stripFrom (m : Modifiers) (isFirst : Bool) (t : Text) : Text :=
  match t with
  | [] => []
  | c :: tail =>
    match _found : m.matchAt? isFirst (c :: tail) with
    | some (kept, rest) => kept ++ ' ' :: stripFrom m false rest
    | none => c :: stripFrom m false tail
termination_by t.length
decreasing_by
  · exact length_matchAt? _found
  · simp

def strip (m : Modifiers) (t : Text) : Text := m.stripFrom true t

end Modifiers

end ApexTidy
