import ApexTidy.Text.Basic

/-!
Wildcard patterns for file names. A question mark stands for one character, an asterisk for any number
of them, brackets for one of a set; two asterisks as a whole piece of a path stand for any number of
folders.
-/

namespace ApexTidy

inductive Wildcard where
  | char (c : Char)
  | any
  | anyRun
  /-- One of the characters in some ranges, or one that is in none of them. -/
  | oneOf (ranges : List (Char × Char)) (negated : Bool)
deriving DecidableEq, Repr

namespace Wildcard

open Text

def ranges : Text → List (Char × Char)
  | [] => []
  | low :: '-' :: high :: rest => (low, high) :: ranges rest
  | c :: rest => (c, c) :: ranges rest

/-- Reads what brackets hold, after the opening one. At least one character stands in them, even if it
is a closing bracket. -/
def brackets? : Text → Option (Wildcard × Text)
  | '!' :: first :: t =>
    (breakAt? [']'] t).map fun (more, rest) => (oneOf (ranges (first :: more)) true, rest)
  | '!' :: [] => none
  | first :: t =>
    (breakAt? [']'] t).map fun (more, rest) => (oneOf (ranges (first :: more)) false, rest)
  | [] => none

theorem length_brackets? {t rest : Text} {w : Wildcard} (found : brackets? t = some (w, rest)) :
    rest.length < t.length := by
  unfold brackets? at found
  split at found
  · obtain ⟨⟨more, tail⟩, closed, same⟩ := Option.map_eq_some_iff.1 found
    cases same
    rw [eq_append_of_breakAt? closed]
    simp only [List.length_cons, List.length_append, List.length_nil]
    omega
  · simp at found
  · obtain ⟨⟨more, tail⟩, closed, same⟩ := Option.map_eq_some_iff.1 found
    cases same
    rw [eq_append_of_breakAt? closed]
    simp only [List.length_cons, List.length_append, List.length_nil]
    omega
  · simp at found

/-- Reads a pattern that follows the character `previous`. Two asterisks in a row must be a whole piece
of a path. -/
def readFrom? (previous : Option Char) (t : Text) : Option (List Wildcard) :=
  match t with
  | [] => some []
  | '?' :: rest => (readFrom? (some '?') rest).map (any :: ·)
  | '*' :: '*' :: rest =>
    if previous.all (· == '/') && rest.head?.all (· == '/') then
      (readFrom? (some '*') rest).map (anyRun :: ·)
    else
      none
  | '*' :: rest => (readFrom? (some '*') rest).map (anyRun :: ·)
  | '[' :: rest =>
    match _found : brackets? rest with
    | none => none
    | some (set, rest) => (readFrom? (some ']') rest).map (set :: ·)
  | c :: rest => (readFrom? (some c) rest).map (char c :: ·)
termination_by t.length
decreasing_by
  · simp
  · simp only [List.length_cons]; omega
  · simp
  · exact Nat.lt_succ_of_lt (length_brackets? _found)
  · simp

def read? (t : Text) : Option (List Wildcard) := readFrom? none t

def accepts : Wildcard → Char → Bool
  | char a, c => a == c
  | any, _ => true
  | anyRun, _ => true
  | oneOf ranges negated, c => ranges.any (fun (low, high) => low ≤ c && c ≤ high) != negated

def covers : List Wildcard → Text → Bool
  | [], name => name.isEmpty
  | anyRun :: rest, [] => covers rest []
  | anyRun :: rest, c :: name => covers rest (c :: name) || covers (anyRun :: rest) name
  | _ :: _, [] => false
  | w :: rest, c :: name => w.accepts c && covers rest name
termination_by ws name => ws.length + name.length

def literal? : List Wildcard → Option Text
  | [] => some []
  | char c :: rest => (literal? rest).map (c :: ·)
  | _ => none

end Wildcard

/-- One piece of a pattern: the names it stands for, and whether folders may come between. -/
structure PatternPiece where
  deep : Bool
  wildcards : List Wildcard
deriving DecidableEq, Repr

structure PathPattern where
  absolute : Bool
  pieces : List PatternPiece
  foldersOnly : Bool
deriving DecidableEq, Repr

namespace PathPattern

def cut (t : Text) : List Text :=
  let pieces := t.splitOn '/'
  if pieces.getLast? = some [] then pieces.dropLast else pieces

/-- The folder that every match of a pattern is below, with the slash after it. -/
def anchor (t : Text) : Text :=
  match Text.breakAtLast? ['/'] (t.takeWhile fun c => !"*?[".toList.contains c) with
  | some (folder, _) => folder ++ ['/']
  | none => []

/-- Reads pieces one by one. A piece of two asterisks makes the next one deep; as the last piece it
stands for folders, as the flag that is returned says. -/
def pieces? : Bool → List Text → Option (List PatternPiece × Bool)
  | deep, [] => some ([], deep)
  | deep, piece :: rest =>
    if piece = ['*', '*'] then pieces? true rest
    else
      match Wildcard.read? piece, pieces? false rest with
      | some wildcards, some (others, foldersOnly) => some (⟨deep, wildcards⟩ :: others, foldersOnly)
      | _, _ => none

def read? (t : Text) : Option PathPattern :=
  match Wildcard.read? t with
  | none => none
  | some _ =>
    let absolute := Text.startsWith ['/'] t
    let body := if absolute then t.drop 1 else t
    let texts := if body = [] then [[]] else cut body
    (pieces? false texts).map fun (pieces, foldersOnly) =>
      ⟨absolute, pieces, foldersOnly || Text.endsWith ['/'] t⟩

end PathPattern

end ApexTidy
